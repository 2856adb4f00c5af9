import SumLang.Proofs.Lexemes

/-! The scanner takes the longest lexeme at every place. -/
namespace SumLang.Token

section Longest

variable {c : Char} {cs : List Char}

theorem length_le_takeWhile {q : Char → Bool} {v : List Char} (hv : v <+: cs)
    (hq : ∀ d ∈ v, q d = true) : v.length ≤ (cs.takeWhile q).length := by
  obtain ⟨r, rfl⟩ := hv
  rw [List.takeWhile_append_of_pos hq, List.length_append]
  omega

/-- Only lexemes with the same first character compete. -/
theorem longest_cons {w : List Char} (hw : w <+: cs) (hl : IsLexeme (c :: w))
    (hv : ∀ v, v <+: cs → IsLexeme (c :: v) → v.length ≤ w.length) :
    Longest (c :: w) (c :: cs) where
  start := by simpa using hw
  lexeme := hl
  greatest v hpre hlex := by
    obtain ⟨a, p, hs⟩ := hlex
    obtain ⟨d, v, rfl⟩ := hs.exists_cons
    obtain ⟨rfl, hpre'⟩ := List.cons_prefix_cons.1 hpre
    have hle := hv v hpre' ⟨a, p, hs⟩
    simpa using hle

theorem isWordPart_iff {d : Char} : isWordPart d = true ↔ d.isAlphanum = true ∨ d = '_' := by
  simp [isWordPart]

theorem IsIdentifier.isWordPart_of_mem {x : String} {d : Char} (h : IsIdentifier x)
    (hd : d ∈ x.toList) : isWordPart d = true := by
  obtain ⟨c, cs, hx, hc, hcs⟩ := h.exists_word
  rw [hx] at hd
  rcases List.mem_cons.1 hd with rfl | hd
  · simp [isWordPart, Char.isAlphanum, hc]
  · exact isWordPart_iff.2 (hcs d hd)

theorem longest_word (hc : c.isAlpha = true) :
    Longest (c :: cs.takeWhile isWordPart) (c :: cs) := by
  have hpart : ∀ d ∈ cs.takeWhile isWordPart, d.isAlphanum = true ∨ d = '_' :=
    fun d hd => isWordPart_iff.1 (List.all_eq_true.1 List.all_takeWhile d hd)
  refine longest_cons (List.takeWhile_prefix _) ⟨_, _, .word hc hpart⟩ ?_
  rintro v hv ⟨a, p, hs⟩
  obtain ⟨hall, -, -⟩ := hs.word_of_isAlpha hc
  exact length_le_takeWhile hv fun d hd => isWordPart_iff.2 (hall d hd)

theorem longest_arrow : Longest ['-', '>'] ('-' :: '>' :: cs) := by
  refine longest_cons (by simp) ⟨_, _, .arrow⟩ ?_
  rintro v - ⟨a, p, hs⟩
  rcases hs.mark_of_mem (s := .operator) (q := 20) (by decide) with ⟨rfl, -⟩ | ⟨-, rfl, -⟩
  · simp
  · simp

theorem longest_mark {s : Symbol} {p : Int} (hm : (c, s, p) ∈ marks)
    (harrow : ¬ (c = '-' ∧ cs.head? = some '>')) : Longest [c] (c :: cs) := by
  refine longest_cons List.nil_prefix ⟨_, _, .mark hm⟩ ?_
  rintro v ⟨r, rfl⟩ ⟨a, p, hs⟩
  rcases hs.mark_of_mem hm with ⟨rfl, -⟩ | ⟨rfl, rfl, -⟩
  · simp
  · simp at harrow

theorem fraction_eq_cons {f : Char} {fs : List Char} (h : fraction cs = f :: fs) :
    ∃ r, cs = '.' :: r ∧ r.takeWhile Char.isDigit = f :: fs := by
  unfold fraction at h
  split at h
  · exact ⟨_, rfl, h⟩
  · simp at h

theorem isDigit_of_fraction {f : Char} {fs : List Char} (h : fraction cs = f :: fs) :
    ∀ x ∈ f :: fs, x.isDigit = true := by
  obtain ⟨r, -, hr⟩ := fraction_eq_cons h
  rw [← hr]
  exact List.all_eq_true.1 List.all_takeWhile

theorem takeWhile_isDigit {ds : List Char} (hd : ∀ x ∈ ds, x.isDigit = true) (r : List Char) :
    (ds ++ '.' :: r).takeWhile Char.isDigit = ds := by
  have hdot : ('.' :: r).takeWhile Char.isDigit = [] := rfl
  rw [List.takeWhile_append_of_pos hd, hdot, List.append_nil]

/-- A prefix of the form of a float has the whole part and a start of the fraction. -/
theorem fraction_of_float_start {ds fs : List Char} {f : Char} (h : ds ++ '.' :: f :: fs <+: cs)
    (hd : ∀ x ∈ ds, x.isDigit = true) (hf : ∀ x ∈ f :: fs, x.isDigit = true) :
    cs.takeWhile Char.isDigit = ds ∧ f :: fs <+: fraction (cs.dropWhile Char.isDigit) := by
  obtain ⟨r, rfl⟩ := h
  have hdrop : fraction (('.' :: (f :: fs ++ r)).dropWhile Char.isDigit) =
      (f :: fs ++ r).takeWhile Char.isDigit := rfl
  rw [List.append_assoc, List.cons_append, takeWhile_isDigit hd, List.dropWhile_append_of_pos hd,
    hdrop, List.takeWhile_append_of_pos hf]
  exact ⟨rfl, List.prefix_append ..⟩

theorem isDigit_of_mem (hc : c.isDigit = true) :
    ∀ x ∈ c :: cs.takeWhile Char.isDigit, x.isDigit = true := by
  intro x hx
  rcases List.mem_cons.1 hx with rfl | hx
  · exact hc
  · exact List.all_eq_true.1 List.all_takeWhile x hx

theorem longest_integer (hc : c.isDigit = true)
    (hf : fraction (cs.dropWhile Char.isDigit) = []) :
    Longest (c :: cs.takeWhile Char.isDigit) (c :: cs) := by
  refine longest_cons (List.takeWhile_prefix _) ⟨_, _, .integer (isDigit_of_mem hc)⟩ ?_
  rintro v hv ⟨a, p, hs⟩
  rcases hs.number_of_isDigit hc with ⟨hd, -, -⟩ | ⟨ds, f, fs, rfl, hd, hfs, -, -⟩
  · exact length_le_takeWhile hv fun d hm => hd d (by simp [hm])
  · have hpre := (fraction_of_float_start hv (fun d hm => hd d (by simp [hm])) hfs).2
    simp [hf] at hpre

theorem longest_float {f : Char} {fs : List Char} (hc : c.isDigit = true)
    (hf : fraction (cs.dropWhile Char.isDigit) = f :: fs) :
    Longest (c :: (cs.takeWhile Char.isDigit ++ '.' :: f :: fs)) (c :: cs) := by
  obtain ⟨r, hr, hfs⟩ := fraction_eq_cons hf
  have hpre : cs.takeWhile Char.isDigit ++ '.' :: f :: fs <+: cs := by
    have hsplit := List.takeWhile_append_dropWhile (p := Char.isDigit) (l := cs)
    rw [hr] at hsplit
    rw [← hfs]
    conv => rhs; rw [← hsplit]
    simpa using List.takeWhile_prefix Char.isDigit
  have hdigits := isDigit_of_fraction hf
  refine longest_cons hpre ⟨_, _, .float (isDigit_of_mem hc) hdigits⟩ ?_
  rintro v hv ⟨a, p, hs⟩
  rcases hs.number_of_isDigit hc with ⟨hd, -, -⟩ | ⟨ds, f', fs', rfl, hd, hfs', -, -⟩
  · have hle := length_le_takeWhile hv fun d hm => hd d (by simp [hm])
    simp only [List.length_append]
    omega
  · obtain ⟨rfl, hpre'⟩ := fraction_of_float_start hv (fun d hm => hd d (by simp [hm])) hfs'
    rw [hf] at hpre'
    have hle := hpre'.length_le
    simp only [List.length_append, List.length_cons] at hle ⊢
    omega

theorem stringBody_of_quoted {b s : List Char} (h : Quoted b s) (r : List Char) :
    stringBody (b ++ '"' :: r) = some (s, b.length + 1) := by
  induction h with
  | nil => rfl
  | escape hq ih => simp [stringBody, ih]
  | plain hquote hline hback hq ih => simp [stringBody, ih, hback]

theorem quoted_of_stringBody {s : List Char} {n : Nat} (h : stringBody cs = some (s, n)) :
    ∃ b r, cs = b ++ '"' :: r ∧ Quoted b s ∧ n = b.length + 1 := by
  fun_induction stringBody cs generalizing s n with
  | case1 => simp at h
  | case2 r =>
    obtain ⟨rfl, rfl⟩ : [] = s ∧ 1 = n := by simpa using h
    exact ⟨[], r, rfl, .nil, rfl⟩
  | case3 => simp at h
  | case4 c cs ih =>
    obtain ⟨⟨s', n'⟩, hbody, heq⟩ := Option.map_eq_some_iff.1 h
    obtain ⟨b, r, rfl, hq, rfl⟩ := ih hbody
    simp only [Prod.mk.injEq] at heq
    obtain ⟨rfl, rfl⟩ := heq
    exact ⟨'\\' :: c :: b, r, rfl, .escape hq, rfl⟩
  | case5 c cs hquote hline hback ih =>
    obtain ⟨⟨s', n'⟩, hbody, heq⟩ := Option.map_eq_some_iff.1 h
    obtain ⟨b, r, rfl, hq, rfl⟩ := ih hbody
    simp only [Prod.mk.injEq] at heq
    obtain ⟨rfl, rfl⟩ := heq
    obtain ⟨d, rest, hd⟩ := List.exists_cons_of_ne_nil (l := b ++ '"' :: r) (by simp)
    exact ⟨c :: b, r, rfl, .plain hquote hline (fun hc => hback d rest hc hd) hq, rfl⟩

theorem longest_string {b s : List Char} (h : Quoted b s) (r : List Char) :
    Longest ('"' :: (b ++ ['"'])) ('"' :: (b ++ '"' :: r)) := by
  refine longest_cons (by simp) ⟨_, _, .string h⟩ ?_
  rintro v ⟨r', hv⟩ ⟨a, p, hs⟩
  obtain ⟨b', s', rfl, hq, -, -⟩ := hs.string_of_quote
  have hbody := stringBody_of_quoted h r
  rw [← hv, List.append_assoc, List.singleton_append, stringBody_of_quoted hq] at hbody
  simp only [Option.some.injEq, Prod.mk.injEq] at hbody
  simp only [List.length_append, List.length_singleton]
  omega

end Longest

/-- A lexeme stands for one thing only. -/
theorem Spells.unique {w : List Char} {a b : Content} {p q : Int} (h : Spells w a p)
    (h' : Spells w b q) : a = b ∧ p = q := by
  obtain ⟨c, v, rfl⟩ := h.exists_cons
  rcases h.start with hc | hc | rfl | ⟨s, r, hc⟩
  · obtain ⟨-, rfl, rfl⟩ := h.word_of_isAlpha hc
    obtain ⟨-, rfl, rfl⟩ := h'.word_of_isAlpha hc
    exact ⟨rfl, rfl⟩
  · rcases h.number_of_isDigit hc with ⟨hd, rfl, rfl⟩ | ⟨ds, f, fs, rfl, hd, hf, rfl, rfl⟩
    · rcases h'.number_of_isDigit hc with ⟨-, rfl, rfl⟩ | ⟨ds, f, fs, rfl, -⟩
      · exact ⟨rfl, rfl⟩
      · exact absurd (hd '.' (by simp)) (by decide)
    · rcases h'.number_of_isDigit hc with ⟨hall, -⟩ | ⟨ds', f', fs', heq, hd', hf', rfl, rfl⟩
      · exact absurd (hall '.' (by simp)) (by decide)
      · obtain rfl : ds' = ds := by
          have hds := takeWhile_isDigit (fun x hx => hd x (List.mem_cons_of_mem c hx)) (f :: fs)
          rwa [heq, takeWhile_isDigit fun x hx => hd' x (List.mem_cons_of_mem c hx)] at hds
        simp only [List.append_cancel_left_eq, List.cons.injEq, true_and] at heq
        obtain ⟨rfl, rfl⟩ := heq
        exact ⟨rfl, rfl⟩
  · obtain ⟨cs, s, rfl, hq, rfl, rfl⟩ := h.string_of_quote
    obtain ⟨cs', s', heq, hq', rfl, rfl⟩ := h'.string_of_quote
    obtain rfl := List.append_cancel_right heq
    have hbody := (stringBody_of_quoted hq []).symm.trans (stringBody_of_quoted hq' [])
    simp only [Option.some.injEq, Prod.mk.injEq, and_true] at hbody
    rw [hbody]
    exact ⟨rfl, rfl⟩
  · rcases h.mark_of_mem hc with ⟨rfl, rfl, rfl⟩ | ⟨-, rfl, rfl, rfl⟩
    · rcases h'.mark_of_mem hc with ⟨-, rfl, rfl⟩ | ⟨-, heq, -⟩
      · exact ⟨rfl, rfl⟩
      · simp at heq
    · rcases h'.mark_of_mem hc with ⟨heq, -⟩ | ⟨-, -, rfl, rfl⟩
      · simp at heq
      · exact ⟨rfl, rfl⟩

section Scanner

variable {position : Nat} {c : Char} {cs : List Char}

theorem mem_marks_of_operatorPrecedence? {p : Int}
    (h : operatorPrecedence? c.toString = some p) : (c, .operator, p) ∈ marks := by
  unfold operatorPrecedence? at h
  split at h
  case h_5 => simp at h
  all_goals
    next heq =>
    obtain rfl : c = _ := by simpa using congrArg String.toList heq
    obtain rfl := Option.some.inj h
    decide

theorem mem_marks_of_ofPunctuation? {s : Symbol} (h : Symbol.ofPunctuation? c = some s) :
    (c, s, -1) ∈ marks := by
  unfold Symbol.ofPunctuation? at h
  split at h
  case h_10 => simp at h
  all_goals
    obtain rfl := Option.some.inj h
    decide

theorem tables_of_mem_marks {m : Char × Symbol × Int} (h : m ∈ marks) :
    (operatorPrecedence? m.1.toString = some m.2.2 ∧ m.2.1 = .operator) ∨
      (operatorPrecedence? m.1.toString = none ∧ Symbol.ofPunctuation? m.1 = some m.2.1 ∧
        m.2.2 = -1) := by
  have hall : ∀ m ∈ marks, (operatorPrecedence? m.1.toString = some m.2.2 ∧ m.2.1 = .operator) ∨
      (operatorPrecedence? m.1.toString = none ∧ Symbol.ofPunctuation? m.1 = some m.2.1 ∧
        m.2.2 = -1) := by decide
  exact hall m h

/-- A character that is no mark is in neither table. -/
theorem tables_of_not_mark (h : ∀ s p, (c, s, p) ∉ marks) :
    operatorPrecedence? c.toString = none ∧ Symbol.ofPunctuation? c = none := by
  refine ⟨Option.eq_none_iff_forall_ne_some.2 fun p hp => ?_,
    Option.eq_none_iff_forall_ne_some.2 fun s hs => ?_⟩
  · exact h _ _ (mem_marks_of_operatorPrecedence? hp)
  · exact h _ _ (mem_marks_of_ofPunctuation? hs)

theorem lexeme_word (hc : c.isAlpha = true) : lexeme position c cs = .ok (word c cs) := by
  simp [lexeme, isWordStart, hc]

theorem lexeme_arrow :
    lexeme position '-' ('>' :: cs) = .ok ⟨.symbol .arrow "->", 1, -1⟩ := by
  simp [lexeme, isWordStart]

theorem lexeme_mark {s : Symbol} {p : Int} (hm : (c, s, p) ∈ marks)
    (harrow : ¬ (c = '-' ∧ cs.head? = some '>')) :
    lexeme position c cs = .ok ⟨.symbol s c.toString, 0, p⟩ := by
  have halpha : c.isAlpha = false := (start_of_mem_marks hm).1
  rcases tables_of_mem_marks hm with ⟨hp, rfl⟩ | ⟨hp, hs, rfl⟩ <;>
    simp only [Char.toString_eq_singleton] at hp
  · simp [lexeme, isWordStart, halpha, harrow, hp]
  · simp [lexeme, isWordStart, halpha, harrow, hp, hs]

theorem lexeme_number (hc : c.isDigit = true) : lexeme position c cs = number c cs := by
  have hm : ∀ s p, (c, s, p) ∉ marks := fun s p hm => by
    simp [(start_of_mem_marks hm).2.1] at hc
  obtain ⟨hp, hs⟩ := tables_of_not_mark hm
  have hminus : c ≠ '-' := by
    rintro rfl
    exact absurd hc (by decide)
  rw [Char.toString_eq_singleton] at hp
  simp [lexeme, isWordStart, not_isAlpha_of_isDigit hc, hminus, hp, hs, hc]

theorem lexeme_string {s : List Char} {n : Nat} (h : stringBody cs = some (s, n)) :
    lexeme position '"' cs = .ok ⟨.string (String.ofList s), n, -1⟩ := by
  simp [lexeme, isWordStart, operatorPrecedence?, Symbol.ofPunctuation?, h]

theorem lexeme_unterminated (h : stringBody cs = none) :
    lexeme position '"' cs = .error (.unterminatedString position) := by
  simp [lexeme, isWordStart, operatorPrecedence?, Symbol.ofPunctuation?, h]

theorem lexeme_invalid (halpha : c.isAlpha = false) (hdigit : c.isDigit = false) (hquote : c ≠ '"')
    (hm : ∀ s p, (c, s, p) ∉ marks) :
    lexeme position c cs = .error (.invalidCharacter c position) := by
  obtain ⟨hp, hs⟩ := tables_of_not_mark hm
  have hminus : c ≠ '-' := by
    rintro rfl
    exact hm .operator 20 (by decide)
  rw [Char.toString_eq_singleton] at hp
  simp [lexeme, isWordStart, halpha, hdigit, hquote, hminus, hp, hs]

end Scanner

end SumLang.Token
