import SumLang.Proofs.LongestLexeme

/-! The tokens of a text are its decomposition into longest lexemes. -/
namespace SumLang.Token

/-- The text `cs` starts with a token: its longest lexeme `w`, which has a value. An integer has one
up to a limit on its digits. -/
structure Takes (cs w : List Char) (a : Content) (p : Int) : Prop where
  longest : Longest w cs
  spells : Spells w a p
  limit : (∀ x ∈ w, x.isDigit = true) → w.length ≤ maxIntegerDigits

/-- The text that stands at `position` is not blank there and starts with no token, for the given
reason. -/
inductive Blocked (position : Nat) : List Char → LexFault → Prop where
  | unterminated {cs : List Char} :
    (∀ w, w <+: '"' :: cs → ¬ IsLexeme w) →
    Blocked position ('"' :: cs) (.unterminatedString position)
  | invalid {c : Char} {cs : List Char} :
    isSpace c = false → c ≠ '"' → (∀ w, w <+: c :: cs → ¬ IsLexeme w) →
    Blocked position (c :: cs) (.invalidCharacter c position)
  | tooLong {ds cs : List Char} :
    Longest ds cs → (∀ d ∈ ds, d.isDigit = true) → maxIntegerDigits < ds.length →
    Blocked position cs (.integerTooLong ds.length)

section Lexeme

variable {position : Nat} {c : Char} {cs w : List Char} {a : Content} {p : Int}

theorem takes_word (hc : c.isAlpha = true) :
    ∃ w a p, lexeme position c cs = .ok ⟨a, w.length, p⟩ ∧ Takes (c :: cs) (c :: w) a p := by
  have hlongest : Longest (c :: cs.takeWhile isWordPart) (c :: cs) := longest_word hc
  obtain ⟨a, p, hs⟩ := hlongest.lexeme
  obtain ⟨-, rfl, rfl⟩ := hs.word_of_isAlpha hc
  refine ⟨_, _, _, lexeme_word hc, hlongest, hs, fun hd => ?_⟩
  simp [not_isAlpha_of_isDigit (hd c (by simp))] at hc

theorem takes_mark {s : Symbol} {q : Int} (hm : (c, s, q) ∈ marks) :
    ∃ w a p, lexeme position c cs = .ok ⟨a, w.length, p⟩ ∧ Takes (c :: cs) (c :: w) a p := by
  have hdigit : c.isDigit = false := (start_of_mem_marks hm).2.1
  by_cases harrow : c = '-' ∧ cs.head? = some '>'
  · obtain ⟨rfl, hhead⟩ := harrow
    obtain ⟨cs, rfl⟩ := List.head?_eq_some_iff.1 hhead
    refine ⟨['>'], _, _, lexeme_arrow, longest_arrow, .arrow, fun hd => ?_⟩
    exact absurd (hd '-' (by simp)) (by decide)
  · refine ⟨[], _, _, lexeme_mark hm harrow, longest_mark hm harrow, .mark hm, fun hd => ?_⟩
    simp [hd c (by simp)] at hdigit

theorem number_cases (hc : c.isDigit = true) :
    (∃ w a p, number c cs = .ok ⟨a, w.length, p⟩ ∧ Takes (c :: cs) (c :: w) a p) ∨
      ∃ fault, number c cs = .error fault ∧ Blocked position (c :: cs) fault := by
  unfold number
  cases hf : fraction (cs.dropWhile Char.isDigit) with
  | nil =>
    have hlongest := longest_integer hc hf
    by_cases hlen : maxIntegerDigits < (c :: cs.takeWhile Char.isDigit).length
    · refine .inr ⟨_, if_pos hlen, .tooLong hlongest (isDigit_of_mem hc) hlen⟩
    · refine .inl ⟨_, _, _, if_neg hlen, hlongest, .integer (isDigit_of_mem hc), fun _ => ?_⟩
      exact Nat.le_of_not_lt hlen
  | cons f fs =>
    refine .inl ⟨cs.takeWhile Char.isDigit ++ '.' :: f :: fs, _, _, ?_, longest_float hc hf,
      .float (isDigit_of_mem hc) (isDigit_of_fraction hf), fun hd => ?_⟩
    · simp only [List.length_append, List.length_cons]
      congr 2
      omega
    · exact absurd (hd '.' (by simp)) (by decide)

theorem string_cases :
    (∃ w a p, lexeme position '"' cs = .ok ⟨a, w.length, p⟩ ∧ Takes ('"' :: cs) ('"' :: w) a p) ∨
      ∃ fault, lexeme position '"' cs = .error fault ∧ Blocked position ('"' :: cs) fault := by
  cases hb : stringBody cs with
  | none =>
    refine .inr ⟨_, lexeme_unterminated hb, .unterminated fun w hw ⟨a, p, hs⟩ => ?_⟩
    obtain ⟨d, v, rfl⟩ := hs.exists_cons
    obtain ⟨rfl, r, rfl⟩ := List.cons_prefix_cons.1 hw
    obtain ⟨b, s, rfl, hq, -, -⟩ := hs.string_of_quote
    rw [List.append_assoc, List.singleton_append, stringBody_of_quoted hq] at hb
    simp at hb
  | some body =>
    obtain ⟨s, n⟩ := body
    obtain ⟨b, r, rfl, hq, rfl⟩ := quoted_of_stringBody hb
    refine .inl ⟨b ++ ['"'], _, _, ?_, longest_string hq r, .string hq, fun hd => ?_⟩
    · rw [lexeme_string hb, List.length_append, List.length_singleton]
    · exact absurd (hd '"' (by simp)) (by decide)

/-- At a character that is not blank the scanner takes a token or stops for the right reason. -/
theorem lexeme_cases (position : Nat) (cs : List Char) (hc : isSpace c = false) :
    (∃ w a p, lexeme position c cs = .ok ⟨a, w.length, p⟩ ∧ Takes (c :: cs) (c :: w) a p) ∨
      ∃ fault, lexeme position c cs = .error fault ∧ Blocked position (c :: cs) fault := by
  by_cases halpha : c.isAlpha = true
  · exact .inl (takes_word halpha)
  by_cases hmark : ∃ s p, (c, s, p) ∈ marks
  · obtain ⟨s, p, hm⟩ := hmark
    exact .inl (takes_mark hm)
  by_cases hdigit : c.isDigit = true
  · rw [lexeme_number hdigit]
    exact number_cases hdigit
  by_cases hquote : c = '"'
  · subst hquote
    exact string_cases
  simp only [Bool.not_eq_true, not_exists] at halpha hmark hdigit
  refine .inr ⟨_, lexeme_invalid halpha hdigit hquote hmark, .invalid hc hquote ?_⟩
  rintro w hw ⟨a, p, hs⟩
  obtain ⟨d, v, rfl⟩ := hs.exists_cons
  obtain ⟨rfl, -⟩ := List.cons_prefix_cons.1 hw
  rcases hs.start with h | h | h | ⟨s, q, h⟩
  · simp [halpha] at h
  · simp [hdigit] at h
  · exact hquote h
  · exact hmark s q h

theorem not_takes_of_blocked {fault : LexFault} (h : Takes cs w a p) :
    ¬ Blocked position cs fault := by
  intro hb
  cases hb with
  | unterminated hnone => exact hnone w h.longest.start h.longest.lexeme
  | invalid _ _ hnone => exact hnone w h.longest.start h.longest.lexeme
  | tooLong hlongest hd hlen =>
    obtain rfl := h.longest.unique hlongest
    exact absurd (h.limit hd) (by omega)

/-- There is one reason only why a text starts with no token. -/
theorem Blocked.unique {f f' : LexFault} (h : Blocked position cs f)
    (h' : Blocked position cs f') : f = f' := by
  cases h with
  | unterminated hnone =>
    cases h' with
    | unterminated => rfl
    | invalid _ hquote => exact absurd rfl hquote
    | tooLong hlongest => exact absurd hlongest.lexeme (hnone _ hlongest.start)
  | invalid _ hquote hnone =>
    cases h' with
    | unterminated => exact absurd rfl hquote
    | invalid => rfl
    | tooLong hlongest => exact absurd hlongest.lexeme (hnone _ hlongest.start)
  | tooLong hlongest =>
    cases h' with
    | unterminated hnone => exact absurd hlongest.lexeme (hnone _ hlongest.start)
    | invalid _ _ hnone => exact absurd hlongest.lexeme (hnone _ hlongest.start)
    | tooLong hlongest' => rw [hlongest.unique hlongest']

theorem Blocked.exists_cons {f : LexFault} (h : Blocked position cs f) :
    ∃ c cs', cs = c :: cs' ∧ isSpace c = false := by
  cases h with
  | unterminated => exact ⟨_, _, rfl, rfl⟩
  | invalid hc => exact ⟨_, _, rfl, hc⟩
  | tooLong hlongest =>
    obtain ⟨a, p, hs⟩ := hlongest.lexeme
    obtain ⟨d, ds, rfl⟩ := hs.exists_cons
    obtain ⟨r, rfl⟩ := hlongest.start
    exact ⟨d, ds ++ r, rfl, hs.isSpace_eq_false⟩

/-- The scanner takes the token that a text starts with. -/
theorem Takes.lexeme_eq (h : Takes (c :: cs) (c :: w) a p) :
    lexeme position c cs = .ok ⟨a, w.length, p⟩ := by
  rcases lexeme_cases position cs h.spells.isSpace_eq_false with
    ⟨w', a', p', heq, h'⟩ | ⟨fault, -, hb⟩
  · obtain ⟨-, rfl⟩ := List.cons.inj (h.longest.unique h'.longest)
    obtain ⟨rfl, rfl⟩ := h.spells.unique h'.spells
    exact heq
  · exact absurd hb (not_takes_of_blocked h)

end Lexeme

section Scan

variable {position : Nat} {c : Char} {cs w : List Char} {a : Content} {p : Int}

theorem scanFrom_nil : scanFrom position [] = ([], none) := by
  rw [scanFrom]

theorem scanFrom_space (hc : isSpace c = true) :
    scanFrom position (c :: cs) = scanFrom (position + 1) cs := by
  rw [scanFrom, if_pos hc]

theorem scanFrom_fault {fault : LexFault} (hc : isSpace c = false)
    (h : lexeme position c cs = .error fault) : scanFrom position (c :: cs) = ([], some fault) := by
  rw [scanFrom, if_neg (by simp [hc]), h]

/-- A token is scanned, and the scan goes on behind it. -/
theorem Takes.scanFrom_eq (h : Takes (w ++ cs) w a p) :
    scanFrom position (w ++ cs) =
      (⟨a, String.ofList w, position, p⟩ :: (scanFrom (position + w.length) cs).1,
        (scanFrom (position + w.length) cs).2) := by
  obtain ⟨c, w, rfl⟩ := h.spells.exists_cons
  have hspace := h.spells.isSpace_eq_false
  rw [List.cons_append] at h ⊢
  rw [scanFrom, if_neg (by simp [hspace]), h.lexeme_eq]
  have hnext : position + 1 + w.length = position + (c :: w).length := by
    simp only [List.length_cons]
    omega
  simp [ofLexeme, hnext]

theorem Blocked.scanFrom_eq {f : LexFault} (h : Blocked position cs f) :
    scanFrom position cs = ([], some f) := by
  obtain ⟨c, cs, rfl, hc⟩ := h.exists_cons
  rcases lexeme_cases position cs hc with ⟨w, a, p, -, htakes⟩ | ⟨f', heq, hb⟩
  · exact absurd h (not_takes_of_blocked htakes)
  · rw [scanFrom_fault hc heq, h.unique hb]

/-- Induction along a scan: over blanks, over tokens, up to the end or a fault. -/
theorem scan_induction {motive : Nat → List Char → Prop}
    (nil : ∀ position, motive position [])
    (space : ∀ position c cs, isSpace c = true → motive (position + 1) cs →
      motive position (c :: cs))
    (token : ∀ position w cs a p, Takes (w ++ cs) w a p → motive (position + w.length) cs →
      motive position (w ++ cs))
    (fault : ∀ position cs f, scanFrom position cs = ([], some f) → Blocked position cs f →
      motive position cs)
    (position : Nat) (cs : List Char) : motive position cs := by
  induction hn : cs.length using Nat.strongRecOn generalizing position cs with
  | _ n ih =>
    cases cs with
    | nil => exact nil position
    | cons c cs =>
      simp only [List.length_cons] at hn
      by_cases hc : isSpace c = true
      · exact space position c cs hc (ih cs.length (by omega) _ cs rfl)
      rw [Bool.not_eq_true] at hc
      rcases lexeme_cases position cs hc with ⟨w, a, p, -, h⟩ | ⟨f, heq, hb⟩
      · obtain ⟨r, hr⟩ := h.longest.start
        rw [← hr] at h ⊢
        refine token position (c :: w) r a p h (ih r.length ?_ _ r rfl)
        have hlen := congrArg List.length hr
        simp only [List.length_append, List.length_cons] at hlen
        omega
      · exact fault position (c :: cs) f (scanFrom_fault hc heq) hb

end Scan

/-- The tokens decompose the source between two places: they follow each other, each is the longest
lexeme where it stands, and what they leave out is blank. -/
structure MaximalMunch (source : List Char) (start stop : Nat) (tokens : List Token) : Prop where
  within : ∀ t ∈ tokens, start ≤ t.position ∧ t.position + t.length ≤ stop
  separate : tokens.Pairwise fun (t u : Token) => t.position + t.length ≤ u.position
  lexemes : ∀ t ∈ tokens, ∃ q : Nat, t.position = q ∧
    Takes (source.drop q) t.text.toList t.content t.precedence
  gaps : ∀ i : Nat, start ≤ i → i < stop →
    (∀ t ∈ tokens, ¬ (t.position ≤ i ∧ i < t.position + t.length)) →
    ∀ c ∈ source[i]?, isSpace c = true

/-- Where a scan stops: behind the last character, or where it is blocked. -/
def Ends (source : List Char) (stop : Nat) : Option LexFault → Prop
  | none => stop = source.length
  | some fault => Blocked stop (source.drop stop) fault

namespace MaximalMunch

variable {source : List Char} {start stop : Nat} {tokens : List Token}

theorem nil : MaximalMunch source start start [] where
  within := by simp
  separate := .nil
  lexemes := by simp
  gaps i hlo hhi := by omega

theorem space (h : MaximalMunch source (start + 1) stop tokens)
    (hc : ∀ c ∈ source[start]?, isSpace c = true) : MaximalMunch source start stop tokens where
  within t ht := by
    have := h.within t ht
    omega
  separate := h.separate
  lexemes := h.lexemes
  gaps i hlo hhi hout := by
    by_cases hi : i = start
    · subst hi
      exact hc
    · exact h.gaps i (by omega) hhi hout

theorem token {t : Token} (h : MaximalMunch source (start + t.length) stop tokens)
    (hpos : t.position = start) (hstop : start + t.length ≤ stop)
    (ht : Takes (source.drop start) t.text.toList t.content t.precedence) :
    MaximalMunch source start stop (t :: tokens) where
  within u hu := by
    rcases List.mem_cons.1 hu with rfl | hu
    · omega
    · have := h.within u hu
      omega
  separate := by
    refine List.pairwise_cons.2 ⟨fun u hu => ?_, h.separate⟩
    have := h.within u hu
    omega
  lexemes u hu := by
    rcases List.mem_cons.1 hu with rfl | hu
    · exact ⟨start, hpos, ht⟩
    · exact h.lexemes u hu
  gaps i hlo hhi hout := by
    refine h.gaps i ?_ hhi fun u hu => hout u (List.mem_cons_of_mem t hu)
    have := hout t List.mem_cons_self
    omega

end MaximalMunch

theorem Longest.length_pos {w cs : List Char} (h : Longest w cs) : 0 < w.length := by
  obtain ⟨a, p, hs⟩ := h.lexeme
  obtain ⟨c, v, rfl⟩ := hs.exists_cons
  simp

theorem length_toList_text (t : Token) : t.text.toList.length = t.length :=
  String.length_toList

/-- A scan from any place decomposes the source from there on. -/
theorem scanFrom_maximalMunch (source : List Char) (start : Nat) (hstart : start ≤ source.length) :
    ∃ stop, start ≤ stop ∧ MaximalMunch source start stop (scanFrom start (source.drop start)).1 ∧
      Ends source stop (scanFrom start (source.drop start)).2 := by
  generalize hcs : source.drop start = cs
  induction start, cs using scan_induction with
  | nil start =>
    have hlen : start = source.length := Nat.le_antisymm hstart (List.drop_eq_nil_iff.1 hcs)
    rw [scanFrom_nil]
    exact ⟨start, Nat.le_refl _, .nil, hlen⟩
  | space start c cs hc ih =>
    have hhead : source[start]? = some c := by rw [← List.head?_drop, hcs, List.head?_cons]
    have htail : source.drop (start + 1) = cs := by rw [← List.tail_drop, hcs, List.tail_cons]
    obtain ⟨hlt, -⟩ := List.getElem?_eq_some_iff.1 hhead
    obtain ⟨stop, hle, hmunch, hends⟩ := ih hlt htail
    rw [scanFrom_space hc]
    exact ⟨stop, by omega, hmunch.space (by simpa [hhead] using hc), hends⟩
  | token start w cs a p h ih =>
    have htail : source.drop (start + w.length) = cs := by
      rw [← List.drop_drop, hcs, List.drop_left]
    have hlen := congrArg List.length hcs
    simp only [List.length_drop, List.length_append] at hlen
    obtain ⟨stop, hle, hmunch, hends⟩ := ih (by omega) htail
    rw [h.scanFrom_eq]
    have htext : (String.ofList w).toList = w := String.toList_ofList
    refine ⟨stop, by omega, .token ?_ rfl ?_ ?_, hends⟩
    · simpa [Token.length] using hmunch
    · simpa [Token.length] using hle
    · rw [hcs, htext]
      exact h
  | fault start cs f heq hb =>
    rw [heq]
    exact ⟨start, Nat.le_refl _, .nil, by rwa [Ends, hcs]⟩

theorem exists_takes_of_mem {source : String} {t : Token} (h : t ∈ (scan source).1) :
    ∃ q : Nat, Takes (source.toList.drop q) t.text.toList t.content t.precedence := by
  obtain ⟨stop, -, hmunch, -⟩ := scanFrom_maximalMunch source.toList 0 (Nat.zero_le _)
  obtain ⟨q, -, htakes⟩ := hmunch.lexemes t h
  exact ⟨q, htakes⟩

theorem maximalMunch_of_tokenize {source : String} {tokens : List Token}
    (h : tokenize source = .ok tokens) :
    MaximalMunch source.toList 0 source.toList.length tokens := by
  obtain ⟨stop, -, hmunch, hends⟩ := scanFrom_maximalMunch source.toList 0 (Nat.zero_le _)
  have hscan : scanFrom 0 source.toList = (tokens, none) := tokenize_eq_ok.1 h
  rw [List.drop_zero, hscan] at hmunch hends
  have hstop : stop = source.toList.length := hends
  rwa [hstop] at hmunch

theorem Ends.le_length {source : List Char} {stop : Nat} {fault : Option LexFault}
    (h : Ends source stop fault) : stop ≤ source.length := by
  cases fault with
  | none => exact Nat.le_of_eq h
  | some f =>
    obtain ⟨c, cs, hcs, -⟩ := Blocked.exists_cons h
    have hlen := congrArg List.length hcs
    simp only [List.length_drop, List.length_cons] at hlen
    omega

theorem Ends.scanFrom_eq {source : List Char} {stop : Nat} {fault : Option LexFault}
    (h : Ends source stop fault) : scanFrom stop (source.drop stop) = ([], fault) := by
  cases fault with
  | none =>
    have hstop : stop = source.length := h
    rw [hstop, List.drop_length, scanFrom_nil]
  | some f => exact Blocked.scanFrom_eq h

namespace MaximalMunch

variable {source : List Char} {start stop : Nat} {tokens : List Token}

theorem length_pos (h : MaximalMunch source start stop tokens) {t : Token} (ht : t ∈ tokens) :
    0 < t.length := by
  obtain ⟨q, -, htakes⟩ := h.lexemes t ht
  rw [← length_toList_text]
  exact htakes.longest.length_pos

theorem eq_nil (h : MaximalMunch source start start tokens) : tokens = [] := by
  refine List.eq_nil_iff_forall_not_mem.2 fun t ht => ?_
  have hwithin := h.within t ht
  have hpos := h.length_pos ht
  omega

/-- A decomposition starts with a blank or with a token. -/
theorem start_cases (h : MaximalMunch source start stop tokens) (hlt : start < stop) :
    ((∀ c ∈ source[start]?, isSpace c = true) ∧ MaximalMunch source (start + 1) stop tokens) ∨
      ∃ t ts, tokens = t :: ts ∧ t.position = start ∧ start + t.length ≤ stop ∧
        Takes (source.drop start) t.text.toList t.content t.precedence ∧
        MaximalMunch source (start + t.length) stop ts := by
  by_cases hcover : ∃ t ∈ tokens, t.position ≤ start ∧ start < t.position + t.length
  · obtain ⟨t, ht, hle, -⟩ := hcover
    have hstart : t.position = start := by
      have hwithin := h.within t ht
      omega
    cases tokens with
    | nil => simp at ht
    | cons u ts =>
      -- A token before the one at the start would have no room.
      have hu : u.position = start := by
        rcases List.mem_cons.1 ht with rfl | ht
        · exact hstart
        · have hseparate := (List.pairwise_cons.1 h.separate).1 t ht
          have hwithin := h.within u List.mem_cons_self
          have hpos := h.length_pos (t := u) List.mem_cons_self
          omega
      have hwithin := h.within u List.mem_cons_self
      obtain ⟨q, hq, htakes⟩ := h.lexemes u List.mem_cons_self
      obtain rfl : q = start := by omega
      refine .inr ⟨u, ts, rfl, hu, by omega, htakes, ?_, ?_, ?_, ?_⟩
      · intro v hv
        have hseparate := (List.pairwise_cons.1 h.separate).1 v hv
        have hstop := h.within v (List.mem_cons_of_mem u hv)
        omega
      · exact (List.pairwise_cons.1 h.separate).2
      · exact fun v hv => h.lexemes v (List.mem_cons_of_mem u hv)
      · intro i hlo hhi hout
        refine h.gaps i (by omega) hhi fun v hv => ?_
        rcases List.mem_cons.1 hv with rfl | hv
        · omega
        · exact hout v hv
  · have hout : ∀ t ∈ tokens, ¬ (t.position ≤ start ∧ start < t.position + t.length) :=
      fun t ht hcovers => hcover ⟨t, ht, hcovers⟩
    refine .inl ⟨h.gaps start (Nat.le_refl _) hlt hout, ?_, h.separate, h.lexemes, ?_⟩
    · intro t ht
      have hwithin := h.within t ht
      have hpos := h.length_pos ht
      have hnot := hout t ht
      omega
    · exact fun i hlo hhi => h.gaps i (by omega) hhi

/-- There is one decomposition only: the scan finds it. -/
theorem scanFrom_eq {fault : Option LexFault} (h : MaximalMunch source start stop tokens)
    (hle : start ≤ stop) (hends : Ends source stop fault) :
    scanFrom start (source.drop start) = (tokens, fault) := by
  induction hn : stop - start using Nat.strongRecOn generalizing start tokens with
  | _ n ih =>
    by_cases hstop : start = stop
    · subst hstop
      rw [h.eq_nil, hends.scanFrom_eq]
    have hlength := hends.le_length
    rcases h.start_cases (by omega) with ⟨hspace, hrest⟩ | ⟨t, ts, rfl, hpos, hfit, htakes, hrest⟩
    · have hchar : source[start]? = some source[start] := List.getElem?_eq_getElem (by omega)
      rw [List.drop_eq_getElem_cons (by omega), scanFrom_space (hspace _ hchar)]
      exact ih (stop - (start + 1)) (by omega) hrest (by omega) rfl
    · have hlen := h.length_pos List.mem_cons_self
      have hdrop : source.drop start = t.text.toList ++ source.drop (start + t.length) := by
        obtain ⟨r, hr⟩ := htakes.longest.start
        rw [← List.drop_drop, ← hr, ← length_toList_text, List.drop_left]
      have hscan := ih (stop - (start + t.length)) (by omega) hrest hfit rfl
      rw [hdrop] at htakes ⊢
      rw [htakes.scanFrom_eq, length_toList_text, hscan, String.ofList_toList, ← hpos]

end MaximalMunch

/-- The tokens of a text are its decomposition into longest lexemes, from the start up to the end or
the first place that is not blank and starts no token. -/
theorem scan_maximalMunch (source : String) :
    (scan source).1.Pairwise (fun t u => t.position < u.position) ∧
      (∀ t ∈ (scan source).1,
        t.text.toList = (source.toList.drop t.position.toNat).take t.length) ∧
      ∃ stop, MaximalMunch source.toList 0 stop (scan source).1 ∧
        Ends source.toList stop (scan source).2 := by
  obtain ⟨stop, -, hmunch, hends⟩ := scanFrom_maximalMunch source.toList 0 (Nat.zero_le _)
  rw [List.drop_zero] at hmunch hends
  refine ⟨?_, fun t ht => ?_, stop, hmunch, hends⟩
  · refine hmunch.separate.imp_of_mem fun {t u} ht _ hle => ?_
    obtain ⟨q, -, htakes⟩ := hmunch.lexemes t ht
    have hpos := htakes.longest.length_pos
    rw [length_toList_text] at hpos
    omega
  · obtain ⟨q, hq, htakes⟩ := hmunch.lexemes t ht
    have hslice := List.prefix_iff_eq_take.1 htakes.longest.start
    rwa [length_toList_text, ← Int.toNat_natCast q, ← hq] at hslice

end SumLang.Token
