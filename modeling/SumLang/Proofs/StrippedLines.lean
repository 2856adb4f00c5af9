import SumLang.Comment
import SumLang.Proofs.Spelling

/-! How the removal of comments goes along a text: over blanks, lexemes, comments and line ends. -/
namespace SumLang

namespace Text

theorem trimEnd_prefix_self (s : List Char) : trimEnd s <+: s := by
  have h : s.reverse.dropWhile isBlank <:+ s.reverse := List.dropWhile_suffix _
  simpa [trimEnd, dropEndWhile] using List.reverse_prefix.2 h

theorem trimEnd_append {c : Char} (hc : isBlank c = false) (s t : List Char) :
    trimEnd (s ++ c :: t) = s ++ c :: trimEnd t := by
  unfold trimEnd dropEndWhile
  rw [List.reverse_append, List.reverse_cons, List.append_assoc, List.dropWhile_append]
  split
  · next h =>
    rw [List.isEmpty_iff] at h
    simp [h, hc]
  · simp

theorem trimEnd_cons (c : Char) (s : List Char) :
    trimEnd (c :: s) = c :: trimEnd s ∨ trimEnd (c :: s) = trimEnd s := by
  cases hc : isBlank c with
  | false => exact .inl (trimEnd_append hc [] s)
  | true =>
    unfold trimEnd dropEndWhile
    rw [List.reverse_cons, List.dropWhile_append]
    split
    · next h =>
      rw [List.isEmpty_iff] at h
      simp [h, hc]
    · simp

theorem splitLines_append {line : List Char} (h : '\n' ∉ line) (cs : List Char) :
    splitLines (line ++ '\n' :: cs) = line :: splitLines cs := by
  induction line with
  | nil => simp [splitLines]
  | cons c line ih =>
    rw [List.mem_cons, not_or] at h
    rw [List.cons_append, splitLines, if_neg (Ne.symm h.1), ih h.2]

theorem splitLines_of_not_mem {line : List Char} (h : '\n' ∉ line) : splitLines line = [line] := by
  induction line with
  | nil => rfl
  | cons c line ih =>
    rw [List.mem_cons, not_or] at h
    rw [splitLines, if_neg (Ne.symm h.1), ih h.2]

end Text

namespace Comment

open Text Token

/-- Behind one line a text ends, or has a line end and further lines. -/
def EndsLine (cs : List Char) : Prop :=
  ∀ c ∈ cs.head?, c = '\n'

def stripText (cs : List Char) : List Char :=
  joinLines ((splitLines cs).map stripLine)

theorem stripText_nil : stripText [] = [] := rfl

theorem stripText_newline (cs : List Char) : stripText ('\n' :: cs) = '\n' :: stripText cs := by
  obtain ⟨line, lines, h⟩ := List.exists_cons_of_ne_nil (splitLines_ne_nil cs)
  simp [stripText, splitLines, h, joinLines, stripLine, before]

/-- The first line is stripped on its own. -/
theorem stripText_append {line rest : List Char} (hline : '\n' ∉ line) (hrest : EndsLine rest) :
    stripText (line ++ rest) = stripLine line ++ stripText rest := by
  cases rest with
  | nil =>
    rw [List.append_nil, stripText_nil, List.append_nil, stripText, splitLines_of_not_mem hline]
    rfl
  | cons c cs =>
    obtain rfl : c = '\n' := hrest c rfl
    obtain ⟨l, ls, h⟩ := List.exists_cons_of_ne_nil (splitLines_ne_nil cs)
    rw [stripText_newline, stripText, splitLines_append hline, List.map_cons, stripText, h]
    rfl

theorem boundary_stripText {cs : List Char} (h : EndsLine cs) : Boundary (stripText cs) := by
  cases cs with
  | nil => exact boundary_nil
  | cons c cs =>
    obtain rfl : c = '\n' := h c rfl
    rw [stripText_newline]
    exact boundary_cons.2 (by decide)

variable {c : Char} {cs w line code : List Char} {inString : Bool}

theorem before_prefix_self (h : before inString cs = some code) : code <+: cs := by
  fun_induction before inString cs generalizing code with
  | case1 => simp at h
  | case2 =>
    obtain rfl : [] = code := by simpa using h
    exact List.nil_prefix
  | case3 c cs ih =>
    obtain ⟨s, hs, rfl⟩ := Option.map_eq_some_iff.1 h
    simpa using ih hs
  | case4 inString cs ih =>
    obtain ⟨s, hs, rfl⟩ := Option.map_eq_some_iff.1 h
    simpa using ih hs
  | case5 inString c cs _ _ _ ih =>
    obtain ⟨s, hs, rfl⟩ := Option.map_eq_some_iff.1 h
    simpa using ih hs

theorem stripLine_prefix_self (line : List Char) : stripLine line <+: line := by
  unfold stripLine
  split
  · next h => exact (trimEnd_prefix_self _).trans (before_prefix_self h)
  · exact List.prefix_refl _

theorem before_cons (hquote : c ≠ '"') (hcomment : c = '/' → cs.head? ≠ some '/') :
    before false (c :: cs) = (before false cs).map (c :: ·) := by
  cases cs with
  | nil => simp [before]
  | cons d cs =>
    rw [before]
    all_goals simp_all

theorem before_append (hw : ∀ d ∈ w, d ≠ '"' ∧ d ≠ '/') :
    before false (w ++ line) = (before false line).map (w ++ ·) := by
  induction w with
  | nil => simp
  | cons d w ih =>
    obtain ⟨hquote, hslash⟩ := hw d (by simp)
    rw [List.cons_append, before_cons hquote fun h => absurd h hslash,
      ih fun x hx => hw x (by simp [hx]), Option.map_map]
    rfl

theorem before_quoted {b s : List Char} (h : Quoted b s) :
    before true (b ++ '"' :: line) = (before false line).map (b ++ '"' :: ·) := by
  induction h with
  | nil => rfl
  | escape _ ih =>
    rw [List.cons_append, List.cons_append, before, ih, Option.map_map]
    rfl
  | plain hquote hline hback _ ih =>
    rw [List.cons_append, before, ih, Option.map_map]
    all_goals simp_all [Function.comp_def]

theorem before_string {b s : List Char} (h : Quoted b s) :
    before false ('"' :: (b ++ '"' :: line)) =
      (before false line).map fun u => '"' :: (b ++ '"' :: u) := by
  have hopen : before false ('"' :: (b ++ '"' :: line)) =
      (before true (b ++ '"' :: line)).map ('"' :: ·) := by
    rw [before]
    all_goals simp
  rw [hopen, before_quoted h, Option.map_map]
  rfl

/-- A lexeme belongs to the code before a comment, and leaves no string open. -/
theorem before_lexeme {a : Content} {p : Int} (h : Spells w a p)
    (hcomment : ¬ ['/', '/'] <+: w ++ line) :
    before false (w ++ line) = (before false line).map (w ++ ·) := by
  obtain ⟨c, w, rfl⟩ := h.exists_cons
  by_cases hc : c = '"'
  · subst hc
    obtain ⟨b, s, rfl, hq, -, -⟩ := h.string_of_quote
    rw [List.cons_append, List.append_assoc, List.singleton_append, before_string hq]
    simp
  · have hw : ∀ d ∈ w, d ≠ '"' ∧ d ≠ '/' := by
      intro d hd
      have htail := h.mem_tail hc hd
      refine ⟨?_, ?_⟩
      · rintro rfl
        exact absurd htail (by decide)
      · rintro rfl
        exact absurd htail (by decide)
    rw [List.cons_append, before_cons hc, before_append hw, Option.map_map]
    · rfl
    · rintro rfl hhead
      refine hcomment ?_
      obtain ⟨r, hr⟩ := List.head?_eq_some_iff.1 hhead
      simp [hr]

theorem not_isBlank_of_isWordPart (h : isWordPart c = true) : isBlank c = false := by
  rcases isWordPart_iff.1 h with h | rfl
  · have hcode : ((65 ≤ c.toNat ∧ c.toNat ≤ 90) ∨ (97 ≤ c.toNat ∧ c.toNat ≤ 122)) ∨
        (48 ≤ c.toNat ∧ c.toNat ≤ 57) := by
      rw [Char.isAlphanum, Bool.or_eq_true] at h
      exact h.imp isAlpha_iff_toNat.1 Char.isDigit_iff_toNat.1
    simp only [isBlank, Bool.or_eq_false_iff, Bool.and_eq_false_iff, decide_eq_false_iff_not,
      beq_eq_false_iff_ne]
    omega
  · decide

theorem not_isBlank_of_start {a : Content} {p : Int} (h : Spells (c :: w) a p) :
    isBlank c = false := by
  have hmarks : ∀ m ∈ marks, isBlank m.1 = false := by decide
  rcases h.start with hc | hc | rfl | ⟨s, q, hm⟩
  · exact not_isBlank_of_isWordPart (by simp [isWordPart, Char.isAlphanum, hc])
  · exact not_isBlank_of_isWordPart (by simp [isWordPart, Char.isAlphanum, hc])
  · decide
  · exact hmarks (c, s, q) hm

/-- A lexeme does not end with a blank. -/
theorem exists_last {a : Content} {p : Int} (h : Spells w a p) :
    ∃ v d, w = v ++ [d] ∧ isBlank d = false := by
  obtain ⟨c, w, rfl⟩ := h.exists_cons
  by_cases hc : c = '"'
  · subst hc
    obtain ⟨b, s, rfl, -⟩ := h.string_of_quote
    exact ⟨'"' :: b, '"', rfl, by decide⟩
  rcases List.eq_nil_or_concat w with rfl | ⟨v, d, rfl⟩
  · exact ⟨[], c, rfl, not_isBlank_of_start h⟩
  · rw [List.concat_eq_append] at h ⊢
    refine ⟨c :: v, d, rfl, ?_⟩
    rcases h.mem_tail hc (by simp : d ∈ v ++ [d]) with hd | rfl | rfl
    · exact not_isBlank_of_isWordPart hd
    · decide
    · decide

theorem stripLine_lexeme {a : Content} {p : Int} (h : Spells w a p)
    (hcomment : ¬ ['/', '/'] <+: w ++ line) : stripLine (w ++ line) = w ++ stripLine line := by
  unfold stripLine
  rw [before_lexeme h hcomment]
  cases before false line with
  | none => rfl
  | some code =>
    obtain ⟨v, d, rfl, hd⟩ := exists_last h
    simp only [Option.map_some, List.append_assoc, List.singleton_append]
    exact trimEnd_append hd v code

theorem stripLine_cons (line : List Char) (hquote : c ≠ '"') (hslash : c ≠ '/') :
    stripLine (c :: line) = c :: stripLine line ∨ stripLine (c :: line) = stripLine line := by
  unfold stripLine
  rw [before_cons hquote fun h => absurd h hslash]
  cases before false line with
  | none => exact .inl rfl
  | some code => exact trimEnd_cons c code

/-- A text is its first line and what follows it. -/
theorem exists_line (cs : List Char) :
    ∃ line rest, cs = line ++ rest ∧ '\n' ∉ line ∧ EndsLine rest ∧
      cs.dropWhile (· ≠ '\n') = rest := by
  refine ⟨cs.takeWhile (· ≠ '\n'), _, by simp, fun hmem => ?_, fun c hc => ?_, rfl⟩
  · simpa using List.all_eq_true.1 List.all_takeWhile _ hmem
  · have hnot := List.head?_dropWhile_not (· ≠ '\n') cs
    rw [Option.mem_def.1 hc] at hnot
    simpa using hnot

theorem stripText_space (hc : isSpace c = true) :
    stripText (c :: cs) = c :: stripText cs ∨ stripText (c :: cs) = stripText cs := by
  by_cases hline : c = '\n'
  · subst hline
    exact .inl (stripText_newline cs)
  obtain ⟨line, rest, rfl, hnl, hrest, -⟩ := exists_line cs
  have hquote : c ≠ '"' := by
    rintro rfl
    exact absurd hc (by decide)
  have hslash : c ≠ '/' := by
    rintro rfl
    exact absurd hc (by decide)
  have hcons : '\n' ∉ c :: line := by simp [hnl, Ne.symm hline]
  rw [← List.cons_append, stripText_append hcons hrest, stripText_append hnl hrest]
  rcases stripLine_cons line hquote hslash with h | h
  · exact .inl (by rw [h, List.cons_append])
  · exact .inr (by rw [h])

theorem stripText_comment (cs : List Char) :
    stripText ('/' :: '/' :: cs) = stripText (cs.dropWhile (· ≠ '\n')) := by
  obtain ⟨line, rest, hcs, hnl, hrest, hdrop⟩ := exists_line cs
  have hline : '\n' ∉ '/' :: '/' :: line := by simp [hnl]
  have hnone : stripLine ('/' :: '/' :: line) = [] := rfl
  calc
    stripText ('/' :: '/' :: cs) = stripText ('/' :: '/' :: line ++ rest) := by
      rw [List.cons_append, List.cons_append, ← hcs]
    _ = stripText rest := by
      rw [stripText_append hline hrest, hnone, List.nil_append]
    _ = stripText (cs.dropWhile (· ≠ '\n')) := by
      rw [hdrop]

theorem stripText_lexeme {a : Content} {p : Int} (h : Spells w a p) (hline : '\n' ∉ w)
    (hcomment : ¬ ['/', '/'] <+: w ++ cs) : stripText (w ++ cs) = w ++ stripText cs := by
  obtain ⟨line, rest, rfl, hnl, hrest, -⟩ := exists_line cs
  have hcode : ¬ ['/', '/'] <+: w ++ line := fun hpre =>
    hcomment (hpre.trans (by simp))
  have hall : '\n' ∉ w ++ line := by simp [hline, hnl]
  rw [← List.append_assoc, stripText_append hall hrest, stripText_append hnl hrest,
    stripLine_lexeme h hcode, List.append_assoc]

/-- The token before a text stays the same when the text loses its comments. -/
theorem takes_stripText {a : Content} {p : Int} (h : Takes (w ++ cs) w a p) :
    Takes (w ++ stripText cs) w a p := by
  refine ⟨?_, h.spells, h.limit⟩
  obtain ⟨line, rest, rfl, hnl, hrest, -⟩ := exists_line cs
  rw [stripText_append hnl hrest]
  obtain ⟨k, hk⟩ := stripLine_prefix_self line
  have hlongest : Longest w (w ++ (stripLine line ++ (k ++ rest))) := by
    rw [← List.append_assoc (stripLine line), hk]
    exact h.longest
  exact hlongest.change_rest (boundary_stripText hrest)

end Comment

end SumLang
