import Mathlib.Data.List.Forall2
import SumLang.Compilation
import SumLang.Proofs.BalancedText
import SumLang.Proofs.StrippedLines

/-! What the removal of comments leaves of every line. It works once and for all, and what stands in
the comments has no influence on it. -/
namespace SumLang

namespace Text

theorem not_mem_of_mem_splitLines {cs line : List Char} (h : line ∈ splitLines cs) :
    '\n' ∉ line := by
  induction cs generalizing line with
  | nil =>
    obtain rfl : line = [] := by simpa [splitLines] using h
    simp
  | cons c cs ih =>
    obtain ⟨first, lines, hlines⟩ := List.exists_cons_of_ne_nil (splitLines_ne_nil cs)
    rw [splitLines, hlines] at h
    rw [hlines] at ih
    split at h
    · rcases List.mem_cons.1 h with rfl | h
      · simp
      · exact ih h
    · next hc =>
      rcases List.mem_cons.1 h with rfl | h
      · simp [ih List.mem_cons_self, Ne.symm hc]
      · exact ih (List.mem_cons_of_mem _ h)

/-- Lines that are joined are the lines of the text. -/
theorem splitLines_joinLines {lines : List (List Char)} (hne : lines ≠ [])
    (h : ∀ line ∈ lines, '\n' ∉ line) : splitLines (joinLines lines) = lines := by
  induction lines with
  | nil => exact absurd rfl hne
  | cons line lines ih =>
    obtain ⟨hline, hlines⟩ := List.forall_mem_cons.1 h
    cases lines with
    | nil => exact splitLines_of_not_mem hline
    | cons next lines =>
      rw [joinLines, splitLines_append hline, ih (by simp) hlines]
      simp

/-- Trimming takes away blanks, and all of them. -/
theorem exists_trimEnd (s : List Char) :
    ∃ blanks, s = trimEnd s ++ blanks ∧ (∀ c ∈ blanks, isBlank c = true) ∧
      ∀ c ∈ (trimEnd s).getLast?, isBlank c = false := by
  refine ⟨(s.reverse.takeWhile isBlank).reverse, ?_, ?_, ?_⟩
  · rw [trimEnd, dropEndWhile, ← List.reverse_append, List.takeWhile_append_dropWhile,
      List.reverse_reverse]
  · intro c hc
    exact List.all_eq_true.1 List.all_takeWhile c (List.mem_reverse.1 hc)
  · intro c hc
    rw [trimEnd, dropEndWhile, List.getLast?_reverse] at hc
    have hnot := List.head?_dropWhile_not isBlank s.reverse
    rw [Option.mem_def.1 hc] at hnot
    simpa using hnot

end Text

namespace Comment

open Text Token

/-- Two slashes outside of strings stand behind `code`, and nowhere before that. -/
structure FirstComment (line code : List Char) : Prop where
  comment : ∃ t, line = code ++ '/' :: '/' :: t
  outside : Outside code
  first : ∀ v t, line = v ++ '/' :: '/' :: t → Outside v → code.length ≤ v.length

/-- What is left of a line: the line itself if it has no comment, otherwise what stands before the
comment, without the blanks at its end. -/
inductive StripsTo (line : List Char) : List Char → Prop where
  | unchanged : (∀ v t, line = v ++ '/' :: '/' :: t → ¬ Outside v) → StripsTo line line
  | cut {kept blanks : List Char} : FirstComment line (kept ++ blanks) →
    (∀ c ∈ blanks, isBlank c = true) → (∀ c ∈ kept.getLast?, isBlank c = false) →
    StripsTo line kept

/-- Two lines that differ at most in what stands behind two slashes outside of strings. -/
inductive Recommented : List Char → List Char → Prop where
  | same {line : List Char} : Recommented line line
  | comment {code t t' : List Char} : Outside code → '\n' ∉ t' →
    Recommented (code ++ '/' :: '/' :: t) (code ++ '/' :: '/' :: t')

variable {line code : List Char}

/-- What stands before a comment depends only on what stands before any two slashes outside of
strings. -/
theorem exists_before (h : Outside code) :
    ∃ u, u <+: code ∧ ∀ t, before false (code ++ '/' :: '/' :: t) = some u := by
  induction h with
  | nil => exact ⟨[], List.prefix_rfl, fun t => rfl⟩
  | @plain c cs hc _ ih =>
    obtain ⟨u, hu, hbefore⟩ := ih
    by_cases hcomment : c = '/' ∧ (cs ++ ['/']).head? = some '/'
    · obtain ⟨rfl, hhead⟩ := hcomment
      refine ⟨[], List.nil_prefix, fun t => ?_⟩
      cases cs with
      | nil => rfl
      | cons d cs =>
        obtain rfl : d = '/' := by simpa using hhead
        rfl
    · refine ⟨c :: u, List.cons_prefix_cons.2 ⟨rfl, hu⟩, fun t => ?_⟩
      have hhead : (cs ++ '/' :: '/' :: t).head? = (cs ++ ['/']).head? := by
        cases cs <;> rfl
      rw [List.cons_append, before_cons hc, hbefore, Option.map_some]
      rw [hhead]
      exact fun hc hhead => hcomment ⟨hc, hhead⟩
  | @string b s cs hb _ ih =>
    obtain ⟨u, hu, hbefore⟩ := ih
    refine ⟨'"' :: (b ++ '"' :: u), by simpa using hu, fun t => ?_⟩
    rw [List.cons_append, List.append_assoc, List.cons_append, before_string hb, hbefore,
      Option.map_some]

/-- Text that ends outside of strings if it starts inside of one, or outside. -/
def Closes : Bool → List Char → Prop
  | false, cs => Outside cs
  | true, cs => Outside ('"' :: cs)

namespace Closes

variable {inString : Bool} {c : Char} {cs : List Char}

theorem escape (h : Closes true cs) : Closes true ('\\' :: c :: cs) := by
  cases h with
  | plain hquote => exact absurd rfl hquote
  | string hb hcs => exact .string hb.escape hcs

theorem quote (h : Closes (!inString) cs) : Closes inString ('"' :: cs) := by
  cases inString with
  | false => exact h
  | true => exact .string .nil h

theorem plain (hquote : c ≠ '"') (hline : c ≠ '\n') (hback : inString = true → c ≠ '\\')
    (h : Closes inString cs) : Closes inString (c :: cs) := by
  cases inString with
  | false => exact .plain hquote h
  | true =>
    cases h with
    | plain hquote => exact absurd rfl hquote
    | string hb hcs => exact .string (hb.plain hquote hline (hback rfl)) hcs

end Closes

/-- What is found to be a comment stands behind two slashes outside of strings. -/
theorem closes_of_before {inString : Bool} (hline : '\n' ∉ line)
    (h : before inString line = some code) :
    Closes inString code ∧ ∃ t, line = code ++ '/' :: '/' :: t := by
  fun_induction before inString line generalizing code with
  | case1 => simp at h
  | case2 t =>
    obtain rfl : [] = code := by simpa using h
    exact ⟨.nil, t, rfl⟩
  | case3 c cs ih =>
    obtain ⟨u, hu, rfl⟩ := Option.map_eq_some_iff.1 h
    obtain ⟨hclose, t, rfl⟩ := ih (by simp_all) hu
    exact ⟨hclose.escape, t, rfl⟩
  | case4 inString cs ih =>
    obtain ⟨u, hu, rfl⟩ := Option.map_eq_some_iff.1 h
    obtain ⟨hclose, t, rfl⟩ := ih (by simp_all) hu
    exact ⟨hclose.quote, t, rfl⟩
  | case5 inString c cs _ hescape hquote ih =>
    obtain ⟨u, hu, rfl⟩ := Option.map_eq_some_iff.1 h
    rw [List.mem_cons, not_or] at hline
    obtain ⟨hclose, t, rfl⟩ := ih hline.2 hu
    refine ⟨hclose.plain hquote (Ne.symm hline.1) ?_, t, rfl⟩
    rintro hinString rfl
    obtain ⟨d, ds, hds⟩ := List.exists_cons_of_ne_nil (List.append_ne_nil_of_right_ne_nil u
      (List.cons_ne_nil '/' ('/' :: t)))
    exact hescape d ds hinString rfl hds

/-- A comment is found exactly where the first one stands. -/
theorem before_eq_some_iff (hline : '\n' ∉ line) :
    before false line = some code ↔ FirstComment line code := by
  constructor
  · intro h
    obtain ⟨houtside, hcomment⟩ := closes_of_before hline h
    refine ⟨hcomment, houtside, ?_⟩
    rintro v t rfl hv
    obtain ⟨u, hu, hbefore⟩ := exists_before hv
    obtain rfl : u = code := by simpa [hbefore] using h
    exact hu.length_le
  · rintro ⟨⟨t, rfl⟩, houtside, hfirst⟩
    obtain ⟨u, hu, hbefore⟩ := exists_before houtside
    obtain ⟨hclose, t', ht'⟩ := closes_of_before hline (hbefore t)
    have hlen := hfirst u t' ht' hclose
    rw [hbefore, hu.eq_of_length_le hlen]

theorem before_eq_none_iff (hline : '\n' ∉ line) :
    before false line = none ↔ ∀ v t, line = v ++ '/' :: '/' :: t → ¬ Outside v := by
  constructor
  · rintro h v t rfl hv
    obtain ⟨u, -, hbefore⟩ := exists_before hv
    simp [hbefore] at h
  · intro h
    cases hbefore : before false line with
    | none => rfl
    | some code =>
      obtain ⟨⟨t, ht⟩, houtside, -⟩ := (before_eq_some_iff hline).1 hbefore
      exact absurd houtside (h code t ht)

theorem stripsTo_stripLine (hline : '\n' ∉ line) : StripsTo line (stripLine line) := by
  unfold stripLine
  cases h : before false line with
  | none => exact .unchanged ((before_eq_none_iff hline).1 h)
  | some code =>
    obtain ⟨blanks, hcode, hblanks, hlast⟩ := exists_trimEnd code
    exact .cut (hcode ▸ (before_eq_some_iff hline).1 h) hblanks hlast

/-- What is left of a line has no comment, since it would stand before the first one. -/
theorem stripLine_stripLine (hline : '\n' ∉ line) :
    stripLine (stripLine line) = stripLine line := by
  have hstart := stripLine_prefix_self line
  have hkept : '\n' ∉ stripLine line := fun h => hline (hstart.subset h)
  have hnone : before false (stripLine line) = none := by
    refine (before_eq_none_iff hkept).2 fun v t hv houtside => ?_
    obtain ⟨r, hr⟩ := hstart
    have hcomment : line = v ++ '/' :: '/' :: (t ++ r) := by
      rw [← hr, hv, List.append_assoc]
      rfl
    have hlen := congrArg List.length hv
    cases hbefore : before false line with
    | none => exact (before_eq_none_iff hline).1 hbefore v _ hcomment houtside
    | some code =>
      have hfirst := ((before_eq_some_iff hline).1 hbefore).first v _ hcomment houtside
      have hstrip : stripLine line = trimEnd code := by rw [stripLine, hbefore]
      have htrim := (trimEnd_prefix_self code).length_le
      rw [← hstrip, hlen, List.length_append, List.length_cons] at htrim
      omega
  rw [stripLine, hnone]

/-- The text of a comment has no influence on what is left of its line. -/
theorem Recommented.stripLine_eq {line' : List Char} (h : Recommented line line') :
    stripLine line' = stripLine line := by
  cases h with
  | same => rfl
  | @comment code t t' hcode =>
    obtain ⟨u, -, hbefore⟩ := exists_before hcode
    rw [stripLine, stripLine, hbefore, hbefore]

theorem splitLines_stripText (cs : List Char) :
    splitLines (stripText cs) = (splitLines cs).map stripLine := by
  refine splitLines_joinLines (by simpa using splitLines_ne_nil cs) fun line hline => ?_
  obtain ⟨l, hl, rfl⟩ := List.mem_map.1 hline
  exact fun h => not_mem_of_mem_splitLines hl ((stripLine_prefix_self l).subset h)

theorem stripText_stripText (cs : List Char) : stripText (stripText cs) = stripText cs := by
  rw [stripText, splitLines_stripText, List.map_map, stripText]
  congr 1
  refine List.map_congr_left fun line hline => ?_
  exact stripLine_stripLine (not_mem_of_mem_splitLines hline)

theorem recommented_lines {lines lines' : List (List Char)}
    (h : List.Forall₂ Recommented lines lines') (hlines : ∀ line ∈ lines, '\n' ∉ line) :
    lines'.map stripLine = lines.map stripLine ∧ ∀ line ∈ lines', '\n' ∉ line := by
  induction h with
  | nil => exact ⟨rfl, by simp⟩
  | cons hline _ ih =>
    obtain ⟨hfirst, hrest⟩ := List.forall_mem_cons.1 hlines
    obtain ⟨hmap, hrest'⟩ := ih hrest
    refine ⟨by rw [List.map_cons, List.map_cons, hline.stripLine_eq, hmap], ?_⟩
    refine List.forall_mem_cons.2 ⟨?_, hrest'⟩
    cases hline with
    | same => exact hfirst
    | comment _ ht' => simp_all

theorem stripText_recommented {cs : List Char} {lines : List (List Char)}
    (h : List.Forall₂ Recommented (splitLines cs) lines) :
    stripText (joinLines lines) = stripText cs := by
  obtain ⟨hmap, hlines⟩ := recommented_lines h fun line => not_mem_of_mem_splitLines
  have hne : lines ≠ [] := by
    rintro rfl
    exact splitLines_ne_nil cs (List.forall₂_nil_right_iff.1 h)
  rw [stripText, splitLines_joinLines hne hlines, hmap, stripText]

/-- Comments are removed line by line, a second time changes nothing, and what stands in the
comments has no influence on what is left, nor on what it is compiled to. -/
theorem strip_lines (source : String) :
    List.Forall₂ StripsTo (splitLines source.toList) (splitLines (strip source).toList) ∧
      strip (strip source) = strip source ∧
      ∀ lines, List.Forall₂ Recommented (splitLines source.toList) lines →
        strip (String.ofList (joinLines lines)) = strip source ∧
        ∀ o : Options, o.stripComments = true →
          compileText o (String.ofList (joinLines lines)) = compileText o source := by
  have htext (source : String) : strip source = String.ofList (stripText source.toList) := rfl
  refine ⟨?_, ?_, fun lines hlines => ?_⟩
  · rw [htext, String.toList_ofList, splitLines_stripText, List.forall₂_map_right_iff,
      List.forall₂_same]
    exact fun line hline => stripsTo_stripLine (not_mem_of_mem_splitLines hline)
  · rw [htext, htext, String.toList_ofList, stripText_stripText]
  · have hstrip : strip (String.ofList (joinLines lines)) = strip source := by
      rw [htext, htext, String.toList_ofList, stripText_recommented hlines]
    refine ⟨hstrip, fun o ho => ?_⟩
    rw [compileText_eq, compileText_eq, Options.prepare, Options.prepare, if_pos ho, if_pos ho,
      hstrip]

/-- The lines `"//" // a` and `x`, with slashes in a string, and with another comment. -/
theorem strip_lines_quotes :
    strip "\"//\" // \"b\nx" = strip "\"//\" // a\nx" ∧
      ∀ o : Options, o.stripComments = true →
        compileText o "\"//\" // \"b\nx" = compileText o "\"//\" // a\nx" := by
  let code : List Char := '"' :: (['/', '/'] ++ '"' :: [' '])
  have hslashes : Quoted ['/', '/'] ['/', '/'] :=
    .plain (by decide) (by decide) (by decide) (.plain (by decide) (by decide) (by decide) .nil)
  have hcode : Outside code := .string hslashes (.plain (by decide) .nil)
  have hsource : splitLines "\"//\" // a\nx".toList =
      [code ++ '/' :: '/' :: [' ', 'a'], ['x']] := by decide
  have htext : String.ofList (joinLines [code ++ '/' :: '/' :: [' ', '"', 'b'], ['x']]) =
      "\"//\" // \"b\nx" := by
    decide
  rw [← htext]
  refine (strip_lines "\"//\" // a\nx").2.2 _ ?_
  rw [hsource]
  exact .cons (.comment hcode (by decide)) (.cons .same .nil)

end Comment

end SumLang
