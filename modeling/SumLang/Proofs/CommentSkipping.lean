import SumLang.Proofs.StrippedLines

/-! Scanning a text without its comments gives the same tokens as a scanner that skips comments
between tokens. -/
namespace SumLang

def Token.spelling (t : Token) : Content × String × Int :=
  (t.content, t.text, t.precedence)

namespace Token

/-- A line end stands between the quotes of a string only behind a backslash. -/
theorem Quoted.exists_of_newline_mem {b s : List Char} (h : Quoted b s) (hline : '\n' ∈ b) :
    ∃ u s₁ v s₂, b = u ++ '\\' :: '\n' :: v ∧ Quoted u s₁ ∧ Quoted v s₂ ∧ s = s₁ ++ '\n' :: s₂ := by
  induction h with
  | nil => simp at hline
  | @escape c cs s hcs ih =>
    by_cases hc : c = '\n'
    · subst hc
      exact ⟨[], [], cs, s, rfl, .nil, hcs, rfl⟩
    · obtain ⟨u, s₁, v, s₂, rfl, hu, hv, rfl⟩ := ih (by simpa [Ne.symm hc] using hline)
      exact ⟨_, _, v, s₂, rfl, hu.escape, hv, rfl⟩
  | plain hquote hc hback _ ih =>
    obtain ⟨u, s₁, v, s₂, rfl, hu, hv, rfl⟩ := ih (by simpa [Ne.symm hc] using hline)
    exact ⟨_, _, v, s₂, rfl, .plain hquote hc hback hu, hv, rfl⟩

/-- Only strings can have a line end in them. -/
theorem Spells.string_of_newline_mem {w : List Char} {a : Content} {p : Int} (h : Spells w a p)
    (hline : '\n' ∈ w) :
    ∃ b s, w = '"' :: (b ++ ['"']) ∧ Quoted b s ∧ a = .string (String.ofList s) ∧ '\n' ∈ b := by
  obtain ⟨c, w, rfl⟩ := h.exists_cons
  by_cases hc : c = '"'
  · subst hc
    obtain ⟨b, s, rfl, hq, rfl, -⟩ := h.string_of_quote
    exact ⟨b, s, rfl, hq, rfl, by simpa using hline⟩
  · rcases List.mem_cons.1 hline with rfl | hline
    · exact absurd h.isSpace_eq_false (by decide)
    · exact absurd (h.mem_tail hc hline) (by decide)

/-- A token spans a line end exactly if it is a string in which a backslash stands before the line
end, and takes it with it. Then a line of the source ends in a backslash. -/
theorem newline_mem_text_iff (source : String) (t : Token) (ht : t ∈ (scan source).1) :
    ('\n' ∈ t.text.toList ↔ ∃ u s₁ v s₂, Quoted u s₁ ∧ Quoted v s₂ ∧
      t.text.toList = '"' :: (u ++ '\\' :: '\n' :: (v ++ ['"'])) ∧
      t.content = .string (String.ofList (s₁ ++ '\n' :: s₂))) ∧
    ('\n' ∈ t.text.toList → ['\\', '\n'] <:+: source.toList) := by
  obtain ⟨q, htakes⟩ := exists_takes_of_mem ht
  have hspans (hline : '\n' ∈ t.text.toList) : ∃ u s₁ v s₂, Quoted u s₁ ∧ Quoted v s₂ ∧
      t.text.toList = '"' :: (u ++ '\\' :: '\n' :: (v ++ ['"'])) ∧
      t.content = .string (String.ofList (s₁ ++ '\n' :: s₂)) := by
    obtain ⟨b, s, htext, hb, hcontent, hline⟩ := htakes.spells.string_of_newline_mem hline
    obtain ⟨u, s₁, v, s₂, rfl, hu, hv, rfl⟩ := hb.exists_of_newline_mem hline
    exact ⟨u, s₁, v, s₂, hu, hv, by simpa using htext, hcontent⟩
  refine ⟨⟨hspans, ?_⟩, fun hline => ?_⟩
  · rintro ⟨u, s₁, v, s₂, -, -, htext, -⟩
    simp [htext]
  · obtain ⟨u, s₁, v, s₂, -, -, htext, -⟩ := hspans hline
    have hinfix : ['\\', '\n'] <:+: t.text.toList :=
      ⟨'"' :: u, v ++ ['"'], by simp [htext]⟩
    exact hinfix.trans (htakes.longest.start.isInfix.trans (List.drop_suffix q _).isInfix)

/-- The string `"\n"` with a line end behind the backslash, in place of the letter. -/
theorem newline_mem_text_escaped :
    ∃ t ∈ (scan "\"\\\n\"").1, ∃ u s₁ v s₂, Quoted u s₁ ∧ Quoted v s₂ ∧
      t.text.toList = '"' :: (u ++ '\\' :: '\n' :: (v ++ ['"'])) ∧
      t.content = .string (String.ofList (s₁ ++ '\n' :: s₂)) := by
  have ht : ⟨.string "\n", "\"\\\n\"", 0, -1⟩ ∈ (scan "\"\\\n\"").1 := by decide +kernel
  exact ⟨_, ht, (newline_mem_text_iff _ _ ht).1.1 (by decide)⟩

/-- A string over two lines is one token, although comments are looked for line by line: here its
second line is taken for a comment, and the string is left open. -/
theorem newline_mem_text_slashes :
    (∃ t ∈ (scan "\"\\\n//\"").1, '\n' ∈ t.text.toList) ∧
      tokenize (Comment.strip "\"\\\n//\"") = .error (.unterminatedString 0) :=
  ⟨by decide +kernel, tokenize_eq_error.2 (by decide +kernel)⟩

end Token

namespace Comment

open Token

/-- The tokens of a text from `position` on, where a comment between two tokens is skipped up to the
end of its line, like a blank. -/
def scanSkipping (position : Nat) : List Char → List Token × Option LexFault
  | [] => ([], none)
  | c :: cs =>
    if isSpace c then scanSkipping (position + 1) cs
    else if c = '/' ∧ cs.head? = some '/' then
      scanSkipping (position + 1 + (cs.takeWhile (· ≠ '\n')).length) (cs.dropWhile (· ≠ '\n'))
    else match lexeme position c cs with
      | .error fault => ([], some fault)
      | .ok l =>
        let (tokens, fault) := scanSkipping (position + 1 + l.more) (cs.drop l.more)
        (ofLexeme position c cs l :: tokens, fault)
termination_by cs => cs.length
decreasing_by
  · simp
  · exact Nat.lt_succ_of_le (List.dropWhile_suffix _).length_le
  · simp only [List.length_cons, List.length_drop]
    omega

variable {position : Nat} {c : Char} {cs w : List Char} {a : Content} {p : Int}

theorem scanSkipping_nil : scanSkipping position [] = ([], none) := by
  rw [scanSkipping]

theorem scanSkipping_space (hc : isSpace c = true) :
    scanSkipping position (c :: cs) = scanSkipping (position + 1) cs := by
  rw [scanSkipping, if_pos hc]

theorem scanSkipping_comment :
    scanSkipping position ('/' :: '/' :: cs) =
      scanSkipping (position + 2 + (cs.takeWhile (· ≠ '\n')).length) (cs.dropWhile (· ≠ '\n')) := by
  rw [scanSkipping, if_neg (by decide), if_pos (by simp)]
  have hnext : position + 1 + (('/' :: cs).takeWhile (· ≠ '\n')).length =
      position + 2 + (cs.takeWhile (· ≠ '\n')).length := by
    rw [List.takeWhile_cons_of_pos (by decide), List.length_cons]
    omega
  rw [hnext, List.dropWhile_cons_of_pos (by decide)]

theorem not_comment (h : ¬ ['/', '/'] <+: c :: cs) : ¬ (c = '/' ∧ cs.head? = some '/') := by
  rintro ⟨rfl, hhead⟩
  obtain ⟨r, rfl⟩ := List.head?_eq_some_iff.1 hhead
  exact h (by simp)

theorem scanSkipping_fault {fault : LexFault} (hc : isSpace c = false)
    (hcomment : ¬ ['/', '/'] <+: c :: cs) (h : lexeme position c cs = .error fault) :
    scanSkipping position (c :: cs) = ([], some fault) := by
  rw [scanSkipping, if_neg (by simp [hc]), if_neg (not_comment hcomment), h]

theorem scanSkipping_takes (h : Takes (w ++ cs) w a p) (hcomment : ¬ ['/', '/'] <+: w ++ cs) :
    scanSkipping position (w ++ cs) =
      (⟨a, String.ofList w, position, p⟩ :: (scanSkipping (position + w.length) cs).1,
        (scanSkipping (position + w.length) cs).2) := by
  obtain ⟨c, w, rfl⟩ := h.spells.exists_cons
  have hspace := h.spells.isSpace_eq_false
  rw [List.cons_append] at h hcomment ⊢
  rw [scanSkipping, if_neg (by simp [hspace]), if_neg (not_comment hcomment), h.lexeme_eq]
  have hnext : position + 1 + w.length = position + (c :: w).length := by
    simp only [List.length_cons]
    omega
  simp [ofLexeme, hnext]

/-- The tokens that are left when comments are removed first are those of the skipping scan. -/
theorem scanFrom_stripText {ts : List Token} (q : Nat) (h : scanSkipping position cs = (ts, none))
    (hline : ∀ t ∈ ts, '\n' ∉ t.text.toList) :
    ∃ us, scanFrom q (stripText cs) = (us, none) ∧ us.map spelling = ts.map spelling := by
  induction hn : cs.length using Nat.strongRecOn generalizing position q cs ts with
  | _ n ih =>
    subst hn
    cases cs with
    | nil =>
      obtain ⟨rfl, -⟩ := Prod.mk.inj (scanSkipping_nil.symm.trans h)
      exact ⟨[], scanFrom_nil, rfl⟩
    | cons c cs =>
      by_cases hc : isSpace c = true
      · rw [scanSkipping_space hc] at h
        have hrec := fun q => ih cs.length (by simp) q h hline rfl
        rcases stripText_space hc with heq | heq
        · rw [heq, scanFrom_space hc]
          exact hrec (q + 1)
        · rw [heq]
          exact hrec q
      rw [Bool.not_eq_true] at hc
      by_cases hcomment : ['/', '/'] <+: c :: cs
      · obtain ⟨cs, hcs⟩ := hcomment
        rw [← hcs, List.cons_append, List.singleton_append] at h ⊢
        rw [scanSkipping_comment] at h
        rw [stripText_comment]
        refine ih _ ?_ q h hline rfl
        have hle := (List.dropWhile_suffix (l := cs) (· ≠ '\n')).length_le
        have hlen := congrArg List.length hcs
        simp only [List.length_append, List.length_cons] at hlen ⊢
        omega
      rcases lexeme_cases position cs hc with ⟨w, a, p, -, htakes⟩ | ⟨fault, heq, -⟩
      · obtain ⟨rest, hrest⟩ := htakes.longest.start
        have hlen : rest.length < (c :: cs).length := by
          rw [← hrest, List.length_append, List.length_cons]
          omega
        rw [← hrest] at h hcomment htakes ⊢
        rw [scanSkipping_takes htakes hcomment] at h
        obtain ⟨rfl, hnone⟩ := Prod.mk.inj h
        have hw : '\n' ∉ c :: w := by simpa using hline _ List.mem_cons_self
        obtain ⟨us, hus, heq⟩ := ih rest.length hlen (q + (c :: w).length)
          (Prod.ext rfl hnone) (fun t ht => hline t (List.mem_cons_of_mem _ ht)) rfl
        rw [stripText_lexeme htakes.spells hw hcomment, (takes_stripText htakes).scanFrom_eq, hus]
        exact ⟨_, rfl, by simp [spelling, heq]⟩
      · rw [scanSkipping_fault hc hcomment heq] at h
        simp at h

/-- If a scan that skips comments succeeds and no lexeme spans a line end, removing the comments
first and scanning then gives the same tokens, apart from their places. -/
theorem tokenize_strip (source : String) (tokens : List Token)
    (h : scanSkipping 0 source.toList = (tokens, none))
    (hline : ∀ t ∈ tokens, '\n' ∉ t.text.toList) :
    ∃ stripped, tokenize (strip source) = .ok stripped ∧
      stripped.map spelling = tokens.map spelling := by
  obtain ⟨stripped, hscan, hspelling⟩ := scanFrom_stripText 0 h hline
  refine ⟨stripped, ?_, hspelling⟩
  have hsource : (strip source).toList = stripText source.toList := String.toList_ofList
  rw [tokenize, scan, hsource, hscan]

/-- The lines `"//\"" / 2 // "` and `y`, with slashes and quotes in a string and in a comment. -/
theorem tokenize_strip_quotes :
    ∃ stripped, tokenize (strip "\"//\\\"\" / 2 // \"\ny") = .ok stripped ∧
      stripped.map spelling = [(.string "//\"", "\"//\\\"\"", -1), (.symbol .operator "/", "/", 40),
        (.integer 2, "2", -1), (.symbol .identifier "y", "y", -1)] := by
  refine tokenize_strip _
    [⟨.string "//\"", "\"//\\\"\"", 0, -1⟩, ⟨.symbol .operator "/", "/", 7, 40⟩,
      ⟨.integer 2, "2", 9, -1⟩, ⟨.symbol .identifier "y", "y", 16, -1⟩] ?_ (by decide)
  decide +kernel

end Comment

end SumLang
