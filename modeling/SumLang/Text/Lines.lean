/-! Lines of a text: splitting, joining, and the reading of foreign line ends. -/
namespace SumLang.Text

/-- Splits at every line feed; a text without one is a single line. -/
def splitLines : List Char → List (List Char)
  | [] => [[]]
  | c :: cs =>
    if c = '\n' then [] :: splitLines cs
    else match splitLines cs with
      | [] => [[c]]
      | line :: lines => (c :: line) :: lines

def joinLines : List (List Char) → List Char
  | [] => []
  | [line] => line
  | line :: lines => line ++ '\n' :: joinLines lines

/-- Reads a carriage return, alone or before a line feed, as a line feed. -/
def unifyLineEnds : List Char → List Char
  | [] => []
  | '\r' :: '\n' :: cs => '\n' :: unifyLineEnds cs
  | c :: cs => (if c = '\r' then '\n' else c) :: unifyLineEnds cs

theorem splitLines_ne_nil (s : List Char) : splitLines s ≠ [] := by
  cases s with
  | nil => simp [splitLines]
  | cons c cs =>
    unfold splitLines
    split
    · simp
    · split <;> simp

/-- Joining the lines of a text gives the text back. -/
theorem joinLines_splitLines (s : List Char) : joinLines (splitLines s) = s := by
  induction s with
  | nil => rfl
  | cons c cs ih =>
    obtain ⟨line, lines, h⟩ := List.exists_cons_of_ne_nil (splitLines_ne_nil cs)
    rw [h] at ih
    unfold splitLines
    split
    · next hc => rw [h]; simp [joinLines, ih, hc]
    · rw [h]
      cases lines with
      | nil => simpa [joinLines] using ih
      | cons l ls => simpa [joinLines] using ih

end SumLang.Text
