import SumLang.Text.Blank
import SumLang.Text.Lines

/-! Line comments: from `//` outside a string to the end of the line. -/
namespace SumLang.Comment

/-- The part of a line before its comment, if it has one. The flag says whether the line starts
inside a string, where a backslash takes the next character with it. -/
def before : Bool → List Char → Option (List Char)
  | _, [] => none
  | false, '/' :: '/' :: _ => some []
  | true, '\\' :: c :: cs => (before true cs).map fun s => '\\' :: c :: s
  | inString, '"' :: cs => (before (!inString) cs).map ('"' :: ·)
  | inString, c :: cs => (before inString cs).map (c :: ·)

/-- A line without its comment and the blanks before it; a line without a comment stays as it is. -/
def stripLine (line : List Char) : List Char :=
  match before false line with
  | some code => Text.trimEnd code
  | none => line

/-- Removes the comment of every line. Lines are never dropped or joined. -/
def strip (source : String) : String :=
  String.ofList (Text.joinLines ((Text.splitLines source.toList).map stripLine))

def count (source : String) : Nat :=
  (Text.splitLines source.toList).countP fun line => (before false line).isSome

end SumLang.Comment
