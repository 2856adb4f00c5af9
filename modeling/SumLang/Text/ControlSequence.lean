/-! Terminal control sequences, and text without them. -/
namespace SumLang.Text

def escape : Char := '\x1b'

/-- The characters between the opening of a control sequence and the letter that ends it. -/
def isControlParameter (c : Char) : Bool :=
  c == ';' || c == '?' || c.isDigit

/-- Number of characters that a control sequence takes after its escape: a bracket, parameters and
one letter. -/
def controlLength? : List Char → Option Nat
  | '[' :: cs =>
    match cs.dropWhile isControlParameter with
    | c :: _ => if c.isAlpha then some ((cs.takeWhile isControlParameter).length + 2) else none
    | [] => none
  | _ => none

/-- Removes control sequences, from left to right. What is left of one does not open another, and
an escape that opens none stays. -/
def removeControls : List Char → List Char
  | [] => []
  | c :: cs =>
    match if c = escape then controlLength? cs else none with
    | some n => removeControls (cs.drop n)
    | none => c :: removeControls cs
termination_by cs => cs.length
decreasing_by all_goals simp only [List.length_cons, List.length_drop]; omega

end SumLang.Text
