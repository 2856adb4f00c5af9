/-! Diagnostics: what is reported about a rejected program, and its text. -/
namespace SumLang

structure Diagnostic where
  message : String
  position : Option Int := none
  hint : Option String := none
deriving DecidableEq, Repr

/-- The message with its offset, and the hint on a second line unless it is empty. -/
def Diagnostic.render (d : Diagnostic) : String :=
  let place := match d.position with
    | some p => " (at offset " ++ toString p ++ ")"
    | none => ""
  let advice := match d.hint with
    | some h => if h = "" then "" else "\nhint: " ++ h
    | none => ""
  "error: " ++ d.message ++ place ++ advice

end SumLang
