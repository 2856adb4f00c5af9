import SumLang.EnumLayout.Registry
import SumLang.Text.Quoted

/-! Why a program cannot be lowered. -/
namespace SumLang

inductive Textless where
  /-- A node without a value. -/
  | absent
  /-- An integer of too many digits. -/
  | overlong
deriving DecidableEq, Repr

inductive LoweringFault where
  /-- A kind of node that has no counterpart. -/
  | noCounterpart (label : String)
  /-- A construct that the settings or its place rule out. -/
  | unsupported (feature : String) (alternative : Option String)
  /-- A `main` function beside statements at the top level. -/
  | entryPointConflict
  | enum (f : EnumFault)
  /-- An operator without a precedence. -/
  | unknownOperator (operator : String)
  /-- A value that cannot be written. -/
  | valueMissing {cause : Textless}
deriving DecidableEq, Repr

namespace LoweringFault

def diagnostic : LoweringFault → Diagnostic
  | noCounterpart label => { message := "cannot generate code for " ++ label }
  | unsupported feature alternative =>
    { message := "unsupported feature: " ++ feature
      hint := alternative }
  | entryPointConflict =>
    { message := "program defines 'main' and also contains top-level statements"
      hint := some "move the top-level statements into main() or disable the entry point" }
  | enum f => f.diagnostic
  | unknownOperator operator => { message := Text.quoted operator }
  | @valueMissing .absent => { message := "an argument has no value" }
  | @valueMissing .overlong =>
    { message := "Exceeds the limit (4300 digits) for integer string conversion; " ++
        "use sys.set_int_max_str_digits() to increase the limit" }

end LoweringFault

end SumLang
