import SumLang.Text.ControlSequence

/-! Where a run prints. -/
namespace SumLang.CommandLine

inductive Stream where
  | terminal
  | plain
deriving DecidableEq, Repr

/-- A message as it is printed. Only a terminal is sent the control sequences in it. -/
def Stream.message : Stream → String → String
  | .terminal, text => text
  | .plain, text => String.ofList (Text.removeControls text.toList)

end SumLang.CommandLine
