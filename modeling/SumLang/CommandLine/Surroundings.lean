import SumLang.SourceFile

/-! What a run depends on once it is under way. -/
namespace SumLang.CommandLine

/-- How the surroundings let a run down: the bytes of a file and the messages on standard output
that get through before a breakdown, and whether standard error takes messages. -/
structure Surroundings where
  file : Option Breakdown := none
  output : Option Breakdown := none
  errors : Bool := true
deriving DecidableEq, Repr

namespace Surroundings

/-- Prints messages behind earlier ones, up to the first that does not get through. -/
def print (s : Surroundings) (earlier : Nat) (messages : List String) :
    String × Option String :=
  match s.output with
  | none => (String.join messages, none)
  | some b =>
    if earlier + messages.length ≤ b.after then (String.join messages, none)
    else (String.join (messages.take (b.after - earlier)), some b.reason)

end Surroundings

end SumLang.CommandLine
