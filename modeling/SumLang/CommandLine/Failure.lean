import SumLang.SourceFile

/-! How a failed run is told, and its exit code. -/
namespace SumLang.CommandLine

inductive Failure where
  /-- A program that is rejected. -/
  | program (d : Diagnostic)
  /-- Arguments or files that are not as they have to be. -/
  | usage (text : String)
  /-- Anything else. -/
  | internal (text : String)
deriving DecidableEq, Repr

namespace Failure

def exitCode : Failure → Nat
  | program _ => 1
  | usage _ => 2
  | internal _ => 3

def text : Failure → String
  | program d => d.render ++ "\n"
  | usage t => "Error: " ++ t ++ "\n"
  | internal t => "Internal error: " ++ t ++ "\n"

/-- A fault of a program, unless it lies beyond what programs are checked for. -/
def ofFault (f : Fault) : Failure :=
  if f.isInternal then internal f.diagnostic.message else program f.diagnostic

/-- A missing file is a fault of the arguments; other faults of files are not foreseen. -/
def ofFile (f : FileFault) : Failure :=
  match f with
  | .sourceNotFound _ | .noSuchFile _ => usage f.message
  | .isDirectory _ | .notDirectory _ | .undecodable _ => internal f.message

/-- A file that may not be written is a fault of the arguments, too. -/
def ofWrite : WriteFault → Failure
  | .file f => ofFile f
  | .refused path .denied => usage ("[Errno 13] Permission denied: " ++ Text.quoted path)
  | .refused _ (.other text) => internal text
  | .broken text => internal text

end Failure

end SumLang.CommandLine
