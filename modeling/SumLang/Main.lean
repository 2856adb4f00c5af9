import SumLang.CommandLine.Footprint
import SumLang.CommandLine.Run

/-! The command line program. -/
namespace SumLang.CommandLine

def probe (place : Place) : IO (Option Entry) := do
  let path := (⟨".", placeText place⟩ : IO.FS.DirEntry).path
  if ← path.isDir then return some .directory
  else if ← path.pathExists then return some (.file (← IO.FS.readBinFile path).toList)
  else return none

/-- The part of the real file system that a run may look at. -/
def snapshot (args : List String) : IO Disk := do
  (footprint args).foldlM (fun d place => do
    match ← probe place with
    | some e => return d.put place e
    | none => return d) {}

def environment : IO Environment := do
  let names := ["TEDDY_TARGET", "TEDDY_ENUM_TAGS", "TEDDY_ENTRY_POINT", "TEDDY_FORWARD_DECLS"]
  names.filterMapM fun name => do return (← IO.getEnv name).map fun value => (name, value)

/-- Writes a file, or tells why the system refuses it. -/
def writeFile (place : Place) (bytes : List UInt8) : IO (Option Refusal) := do
  try
    IO.FS.writeBinFile (placeText place) ⟨bytes.toArray⟩
    return none
  catch e =>
    match e with
    | .permissionDenied .. => return some .denied
    | e => return some (.other (toString e))

/-- Writes the files that a run has changed, and gives the places that the system refuses. -/
def commit (before after : Disk) : IO Refusals :=
  (before.changes after).filterMapM fun (place, entry) =>
    match entry with
    | .file bytes => return (← writeFile place bytes).map fun r => (place, r)
    | .directory => return none

def streamOf (s : IO.FS.Stream) : IO Stream := do
  return if ← s.isTty then .terminal else .plain

end SumLang.CommandLine

open SumLang.CommandLine in
def main (args : List String) : IO UInt32 := do
  let disk ← snapshot args
  let env ← environment
  -- What the system refuses shows only when the files are written; the outcome reckons with it.
  let refusals ← commit disk (run env disk args).disk
  let mut outcome := run env disk args refusals
  try
    IO.print (outcome.outputText (← streamOf (← IO.getStdout)))
  catch e =>
    outcome := run env disk args refusals { output := some ⟨0, toString e⟩ }
  IO.eprint (outcome.errorText (← streamOf (← IO.getStderr)))
  return outcome.exitCode.toUInt32
