import SumLang.Compilation
import SumLang.Disk
import SumLang.Text.Lines

/-! Reading source files and writing compiled ones. -/
namespace SumLang

inductive FileFault where
  /-- A source file that does not exist. -/
  | sourceNotFound (path : String)
  | noSuchFile (path : String)
  | isDirectory (path : String)
  | notDirectory (path : String)
  | undecodable (f : Text.Utf8Fault)
deriving DecidableEq, Repr

def Text.Utf8Fault.message (f : Utf8Fault) : String :=
  let place :=
    if f.length = 1 then
      "byte 0x" ++ String.ofList (hexDigits 2 f.first.toNat) ++ " in position " ++
        toString f.position
    else "bytes in position " ++ toString f.position ++ "-" ++
      toString (f.position + f.length - 1)
  let reason := match f.defect with
    | .startByte => "invalid start byte"
    | .continuationByte => "invalid continuation byte"
    | .endOfData => "unexpected end of data"
  "'utf-8' codec can't decode " ++ place ++ ": " ++ reason

namespace FileFault

def message : FileFault → String
  | sourceNotFound p => "Source file not found: " ++ p
  | noSuchFile p => "[Errno 2] No such file or directory: " ++ Text.quoted p
  | isDirectory p => "[Errno 21] Is a directory: " ++ Text.quoted p
  | notDirectory p => "[Errno 20] Not a directory: " ++ Text.quoted p
  | undecodable f => f.message

end FileFault

namespace Disk

/-- Reads a text file, every line end as a line feed. -/
def readText (d : Disk) (path : String) : Except FileFault String :=
  let shown := (Path.ofString path).toText
  match d.find shown with
  | .file _ bytes =>
    match Text.decodeUtf8 bytes with
    | .ok cs => .ok (String.ofList (Text.unifyLineEnds cs))
    | .error f => .error (.undecodable f)
  | .directory _ => .error (.isDirectory shown)
  | .vacant _ | .missing => .error (.noSuchFile shown)
  | .blocked => .error (.notDirectory shown)

def writeBytes (d : Disk) (path : String) (bytes : List UInt8) : Except FileFault Disk :=
  let shown := (Path.ofString path).toText
  match d.find shown with
  | .file place _ | .vacant place => .ok (d.put place (.file bytes))
  | .directory _ => .error (.isDirectory shown)
  | .missing => .error (.noSuchFile shown)
  | .blocked => .error (.notDirectory shown)

def writeText (d : Disk) (path text : String) : Except FileFault Disk :=
  d.writeBytes path (Text.encodeUtf8 text)

def filePlace? (d : Disk) (path : String) : Option Place :=
  match d.find (Path.ofString path).toText with
  | .file place _ | .vacant place => some place
  | _ => none

def isPresent (d : Disk) (path : String) : Bool :=
  match d.find (Path.ofString path).toText with
  | .file _ _ | .directory _ => true
  | _ => false

end Disk

/-- What the system answers where it does not let a file be opened for writing. -/
inductive Refusal where
  | denied
  | other (text : String)
deriving DecidableEq, Repr

/-- The places at which the system refuses to open a file for writing. -/
abbrev Refusals := List (Place × Refusal)

/-- How far something goes well, and what goes wrong then. -/
structure Breakdown where
  after : Nat
  reason : String
deriving DecidableEq, Repr

def Breakdown.through (breakdown : Option Breakdown) (bytes : List UInt8) : List UInt8 :=
  match breakdown with
  | none => bytes
  | some b => bytes.take b.after

/-- Why a file is not written, or not to its end. -/
inductive WriteFault where
  | file (f : FileFault)
  | refused (path : String) (r : Refusal)
  | broken (reason : String)
deriving DecidableEq, Repr

/-- Writes a text file where the system lets it be opened. The file is emptied before its bytes are
written, so a write that breaks down leaves those that got through. -/
def Disk.save (d : Disk) (refusals : Refusals) (breakdown : Option Breakdown)
    (path text : String) : Disk × Option WriteFault :=
  match (d.filePlace? path).bind fun place => refusals.lookup place with
  | some r => (d, some (.refused path r))
  | none =>
    match d.writeBytes path (Breakdown.through breakdown (Text.encodeUtf8 text)) with
    | .error f => (d, some (.file f))
    | .ok written => (written, breakdown.map fun b => .broken b.reason)

inductive FileCompileFault where
  | file (f : FileFault)
  | program (f : Fault)
deriving DecidableEq, Repr

def compileFile (d : Disk) (o : Options) (path : String) :
    Except FileCompileFault Compilation := do
  if !d.isPresent path then
    throw (.file (.sourceNotFound path))
  let source ← (d.readText path).mapError .file
  (compile o path source).mapError .program

/-- Compiles a source file and writes the result, if an output path is given that is not empty. -/
def compileFileTo (d : Disk) (o : Options) (path : String) (output : Option String) :
    Except FileCompileFault (String × Disk) := do
  let c ← compileFile d o path
  match output with
  | none => return (c.code, d)
  | some out =>
    if out = "" then return (c.code, d)
    else return (c.code, ← (d.writeText out c.code).mapError .file)

end SumLang
