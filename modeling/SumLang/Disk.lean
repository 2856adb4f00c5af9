import SumLang.Text.Quoted
import SumLang.Text.Utf8

/-! Paths, and a file system as a value. -/
namespace SumLang

/-- A path: where it starts, and its parts. Empty parts and `.` are left out, `..` stays. -/
structure Path where
  root : String
  parts : List String
deriving DecidableEq, Repr

namespace Path

def splitAt (sep : Char) : List Char → List (List Char)
  | [] => [[]]
  | c :: cs =>
    if c = sep then [] :: splitAt sep cs
    else match splitAt sep cs with
      | [] => [[c]]
      | part :: parts => (c :: part) :: parts

def pieces (s : String) : List String :=
  (splitAt '/' s.toList).map String.ofList

/-- Two slashes at the start, and no more, are kept apart from one. -/
def rootOf (s : String) : String :=
  match s.toList with
  | '/' :: '/' :: '/' :: _ => "/"
  | '/' :: '/' :: _ => "//"
  | '/' :: _ => "/"
  | _ => ""

def ofString (s : String) : Path :=
  ⟨rootOf s, (pieces s).filter fun p => p != "" && p != "."⟩

/-- The path as text; the path without parts is `.`. -/
def toText (p : Path) : String :=
  if p.root = "" && p.parts.isEmpty then "."
  else p.root ++ "/".intercalate p.parts

/-- A file name without its extension. The extension starts at the last dot, unless that is the
first or the last character. -/
def stem (name : String) : String :=
  let cs := name.toList
  let extension := cs.reverse.takeWhile (· != '.')
  let base := cs.take (cs.length - extension.length - 1)
  if extension.length = cs.length || extension.isEmpty || base.isEmpty then name
  else String.ofList base

def withExtension (p : Path) (extension : String) : Path :=
  match p.parts.getLast? with
  | some name => { p with parts := p.parts.dropLast ++ [stem name ++ extension] }
  | none => p

end Path

inductive Entry where
  | file (bytes : List UInt8)
  | directory
deriving DecidableEq, Repr

/-- A place in the file system: names from the working directory on, or from the root, which is
written `/`. -/
abbrev Place := List String

/-- Files and directories by place. There are no links: each place has a content of its own, and
what is written at one shows at no other. -/
structure Disk where
  entries : List (Place × Entry) := []
deriving DecidableEq, Repr

inductive Found where
  | file (place : Place) (bytes : List UInt8)
  | directory (place : Place)
  /-- Nothing, in a directory that exists. -/
  | vacant (place : Place)
  /-- Nothing, and a directory on the way is missing. -/
  | missing
  /-- A file stands where a directory is needed. -/
  | blocked
deriving DecidableEq, Repr

namespace Disk

/-- The entry at a place. The working directory, the root and the directories above exist. -/
def entry? (d : Disk) (place : Place) : Option Entry :=
  if place = ["/"] || place.all (· == "..") then some .directory
  else d.entries.lookup place

def parent (place : Place) : Place :=
  if place = ["/"] then place
  else if place.all (· == "..") then place ++ [".."]
  else place.dropLast

def follow (d : Disk) (place : Place) : List String → Found
  | [] => .directory place
  | piece :: rest =>
    if piece = "" || piece = "." then follow d place rest
    else if piece = ".." then follow d (parent place) rest
    else
      let next := place ++ [piece]
      match d.entry? next with
      | some .directory => follow d next rest
      | some (.file bytes) => if rest.isEmpty then .file next bytes else .blocked
      | none => if rest.isEmpty then .vacant next else .missing

/-- What a path leads to. An empty path leads nowhere. -/
def find (d : Disk) (path : String) : Found :=
  if path = "" then .missing
  else d.follow (if Path.rootOf path = "" then [] else ["/"]) (Path.pieces path)

def put (d : Disk) (place : Place) (e : Entry) : Disk :=
  if (d.entries.lookup place).isSome then
    ⟨d.entries.map fun (p, old) => if p = place then (p, e) else (p, old)⟩
  else ⟨d.entries ++ [(place, e)]⟩

/-- The entries that are new or different after a change. -/
def changes (before after : Disk) : List (Place × Entry) :=
  after.entries.filter fun (p, e) => before.entries.lookup p != some e

end Disk

end SumLang
