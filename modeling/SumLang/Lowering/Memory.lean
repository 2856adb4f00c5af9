import SumLang.EnumLayout.Declaration
import SumLang.Lowering.Fault

/-! What the lowering remembers while it goes through a program: the lines so far, the depth, the
names in scope, and the functions and enums of the program. -/
namespace SumLang

/-- Names with their types, the latest declaration first. -/
abbrev Scope := List (String × String)

structure Memory where
  lines : Array Line := #[]
  /-- Indentation of the next line. -/
  level : Nat := 0
  /-- Number of bodies entered and not left. -/
  depth : Nat := 0
  /-- Scopes, the innermost first. -/
  scopes : List Scope := [[]]
  /-- Result types of functions, the latest definition first. -/
  functions : List (String × String) := []
  enums : Registry := .empty
deriving Repr

/-- A step of the lowering. A step that fails leaves its memory as it was at the fault. -/
abbrev Lowering := EStateM LoweringFault Memory

namespace Memory

/-- The type of a name by its innermost declaration. -/
def lookup (m : Memory) (name : String) : Option String :=
  m.scopes.findSome? (·.lookup name)

def resultType (m : Memory) (name : String) : Option String :=
  m.functions.lookup name

def declare (m : Memory) (v : Variable) : Memory :=
  match m.scopes with
  | [] => { m with scopes := [[(v.name, v.type)]] }
  | scope :: outer => { m with scopes := ((v.name, v.type) :: scope) :: outer }

def enter (m : Memory) : Memory :=
  { m with level := m.level + 1, depth := m.depth + 1, scopes := [] :: m.scopes }

def leave (m : Memory) : Memory :=
  { m with level := m.level - 1, depth := m.depth - 1, scopes := m.scopes.drop 1 }

def write (m : Memory) (code : Code) : Memory :=
  { m with lines := m.lines.push ⟨m.level, code⟩ }

end Memory

namespace Lowering

def write (code : Code) : Lowering Unit := modify (·.write code)

def writeStatement (s : Code.Statement) : Lowering Unit := write (.statement s)

/-- Adds lines that bring their own indentation. -/
def writeLines (ls : List Line) : Lowering Unit :=
  modify fun m => { m with lines := m.lines ++ ls.toArray }

def declare (v : Variable) : Lowering Unit := modify (·.declare v)

def enter : Lowering Unit := modify Memory.enter

def leave : Lowering Unit := modify Memory.leave

/-- Runs a check of the enums as a step. -/
def ofEnums {α : Type} (x : Registry → Except EnumFault α) : Lowering α := do
  match x (← get).enums with
  | .ok a => return a
  | .error f => throw (.enum f)

end Lowering

end SumLang
