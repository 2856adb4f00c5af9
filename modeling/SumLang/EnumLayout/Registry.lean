import SumLang.Diagnostic
import SumLang.Dialect
import SumLang.EnumLayout

/-! The enums of a program. An enum is registered whole or not at all, and only if every name it
generates is free. -/
namespace SumLang

inductive EnumFault where
  | duplicateEnum (enum : String) (generated : Option String)
  | duplicateCase (enum case : String) (generated : Option String)
  | reservedName (enum name : String)
  | unknownEnum (enum : String)
  | unknownCase (enum case : String) (known : List String)
  | bindingCount (enum case : String) (expected actual : Int)
deriving DecidableEq, Repr

namespace EnumFault

/-- A hint that names a generated identifier, unless it is empty. -/
def collision (text : String) : Option String → Option String
  | some g => if g = "" then none else some (text ++ "'" ++ g ++ "'")
  | none => none

def diagnostic : EnumFault → Diagnostic
  | duplicateEnum e g =>
    { message := "redefinition of enum '" ++ e ++ "'"
      hint := collision "enum collides with an earlier enum on generated identifier " g }
  | duplicateCase e c g =>
    { message := "duplicate case '" ++ c ++ "' in enum '" ++ e ++ "'"
      hint := collision "case names collide on generated identifier " g }
  | reservedName e n =>
    { message := "'" ++ n ++ "' in enum '" ++ e ++ "' is a reserved word in C/C++"
      hint := some "rename it; enum, case and field names become C identifiers" }
  | unknownEnum e => { message := "unknown enum '" ++ e ++ "'" }
  | unknownCase e c known =>
    { message := "enum '" ++ e ++ "' has no case '" ++ c ++ "'"
      hint := if known.isEmpty then none
        else some ("'" ++ e ++ "' defines " ++
          ", ".intercalate (known.map fun k => "'" ++ k ++ "'")) }
  | bindingCount e c expected actual =>
    { message := "case '" ++ e ++ "." ++ c ++ "' holds " ++ toString expected ++
        (if expected = 1 then " value, " else " values, ") ++ toString actual ++ " bound" }

end EnumFault

/-- The registered enums in order, and the names generated for them at file scope. -/
structure Registry where
  enums : List EnumLayout := []
  generated : List String := []
deriving DecidableEq, Repr

namespace Registry

def empty : Registry := {}

def get? (r : Registry) (enum : String) : Option EnumLayout :=
  r.enums.find? (·.name == enum)

def contains (r : Registry) (enum : String) : Bool :=
  (r.get? enum).isSome

def lookup (r : Registry) (enum case : String) : Except EnumFault CaseLayout :=
  match r.get? enum with
  | none => .error (.unknownEnum enum)
  | some l =>
    match l.case? case with
    | none => .error (.unknownCase enum case l.caseNames)
    | some c => .ok c

def insert (r : Registry) (l : EnumLayout) : Registry :=
  ⟨r.enums ++ [l], r.generated ++ l.identifiers⟩

def checkName (enum name : String) : Except EnumFault Unit :=
  if isReserved name then .error (.reservedName enum name) else .ok ()

/-- Checks one more case against the cases laid out before it, of this enum and of others. -/
def layOutCase (r : Registry) (l : EnumLayout) (c : EnumCase) : Except EnumFault CaseLayout := do
  if (l.case? c.name).isSome then
    throw (.duplicateCase l.name c.name none)
  let layout : CaseLayout := ⟨l.name, c.name, c.values⟩
  checkName l.name layout.member
  c.values.forM fun v => checkName l.name v.name
  match layout.identifiers.find? fun i => l.identifiers.contains i || r.generated.contains i with
  | some i => throw (.duplicateCase l.name c.name (some i))
  | none => pure ()
  if l.members.contains layout.member then
    throw (.duplicateCase l.name c.name (some layout.member))
  return layout

def layOutCases (r : Registry) (l : EnumLayout) : List EnumCase → Except EnumFault EnumLayout
  | [] => .ok l
  | c :: cs => do
    let layout ← layOutCase r l c
    layOutCases r ⟨l.name, l.cases ++ [layout]⟩ cs

def layOut (r : Registry) (d : EnumDefinition) : Except EnumFault EnumLayout := do
  if r.contains d.name then
    throw (.duplicateEnum d.name none)
  checkName d.name d.name
  let l : EnumLayout := ⟨d.name, []⟩
  if r.generated.contains l.tagType then
    throw (.duplicateEnum d.name (some l.tagType))
  layOutCases r l d.cases

def register (r : Registry) (d : EnumDefinition) : Except EnumFault Registry :=
  (r.layOut d).map r.insert

/-- Registers definitions in order up to the first that is refused. -/
def registerAll (r : Registry) : List EnumDefinition → Except EnumFault Registry
  | [] => .ok r
  | d :: ds => do registerAll (← r.register d) ds

/-- The layouts of the definitions before the first that is refused. -/
def accepted (r : Registry) : List EnumDefinition → List EnumLayout
  | [] => []
  | d :: ds =>
    match r.layOut d with
    | .ok l => l :: accepted (r.insert l) ds
    | .error _ => []

def ofProgram (nodes : List Node) : Except EnumFault Registry :=
  empty.registerAll (Node.enumerations nodes)

end Registry

end SumLang
