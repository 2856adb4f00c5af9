import SumLang.Node
import SumLang.Text.LetterCase

/-! Layouts of enums: a struct for each case, an outer struct with one member for each case and a
tag, and a constructor for each case. -/
namespace SumLang

structure CaseLayout where
  enum : String
  name : String
  fields : List Variable := []
deriving DecidableEq, Repr

namespace CaseLayout

def structName (c : CaseLayout) : String :=
  "_" ++ c.enum ++ Text.upperFirst c.name

def member (c : CaseLayout) : String :=
  Text.lowerFirst c.name

def tag (c : CaseLayout) : String :=
  "_" ++ c.enum ++ Text.upperFirst c.name ++ "Tag"

def constructor (c : CaseLayout) : String :=
  "_" ++ c.enum ++ "Create" ++ Text.upperFirst c.name ++ "Case"

def arity (c : CaseLayout) : Nat :=
  c.fields.length

/-- The names that the case adds to file scope. -/
def identifiers (c : CaseLayout) : List String :=
  [c.structName, c.tag, c.constructor]

end CaseLayout

/-- A laid out enum, its cases in the order of their definition. -/
structure EnumLayout where
  name : String
  cases : List CaseLayout := []
deriving DecidableEq, Repr

namespace EnumLayout

def tagType (l : EnumLayout) : String :=
  "_" ++ l.name ++ "Tag"

def caseNames (l : EnumLayout) : List String :=
  l.cases.map CaseLayout.name

def case? (l : EnumLayout) (name : String) : Option CaseLayout :=
  l.cases.find? (·.name == name)

def tagMember : String := "tag"

def members (l : EnumLayout) : List String :=
  tagMember :: l.cases.map CaseLayout.member

/-- The names generated at file scope, apart from the enum's own. -/
def identifiers (l : EnumLayout) : List String :=
  l.tagType :: l.cases.flatMap CaseLayout.identifiers

end EnumLayout

end SumLang
