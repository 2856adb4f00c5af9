import SumLang.Code
import SumLang.Dialect
import SumLang.Node

/-! Settings of the lowering. -/
namespace SumLang

structure Settings where
  dialect : Dialect := .c
  /-- Text of one level of indentation. -/
  indent : String := "    "
  /-- Give enums a tag, without which their cases cannot be tested. -/
  enumTags : Bool := true
  /-- Put the statements of the top level into a `main` function. -/
  entryPoint : Bool := true
  /-- Declare every function before the first definition. -/
  forwardDeclarations : Bool := true
deriving DecidableEq, Repr

def Settings.binder (s : Settings) (v : Variable) : Code.Binder :=
  ⟨s.dialect.spellType v.type, v.name⟩

def Settings.signature (s : Settings) (p : Prototype) : Code.Signature :=
  ⟨⟨s.dialect.spellType p.result, p.name⟩, p.formals.map s.binder, false⟩

end SumLang
