import SumLang.EnumLayout
import SumLang.Lowering.Settings

/-! The declarations of an enum, and the tests and bindings of its cases. -/
namespace SumLang

def resultLocal : String := "_value"

def emptyMember : Code.Binder := ⟨"char", "_empty"⟩

def structType (name : String) (members : List Code.Binder) : List Line :=
  ⟨0, .enter (.structType name)⟩ ::
    (if members.isEmpty then [emptyMember] else members).map
      (fun m => ⟨1, .statement (.declare m)⟩) ++
    [⟨0, .leave (some name)⟩]

namespace CaseLayout

def structLines (s : Settings) (c : CaseLayout) : List Line :=
  structType c.structName (c.fields.map s.binder)

def path (c : CaseLayout) (owner field : String) : Code.Access :=
  ⟨owner, [c.member, field]⟩

def signature (s : Settings) (enum : String) (c : CaseLayout) : Code.Signature :=
  ⟨⟨enum, c.constructor⟩, c.fields.map s.binder, true⟩

/-- Declares the result of a constructor with every byte zero. A C++ value gets its default instead,
since its members may have constructors of their own. -/
def resultStatements (s : Settings) (enum : String) : List Code.Statement :=
  match s.dialect with
  | .cpp => [.defineDefault ⟨enum, resultLocal⟩]
  | .c => [.declare ⟨enum, resultLocal⟩, .clear resultLocal]

/-- The body of a constructor: sets the tag and copies every parameter to its place. -/
def constructorBody (s : Settings) (enum : String) (c : CaseLayout) : List Code.Statement :=
  resultStatements s enum ++
    (if s.enumTags then [.assign ⟨resultLocal, [EnumLayout.tagMember]⟩ c.tag] else []) ++
    c.fields.map (fun v => .assign (c.path resultLocal v.name) v.name) ++
    [.yield resultLocal]

def constructorLines (s : Settings) (enum : String) (c : CaseLayout) : List Line :=
  ⟨0, .enter (.function (c.signature s enum))⟩ ::
    (c.constructorBody s enum).map (fun l => ⟨1, .statement l⟩) ++
    [⟨0, .leave none⟩]

def test (c : CaseLayout) (owner : String) : Code.Test :=
  ⟨⟨owner, [EnumLayout.tagMember]⟩, c.tag⟩

def binding (s : Settings) (c : CaseLayout) (owner : String) (v : Variable) (field : String) :
    Code.Statement :=
  .copy (s.binder v) (c.path owner field)

end CaseLayout

namespace EnumLayout

def isTagged (s : Settings) (l : EnumLayout) : Bool :=
  s.enumTags && !l.cases.isEmpty

def tagList : List CaseLayout → List Line
  | [] => []
  | [c] => [⟨1, .enumerator c.tag true⟩]
  | c :: cs => ⟨1, .enumerator c.tag false⟩ :: tagList cs

/-- What is taken from each of the tags, if it depends on the name alone. -/
theorem filterMap_tagList {α : Type} {f : Line → Option α} {g : String → Option α}
    (h : ∀ name last, f ⟨1, .enumerator name last⟩ = g name) (cs : List CaseLayout) :
    (tagList cs).filterMap f = cs.filterMap fun c => g c.tag := by
  fun_induction tagList cs with
  | case1 => rfl
  | case2 c =>
    rw [List.filterMap_cons, List.filterMap_cons, h]
    rfl
  | case3 c cs _ ih => rw [List.filterMap_cons, List.filterMap_cons, h, ih]

def tagLines (s : Settings) (l : EnumLayout) : List Line :=
  if l.isTagged s then
    ⟨0, .enter .enumType⟩ :: tagList l.cases ++ [⟨0, .leave (some l.tagType)⟩]
  else []

def outerMembers (s : Settings) (l : EnumLayout) : List Code.Binder :=
  (if l.isTagged s then [⟨l.tagType, tagMember⟩] else []) ++
    l.cases.map fun c => ⟨c.structName, c.member⟩

def outerLines (s : Settings) (l : EnumLayout) : List Line :=
  structType l.name (l.outerMembers s)

/-- All declarations of an enum: case structs, tags, outer struct, constructors. -/
def lines (s : Settings) (l : EnumLayout) : List Line :=
  l.cases.flatMap (CaseLayout.structLines s) ++ l.tagLines s ++ l.outerLines s ++
    l.cases.flatMap (CaseLayout.constructorLines s l.name)

end EnumLayout

end SumLang
