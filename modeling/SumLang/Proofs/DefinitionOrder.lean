import SumLang.Proofs.CodeSections

/-! The order in which types are defined and used. A struct can only hold values of a type that is
complete, and the enums of a program are declared in the order of their definitions: so each may
hold values of those defined before it, but not of itself or of a later one. -/
namespace SumLang

section Orderly

variable {α β : Type}

/-- Every item stands in a relation to the items before it. -/
def Orderly (p : List α → α → Prop) (as : List α) : Prop :=
  ∀ before a after, as = before ++ a :: after → p before a

variable {p : List α → α → Prop}

theorem orderly_nil : Orderly p [] := by
  intro before a after hsplit
  simp at hsplit

theorem orderly_cons {a : α} {as : List α} :
    Orderly p (a :: as) ↔ p [] a ∧ Orderly (fun before => p (a :: before)) as := by
  constructor
  · intro h
    refine ⟨h [] a as rfl, fun before b after hsplit => ?_⟩
    exact h (a :: before) b after (by rw [hsplit, List.cons_append])
  · rintro ⟨ha, has⟩ before b after hsplit
    cases before with
    | nil =>
      obtain ⟨rfl, -⟩ := List.cons.inj hsplit
      exact ha
    | cons a' before =>
      obtain ⟨rfl, htail⟩ := List.cons.inj hsplit
      exact has before b after htail

theorem orderly_append {as bs : List α} :
    Orderly p (as ++ bs) ↔ Orderly p as ∧ Orderly (fun before => p (as ++ before)) bs := by
  induction as generalizing p with
  | nil => simp [orderly_nil]
  | cons a as ih => rw [List.cons_append, orderly_cons, orderly_cons, ih, and_assoc]; rfl

theorem orderly_map {f : β → α} {bs : List β} :
    Orderly p (bs.map f) ↔ Orderly (fun before b => p (before.map f) (f b)) bs := by
  induction bs generalizing p with
  | nil => simp [orderly_nil]
  | cons b bs ih => rw [List.map_cons, orderly_cons, orderly_cons, ih]; rfl

theorem orderly_flatMap {f : β → List α} {bs : List β} :
    Orderly p (bs.flatMap f) ↔
      Orderly (fun before b => Orderly (fun done => p (before.flatMap f ++ done)) (f b)) bs := by
  induction bs generalizing p with
  | nil => simp [orderly_nil]
  | cons b bs ih =>
    rw [List.flatMap_cons, orderly_append, ih, orderly_cons]
    simp only [List.flatMap_nil, List.nil_append, List.flatMap_cons, List.append_assoc]

theorem orderly_congr {q : List α → α → Prop} {as : List α}
    (h : ∀ before a after, as = before ++ a :: after → (p before a ↔ q before a)) :
    Orderly p as ↔ Orderly q as :=
  forall_congr' fun before => forall_congr' fun a => forall_congr' fun after =>
    forall_congr' fun hsplit => h before a after hsplit

/-- What does not depend on the order. -/
theorem orderly_const {q : α → Prop} {as : List α} :
    Orderly (fun _ => q) as ↔ ∀ a ∈ as, q a := by
  induction as with
  | nil => simp [orderly_nil]
  | cons a as ih => rw [orderly_cons, ih, List.forall_mem_cons]

end Orderly

inductive EnumPart where
  | caseStruct (c : CaseLayout)
  | tags (l : EnumLayout)
  | outerStruct (l : EnumLayout)
  | constructor (enum : String) (c : CaseLayout)
deriving DecidableEq

namespace EnumPart

def lines (s : Settings) : EnumPart → List Line
  | caseStruct c => c.structLines s
  | tags l => l.tagLines s
  | outerStruct l => l.outerLines s
  | constructor enum c => c.constructorLines s enum

def members (s : Settings) (p : EnumPart) : List Code.Binder :=
  (structTypes (p.lines s)).flatMap Prod.snd

end EnumPart

def EnumLayout.parts (l : EnumLayout) : List EnumPart :=
  l.cases.map .caseStruct ++ [.tags l, .outerStruct l] ++ l.cases.map (.constructor l.name)

/-- A member of a struct whose type is the name of one of some enums comes after the outer struct of
that enum. -/
def DefinedBeforeUse (s : Settings) (ls : List EnumLayout) : Prop :=
  Orderly (fun before p => ∀ m ∈ p.members s, ∀ l ∈ ls, m.type = l.name → .outerStruct l ∈ before)
    (ls.flatMap EnumLayout.parts)

/-- The types of what the structs of an enum hold: the associated values, the tag and the cases. -/
def EnumDefinition.heldTypes (s : Settings) (d : EnumDefinition) : List String :=
  d.cases.flatMap (fun c => c.values.map fun v => s.dialect.spellType v.type) ++
    (d.layout.outerMembers s).map Code.Binder.type

/-- No enum holds a value of its own type, or of that of a later one. -/
def EnumsInOrder (s : Settings) (ds : List EnumDefinition) : Prop :=
  Orderly (fun before d => ∀ type ∈ d.heldTypes s, type ∈ ds.map EnumDefinition.name →
    type ∈ before.map EnumDefinition.name) ds

theorem EnumLayout.flatMap_lines_parts (s : Settings) (l : EnumLayout) :
    l.parts.flatMap (EnumPart.lines s) = l.lines s := by
  simp [parts, lines, EnumPart.lines, List.flatMap_map]

namespace EnumPart

variable {s : Settings}

theorem members_caseStruct (c : CaseLayout) :
    members s (.caseStruct c) = structMembers (c.fields.map s.binder) := by
  have htypes := structTypes_structType_append c.structName (c.fields.map s.binder) []
  rw [List.append_nil] at htypes
  rw [members, lines, CaseLayout.structLines, htypes]
  simp [structTypes]

theorem members_outerStruct (l : EnumLayout) :
    members s (.outerStruct l) = structMembers (l.outerMembers s) := by
  have htypes := structTypes_structType_append l.name (l.outerMembers s) []
  rw [List.append_nil] at htypes
  rw [members, lines, EnumLayout.outerLines, htypes]
  simp [structTypes]

theorem members_eq_nil {p : EnumPart}
    (h : ∀ k ∈ p.lines s, ∀ name, k.code ≠ .enter (.structType name)) : p.members s = [] := by
  have htypes := structTypes_append_of_skip h []
  rw [List.append_nil] at htypes
  rw [members, htypes]
  rfl

theorem members_tags (l : EnumLayout) : members s (.tags l) = [] := by
  refine members_eq_nil fun k hk => ?_
  rcases code_of_mem_tagLines hk with hcode | ⟨_, _, hcode⟩ | hcode <;> simp [hcode]

theorem members_constructor (enum : String) (c : CaseLayout) :
    members s (.constructor enum c) = [] := by
  refine members_eq_nil fun k hk => ?_
  rcases code_of_mem_constructorLines hk with ⟨_, hcode⟩ | ⟨_, hcode⟩ | hcode <;> simp [hcode]

end EnumPart

/-- The member of an empty struct has a type that no enum can have as its name. -/
theorem forall_mem_structMembers_iff (ms : List Code.Binder) {q : String → Prop}
    (hchar : q "char") :
    (∀ m ∈ structMembers ms, q m.type) ↔ ∀ m ∈ ms, q m.type := by
  unfold structMembers
  split
  · next hms => simp [List.isEmpty_iff.1 hms, emptyMember, hchar]
  · rfl

namespace EnumLayout

variable {s : Settings}

theorem outerStruct_mem_flatMap_parts {ls : List EnumLayout} {k : EnumLayout} :
    .outerStruct k ∈ ls.flatMap parts ↔ k ∈ ls := by
  simp [parts]

/-- The structs of an enum come before its outer struct is complete, so what they need must be
complete before the enum. -/
theorem orderly_parts_iff {before ls : List EnumLayout} {l : EnumLayout}
    (hchar : "char" ∉ ls.map EnumLayout.name) :
    Orderly (fun done p => ∀ m ∈ p.members s, ∀ k ∈ ls, m.type = k.name →
        .outerStruct k ∈ before.flatMap parts ++ done) l.parts ↔
      (∀ c ∈ l.cases, ∀ v ∈ c.fields, ∀ k ∈ ls, s.dialect.spellType v.type = k.name → k ∈ before) ∧
        ∀ m ∈ l.outerMembers s, ∀ k ∈ ls, m.type = k.name → k ∈ before := by
  have hchar : ∀ k ∈ ls, "char" = k.name → k ∈ before := fun k hk hname =>
    absurd (List.mem_map.2 ⟨k, hk, hname.symm⟩) hchar
  have hmembers (ms : List Code.Binder) : (∀ m ∈ structMembers ms, ∀ k ∈ ls, m.type = k.name →
      k ∈ before) ↔ ∀ m ∈ ms, ∀ k ∈ ls, m.type = k.name → k ∈ before :=
    forall_mem_structMembers_iff (q := fun type => ∀ k ∈ ls, type = k.name → k ∈ before) ms hchar
  have hearlier (k : EnumLayout) (done : List EnumPart) (hdone : .outerStruct k ∉ done) :
      .outerStruct k ∈ before.flatMap parts ++ done ↔ k ∈ before := by
    rw [List.mem_append, outerStruct_mem_flatMap_parts, or_iff_left hdone]
  have hcase (done : List CaseLayout) (c : CaseLayout) :
      (∀ m ∈ EnumPart.members s (.caseStruct c), ∀ k ∈ ls, m.type = k.name →
        .outerStruct k ∈ before.flatMap parts ++ done.map .caseStruct) ↔
      ∀ v ∈ c.fields, ∀ k ∈ ls, s.dialect.spellType v.type = k.name → k ∈ before := by
    simp only [hearlier _ (done.map .caseStruct) (by simp)]
    rw [EnumPart.members_caseStruct, hmembers, List.forall_mem_map]
    rfl
  have houter : (∀ m ∈ EnumPart.members s (.outerStruct l), ∀ k ∈ ls, m.type = k.name →
      .outerStruct k ∈ before.flatMap parts ++ (l.cases.map .caseStruct ++ [.tags l])) ↔
      ∀ m ∈ l.outerMembers s, ∀ k ∈ ls, m.type = k.name → k ∈ before := by
    simp only [hearlier _ (l.cases.map .caseStruct ++ [.tags l]) (by simp)]
    rw [EnumPart.members_outerStruct, hmembers]
  rw [parts, List.append_assoc, orderly_append, orderly_map, List.cons_append, orderly_cons,
    List.cons_append, orderly_cons, List.nil_append, orderly_map]
  simp only [hcase, orderly_const, houter, EnumPart.members_tags, EnumPart.members_constructor,
    List.not_mem_nil, false_imp_iff, implies_true, true_and, and_true]

/-- The structs of enums come after what they need exactly if each enum needs only earlier ones. -/
theorem definedBeforeUse_layouts_iff {ds : List EnumDefinition}
    (h : Compatible (ds.map EnumDefinition.layout)) :
    DefinedBeforeUse s (ds.map EnumDefinition.layout) ↔ EnumsInOrder s ds := by
  have hchar : "char" ∉ (ds.map EnumDefinition.layout).map EnumLayout.name := by
    intro hmem
    obtain ⟨l, hl, hname⟩ := List.mem_map.1 hmem
    have hreserved := (h.wellNamed l hl).name
    rw [hname] at hreserved
    exact absurd hreserved (by decide)
  -- Enums are told apart by their names.
  have hfind {before : List EnumDefinition} (hbefore : before ⊆ ds) (type : String) :
      (∀ k ∈ ds.map EnumDefinition.layout, type = k.name →
        k ∈ before.map EnumDefinition.layout) ↔
      (type ∈ ds.map EnumDefinition.name → type ∈ before.map EnumDefinition.name) := by
    rw [List.forall_mem_map]
    constructor
    · intro hall hmem
      obtain ⟨d, hd, rfl⟩ := List.mem_map.1 hmem
      obtain ⟨d', hd', hlayout⟩ := List.mem_map.1 (hall d hd rfl)
      exact List.mem_map.2 ⟨d', hd', congrArg EnumLayout.name hlayout⟩
    · rintro hall d hd rfl
      obtain ⟨d', hd', hname⟩ := List.mem_map.1 (hall (List.mem_map_of_mem hd))
      have hlayout : d'.layout = d.layout := List.inj_on_of_nodup_map h.names
        (List.mem_map_of_mem (hbefore hd')) (List.mem_map_of_mem hd) hname
      exact List.mem_map.2 ⟨d', hd', hlayout⟩
  unfold DefinedBeforeUse EnumsInOrder
  rw [orderly_flatMap, orderly_map]
  refine orderly_congr fun before d after hsplit => ?_
  have hbefore : before ⊆ ds := by simp [hsplit]
  rw [orderly_parts_iff hchar, EnumDefinition.heldTypes, List.forall_mem_append]
  have hcases : d.layout.cases = d.cases.map (EnumCase.layout d.name) := rfl
  simp only [hfind hbefore]
  simp only [hcases, List.forall_mem_flatMap, List.forall_mem_map]
  rfl

end EnumLayout

/-- In the code of a program, the structs of the enums come after what they need exactly if each
enum needs only those that are defined before it. All struct types of the code are among them. -/
theorem definedBeforeUse_generate_iff {s : Settings} {nodes : List Node} {text : String}
    (h : generate s nodes = .ok text) :
    ∃ r body rest, Registry.ofProgram nodes = .ok r ∧
      lowerToCode s nodes = .ok (headerLines s ++ body) ∧
      text = fileText ((headerLines s ++ body).map (Line.render s.indent)) ∧
      Line.nonblank body =
        (r.enums.flatMap EnumLayout.parts).flatMap (EnumPart.lines s) ++ rest ∧
      (∀ k ∈ rest, ∀ x, k.code ≠ .enter (.structType x)) ∧
      (DefinedBeforeUse s r.enums ↔ EnumsInOrder s (Node.enumerations nodes)) := by
  obtain ⟨r, body, rest, hr, hcode, htext, hbody, hrest⟩ := sections_of_generate h
  refine ⟨r, body, rest, hr, hcode, htext, ?_, hrest, ?_⟩
  · rw [hbody, List.flatMap_assoc]
    simp only [EnumLayout.flatMap_lines_parts]
  · obtain ⟨rfl, hcompatible⟩ := Registry.registerAll_empty_iff.1 hr
    exact EnumLayout.definedBeforeUse_layouts_iff hcompatible

/-- A pen has a color, which is defined before it. -/
theorem definedBeforeUse_generate_color :
    ∃ r text, Registry.ofProgram [.enumeration ⟨"Color", [⟨"Color", "red", []⟩]⟩,
        .enumeration ⟨"Pen", [⟨"Pen", "solid", [⟨.immutable, "Color", "color"⟩]⟩]⟩] = .ok r ∧
      generate {} [.enumeration ⟨"Color", [⟨"Color", "red", []⟩]⟩,
        .enumeration ⟨"Pen", [⟨"Pen", "solid", [⟨.immutable, "Color", "color"⟩]⟩]⟩] = .ok text ∧
      DefinedBeforeUse {} r.enums := by
  have hgenerate : generate {} [.enumeration ⟨"Color", [⟨"Color", "red", []⟩]⟩,
      .enumeration ⟨"Pen", [⟨"Pen", "solid", [⟨.immutable, "Color", "color"⟩]⟩]⟩] = .ok _ := rfl
  obtain ⟨r, body, rest, hr, -, -, -, -, hiff⟩ := definedBeforeUse_generate_iff hgenerate
  refine ⟨r, _, hr, hgenerate, hiff.2 ?_⟩
  exact orderly_cons.2 ⟨by decide, orderly_cons.2 ⟨by decide, orderly_nil⟩⟩

/-- The other way round the program is accepted too, and the struct of the pen uses a type that is
not yet defined. -/
theorem not_definedBeforeUse_later_color :
    parseSource "enum Pen \x7b case solid(color: Color); \x7d enum Color \x7b case red; \x7d" =
        .ok [.enumeration ⟨"Pen", [⟨"Pen", "solid", [⟨.immutable, "Color", "color"⟩]⟩]⟩,
          .enumeration ⟨"Color", [⟨"Color", "red", []⟩]⟩] ∧
      ∃ r text, Registry.ofProgram [
          .enumeration ⟨"Pen", [⟨"Pen", "solid", [⟨.immutable, "Color", "color"⟩]⟩]⟩,
          .enumeration ⟨"Color", [⟨"Color", "red", []⟩]⟩] = .ok r ∧
        generate {} [.enumeration ⟨"Pen", [⟨"Pen", "solid", [⟨.immutable, "Color", "color"⟩]⟩]⟩,
          .enumeration ⟨"Color", [⟨"Color", "red", []⟩]⟩] = .ok text ∧
        ¬ DefinedBeforeUse {} r.enums := by
  refine ⟨by decide +kernel, _, _, rfl, rfl, fun h => ?_⟩
  -- The struct of the only case of the pen is the first of all.
  have hcolor := h [] _ _ rfl ⟨"Color", "color"⟩ (by decide) ⟨"Color", [⟨"Color", "red", []⟩]⟩
    (by decide) rfl
  exact absurd hcolor (by decide)

end SumLang
