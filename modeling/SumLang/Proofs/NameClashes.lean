import SumLang.Proofs.CaseValues
import SumLang.Proofs.LoweringChecks

/-! Names that clash in the declarations of an enum. A struct must not have two members of one name,
nor a function two parameters; and a parameter hides everything else that its name stands for, so
none may have a name that the body uses for something else. Registration makes sure of part of this:
the rest is up to the names of the associated values. -/
namespace SumLang

namespace Code

/-- What a name in the body of a function stands for. -/
inductive Role where
  | type
  | function
  /-- A variable declared in the body. -/
  | declared
  | constant
  | parameter
deriving DecidableEq

structure Use where
  name : String
  role : Role
deriving DecidableEq

/-- The names in the statements that constructors are made of. An assigned value is one of the
constants, or else a parameter. -/
def Statement.uses (constants : List String) : Statement → List Use
  | .declare b => [⟨b.type, .type⟩, ⟨b.name, .declared⟩]
  | .defineDefault b => [⟨b.type, .type⟩, ⟨b.name, .declared⟩]
  | .clear x => [⟨"memset", .function⟩, ⟨x, .declared⟩]
  | .assign target value =>
    [⟨target.root, .declared⟩, ⟨value, if value ∈ constants then .constant else .parameter⟩]
  | .yield x => [⟨x, .declared⟩]
  | _ => []

end Code

open Code

def leadingStatements : List Line → List Statement
  | ⟨_, .statement st⟩ :: ls => st :: leadingStatements ls
  | _ => []

/-- The functions that some lines define, each with the statements up to its first block. -/
def functionDefinitions : List Line → List (Signature × List Statement)
  | [] => []
  | ⟨_, .enter (.function sig)⟩ :: ls => (sig, leadingStatements ls) :: functionDefinitions ls
  | _ :: ls => functionDefinitions ls

/-- No two names clash in the struct types, the constants and the functions that some lines
define. -/
structure NoClash (ls : List Line) : Prop where
  members : ∀ t ∈ structTypes ls, (t.2.map Binder.name).Nodup
  constants : (enumerators ls).Nodup
  parameters : ∀ f ∈ functionDefinitions ls, (f.1.parameters.map Binder.name).Nodup
  /-- Where the name of a parameter stands in the body, the parameter is meant. -/
  visible : ∀ f ∈ functionDefinitions ls, ∀ x ∈ f.1.parameters, ∀ st ∈ f.2,
    ∀ u ∈ st.uses (enumerators ls), u.name = x.name → u.role = .parameter

/-- The associated values of each case have names of their own, and none has the name of the enum
or of the function that constructors clear their results with. -/
structure EnumDefinition.FieldsApart (s : Settings) (d : EnumDefinition) : Prop where
  distinct : ∀ c ∈ d.cases, (c.values.map Variable.name).Nodup
  type : ∀ c ∈ d.cases, ∀ v ∈ c.values, v.name ≠ d.name
  clearing : s.dialect = .c → ∀ c ∈ d.cases, ∀ v ∈ c.values, v.name ≠ "memset"

theorem functionDefinitions_append_of_skip {ks : List Line}
    (h : ∀ k ∈ ks, ∀ sig, k.code ≠ .enter (.function sig)) (ls : List Line) :
    functionDefinitions (ks ++ ls) = functionDefinitions ls := by
  induction ks with
  | nil => rfl
  | cons k ks ih =>
    rw [List.cons_append, functionDefinitions]
    · exact ih fun k hk => h k (List.mem_cons_of_mem _ hk)
    · intro level sig hk
      exact h k List.mem_cons_self sig (by rw [hk])

theorem leadingStatements_map_append (level : Nat) (sts : List Statement) {k : Line}
    (hk : ∀ st, k.code ≠ .statement st) (ls : List Line) :
    leadingStatements (sts.map (fun st => ⟨level, .statement st⟩) ++ k :: ls) = sts := by
  induction sts with
  | nil =>
    rw [List.map_nil, List.nil_append, leadingStatements]
    intro level st ls' hcons
    exact hk st (by rw [(List.cons.inj hcons).1])
  | cons st sts ih => exact congrArg (st :: ·) ih

theorem functionDefinitions_constructorLines_append (s : Settings) (enum : String) (c : CaseLayout)
    (ls : List Line) :
    functionDefinitions (c.constructorLines s enum ++ ls) =
      (c.signature s enum, c.constructorBody s enum) :: functionDefinitions ls := by
  have hskip : ∀ k ∈ (c.constructorBody s enum).map (fun st => (⟨1, .statement st⟩ : Line)) ++
      [⟨0, .leave none⟩], ∀ sig, k.code ≠ .enter (.function sig) := by
    simp [or_imp, forall_and]
  rw [CaseLayout.constructorLines, List.cons_append, List.cons_append, functionDefinitions,
    functionDefinitions_append_of_skip hskip, List.append_assoc, List.singleton_append,
    leadingStatements_map_append 1 _ (by simp)]

/-- The functions of an enum are the constructors of its cases. -/
theorem functionDefinitions_lines (s : Settings) (l : EnumLayout) :
    functionDefinitions (l.lines s) =
      l.cases.map fun c => (c.signature s l.name, c.constructorBody s l.name) := by
  have hstruct (name : String) (members : List Binder) :
      ∀ k ∈ structType name members, ∀ sig, k.code ≠ .enter (.function sig) := by
    simp [structType, or_imp, forall_and]
  have hskip : ∀ k ∈ l.cases.flatMap (CaseLayout.structLines s) ++ l.tagLines s ++ l.outerLines s,
      ∀ sig, k.code ≠ .enter (.function sig) := by
    intro k hk
    rcases List.mem_append.1 hk with hk | hk
    · rcases List.mem_append.1 hk with hk | hk
      · obtain ⟨c, -, hk⟩ := List.mem_flatMap.1 hk
        exact hstruct _ _ k hk
      · rcases code_of_mem_tagLines hk with hcode | ⟨_, _, hcode⟩ | hcode <;> simp [hcode]
    · exact hstruct _ _ k hk
  have hconstructors (cs : List CaseLayout) :
      functionDefinitions (cs.flatMap (CaseLayout.constructorLines s l.name)) =
        cs.map fun c => (c.signature s l.name, c.constructorBody s l.name) := by
    induction cs with
    | nil => rfl
    | cons c cs ih =>
      rw [List.flatMap_cons, functionDefinitions_constructorLines_append, ih, List.map_cons]
  rw [EnumLayout.lines, functionDefinitions_append_of_skip hskip, hconstructors]

namespace CaseLayout

variable (s : Settings) (enum : String) (constants : List String) {c : CaseLayout}

/-- The names in the body of a constructor. -/
theorem mem_uses_constructorBody_iff {u : Use} :
    (∃ st ∈ c.constructorBody s enum, u ∈ st.uses constants) ↔
      u = ⟨enum, .type⟩ ∨ u = ⟨resultLocal, .declared⟩ ∨
        (s.dialect = .c ∧ u = ⟨"memset", .function⟩) ∨
        (s.enumTags = true ∧ u = ⟨c.tag, if c.tag ∈ constants then .constant else .parameter⟩) ∨
        ∃ v ∈ c.fields, u = ⟨v.name, if v.name ∈ constants then .constant else .parameter⟩ := by
  have hresult : (∃ st ∈ resultStatements s enum, u ∈ st.uses constants) ↔
      u = ⟨enum, .type⟩ ∨ u = ⟨resultLocal, .declared⟩ ∨
        (s.dialect = .c ∧ u = ⟨"memset", .function⟩) := by
    unfold resultStatements
    cases s.dialect with
    | c => simp [Statement.uses, or_assoc, or_comm, or_left_comm]
    | cpp => simp [Statement.uses]
  have htag : (∃ st ∈ if s.enumTags then
        [Statement.assign ⟨resultLocal, [EnumLayout.tagMember]⟩ c.tag] else [],
        u ∈ st.uses constants) ↔ s.enumTags = true ∧ (u = ⟨resultLocal, .declared⟩ ∨
          u = ⟨c.tag, if c.tag ∈ constants then .constant else .parameter⟩) := by
    cases s.enumTags <;> simp [Statement.uses]
  simp only [constructorBody, List.mem_append, or_and_right, exists_or, hresult, htag]
  simp only [List.mem_map, List.mem_singleton, Statement.uses, CaseLayout.path]
  grind [Statement.uses]

/-- The parameters of a constructor can only hide the type of its result and the function that
clears it: all else that is not a parameter starts with an underscore. -/
theorem visible_constructorBody_iff (hfields : ∀ v ∈ c.fields, v.name.toList.head? ≠ some '_')
    (hconstants : ∀ x ∈ constants, x.toList.head? = some '_') :
    (∀ v ∈ c.fields, ∀ st ∈ c.constructorBody s enum, ∀ u ∈ st.uses constants,
        u.name = v.name → u.role = .parameter) ↔
      (∀ v ∈ c.fields, v.name ≠ enum) ∧
        (s.dialect = .c → ∀ v ∈ c.fields, v.name ≠ "memset") := by
  constructor
  · intro h
    -- A parameter that hides something else has the name of a use in another role.
    have hne (u : Use) (hrole : u.role ≠ .parameter)
        (hu : ∃ st ∈ c.constructorBody s enum, u ∈ st.uses constants) :
        ∀ v ∈ c.fields, v.name ≠ u.name := by
      obtain ⟨st, hst, hu⟩ := hu
      exact fun v hv hname => hrole (h v hv st hst u hu hname.symm)
    have huses (u : Use) := mem_uses_constructorBody_iff s enum constants (c := c) (u := u)
    refine ⟨hne ⟨enum, .type⟩ (by simp) ((huses _).2 (by simp)), fun hc => ?_⟩
    exact hne ⟨"memset", .function⟩ (by simp) ((huses _).2 (by simp [hc]))
  · rintro ⟨htype, hclear⟩ v hv st hst u hu hname
    rcases (mem_uses_constructorBody_iff s enum constants).1 ⟨st, hst, hu⟩ with
      rfl | rfl | ⟨hc, rfl⟩ | ⟨-, rfl⟩ | ⟨w, hw, rfl⟩
    · exact absurd hname.symm (htype v hv)
    · exact absurd (hname ▸ rfl) (hfields v hv)
    · exact absurd hname.symm (hclear hc v hv)
    · refine absurd ?_ (hfields v hv)
      simp [← hname, tag]
    · have hw : w.name ∉ constants := fun hmem => hfields w hw (hconstants _ hmem)
      simp [hw]

end CaseLayout

namespace EnumLayout

variable {s : Settings} {l : EnumLayout}

/-- What no name of an associated value can clash with, since it starts with an underscore. -/
theorem head?_of_mem_enumerators {x : String} (h : x ∈ enumerators (l.lines s)) :
    x.toList.head? = some '_' := by
  rw [enumerators_lines] at h
  split at h
  · obtain ⟨c, -, rfl⟩ := List.mem_map.1 h
    simp [CaseLayout.tag]
  · simp at h

theorem nodup_enumerators_lines (hids : l.identifiers.Nodup) : (enumerators (l.lines s)).Nodup := by
  rw [enumerators_lines]
  split
  · exact nodup_map_of_identifiers hids fun c => by simp [CaseLayout.identifiers]
  · exact List.nodup_nil

theorem nodup_outerMembers (h : l.WellNamed) : ((l.outerMembers s).map Binder.name).Nodup := by
  have hcases : (l.cases.map fun c => (⟨c.structName, c.member⟩ : Binder)).map Binder.name =
      l.cases.map CaseLayout.member := by simp [Function.comp_def]
  unfold outerMembers
  rw [List.map_append, hcases]
  split
  · refine List.nodup_cons.2 ⟨fun htag => ?_, h.members⟩
    obtain ⟨c, hc, htag⟩ := List.mem_map.1 htag
    exact h.tag c hc htag
  · exact h.members

end EnumLayout

theorem nodup_structMembers_iff {ms : List Binder} :
    ((structMembers ms).map Binder.name).Nodup ↔ (ms.map Binder.name).Nodup := by
  unfold structMembers
  split
  · next h => simp [List.isEmpty_iff.1 h]
  · rfl

theorem Settings.map_name_binder (s : Settings) (vs : List Variable) :
    (vs.map s.binder).map Binder.name = vs.map Variable.name := by
  simp [Settings.binder, Function.comp_def]

/-- The clashes that a layout can have: among its constants, among the members of its outer struct,
and in each case. -/
theorem noClash_lines_iff {s : Settings} {l : EnumLayout} :
    NoClash (l.lines s) ↔ (enumerators (l.lines s)).Nodup ∧
      ((l.outerMembers s).map Binder.name).Nodup ∧
      (∀ c ∈ l.cases, (c.fields.map Variable.name).Nodup) ∧
      ∀ c ∈ l.cases, ∀ v ∈ c.fields, ∀ st ∈ c.constructorBody s l.name,
        ∀ u ∈ st.uses (enumerators (l.lines s)), u.name = v.name → u.role = .parameter := by
  have hmembers : (∀ t ∈ structTypes (l.lines s), (t.2.map Binder.name).Nodup) ↔
      (∀ c ∈ l.cases, (c.fields.map Variable.name).Nodup) ∧
        ((l.outerMembers s).map Binder.name).Nodup := by
    rw [structTypes_lines, List.forall_mem_append, List.forall_mem_map, List.forall_mem_singleton,
      nodup_structMembers_iff]
    simp only [nodup_structMembers_iff, Settings.map_name_binder]
  have hfunctions {p : Signature × List Statement → Prop} :
      (∀ f ∈ functionDefinitions (l.lines s), p f) ↔
        ∀ c ∈ l.cases, p (c.signature s l.name, c.constructorBody s l.name) := by
    rw [functionDefinitions_lines, List.forall_mem_map]
  constructor
  · rintro ⟨hstructs, hconstants, -, hvisible⟩
    refine ⟨hconstants, (hmembers.1 hstructs).2, (hmembers.1 hstructs).1, fun c hc v hv => ?_⟩
    exact hfunctions.1 hvisible c hc (s.binder v) (List.mem_map_of_mem hv)
  · rintro ⟨hconstants, houter, hfields, hvisible⟩
    refine ⟨hmembers.2 ⟨hfields, houter⟩, hconstants, hfunctions.2 fun c hc => ?_,
      hfunctions.2 fun c hc => ?_⟩
    · exact (s.map_name_binder c.fields).symm ▸ hfields c hc
    · exact List.forall_mem_map.2 (hvisible c hc)

namespace WellFormed

/-- Wherever an enum is defined in a tree of statements, its names are identifiers. -/
theorem Enumeration.of_mem_subtrees {n : Node} (h : Statement n) :
    ∀ x ∈ n.subtrees, ∀ d, x = .enumeration d → Enumeration d := by
  have hexpression {e : Node} (he : Expression e) :
      ∀ x ∈ e.subtrees, ∀ d, x = .enumeration d → Enumeration d := by
    rintro x hx d rfl
    cases Lowering.forall_subtrees_of_expression he _ hx
  induction h with
  | function hp hbody ih =>
    exact Node.forall_mem_subtrees.2 ⟨by simp, Node.forall_mem_allSubtrees.2 ih⟩
  | branch hcondition hbody ih =>
    refine Node.forall_mem_subtrees.2 ⟨by simp, ?_⟩
    rw [Node.descendants, List.forall_mem_append]
    exact ⟨hexpression hcondition, Node.forall_mem_allSubtrees.2 ih⟩
  | caseTest hv htype hcase hbindings hbody ih =>
    exact Node.forall_mem_subtrees.2 ⟨by simp, Node.forall_mem_allSubtrees.2 ih⟩
  | enumeration hd =>
    refine Node.forall_mem_subtrees.2 ⟨?_, by simp [Node.descendants]⟩
    rintro d hd'
    obtain rfl := Node.enumeration.inj hd'
    exact hd
  | declare hv => exact Node.forall_mem_subtrees.2 ⟨by simp, by simp [Node.descendants]⟩
  | assign hv hvalue =>
    refine Node.forall_mem_subtrees.2 ⟨by simp, ?_⟩
    cases hvalue with
    | expression he => exact hexpression he
    | construction htype hcase hargs =>
      refine Node.forall_mem_subtrees.2 ⟨by simp, Node.forall_mem_allSubtrees.2 ?_⟩
      exact fun a ha => hexpression (hargs a ha)
  | yield he => exact Node.forall_mem_subtrees.2 ⟨by simp, hexpression he⟩
  | print hargs =>
    refine Node.forall_mem_subtrees.2 ⟨by simp, Node.forall_mem_allSubtrees.2 ?_⟩
    exact fun a ha => hexpression (hargs a ha)
  | expression he => exact hexpression he

end WellFormed

/-- The declarations of an enum that is read from a text and registered have no clash exactly if the
associated values of its cases are kept apart. -/
theorem noClash_registered_iff (s : Settings) {source : String} {nodes : List Node}
    {d : EnumDefinition} {r r' : Registry} (hsource : parseSource source = .ok nodes)
    (hd : .enumeration d ∈ Node.allSubtrees nodes) (h : r.register d = .ok r') :
    r'.enums = r.enums ++ [d.layout] ∧ (NoClash (d.layout.lines s) ↔ d.FieldsApart s) := by
  have hwell : WellFormed.Enumeration d :=
    Node.forall_mem_allSubtrees.2 (fun n hn => WellFormed.Enumeration.of_mem_subtrees
      (WellFormed.of_parseSource hsource n hn)) _ hd d rfl
  obtain ⟨l, hl, rfl⟩ : ∃ l, r.layOut d = .ok l ∧ r.insert l = r' := by
    unfold Registry.register at h
    cases hlayOut : r.layOut d with
    | error f => simp [hlayOut, Except.map] at h
    | ok l => exact ⟨l, rfl, by simpa [hlayOut, Except.map] using h⟩
  obtain ⟨rfl, -, hfits⟩ := Registry.layOut_eq_ok_iff.1 hl
  refine ⟨rfl, ?_⟩
  have hvisible (c : EnumCase) (hc : c ∈ d.cases) := (c.layout d.name).visible_constructorBody_iff
    s d.name (enumerators (d.layout.lines s))
    (fun v hv => ((hwell.cases c hc).values v hv).name.head?_ne)
    fun x hx => EnumLayout.head?_of_mem_enumerators hx
  have hcases {p : CaseLayout → Prop} :
      (∀ c ∈ d.layout.cases, p c) ↔ ∀ c ∈ d.cases, p (c.layout d.name) := List.forall_mem_map
  rw [noClash_lines_iff, hcases, hcases]
  constructor
  · rintro ⟨-, -, hdistinct, h⟩
    refine ⟨hdistinct, fun c hc => ((hvisible c hc).1 (h c hc)).1, fun hdialect c hc => ?_⟩
    exact ((hvisible c hc).1 (h c hc)).2 hdialect
  · intro h
    refine ⟨EnumLayout.nodup_enumerators_lines hfits.nodup,
      EnumLayout.nodup_outerMembers hfits.wellNamed, h.distinct, fun c hc => ?_⟩
    exact (hvisible c hc).2 ⟨h.type c hc, fun hdialect => h.clearing hdialect c hc⟩

/-- Two values of one case under names of their own. -/
theorem noClash_registered_rect :
    parseSource "enum Shape \x7b case rect(w: Float, h: Float); \x7d" =
        .ok [.enumeration ⟨"Shape", [⟨"Shape", "rect",
          [⟨.immutable, "Float", "w"⟩, ⟨.immutable, "Float", "h"⟩]⟩]⟩] ∧
      (Registry.empty.register ⟨"Shape", [⟨"Shape", "rect",
        [⟨.immutable, "Float", "w"⟩, ⟨.immutable, "Float", "h"⟩]⟩]⟩).isOk = true ∧
      NoClash (EnumLayout.lines {} ⟨"Shape", [⟨"Shape", "rect",
        [⟨.immutable, "Float", "w"⟩, ⟨.immutable, "Float", "h"⟩]⟩]⟩) := by
  have hsource : parseSource "enum Shape \x7b case rect(w: Float, h: Float); \x7d" =
      .ok [.enumeration ⟨"Shape", [⟨"Shape", "rect",
        [⟨.immutable, "Float", "w"⟩, ⟨.immutable, "Float", "h"⟩]⟩]⟩] := by decide +kernel
  refine ⟨hsource, by decide +kernel, ?_⟩
  refine (noClash_registered_iff (r := Registry.empty) {} hsource List.mem_cons_self rfl).2.2 ?_
  exact ⟨by decide, by decide, fun _ => by decide⟩

/-- A case with two values of one name is registered, and its struct has one member twice. -/
theorem not_noClash_repeated_value :
    parseSource "enum Shape \x7b case rect(w: Float, w: Float); \x7d" =
        .ok [.enumeration ⟨"Shape", [⟨"Shape", "rect",
          [⟨.immutable, "Float", "w"⟩, ⟨.immutable, "Float", "w"⟩]⟩]⟩] ∧
      (Registry.empty.register ⟨"Shape", [⟨"Shape", "rect",
        [⟨.immutable, "Float", "w"⟩, ⟨.immutable, "Float", "w"⟩]⟩]⟩).isOk = true ∧
      ¬ NoClash (EnumLayout.lines {} ⟨"Shape", [⟨"Shape", "rect",
        [⟨.immutable, "Float", "w"⟩, ⟨.immutable, "Float", "w"⟩]⟩]⟩) := by
  refine ⟨by decide +kernel, by decide +kernel, fun h => ?_⟩
  have hmembers := h.members ("_ShapeRect", [⟨"float", "w"⟩, ⟨"float", "w"⟩]) (by decide)
  exact absurd hmembers (by decide)

end SumLang
