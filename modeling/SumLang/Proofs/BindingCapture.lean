import SumLang.Proofs.CaseValues
import SumLang.Proofs.StatementLayout

/-! Where the bindings of a case test get their values from. They are declared one after the other
in the block of the test, and each reads the tested variable by its name. A binding with that name
hides the variable, already from its own initial value; two bindings must not have one name; and a
binding hides a type of the same name from those that come after it. -/
namespace SumLang

namespace Code

variable {α : Type}

def Struct.below (v : Struct α) (path : List String) : Struct α := fun q => v (path ++ q)

def Struct.undetermined : Struct α := fun _ => none

/-- A block that is carried out: the variables around it, and those declared in it, the latest
first. -/
structure Block (α : Type) where
  around : String → Option (Struct α)
  declared : List (String × Struct α) := []

namespace Block

def names (b : Block α) : List String := b.declared.map Prod.fst

def add (b : Block α) (x : String) (v : Struct α) : Block α :=
  { b with declared := (x, v) :: b.declared }

/-- What is held by the variable that a name stands for. A variable declared in the block hides one
around it. -/
def value? (b : Block α) (x : String) : Option (Struct α) :=
  (b.declared.lookup x).or (b.around x)

/-- Carries out the declaration of a constant. Its name must be new to the block, and that of its
type must not be hidden. The constant is already visible where its initial value is read. -/
def step (b : Block α) : Statement → Option (Block α)
  | .copy binder source =>
    if binder.name ∈ b.names ∨ binder.type ∈ b.names then none
    else ((b.add binder.name .undetermined).value? source.root).map fun v =>
      b.add binder.name (v.below source.members)
  | _ => none

def run (b : Block α) : List Statement → Option (Block α)
  | [] => some b
  | st :: sts => (b.step st).bind fun b' => b'.run sts

variable {b b' : Block α} {x y : String} {v : Struct α}

@[simp] theorem names_add : (b.add x v).names = x :: b.names := rfl

theorem value?_add_self : (b.add x v).value? x = some v := by
  simp [value?, add]

theorem value?_add_of_ne (h : y ≠ x) : (b.add x v).value? y = b.value? y := by
  have hbeq : (y == x) = false := by simpa using h
  simp [value?, add, List.lookup_cons, hbeq]

theorem value?_of_not_mem (h : y ∉ b.names) : b.value? y = b.around y := by
  have hnone : b.declared.lookup y = none := by
    refine List.lookup_eq_none_iff.2 fun p hp => ?_
    have hne : y ≠ p.1 := fun heq => h (heq ▸ List.mem_map_of_mem hp)
    simpa using hne
  rw [value?, hnone, Option.none_or]

theorem step_copy_eq_some_iff {binder : Binder} {source : Access} :
    b.step (.copy binder source) = some b' ↔ binder.name ∉ b.names ∧ binder.type ∉ b.names ∧
      ∃ v, (b.add binder.name .undetermined).value? source.root = some v ∧
        b' = b.add binder.name (v.below source.members) := by
  rw [step]
  split
  · next h =>
    refine iff_of_false (by simp) ?_
    rintro ⟨hname, htype, -⟩
    exact h.elim hname htype
  · next h =>
    rw [not_or] at h
    rw [Option.map_eq_some_iff]
    constructor
    · rintro ⟨v, hv, rfl⟩
      exact ⟨h.1, h.2, v, hv, rfl⟩
    · rintro ⟨-, -, v, hv, rfl⟩
      exact ⟨v, hv, rfl⟩

end Block

end Code

open Code

/-- No binding of a case test hides what another one, or its own initial value, needs. -/
structure Uncaptured (s : Settings) (owner : String) (bindings : List Variable) : Prop where
  owner : ∀ x ∈ bindings, x.name ≠ owner
  later : bindings.Pairwise fun x y => y.name ≠ x.name ∧ s.dialect.spellType y.type ≠ x.name

namespace CaseLayout

variable {α : Type} {s : Settings} {c : CaseLayout} {owner : String}

/-- Whatever the variables around a block hold, the declarations at its start give every binding the
associated value at the same position, as the tested variable holds it outside of the block. -/
def Binds (α : Type) (c : CaseLayout) (owner : String) (bindings : List Variable)
    (declarations : List Statement) : Prop :=
  ∀ (around : String → Option (Struct α)) (v : Struct α), around owner = some v →
    ∃ b, Block.run ⟨around, []⟩ declarations = some b ∧
      List.Forall₂ (fun x f => b.declared.lookup x.name = some (v.below [c.member, f.name]))
        bindings c.fields

/-- Without capture, each declaration reads the variable around the block. -/
theorem run_bindings {ps : List (Variable × Variable)} {b : Block α} {v : Struct α}
    (hv : b.around owner = some v) (howner : owner ∉ b.names)
    (hnew : ∀ p ∈ ps, p.1.name ≠ owner ∧ p.1.name ∉ b.names ∧
      s.dialect.spellType p.1.type ∉ b.names)
    (hps : ps.Pairwise fun p q => q.1.name ≠ p.1.name ∧
      s.dialect.spellType q.1.type ≠ p.1.name) :
    b.run (ps.map fun p => c.binding s owner p.1 p.2.name) =
      some { b with declared :=
        (ps.map fun p => (p.1.name, v.below [c.member, p.2.name])).reverse ++ b.declared } := by
  induction ps generalizing b with
  | nil => rfl
  | cons p ps ih =>
    obtain ⟨⟨hne, hname, htype⟩, hrest⟩ := List.forall_mem_cons.1 hnew
    obtain ⟨hfirst, hps⟩ := List.pairwise_cons.1 hps
    have hvalue : (b.add p.1.name .undetermined).value? owner = some v := by
      rw [Block.value?_add_of_ne hne.symm, Block.value?_of_not_mem howner, hv]
    have hstep : b.step (c.binding s owner p.1 p.2.name) =
        some (b.add p.1.name (v.below [c.member, p.2.name])) :=
      Block.step_copy_eq_some_iff.2 ⟨hname, htype, v, hvalue, rfl⟩
    have howner' : owner ∉ p.1.name :: b.names := by simp [howner, hne.symm]
    have hnew' : ∀ q ∈ ps, q.1.name ≠ owner ∧ q.1.name ∉ p.1.name :: b.names ∧
        s.dialect.spellType q.1.type ∉ p.1.name :: b.names := by
      intro q hq
      obtain ⟨hqowner, hqname, hqtype⟩ := hrest q hq
      obtain ⟨hdistinct, hvisible⟩ := hfirst q hq
      exact ⟨hqowner, by simp [hdistinct, hqname], by simp [hvisible, hqtype]⟩
    have hrun := ih (b := b.add p.1.name (v.below [c.member, p.2.name])) hv howner' hnew' hps
    rw [List.map_cons, Block.run, hstep, Option.bind_some, hrun]
    simp [Block.add]

structure Declared (s : Settings) (owner : String) (ps : List (Variable × Variable))
    (b b' : Block α) : Prop where
  names : b'.names.Nodup
  kept : b.declared ⊆ b'.declared
  visible : ∀ p ∈ ps, p.1.name ∉ b.names ∧ s.dialect.spellType p.1.type ∉ b.names
  later : ps.Pairwise fun p q => q.1.name ≠ p.1.name ∧ s.dialect.spellType q.1.type ≠ p.1.name
  /-- A binding with the name of the tested variable reads itself. -/
  captured : ∀ p ∈ ps, p.1.name = owner → (owner, Struct.undetermined) ∈ b'.declared

theorem declared_of_run {ps : List (Variable × Variable)} {b b' : Block α}
    (h : b.run (ps.map fun p => c.binding s owner p.1 p.2.name) = some b') (hb : b.names.Nodup) :
    Declared s owner ps b b' := by
  induction ps generalizing b with
  | nil =>
    obtain rfl : b = b' := Option.some.inj h
    exact ⟨hb, List.Subset.refl _, by simp, .nil, by simp⟩
  | cons p ps ih =>
    rw [List.map_cons, Block.run, Option.bind_eq_some_iff] at h
    obtain ⟨b₁, hstep, hrun⟩ := h
    obtain ⟨hname, htype, v, hvalue, rfl⟩ := Block.step_copy_eq_some_iff.1 hstep
    have hnodup : (b.add p.1.name (v.below [c.member, p.2.name])).names.Nodup :=
      List.nodup_cons.2 ⟨hname, hb⟩
    have hdeclared := ih hrun hnodup
    have hvisible : ∀ q ∈ ps, (q.1.name ≠ p.1.name ∧ q.1.name ∉ b.names) ∧
        s.dialect.spellType q.1.type ≠ p.1.name ∧ s.dialect.spellType q.1.type ∉ b.names := by
      intro q hq
      have hq := hdeclared.visible q hq
      rwa [Block.names_add, List.mem_cons, List.mem_cons, not_or, not_or] at hq
    refine ⟨hdeclared.names, ?_, ?_, ?_, ?_⟩
    · exact List.Subset.trans (List.subset_cons_self _ _) hdeclared.kept
    · refine List.forall_mem_cons.2 ⟨⟨hname, htype⟩, fun q hq => ?_⟩
      exact ⟨(hvisible q hq).1.2, (hvisible q hq).2.2⟩
    · refine List.pairwise_cons.2 ⟨fun q hq => ?_, hdeclared.later⟩
      exact ⟨(hvisible q hq).1.1, (hvisible q hq).2.1⟩
    · refine List.forall_mem_cons.2 ⟨fun hp => ?_, hdeclared.captured⟩
      -- Behind its own name, the variable is the one that is being declared.
      have hvalue : (b.add p.1.name .undetermined).value? owner = some v := hvalue
      rw [hp, Block.value?_add_self] at hvalue
      obtain rfl : Struct.undetermined = v := Option.some.inj hvalue
      exact hdeclared.kept (hp ▸ List.mem_cons_self)

theorem binds_iff_uncaptured {bs : List Variable} (hlength : bs.length = c.arity) :
    c.Binds α owner bs (c.bindings s owner bs) ↔ Uncaptured s owner bs := by
  have hfst : (bs.zip c.fields).map Prod.fst = bs := List.map_fst_zip (Nat.le_of_eq hlength)
  have hlater : bs.Pairwise (fun x y => y.name ≠ x.name ∧ s.dialect.spellType y.type ≠ x.name) ↔
      (bs.zip c.fields).Pairwise fun p q => q.1.name ≠ p.1.name ∧
        s.dialect.spellType q.1.type ≠ p.1.name := by
    nth_rewrite 1 [← hfst]
    exact List.pairwise_map
  constructor
  · intro h
    obtain ⟨b, hrun, hvalues⟩ := h (fun _ => some fun _ => some .zero) _ rfl
    have hdeclared := declared_of_run hrun List.nodup_nil
    refine ⟨fun x hx howner => ?_, hlater.2 hdeclared.later⟩
    obtain ⟨f, hzip⟩ : ∃ f, (x, f) ∈ bs.zip c.fields := by
      rw [← hfst] at hx
      obtain ⟨⟨x, f⟩, hzip, rfl⟩ := List.mem_map.1 hx
      exact ⟨f, hzip⟩
    have hlookup := (List.forall₂_iff_zip.1 hvalues).2 hzip
    have hself := lookup_of_mem hdeclared.names (hdeclared.captured _ hzip howner)
    rw [howner, hself] at hlookup
    have hvalue := congrFun (Option.some.inj hlookup) []
    cases hvalue
  · intro h around v hv
    have hnew : ∀ p ∈ bs.zip c.fields, p.1.name ≠ owner ∧ p.1.name ∉ ([] : List String) ∧
        s.dialect.spellType p.1.type ∉ ([] : List String) := by
      intro p hp
      exact ⟨h.owner _ (hfst ▸ List.mem_map_of_mem hp), by simp, by simp⟩
    have hrun := run_bindings (c := c) (b := ⟨around, []⟩) hv (by simp [Block.names]) hnew
      (hlater.1 h.later)
    have hnames : (((bs.zip c.fields).map fun p =>
        (p.1.name, v.below [c.member, p.2.name])).reverse.map Prod.fst).Nodup := by
      rw [List.map_reverse, List.nodup_reverse, List.map_map]
      refine List.pairwise_map.2 ((hlater.1 h.later).imp fun hpq heq => ?_)
      exact hpq.1 heq.symm
    refine ⟨_, hrun, List.forall₂_iff_zip.2 ⟨hlength, fun {x f} hzip => ?_⟩⟩
    have hmem : (x.name, v.below [c.member, f.name]) ∈ ((bs.zip c.fields).map fun p =>
        (p.1.name, v.below [c.member, p.2.name])).reverse :=
      List.mem_reverse.2 (List.mem_map.2 ⟨(x, f), hzip, rfl⟩)
    rw [List.append_nil]
    exact lookup_of_mem hnames hmem

end CaseLayout

namespace Lowering

/-- A case test that is lowered starts with the test of the variable and the declarations of its
bindings, and they give every binding its value exactly if nothing is captured. -/
theorem caseTest_binds_iff (α : Type) {s : Settings} {v : Variable} {case : String}
    {bindings : List Variable} {body : List Node} {m m' : Memory} {value : Option String}
    (h : lower s (.caseTest v case bindings body) m = .ok value m') :
    ∃ c m₁, m.enums.lookup v.type case = .ok c ∧ bindings.length = c.arity ∧
      m₁.lines.toList = m.lines.toList ++ ⟨m.level, .enter (.test (c.test v.name))⟩ ::
        (c.bindings s v.name bindings).map (fun st => ⟨m.level + 1, .statement st⟩) ∧
      (do
        lowerAll s body
        leave
        write (.leave none)
        return none) m₁ = .ok value m' ∧
      (c.Binds α v.name bindings (c.bindings s v.name bindings) ↔
        Uncaptured s v.name bindings) := by
  rw [lower] at h
  obtain ⟨c, m₀, htest, hrest⟩ := bind_eq_ok.1 h
  obtain ⟨rfl, hlookup, harity⟩ := testedCase_eq_ok htest
  have hrest : (writeBindings s c v.name (bindings.zip c.fields) >>= fun _ => do
      lowerAll s body
      leave
      write (.leave none)
      return none) (m₀.write (.enter (.test (c.test v.name)))).enter = .ok value m' := hrest
  obtain ⟨u, m₁, hbindings, hrest⟩ := bind_eq_ok.1 hrest
  obtain ⟨m₂, hwritten, -, hlines⟩ := CaseLayout.lines_writeBindings s c v.name
    (bindings.zip c.fields) (m₀.write (.enter (.test (c.test v.name)))).enter
  obtain ⟨-, rfl⟩ := EStateM.Result.ok.inj (hwritten.symm.trans hbindings)
  refine ⟨c, m₂, hlookup, harity, ?_, hrest, CaseLayout.binds_iff_uncaptured harity⟩
  simp [hlines, CaseLayout.bindings, Memory.enter, Memory.write]

/-- Two bindings with names of their own. -/
theorem caseTest_binds_rect :
    (∃ value m', lower {} (.caseTest ⟨.immutable, "Shape", "s"⟩ "rect"
        [⟨.immutable, "Float", "a"⟩, ⟨.immutable, "Float", "b"⟩] [])
        { enums := Registry.empty.insert ⟨"Shape", [⟨"Shape", "rect",
          [⟨.immutable, "Float", "w"⟩, ⟨.immutable, "Float", "h"⟩]⟩]⟩ } = .ok value m') ∧
    CaseLayout.Binds Nat ⟨"Shape", "rect", [⟨.immutable, "Float", "w"⟩, ⟨.immutable, "Float", "h"⟩]⟩
      "s" [⟨.immutable, "Float", "a"⟩, ⟨.immutable, "Float", "b"⟩]
      [.copy ⟨"float", "a"⟩ ⟨"s", ["rect", "w"]⟩, .copy ⟨"float", "b"⟩ ⟨"s", ["rect", "h"]⟩] := by
  have hrun : ∃ value m', lower {} (.caseTest ⟨.immutable, "Shape", "s"⟩ "rect"
        [⟨.immutable, "Float", "a"⟩, ⟨.immutable, "Float", "b"⟩] [])
        { enums := Registry.empty.insert ⟨"Shape", [⟨"Shape", "rect",
          [⟨.immutable, "Float", "w"⟩, ⟨.immutable, "Float", "h"⟩]⟩]⟩ } = .ok value m' :=
    ⟨_, _, rfl⟩
  refine ⟨hrun, ?_⟩
  obtain ⟨value, m', hrun⟩ := hrun
  obtain ⟨c, m₁, hlookup, -, -, -, hbinds⟩ := caseTest_binds_iff Nat hrun
  obtain rfl := Except.ok.inj hlookup
  exact hbinds.2 ⟨by decide, by decide⟩

/-- A binding with the name of the tested variable is accepted, and reads itself. -/
theorem not_binds_tested_name :
    (generate {} [.enumeration ⟨"Shape", [⟨"Shape", "circle", [⟨.immutable, "Float", "r"⟩]⟩]⟩,
      .assign ⟨.immutable, "Shape", "s"⟩ (.construct "Shape" "circle" [.integer 1]),
      .caseTest ⟨.immutable, "Shape", "s"⟩ "circle" [⟨.immutable, "Float", "s"⟩]
        [.print [.name "s"]]]).isOk = true ∧
    ¬ CaseLayout.Binds Nat ⟨"Shape", "circle", [⟨.immutable, "Float", "r"⟩]⟩ "s"
      [⟨.immutable, "Float", "s"⟩] [.copy ⟨"float", "s"⟩ ⟨"s", ["circle", "r"]⟩] := by
  have hiff : CaseLayout.Binds Nat ⟨"Shape", "circle", [⟨.immutable, "Float", "r"⟩]⟩ "s"
      [⟨.immutable, "Float", "s"⟩] [.copy ⟨"float", "s"⟩ ⟨"s", ["circle", "r"]⟩] ↔
      Uncaptured {} "s" [⟨.immutable, "Float", "s"⟩] := CaseLayout.binds_iff_uncaptured rfl
  refine ⟨by decide +kernel, fun h => ?_⟩
  exact (hiff.1 h).owner ⟨.immutable, "Float", "s"⟩ (by simp) rfl

end Lowering

end SumLang
