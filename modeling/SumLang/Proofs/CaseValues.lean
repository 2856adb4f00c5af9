import SumLang.Lowering.Statement
import SumLang.Proofs.Lexemes
import SumLang.Proofs.RegistrySession

/-! Values of enums, as the emitted code makes them and takes them apart. The constructor of a case
sets the tag and the fields of that case, the test of a case is true of exactly the values that its
constructor makes, and its bindings read the fields in the order in which they were written. -/
namespace SumLang

namespace Code

/-- What a member holds: only zero bytes, the number of a constant, or a value from outside. -/
inductive Datum (α : Type) where
  | zero
  | number (n : Nat)
  | given (a : α)

/-- The value of a struct: what it holds at each path of members, where that is determined. -/
abbrev Struct (α : Type) := List String → Option (Datum α)

/-- A running function: its parameters with their arguments, and its local structs, the latest value
first. -/
structure Frame (α : Type) where
  parameters : List (String × α)
  locals : List (String × Struct α) := []

variable {α : Type}

def Datum.number? : Datum α → Option Nat
  | zero => some 0
  | number n => some n
  | given _ => none

/-- Stores at a path. What overlaps with the path is no longer determined. -/
def Struct.write (v : Struct α) (path : List String) (x : Datum α) : Struct α := fun q =>
  if q = path then some x else if q <+: path ∨ path <+: q then none else v q

/-- The number of a constant. They are numbered in the order of their declaration. -/
def constantNumber? (constants : List String) (x : String) : Option Nat :=
  if x ∈ constants then some (constants.idxOf x) else none

namespace Frame

def declares (f : Frame α) (x : String) : Bool :=
  (f.parameters.lookup x).isSome || (f.locals.lookup x).isSome

def set (f : Frame α) (x : String) (v : Struct α) : Frame α :=
  { f with locals := (x, v) :: f.locals }

/-- Declares a local struct, whose name must be free. -/
def define (f : Frame α) (x : String) (v : Struct α) : Option (Frame α) :=
  if f.declares x then none else some (f.set x v)

/-- The value of a name. What is declared in the function hides a constant. -/
def value? (constants : List String) (f : Frame α) (x : String) : Option (Datum α) :=
  match f.parameters.lookup x with
  | some a => some (.given a)
  | none =>
    if (f.locals.lookup x).isSome then none else (constantNumber? constants x).map .number

/-- Carries out a declaration or an assignment. -/
def step (constants : List String) (f : Frame α) : Statement → Option (Frame α)
  | .declare b => f.define b.name fun _ => none
  | .defineDefault b => f.define b.name fun _ => some .zero
  | .clear x => (f.locals.lookup x).map fun _ => f.set x fun _ => some .zero
  | .assign target value => do
    let x ← f.value? constants value
    let v ← f.locals.lookup target.root
    return f.set target.root (v.write target.members x)
  | _ => none

/-- Carries out statements up to the first that returns a struct. -/
def run (constants : List String) (f : Frame α) : List Statement → Option (Struct α)
  | [] => none
  | .yield x :: _ => f.locals.lookup x
  | st :: rest => do (← f.step constants st).run constants rest

end Frame

def functionBody : List Line → Option (List Statement)
  | [⟨_, .leave none⟩] => some []
  | ⟨_, .statement st⟩ :: ls => (functionBody ls).map (st :: ·)
  | _ => none

/-- The struct that a function returns for some arguments. -/
def call (constants : List String) (ls : List Line) (args : List α) : Option (Struct α) :=
  match ls with
  | ⟨_, .enter (.function sig)⟩ :: ls =>
    if sig.parameters.length = args.length then do
      let body ← functionBody ls
      Frame.run constants ⟨(sig.parameters.map Binder.name).zip args, []⟩ body
    else none
  | _ => none

/-- What is found at an access path, where variables hold given structs. -/
def Access.value? (held : String → Option (Struct α)) (a : Access) : Option (Datum α) := do
  (← held a.root) a.members

/-- Whether a test is true, where variables hold given structs. -/
def Test.holds? (constants : List String) (held : String → Option (Struct α)) (t : Test) :
    Option Bool := do
  let x ← t.subject.value? held
  let n ← x.number?
  let k ← constantNumber? constants t.constant
  return n == k

theorem constantNumber?_of_mem {constants : List String} {x : String} (h : x ∈ constants) :
    constantNumber? constants x = some (constants.idxOf x) := if_pos h

/-! Paths that do not overlap are stored independently. -/

namespace Struct

variable {v : Struct α} {p q : List String} {x : Datum α}

theorem write_self : v.write p x p = some x := by
  simp [write]

theorem write_of_disjoint (hpq : ¬ p <+: q) (hqp : ¬ q <+: p) : v.write p x q = v q := by
  have hne : q ≠ p := fun h => hqp (h ▸ List.prefix_refl q)
  simp [write, hne, hpq, hqp]

/-- The struct with values at members of one of its members, stored in order. -/
def store (v : Struct α) (m : String) (ps : List (Variable × α)) : Struct α :=
  ps.foldl (fun v p => v.write [m, p.1.name] (.given p.2)) v

theorem store_of_disjoint {m : String} {ps : List (Variable × α)}
    (h : ∀ p ∈ ps, ¬ [m, p.1.name] <+: q ∧ ¬ q <+: [m, p.1.name]) : v.store m ps q = v q := by
  induction ps generalizing v with
  | nil => rfl
  | cons p ps ih =>
    obtain ⟨hp, hps⟩ := List.forall_mem_cons.1 h
    rw [store, List.foldl_cons, ← store, ih hps, write_of_disjoint hp.1 hp.2]

theorem store_mem {m : String} {ps : List (Variable × α)}
    (hnames : (ps.map fun p => p.1.name).Nodup) {p : Variable × α} (hp : p ∈ ps) :
    v.store m ps [m, p.1.name] = some (.given p.2) := by
  induction ps generalizing v with
  | nil => simp at hp
  | cons r ps ih =>
    obtain ⟨hr, hps⟩ := List.nodup_cons.1 hnames
    rw [store, List.foldl_cons, ← store]
    rcases List.mem_cons.1 hp with rfl | hp
    · rw [store_of_disjoint fun s hs => ?_, write_self]
      have hne : s.1.name ≠ p.1.name := fun h => hr (List.mem_map.2 ⟨s, hs, h⟩)
      simp [hne, hne.symm]
    · exact ih hps hp

end Struct

theorem lookup_of_mem {ps : List (String × α)} (h : (ps.map Prod.fst).Nodup) {p : String × α}
    (hp : p ∈ ps) : ps.lookup p.1 = some p.2 := by
  induction ps with
  | nil => simp at hp
  | cons q ps ih =>
    obtain ⟨hq, hps⟩ := List.nodup_cons.1 h
    rcases List.mem_cons.1 hp with rfl | hp
    · exact List.lookup_cons_self
    · have hbeq : (p.1 == q.1) = false := by
        simpa using fun heq : p.1 = q.1 => hq (heq ▸ List.mem_map_of_mem hp)
      rw [List.lookup_cons, hbeq]
      exact ih hps hp

namespace Frame

variable {constants : List String} {f : Frame α} {x : String} {v : Struct α}

def start (ps : List (Variable × α)) : Frame α := ⟨ps.map fun p => (p.1.name, p.2), []⟩

theorem lookup_start {ps : List (Variable × α)} (hnames : (ps.map fun p => p.1.name).Nodup)
    {p : Variable × α} (hp : p ∈ ps) : (start ps).parameters.lookup p.1.name = some p.2 := by
  have hkeys : ((start ps).parameters.map Prod.fst).Nodup := by
    simpa [start, Function.comp_def] using hnames
  exact lookup_of_mem hkeys (List.mem_map_of_mem (f := fun p => (p.1.name, p.2)) hp)

theorem lookup_start_eq_none {ps : List (Variable × α)} (h : ∀ p ∈ ps, p.1.name ≠ x) :
    (start ps).parameters.lookup x = none := by
  refine List.lookup_eq_none_iff.2 fun q hq => ?_
  obtain ⟨p, hp, rfl⟩ := List.mem_map.1 hq
  exact bne_iff_ne.2 (h p hp).symm

theorem run_cons {st : Statement} {rest : List Statement} {f' : Frame α}
    (h : f.step constants st = some f') : f.run constants (st :: rest) = f'.run constants rest := by
  cases st with
  | yield x => simp [step] at h
  | _ => simp [run, h]

@[simp] theorem lookup_set : (f.set x v).locals.lookup x = some v := by
  simp [set]

theorem lookup_set_of_ne {y : String} (h : y ≠ x) :
    (f.set x v).locals.lookup y = f.locals.lookup y := by
  have hbeq : (y == x) = false := by simpa using h
  simp [set, List.lookup_cons, hbeq]

theorem value?_of_parameter {a : α} (h : f.parameters.lookup x = some a) :
    f.value? constants x = some (.given a) := by
  simp [value?, h]

/-- Assignments of parameters to members are stored in order. -/
theorem run_assigns (constants : List String) (m : String) {ps : List (Variable × α)}
    (hv : f.locals.lookup x = some v)
    (hps : ∀ p ∈ ps, f.parameters.lookup p.1.name = some p.2) :
    ∃ f' : Frame α, f'.locals.lookup x = some (v.store m ps) ∧
      ∀ rest, f.run constants (ps.map (fun p => .assign ⟨x, [m, p.1.name]⟩ p.1.name) ++ rest) =
        f'.run constants rest := by
  induction ps generalizing f v with
  | nil => exact ⟨f, hv, fun _ => rfl⟩
  | cons p ps ih =>
    obtain ⟨hp, hps⟩ := List.forall_mem_cons.1 hps
    have hstep : f.step constants (.assign ⟨x, [m, p.1.name]⟩ p.1.name) =
        some (f.set x (v.write [m, p.1.name] (.given p.2))) := by
      simp [step, value?_of_parameter hp, hv]
    obtain ⟨f', hf', hrun⟩ := ih (f := f.set x (v.write [m, p.1.name] (.given p.2))) lookup_set hps
    refine ⟨f', hf', fun rest => ?_⟩
    rw [List.map_cons, List.cons_append, run_cons hstep, hrun]

end Frame

end Code

open Code

namespace CaseLayout

variable {α : Type} {s : Settings} {enum : String} {c : CaseLayout}

theorem functionBody_statements (sts : List Statement) :
    functionBody (sts.map (fun st => ⟨1, .statement st⟩) ++ [⟨0, .leave none⟩]) = some sts := by
  induction sts with
  | nil => rfl
  | cons st sts ih => simp [functionBody, ih]

theorem call_constructorLines {constants : List String} {args : List α}
    (h : args.length = c.arity) :
    call constants (c.constructorLines s enum) args =
      (Frame.start (c.fields.zip args)).run constants (c.constructorBody s enum) := by
  have hlength : (c.signature s enum).parameters.length = args.length := by
    simp [signature, h, arity]
  have hnames : (c.signature s enum).parameters.map Binder.name = c.fields.map Variable.name := by
    simp [signature, Settings.binder]
  have hzip : (c.fields.map Variable.name).zip args =
      (c.fields.zip args).map fun p => (p.1.name, p.2) := by
    rw [List.zip_map_left]
    rfl
  rw [constructorLines, List.cons_append, call]
  simp [hlength, hnames, hzip, functionBody_statements, Frame.start]

/-- The local of a constructor does not hide the constant that it stores. -/
theorem tag_ne_resultLocal (c : CaseLayout) : c.tag ≠ resultLocal := by
  intro heq
  have hlast : c.tag.toList.getLast? = some 'g' := by
    simp [tag, List.getLast?_cons, List.getLast?_append]
  rw [heq] at hlast
  exact absurd hlast (by decide)

/-- A constructor starts with a result whose bytes are all zero. -/
theorem run_resultStatements (s : Settings) (enum : String) (constants : List String)
    {f : Frame α} (hf : f.declares resultLocal = false) :
    ∃ f' : Frame α, f'.parameters = f.parameters ∧
      (∀ x ≠ resultLocal, f'.locals.lookup x = f.locals.lookup x) ∧
      f'.locals.lookup resultLocal = some (fun _ => some .zero) ∧
      ∀ rest, f.run constants (resultStatements s enum ++ rest) = f'.run constants rest := by
  unfold resultStatements
  cases s.dialect with
  | cpp =>
    have hdefine : f.step constants (.defineDefault ⟨enum, resultLocal⟩) =
        some (f.set resultLocal fun _ => some .zero) := by
      simp [Frame.step, Frame.define, hf]
    exact ⟨f.set resultLocal fun _ => some .zero, rfl, fun x hx => Frame.lookup_set_of_ne hx,
      Frame.lookup_set, fun rest => Frame.run_cons hdefine⟩
  | c =>
    have hdeclare : f.step constants (.declare ⟨enum, resultLocal⟩) =
        some (f.set resultLocal fun _ => none) := by
      simp [Frame.step, Frame.define, hf]
    have hclear : (f.set resultLocal fun _ => none).step constants (.clear resultLocal) =
        some ((f.set resultLocal fun _ => none).set resultLocal fun _ => some .zero) := by
      simp [Frame.step]
    exact ⟨(f.set resultLocal fun _ => none).set resultLocal fun _ => some .zero, rfl,
      fun x hx => (Frame.lookup_set_of_ne hx).trans (Frame.lookup_set_of_ne hx),
      Frame.lookup_set, fun rest => (Frame.run_cons hdeclare).trans (Frame.run_cons hclear)⟩

/-- The constructor of a case sets the tag, and stores its arguments under the member of the
case. -/
theorem run_constructorBody {constants : List String} {ps : List (Variable × α)} {n : Nat}
    (hfields : ps.map Prod.fst = c.fields) (hnames : (c.fields.map Variable.name).Nodup)
    (hwords : ∀ v ∈ c.fields, v.name.toList.head? ≠ some '_') (htags : s.enumTags = true)
    (htag : constantNumber? constants c.tag = some n) :
    (Frame.start ps).run constants (c.constructorBody s enum) =
      some (Struct.store (Struct.write (fun _ => some .zero) [EnumLayout.tagMember] (.number n))
        c.member ps) := by
  rw [← hfields, List.map_map] at hnames
  have hfree (x : String) (hx : x.toList.head? = some '_') :
      (Frame.start ps).parameters.lookup x = none := by
    refine Frame.lookup_start_eq_none fun p hp hname => ?_
    exact hwords p.1 (hfields ▸ List.mem_map_of_mem hp) (by rwa [hname])
  have hdeclares : (Frame.start ps).declares resultLocal = false := by
    have hnone : (Frame.start ps).locals = [] := rfl
    simp [Frame.declares, hfree resultLocal (by decide), hnone]
  obtain ⟨f, hparameters, hlocals, hzero, hresult⟩ :=
    run_resultStatements s enum constants hdeclares
  have hvalue : f.value? constants c.tag = some (.number n) := by
    have hlocal : f.locals.lookup c.tag = none := hlocals c.tag c.tag_ne_resultLocal
    simp [Frame.value?, hparameters, hfree c.tag (by simp [tag]), hlocal, htag]
  have hassign : f.step constants (.assign ⟨resultLocal, [EnumLayout.tagMember]⟩ c.tag) =
      some (f.set resultLocal
        (Struct.write (fun _ => some .zero) [EnumLayout.tagMember] (.number n))) := by
    simp [Frame.step, hvalue, hzero]
  have hparameter : ∀ p ∈ ps, f.parameters.lookup p.1.name = some p.2 := by
    rw [hparameters]
    exact fun p hp => Frame.lookup_start hnames hp
  obtain ⟨f', hf', hrun⟩ := Frame.run_assigns constants c.member
    (Frame.lookup_set (f := f) (x := resultLocal)
      (v := Struct.write (fun _ => some .zero) [EnumLayout.tagMember] (.number n))) hparameter
  have hbody : c.constructorBody s enum = resultStatements s enum ++
      (.assign ⟨resultLocal, [EnumLayout.tagMember]⟩ c.tag ::
        (ps.map (fun p => .assign ⟨resultLocal, [c.member, p.1.name]⟩ p.1.name) ++
          [.yield resultLocal])) := by
    simp [constructorBody, htags, ← hfields, path, Function.comp_def]
  rw [hbody, hresult, Frame.run_cons hassign, hrun]
  exact hf'

def bindings (s : Settings) (c : CaseLayout) (owner : String) (bs : List Variable) :
    List Statement :=
  (bs.zip c.fields).map fun b => c.binding s owner b.1 b.2.name

theorem exists_of_getElem?_bindings {owner : String} {bs : List Variable} {i : Nat} {st : Statement}
    (h : (c.bindings s owner bs)[i]? = some st) :
    ∃ b f, c.fields[i]? = some f ∧ st = .copy (s.binder b) (c.path owner f.name) := by
  rw [bindings, List.getElem?_map] at h
  obtain ⟨⟨b, f⟩, hbf, rfl⟩ := Option.map_eq_some_iff.1 h
  exact ⟨b, f, (List.getElem?_zip_eq_some.1 hbf).2, rfl⟩

/-- The lowering of a case test writes these declarations. -/
theorem lines_writeBindings (s : Settings) (c : CaseLayout) (owner : String)
    (bs : List (Variable × Variable)) (m : Memory) :
    ∃ m', Lowering.writeBindings s c owner bs m = .ok () m' ∧ m'.level = m.level ∧
      m'.lines = m.lines ++ (bs.map fun b =>
        (⟨m.level, .statement (c.binding s owner b.1 b.2.name)⟩ : Line)).toArray := by
  induction bs generalizing m with
  | nil => exact ⟨m, rfl, rfl, by simp⟩
  | cons b bs ih =>
    have hlevel (m : Memory) :
        (m.declare b.1).level = m.level ∧ (m.declare b.1).lines = m.lines := by
      unfold Memory.declare
      split <;> exact ⟨rfl, rfl⟩
    obtain ⟨m', hm', hl, hlines⟩ :=
      ih ((m.declare b.1).write (.statement (c.binding s owner b.1 b.2.name)))
    refine ⟨m', hm', hl.trans (hlevel m).1, hlines.trans ?_⟩
    simp [Memory.write, hlevel]

end CaseLayout

namespace EnumLayout

variable {α : Type} {s : Settings} {l : EnumLayout} {ls : List EnumLayout}

/-- A name derived for every case is derived for one only. -/
theorem nodup_map_of_identifiers (hl : l.identifiers.Nodup) {f : CaseLayout → String}
    (hf : ∀ c, f c ∈ c.identifiers) : (l.cases.map f).Nodup := by
  have hcases : (l.cases.flatMap CaseLayout.identifiers).Nodup := (List.nodup_cons.1 hl).2
  refine List.pairwise_map.2 ((List.nodup_flatMap.1 hcases).2.imp fun {c d} hcd heq => ?_)
  exact hcd (hf c) (heq ▸ hf d)

/-- The constants of an enum with tags are told apart by their numbers, and so are the cases. -/
theorem idxOf_tag_eq_iff (hids : l.identifiers.Nodup) {c d : CaseLayout} (hc : c ∈ l.cases)
    (hd : d ∈ l.cases) :
    (l.cases.map CaseLayout.tag).idxOf c.tag = (l.cases.map CaseLayout.tag).idxOf d.tag ↔
      d = c := by
  have htags : (l.cases.map CaseLayout.tag).Nodup :=
    nodup_map_of_identifiers hids fun c => by simp [CaseLayout.identifiers]
  rw [List.idxOf_inj (List.mem_map_of_mem hc), eq_comm]
  exact ⟨fun heq => List.inj_on_of_nodup_map htags hd hc heq, fun heq => heq ▸ rfl⟩

/-- What the lines of an enum must declare so that the values of its cases can be made and taken
apart. -/
structure DeclaresCases (s : Settings) (l : EnumLayout) : Prop where
  tag : Declares (l.lines s) l.name ⟨l.tagType, tagMember⟩
  tags : ∀ c ∈ l.cases, (enumerators (l.lines s)).count c.tag = 1
  members : ∀ c ∈ l.cases, Declares (l.lines s) l.name ⟨c.structName, c.member⟩
  fields : ∀ c ∈ l.cases, ∀ v ∈ c.fields, Declares (l.lines s) c.structName (s.binder v)

/-- A struct stands for a case of an enum with some arguments. -/
structure Represents (s : Settings) (l : EnumLayout) (c : CaseLayout) (args : List α)
    (v : Struct α) : Prop where
  tag : ∃ n, constantNumber? (enumerators (l.lines s)) c.tag = some n ∧
    v [tagMember] = some (.number n)
  fields : List.Forall₂ (fun f a => v [c.member, f.name] = some (.given a)) c.fields args
  /-- The test of a case is true of the struct if the case is this one, and false otherwise. -/
  test : ∀ d ∈ l.cases, ∀ held owner, held owner = some v →
    (d.test owner).holds? (enumerators (l.lines s)) held = some (decide (d = c))
  /-- A binding reads the path to which the constructor stores the argument at the same position. -/
  bindings : ∀ owner bs, bs.length = c.arity → (c.bindings s owner bs).length = args.length ∧
    ∀ (i : Nat) (st : Statement), (c.bindings s owner bs)[i]? = some st → ∃ b p x a,
      st = .copy b ⟨owner, p⟩ ∧ (c.signature s l.name).parameters[i]?.map Binder.name = some x ∧
        .assign ⟨resultLocal, p⟩ x ∈ c.constructorBody s l.name ∧ args[i]? = some a ∧
          v p = some (.given a)

/-- The names in an enum are words of the language, and the values of a case have different ones. -/
structure Lexical (l : EnumLayout) : Prop where
  name : Token.IsIdentifier l.name
  fields : ∀ c ∈ l.cases, ∀ v ∈ c.fields, Token.IsIdentifier v.name
  distinct : ∀ c ∈ l.cases, (c.fields.map Variable.name).Nodup

theorem declaresCases (hids : l.identifiers.Nodup) (hwell : l.WellNamed) (hlex : l.Lexical)
    (htagged : l.isTagged s = true) : l.DeclaresCases s := by
  have hkeys : (structTypes (l.lines s)).map Prod.fst =
      l.cases.map CaseLayout.structName ++ [l.name] := by
    simp [structTypes_lines]
  have htypes : ((structTypes (l.lines s)).map Prod.fst).Nodup := by
    have hstructs : (l.cases.map CaseLayout.structName).Nodup :=
      nodup_map_of_identifiers hids fun c => by simp [CaseLayout.identifiers]
    rw [hkeys, ← List.concat_eq_append, List.nodup_concat]
    refine ⟨fun hmem => ?_, hstructs⟩
    obtain ⟨c, -, hc⟩ := List.mem_map.1 hmem
    refine hlex.name.head?_ne ?_
    simp [← hc, CaseLayout.structName]
  have houter : (l.name, l.outerMembers s) ∈ structTypes (l.lines s) := by
    simp [structTypes_lines, structMembers, outerMembers, htagged]
  have hmembers : ((l.outerMembers s).map Binder.name).Nodup := by
    have heq : (l.outerMembers s).map Binder.name = tagMember :: l.cases.map CaseLayout.member := by
      simp [outerMembers, htagged, Function.comp_def]
    rw [heq]
    refine List.nodup_cons.2 ⟨fun htag => ?_, hwell.members⟩
    obtain ⟨c, hc, hmember⟩ := List.mem_map.1 htag
    exact hwell.tag c hc hmember
  refine ⟨?_, fun c hc => ?_, fun c hc => ?_, fun c hc v hv => ?_⟩
  · exact declares_of_mem htypes houter hmembers (by simp [outerMembers, htagged])
  · rw [enumerators_lines, if_pos htagged]
    exact List.count_eq_one_of_mem (nodup_map_of_identifiers hids fun c => by
      simp [CaseLayout.identifiers]) (List.mem_map_of_mem hc)
  · refine declares_of_mem htypes houter hmembers ?_
    exact List.mem_append_right _ (List.mem_map.2 ⟨c, hc, rfl⟩)
  · have hcase : (c.structName, c.fields.map s.binder) ∈ structTypes (l.lines s) := by
      have hne : c.fields ≠ [] := List.ne_nil_of_mem hv
      rw [structTypes_lines]
      refine List.mem_append_left _ (List.mem_map.2 ⟨c, hc, ?_⟩)
      simp [structMembers, hne]
    have hnames : ((c.fields.map s.binder).map Binder.name).Nodup := by
      simpa [Settings.binder, Function.comp_def] using hlex.distinct c hc
    exact declares_of_mem htypes hcase hnames (List.mem_map_of_mem hv)

/-- The struct that has the tag of a case, and its arguments under its member, stands for it. -/
theorem represents_store {c : CaseLayout} {args : List α} {v : Struct α}
    (hids : l.identifiers.Nodup) (hwell : l.WellNamed) (hlex : l.Lexical)
    (htagged : l.isTagged s = true) (hc : c ∈ l.cases) (hargs : args.length = c.arity)
    (hv : v = Struct.store (Struct.write (fun _ => some .zero) [tagMember]
      (.number ((l.cases.map CaseLayout.tag).idxOf c.tag))) c.member (c.fields.zip args)) :
    l.Represents s c args v := by
  have hnumber {d : CaseLayout} (hd : d ∈ l.cases) :
      constantNumber? (enumerators (l.lines s)) d.tag =
        some ((l.cases.map CaseLayout.tag).idxOf d.tag) := by
    rw [enumerators_lines, if_pos htagged]
    exact constantNumber?_of_mem (List.mem_map_of_mem hd)
  have hlength : c.fields.length = args.length := hargs.symm
  have hmap : (c.fields.zip args).map Prod.fst = c.fields := List.map_fst_zip (Nat.le_of_eq hlength)
  have hnames : ((c.fields.zip args).map fun p => p.1.name).Nodup := by
    have hdistinct := hlex.distinct c hc
    rwa [← hmap, List.map_map] at hdistinct
  have htag : v [tagMember] = some (.number ((l.cases.map CaseLayout.tag).idxOf c.tag)) := by
    have hmember : c.member ≠ tagMember := hwell.tag c hc
    rw [hv, Struct.store_of_disjoint, Struct.write_self]
    intro p hp
    simp [hmember, hmember.symm]
  have hfield {f : Variable} {a : α} (h : (f, a) ∈ c.fields.zip args) :
      v [c.member, f.name] = some (.given a) :=
    hv ▸ Struct.store_mem hnames h
  refine ⟨⟨_, hnumber hc, htag⟩, List.forall₂_iff_zip.2 ⟨hlength, hfield⟩, ?_, ?_⟩
  · intro d hd held owner howner
    have hvalue : (d.test owner).subject.value? held =
        some (.number ((l.cases.map CaseLayout.tag).idxOf c.tag)) := by
      simp [CaseLayout.test, Access.value?, howner, htag]
    have hconstant : (d.test owner).constant = d.tag := rfl
    simp only [Test.holds?, hvalue, hconstant, hnumber hd, Datum.number?, Option.bind_eq_bind,
      Option.bind_some, Option.pure_def]
    rw [Option.some_inj, Bool.eq_iff_iff, beq_iff_eq, decide_eq_true_iff]
    exact idxOf_tag_eq_iff hids hc hd
  · intro owner bs hbs
    refine ⟨by simp [CaseLayout.bindings, hbs, hargs, CaseLayout.arity], fun i st hst => ?_⟩
    obtain ⟨b, f, hf, rfl⟩ := CaseLayout.exists_of_getElem?_bindings hst
    obtain ⟨hi, -⟩ := List.getElem?_eq_some_iff.1 hf
    have ha : args[i]? = some (args[i]) := List.getElem?_eq_getElem (hlength ▸ hi)
    have hzip : (f, args[i]) ∈ c.fields.zip args :=
      List.mem_of_getElem? (List.getElem?_zip_eq_some.2 ⟨hf, ha⟩)
    refine ⟨s.binder b, [c.member, f.name], f.name, args[i], rfl, ?_, ?_, ha, hfield hzip⟩
    · simp [CaseLayout.signature, hf, Settings.binder]
    · refine List.mem_append_left _ (List.mem_append_right _ ?_)
      exact List.mem_map.2 ⟨f, List.mem_of_getElem? hf, rfl⟩

/-- The constructor of a case is among the declarations of its enum. -/
theorem constructorLines_infix {c : CaseLayout} (hc : c ∈ l.cases) :
    c.constructorLines s l.name <:+: l.lines s := by
  obtain ⟨before, after, hcases⟩ := List.append_of_mem hc
  have hflat : l.cases.flatMap (CaseLayout.constructorLines s l.name) =
      before.flatMap (CaseLayout.constructorLines s l.name) ++ (c.constructorLines s l.name ++
        after.flatMap (CaseLayout.constructorLines s l.name)) := by
    rw [hcases, List.flatMap_append, List.flatMap_cons]
  have hinner : c.constructorLines s l.name <:+:
      l.cases.flatMap (CaseLayout.constructorLines s l.name) := by
    rw [hflat]
    exact (List.prefix_append _ _).isInfix.trans (List.suffix_append _ _).isInfix
  exact hinner.trans (List.suffix_append _ _).isInfix

/-- The constructor of every case of a registered enum makes a struct that stands for the case and
its arguments, from names that the lines of the enum declare once. -/
theorem represents_constructor (ds : List EnumDefinition)
    (hl : l ∈ (Registry.empty.reached ds).enums) (hlex : l.Lexical) (htags : s.enumTags = true)
    {c : CaseLayout} (hc : c ∈ l.cases) (args : List α) (hargs : args.length = c.arity) :
    l.DeclaresCases s ∧ c.constructorLines s l.name <:+: l.lines s ∧
      (∃ v, call (enumerators (l.lines s)) (c.constructorLines s l.name) args = some v ∧
        l.Represents s c args v) ∧
      ∀ owner bs m, ∃ m', Lowering.writeBindings s c owner (bs.zip c.fields) m = .ok () m' ∧
        m'.lines = m.lines ++
          ((c.bindings s owner bs).map fun st => (⟨m.level, .statement st⟩ : Line)).toArray := by
  obtain ⟨hreached, hcompatible⟩ := Registry.reached_ofLayouts compatible_nil ds
  have hmem : l ∈ ((Registry.ofLayouts []).reached ds).enums := hl
  rw [hreached] at hmem
  have hwell : l.WellNamed := hcompatible.wellNamed l hmem
  have hids : l.identifiers.Nodup := (List.nodup_flatMap.1 hcompatible.identifiers).1 l hmem
  have htagged : l.isTagged s = true := by
    simp [isTagged, htags, List.ne_nil_of_mem hc]
  refine ⟨declaresCases hids hwell hlex htagged, constructorLines_infix hc, ?_,
    fun owner bs m => ?_⟩
  · have hconstants : enumerators (l.lines s) = l.cases.map CaseLayout.tag := by
      rw [enumerators_lines, if_pos htagged]
    have hnumber := constantNumber?_of_mem (List.mem_map_of_mem (f := CaseLayout.tag) hc)
    refine ⟨_, ?_, represents_store hids hwell hlex htagged hc hargs rfl⟩
    rw [CaseLayout.call_constructorLines hargs, hconstants]
    exact CaseLayout.run_constructorBody (List.map_fst_zip (Nat.le_of_eq hargs.symm))
      (hlex.distinct c hc) (fun v hv => (hlex.fields c hc v hv).head?_ne) htags hnumber
  · obtain ⟨m', hm', -, hlines⟩ := CaseLayout.lines_writeBindings s c owner (bs.zip c.fields) m
    refine ⟨m', hm', hlines.trans ?_⟩
    simp [CaseLayout.bindings, Function.comp_def]

/-- A rectangle with sides 3 and 4, where the enum has a case without values before it. -/
theorem represents_constructor_rect :
    ∃ v, call ["_ShapeDotTag", "_ShapeRectTag"] (CaseLayout.constructorLines {} "Shape"
        ⟨"Shape", "rect", [⟨.immutable, "Int", "w"⟩, ⟨.immutable, "Int", "h"⟩]⟩) [3, 4] = some v ∧
      v ["tag"] = some (.number 1) ∧ v ["rect", "w"] = some (.given 3) ∧
      v ["rect", "h"] = some (.given 4) ∧
      (CaseLayout.test ⟨"Shape", "dot", []⟩ "x").holds? ["_ShapeDotTag", "_ShapeRectTag"]
        (fun _ => some v) = some false := by
  have hShape : Token.IsIdentifier "Shape" :=
    @Token.isIdentifier_of_word "Shape" 'S' ['h', 'a', 'p', 'e'] rfl (by decide) (by simp) rfl
  have hw : Token.IsIdentifier "w" :=
    @Token.isIdentifier_of_word "w" 'w' [] rfl (by decide) (by simp) rfl
  have hh : Token.IsIdentifier "h" :=
    @Token.isIdentifier_of_word "h" 'h' [] rfl (by decide) (by simp) rfl
  obtain ⟨-, -, ⟨v, hcall, htag, hfields, htest, -⟩, -⟩ := represents_constructor (α := Nat)
    (s := {}) [⟨"Shape", [⟨"Shape", "dot", []⟩,
      ⟨"Shape", "rect", [⟨.immutable, "Int", "w"⟩, ⟨.immutable, "Int", "h"⟩]⟩]⟩]
    (l := ⟨"Shape", [⟨"Shape", "dot", []⟩,
      ⟨"Shape", "rect", [⟨.immutable, "Int", "w"⟩, ⟨.immutable, "Int", "h"⟩]⟩]⟩)
    (by decide) ⟨hShape, by simp [hw, hh], by decide⟩ rfl
    (c := ⟨"Shape", "rect", [⟨.immutable, "Int", "w"⟩, ⟨.immutable, "Int", "h"⟩]⟩)
    (by decide) [3, 4] rfl
  obtain ⟨n, hn, htag⟩ := htag
  obtain rfl : 1 = n := Option.some.inj hn
  cases hfields with
  | cons hfirst hrest =>
    cases hrest with
    | cons hsecond =>
      exact ⟨v, hcall, htag, hfirst, hsecond,
        htest ⟨"Shape", "dot", []⟩ (by decide) (fun _ => some v) "x" rfl⟩

end EnumLayout

end SumLang
