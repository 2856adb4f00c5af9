import Mathlib.Data.List.Induction
import SumLang.Lowering
import SumLang.Proofs.WellFormed

/-! The types that expressions evidently have, by the place where they stand: a name means its last
declaration before the place in the innermost block that has one. -/
namespace SumLang

/-- The variable that a statement declares in its block. -/
def Node.declared? : Node → Option Variable
  | .declare v => some v
  | .assign v _ => some v
  | _ => none

/-- A block seen from a place inside it: what the head of the block binds, and the statements of the
block before the place. -/
structure Enclosing where
  bound : List Variable
  earlier : List Node

def Enclosing.declared (b : Enclosing) : List Variable := b.earlier.filterMap Node.declared?

def IsLast {α : Type} (name : α → String) (as : List α) (x : String) (a : α) : Prop :=
  ∃ us ws, as = us ++ a :: ws ∧ name a = x ∧ ∀ w ∈ ws, name w ≠ x

/-- The type of a name at a place that stands in some blocks, the innermost first. -/
inductive Resolves : List Enclosing → String → Option String → Prop where
  | declared {b Γ x v} : IsLast Variable.name b.declared x v → Resolves (b :: Γ) x (some v.type)
  | bound {b Γ x v} : (∀ w ∈ b.declared, w.name ≠ x) → IsLast Variable.name b.bound x v →
      Resolves (b :: Γ) x (some v.type)
  | outer {b Γ x type?} : (∀ w ∈ b.declared, w.name ≠ x) → (∀ w ∈ b.bound, w.name ≠ x) →
      Resolves Γ x type? → Resolves (b :: Γ) x type?
  | nowhere {x} : Resolves [] x none

/-- The type of an expression at a place, in a program with some functions. -/
inductive HasType (fs : List Prototype) (Γ : List Enclosing) : Node → Option String → Prop where
  | integer {n} : HasType fs Γ (.integer n) (some "Int")
  | float {x} : HasType fs Γ (.float x) (some "Float")
  | string {t} : HasType fs Γ (.string t) (some "String")
  | boolean {b} : HasType fs Γ (.boolean b) (some "Bool")
  | name {x type?} : Resolves Γ x type? → HasType fs Γ (.name x) type?
  | call {f args p} : IsLast Prototype.name fs f p → HasType fs Γ (.call f args) (some p.result)
  | unknownCall {f args} : (∀ p ∈ fs, p.name ≠ f) → HasType fs Γ (.call f args) none
  | floatOperation {a op b left right} : HasType fs Γ a left → HasType fs Γ b right →
      (left = some "Float" ∨ right = some "Float") → HasType fs Γ (.binary a op b) (some "Float")
  | intOperation {a op b} : HasType fs Γ a (some "Int") → HasType fs Γ b (some "Int") →
      HasType fs Γ (.binary a op b) (some "Int")
  | unknownOperation {a op b left right} : HasType fs Γ a left → HasType fs Γ b right →
      left ≠ some "Float" → right ≠ some "Float" → ¬ (left = some "Int" ∧ right = some "Int") →
      HasType fs Γ (.binary a op b) none

/-- The conversion that prints values of a type. -/
inductive Converts : Option String → String → Prop where
  | int : Converts (some "Int") "%d"
  | bool : Converts (some "Bool") "%d"
  | float : Converts (some "Float") "%f"
  | other {type?} : type? ≠ some "Int" → type? ≠ some "Bool" → type? ≠ some "Float" →
      Converts type? "%s"

section Last

variable {α : Type} {name : α → String} {as : List α} {x : String} {a b : α}

theorem IsLast.mem (h : IsLast name as x a) : a ∈ as := by
  obtain ⟨us, ws, rfl, -, -⟩ := h
  simp

theorem IsLast.name_eq (h : IsLast name as x a) : name a = x := by
  obtain ⟨us, ws, -, hname, -⟩ := h
  exact hname

theorem isLast_concat :
    IsLast name (as ++ [b]) x a ↔
      (b = a ∧ name a = x) ∨ (name b ≠ x ∧ IsLast name as x a) := by
  constructor
  · rintro ⟨us, ws, heq, hname, hlast⟩
    cases ws using List.reverseRecOn with
    | nil =>
      obtain ⟨-, hb⟩ := List.append_inj' heq rfl
      exact .inl ⟨List.head_eq_of_cons_eq hb, hname⟩
    | append_singleton ws w _ =>
      have heq : as ++ [b] = (us ++ a :: ws) ++ [w] := by simpa using heq
      obtain ⟨rfl, hb⟩ := List.append_inj' heq rfl
      obtain rfl : b = w := List.head_eq_of_cons_eq hb
      exact .inr ⟨hlast b (by simp), us, ws, rfl, hname, fun w hw => hlast w (by simp [hw])⟩
  · rintro (⟨rfl, hname⟩ | ⟨hb, us, ws, rfl, hname, hlast⟩)
    · exact ⟨as, [], rfl, hname, by simp⟩
    · refine ⟨us, ws ++ [b], by simp, hname, fun w hw => ?_⟩
      rcases List.mem_append.1 hw with hw | hw
      · exact hlast w hw
      · rwa [List.mem_singleton.1 hw]

theorem IsLast.unique (ha : IsLast name as x a) (hb : IsLast name as x b) : a = b := by
  induction as using List.reverseRecOn with
  | nil => exact absurd ha.mem (by simp)
  | append_singleton as c ih =>
    rcases isLast_concat.1 ha with ⟨rfl, hname⟩ | ⟨hne, ha⟩
    · rcases isLast_concat.1 hb with ⟨rfl, -⟩ | ⟨hne, -⟩
      · rfl
      · exact absurd hname hne
    · rcases isLast_concat.1 hb with ⟨rfl, hname⟩ | ⟨-, hb⟩
      · exact absurd hname hne
      · exact ih ha hb

/-- Names with their types, the last first. -/
def entries (name type : α → String) (as : List α) : List (String × String) :=
  (as.map fun a => (name a, type a)).reverse

theorem lookup_entries (name type : α → String) (as : List α) (x : String) :
    (∃ a, IsLast name as x a ∧ (entries name type as).lookup x = some (type a)) ∨
      ((∀ a ∈ as, name a ≠ x) ∧ (entries name type as).lookup x = none) := by
  induction as using List.reverseRecOn with
  | nil => exact .inr ⟨by simp, rfl⟩
  | append_singleton as b ih =>
    have hentries : entries name type (as ++ [b]) = (name b, type b) :: entries name type as := by
      simp [entries]
    rw [hentries, List.lookup_cons]
    by_cases hb : name b = x
    · refine .inl ⟨b, isLast_concat.2 (.inl ⟨rfl, hb⟩), ?_⟩
      simp [hb]
    · have hx : (x == name b) = false := by simpa using Ne.symm hb
      rw [hx]
      rcases ih with ⟨a, ha, hlookup⟩ | ⟨hnone, hlookup⟩
      · exact .inl ⟨a, isLast_concat.2 (.inr ⟨hb, ha⟩), hlookup⟩
      · refine .inr ⟨fun a ha => ?_, hlookup⟩
        rcases List.mem_append.1 ha with ha | ha
        · exact hnone a ha
        · rwa [List.mem_singleton.1 ha]

end Last

theorem Resolves.unique {Γ : List Enclosing} {x : String} {type₁ type₂ : Option String}
    (h₁ : Resolves Γ x type₁) (h₂ : Resolves Γ x type₂) : type₁ = type₂ := by
  induction h₁ with
  | declared hv =>
    cases h₂ with
    | declared hw => rw [hv.unique hw]
    | bound hnone => exact absurd hv.name_eq (hnone _ hv.mem)
    | outer hnone => exact absurd hv.name_eq (hnone _ hv.mem)
  | bound hnone hv =>
    cases h₂ with
    | declared hw => exact absurd hw.name_eq (hnone _ hw.mem)
    | bound _ hw => rw [hv.unique hw]
    | outer _ hnone' => exact absurd hv.name_eq (hnone' _ hv.mem)
  | outer hnone hnone' _ ih =>
    cases h₂ with
    | declared hw => exact absurd hw.name_eq (hnone _ hw.mem)
    | bound _ hw => exact absurd hw.name_eq (hnone' _ hw.mem)
    | outer _ _ h => exact ih h
  | nowhere =>
    cases h₂
    rfl

theorem HasType.unique {fs : List Prototype} {Γ : List Enclosing} {e : Node}
    {type₁ type₂ : Option String} (h₁ : HasType fs Γ e type₁) (h₂ : HasType fs Γ e type₂) :
    type₁ = type₂ := by
  induction h₁ generalizing type₂ with
  | name h =>
    cases h₂ with
    | name h' => exact h.unique h'
  | call h =>
    cases h₂ with
    | call h' => rw [h.unique h']
    | unknownCall hnone => exact absurd h.name_eq (hnone _ h.mem)
  | unknownCall hnone =>
    cases h₂ with
    | call h => exact absurd h.name_eq (hnone _ h.mem)
    | unknownCall => rfl
  | floatOperation _ _ hfloat iha ihb =>
    cases h₂ with
    | floatOperation => rfl
    | intOperation ha hb => simp [iha ha, ihb hb] at hfloat
    | unknownOperation ha hb hleft hright =>
      rw [iha ha, ihb hb] at hfloat
      exact absurd hfloat (by simp [hleft, hright])
  | intOperation _ _ iha ihb =>
    cases h₂ with
    | floatOperation ha hb hfloat => simp [← iha ha, ← ihb hb] at hfloat
    | intOperation => rfl
    | unknownOperation ha hb _ _ hint => exact absurd ⟨(iha ha).symm, (ihb hb).symm⟩ hint
  | unknownOperation _ _ hleft hright hint iha ihb =>
    cases h₂ with
    | floatOperation ha hb hfloat =>
      rw [← iha ha, ← ihb hb] at hfloat
      exact absurd hfloat (by simp [hleft, hright])
    | intOperation ha hb => exact absurd ⟨iha ha, ihb hb⟩ hint
    | unknownOperation => rfl
  | _ =>
    cases h₂
    rfl

theorem HasType.operation {fs : List Prototype} {Γ : List Enclosing} {a b : Node} {op : String}
    {left right : Option String} (ha : HasType fs Γ a left) (hb : HasType fs Γ b right) :
    HasType fs Γ (.binary a op b) (operationType left right) := by
  unfold operationType
  split
  · next hfloat => exact .floatOperation ha hb (by simpa using hfloat)
  next hfloat =>
  split
  · next hint =>
    obtain ⟨rfl, rfl⟩ : left = some "Int" ∧ right = some "Int" := by simpa using hint
    exact .intOperation ha hb
  · next hint =>
    have hfloat : left ≠ some "Float" ∧ right ≠ some "Float" := by simpa using hfloat
    exact .unknownOperation ha hb hfloat.1 hfloat.2 (by simpa using hint)

/-! The lowering keeps a scope for every block, with the latest declaration first. -/

/-- What is known of the names of a block at a place in it. -/
def Enclosing.scope (b : Enclosing) : Scope :=
  entries Variable.name Variable.type (b.bound ++ b.declared)

theorem Enclosing.lookup_scope (b : Enclosing) (x : String) :
    b.scope.lookup x = ((entries Variable.name Variable.type b.declared).lookup x).or
      ((entries Variable.name Variable.type b.bound).lookup x) := by
  rw [scope, entries, List.map_append, List.reverse_append, List.lookup_append]
  rfl

/-- The innermost scope that has a name gives the type of the name. -/
theorem resolves_findSome? (Γ : List Enclosing) (x : String) :
    Resolves Γ x ((Γ.map Enclosing.scope).findSome? (·.lookup x)) := by
  induction Γ with
  | nil => exact .nowhere
  | cons b Γ ih =>
    rw [List.map_cons, List.findSome?_cons, b.lookup_scope]
    rcases lookup_entries Variable.name Variable.type b.declared x with
      ⟨v, hv, hlookup⟩ | ⟨hnone, hlookup⟩
    · rw [hlookup]
      exact .declared hv
    rcases lookup_entries Variable.name Variable.type b.bound x with
      ⟨v, hv, hlookup'⟩ | ⟨hnone', hlookup'⟩
    · rw [hlookup, hlookup']
      exact .bound hnone hv
    · rw [hlookup, hlookup']
      exact .outer hnone hnone' ih

/-- The memory of the lowering at a place: the enums and functions of the program, and the scopes of
the blocks around the place, beyond which nothing is declared. -/
structure Memory.At (m : Memory) (r : Registry) (fs : List Prototype) (Γ : List Enclosing) :
    Prop where
  enums : m.enums = r
  functions : m.functions = entries Prototype.name Prototype.result fs
  scopes : ∃ outer, m.scopes = Γ.map Enclosing.scope ++ outer ∧ ∀ scope ∈ outer, scope = []

namespace Memory.At

variable {m : Memory} {r : Registry} {fs : List Prototype} {Γ : List Enclosing}

theorem resolves (h : m.At r fs Γ) (x : String) : Resolves Γ x (m.lookup x) := by
  obtain ⟨outer, hscopes, hempty⟩ := h.scopes
  have hnone : outer.findSome? (·.lookup x) = none := by
    rw [List.findSome?_eq_none_iff]
    intro scope hscope
    rw [hempty scope hscope]
    rfl
  rw [Memory.lookup, hscopes, List.findSome?_append, hnone, Option.or_none]
  exact resolves_findSome? Γ x

theorem hasType (h : m.At r fs Γ) {e : Node} (he : WellFormed.Expression e) :
    HasType fs Γ e (m.typeOf e) := by
  induction he with
  | name => exact .name (h.resolves _)
  | @call f args =>
    rw [Memory.typeOf, Memory.resultType, h.functions]
    rcases lookup_entries Prototype.name Prototype.result fs f with
      ⟨p, hp, hlookup⟩ | ⟨hnone, hlookup⟩
    · rw [hlookup]
      exact .call hp
    · rw [hlookup]
      exact .unknownCall hnone
  | binary _ _ _ iha ihb => exact iha.operation ihb
  | integer => exact .integer
  | float => exact .float
  | string => exact .string
  | boolean => exact .boolean

end Memory.At

theorem converts_conversion (type? : Option String) : Converts type? (conversion type?) := by
  unfold conversion
  split
  · exact .int
  · exact .bool
  · exact .float
  · next hint hbool hfloat => exact .other hint hbool hfloat

end SumLang
