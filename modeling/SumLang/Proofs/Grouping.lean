import SumLang.Node

/-! Operator chains and their grouping by precedence. -/
namespace SumLang

structure Operation where
  operator : String
  precedence : Int
  operand : Node

/-- A way to group a chain. An operand may be an operation in parentheses, which counts as one
unit. -/
inductive Grouping where
  | operand (n : Node)
  | operation (left : Grouping) (operator : String) (precedence : Int) (right : Grouping)

namespace Grouping

def node : Grouping → Node
  | operand n => n
  | operation l op _ r => .binary l.node op r.node

def first : Grouping → Node
  | operand n => n
  | operation l _ _ _ => l.first

def rest : Grouping → List Operation
  | operand _ => []
  | operation l op p r => l.rest ++ ⟨op, p, r.first⟩ :: r.rest

def root? : Grouping → Option Int
  | operand _ => none
  | operation _ _ p _ => some p

/-- Every operation binds no tighter than the one to its left and looser than the one to its
right. -/
def ByPrecedence : Grouping → Prop
  | operand _ => True
  | operation l _ p r =>
    (∀ q ∈ l.root?, p ≤ q) ∧ (∀ q ∈ r.root?, p < q) ∧ l.ByPrecedence ∧ r.ByPrecedence

/-- Adds an operation at the end. Its left operand is all of the grouping that binds at least as
tightly. -/
def snoc : Grouping → Operation → Grouping
  | operand n, o => operation (operand n) o.operator o.precedence (operand o.operand)
  | operation l op p r, o =>
    if p < o.precedence then operation l op p (r.snoc o)
    else operation (operation l op p r) o.operator o.precedence (operand o.operand)

def extend (g : Grouping) (ops : List Operation) : Grouping :=
  ops.foldl snoc g

@[simp] theorem extend_nil (g : Grouping) : g.extend [] = g := rfl

@[simp] theorem extend_cons (g : Grouping) (o : Operation) (ops : List Operation) :
    g.extend (o :: ops) = (g.snoc o).extend ops := rfl

theorem extend_append (g : Grouping) (ops rest : List Operation) :
    g.extend (ops ++ rest) = (g.extend ops).extend rest :=
  List.foldl_append

/-- An operation that binds no tighter than the root becomes the new root. -/
theorem snoc_of_root_ge {g : Grouping} {o : Operation} (h : ∀ p ∈ g.root?, o.precedence ≤ p) :
    g.snoc o = operation g o.operator o.precedence (operand o.operand) := by
  cases g with
  | operand n => rfl
  | operation l op p r =>
    have hp : ¬ p < o.precedence := by
      have := h p rfl
      omega
    simp [snoc, hp]

/-- Operations that bind tighter than the root extend its right operand. -/
theorem extend_operation (l : Grouping) (op : String) (p : Int) (r : Grouping)
    {ops : List Operation} (h : ∀ o ∈ ops, p < o.precedence) :
    (operation l op p r).extend ops = operation l op p (r.extend ops) := by
  induction ops generalizing r with
  | nil => rfl
  | cons o ops ih =>
    have ho : p < o.precedence := h o List.mem_cons_self
    have hops : ∀ o ∈ ops, p < o.precedence := fun o h' => h o (List.mem_cons_of_mem _ h')
    rw [extend_cons, extend_cons, ← ih _ hops]
    simp [snoc, ho]

@[simp] theorem first_snoc (g : Grouping) (o : Operation) : (g.snoc o).first = g.first := by
  cases g with
  | operand n => rfl
  | operation l op p r =>
    unfold snoc
    split <;> rfl

@[simp] theorem rest_snoc (g : Grouping) (o : Operation) : (g.snoc o).rest = g.rest ++ [o] := by
  induction g with
  | operand n => rfl
  | operation l op p r _ ih =>
    unfold snoc
    split
    · simp [rest, ih]
    · simp [rest, first]

/-- Grouping keeps the operands and operators in their order. -/
theorem first_extend (g : Grouping) (ops : List Operation) : (g.extend ops).first = g.first := by
  induction ops generalizing g with
  | nil => rfl
  | cons o ops ih => rw [extend_cons, ih, first_snoc]

theorem rest_extend (g : Grouping) (ops : List Operation) :
    (g.extend ops).rest = g.rest ++ ops := by
  induction ops generalizing g with
  | nil => simp
  | cons o ops ih => rw [extend_cons, ih, rest_snoc, List.append_assoc, List.singleton_append]

theorem root?_snoc (g : Grouping) (o : Operation) :
    (g.snoc o).root? = g.root? ∨ (g.snoc o).root? = some o.precedence := by
  cases g with
  | operand n => exact .inr rfl
  | operation l op p r =>
    unfold snoc
    split
    · exact .inl rfl
    · exact .inr rfl

theorem ByPrecedence.snoc {g : Grouping} (h : g.ByPrecedence) (o : Operation) :
    (g.snoc o).ByPrecedence := by
  induction g with
  | operand n => exact ⟨by simp [root?], by simp [root?], trivial, trivial⟩
  | operation l op p r _ ihr =>
    have ⟨hl, hr, hbl, hbr⟩ := h
    unfold Grouping.snoc
    split
    · next hp =>
      refine ⟨hl, fun q hq => ?_, hbl, ihr hbr⟩
      rcases root?_snoc r o with heq | heq
      · exact hr q (heq ▸ hq)
      · obtain rfl : o.precedence = q := by simpa [heq] using hq
        exact hp
    · next hp =>
      refine ⟨fun q hq => ?_, by simp [root?], h, trivial⟩
      obtain rfl : p = q := by simpa [root?] using hq
      exact Int.not_lt.1 hp

/-- Adding operations from left to right groups them by precedence. -/
theorem ByPrecedence.extend {g : Grouping} (h : g.ByPrecedence) (ops : List Operation) :
    (g.extend ops).ByPrecedence := by
  induction ops generalizing g with
  | nil => exact h
  | cons o ops ih => exact ih (h.snoc o)

/-- The root of a grouping by precedence binds loosest. -/
theorem ByPrecedence.root_le {g : Grouping} (h : g.ByPrecedence) :
    ∀ p ∈ g.root?, ∀ o ∈ g.rest, p ≤ o.precedence := by
  induction g with
  | operand n => simp [root?]
  | operation l op p r ihl ihr =>
    obtain ⟨hl, hr, hbl, hbr⟩ := h
    intro q hq o ho
    obtain rfl : p = q := by simpa [root?] using hq
    simp only [rest, List.mem_append, List.mem_cons] at ho
    rcases ho with ho | rfl | ho
    · cases l with
      | operand n => simp [rest] at ho
      | operation a op' p' b => exact Int.le_trans (hl p' rfl) (ihl hbl p' rfl o ho)
    · exact Int.le_refl p
    · cases r with
      | operand n => simp [rest] at ho
      | operation a op' p' b =>
        exact Int.le_trans (Int.le_of_lt (hr p' rfl)) (ihr hbr p' rfl o ho)

/-- A grouping by precedence is the one that its chain is given. -/
theorem ByPrecedence.extend_first {g : Grouping} (h : g.ByPrecedence) :
    (operand g.first).extend g.rest = g := by
  induction g with
  | operand n => rfl
  | operation l op p r ihl ihr =>
    obtain ⟨hl, hr, hbl, hbr⟩ := h
    have hright : ∀ o ∈ r.rest, p < o.precedence := by
      intro o ho
      cases r with
      | operand n => simp [rest] at ho
      | operation a op' p' b => exact Int.lt_of_lt_of_le (hr p' rfl) (hbr.root_le p' rfl o ho)
    have hsnoc : l.snoc ⟨op, p, r.first⟩ = operation l op p (operand r.first) :=
      snoc_of_root_ge hl
    rw [first, rest, extend_append, ihl hbl, extend_cons, hsnoc, extend_operation _ _ _ _ hright,
      ihr hbr]

end Grouping

end SumLang
