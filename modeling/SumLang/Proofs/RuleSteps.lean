import Mathlib.Data.List.Forall2
import SumLang.Proofs.Tracking

/-! The rules of the grammar are put together from a few steps: to look at the kinds of the tokens
ahead, to take a token, to fail at the current one, and to give a result. So what each step keeps to
all rules keep to. Two things are derived in this way: where a rule leaves off and what it reports
there, and that a rule does the same on tokens that differ only in their texts and places. -/
namespace SumLang

/-- A token without its text and place, which no rule looks at. -/
def Token.bare (t : Token) : Token := ⟨t.content, "", 0, t.precedence⟩

namespace Parser

open Cursor (Spans)

def look {α : Type} (view : List Token → α) : Parser α := fun c =>
  .ok (view (c.rest.map Token.bare)) c

/-- The rules that the steps make up. -/
inductive Composed : {α : Type} → Parser α → Prop where
  | pure {α : Type} (a : α) : Composed (Pure.pure a)
  | fail {α : Type} (e : Expectation) (wanted hint : Option String) :
    Composed (Parser.fail (α := α) e wanted hint)
  | advance : Composed Parser.advance
  | look {α : Type} (view : List Token → α) : Composed (Parser.look view)
  | bind {α β : Type} {p : Parser α} {k : α → Parser β} : Composed p → (∀ a, Composed (k a)) →
    Composed (p >>= k)
  | fueled {α : Type} {p : Nat → Parser α} : (∀ n, Composed (p n)) →
    Composed fun c => p c.fuel c

namespace Composed

variable {α β : Type} {n : Nat}

theorem isAt (s : Symbol) : Composed (Parser.isAt s) := by
  have heq : Parser.isAt s = Parser.look fun ts => (ts.head?.map (·.isSymbol s)).getD false := by
    funext c
    simp only [Parser.isAt, Parser.look, List.head?_map, Option.map_map]
    rfl
  rw [heq]
  exact .look _

theorem isNext (s : Symbol) : Composed (Parser.isNext s) := by
  have heq : Parser.isNext s =
      Parser.look fun ts => ((ts.drop 1).head?.map (·.isSymbol s)).getD false := by
    funext c
    simp only [Parser.isNext, Parser.look, ← List.map_drop, List.head?_map, Option.map_map]
    rfl
  rw [heq]
  exact .look _

/-- The current token may be asked for by a rule that goes by its kind only. -/
theorem peek_bind {k : Option Token → Parser β} (hk : ∀ o, Composed (k o))
    (hbare : ∀ t, k (some t) = k (some t.bare)) : Composed (peek >>= k) := by
  have heq : peek >>= k = Parser.look List.head? >>= k := by
    funext c
    obtain ⟨i, ts⟩ := c
    cases ts with
    | nil => rfl
    | cons t ts => exact congrFun (hbare t) _
  rw [heq]
  exact .bind (.look _) hk

theorem peekOperator : Composed Parser.peekOperator := by
  have heq : Parser.peekOperator = Parser.look fun ts => Cursor.operator? ⟨0, ts⟩ := by
    funext c
    obtain ⟨i, ts⟩ := c
    cases ts with
    | nil => rfl
    | cons t ts =>
      obtain ⟨a, text, position, precedence⟩ := t
      cases a with
      | symbol s v => cases s <;> rfl
      | _ => rfl
  rw [heq]
  exact .look _

theorem bindsTighter (q : Int) : Composed (Parser.bindsTighter q) := by
  refine peekOperator.bind fun o => ?_
  split
  · exact .pure _
  · exact .pure _

theorem ite {c : Prop} [Decidable c] {p q : Parser α} (hp : Composed p) (hq : Composed q) :
    Composed (if c then p else q) := by
  split
  · exact hp
  · exact hq

theorem take? (s : Symbol) : Composed (Parser.take? s) :=
  (isAt s).bind fun _ => (advance.bind fun _ => .pure true).ite (.pure false)

theorem expect (s : Symbol) (e : Expectation) (wanted : Option String) :
    Composed (Parser.expect s e wanted) :=
  (isAt s).bind fun _ => advance.ite (.fail ..)

theorem mark (s : Symbol) (text : String) : Composed (Parser.mark s text) :=
  expect ..

theorem identifier : Composed Parser.identifier := by
  refine peek_bind (fun o => ?_) fun t => ?_
  · split
    · exact advance.bind fun _ => .pure _
    · exact .fail ..
  · obtain ⟨a, text, position, precedence⟩ := t
    cases a with
    | symbol s v => cases s <;> rfl
    | _ => rfl

theorem statementEnd : Composed Parser.statementEnd := by
  refine (isAt _).bind fun _ => advance.ite (peek_bind (fun o => ?_) fun t => rfl)
  split
  · exact (fail ..).ite (.fail ..)
  · exact .fail ..

theorem typeName : Composed Parser.typeName := by
  refine peek_bind (fun o => ?_) fun t => ?_
  · split
    · split
      · exact advance.bind fun _ => .pure _
      · exact (advance.bind fun _ => .pure _).ite (.fail ..)
    · exact .fail ..
  · obtain ⟨a, text, position, precedence⟩ := t
    cases a <;> rfl

/-- With a given fuel, the rules for expressions are composed. -/
structure Expressions (n : Nat) : Prop where
  expression : Composed (expressionWith n)
  operations (least : Int) (left : Node) : Composed (operationsWith n least left)
  primary : Composed (primaryWith n)
  arguments : Composed (argumentsWith n)
  items : Composed (itemsWith n)

/-- A list after its opening parenthesis. -/
theorem opened {more : Parser (List α)} (hmore : Composed more) :
    Composed (do
      Parser.mark .leftParen "("
      if ← Parser.isAt .rightParen then do
        Parser.advance
        return []
      else more) :=
  (mark ..).bind fun _ => (isAt _).bind fun _ => (advance.bind fun _ => .pure _).ite hmore

/-- An item and what follows it in a list. -/
theorem listed {one : Parser α} {more : Parser (List α)} (hone : Composed one)
    (hmore : Composed more) :
    Composed (do
      let a ← one
      if ← Parser.take? .comma then return a :: (← more)
      else do
        Parser.mark .rightParen ")"
        return [a]) :=
  hone.bind fun _ => (take? _).bind fun _ =>
    (hmore.bind fun _ => .pure _).ite ((mark ..).bind fun _ => .pure _)

theorem operations_succ (h : Expressions n) (least : Int) (left : Node) :
    Composed (operationsWith (n + 1) least left) := by
  rw [operationsWith]
  refine peekOperator.bind fun o => ?_
  split
  · exact .pure _
  · refine ite (.pure _) (advance.bind fun _ => h.primary.bind fun operand =>
      (bindsTighter _).bind fun _ => ?_)
    exact ite ((h.operations ..).bind fun _ => h.operations ..) (h.operations ..)

theorem primary_succ (h : Expressions n) : Composed (primaryWith (n + 1)) := by
  rw [primaryWith]
  refine peek_bind (fun o => ?_) fun t => rfl
  split
  · refine advance.bind fun _ => (isAt _).bind fun _ => ?_
    exact ite (h.arguments.bind fun _ => .pure _) (.pure _)
  · exact advance.bind fun _ => .pure _
  · exact advance.bind fun _ => .pure _
  · exact advance.bind fun _ => .pure _
  · exact advance.bind fun _ => .pure _
  · exact advance.bind fun _ => h.expression.bind fun _ => (mark ..).bind fun _ => .pure _
  · exact .fail ..

theorem expressions (n : Nat) : Expressions n := by
  induction n with
  | zero => exact ⟨.fail .., fun _ _ => .fail .., .fail .., .fail .., .fail ..⟩
  | succ n ih =>
    refine ⟨?_, operations_succ ih, primary_succ ih, ?_, ?_⟩
    · rw [expressionWith]
      exact ih.primary.bind fun _ => ih.operations ..
    · rw [argumentsWith]
      exact opened ih.items
    · rw [itemsWith]
      exact listed ih.expression ih.items

theorem expression : Composed Parser.expression := .fueled fun n => (expressions n).expression

theorem arguments : Composed Parser.arguments := .fueled fun n => (expressions n).arguments

theorem formal : Composed Parser.formal :=
  identifier.bind fun _ => (mark ..).bind fun _ => typeName.bind fun _ => .pure _

theorem formalItems (n : Nat) : Composed (Parser.formalItems n) := by
  induction n with
  | zero => exact .fail ..
  | succ n ih =>
    rw [Parser.formalItems]
    exact listed formal ih

theorem formals : Composed Parser.formals := opened (.fueled formalItems)

theorem optionalFormals : Composed Parser.optionalFormals :=
  (isAt _).bind fun _ => formals.ite (.pure _)

theorem prototype : Composed Parser.prototype :=
  identifier.bind fun _ => formals.bind fun _ => (mark ..).bind fun _ => typeName.bind fun _ =>
    .pure _

theorem construction (type : String) : Composed (Parser.construction type) :=
  ite (.fail ..) ((mark ..).bind fun _ => identifier.bind fun _ => (isAt _).bind fun _ =>
    ite (arguments.bind fun _ => .pure _) (.pure _))

theorem mutability : Composed Parser.mutability :=
  (take? _).bind fun _ => ite (.pure _) ((take? _).bind fun _ => ite (.pure _) (.fail ..))

theorem declaration : Composed Parser.declaration := by
  refine mutability.bind fun _ => identifier.bind fun _ => (mark ..).bind fun _ =>
    typeName.bind fun _ => (take? _).bind fun _ => ite (.pure _) ?_
  refine (mark ..).bind fun _ => (isAt _).bind fun _ => ?_
  exact ite ((construction _).bind fun _ => statementEnd.bind fun _ => .pure _)
    (expression.bind fun _ => statementEnd.bind fun _ => .pure _)

theorem enumCase (enum : String) : Composed (Parser.enumCase enum) :=
  identifier.bind fun _ => optionalFormals.bind fun _ => statementEnd.bind fun _ => .pure _

theorem enumCases (enum : String) (n : Nat) : Composed (Parser.enumCases enum n) := by
  induction n with
  | zero => exact .fail ..
  | succ n ih =>
    rw [Parser.enumCases]
    exact (take? _).bind fun _ => ite (.pure _) ((expect ..).bind fun _ =>
      (enumCase enum).bind fun _ => ih.bind fun _ => .pure _)

theorem enumDefinition : Composed Parser.enumDefinition :=
  (expect ..).bind fun _ => identifier.bind fun name => (mark ..).bind fun _ =>
    (fueled (enumCases name)).bind fun _ => .pure _

theorem returnStatement : Composed Parser.returnStatement :=
  (expect ..).bind fun _ => expression.bind fun _ => statementEnd.bind fun _ => .pure _

theorem printStatement : Composed Parser.printStatement :=
  (expect ..).bind fun _ => arguments.bind fun _ => statementEnd.bind fun _ => .pure _

theorem expressionStatement : Composed Parser.expressionStatement :=
  expression.bind fun _ => statementEnd.bind fun _ => .pure _

section Bodies

variable {block : Parser (List Node)} (hblock : Composed block)

include hblock

theorem functionWith : Composed (Parser.functionWith block) :=
  (expect ..).bind fun _ => prototype.bind fun _ => hblock.bind fun _ => .pure _

theorem branchWith : Composed (Parser.branchWith block) :=
  (expect ..).bind fun _ => expression.bind fun _ => hblock.bind fun _ => .pure _

theorem caseTestWith : Composed (Parser.caseTestWith block) := by
  refine (expect ..).bind fun _ => (expect ..).bind fun _ => identifier.bind fun _ =>
    (mark ..).bind fun _ => typeName.bind fun _ => ite (.fail ..) ?_
  exact (mark ..).bind fun _ => (mark ..).bind fun _ => identifier.bind fun _ =>
    optionalFormals.bind fun _ => hblock.bind fun _ => .pure _

end Bodies

structure Statements (n : Nat) : Prop where
  statement : Composed (statementWith n)
  block : Composed (blockWith n)
  statements : Composed (statementsWith n)

theorem statement_succ (h : Statements n) : Composed (statementWith (n + 1)) := by
  rw [statementWith]
  refine peek_bind (fun o => ?_) fun t => rfl
  split
  · exact functionWith h.block
  · exact (isNext _).bind fun _ => (caseTestWith h.block).ite (branchWith h.block)
  · exact enumDefinition
  · exact declaration
  · exact declaration
  · exact returnStatement
  · exact printStatement
  · exact expressionStatement

theorem statements (n : Nat) : Statements n := by
  induction n with
  | zero => exact ⟨.fail .., .fail .., .fail ..⟩
  | succ n ih =>
    refine ⟨statement_succ ih, ?_, ?_⟩
    · rw [blockWith]
      exact (mark ..).bind fun _ => ih.statements
    · rw [statementsWith]
      refine (take? _).bind fun _ => ite (.pure _) (peek_bind (fun _ => ?_) fun _ => rfl)
      exact ite (.fail ..) (ih.statement.bind fun _ => ih.statements.bind fun _ => .pure _)

theorem program : Composed Parser.program := by
  refine fueled fun n => ?_
  induction n with
  | zero => exact .pure _
  | succ n ih =>
    have hstatement : Composed Parser.statement := .fueled fun n => (statements n).statement
    rw [programWith]
    refine peek_bind (fun _ => ?_) fun _ => rfl
    exact ite (.pure _) (hstatement.bind fun _ => ih.bind fun _ => .pure _)

end Composed

/-- Where a rule leaves off behind a place: the tokens between the two were read, and a fault is
about the token there. -/
def LeavesOff {α : Type} (c : Cursor) : EStateM.Result GrammarFault Cursor α → Prop
  | .ok _ c' => ∃ ts, Spans c ts c'
  | .error f c' => (∃ ts, Spans c ts c') ∧ f.token = c'.rest.head? ∧ f.index = c'.index

theorem Composed.leavesOff {α : Type} {p : Parser α} (h : Composed p) (c : Cursor) :
    LeavesOff c (p.run c) := by
  induction h generalizing c with
  | pure => exact ⟨[], .refl c⟩
  | fail => exact ⟨⟨[], .refl c⟩, rfl, rfl⟩
  | advance =>
    obtain ⟨i, ts⟩ := c
    cases ts with
    | nil => exact ⟨[], .refl _⟩
    | cons t ts => exact ⟨[t], rfl, rfl⟩
  | look => exact ⟨[], .refl c⟩
  | @bind _ _ p k _ _ ihp ihk =>
    have hp := ihp c
    rw [EStateM.run_bind]
    cases hrun : p.run c with
    | error f c₁ => rwa [hrun] at hp
    | ok a c₁ =>
      rw [hrun] at hp
      obtain ⟨ts, hspan⟩ := hp
      have hk := ihk a c₁
      dsimp only
      cases hrun' : (k a).run c₁ with
      | ok b c₂ =>
        rw [hrun'] at hk
        obtain ⟨us, hspan'⟩ := hk
        exact ⟨ts ++ us, hspan.trans hspan'⟩
      | error f c₂ =>
        rw [hrun'] at hk
        obtain ⟨⟨us, hspan'⟩, hf⟩ := hk
        exact ⟨⟨ts ++ us, hspan.trans hspan'⟩, hf⟩
  | fueled _ ih => exact ih c.fuel c

end Parser

/-- Lists whose members agree one by one under a function. -/
theorem forall₂_iff_map_eq {α β : Type} {f : α → β} {l l' : List α} :
    List.Forall₂ (fun a b => f a = f b) l l' ↔ l.map f = l'.map f := by
  rw [← List.forall₂_eq_eq_eq, List.forall₂_map_left_iff, List.forall₂_map_right_iff]

/-! Two runs side by side. The second is `k` tokens further on, over tokens that are related one by
one to those of the first. -/
section Beside

variable (R : Token → Token → Prop) (k : Nat)

structure Cursor.Beside (c c' : Cursor) : Prop where
  index : c'.index = c.index + k
  rest : List.Forall₂ R c.rest c'.rest

structure GrammarFault.Beside (f f' : GrammarFault) : Prop where
  expectation : f'.expectation = f.expectation
  wanted : f'.wanted = f.wanted
  hint : f'.hint = f.hint
  token : Option.Rel R f.token f'.token
  index : f'.index = f.index + k

namespace Parser

variable {R k}

/-- No rule looks at the texts and places of tokens: side by side, a rule gives the same result or
faults side by side. -/
theorem Composed.beside {α : Type} {p : Parser α} (h : Composed p)
    (hR : ∀ t u, R t u → t.bare = u.bare) {c c' : Cursor} (hc : c.Beside R k c') :
    (∃ a c₁ c₁', Reads p c a c₁ ∧ Reads p c' a c₁' ∧ c₁.Beside R k c₁') ∨
      ∃ f f', Fails p c f ∧ Fails p c' f' ∧ f.Beside R k f' := by
  induction h generalizing c c' with
  | pure a => exact .inl ⟨a, c, c', rfl, rfl, hc⟩
  | fail =>
    refine .inr ⟨_, _, ⟨c, rfl⟩, ⟨c', rfl⟩, rfl, rfl, rfl, ?_, hc.index⟩
    obtain ⟨i, ts⟩ := c
    obtain ⟨i', ts'⟩ := c'
    cases hc.rest with
    | nil => exact .none
    | cons ht => exact .some ht
  | advance =>
    refine .inl ⟨(), c.next, c'.next, rfl, rfl, ?_⟩
    obtain ⟨i, ts⟩ := c
    obtain ⟨i', ts'⟩ := c'
    obtain ⟨rfl, hrest⟩ := hc
    cases hrest with
    | nil => exact ⟨rfl, .nil⟩
    | cons _ hrest => exact ⟨Nat.add_right_comm i k 1, hrest⟩
  | look view =>
    have hbare := forall₂_iff_map_eq.1 (hc.rest.imp hR)
    refine .inl ⟨view (c'.rest.map Token.bare), c, c', ?_, rfl, hc⟩
    rw [← hbare]
    rfl
  | bind _ _ ihp ihq =>
    rcases ihp hc with ⟨a, c₁, c₁', ha, ha', hc₁⟩ | ⟨f, f', hf, hf', hbeside⟩
    · rcases ihq a hc₁ with ⟨b, c₂, c₂', hb, hb', hc₂⟩ | ⟨f, f', hf, hf', hbeside⟩
      · exact .inl ⟨b, c₂, c₂', ha.bind_iff.2 hb, ha'.bind_iff.2 hb', hc₂⟩
      · exact .inr ⟨f, f', ha.fails_bind_iff.2 hf, ha'.fails_bind_iff.2 hf', hbeside⟩
    · exact .inr ⟨f, f', fails_bind.2 (.inl hf), fails_bind.2 (.inl hf'), hbeside⟩
  | @fueled _ p _ ih =>
    have hfuel : c'.fuel = c.fuel := by
      rw [Cursor.fuel, Cursor.fuel, hc.rest.length_eq]
    rcases ih c.fuel hc with ⟨a, c₁, c₁', ha, ha', hc₁⟩ | ⟨f, f', hf, hf', hbeside⟩
    · rw [← hfuel] at ha'
      exact .inl ⟨a, c₁, c₁', ha, ha', hc₁⟩
    · rw [← hfuel] at hf'
      exact .inr ⟨f, f', hf, hf', hbeside⟩

end Parser

end Beside

end SumLang
