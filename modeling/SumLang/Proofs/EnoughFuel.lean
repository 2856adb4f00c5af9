import SumLang.Proofs.Recognition

/-! Fuel does not matter where there is enough of it: a rule that gets more than the tokens left can
ask for gives the same answer, fault and place included. -/
namespace SumLang.Parser

open Cursor (Spans)
open Grammar

variable {α β : Type} {n : Nat}

/-- More fuel than the tokens left can ask for changes nothing. -/
def Settles (p : Nat → Parser α) : Prop :=
  ∀ (c : Cursor) (n : Nat), c.fuel ≤ n → (p n).run c = (p c.fuel).run c

/-- Where one step more of fuel never matters, no amount of it does. -/
theorem settles_of_succ {p : Nat → Parser α}
    (h : ∀ (c : Cursor) (n : Nat), c.fuel ≤ n → (p (n + 1)).run c = (p n).run c) : Settles p := by
  intro c n hn
  induction hn with
  | refl => rfl
  | step hn ih => rw [h c _ hn, ih]

section Runs

variable {c c' : Cursor}

/-- Two sequences that agree step by step from a place. -/
theorem run_bind_congr {p p' : Parser α} {f f' : α → Parser β} (hp : p.run c = p'.run c)
    (hf : ∀ a c₁, Reads p c a c₁ → (f a).run c₁ = (f' a).run c₁) :
    (p >>= f).run c = (p' >>= f').run c := by
  rw [EStateM.run_bind, EStateM.run_bind, ← hp]
  cases hrun : p.run c with
  | ok a c₁ => exact hf a c₁ hrun
  | error e c₁ => rfl

theorem rest_lt_of_spans {t : Token} {ts : List Token} (h : Spans c (t :: ts) c') :
    c'.rest.length < c.rest.length := by
  have hlen := congrArg List.length h.rest
  simp only [List.length_append, List.length_cons] at hlen
  omega

theorem rest_le_of_spans {ts : List Token} (h : Spans c ts c') :
    c'.rest.length ≤ c.rest.length := by
  rw [h.rest, List.length_append]
  omega

theorem rest_lt_of_expect {s : Symbol} {e : Expectation} {wanted : Option String}
    (h : Reads (expect s e wanted) c () c') : c'.rest.length < c.rest.length := by
  obtain ⟨t, -, hspan⟩ := reads_expect.1 h
  exact rest_lt_of_spans hspan

theorem rest_lt_of_mark {s : Symbol} {text : String} (h : Reads (mark s text) c () c') :
    c'.rest.length < c.rest.length := by
  obtain ⟨t, -, hspan⟩ := reads_mark.1 h
  exact rest_lt_of_spans hspan

theorem rest_lt_of_take {s : Symbol} (h : Reads (take? s) c true c') :
    c'.rest.length < c.rest.length := by
  obtain ⟨t, -, hspan⟩ := reads_take?_true.1 h
  exact rest_lt_of_spans hspan

theorem rest_lt_of_primary {e : Node} (h : Reads (primaryWith n) c e c') :
    c'.rest.length < c.rest.length := by
  obtain ⟨ts, hts, hspan⟩ := (expressionsSound n).primary h
  obtain ⟨t, us, rfl, -⟩ := exists_cons_of_primary hts
  exact rest_lt_of_spans hspan

theorem rest_lt_of_expression {e : Node} (h : Reads (expressionWith n) c e c') :
    c'.rest.length < c.rest.length := by
  obtain ⟨ts, hts, hspan⟩ := (expressionsSound n).expression h
  obtain ⟨t, us, rfl, -⟩ := exists_cons_of_expression hts
  exact rest_lt_of_spans hspan

theorem rest_lt_of_statement {e : Node} (h : Reads (statementWith n) c e c') :
    c'.rest.length < c.rest.length := by
  obtain ⟨ts, hts, hspan⟩ := (statementsSound n).statement h
  obtain ⟨t, us, rfl, -⟩ := exists_cons_of_statement hts
  exact rest_lt_of_spans hspan

theorem rest_le_of_operations {least : Int} {left e : Node}
    (h : Reads (operationsWith n least left) c e c') : c'.rest.length ≤ c.rest.length := by
  obtain ⟨ts, -, -, hspan, -⟩ := (expressionsSound n).operations h
  exact rest_le_of_spans hspan

theorem reads_peek {o : Option Token} : Reads peek c o c' ↔ c.rest.head? = o ∧ c = c' := by
  rw [← bind_pure peek, reads_peek_bind, reads_pure]

theorem reads_isAt {s : Symbol} {b : Bool} : Reads (isAt s) c b c' ↔ c.sees s = b ∧ c = c' := by
  rw [← bind_pure (isAt s), reads_isAt_bind, reads_pure]

theorem reads_isNext {s : Symbol} {b : Bool} :
    Reads (isNext s) c b c' ↔ c.next.sees s = b ∧ c = c' := by
  rw [← bind_pure (isNext s), reads_isNext_bind, reads_pure]

theorem reads_peekOperator {o : Option (String × Int)} :
    Reads peekOperator c o c' ↔ c.operator? = o ∧ c = c' := by
  rw [← bind_pure peekOperator, reads_peekOperator_bind, reads_pure]

theorem reads_bindsTighter {p : Int} {b : Bool} :
    Reads (bindsTighter p) c b c' ↔ c.operator?.any (fun o => p < o.2) = b ∧ c = c' := by
  rw [← bind_pure (bindsTighter p), reads_bindsTighter_bind, reads_pure]

/-- A list goes on alike if its items and its rest do. -/
theorem run_listed_congr {one one' : Parser α} {more more' : Parser (List α)}
    (hone : one.run c = one'.run c)
    (hmore : ∀ a c₁ c₂, Reads one c a c₁ → Reads (take? .comma) c₁ true c₂ →
      more.run c₂ = more'.run c₂) :
    (do
      let a ← one
      if ← take? .comma then return a :: (← more)
      else do
        mark .rightParen ")"
        return [a] : Parser (List α)).run c =
    (do
      let a ← one'
      if ← take? .comma then return a :: (← more')
      else do
        mark .rightParen ")"
        return [a] : Parser (List α)).run c := by
  refine run_bind_congr hone fun a c₁ ha => run_bind_congr rfl fun b c₂ hb => ?_
  cases b with
  | false => rfl
  | true => exact run_bind_congr (hmore a c₁ c₂ ha hb) fun _ _ _ => rfl

end Runs

/-- With a given fuel, one step more does not matter for the rules of expressions. -/
structure ExpressionsStable (n : Nat) : Prop where
  expression {c : Cursor} : 4 * c.rest.length + 1 ≤ n →
    (expressionWith (n + 1)).run c = (expressionWith n).run c
  operations {least : Int} {left : Node} {c : Cursor} : 4 * c.rest.length + 1 ≤ n →
    (operationsWith (n + 1) least left).run c = (operationsWith n least left).run c
  primary {c : Cursor} : 4 * c.rest.length ≤ n →
    (primaryWith (n + 1)).run c = (primaryWith n).run c
  arguments {c : Cursor} : 4 * c.rest.length + 1 ≤ n →
    (argumentsWith (n + 1)).run c = (argumentsWith n).run c
  items {c : Cursor} : 4 * c.rest.length + 2 ≤ n →
    (itemsWith (n + 1)).run c = (itemsWith n).run c

namespace ExpressionsStable

variable {c : Cursor}

theorem expression_succ (h : ExpressionsStable n) (hn : 4 * c.rest.length + 1 ≤ n + 1) :
    (expressionWith (n + 1 + 1)).run c = (expressionWith (n + 1)).run c := by
  rw [expressionWith, expressionWith]
  refine run_bind_congr (h.primary (by omega)) fun first c₁ hfirst => h.operations ?_
  have hlt := rest_lt_of_primary hfirst
  omega

theorem operations_succ (h : ExpressionsStable n) {least : Int} {left : Node}
    (hn : 4 * c.rest.length + 1 ≤ n + 1) :
    (operationsWith (n + 1 + 1) least left).run c = (operationsWith (n + 1) least left).run c := by
  rw [operationsWith, operationsWith]
  refine run_bind_congr rfl fun o c₁ ho => ?_
  obtain ⟨hop, rfl⟩ := reads_peekOperator.1 ho
  cases o with
  | none => rfl
  | some o =>
  obtain ⟨op, p⟩ := o
  obtain ⟨t, -, -, hspan⟩ := Cursor.exists_of_operator? hop
  have hlt := rest_lt_of_spans hspan
  dsimp only
  split
  · rfl
  refine run_bind_congr rfl fun _ c₁ hnext => ?_
  obtain rfl := reads_advance.1 hnext
  refine run_bind_congr (h.primary (by omega)) fun operand c₁ hoperand => ?_
  have hlt' := rest_lt_of_primary hoperand
  refine run_bind_congr rfl fun tighter c₂ htighter => ?_
  obtain ⟨-, rfl⟩ := reads_bindsTighter.1 htighter
  split
  · refine run_bind_congr (h.operations (by omega)) fun right c₂ hright => h.operations ?_
    have hle := rest_le_of_operations hright
    omega
  · exact h.operations (by omega)

theorem primary_succ (h : ExpressionsStable n) (hn : 4 * c.rest.length ≤ n + 1) :
    (primaryWith (n + 1 + 1)).run c = (primaryWith (n + 1)).run c := by
  rw [primaryWith, primaryWith]
  refine run_bind_congr rfl fun o c₁ ho => ?_
  obtain ⟨hhead, rfl⟩ := reads_peek.1 ho
  cases o with
  | none => rfl
  | some t =>
  have hlt := rest_lt_of_spans (Cursor.spans_singleton.2 ⟨hhead, rfl⟩)
  split
  · refine run_bind_congr rfl fun _ c₁ hnext => run_bind_congr rfl fun b c₂ hb => ?_
    obtain rfl := reads_advance.1 hnext
    obtain ⟨-, rfl⟩ := reads_isAt.1 hb
    split
    · exact run_bind_congr (h.arguments (by omega)) fun _ _ _ => rfl
    · rfl
  · rfl
  · rfl
  · rfl
  · rfl
  · refine run_bind_congr rfl fun _ c₁ hnext => ?_
    obtain rfl := reads_advance.1 hnext
    exact run_bind_congr (h.expression (by omega)) fun _ _ _ => rfl
  · rfl

theorem arguments_succ (h : ExpressionsStable n) (hn : 4 * c.rest.length + 1 ≤ n + 1) :
    (argumentsWith (n + 1 + 1)).run c = (argumentsWith (n + 1)).run c := by
  rw [argumentsWith, argumentsWith]
  refine run_bind_congr rfl fun _ c₁ hl => run_bind_congr rfl fun b c₂ hb => ?_
  have hlt := rest_lt_of_mark hl
  obtain ⟨-, rfl⟩ := reads_isAt.1 hb
  split
  · rfl
  · exact h.items (by omega)

theorem items_succ (h : ExpressionsStable n) (hn : 4 * c.rest.length + 2 ≤ n + 1) :
    (itemsWith (n + 1 + 1)).run c = (itemsWith (n + 1)).run c := by
  rw [itemsWith, itemsWith]
  refine run_listed_congr (h.expression (by omega)) fun e c₁ c₂ he hcomma => h.items ?_
  have hlt := rest_lt_of_expression he
  have hlt' := rest_lt_of_take hcomma
  omega

end ExpressionsStable

theorem expressionsStable (n : Nat) : ExpressionsStable n := by
  induction n with
  | zero =>
    refine ⟨fun hn => by omega, fun hn => by omega, fun hn => ?_, fun hn => by omega,
      fun hn => by omega⟩
    -- Without tokens, no fuel and some fuel both end in the fault of a missing expression.
    rename_i c
    have hnil : c.rest = [] := List.eq_nil_of_length_eq_zero (by omega)
    obtain ⟨i, ts⟩ := c
    obtain rfl : ts = [] := hnil
    rfl
  | succ n ih =>
    exact ⟨ih.expression_succ, ih.operations_succ, ih.primary_succ, ih.arguments_succ,
      ih.items_succ⟩

section Lists

variable {c : Cursor}

theorem formalItems_succ (hn : c.rest.length + 1 ≤ n) :
    (formalItems (n + 1)).run c = (formalItems n).run c := by
  induction n generalizing c with
  | zero => omega
  | succ n ih =>
    rw [formalItems, formalItems]
    refine run_listed_congr rfl fun v c₁ c₂ hv hcomma => ih ?_
    obtain ⟨ts, -, hspan⟩ := reads_formal.1 hv
    have hle := rest_le_of_spans hspan
    have hlt := rest_lt_of_take hcomma
    omega

theorem enumCases_succ {enum : String} (hn : c.rest.length + 1 ≤ n) :
    (enumCases enum (n + 1)).run c = (enumCases enum n).run c := by
  induction n generalizing c with
  | zero => omega
  | succ n ih =>
    rw [enumCases, enumCases]
    refine run_bind_congr rfl fun b c₁ hb => ?_
    cases b with
    | true => rfl
    | false =>
    obtain ⟨-, rfl⟩ := reads_take?_false.1 hb
    refine run_bind_congr rfl fun _ c₁ hk => run_bind_congr rfl fun d c₂ hd => ?_
    refine run_bind_congr (ih ?_) fun _ _ _ => rfl
    have hlt := rest_lt_of_expect hk
    obtain ⟨k, hk, -⟩ := reads_expect.1 hk
    obtain ⟨ts, -, hspan⟩ := (reads_enumCase hk).1 hd
    have hle := rest_le_of_spans hspan
    omega

end Lists

section Bodies

variable {c : Cursor} {block block' : Parser (List Node)}
  (hblock : ∀ c₁ : Cursor, c₁.rest.length < c.rest.length → block.run c₁ = block'.run c₁)

include hblock

theorem run_functionWith_congr : (functionWith block).run c = (functionWith block').run c := by
  refine run_bind_congr rfl fun _ c₁ hk => run_bind_congr rfl fun p c₂ hp => ?_
  have hlt := rest_lt_of_expect hk
  obtain ⟨ts, -, hspan⟩ := reads_prototype.1 hp
  have hle := rest_le_of_spans hspan
  exact run_bind_congr (hblock c₂ (by omega)) fun _ _ _ => rfl

theorem run_branchWith_congr : (branchWith block).run c = (branchWith block').run c := by
  refine run_bind_congr rfl fun _ c₁ hk => run_bind_congr rfl fun e c₂ he => ?_
  have hlt := rest_lt_of_expect hk
  obtain ⟨ts, -, hspan⟩ := expression_of_reads he
  have hle := rest_le_of_spans hspan
  exact run_bind_congr (hblock c₂ (by omega)) fun _ _ _ => rfl

theorem run_caseTestWith_congr : (caseTestWith block).run c = (caseTestWith block').run c := by
  refine run_bind_congr rfl fun _ c₁ hk => run_bind_congr rfl fun _ c₂ hl =>
    run_bind_congr rfl fun x c₃ hx => run_bind_congr rfl fun _ c₄ hcolon =>
    run_bind_congr rfl fun type c₅ ht => ?_
  have hlt := rest_lt_of_expect hk
  have hlt' := rest_lt_of_expect hl
  obtain ⟨t, -, hspan⟩ := reads_identifier.1 hx
  have hle := rest_le_of_spans hspan
  have hlt'' := rest_lt_of_mark hcolon
  obtain ⟨t, -, hspan⟩ := reads_typeName.1 ht
  have hle' := rest_le_of_spans hspan
  split
  · rfl
  refine run_bind_congr rfl fun _ c₆ hequal => run_bind_congr rfl fun _ c₇ hdot =>
    run_bind_congr rfl fun case c₈ hcase => run_bind_congr rfl fun vs c₉ hvs => ?_
  have := rest_lt_of_mark hequal
  have := rest_lt_of_mark hdot
  obtain ⟨t, -, hspan⟩ := reads_identifier.1 hcase
  have := rest_le_of_spans hspan
  obtain ⟨ts, -, hspan, -⟩ := reads_optionalFormals.1 hvs
  have := rest_le_of_spans hspan
  exact run_bind_congr (hblock c₉ (by omega)) fun _ _ _ => rfl

end Bodies

structure StatementsStable (n : Nat) : Prop where
  statement {c : Cursor} : 3 * c.rest.length + 1 ≤ n →
    (statementWith (n + 1)).run c = (statementWith n).run c
  block {c : Cursor} : 3 * c.rest.length + 2 ≤ n →
    (blockWith (n + 1)).run c = (blockWith n).run c
  statements {c : Cursor} : 3 * c.rest.length + 2 ≤ n →
    (statementsWith (n + 1)).run c = (statementsWith n).run c

namespace StatementsStable

variable {c : Cursor}

theorem statement_succ (h : StatementsStable n) (hn : 3 * c.rest.length + 1 ≤ n + 1) :
    (statementWith (n + 1 + 1)).run c = (statementWith (n + 1)).run c := by
  have hblock : ∀ c₁ : Cursor, c₁.rest.length < c.rest.length →
      (blockWith (n + 1)).run c₁ = (blockWith n).run c₁ := fun c₁ hlt => h.block (by omega)
  rw [statementWith, statementWith]
  refine run_bind_congr rfl fun o c₁ ho => ?_
  obtain ⟨-, rfl⟩ := reads_peek.1 ho
  split
  · exact run_functionWith_congr hblock
  · refine run_bind_congr rfl fun b c₁ hb => ?_
    obtain ⟨-, rfl⟩ := reads_isNext.1 hb
    split
    · exact run_caseTestWith_congr hblock
    · exact run_branchWith_congr hblock
  all_goals rfl

theorem block_succ (h : StatementsStable n) (hn : 3 * c.rest.length + 2 ≤ n + 1) :
    (blockWith (n + 1 + 1)).run c = (blockWith (n + 1)).run c := by
  rw [blockWith, blockWith]
  refine run_bind_congr rfl fun _ c₁ hl => h.statements ?_
  have hlt := rest_lt_of_mark hl
  omega

theorem statements_succ (h : StatementsStable n) (hn : 3 * c.rest.length + 2 ≤ n + 1) :
    (statementsWith (n + 1 + 1)).run c = (statementsWith (n + 1)).run c := by
  rw [statementsWith, statementsWith]
  refine run_bind_congr rfl fun b c₁ hb => ?_
  cases b with
  | true => rfl
  | false =>
  obtain ⟨-, rfl⟩ := reads_take?_false.1 hb
  refine run_bind_congr rfl fun o c₁ ho => ?_
  obtain ⟨-, rfl⟩ := reads_peek.1 ho
  split
  · rfl
  refine run_bind_congr (h.statement (by omega)) fun e c₁ he => ?_
  have hlt := rest_lt_of_statement he
  exact run_bind_congr (h.statements (by omega)) fun _ _ _ => rfl

end StatementsStable

theorem statementsStable (n : Nat) : StatementsStable n := by
  induction n with
  | zero => exact ⟨fun hn => by omega, fun hn => by omega, fun hn => by omega⟩
  | succ n ih => exact ⟨ih.statement_succ, ih.block_succ, ih.statements_succ⟩

theorem programWith_succ {c : Cursor} (hn : c.rest.length ≤ n) :
    (programWith (n + 1)).run c = (programWith n).run c := by
  induction n generalizing c with
  | zero =>
    have hnil : c.rest = [] := List.eq_nil_of_length_eq_zero (by omega)
    obtain ⟨i, ts⟩ := c
    obtain rfl : ts = [] := hnil
    rfl
  | succ n ih =>
    rw [programWith, programWith]
    refine run_bind_congr rfl fun o c₁ ho => ?_
    obtain ⟨-, rfl⟩ := reads_peek.1 ho
    split
    · rfl
    refine run_bind_congr rfl fun e c₁ he => ?_
    have hlt := rest_lt_of_statement (reads_fueled.1 he)
    exact run_bind_congr (ih (by omega)) fun _ _ _ => rfl

/-! The fuel that a rule takes from its place is enough. -/

theorem settles_expressionWith : Settles expressionWith :=
  settles_of_succ fun c n hn =>
    (expressionsStable n).expression (by unfold Cursor.fuel at hn; omega)

theorem settles_argumentsWith : Settles argumentsWith :=
  settles_of_succ fun c n hn =>
    (expressionsStable n).arguments (by unfold Cursor.fuel at hn; omega)

theorem settles_formalItems : Settles formalItems :=
  settles_of_succ fun c n hn => formalItems_succ (by unfold Cursor.fuel at hn; omega)

theorem settles_enumCases (enum : String) : Settles (enumCases enum) :=
  settles_of_succ fun c n hn => enumCases_succ (by unfold Cursor.fuel at hn; omega)

theorem settles_statementWith : Settles statementWith :=
  settles_of_succ fun c n hn =>
    (statementsStable n).statement (by unfold Cursor.fuel at hn; omega)

theorem settles_programWith : Settles programWith :=
  settles_of_succ fun c n hn => programWith_succ (by unfold Cursor.fuel at hn; omega)

end SumLang.Parser
