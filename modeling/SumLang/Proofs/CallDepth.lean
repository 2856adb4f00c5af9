import SumLang.Proofs.RecursiveDescent

/-! The depth of calls. The calls of a rule come to an end: unfolding the procedures four times for
each token left, and four times more, leaves none of them to be made. So every rule ends, behind
what it has read or at the token that it cannot take. -/
namespace SumLang

open Cursor (Spans)
open Grammar

namespace Parser

namespace Procedures

/-- The rules, with those for expressions and lists bounded by the given fuel. -/
def ofExpressionFuel (n : Nat) : Procedures :=
  { rules with
    expression := expressionWith n
    operations := operationsWith n
    primary := primaryWith n
    arguments := argumentsWith n
    items := itemsWith n
    formalItems := Parser.formalItems n
    enumCases := fun enum => Parser.enumCases enum n }

def ofStatementFuel (n : Nat) : Procedures :=
  { rules with
    function := functionWith (blockWith n)
    branch := branchWith (blockWith n)
    caseTest := caseTestWith (blockWith n)
    statement := statementWith n
    block := blockWith n
    statements := statementsWith n }

/-- Where more fuel than `b` never matters, the fuel of the place is as good as any. -/
theorem run_fueled_eq {α : Type} {p : Nat → Parser α} {c : Cursor} {b n : Nat}
    (h : ∀ m, b ≤ m → (p (m + 1)).run c = (p m).run c) (hb : b ≤ c.fuel) (hn : b ≤ n) :
    (fueled p).run c = (p n).run c := by
  have hleast (m : Nat) (hm : b ≤ m) : (p m).run c = (p b).run c := by
    induction hm with
    | refl => rfl
    | step hm ih => rw [h _ hm, ih]
  rw [run_fueled, hleast _ hb, hleast _ hn]

theorem agree_rules {k : Nat} {c : Cursor} : rules.Agree k c := by
  constructor <;> intros <;> rfl

theorem agree_ofExpressionFuel {k n : Nat} {c : Cursor} (hn : 4 * c.rest.length + k ≤ n) :
    (ofExpressionFuel n).Agree k c := by
  have hfuel : c.fuel = 4 * c.rest.length + 4 := rfl
  exact {
    agree_rules (k := k) (c := c) with
    expression := fun hk => run_fueled_eq (b := 4 * c.rest.length + 1)
      (fun m => (expressionsStable m).expression) (by omega) (by omega)
    operations := fun least left hk =>
      run_fueled_eq (p := fun m => operationsWith m least left) (b := 4 * c.rest.length + 1)
        (fun m => (expressionsStable m).operations) (by omega) (by omega)
    primary := fun hk => run_fueled_eq (b := 4 * c.rest.length)
      (fun m => (expressionsStable m).primary) (by omega) (by omega)
    arguments := fun hk => run_fueled_eq (b := 4 * c.rest.length + 1)
      (fun m => (expressionsStable m).arguments) (by omega) (by omega)
    items := fun hk => run_fueled_eq (b := 4 * c.rest.length + 2)
      (fun m => (expressionsStable m).items) (by omega) (by omega)
    formalItems := fun hk => run_fueled_eq (b := c.rest.length + 1)
      (fun m => formalItems_succ) (by omega) (by omega)
    enumCases := fun enum hk => run_fueled_eq (b := c.rest.length + 1)
      (fun m => enumCases_succ) (by omega) (by omega) }

theorem agree_ofStatementFuel {k n : Nat} {c : Cursor} (hn : 4 * c.rest.length + k ≤ n) :
    (ofStatementFuel n).Agree k c := by
  have hfuel : c.fuel = 4 * c.rest.length + 4 := rfl
  have hblock (c' : Cursor) (hc : c'.rest.length < c.rest.length) :
      (fueled blockWith).run c' = (blockWith n).run c' := by
    have hfuel' : c'.fuel = 4 * c'.rest.length + 4 := rfl
    exact run_fueled_eq (b := 3 * c'.rest.length + 2) (fun m => (statementsStable m).block)
      (by omega) (by omega)
  exact {
    agree_rules (k := k) (c := c) with
    function := fun _ => run_functionWith_congr hblock
    branch := fun _ => run_branchWith_congr hblock
    caseTest := fun _ => run_caseTestWith_congr hblock
    statement := fun hk => run_fueled_eq (b := 3 * c.rest.length + 1)
      (fun m => (statementsStable m).statement) (by omega) (by omega)
    block := fun hk => run_fueled_eq (b := 3 * c.rest.length + 2)
      (fun m => (statementsStable m).block) (by omega) (by omega)
    statements := fun hk => run_fueled_eq (b := 3 * c.rest.length + 2)
      (fun m => (statementsStable m).statements) (by omega) (by omega) }

/-- The rules do what they say when they are spelled out once. -/
theorem agree_unfold_rules (c : Cursor) : rules.unfold.Agree 4 c := by
  have hfuel : c.fuel = 4 * c.rest.length + 3 + 1 := rfl
  have hlater (c' : Cursor) (hc : c'.rest.length < c.rest.length) :
      (ofExpressionFuel (4 * c.rest.length + 3)).Agree 4 c' := agree_ofExpressionFuel (by omega)
  have hlater' (c' : Cursor) (hc : c'.rest.length < c.rest.length) :
      (ofStatementFuel (4 * c.rest.length + 3)).Agree 4 c' := agree_ofStatementFuel (by omega)
  have h : (ofExpressionFuel (4 * c.rest.length + 3)).Agree 3 c := agree_ofExpressionFuel (by omega)
  have h' : (ofStatementFuel (4 * c.rest.length + 3)).Agree 3 c := agree_ofStatementFuel (by omega)
  exact {
    agree_rules (k := 4) (c := c) with
    expression := fun _ => by
      rw [run_unfold_expression hlater h (by omega), rules, run_fueled, hfuel, expressionWith]
      rfl
    operations := fun least left _ => by
      rw [run_unfold_operations hlater, rules, run_fueled, hfuel, operationsWith]
      rfl
    primary := fun _ => by
      rw [run_unfold_primary hlater, rules, run_fueled, hfuel, primaryWith]
      rfl
    arguments := fun _ => by
      rw [run_unfold_arguments hlater, rules, run_fueled, hfuel, argumentsWith]
      rfl
    items := fun _ => by
      rw [run_unfold_items hlater h (by omega), rules, run_fueled, hfuel, itemsWith]
      rfl
    formalItems := fun _ => by
      rw [run_unfold_formalItems hlater, rules, run_fueled, hfuel, Parser.formalItems]
      rfl
    enumCases := fun enum _ => by
      rw [run_unfold_enumCases hlater, rules, run_fueled, hfuel, Parser.enumCases]
      rfl
    statement := fun _ => by
      rw [run_unfold_statement h' (by omega), rules, run_fueled, hfuel, statementWith]
      rfl
    block := fun _ => by
      rw [run_unfold_block hlater', rules, run_fueled, hfuel, blockWith]
      rfl
    statements := fun _ => by
      rw [run_unfold_statements hlater' h' (by omega), rules, run_fueled, hfuel, statementsWith]
      rfl }

theorem agree_zero {c : Cursor} {r : Procedures} : r.Agree 0 c := by
  constructor <;> intros <;> omega

/-- Procedures that agree with the rules on fewer tokens, and at a place up to a rank, agree there
up to the next rank once they are unfolded. -/
theorem Agree.unfold {k : Nat} {c : Cursor} {r : Procedures}
    (hlater : ∀ c' : Cursor, c'.rest.length < c.rest.length → r.Agree 4 c') (h : r.Agree k c) :
    r.unfold.Agree (k + 1) c := by
  have hrules := agree_unfold_rules c
  exact {
    expression := fun hk =>
      (hrules.expression (by omega)).trans (run_unfold_expression hlater h (by omega))
    operations := fun least left _ =>
      (hrules.operations least left (by omega)).trans (run_unfold_operations hlater least left)
    primary := fun _ => (hrules.primary (by omega)).trans (run_unfold_primary hlater)
    arguments := fun _ => (hrules.arguments (by omega)).trans (run_unfold_arguments hlater)
    items := fun hk => (hrules.items (by omega)).trans (run_unfold_items hlater h (by omega))
    formals := fun _ => (hrules.formals (by omega)).trans (run_unfold_formals hlater)
    formalItems := fun _ => (hrules.formalItems (by omega)).trans (run_unfold_formalItems hlater)
    optionalFormals := fun hk =>
      (hrules.optionalFormals (by omega)).trans (run_unfold_optionalFormals h (by omega))
    prototype := fun _ => (hrules.prototype (by omega)).trans (run_unfold_prototype hlater)
    construction := fun type _ =>
      (hrules.construction type (by omega)).trans (run_unfold_construction hlater type)
    declaration := fun _ => (hrules.declaration (by omega)).trans (run_unfold_declaration hlater)
    returnStatement := fun _ =>
      (hrules.returnStatement (by omega)).trans (run_unfold_returnStatement hlater)
    printStatement := fun _ =>
      (hrules.printStatement (by omega)).trans (run_unfold_printStatement hlater)
    enumDefinition := fun _ =>
      (hrules.enumDefinition (by omega)).trans (run_unfold_enumDefinition hlater)
    enumCases := fun enum _ =>
      (hrules.enumCases enum (by omega)).trans (run_unfold_enumCases hlater enum)
    enumCase := fun enum _ =>
      (hrules.enumCase enum (by omega)).trans (run_unfold_enumCase hlater enum)
    function := fun _ => (hrules.function (by omega)).trans (run_unfold_function hlater)
    branch := fun _ => (hrules.branch (by omega)).trans (run_unfold_branch hlater)
    caseTest := fun _ => (hrules.caseTest (by omega)).trans (run_unfold_caseTest hlater)
    statement := fun hk => (hrules.statement (by omega)).trans (run_unfold_statement h (by omega))
    block := fun _ => (hrules.block (by omega)).trans (run_unfold_block hlater)
    statements := fun hk =>
      (hrules.statements (by omega)).trans (run_unfold_statements hlater h (by omega)) }

/-- Unfolded often enough, any procedures do what the rules do. -/
theorem agree_unfolded (base : Procedures) {k n : Nat} {c : Cursor}
    (hn : 4 * c.rest.length + k ≤ n) : (base.unfolded n).Agree k c := by
  induction n generalizing k c with
  | zero =>
    obtain rfl : k = 0 := by omega
    exact agree_zero
  | succ n ih =>
    cases k with
    | zero => exact agree_zero
    | succ k => exact .unfold (fun c' hc => ih (by omega)) (ih (by omega))

/-- Reads what a rule stands for by calling a procedure. -/
def read (r : Procedures) : Rule → Parser Phrase
  | .statement => return .one (← r.statement)
  | .block => return .many (← r.block)
  | .function => return .one (← r.function)
  | .prototype => return .one (.prototype (← r.prototype))
  | .formals => return .many ((← r.formals).map .declare)
  | .type => return .one (.typeName (← typeName))
  | .declaration => return .one (← r.declaration)
  | .returnStatement => return .one (← r.returnStatement)
  | .printStatement => return .one (← r.printStatement)
  | .branch => return .one (← r.branch)
  | .caseTest => return .one (← r.caseTest)
  | .enumDefinition => return .one (← r.enumDefinition)
  | .expression => return .one (← r.expression)
  | .primary => return .one (← r.primary)
  | .arguments => return .many (← r.arguments)

theorem Agree.run_read {r : Procedures} {c : Cursor} (h : r.Agree 4 c) (rule : Rule) :
    rule.read.run c = (r.read rule).run c := by
  cases rule with
  | statement => exact run_bind_congr (h.statement (by omega)) fun _ _ _ => rfl
  | block => exact run_bind_congr (h.block (by omega)) fun _ _ _ => rfl
  | function => exact run_bind_congr (h.function (by omega)) fun _ _ _ => rfl
  | prototype => exact run_bind_congr (h.prototype (by omega)) fun _ _ _ => rfl
  | formals => exact run_bind_congr (h.formals (by omega)) fun _ _ _ => rfl
  | type => rfl
  | declaration => exact run_bind_congr (h.declaration (by omega)) fun _ _ _ => rfl
  | returnStatement => exact run_bind_congr (h.returnStatement (by omega)) fun _ _ _ => rfl
  | printStatement => exact run_bind_congr (h.printStatement (by omega)) fun _ _ _ => rfl
  | branch => exact run_bind_congr (h.branch (by omega)) fun _ _ _ => rfl
  | caseTest => exact run_bind_congr (h.caseTest (by omega)) fun _ _ _ => rfl
  | enumDefinition => exact run_bind_congr (h.enumDefinition (by omega)) fun _ _ _ => rfl
  | expression => exact run_bind_congr (h.expression (by omega)) fun _ _ _ => rfl
  | primary => exact run_bind_congr (h.primary (by omega)) fun _ _ _ => rfl
  | arguments => exact run_bind_congr (h.arguments (by omega)) fun _ _ _ => rfl

end Procedures

theorem composed_read (rule : Rule) : Composed rule.read := by
  have hblock : Composed block := Procedures.composed_block
  cases rule with
  | statement =>
    exact (Composed.fueled fun n => (Composed.statements n).statement).bind fun _ => .pure _
  | block => exact hblock.bind fun _ => .pure _
  | function => exact (Composed.functionWith hblock).bind fun _ => .pure _
  | prototype => exact Composed.prototype.bind fun _ => .pure _
  | formals => exact Composed.formals.bind fun _ => .pure _
  | type => exact Composed.typeName.bind fun _ => .pure _
  | declaration => exact Composed.declaration.bind fun _ => .pure _
  | returnStatement => exact Composed.returnStatement.bind fun _ => .pure _
  | printStatement => exact Composed.printStatement.bind fun _ => .pure _
  | branch => exact (Composed.branchWith hblock).bind fun _ => .pure _
  | caseTest => exact (Composed.caseTestWith hblock).bind fun _ => .pure _
  | enumDefinition => exact Composed.enumDefinition.bind fun _ => .pure _
  | expression => exact Composed.expression.bind fun _ => .pure _
  | primary =>
    exact (Composed.fueled fun n => (Composed.expressions n).primary).bind fun _ => .pure _
  | arguments => exact Composed.arguments.bind fun _ => .pure _

/-- A rule that reads what a grammar derives takes a token if the grammar derives nothing from no
tokens. -/
theorem consumes_of_derivation {α : Type} {p : Parser α} {R : List Token → α → Prop}
    (h : ∀ {c a c'}, Reads p c a c' → ∃ ts, R ts a ∧ Spans c ts c') (hnil : ∀ a, ¬ R [] a) :
    Consumes p := by
  intro c a c' hread
  obtain ⟨ts, hts, hspan⟩ := h hread
  cases ts with
  | nil => exact absurd hts (hnil a)
  | cons t ts => exact rest_lt_of_spans hspan

theorem not_statement_nil (e : Node) : ¬ Statement [] e := by
  intro h
  obtain ⟨t, ts, hcons, -⟩ := exists_cons_of_statement h
  cases hcons

/-- Whatever rule succeeds has taken a token. -/
theorem consumes_read (rule : Rule) : Consumes rule.read := by
  have hblock {c : Cursor} {body : List Node} {c' : Cursor} (h : Reads block c body c') :
      ∃ ts, Block ts body ∧ Spans c ts c' := (statementsSound _).block (reads_fueled.1 h)
  cases rule with
  | statement => exact consumes_statement.bind fun _ => .pure _
  | block => exact (consumes_of_derivation hblock (by rintro body ⟨⟩)).bind fun _ => .pure _
  | function =>
    have h := consumes_of_derivation (functionWith_of_reads hblock) (by rintro e ⟨⟩)
    exact h.bind fun _ => .pure _
  | prototype =>
    have h := consumes_of_derivation reads_prototype.1 (by rintro p ⟨⟩)
    exact h.bind fun _ => .pure _
  | formals =>
    have h := consumes_of_derivation reads_formals.1 (by rintro vs ⟨⟩)
    exact h.bind fun _ => .pure _
  | type => exact consumes_typeName.bind fun _ => .pure _
  | declaration =>
    have h := consumes_of_derivation declaration_of_reads (by rintro e ⟨⟩)
    exact h.bind fun _ => .pure _
  | returnStatement =>
    have h := consumes_of_derivation returnStatement_of_reads not_statement_nil
    exact h.bind fun _ => .pure _
  | printStatement =>
    have h := consumes_of_derivation printStatement_of_reads not_statement_nil
    exact h.bind fun _ => .pure _
  | branch =>
    have h := consumes_of_derivation (branchWith_of_reads hblock) (by rintro e ⟨⟩)
    exact h.bind fun _ => .pure _
  | caseTest =>
    have h := consumes_of_derivation (caseTestWith_of_reads hblock) (by rintro e ⟨⟩)
    exact h.bind fun _ => .pure _
  | enumDefinition =>
    have h := consumes_of_derivation (R := fun ts e => ∃ d, EnumRule ts d ∧ .enumeration d = e)
      (p := enumDefinition) (fun h => ?_) (by rintro e ⟨d, ⟨⟩, -⟩)
    · exact h.bind fun _ => .pure _
    · obtain ⟨ts, d, hd, hspan, he⟩ := reads_enumDefinition.1 h
      exact ⟨ts, ⟨d, hd, he⟩, hspan⟩
  | expression => exact consumes_expression.bind fun _ => .pure _
  | primary => exact consumes_primary.bind fun _ => .pure _
  | arguments =>
    have h := consumes_of_derivation arguments_of_reads (by rintro es ⟨⟩)
    exact h.bind fun _ => .pure _

end Parser

def Cursor.ofIndex (tokens : List Token) (i : Nat) : Cursor := ⟨i, tokens.drop i⟩

theorem Cursor.eq_ofIndex_of_spans {tokens ts : List Token} {i : Nat} {c : Cursor}
    (hi : i ≤ tokens.length) (h : Spans (ofIndex tokens i) ts c) :
    c = ofIndex tokens (i + ts.length) ∧ i + ts.length ≤ tokens.length := by
  obtain ⟨j, rest⟩ := c
  have hrest : tokens.drop i = ts ++ rest := h.rest
  have hindex : j = i + ts.length := h.index
  have hlength := congrArg List.length hrest
  rw [List.length_drop, List.length_append] at hlength
  refine ⟨?_, by omega⟩
  rw [ofIndex, hindex, ← List.drop_drop, hrest, List.drop_left]

namespace Parser

/-- Wherever a rule starts, it comes to an end: its calls are never nested deeper than four times
for each token left and four times more, since so many unfoldings say what it does whatever stands
for the calls below them. If it succeeds it has taken a token, and otherwise it stops at the token
that the fault names, which is missing exactly at the end of the tokens. -/
theorem read_ends (tokens : List Token) (rule : Rule) (i : Nat) (hi : i ≤ tokens.length) :
    (∀ (base : Procedures) (n : Nat), 4 * (tokens.length - i + 1) ≤ n →
      ((base.unfolded n).read rule).run (.ofIndex tokens i) =
        rule.read.run (.ofIndex tokens i)) ∧
    ((∃ phrase j, rule.read.run (.ofIndex tokens i) = .ok phrase (.ofIndex tokens j) ∧
        i < j ∧ j ≤ tokens.length) ∨
      ∃ f j, rule.read.run (.ofIndex tokens i) = .error f (.ofIndex tokens j) ∧
        i ≤ j ∧ j ≤ tokens.length ∧ f.index = j ∧ f.token = tokens[j]? ∧
        (f.token = none ↔ j = tokens.length)) := by
  have hlength : (Cursor.ofIndex tokens i).rest.length = tokens.length - i := List.length_drop
  constructor
  · intro base n hn
    have hagree : (base.unfolded n).Agree 4 (.ofIndex tokens i) :=
      Procedures.agree_unfolded base (by omega)
    exact (hagree.run_read rule).symm
  have hleaves := (composed_read rule).leavesOff (.ofIndex tokens i)
  cases hrun : rule.read.run (.ofIndex tokens i) with
  | ok phrase c =>
    rw [hrun] at hleaves
    obtain ⟨ts, hspan⟩ := hleaves
    have hconsumes := consumes_read rule hrun
    obtain ⟨rfl, hle⟩ := Cursor.eq_ofIndex_of_spans hi hspan
    have hlength' : (Cursor.ofIndex tokens (i + ts.length)).rest.length =
        tokens.length - (i + ts.length) := List.length_drop
    exact .inl ⟨phrase, i + ts.length, rfl, by omega, hle⟩
  | error f c =>
    rw [hrun] at hleaves
    obtain ⟨⟨ts, hspan⟩, htoken, hindex⟩ := hleaves
    obtain ⟨rfl, hle⟩ := Cursor.eq_ofIndex_of_spans hi hspan
    have htoken' : f.token = tokens[i + ts.length]? := by rw [htoken, ← List.head?_drop]; rfl
    refine .inr ⟨f, i + ts.length, rfl, by omega, hle, hindex, htoken', ?_⟩
    rw [htoken', List.getElem?_eq_none_iff]
    omega

/-- The list after the first token of `print(1`, which is not closed: four unfoldings for each of
its two tokens and four more are enough to find that out, and the fault stands at the end. -/
theorem read_ends_unclosed :
    let tokens : List Token := [⟨.symbol .printWord "print", "print", 0, -1⟩,
      ⟨.symbol .leftParen "(", "(", 5, -1⟩, ⟨.integer 1, "1", 6, -1⟩]
    1 ≤ tokens.length ∧ ∃ f, (∀ base : Procedures,
      ((base.unfolded 12).read .arguments).run (.ofIndex tokens 1) =
        .error f (.ofIndex tokens 3)) ∧ f.index = 3 ∧ f.token = none := by
  intro tokens
  obtain ⟨hdepth, ⟨phrase, j, hrun, -⟩ | ⟨f, j, hrun, -, -, hindex, -, hnone⟩⟩ :=
    read_ends tokens .arguments 1 (by decide)
  · cases hrun
  · obtain rfl : j = 3 := by cases hrun; rfl
    refine ⟨by decide, f, fun base => ?_, hindex, hnone.2 rfl⟩
    exact (hdepth base 12 (by decide)).trans hrun

end Parser

end SumLang
