import SumLang.Proofs.RuleSteps

/-! The rules as procedures that call each other, without a bound on how deep they do so, and what
one unfolding of the procedures keeps. A rule calls another one either behind the first token that
it takes or, before that, one of lower rank. -/
namespace SumLang

namespace Parser

open Cursor (Spans)

/-- A rule that takes its fuel from the place where it starts. -/
def fueled {α : Type} (p : Nat → Parser α) : Parser α := fun c => p c.fuel c

theorem run_fueled {α : Type} (p : Nat → Parser α) (c : Cursor) :
    (fueled p).run c = (p c.fuel).run c := rfl

/-- A procedure for each rule of the grammar and for each repeated or optional part of a rule. -/
structure Procedures where
  expression : Parser Node
  operations : Int → Node → Parser Node
  primary : Parser Node
  arguments : Parser (List Node)
  items : Parser (List Node)
  formals : Parser (List Variable)
  formalItems : Parser (List Variable)
  optionalFormals : Parser (List Variable)
  prototype : Parser Prototype
  construction : String → Parser Node
  declaration : Parser Node
  returnStatement : Parser Node
  printStatement : Parser Node
  enumDefinition : Parser Node
  enumCases : String → Parser (List EnumCase)
  enumCase : String → Parser EnumCase
  function : Parser Node
  branch : Parser Node
  caseTest : Parser Node
  statement : Parser Node
  block : Parser (List Node)
  statements : Parser (List Node)

namespace Procedures

/-- Each rule spelled out, with the rules it calls left to the given procedures. -/
def unfold (r : Procedures) : Procedures where
  expression := do
    let left ← r.primary
    r.operations 0 left
  operations least left := do
    match ← peekOperator with
    | none => return left
    | some (op, precedence) =>
      if precedence < least then return left
      else do
        advance
        let operand ← r.primary
        let right ← if ← bindsTighter precedence then r.operations (precedence + 1) operand
          else pure operand
        r.operations least (.binary left op right)
  primary := do
    match (← peek).map Token.content with
    | some (.symbol .identifier x) => do
      advance
      if ← isAt .leftParen then return .call x (← r.arguments) else return .name x
    | some (.integer n) => do
      advance
      return .integer n
    | some (.float x) => do
      advance
      return .float x
    | some (.string s) => do
      advance
      return .string s
    | some (.boolean b) => do
      advance
      return .boolean b
    | some (.symbol .leftParen _) => do
      advance
      let e ← r.expression
      mark .rightParen ")"
      return e
    | _ => fail .expression none none
  arguments := do
    mark .leftParen "("
    if ← isAt .rightParen then do
      advance
      return []
    else r.items
  items := do
    let e ← r.expression
    if ← take? .comma then return e :: (← r.items)
    else do
      mark .rightParen ")"
      return [e]
  formals := do
    mark .leftParen "("
    if ← isAt .rightParen then do
      advance
      return []
    else r.formalItems
  formalItems := do
    let v ← formal
    if ← take? .comma then return v :: (← r.formalItems)
    else do
      mark .rightParen ")"
      return [v]
  optionalFormals := do
    if ← isAt .leftParen then r.formals else return []
  prototype := do
    let name ← identifier
    let formals ← r.formals
    mark .arrow "->"
    let result ← typeName
    return ⟨name, formals, result⟩
  construction type := do
    if isBuiltinType type then
      fail .enumeration none
        (some ("'.case' construction needs an enum type, not '" ++ type ++ "'"))
    else do
      mark .period "."
      let case ← identifier
      if ← isAt .leftParen then return .construct type case (← r.arguments)
      else return .construct type case []
  declaration := do
    let m ← mutability
    let name ← identifier
    mark .colon ":"
    let type ← typeName
    let v : Variable := ⟨m, type, name⟩
    if ← take? .semicolon then return .declare v
    else do
      mark .equal "="
      let value ← if ← isAt .period then r.construction type else r.expression
      statementEnd
      return .assign v value
  returnStatement := do
    expect .returnWord .returnWord none
    let value ← r.expression
    statementEnd
    return .yield value
  printStatement := do
    expect .printWord .printWord none
    let values ← r.arguments
    statementEnd
    return .print values
  enumDefinition := do
    expect .enumWord .character (some "'enum'")
    let name ← identifier
    mark .leftBrace "\x7b"
    let cases ← r.enumCases name
    return .enumeration ⟨name, cases⟩
  enumCases enum := do
    if ← take? .rightBrace then return []
    else do
      expect .caseWord .character (some "'case' or '\x7d'")
      let c ← r.enumCase enum
      return c :: (← r.enumCases enum)
  enumCase enum := do
    let name ← identifier
    let values ← r.optionalFormals
    statementEnd
    return ⟨enum, name, values⟩
  function := do
    expect .funcWord .character (some "'func'")
    let p ← r.prototype
    return .function p (← r.block)
  branch := do
    expect .ifWord .character (some "'if'")
    let condition ← r.expression
    return .branch condition (← r.block)
  caseTest := do
    expect .ifWord .character (some "'if'")
    expect .letWord .declaration (some "'let'")
    let name ← identifier
    mark .colon ":"
    let type ← typeName
    if isBuiltinType type then
      fail .enumeration none
        (some ("'if let' tests an enum-typed variable, not '" ++ type ++ "'"))
    else do
      mark .equal "="
      mark .period "."
      let case ← identifier
      let bindings ← r.optionalFormals
      return .caseTest ⟨.immutable, type, name⟩ case bindings (← r.block)
  statement := do
    match (← peek).bind Token.symbol? with
    | some .funcWord => r.function
    | some .ifWord => if ← isNext .letWord then r.caseTest else r.branch
    | some .enumWord => r.enumDefinition
    | some .letWord | some .varWord => r.declaration
    | some .returnWord => r.returnStatement
    | some .printWord => r.printStatement
    | _ => do
      let e ← r.expression
      statementEnd
      return e
  block := do
    mark .leftBrace "\x7b"
    r.statements
  statements := do
    if ← take? .rightBrace then return []
    else if (← peek).isNone then fail .character (some "'\x7d'") none
    else do
      let s ← r.statement
      return s :: (← r.statements)

/-- The procedures unfolded `n` times; calls deeper than that are left to the given ones. -/
def unfolded (r : Procedures) : Nat → Procedures
  | 0 => r
  | n + 1 => (r.unfolded n).unfold

def rules : Procedures where
  expression := fueled expressionWith
  operations least left := fueled fun n => operationsWith n least left
  primary := fueled primaryWith
  arguments := fueled argumentsWith
  items := fueled itemsWith
  formals := Parser.formals
  formalItems := fueled Parser.formalItems
  optionalFormals := Parser.optionalFormals
  prototype := Parser.prototype
  construction := Parser.construction
  declaration := Parser.declaration
  returnStatement := Parser.returnStatement
  printStatement := Parser.printStatement
  enumDefinition := Parser.enumDefinition
  enumCases enum := fueled (Parser.enumCases enum)
  enumCase := Parser.enumCase
  function := Parser.function
  branch := Parser.branch
  caseTest := Parser.caseTest
  statement := fueled statementWith
  block := fueled blockWith
  statements := fueled statementsWith

end Procedures

section Agreement

variable {α β : Type} {L : Nat} {c : Cursor}

def Consumes (p : Parser α) : Prop :=
  ∀ ⦃c a c'⦄, Reads p c a c' → c'.rest.length < c.rest.length

/-- Two rules that do the same wherever fewer than `L` tokens are left. -/
def AgreeBelow (L : Nat) (p q : Parser α) : Prop :=
  ∀ c : Cursor, c.rest.length < L → p.run c = q.run c

theorem AgreeBelow.refl (p : Parser α) : AgreeBelow L p p := fun _ _ => rfl

theorem AgreeBelow.ite {P : Prop} [Decidable P] {p p' q q' : Parser α} (h : AgreeBelow L p p')
    (h' : AgreeBelow L q q') : AgreeBelow L (if P then p else q) (if P then p' else q') := by
  split
  · exact h
  · exact h'

/-- No rule goes back, so what comes after it has no more tokens left. -/
theorem AgreeBelow.bind {p p' : Parser α} {f f' : α → Parser β} (hp : Composed p)
    (h : AgreeBelow L p p') (hf : ∀ a, AgreeBelow L (f a) (f' a)) :
    AgreeBelow L (p >>= f) (p' >>= f') := by
  intro c hc
  refine run_bind_congr (h c hc) fun a c₁ ha => hf a c₁ ?_
  have hleaves := hp.leavesOff c
  rw [ha] at hleaves
  obtain ⟨ts, hspan⟩ := hleaves
  have hle := rest_le_of_spans hspan
  omega

theorem AgreeBelow.after {p : Parser α} {f f' : α → Parser β} (hp : Composed p)
    (hf : ∀ a, AgreeBelow L (f a) (f' a)) : AgreeBelow L (p >>= f) (p >>= f') :=
  .bind hp (.refl p) hf

/-- After a rule that takes a token, it is enough to agree on fewer tokens. -/
theorem Consumes.run_bind_congr {p p' : Parser α} {f f' : α → Parser β} (hp : Consumes p)
    (h : p.run c = p'.run c) (hf : ∀ a, AgreeBelow c.rest.length (f a) (f' a)) :
    (p >>= f).run c = (p' >>= f').run c :=
  Parser.run_bind_congr h fun a c₁ ha => hf a c₁ (hp ha)

theorem Consumes.bind {p : Parser α} {f : α → Parser β} (hp : Consumes p)
    (hf : ∀ a, Composed (f a)) : Consumes (p >>= f) := by
  intro c b c' h
  obtain ⟨a, c₁, ha, hb⟩ := reads_bind.1 h
  have hleaves := (hf a).leavesOff c₁
  rw [hb] at hleaves
  obtain ⟨ts, hspan⟩ := hleaves
  have hlt := hp ha
  have hle := rest_le_of_spans hspan
  omega

theorem consumes_expect (s : Symbol) (e : Expectation) (wanted : Option String) :
    Consumes (expect s e wanted) := fun _ _ _ h => rest_lt_of_expect h

theorem consumes_mark (s : Symbol) (text : String) : Consumes (mark s text) :=
  consumes_expect ..

theorem consumes_identifier : Consumes identifier := by
  intro c x c' h
  obtain ⟨t, -, hspan⟩ := reads_identifier.1 h
  exact rest_lt_of_spans hspan

theorem consumes_typeName : Consumes typeName := by
  intro c x c' h
  obtain ⟨t, -, hspan⟩ := reads_typeName.1 h
  exact rest_lt_of_spans hspan

theorem consumes_mutability : Consumes mutability := by
  intro c m c' h
  obtain ⟨t, -, hspan⟩ := reads_mutability.1 h
  exact rest_lt_of_spans hspan

theorem consumes_formal : Consumes formal :=
  consumes_identifier.bind fun _ => (Composed.mark ..).bind fun _ =>
    Composed.typeName.bind fun _ => .pure _

theorem consumes_primary : Consumes Parser.primary := fun _ _ _ h =>
  rest_lt_of_primary (reads_fueled.1 h)

theorem consumes_expression : Consumes Parser.expression := fun _ _ _ h =>
  rest_lt_of_expression (reads_fueled.1 h)

theorem consumes_statement : Consumes Parser.statement := fun _ _ _ h =>
  rest_lt_of_statement (reads_fueled.1 h)

end Agreement

namespace Procedures

/-- At a place, the procedures do what the rules do, as far as the rules are of rank at most `k`. A
rule calls only rules of lower rank before it has taken a token. -/
structure Agree (k : Nat) (c : Cursor) (r : Procedures) : Prop where
  expression : 2 ≤ k → rules.expression.run c = r.expression.run c
  operations (least : Int) (left : Node) : 1 ≤ k →
    (rules.operations least left).run c = (r.operations least left).run c
  primary : 1 ≤ k → rules.primary.run c = r.primary.run c
  arguments : 1 ≤ k → rules.arguments.run c = r.arguments.run c
  items : 3 ≤ k → rules.items.run c = r.items.run c
  formals : 1 ≤ k → rules.formals.run c = r.formals.run c
  formalItems : 1 ≤ k → rules.formalItems.run c = r.formalItems.run c
  optionalFormals : 2 ≤ k → rules.optionalFormals.run c = r.optionalFormals.run c
  prototype : 1 ≤ k → rules.prototype.run c = r.prototype.run c
  construction (type : String) : 1 ≤ k →
    (rules.construction type).run c = (r.construction type).run c
  declaration : 1 ≤ k → rules.declaration.run c = r.declaration.run c
  returnStatement : 1 ≤ k → rules.returnStatement.run c = r.returnStatement.run c
  printStatement : 1 ≤ k → rules.printStatement.run c = r.printStatement.run c
  enumDefinition : 1 ≤ k → rules.enumDefinition.run c = r.enumDefinition.run c
  enumCases (enum : String) : 1 ≤ k → (rules.enumCases enum).run c = (r.enumCases enum).run c
  enumCase (enum : String) : 1 ≤ k → (rules.enumCase enum).run c = (r.enumCase enum).run c
  function : 1 ≤ k → rules.function.run c = r.function.run c
  branch : 1 ≤ k → rules.branch.run c = r.branch.run c
  caseTest : 1 ≤ k → rules.caseTest.run c = r.caseTest.run c
  statement : 3 ≤ k → rules.statement.run c = r.statement.run c
  block : 2 ≤ k → rules.block.run c = r.block.run c
  statements : 4 ≤ k → rules.statements.run c = r.statements.run c

theorem composed_block : Composed rules.block := .fueled fun n => (Composed.statements n).block

section Unfolding

variable {k : Nat} {c : Cursor} {r : Procedures}

/-! Rules that start with what another rule reads. -/

theorem run_unfold_optionalFormals (h : r.Agree k c) (hk : 1 ≤ k) :
    rules.unfold.optionalFormals.run c = r.unfold.optionalFormals.run c := by
  refine run_bind_congr rfl fun b c₁ hb => ?_
  obtain ⟨-, rfl⟩ := reads_isAt.1 hb
  split
  · exact h.formals hk
  · rfl

theorem run_unfold_statement (h : r.Agree k c) (hk : 2 ≤ k) :
    rules.unfold.statement.run c = r.unfold.statement.run c := by
  refine run_bind_congr rfl fun o c₁ ho => ?_
  obtain ⟨-, rfl⟩ := reads_peek.1 ho
  split
  · exact h.function (by omega)
  · refine run_bind_congr rfl fun b c₁ hb => ?_
    obtain ⟨-, rfl⟩ := reads_isNext.1 hb
    split
    · exact h.caseTest (by omega)
    · exact h.branch (by omega)
  · exact h.enumDefinition (by omega)
  · exact h.declaration (by omega)
  · exact h.declaration (by omega)
  · exact h.returnStatement (by omega)
  · exact h.printStatement (by omega)
  · exact run_bind_congr (h.expression hk) fun _ _ _ => rfl

variable (hlater : ∀ c' : Cursor, c'.rest.length < c.rest.length → r.Agree 4 c')

include hlater

/-! What a rule calls once it has taken a token. -/

theorem below_expression : AgreeBelow c.rest.length rules.expression r.expression :=
  fun c' hc => (hlater c' hc).expression (by omega)

theorem below_operations (least : Int) (left : Node) :
    AgreeBelow c.rest.length (rules.operations least left) (r.operations least left) :=
  fun c' hc => (hlater c' hc).operations least left (by omega)

theorem below_arguments : AgreeBelow c.rest.length rules.arguments r.arguments :=
  fun c' hc => (hlater c' hc).arguments (by omega)

theorem below_formals : AgreeBelow c.rest.length rules.formals r.formals :=
  fun c' hc => (hlater c' hc).formals (by omega)

theorem below_block : AgreeBelow c.rest.length rules.block r.block :=
  fun c' hc => (hlater c' hc).block (by omega)

theorem below_optionalFormals :
    AgreeBelow c.rest.length rules.optionalFormals r.optionalFormals :=
  fun c' hc => (hlater c' hc).optionalFormals (by omega)

/-! One unfolding of the other rules. -/

theorem run_unfold_expression (h : r.Agree k c) (hk : 1 ≤ k) :
    rules.unfold.expression.run c = r.unfold.expression.run c :=
  consumes_primary.run_bind_congr (h.primary hk) fun _ => below_operations hlater _ _

theorem run_unfold_operations (least : Int) (left : Node) :
    (rules.unfold.operations least left).run c = (r.unfold.operations least left).run c := by
  refine run_bind_congr rfl fun o c₁ ho => ?_
  obtain ⟨hop, rfl⟩ := reads_peekOperator.1 ho
  cases o with
  | none => rfl
  | some o =>
  obtain ⟨op, p⟩ := o
  obtain ⟨t, -, -, hspan⟩ := Cursor.exists_of_operator? hop
  dsimp only
  split
  · rfl
  refine run_bind_congr rfl fun _ c₁ hnext => ?_
  obtain rfl := reads_advance.1 hnext
  have hprimary : AgreeBelow c.rest.length rules.primary r.primary :=
    fun c' hc => (hlater c' hc).primary (by omega)
  have hcomposed (least : Int) (left : Node) : Composed (rules.operations least left) :=
    .fueled fun n => (Composed.expressions n).operations ..
  refine AgreeBelow.bind (.fueled fun n => (Composed.expressions n).primary) hprimary
    (fun operand => .after (.bindsTighter _) fun _ => .ite ?_ (below_operations hlater _ _)) c.next
    (rest_lt_of_spans hspan)
  exact .bind (hcomposed ..) (below_operations hlater _ _) fun _ => below_operations hlater _ _

theorem run_unfold_primary : rules.unfold.primary.run c = r.unfold.primary.run c := by
  refine run_bind_congr rfl fun o c₁ ho => ?_
  obtain ⟨hhead, rfl⟩ := reads_peek.1 ho
  cases o with
  | none => rfl
  | some t =>
  have hlt := rest_lt_of_spans (Cursor.spans_singleton.2 ⟨hhead, rfl⟩)
  split
  · refine run_bind_congr rfl fun _ c₁ hnext => ?_
    obtain rfl := reads_advance.1 hnext
    refine AgreeBelow.after (.isAt _) (fun _ => .ite ?_ (.refl _)) c.next hlt
    exact .bind .arguments (below_arguments hlater) fun _ => .refl _
  · rfl
  · rfl
  · rfl
  · rfl
  · refine run_bind_congr rfl fun _ c₁ hnext => ?_
    obtain rfl := reads_advance.1 hnext
    exact AgreeBelow.bind .expression (below_expression hlater) (fun _ => .refl _) c.next hlt
  · rfl

theorem run_unfold_arguments : rules.unfold.arguments.run c = r.unfold.arguments.run c :=
  (consumes_mark ..).run_bind_congr rfl fun _ => .after (.isAt _) fun _ =>
    .ite (.refl _) fun c' hc => (hlater c' hc).items (by omega)

theorem run_unfold_items (h : r.Agree k c) (hk : 2 ≤ k) :
    rules.unfold.items.run c = r.unfold.items.run c :=
  consumes_expression.run_bind_congr (h.expression hk) fun _ => .after (.take? _) fun _ =>
    .ite (.bind (.fueled fun n => (Composed.expressions n).items)
      (fun c' hc => (hlater c' hc).items (by omega)) fun _ => .refl _) (.refl _)

theorem run_unfold_formals : rules.unfold.formals.run c = r.unfold.formals.run c :=
  (consumes_mark ..).run_bind_congr rfl fun _ => .after (.isAt _) fun _ =>
    .ite (.refl _) fun c' hc => (hlater c' hc).formalItems (by omega)

theorem run_unfold_formalItems : rules.unfold.formalItems.run c = r.unfold.formalItems.run c :=
  consumes_formal.run_bind_congr rfl fun _ => .after (.take? _) fun _ =>
    .ite (.bind (.fueled Composed.formalItems)
      (fun c' hc => (hlater c' hc).formalItems (by omega)) fun _ => .refl _) (.refl _)

theorem run_unfold_prototype : rules.unfold.prototype.run c = r.unfold.prototype.run c :=
  consumes_identifier.run_bind_congr rfl fun _ =>
    .bind .formals (below_formals hlater) fun _ => .refl _

theorem run_unfold_construction (type : String) :
    (rules.unfold.construction type).run c = (r.unfold.construction type).run c := by
  dsimp only [unfold]
  split
  · rfl
  refine (consumes_mark ..).run_bind_congr rfl fun _ => .after .identifier fun _ =>
    .after (.isAt _) fun _ => .ite ?_ (.refl _)
  exact .bind .arguments (below_arguments hlater) fun _ => .refl _

theorem run_unfold_declaration : rules.unfold.declaration.run c = r.unfold.declaration.run c := by
  refine consumes_mutability.run_bind_congr rfl fun _ => .after .identifier fun _ =>
    .after (.mark ..) fun _ => .after .typeName fun type => .after (.take? _) fun _ =>
    .ite (.refl _) (.after (.mark ..) fun _ => .after (.isAt _) fun _ => .ite ?_ ?_)
  · exact .bind (.construction type) (fun c' hc => (hlater c' hc).construction type (by omega))
      fun _ => .refl _
  · exact .bind .expression (below_expression hlater) fun _ => .refl _

theorem run_unfold_returnStatement :
    rules.unfold.returnStatement.run c = r.unfold.returnStatement.run c :=
  (consumes_expect ..).run_bind_congr rfl fun _ =>
    .bind .expression (below_expression hlater) fun _ => .refl _

theorem run_unfold_printStatement :
    rules.unfold.printStatement.run c = r.unfold.printStatement.run c :=
  (consumes_expect ..).run_bind_congr rfl fun _ =>
    .bind .arguments (below_arguments hlater) fun _ => .refl _

theorem run_unfold_enumDefinition :
    rules.unfold.enumDefinition.run c = r.unfold.enumDefinition.run c :=
  (consumes_expect ..).run_bind_congr rfl fun _ => .after .identifier fun name =>
    .after (.mark ..) fun _ => .bind (.fueled (.enumCases name))
      (fun c' hc => (hlater c' hc).enumCases name (by omega)) fun _ => .refl _

theorem run_unfold_enumCases (enum : String) :
    (rules.unfold.enumCases enum).run c = (r.unfold.enumCases enum).run c := by
  refine run_bind_congr rfl fun b c₁ hb => ?_
  cases b with
  | true => rfl
  | false =>
  obtain ⟨-, rfl⟩ := reads_take?_false.1 hb
  refine (consumes_expect ..).run_bind_congr rfl fun _ => .bind (.enumCase enum) ?_ fun _ =>
    .bind (.fueled (.enumCases enum)) ?_ fun _ => .refl _
  · exact fun c' hc => (hlater c' hc).enumCase enum (by omega)
  · exact fun c' hc => (hlater c' hc).enumCases enum (by omega)

theorem run_unfold_enumCase (enum : String) :
    (rules.unfold.enumCase enum).run c = (r.unfold.enumCase enum).run c :=
  consumes_identifier.run_bind_congr rfl fun _ =>
    .bind .optionalFormals (below_optionalFormals hlater) fun _ => .refl _

theorem run_unfold_function : rules.unfold.function.run c = r.unfold.function.run c :=
  (consumes_expect ..).run_bind_congr rfl fun _ =>
    .bind .prototype (fun c' hc => (hlater c' hc).prototype (by omega)) fun _ =>
      .bind composed_block (below_block hlater) fun _ => .refl _

theorem run_unfold_branch : rules.unfold.branch.run c = r.unfold.branch.run c :=
  (consumes_expect ..).run_bind_congr rfl fun _ =>
    .bind .expression (below_expression hlater) fun _ => .bind composed_block (below_block hlater)
      fun _ => .refl _

theorem run_unfold_caseTest : rules.unfold.caseTest.run c = r.unfold.caseTest.run c :=
  (consumes_expect ..).run_bind_congr rfl fun _ => .after (.expect ..) fun _ =>
    .after .identifier fun _ => .after (.mark ..) fun _ => .after .typeName fun _ =>
    .ite (.refl _) (.after (.mark ..) fun _ => .after (.mark ..) fun _ =>
      .after .identifier fun _ => .bind .optionalFormals (below_optionalFormals hlater) fun _ =>
      .bind composed_block (below_block hlater) fun _ => .refl _)

theorem run_unfold_block : rules.unfold.block.run c = r.unfold.block.run c :=
  (consumes_mark ..).run_bind_congr rfl fun _ c' hc => (hlater c' hc).statements (by omega)

theorem run_unfold_statements (h : r.Agree k c) (hk : 3 ≤ k) :
    rules.unfold.statements.run c = r.unfold.statements.run c := by
  refine run_bind_congr rfl fun b c₁ hb => ?_
  cases b with
  | true => rfl
  | false =>
  obtain ⟨-, rfl⟩ := reads_take?_false.1 hb
  refine run_bind_congr rfl fun o c₁ ho => ?_
  obtain ⟨-, rfl⟩ := reads_peek.1 ho
  split
  · rfl
  refine consumes_statement.run_bind_congr (h.statement hk) fun _ => ?_
  exact .bind (.fueled fun n => (Composed.statements n).statements)
    (fun c' hc => (hlater c' hc).statements (by omega)) fun _ => .refl _

end Unfolding

end Procedures

end Parser

end SumLang
