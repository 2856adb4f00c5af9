import SumLang.Proofs.ExpressionCompleteness

/-! A chain of operators is read to its end, and grouped in the one way that its precedences ask
for, whatever they are. -/
namespace SumLang

/-- What stands in a chain: operands, and operators with their precedences. -/
inductive ChainItem where
  | operand (n : Node)
  | operator (op : String) (precedence : Int)

def Operation.items (o : Operation) : List ChainItem :=
  [.operator o.operator o.precedence, .operand o.operand]

theorem flatMap_items_inj {os os' : List Operation}
    (h : os.flatMap Operation.items = os'.flatMap Operation.items) : os = os' := by
  induction os generalizing os' with
  | nil =>
    cases os' with
    | nil => rfl
    | cons o' os' => simp [Operation.items] at h
  | cons o os ih =>
    cases os' with
    | nil => simp [Operation.items] at h
    | cons o' os' =>
      obtain ⟨op, p, n⟩ := o
      obtain ⟨op', p', n'⟩ := o'
      simp only [List.flatMap_cons, Operation.items, List.cons_append, List.nil_append,
        List.cons.injEq, ChainItem.operator.injEq, ChainItem.operand.injEq] at h
      obtain ⟨⟨rfl, rfl⟩, rfl, hrest⟩ := h
      rw [ih hrest]

namespace Grouping

/-- The items of a grouped chain from left to right. An operand counts as one item, also where it is
an operation in parentheses. -/
def inOrder : Grouping → List ChainItem
  | operand n => [.operand n]
  | operation l op p r => l.inOrder ++ .operator op p :: r.inOrder

theorem inOrder_eq (g : Grouping) :
    g.inOrder = .operand g.first :: g.rest.flatMap Operation.items := by
  induction g with
  | operand n => rfl
  | operation l op p r ihl ihr => simp [inOrder, ihl, ihr, first, rest, Operation.items]

/-- A chain has exactly one grouping by precedence. -/
theorem inOrder_and_byPrecedence_iff {g : Grouping} {a : Node} {ops : List Operation} :
    g.inOrder = .operand a :: ops.flatMap Operation.items ∧ g.ByPrecedence ↔
      g = (operand a).extend ops := by
  constructor
  · rintro ⟨hitems, hg⟩
    rw [inOrder_eq, List.cons.injEq, ChainItem.operand.injEq] at hitems
    obtain ⟨hfirst, hrest⟩ := hitems
    rw [← hfirst, ← flatMap_items_inj hrest, hg.extend_first]
  · rintro rfl
    have hoperand : (operand a).ByPrecedence := trivial
    refine ⟨?_, hoperand.extend ops⟩
    rw [inOrder_eq, first_extend, rest_extend]
    rfl

end Grouping

namespace Grammar

/-- Chain = Primary (OPERATOR Primary)*, with the items that it consists of. -/
inductive OperatorChain : List Token → List ChainItem → Prop where
  | last {ts n} : Primary ts n → OperatorChain ts [.operand n]
  | cons {ts n t op us items} : Primary ts n → t.content = .symbol .operator op →
      OperatorChain us items →
      OperatorChain (ts ++ t :: us) (.operand n :: .operator op t.precedence :: items)

/-- A chain is an operand, and the operations after it. -/
theorem OperatorChain.exists_operations {ts : List Token} {items : List ChainItem}
    (h : OperatorChain ts items) :
    ∃ us vs a ops, ts = us ++ vs ∧ items = .operand a :: ops.flatMap Operation.items ∧
      Primary us a ∧ Operations Primary vs ops := by
  induction h with
  | @last ts n hn => exact ⟨ts, [], n, [], by simp, rfl, hn, .nil⟩
  | @cons ts n t op us items hn ht _ ih =>
    obtain ⟨us, vs, a, ops, rfl, rfl, ha, hops⟩ := ih
    exact ⟨ts, t :: us ++ vs, n, ⟨op, t.precedence, a⟩ :: ops, by simp, rfl, hn, .cons ht ha hops⟩

end Grammar

open Grammar

/-- An expression is read up to the end of its chain. The tree that it denotes groups the chain by
precedence, and no other grouping does. -/
theorem expression_groups_chain {ts : List Token} {items : List ChainItem} {c c' : Cursor}
    (h : OperatorChain ts items) (hn : Parser.NonnegPrecedence ts) (hspan : c.Spans ts c')
    (hend : c'.EndsExpression) :
    ∃ g : Grouping, (∀ g' : Grouping, g'.inOrder = items ∧ g'.ByPrecedence ↔ g' = g) ∧
      Parser.expression c = .ok g.node c' := by
  obtain ⟨us, vs, a, ops, rfl, rfl, ha, hops⟩ := h.exists_operations
  refine ⟨(Grouping.operand a).extend ops, fun g' => Grouping.inOrder_and_byPrecedence_iff, ?_⟩
  have hoperand : (Grouping.operand a).ByPrecedence := trivial
  have hexpression : Expression (us ++ vs) ((Grouping.operand a).extend ops).node := by
    refine .chain ?_ ?_ (hoperand.extend ops)
    · rwa [Grouping.first_extend]
    · rwa [Grouping.rest_extend]
  exact Parser.reads_expression hexpression hn hspan hend

def Token.ofName (x : String) : Token := ⟨.symbol .identifier x, x, 0, -1⟩

def Token.ofOperator (op : String) (p : Int) : Token := ⟨.symbol .operator op, op, 0, p⟩

/-- The chain `a - b ^ c * (d - e) - f`, where `^` binds tighter than `*`, and loosest of all is the
operator in parentheses. -/
theorem expression_groups_three_levels :
    Parser.expression ⟨0, [.ofName "a", .ofOperator "-" 3, .ofName "b", .ofOperator "^" 7,
      .ofName "c", .ofOperator "*" 5, ⟨.symbol .leftParen "(", "(", 0, -1⟩, .ofName "d",
      .ofOperator "-" 0, .ofName "e", ⟨.symbol .rightParen ")", ")", 0, -1⟩, .ofOperator "-" 3,
      .ofName "f"]⟩ =
    .ok (.binary (.binary (.name "a") "-" (.binary (.binary (.name "b") "^" (.name "c")) "*"
      (.binary (.name "d") "-" (.name "e")))) "-" (.name "f")) ⟨13, []⟩ := by
  have hname (x : String) : Primary [.ofName x] (.name x) := .name rfl
  have hinner : Expression ([.ofName "d"] ++ [.ofOperator "-" 0, .ofName "e"])
      (.binary (.name "d") "-" (.name "e")) :=
    .chain (g := .operation (.operand (.name "d")) "-" 0 (.operand (.name "e"))) (hname "d")
      (.cons rfl (hname "e") .nil) (by simp [Grouping.ByPrecedence, Grouping.root?])
  have hgroup := Primary.group (l := ⟨.symbol .leftParen "(", "(", 0, -1⟩)
    (r := ⟨.symbol .rightParen ")", ")", 0, -1⟩) rfl hinner rfl
  have hchain := OperatorChain.cons (t := .ofOperator "-" 3) (hname "a") rfl
    (.cons (t := .ofOperator "^" 7) (hname "b") rfl (.cons (t := .ofOperator "*" 5) (hname "c") rfl
      (.cons (t := .ofOperator "-" 3) hgroup rfl (.last (hname "f")))))
  obtain ⟨g, hg, hread⟩ := expression_groups_chain hchain
    (by unfold Parser.NonnegPrecedence; decide)
    (⟨rfl, rfl⟩ : Cursor.Spans ⟨0, _⟩ _ ⟨13, []⟩) ⟨rfl, rfl⟩
  obtain rfl := (hg (.operation (.operation (.operand (.name "a")) "-" 3
    (.operation (.operation (.operand (.name "b")) "^" 7 (.operand (.name "c"))) "*" 5
      (.operand (.binary (.name "d") "-" (.name "e"))))) "-" 3 (.operand (.name "f")))).1
    ⟨rfl, by simp [Grouping.ByPrecedence, Grouping.root?]⟩
  exact hread

end SumLang
