import SumLang.Proofs.ExpressionSteps

/-! Whatever the rules for expressions read is an expression of the grammar. -/
namespace SumLang.Parser

open Cursor (Spans)
open Grammar

variable {c c' : Cursor} {n : Nat}

/-- With a given fuel, whatever the rules for expressions read is derived by the grammar. -/
structure ExpressionsSound (n : Nat) : Prop where
  expression {c e c'} : Reads (expressionWith n) c e c' → ∃ ts, Expression ts e ∧ Spans c ts c'
  operations {least left c e c'} : Reads (operationsWith n least left) c e c' →
    ∃ ts ops, Operations Primary ts ops ∧ Spans c ts c' ∧ (∀ o ∈ ops, least ≤ o.precedence) ∧
      (∀ o ∈ c'.operator?, o.2 < least) ∧
      ∀ g : Grouping, g.node = left → (∀ p ∈ g.root?, ∀ o ∈ c.operator?, o.2 ≤ p) →
        (g.extend ops).node = e
  primary {c e c'} : Reads (primaryWith n) c e c' → ∃ ts, Primary ts e ∧ Spans c ts c'
  arguments {c es c'} : Reads (argumentsWith n) c es c' → ∃ ts, Arguments ts es ∧ Spans c ts c'
  items {c es c'} : Reads (itemsWith n) c es c' →
    ∃ ts r, Separated Expression ts es ∧ Is r .rightParen ∧ Spans c (ts ++ [r]) c'

namespace ExpressionsSound

theorem expression_succ (h : ExpressionsSound n) {e : Node}
    (hr : Reads (expressionWith (n + 1)) c e c') : ∃ ts, Expression ts e ∧ Spans c ts c' := by
  obtain ⟨first, c₁, hfirst, hops⟩ := reads_expressionWith.1 hr
  obtain ⟨ts, hts, hspan⟩ := h.primary hfirst
  obtain ⟨us, ops, hus, hspan', -, -, hnode⟩ := h.operations hops
  have he := hnode (.operand first) rfl (by simp [Grouping.root?])
  have hchain : Expression (ts ++ us) ((Grouping.operand first).extend ops).node := by
    have hg : (Grouping.operand first).ByPrecedence := trivial
    refine .chain ?_ ?_ (hg.extend ops)
    · rwa [Grouping.first_extend]
    · rwa [Grouping.rest_extend]
  exact ⟨ts ++ us, he ▸ hchain, hspan.trans hspan'⟩

/-- The right operand of an operator takes the operators behind it that bind tighter. -/
theorem right_operand (h : ExpressionsSound n) {p : Int} {operand right : Node} {c₁ c₂ : Cursor}
    (hr : if c₁.operator?.any (fun o => p < o.2) = true then
        Reads (operationsWith n (p + 1) operand) c₁ right c₂
      else operand = right ∧ c₁ = c₂) :
    ∃ us inner, Operations Primary us inner ∧ Spans c₁ us c₂ ∧ (∀ o ∈ inner, p < o.precedence) ∧
      (∀ o ∈ c₂.operator?, o.2 ≤ p) ∧ ((Grouping.operand operand).extend inner).node = right := by
  split at hr
  · obtain ⟨us, inner, hus, hspan, hge, hstop, hnode⟩ := h.operations hr
    refine ⟨us, inner, hus, hspan, fun o ho => ?_, fun o ho => ?_,
      hnode _ rfl (by simp [Grouping.root?])⟩
    · exact Int.lt_of_add_one_le (hge o ho)
    · exact Int.le_of_lt_add_one (hstop o ho)
  · next hnext =>
    obtain ⟨rfl, rfl⟩ := hr
    refine ⟨[], [], .nil, .refl c₁, by simp, fun o ho => ?_, rfl⟩
    simp only [Option.any_eq_true, decide_eq_true_eq, not_exists, not_and] at hnext
    exact Int.not_lt.1 (hnext o ho)

theorem operations_succ (h : ExpressionsSound n) {least : Int} {left e : Node}
    (hr : Reads (operationsWith (n + 1) least left) c e c') :
    ∃ ts ops, Operations Primary ts ops ∧ Spans c ts c' ∧ (∀ o ∈ ops, least ≤ o.precedence) ∧
      (∀ o ∈ c'.operator?, o.2 < least) ∧
      ∀ g : Grouping, g.node = left → (∀ p ∈ g.root?, ∀ o ∈ c.operator?, o.2 ≤ p) →
        (g.extend ops).node = e := by
  rcases reads_operationsWith.1 hr with
    ⟨hlt, rfl, rfl⟩ | ⟨op, p, operand, c₁, right, c₂, hop, hp, hoperand, hright, hrest⟩
  · exact ⟨[], [], .nil, .refl c, by simp, hlt, fun g hg _ => hg⟩
  obtain ⟨t, ht, rfl, hspan⟩ := Cursor.exists_of_operator? hop
  obtain ⟨ts, hts, hspan₁⟩ := h.primary hoperand
  obtain ⟨us, inner, hus, hspan₂, hinner, hnext, rfl⟩ := h.right_operand hright
  obtain ⟨vs, outer, hvs, hspan₃, hle, hlast, hnode⟩ := h.operations hrest
  have hspans : Spans c ([t] ++ (ts ++ (us ++ vs))) c' :=
    hspan.trans (hspan₁.trans (hspan₂.trans hspan₃))
  refine ⟨t :: ts ++ (us ++ vs), ⟨op, t.precedence, operand⟩ :: (inner ++ outer),
    .cons ht hts (hus.append hvs), by simpa using hspans, fun o ho => ?_, hlast,
    fun g hg hroot => ?_⟩
  · simp only [List.mem_cons, List.mem_append] at ho
    rcases ho with rfl | ho | ho
    · exact hp
    · have := hinner o ho
      omega
    · exact hle o ho
  · have hsnoc : g.snoc ⟨op, t.precedence, operand⟩ =
        .operation g op t.precedence (.operand operand) :=
      Grouping.snoc_of_root_ge fun q hq => hroot q hq _ hop
    rw [Grouping.extend_cons, hsnoc, Grouping.extend_append,
      Grouping.extend_operation _ _ _ _ hinner]
    refine hnode _ (by rw [Grouping.node, hg]) fun q hq => ?_
    obtain rfl : t.precedence = q := by simpa [Grouping.root?] using hq
    exact hnext

theorem primary_succ (h : ExpressionsSound n) {e : Node} (hr : Reads (primaryWith (n + 1)) c e c') :
    ∃ ts, Primary ts e ∧ Spans c ts c' := by
  obtain ⟨t, hspan, hcase⟩ := reads_primaryWith.1 hr
  rcases hcase with ⟨x, hx, hcase⟩ | ⟨hl, rfl⟩ | ⟨hl, c₁, r, he, hr, hspan'⟩
  · split at hcase
    · obtain ⟨as, has, rfl⟩ := hcase
      obtain ⟨ts, hts, hspan'⟩ := h.arguments has
      exact ⟨t :: ts, .call hx hts, hspan.trans hspan'⟩
    · obtain ⟨rfl, rfl⟩ := hcase
      exact ⟨[t], .name hx, hspan⟩
  · exact ⟨[t], .literal hl, hspan⟩
  · obtain ⟨ts, hts, hspan₁⟩ := h.expression he
    exact ⟨t :: ts ++ [r], .group hl hts hr, hspan.trans (hspan₁.trans hspan')⟩

theorem arguments_succ (h : ExpressionsSound n) {es : List Node}
    (hr : Reads (argumentsWith (n + 1)) c es c') : ∃ ts, Arguments ts es ∧ Spans c ts c' := by
  rw [argumentsWith] at hr
  exact parenthesized_of_reads h.items hr

theorem items_succ (h : ExpressionsSound n) {es : List Node}
    (hr : Reads (itemsWith (n + 1)) c es c') :
    ∃ ts r, Separated Expression ts es ∧ Is r .rightParen ∧ Spans c (ts ++ [r]) c' := by
  rw [itemsWith] at hr
  exact separated_of_reads h.expression h.items hr

end ExpressionsSound

/-- Whatever the rules for expressions read is derived by the grammar. -/
theorem expressionsSound (n : Nat) : ExpressionsSound n := by
  induction n with
  | zero =>
    exact ⟨fun h => absurd h not_reads_fail, fun h => absurd h not_reads_fail,
      fun h => absurd h not_reads_fail, fun h => absurd h not_reads_fail,
      fun h => absurd h not_reads_fail⟩
  | succ n ih =>
    exact ⟨ih.expression_succ, ih.operations_succ, ih.primary_succ, ih.arguments_succ,
      ih.items_succ⟩

theorem expression_of_reads {e : Node} (h : Reads expression c e c') :
    ∃ ts, Expression ts e ∧ Spans c ts c' :=
  (expressionsSound c.fuel).expression (reads_fueled.1 h)

theorem arguments_of_reads {es : List Node} (h : Reads arguments c es c') :
    ∃ ts, Arguments ts es ∧ Spans c ts c' :=
  (expressionsSound c.fuel).arguments (reads_fueled.1 h)

end SumLang.Parser
