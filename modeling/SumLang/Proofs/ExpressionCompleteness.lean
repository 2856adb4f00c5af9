import SumLang.Proofs.ExpressionSteps

/-! The rules for expressions read every expression of the grammar. -/
namespace SumLang.Parser

open Cursor (Spans spans_singleton)
open Grammar

variable {c c' : Cursor} {n : Nat}

/-- No operator of the tokens has a negative precedence. -/
def NonnegPrecedence (ts : List Token) : Prop :=
  ∀ t ∈ ts, t.isOperator = true → 0 ≤ t.precedence

theorem NonnegPrecedence.mono {ts us : List Token} (h : NonnegPrecedence ts) (hu : us ⊆ ts) :
    NonnegPrecedence us :=
  fun t ht => h t (hu ht)

theorem symbol?_of_startsOperand {t : Token} (h : startsOperand t = true) :
    t.symbol? = none ∨ t.symbol? = some .identifier ∨ t.symbol? = some .leftParen := by
  unfold startsOperand at h
  unfold Token.symbol?
  split at h <;> simp_all

theorem startsOperand_isSymbol {t : Token} {s : Symbol} (h : startsOperand t = true)
    (hi : s ≠ .identifier) (hl : s ≠ .leftParen) : t.isSymbol s = false := by
  rcases symbol?_of_startsOperand h with ht | ht | ht
  · simp [Token.isSymbol, ht]
  · simp [Token.isSymbol, ht, hi.symm]
  · simp [Token.isSymbol, ht, hl.symm]

theorem exists_cons_of_primary {ts : List Token} {e : Node} (h : Primary ts e) :
    ∃ t us, ts = t :: us ∧ startsOperand t = true := by
  cases h with
  | name hx => exact ⟨_, _, rfl, by simp [startsOperand, show Token.content _ = _ from hx]⟩
  | call hx => exact ⟨_, _, rfl, by simp [startsOperand, show Token.content _ = _ from hx]⟩
  | literal hl => cases hl <;> exact ⟨_, _, rfl, by simp [startsOperand, *]⟩
  | group hl =>
    obtain ⟨v, hv⟩ := Token.exists_content_of_isSymbol hl
    exact ⟨_, _, rfl, by simp [startsOperand, hv]⟩

theorem exists_cons_of_expression {ts : List Token} {e : Node} (h : Expression ts e) :
    ∃ t us, ts = t :: us ∧ startsOperand t = true := by
  cases h with
  | chain hp =>
    obtain ⟨t, us, rfl, ht⟩ := exists_cons_of_primary hp
    exact ⟨t, _, rfl, ht⟩

theorem exists_cons_of_separated {ts : List Token} {es : List Node}
    (h : Separated Expression ts es) : ∃ t us, ts = t :: us ∧ startsOperand t = true := by
  cases h with
  | last he => exact exists_cons_of_expression he
  | cons he =>
    obtain ⟨t, us, rfl, ht⟩ := exists_cons_of_expression he
    exact ⟨t, _, rfl, ht⟩

theorem not_sees_leftParen {ts : List Token} {ops : List Operation}
    (h : Operations Primary ts ops) (hspan : Spans c ts c') (hc : c'.sees .leftParen = false) :
    c.sees .leftParen = false := by
  cases h with
  | nil => rwa [← hspan.eq_of_nil]
  | cons ht =>
    rw [hspan.sees_eq]
    exact Token.isSymbol_eq_false (Token.isSymbol_of_content ht) (by decide)

/-- With a given fuel, the rules for expressions read all expressions of the grammar that are short
enough. An expression is followed neither by an operator nor by an opening parenthesis. -/
structure ExpressionsComplete (n : Nat) : Prop where
  expression {ts e c c'} : Expression ts e → NonnegPrecedence ts → Spans c ts c' →
    c'.EndsExpression → 4 * ts.length + 1 ≤ n → Reads (expressionWith n) c e c'
  operations {ts ops c c'} (least : Int) (g : Grouping) : Operations Primary ts ops →
    NonnegPrecedence ts → Spans c ts c' → c'.EndsExpression → 4 * ts.length + 1 ≤ n →
    (∀ p ∈ g.root?, ∀ o ∈ c.operator?, o.2 ≤ p) →
    ∃ us inner vs outer c₁, ts = us ++ vs ∧ ops = inner ++ outer ∧ Operations Primary vs outer ∧
      Spans c us c₁ ∧ Spans c₁ vs c' ∧ (∀ o ∈ inner, least ≤ o.precedence) ∧
      (∀ o ∈ c₁.operator?, o.2 < least) ∧
      Reads (operationsWith n least g.node) c (g.extend inner).node c₁
  primary {ts e c c'} : Primary ts e → NonnegPrecedence ts → Spans c ts c' →
    c'.sees .leftParen = false → 4 * ts.length ≤ n → Reads (primaryWith n) c e c'
  arguments {ts es c c'} : Arguments ts es → NonnegPrecedence ts → Spans c ts c' →
    4 * ts.length ≤ n → Reads (argumentsWith n) c es c'
  items {ts r es c c'} : Separated Expression ts es → Is r .rightParen → NonnegPrecedence ts →
    Spans c (ts ++ [r]) c' → 4 * (ts.length + 1) ≤ n → Reads (itemsWith n) c es c'

namespace ExpressionsComplete

theorem primary_succ (h : ExpressionsComplete n) {ts : List Token} {e : Node} (he : Primary ts e)
    (hn : NonnegPrecedence ts) (hspan : Spans c ts c') (hlast : c'.sees .leftParen = false)
    (hfuel : 4 * ts.length ≤ n + 1) : Reads (primaryWith (n + 1)) c e c' := by
  cases he with
  | @name t x hx =>
    obtain rfl := (spans_singleton.1 hspan).2
    refine reads_primaryWith.2 ⟨t, hspan, .inl ⟨x, hx, ?_⟩⟩
    simp [hlast]
  | @call t x us as hx has =>
    obtain ⟨c₁, ht, hspan'⟩ := hspan.uncons
    obtain rfl := (spans_singleton.1 ht).2
    simp only [List.length_cons] at hfuel
    have hread := h.arguments has (hn.mono (by simp)) hspan' (by omega)
    have hsees := sees_leftParen_of_parenthesized has hspan'
    refine reads_primaryWith.2 ⟨t, ht, .inl ⟨x, hx, ?_⟩⟩
    rw [if_pos hsees]
    exact ⟨as, hread, rfl⟩
  | @literal t e hl =>
    obtain rfl := (spans_singleton.1 hspan).2
    exact reads_primaryWith.2 ⟨t, hspan, .inr (.inl ⟨hl, rfl⟩)⟩
  | @group l us r e hl he hr =>
    obtain ⟨c₁, ht, hspan'⟩ := hspan.uncons
    obtain rfl := (spans_singleton.1 ht).2
    obtain ⟨c₂, hspan₁, hspan₂⟩ := hspan'.split
    simp only [List.length_cons, List.length_append, List.length_nil] at hfuel
    have hread : Reads (expressionWith n) c.next e c₂ :=
      h.expression he (hn.mono (by simp)) hspan₁
        (hspan₂.endsExpression hr (by decide) (by decide)) (by omega)
    exact reads_primaryWith.2 ⟨l, ht, .inr (.inr ⟨hl, c₂, r, hread, hr, hspan₂⟩)⟩

theorem arguments_succ (h : ExpressionsComplete n) {ts : List Token} {es : List Node}
    (hes : Arguments ts es) (hn : NonnegPrecedence ts) (hspan : Spans c ts c')
    (hfuel : 4 * ts.length ≤ n + 1) : Reads (argumentsWith (n + 1)) c es c' := by
  rw [argumentsWith]
  refine reads_of_parenthesized hes hspan (fun hus => ?_) fun hus hr hsub hlen hspan' => ?_
  · obtain ⟨t, vs, rfl, ht⟩ := exists_cons_of_separated hus
    exact ⟨t, vs, rfl, startsOperand_isSymbol ht (by decide) (by decide)⟩
  · exact h.items hus hr (hn.mono hsub) hspan' (by omega)

theorem items_succ (h : ExpressionsComplete n) {ts : List Token} {r : Token} {es : List Node}
    (hes : Separated Expression ts es) (hr : Is r .rightParen) (hn : NonnegPrecedence ts)
    (hspan : Spans c (ts ++ [r]) c') (hfuel : 4 * (ts.length + 1) ≤ n + 1) :
    Reads (itemsWith (n + 1)) c es c' := by
  rw [itemsWith]
  refine reads_of_separated hes hr hspan (fun he hsub hlen hspan' hend => ?_)
    fun hus hsub hlen hspan' => ?_
  · exact h.expression he (hn.mono hsub) hspan' hend (by omega)
  · exact h.items hus hr (hn.mono hsub) hspan' (by omega)

/-- The operators that bind tighter than the one with precedence `p` extend its right operand. -/
theorem right_operand (h : ExpressionsComplete n) {ts : List Token} {ops : List Operation} (p : Int)
    (operand : Node) (hops : Operations Primary ts ops) (hn : NonnegPrecedence ts)
    (hspan : Spans c ts c') (hend : c'.EndsExpression) (hfuel : 4 * ts.length + 1 ≤ n) :
    ∃ us inner vs outer c₁, ts = us ++ vs ∧ ops = inner ++ outer ∧ Operations Primary vs outer ∧
      Spans c us c₁ ∧ Spans c₁ vs c' ∧ (∀ o ∈ inner, p < o.precedence) ∧
      (∀ o ∈ c₁.operator?, o.2 ≤ p) ∧
      if c.operator?.any (fun o => p < o.2) = true then
        Reads (operationsWith n (p + 1) operand) c ((Grouping.operand operand).extend inner).node c₁
      else operand = ((Grouping.operand operand).extend inner).node ∧ c = c₁ := by
  by_cases hany : c.operator?.any (fun o => p < o.2) = true
  · obtain ⟨us, inner, vs, outer, c₁, hts, hops', hvs, hspan₁, hspan₂, hge, hlt, hr⟩ :=
      h.operations (p + 1) (.operand operand) hops hn hspan hend hfuel (by simp [Grouping.root?])
    refine ⟨us, inner, vs, outer, c₁, hts, hops', hvs, hspan₁, hspan₂, fun o ho => ?_,
      fun o ho => ?_, by rwa [if_pos hany]⟩
    · exact Int.lt_of_add_one_le (hge o ho)
    · exact Int.le_of_lt_add_one (hlt o ho)
  · refine ⟨[], [], ts, ops, c, rfl, rfl, hops, .refl c, hspan, by simp, fun o ho => ?_,
      by simp [hany, Grouping.node]⟩
    simp only [Option.any_eq_true, decide_eq_true_eq, not_exists, not_and] at hany
    exact Int.not_lt.1 (hany o ho)

theorem operations_succ (h : ExpressionsComplete n) {ts : List Token} {ops : List Operation}
    (least : Int) (g : Grouping) (hops : Operations Primary ts ops) (hn : NonnegPrecedence ts)
    (hspan : Spans c ts c') (hend : c'.EndsExpression) (hfuel : 4 * ts.length + 1 ≤ n + 1)
    (hroot : ∀ p ∈ g.root?, ∀ o ∈ c.operator?, o.2 ≤ p) :
    ∃ us inner vs outer c₁, ts = us ++ vs ∧ ops = inner ++ outer ∧ Operations Primary vs outer ∧
      Spans c us c₁ ∧ Spans c₁ vs c' ∧ (∀ o ∈ inner, least ≤ o.precedence) ∧
      (∀ o ∈ c₁.operator?, o.2 < least) ∧
      Reads (operationsWith (n + 1) least g.node) c (g.extend inner).node c₁ := by
  cases hops with
  | nil =>
    obtain rfl := hspan.eq_of_nil
    have hlt : ∀ o ∈ c'.operator?, o.2 < least := by simp [hend.1]
    exact ⟨[], [], [], [], c', rfl, rfl, .nil, .refl c', .refl c', by simp, hlt,
      reads_operationsWith.2 (.inl ⟨hlt, rfl, rfl⟩)⟩
  | @cons t op us operand vs ops ht hoperand hops =>
    obtain ⟨c₁, hspan₁, hspan'⟩ := hspan.uncons
    have hc := hspan.operator?_eq ht
    by_cases hp : t.precedence < least
    · have hlt : ∀ o ∈ c.operator?, o.2 < least := by simpa [hc] using hp
      exact ⟨[], [], t :: us ++ vs, _, c, rfl, rfl, .cons ht hoperand hops, .refl c, hspan, by simp,
        hlt, reads_operationsWith.2 (.inl ⟨hlt, rfl, rfl⟩)⟩
    obtain rfl := (spans_singleton.1 hspan₁).2
    obtain ⟨c₂, hspan₂, hspan₃⟩ := hspan'.split
    simp only [List.length_cons, List.length_append] at hfuel
    have hread : Reads (primaryWith n) c.next operand c₂ :=
      h.primary hoperand (hn.mono fun u hu => by simp [hu]) hspan₂
        (not_sees_leftParen hops hspan₃ hend.2) (by omega)
    have hnvs : NonnegPrecedence vs := hn.mono fun u hu => by simp [hu]
    obtain ⟨us₂, inner, vs₂, outer, c₃, rfl, rfl, hvs₂, hspan₄, hspan₅, hinner, hnext, hright⟩ :=
      h.right_operand t.precedence operand hops hnvs hspan₃ hend (by omega)
    simp only [List.length_append] at hfuel
    obtain ⟨us₃, inner', vs₃, outer', c₄, rfl, rfl, hvs₃, hspan₆, hspan₇, hge, hlt, hrest⟩ :=
      h.operations least
        (.operation g op t.precedence ((Grouping.operand operand).extend inner)) hvs₂
        (hnvs.mono (by simp)) hspan₅ hend (by omega) fun q hq => by
          obtain rfl : t.precedence = q := by simpa [Grouping.root?] using hq
          exact hnext
    have hgroup : g.extend (⟨op, t.precedence, operand⟩ :: inner ++ inner') =
        (Grouping.operation g op t.precedence
          ((Grouping.operand operand).extend inner)).extend inner' := by
      rw [List.cons_append, Grouping.extend_cons,
        Grouping.snoc_of_root_ge fun q hq => hroot q hq _ hc, Grouping.extend_append,
        Grouping.extend_operation _ _ _ _ hinner]
    refine ⟨t :: us ++ us₂ ++ us₃, ⟨op, t.precedence, operand⟩ :: inner ++ inner', vs₃, outer', c₄,
      by simp, by simp, hvs₃, ?_, hspan₇, fun o ho => ?_, hlt, ?_⟩
    · simpa using hspan₁.trans (hspan₂.trans (hspan₄.trans hspan₆))
    · simp only [List.cons_append, List.mem_cons, List.mem_append] at ho
      rcases ho with rfl | ho | ho
      · exact Int.not_lt.1 hp
      · have := hinner o ho
        omega
      · exact hge o ho
    · rw [hgroup]
      exact reads_operationsWith.2 (.inr ⟨op, t.precedence, operand, c₂, _, c₃, hc,
        Int.not_lt.1 hp, hread, hright, hrest⟩)

theorem expression_succ (h : ExpressionsComplete n) {ts : List Token} {e : Node}
    (he : Expression ts e) (hn : NonnegPrecedence ts) (hspan : Spans c ts c')
    (hend : c'.EndsExpression) (hfuel : 4 * ts.length + 1 ≤ n + 1) :
    Reads (expressionWith (n + 1)) c e c' := by
  cases he with
  | @chain us vs g hfirst hops hg =>
    obtain ⟨c₁, hspan₁, hspan₂⟩ := hspan.split
    simp only [List.length_append] at hfuel
    obtain ⟨t, us', rfl, ht⟩ := exists_cons_of_primary hfirst
    simp only [List.length_cons] at hfuel
    have hnvs : NonnegPrecedence vs := hn.mono (by simp)
    have hread := h.primary hfirst (hn.mono (by simp)) hspan₁
      (not_sees_leftParen hops hspan₂ hend.2) (by simp only [List.length_cons]; omega)
    obtain ⟨us₂, inner, vs₂, outer, c₂, rfl, hrest, hvs₂, hspan₃, hspan₄, -, hlt, hreads⟩ :=
      h.operations 0 (.operand g.first) hops hnvs hspan₂ hend (by omega) (by simp [Grouping.root?])
    -- No precedence is negative, so the chain is read to its end.
    cases hvs₂ with
    | nil =>
      obtain rfl := hspan₄.eq_of_nil
      rw [List.append_nil] at hrest
      rw [← hrest, hg.extend_first] at hreads
      exact reads_expressionWith.2 ⟨g.first, c₁, hread, hreads⟩
    | @cons t op _ _ _ _ hop' =>
      have hneg := hlt _ (hspan₄.operator?_eq hop')
      have hpos := hnvs t (by simp) (Token.isSymbol_of_content hop')
      simp only at hneg
      omega

end ExpressionsComplete

/-- The rules for expressions read every expression of the grammar. -/
theorem expressionsComplete (n : Nat) : ExpressionsComplete n := by
  induction n with
  | zero =>
    refine ⟨fun _ _ _ _ hfuel => ?_, fun _ _ _ _ _ _ hfuel => ?_, fun he _ _ _ hfuel => ?_,
      fun hes _ _ hfuel => ?_, fun _ _ _ _ hfuel => ?_⟩
    · omega
    · omega
    · obtain ⟨t, us, rfl, -⟩ := exists_cons_of_primary he
      simp at hfuel
    · cases hes <;> simp at hfuel
    · omega
  | succ n ih =>
    exact ⟨ih.expression_succ, ih.operations_succ, ih.primary_succ, ih.arguments_succ,
      ih.items_succ⟩

theorem reads_expression {ts : List Token} {e : Node} (h : Expression ts e)
    (hn : NonnegPrecedence ts) (hspan : Spans c ts c') (hend : c'.EndsExpression) :
    Reads expression c e c' := by
  have hlen := hspan.length_le
  refine reads_fueled.2 ((expressionsComplete c.fuel).expression h hn hspan hend ?_)
  unfold Cursor.fuel
  omega

theorem reads_arguments {ts : List Token} {es : List Node} (h : Arguments ts es)
    (hn : NonnegPrecedence ts) (hspan : Spans c ts c') : Reads arguments c es c' := by
  have hlen := hspan.length_le
  refine reads_fueled.2 ((expressionsComplete c.fuel).arguments h hn hspan ?_)
  unfold Cursor.fuel
  omega

end SumLang.Parser
