import SumLang.Proofs.ListRules

/-! One step of each rule for expressions. -/
namespace SumLang.Parser

open Cursor (Spans spans_singleton)
open Grammar

variable {c c' : Cursor} {n : Nat}

theorem reads_expressionWith {e : Node} :
    Reads (expressionWith (n + 1)) c e c' ↔
      ∃ first c₁, Reads (primaryWith n) c first c₁ ∧
        Reads (operationsWith n 0 first) c₁ e c' := by
  rw [expressionWith, reads_bind]

/-- One step along a chain: it ends, or an operator takes an operand, which the tighter operators
after it extend first. -/
theorem reads_operationsWith {least : Int} {left e : Node} :
    Reads (operationsWith (n + 1) least left) c e c' ↔
      ((∀ o ∈ c.operator?, o.2 < least) ∧ left = e ∧ c = c') ∨
      ∃ op p operand c₁ right c₂, c.operator? = some (op, p) ∧ least ≤ p ∧
        Reads (primaryWith n) c.next operand c₁ ∧
        (if c₁.operator?.any (fun o => p < o.2) = true then
          Reads (operationsWith n (p + 1) operand) c₁ right c₂
          else operand = right ∧ c₁ = c₂) ∧
        Reads (operationsWith n least (.binary left op right)) c₂ e c' := by
  rw [operationsWith, reads_peekOperator_bind]
  cases ho : c.operator? with
  | none => simp
  | some o =>
    obtain ⟨op, p⟩ := o
    by_cases hp : p < least
    · have hn : ¬ least ≤ p := by omega
      simp [hp, hn]
    · have hn : least ≤ p := by omega
      simp only [if_neg hp, reads_advance_bind]
      rw [reads_bind]
      constructor
      · rintro ⟨operand, c₁, hprim, h⟩
        rw [reads_bindsTighter_bind] at h
        split at h
        · next ht =>
          obtain ⟨right, c₂, hright, h⟩ := reads_bind.1 h
          exact .inr ⟨op, p, operand, c₁, right, c₂, rfl, hn, hprim, by rwa [if_pos ht], h⟩
        · next ht =>
          rw [pure_bind] at h
          exact .inr ⟨op, p, operand, c₁, operand, c₁, rfl, hn, hprim, by simp [ht], h⟩
      · rintro (⟨hlt, -, -⟩ | ⟨op', p', operand, c₁, right, c₂, ho', -, hprim, hright, h⟩)
        · exact absurd (hlt _ rfl) hp
        · obtain ⟨rfl, rfl⟩ : op = op' ∧ p = p' := by simpa using ho'
          refine ⟨operand, c₁, hprim, ?_⟩
          rw [reads_bindsTighter_bind]
          split at hright
          · next ht => rwa [if_pos ht, hright.bind_iff]
          · next ht =>
            obtain ⟨rfl, rfl⟩ := hright
            rwa [if_neg ht, pure_bind]

theorem reads_primaryWith {e : Node} :
    Reads (primaryWith (n + 1)) c e c' ↔ ∃ t, Spans c [t] c.next ∧
      ((∃ x, IsName t x ∧
        if c.next.sees .leftParen = true then
          ∃ as, Reads (argumentsWith n) c.next as c' ∧ .call x as = e
        else .name x = e ∧ c.next = c') ∨
      (IsLiteral t e ∧ c.next = c') ∨
      (Is t .leftParen ∧ ∃ c₁ r, Reads (expressionWith n) c.next e c₁ ∧ Is r .rightParen ∧
        Spans c₁ [r] c')) := by
  rw [primaryWith, reads_peek_bind]
  constructor
  · intro h
    cases hc : c.rest.head? with
    | none =>
      rw [hc] at h
      exact absurd h not_reads_fail
    | some t =>
      refine ⟨t, spans_singleton.2 ⟨hc, rfl⟩, ?_⟩
      simp only [hc, Option.map_some] at h
      split at h
      · next x hx =>
        refine .inl ⟨x, by simpa using hx, ?_⟩
        rw [reads_advance_bind, reads_isAt_bind] at h
        split at h
        · next hs =>
          obtain ⟨as, c₁, has, h⟩ := reads_bind.1 h
          obtain ⟨rfl, rfl⟩ := reads_pure.1 h
          rw [if_pos hs]
          exact ⟨as, has, rfl⟩
        · next hs => simpa [hs] using h
      · next k hk =>
        obtain ⟨rfl, rfl⟩ := reads_pure.1 h
        exact .inr (.inl ⟨.integer (by simpa using hk), rfl⟩)
      · next k hk =>
        obtain ⟨rfl, rfl⟩ := reads_pure.1 h
        exact .inr (.inl ⟨.float (by simpa using hk), rfl⟩)
      · next k hk =>
        obtain ⟨rfl, rfl⟩ := reads_pure.1 h
        exact .inr (.inl ⟨.string (by simpa using hk), rfl⟩)
      · next k hk =>
        obtain ⟨rfl, rfl⟩ := reads_pure.1 h
        exact .inr (.inl ⟨.boolean (by simpa using hk), rfl⟩)
      · next v hv =>
        rw [reads_advance_bind] at h
        obtain ⟨e', c₁, he, h⟩ := reads_bind.1 h
        obtain ⟨u, c₂, hr, h⟩ := reads_bind.1 h
        obtain ⟨rfl, rfl⟩ := reads_pure.1 h
        obtain ⟨r, hr, hspan⟩ := reads_mark.1 hr
        exact .inr (.inr ⟨Token.isSymbol_of_content (by simpa using hv), c₁, r, he, hr, hspan⟩)
      · exact absurd h not_reads_fail
  · rintro ⟨t, hspan, h⟩
    rw [hspan.head]
    rcases h with ⟨x, hx, h⟩ | ⟨hl, rfl⟩ | ⟨hl, c₁, r, he, hr, hspan'⟩
    · simp only [Option.map_some, show t.content = _ from hx, reads_advance_bind, reads_isAt_bind]
      split at h
      · next hs =>
        obtain ⟨as, has, rfl⟩ := h
        rw [if_pos hs, has.bind_iff, reads_pure]
        exact ⟨rfl, rfl⟩
      · next hs => simpa [hs] using h
    · cases hl with
      | integer hk => simp [hk, -bind_pure_comp]
      | float hk => simp [hk, -bind_pure_comp]
      | string hk => simp [hk, -bind_pure_comp]
      | boolean hk => simp [hk, -bind_pure_comp]
    · obtain ⟨v, hv⟩ := Token.exists_content_of_isSymbol hl
      simp only [Option.map_some, hv, reads_advance_bind]
      rw [he.bind_iff, (reads_mark.2 ⟨r, hr, hspan'⟩).bind_iff, reads_pure]
      exact ⟨rfl, rfl⟩

end SumLang.Parser
