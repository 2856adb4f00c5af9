import SumLang.Proofs.Steps

/-! Lists in parentheses and in braces, for any kind of item. -/
namespace SumLang.Parser

open Cursor (Spans spans_singleton)
open Grammar

variable {α : Type} {c c' : Cursor}

/-- A list in parentheses either closes at once or goes on with its items. -/
theorem reads_opened {items : Parser (List α)} {as : List α} :
    Reads (do
      mark .leftParen "("
      if ← isAt .rightParen then do
        advance
        return []
      else items) c as c' ↔ ∃ l c₁, Is l .leftParen ∧ Spans c [l] c₁ ∧
        if c₁.sees .rightParen = true then [] = as ∧ c₁.next = c' else Reads items c₁ as c' := by
  rw [reads_bind]
  constructor
  · rintro ⟨u, c₁, hl, h⟩
    obtain ⟨l, hl, hspan⟩ := reads_mark.1 hl
    refine ⟨l, c₁, hl, hspan, ?_⟩
    rw [reads_isAt_bind] at h
    split at h
    · next hs => simpa [hs, -bind_pure_comp] using h
    · next hs => simpa [hs] using h
  · rintro ⟨l, c₁, hl, hspan, h⟩
    refine ⟨(), c₁, reads_mark.2 ⟨l, hl, hspan⟩, ?_⟩
    rw [reads_isAt_bind]
    split at h
    · next hs => simpa [hs, -bind_pure_comp] using h
    · next hs => simpa [hs] using h

/-- After an item of a list comes a comma and the rest, or the parenthesis that closes the list. -/
theorem reads_listed {item : Parser α} {rest : Parser (List α)} {as : List α} :
    Reads (do
      let a ← item
      if ← take? .comma then return a :: (← rest)
      else do
        mark .rightParen ")"
        return [a]) c as c' ↔ ∃ a c₁, Reads item c a c₁ ∧
        if c₁.sees .comma = true then ∃ as', Reads rest c₁.next as' c' ∧ a :: as' = as
        else ∃ r, Is r .rightParen ∧ Spans c₁ [r] c' ∧ [a] = as := by
  rw [reads_bind]
  constructor
  · rintro ⟨a, c₁, ha, h⟩
    refine ⟨a, c₁, ha, ?_⟩
    obtain ⟨b, c₂, hb, h⟩ := reads_bind.1 h
    cases b with
    | true =>
      obtain ⟨t, ht, hspan⟩ := reads_take?_true.1 hb
      obtain ⟨as', c₃, has, h⟩ := reads_bind.1 h
      obtain ⟨rfl, rfl⟩ := reads_pure.1 h
      rw [if_pos (by rw [hspan.sees_eq, ht])]
      exact ⟨as', (spans_singleton.1 hspan).2 ▸ has, rfl⟩
    | false =>
      obtain ⟨hs, rfl⟩ := reads_take?_false.1 hb
      obtain ⟨u, c₃, hr, h⟩ := reads_bind.1 h
      obtain ⟨rfl, rfl⟩ := reads_pure.1 h
      obtain ⟨r, hr, hspan⟩ := reads_mark.1 hr
      rw [if_neg (by simp [hs])]
      exact ⟨r, hr, hspan, rfl⟩
  · rintro ⟨a, c₁, ha, h⟩
    refine ⟨a, c₁, ha, ?_⟩
    split at h
    · next hs =>
      obtain ⟨t, ht, hspan⟩ := Cursor.exists_of_sees hs
      obtain ⟨as', has, rfl⟩ := h
      rw [(reads_take?_true.2 ⟨t, ht, hspan⟩).bind_iff, if_pos rfl, has.bind_iff, reads_pure]
      exact ⟨rfl, rfl⟩
    · next hs =>
      obtain ⟨r, hr, hspan, rfl⟩ := h
      rw [(reads_take?_false.2 ⟨by simpa using hs, rfl⟩).bind_iff, if_neg (by simp),
        (reads_mark.2 ⟨r, hr, hspan⟩).bind_iff, reads_pure]
      exact ⟨rfl, rfl⟩

section Items

variable {item : List Token → α → Prop} {one : Parser α} {more : Parser (List α)} {as : List α}

theorem separated_of_reads
    (hone : ∀ {c a c'}, Reads one c a c' → ∃ ts, item ts a ∧ Spans c ts c')
    (hmore : ∀ {c as c'}, Reads more c as c' →
      ∃ ts r, Separated item ts as ∧ Is r .rightParen ∧ Spans c (ts ++ [r]) c')
    (h : Reads (do
      let a ← one
      if ← take? .comma then return a :: (← more)
      else do
        mark .rightParen ")"
        return [a]) c as c') :
    ∃ ts r, Separated item ts as ∧ Is r .rightParen ∧ Spans c (ts ++ [r]) c' := by
  obtain ⟨a, c₁, ha, h⟩ := reads_listed.1 h
  obtain ⟨ts, hts, hspan⟩ := hone ha
  split at h
  · next hs =>
    obtain ⟨comma, hcomma, hspan₁⟩ := Cursor.exists_of_sees hs
    obtain ⟨as', has, rfl⟩ := h
    obtain ⟨us, r, hus, hr, hspan₂⟩ := hmore has
    refine ⟨ts ++ comma :: us, r, .cons hts hcomma hus, hr, ?_⟩
    simpa using hspan.trans (hspan₁.trans hspan₂)
  · obtain ⟨r, hr, hspan₁, rfl⟩ := h
    exact ⟨ts, r, .last hts, hr, hspan.trans hspan₁⟩

theorem reads_of_separated {ts : List Token} {r : Token} (h : Separated item ts as)
    (hr : Is r .rightParen) (hspan : Spans c (ts ++ [r]) c')
    (hone : ∀ {us a c₁ c₂}, item us a → us ⊆ ts → us.length ≤ ts.length → Spans c₁ us c₂ →
      c₂.EndsExpression → Reads one c₁ a c₂)
    (hmore : ∀ {us as c₁}, Separated item us as → us ⊆ ts → us.length < ts.length →
      Spans c₁ (us ++ [r]) c' → Reads more c₁ as c') :
    Reads (do
      let a ← one
      if ← take? .comma then return a :: (← more)
      else do
        mark .rightParen ")"
        return [a]) c as c' := by
  refine reads_listed.2 ?_
  cases h with
  | @last ts a ha =>
    obtain ⟨c₁, hspan₁, hspan₂⟩ := hspan.split
    refine ⟨a, c₁, hone ha (by simp) (Nat.le_refl _) hspan₁
      (hspan₂.endsExpression hr (by decide) (by decide)), ?_⟩
    rw [if_neg (by simp [hspan₂.sees_eq, Token.isSymbol_eq_false hr])]
    exact ⟨r, hr, hspan₂, rfl⟩
  | @cons us a comma vs as ha hcomma has =>
    rw [List.append_assoc] at hspan
    obtain ⟨c₁, hspan₁, hspan⟩ := hspan.split
    obtain ⟨c₂, hspan₂, hspan₃⟩ := hspan.uncons
    obtain rfl := (spans_singleton.1 hspan₂).2
    refine ⟨a, c₁, hone ha (by simp) (by simp) hspan₁
      (hspan₂.endsExpression hcomma (by decide) (by decide)), ?_⟩
    rw [if_pos (by rw [hspan₂.sees_eq, hcomma])]
    have hlen : vs.length < (us ++ comma :: vs).length := by
      rw [List.length_append, List.length_cons]
      omega
    exact ⟨as, hmore has (fun t ht => by simp [ht]) hlen hspan₃, rfl⟩

theorem parenthesized_of_reads
    (hmore : ∀ {c as c'}, Reads more c as c' →
      ∃ ts r, Separated item ts as ∧ Is r .rightParen ∧ Spans c (ts ++ [r]) c')
    (h : Reads (do
      mark .leftParen "("
      if ← isAt .rightParen then do
        advance
        return []
      else more) c as c') : ∃ ts, Parenthesized item ts as ∧ Spans c ts c' := by
  obtain ⟨l, c₁, hl, hspan, h⟩ := reads_opened.1 h
  split at h
  · next hs =>
    obtain ⟨rfl, rfl⟩ := h
    obtain ⟨r, hr, hspan₁⟩ := Cursor.exists_of_sees hs
    exact ⟨[l, r], .empty hl hr, hspan.trans hspan₁⟩
  · obtain ⟨ts, r, hts, hr, hspan₁⟩ := hmore h
    exact ⟨l :: ts ++ [r], .items hl hts hr, hspan.trans hspan₁⟩

theorem reads_of_parenthesized {ts : List Token} (h : Parenthesized item ts as)
    (hspan : Spans c ts c')
    (hstart : ∀ {us}, Separated item us as → ∃ t vs, us = t :: vs ∧ t.isSymbol .rightParen = false)
    (hmore : ∀ {us r c₁}, Separated item us as → Is r .rightParen → us ⊆ ts →
      us.length + 2 = ts.length → Spans c₁ (us ++ [r]) c' → Reads more c₁ as c') :
    Reads (do
      mark .leftParen "("
      if ← isAt .rightParen then do
        advance
        return []
      else more) c as c' := by
  refine reads_opened.2 ?_
  cases h with
  | @empty l r hl hr =>
    obtain ⟨c₁, hspan₁, hspan₂⟩ := hspan.uncons
    refine ⟨l, c₁, hl, hspan₁, ?_⟩
    rw [if_pos (by rw [hspan₂.sees_eq, hr])]
    exact ⟨rfl, (spans_singleton.1 hspan₂).2.symm⟩
  | @items l us r as hl has hr =>
    obtain ⟨c₁, hspan₁, hspan₂⟩ := hspan.uncons
    have hread := hmore has hr (fun t ht => by simp [ht]) (by simp) hspan₂
    obtain ⟨t, vs, rfl, ht⟩ := hstart has
    refine ⟨l, c₁, hl, hspan₁, ?_⟩
    rw [if_neg (by simp [hspan₂.sees_eq, ht])]
    exact hread

theorem sees_leftParen_of_parenthesized {ts : List Token} (h : Parenthesized item ts as)
    (hspan : Spans c ts c') : c.sees .leftParen = true := by
  cases h with
  | empty hl => rw [hspan.sees_eq, hl]
  | items hl => rw [hspan.sees_eq, hl]

end Items

end SumLang.Parser
