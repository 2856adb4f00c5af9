import SumLang.Proofs.Spelling

/-! Text with whole strings and matched parentheses, and the pairs of parentheses in it. -/
namespace SumLang.Token

/-- A string ends at its first quote that no backslash takes with it. -/
theorem Quoted.unique_end {b b' s s' xs ys : List Char} (h : Quoted b s) (h' : Quoted b' s')
    (heq : b ++ '"' :: xs = b' ++ '"' :: ys) : b = b' ∧ xs = ys := by
  have hbody := stringBody_of_quoted h xs
  rw [heq, stringBody_of_quoted h' ys] at hbody
  simp only [Option.some.injEq, Prod.mk.injEq] at hbody
  obtain ⟨hb, hrest⟩ := List.append_inj heq (by omega)
  exact ⟨hb, List.tail_eq_of_cons_eq hrest⟩

/-- Text that ends outside of strings: it consists of characters other than quotes, and of whole
strings, in which a backslash takes the next character with it. -/
inductive Outside : List Char → Prop where
  | nil : Outside []
  | plain {c : Char} {cs : List Char} : c ≠ '"' → Outside cs → Outside (c :: cs)
  | string {b s cs : List Char} : Quoted b s → Outside cs → Outside ('"' :: (b ++ '"' :: cs))

theorem Outside.of_cons {c : Char} {cs : List Char} (h : Outside (c :: cs)) (hc : c ≠ '"') :
    Outside cs := by
  cases h with
  | plain _ h => exact h
  | string => exact absurd rfl hc

/-- Text that consists of characters other than quotes and parentheses, of whole strings, and of
balanced text in parentheses. -/
inductive Balanced : List Char → Prop where
  | nil : Balanced []
  | plain {c : Char} {cs : List Char} : c ≠ '"' → c ≠ '(' → c ≠ ')' → Balanced cs →
    Balanced (c :: cs)
  | string {b s cs : List Char} : Quoted b s → Balanced cs → Balanced ('"' :: (b ++ '"' :: cs))
  | group {as cs : List Char} : Balanced as → Balanced cs → Balanced ('(' :: (as ++ ')' :: cs))

namespace Balanced

variable {as bs cs xs ys : List Char}

theorem append (h : Balanced as) (h' : Balanced bs) : Balanced (as ++ bs) := by
  induction h with
  | nil => exact h'
  | plain hquote hopen hclose _ ih => exact .plain hquote hopen hclose ih
  | string hb _ ih => simpa using Balanced.string hb ih
  | group has _ _ ih => simpa using Balanced.group has ih

theorem of_forall_mem (h : ∀ c ∈ cs, c ≠ '"' ∧ c ≠ '(' ∧ c ≠ ')') : Balanced cs := by
  induction cs with
  | nil => exact .nil
  | cons c cs ih =>
    obtain ⟨⟨hquote, hopen, hclose⟩, hcs⟩ := List.forall_mem_cons.1 h
    exact .plain hquote hopen hclose (ih hcs)

/-- The parenthesis that closes balanced text is the first one without a partner in it. -/
theorem unique_end (ha : Balanced as) (hb : Balanced bs) (h : as ++ ')' :: xs = bs ++ ')' :: ys) :
    as = bs ∧ xs = ys := by
  induction ha generalizing bs xs ys with
  | nil =>
    cases hb with
    | nil => simpa using h
    | plain _ _ hclose => exact absurd (List.cons.inj h).1.symm hclose
    | string => simp at h
    | group => simp at h
  | plain hquote hopen hclose _ ih =>
    cases hb with
    | nil => exact absurd (List.cons.inj h).1 hclose
    | plain _ _ _ hbs =>
      obtain ⟨rfl, hrest⟩ := List.cons.inj h
      obtain ⟨rfl, rfl⟩ := ih hbs hrest
      exact ⟨rfl, rfl⟩
    | string => exact absurd (List.cons.inj h).1 hquote
    | group => exact absurd (List.cons.inj h).1 hopen
  | string hq _ ih =>
    cases hb with
    | nil => simp at h
    | plain hquote => exact absurd (List.cons.inj h).1.symm hquote
    | string hq' hbs =>
      simp only [List.cons_append, List.append_assoc, List.cons.injEq, true_and] at h
      obtain ⟨rfl, hrest⟩ := hq.unique_end hq' h
      obtain ⟨rfl, rfl⟩ := ih hbs hrest
      exact ⟨rfl, rfl⟩
    | group => simp at h
  | group _ _ ihas ihcs =>
    cases hb with
    | nil => simp at h
    | plain _ hopen => exact absurd (List.cons.inj h).1.symm hopen
    | string => simp at h
    | group has' hbs =>
      simp only [List.cons_append, List.append_assoc, List.cons.injEq, true_and] at h
      obtain ⟨rfl, hrest⟩ := ihas has' h
      obtain ⟨rfl, rfl⟩ := ihcs hbs hrest
      exact ⟨rfl, rfl⟩

end Balanced

/-- A pair of parentheses in a text that groups what stands between them. It is not part of a
string, and does not stand directly behind a word, as the parentheses of a call do. -/
structure GroupingPair (text u v w : List Char) : Prop where
  split : text = u ++ '(' :: (v ++ ')' :: w)
  outside : Outside u
  balanced : Balanced v
  noCall : ∀ c ∈ u.getLast?, isWordPart c = false

/-- A pair of parentheses lies before the end of balanced text or behind it. -/
theorem Balanced.split_cases {as bs u v w : List Char} (ha : Balanced as)
    (h : as ++ bs = u ++ '(' :: (v ++ ')' :: w)) (hu : Outside u) (hv : Balanced v) :
    (∃ w', as = u ++ '(' :: (v ++ ')' :: w') ∧ w = w' ++ bs) ∨
      ∃ u', u = as ++ u' ∧ bs = u' ++ '(' :: (v ++ ')' :: w) ∧ Outside u' := by
  induction ha generalizing u bs with
  | nil => exact .inr ⟨u, rfl, h, hu⟩
  | plain hquote hopen _ _ ih =>
    cases u with
    | nil => exact absurd (List.cons.inj h).1 hopen
    | cons c u =>
      obtain ⟨rfl, hrest⟩ := List.cons.inj h
      rcases ih hrest (hu.of_cons hquote) with ⟨w', rfl, hw⟩ | ⟨u', rfl, hbs, hu'⟩
      · exact .inl ⟨w', rfl, hw⟩
      · exact .inr ⟨u', rfl, hbs, hu'⟩
  | string hb _ ih =>
    cases u with
    | nil => simp at h
    | cons c u =>
      simp only [List.cons_append, List.append_assoc, List.cons.injEq] at h
      obtain ⟨rfl, hrest⟩ := h
      cases hu with
      | plain hquote => exact absurd rfl hquote
      | string hb' hu =>
        simp only [List.append_assoc, List.cons_append] at hrest
        obtain ⟨rfl, hbehind⟩ := hb.unique_end hb' hrest
        rcases ih hbehind hu with ⟨w', rfl, hw⟩ | ⟨u', rfl, hbs, hu'⟩
        · exact .inl ⟨w', by simp, hw⟩
        · exact .inr ⟨u', by simp, hbs, hu'⟩
  | @group as cs has _ ihas ihcs =>
    cases u with
    | nil =>
      simp only [List.cons_append, List.append_assoc, List.nil_append, List.cons.injEq,
        true_and] at h
      obtain ⟨rfl, rfl⟩ := has.unique_end hv h
      exact .inl ⟨cs, rfl, rfl⟩
    | cons c u =>
      simp only [List.cons_append, List.append_assoc, List.cons.injEq] at h
      obtain ⟨rfl, hrest⟩ := h
      rcases ihas hrest (hu.of_cons (by decide)) with ⟨w', rfl, rfl⟩ | ⟨u', rfl, hbs, hu'⟩
      · exact .inl ⟨w' ++ ')' :: cs, by simp, by simp⟩
      · -- The pair lies behind the group, or its parenthesis would be the closing one.
        cases u' with
        | nil => simp at hbs
        | cons c u' =>
          obtain ⟨rfl, hbehind⟩ := List.cons.inj hbs
          rcases ihcs hbehind (hu'.of_cons (by decide)) with ⟨w', rfl, hw⟩ | ⟨u'', rfl, hbs, hu''⟩
          · exact .inl ⟨w', by simp, hw⟩
          · exact .inr ⟨u'', by simp, hbs, hu''⟩

namespace GroupingPair

variable {as bs text u v w : List Char}

theorem open_mem (h : GroupingPair text u v w) : '(' ∈ text := by
  simp [h.split]

theorem append_cases (h : GroupingPair (as ++ bs) u v w) (ha : Balanced as) :
    (∃ w', GroupingPair as u v w' ∧ w = w' ++ bs) ∨
      ∃ u', GroupingPair bs u' v w ∧ u = as ++ u' := by
  rcases ha.split_cases h.split h.outside h.balanced with ⟨w', hsplit, hw⟩ | ⟨u', rfl, hsplit, hu'⟩
  · exact .inl ⟨w', ⟨hsplit, h.outside, h.balanced, h.noCall⟩, hw⟩
  · refine .inr ⟨u', ⟨hsplit, hu', h.balanced, fun c hc => h.noCall c ?_⟩, rfl⟩
    simp [List.getLast?_append, Option.mem_def.1 hc]

/-- The pairs of a text in parentheses are these parentheses and the pairs between them. -/
theorem group_cases (h : GroupingPair ('(' :: (as ++ [')'])) u v w) (ha : Balanced as) :
    (u = [] ∧ v = as ∧ w = []) ∨
      ∃ u' w', GroupingPair as u' v w' ∧ u = '(' :: u' ∧ w = w' ++ [')'] := by
  obtain ⟨hsplit, hu, hv, hcall⟩ := h
  cases u with
  | nil =>
    obtain ⟨rfl, rfl⟩ := ha.unique_end hv (List.cons.inj hsplit).2
    exact .inl ⟨rfl, rfl, rfl⟩
  | cons c u =>
    obtain ⟨rfl, hrest⟩ := List.cons.inj hsplit
    have hpair : GroupingPair (as ++ [')']) u v w :=
      ⟨hrest, hu.of_cons (by decide), hv, fun c hc => hcall c (by
        simp [List.getLast?_cons, Option.mem_def.1 hc])⟩
    rcases hpair.append_cases ha with ⟨w', hinner, rfl⟩ | ⟨u', hclose, -⟩
    · exact .inr ⟨u, w', hinner, rfl, rfl⟩
    · simpa using hclose.open_mem

end GroupingPair

namespace Spells

variable {text u v w : List Char} {a : Content} {p : Int}

theorem plain_of_mem {c d : Char} {cs : List Char} (h : Spells (c :: cs) a p)
    (ha : ∀ s x, a = .symbol s x → s = .identifier) (hc : c ≠ '"') (hd : d ∈ c :: cs) :
    d ≠ '"' ∧ d ≠ '(' ∧ d ≠ ')' := by
  have hmark {s : Symbol} (hne : s ≠ .identifier) (hminus : c ≠ '-') : (c, s, -1) ∉ marks := by
    intro hm
    rcases h.mark_of_mem hm with ⟨-, hsymbol, -⟩ | ⟨rfl, -⟩
    · exact hne (ha s _ hsymbol)
    · exact hminus rfl
  rcases List.mem_cons.1 hd with rfl | hd
  · refine ⟨hc, ?_, ?_⟩
    · rintro rfl
      exact hmark (s := .leftParen) (by decide) (by decide) (by decide)
    · rintro rfl
      exact hmark (s := .rightParen) (by decide) (by decide) (by decide)
  · rcases h.mem_tail hc hd with hpart | rfl | rfl
    · refine ⟨?_, ?_, ?_⟩ <;> rintro rfl <;> exact absurd hpart (by decide)
    · decide
    · decide

/-- Literals and names are balanced. -/
theorem balanced (h : Spells text a p) (ha : ∀ s x, a = .symbol s x → s = .identifier) :
    Balanced text := by
  obtain ⟨c, cs, rfl⟩ := h.exists_cons
  by_cases hc : c = '"'
  · subst hc
    obtain ⟨b, s, rfl, hb, -⟩ := h.string_of_quote
    exact .string hb .nil
  · exact .of_forall_mem fun d hd => h.plain_of_mem ha hc hd

/-- Literals and names hold no parentheses, except inside of strings. -/
theorem not_groupingPair (h : Spells text a p)
    (ha : ∀ s x, a = .symbol s x → s = .identifier) : ¬ GroupingPair text u v w := by
  intro hpair
  obtain ⟨c, cs, rfl⟩ := h.exists_cons
  by_cases hc : c = '"'
  · subst hc
    obtain ⟨b, s, rfl, hb, -⟩ := h.string_of_quote
    obtain ⟨hsplit, hu, -, -⟩ := hpair
    cases hu with
    | nil => simp at hsplit
    | plain hquote => exact absurd (List.cons.inj hsplit).1.symm hquote
    | string hb' =>
      simp only [List.cons_append, List.append_assoc, List.cons.injEq, true_and] at hsplit
      simpa using (hb.unique_end hb' hsplit).2
  · exact absurd rfl (h.plain_of_mem ha hc hpair.open_mem).2.1

end Spells

end SumLang.Token
