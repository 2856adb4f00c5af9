import SumLang.Grammar.Expression
import SumLang.Proofs.Derivation

/-! What the steps of the rules read, stated as the tokens between two places. -/
namespace SumLang

open Grammar (Is IsName IsType)

namespace Token

theorem isSymbol_iff {t : Token} {s : Symbol} : t.isSymbol s = true ↔ t.symbol? = some s := by
  simp [isSymbol]

theorem isSymbol_of_content {t : Token} {s : Symbol} {v : String} (h : t.content = .symbol s v) :
    t.isSymbol s = true := by
  simp [isSymbol, symbol?, h]

theorem exists_content_of_isSymbol {t : Token} {s : Symbol} (h : t.isSymbol s = true) :
    ∃ v, t.content = .symbol s v := by
  rw [isSymbol_iff] at h
  unfold symbol? at h
  split at h
  · next s' v hc =>
    obtain rfl : s' = s := by simpa using h
    exact ⟨v, hc⟩
  · simp at h

theorem isSymbol_eq_false {t : Token} {s s' : Symbol} (h : t.isSymbol s = true) (hs : s ≠ s') :
    t.isSymbol s' = false := by
  rw [isSymbol_iff] at h
  simp [isSymbol, h, hs]

end Token

namespace Cursor

structure Spans (c : Cursor) (ts : List Token) (c' : Cursor) : Prop where
  rest : c.rest = ts ++ c'.rest
  index : c'.index = c.index + ts.length

namespace Spans

theorem refl (c : Cursor) : Spans c [] c := ⟨rfl, rfl⟩

theorem trans {c c' c'' : Cursor} {ts us : List Token} (h : Spans c ts c') (h' : Spans c' us c'') :
    Spans c (ts ++ us) c'' := by
  refine ⟨?_, ?_⟩
  · rw [h.rest, h'.rest, List.append_assoc]
  · rw [h'.index, h.index, List.length_append, Nat.add_assoc]

theorem split {c c'' : Cursor} {ts us : List Token} (h : Spans c (ts ++ us) c'') :
    ∃ c', Spans c ts c' ∧ Spans c' us c'' := by
  refine ⟨⟨c.index + ts.length, us ++ c''.rest⟩, ⟨?_, rfl⟩, rfl, ?_⟩
  · rw [h.rest, List.append_assoc]
  · rw [h.index, List.length_append, Nat.add_assoc]

theorem uncons {c c'' : Cursor} {t : Token} {ts : List Token} (h : Spans c (t :: ts) c'') :
    ∃ c', Spans c [t] c' ∧ Spans c' ts c'' :=
  split h

theorem eq_of_nil {c c' : Cursor} (h : Spans c [] c') : c' = c := by
  obtain ⟨i, ts⟩ := c
  obtain ⟨i', ts'⟩ := c'
  obtain ⟨hr, hi⟩ := h
  simp_all

theorem length_le {c c' : Cursor} {ts : List Token} (h : Spans c ts c') :
    ts.length ≤ c.rest.length := by
  rw [h.rest, List.length_append]
  omega

theorem head {c c' : Cursor} {t : Token} {ts : List Token} (h : Spans c (t :: ts) c') :
    c.rest.head? = some t := by
  rw [h.rest]
  rfl

end Spans

/-- A single token is spanned by a step. -/
theorem spans_singleton {c c' : Cursor} {t : Token} :
    Spans c [t] c' ↔ c.rest.head? = some t ∧ c' = c.next := by
  obtain ⟨i, ts⟩ := c
  obtain ⟨i', ts'⟩ := c'
  constructor
  · rintro ⟨hr, hi⟩
    simp only [List.singleton_append, List.length_singleton] at hr hi
    subst hr hi
    exact ⟨rfl, rfl⟩
  · rintro ⟨ht, hn⟩
    cases ts with
    | nil => simp at ht
    | cons u us =>
      obtain rfl : u = t := by simpa using ht
      rw [hn]
      exact ⟨rfl, rfl⟩

def sees (c : Cursor) (s : Symbol) : Bool :=
  (c.rest.head?.map (·.isSymbol s)).getD false

theorem Spans.sees_eq {c c' : Cursor} {t : Token} {ts : List Token} (h : Spans c (t :: ts) c')
    (s : Symbol) : c.sees s = t.isSymbol s := by
  simp [sees, h.head]

theorem exists_of_sees {c : Cursor} {s : Symbol} (h : c.sees s = true) :
    ∃ t, Is t s ∧ Spans c [t] c.next := by
  unfold sees at h
  cases hc : c.rest.head? with
  | none => simp [hc] at h
  | some t => exact ⟨t, by simpa [hc] using h, spans_singleton.2 ⟨hc, rfl⟩⟩

def operator? (c : Cursor) : Option (String × Int) :=
  match c.rest with
  | ⟨.symbol .operator v, _, _, p⟩ :: _ => some (v, p)
  | _ => none

theorem Spans.operator?_eq {c c' : Cursor} {t : Token} {ts : List Token} {op : String}
    (h : Spans c (t :: ts) c') (ht : t.content = .symbol .operator op) :
    c.operator? = some (op, t.precedence) := by
  obtain ⟨content, text, position, precedence⟩ := t
  subst ht
  simp [operator?, h.rest]

theorem Spans.operator?_eq_none {c c' : Cursor} {t : Token} {ts : List Token} {s : Symbol}
    (h : Spans c (t :: ts) c') (ht : Is t s) (hs : s ≠ .operator) : c.operator? = none := by
  obtain ⟨v, hv⟩ := Token.exists_content_of_isSymbol ht
  obtain ⟨content, text, position, precedence⟩ := t
  subst hv
  unfold operator?
  rw [h.rest]
  split
  · next h' => simp_all
  · rfl

theorem exists_of_operator? {c : Cursor} {op : String} {p : Int} (h : c.operator? = some (op, p)) :
    ∃ t, t.content = .symbol .operator op ∧ t.precedence = p ∧ Spans c [t] c.next := by
  unfold operator? at h
  split at h
  · next v text position q ts hr =>
    obtain ⟨rfl, rfl⟩ : v = op ∧ q = p := by simpa using h
    exact ⟨_, rfl, rfl, spans_singleton.2 ⟨by rw [hr]; rfl, rfl⟩⟩
  · simp at h

/-- An expression can end here: neither an operator nor an opening parenthesis follows. -/
def EndsExpression (c : Cursor) : Prop :=
  c.operator? = none ∧ c.sees .leftParen = false

theorem Spans.endsExpression {c c' : Cursor} {t : Token} {ts : List Token} {s : Symbol}
    (h : Spans c (t :: ts) c') (ht : Is t s) (ho : s ≠ .operator) (hl : s ≠ .leftParen) :
    c.EndsExpression :=
  ⟨h.operator?_eq_none ht ho, by rw [h.sees_eq, Token.isSymbol_eq_false ht hl]⟩

end Cursor

namespace Parser

open Cursor (Spans spans_singleton)

variable {α β : Type} {c c' : Cursor}

def Reads (p : Parser α) (c : Cursor) (a : α) (c' : Cursor) : Prop := p.run c = .ok a c'

theorem reads_bind {p : Parser α} {f : α → Parser β} {b : β} :
    Reads (p >>= f) c b c' ↔ ∃ a c₁, Reads p c a c₁ ∧ Reads (f a) c₁ b c' := by
  unfold Reads
  rw [EStateM.run_bind]
  cases p.run c with
  | ok a c₁ =>
    constructor
    · intro h
      exact ⟨a, c₁, rfl, h⟩
    · rintro ⟨a', c', h, h'⟩
      cases h
      exact h'
  | error e c₁ => simp

theorem Reads.bind_iff {p : Parser α} {f : α → Parser β} {a : α} {b : β} {c₁ : Cursor}
    (h : Reads p c a c₁) : Reads (p >>= f) c b c' ↔ Reads (f a) c₁ b c' := by
  unfold Reads at h ⊢
  rw [EStateM.run_bind, h]

@[simp] theorem reads_pure {a b : α} : Reads (pure a) c b c' ↔ a = b ∧ c = c' := by
  simp [Reads]

@[simp] theorem not_reads_fail {e : Expectation} {wanted hint : Option String} {a : α} :
    ¬ Reads (fail e wanted hint) c a c' := by
  intro h
  cases h

@[simp] theorem reads_isAt_bind {s : Symbol} {f : Bool → Parser β} {b : β} :
    Reads (isAt s >>= f) c b c' ↔ Reads (f (c.sees s)) c b c' := Iff.rfl

@[simp] theorem reads_isNext_bind {s : Symbol} {f : Bool → Parser β} {b : β} :
    Reads (isNext s >>= f) c b c' ↔ Reads (f (c.next.sees s)) c b c' := by
  obtain ⟨i, ts⟩ := c
  cases ts <;> exact Iff.rfl

@[simp] theorem reads_peek_bind {f : Option Token → Parser β} {b : β} :
    Reads (peek >>= f) c b c' ↔ Reads (f c.rest.head?) c b c' := Iff.rfl

@[simp] theorem reads_advance_bind {f : Unit → Parser β} {b : β} :
    Reads (advance >>= f) c b c' ↔ Reads (f ()) c.next b c' := Iff.rfl

theorem reads_advance : Reads advance c () c' ↔ c.next = c' := by
  change EStateM.Result.ok () c.next = .ok () c' ↔ _
  simp

@[simp] theorem reads_peekOperator_bind {f : Option (String × Int) → Parser β} {b : β} :
    Reads (peekOperator >>= f) c b c' ↔ Reads (f c.operator?) c b c' := by
  refine Reads.bind_iff ?_
  obtain ⟨i, ts⟩ := c
  unfold Cursor.operator?
  split
  · next hr =>
    subst hr
    rfl
  · next hr => simp only [Reads, EStateM.run, peekOperator]

@[simp] theorem reads_bindsTighter_bind {p : Int} {f : Bool → Parser β} {b : β} :
    Reads (bindsTighter p >>= f) c b c' ↔
      Reads (f (c.operator?.any fun o => p < o.2)) c b c' := by
  refine Reads.bind_iff ?_
  rw [bindsTighter, reads_peekOperator_bind]
  cases c.operator? <;> simp

/-- A rule that takes its fuel from the place where it starts. -/
theorem reads_fueled {p : Nat → Parser α} {a : α} :
    Reads (fun c => p c.fuel c) c a c' ↔ Reads (p c.fuel) c a c' := Iff.rfl

theorem reads_expect {s : Symbol} {e : Expectation} {wanted : Option String} :
    Reads (expect s e wanted) c () c' ↔ ∃ t, Is t s ∧ Spans c [t] c' := by
  rw [expect, reads_isAt_bind]
  constructor
  · intro h
    split at h
    · next hs =>
      obtain ⟨t, ht, hspan⟩ := Cursor.exists_of_sees hs
      exact ⟨t, ht, reads_advance.1 h ▸ hspan⟩
    · exact absurd h not_reads_fail
  · rintro ⟨t, ht, hspan⟩
    rw [hspan.sees_eq, ht, if_pos rfl, reads_advance]
    exact (spans_singleton.1 hspan).2.symm

theorem reads_mark {s : Symbol} {text : String} :
    Reads (mark s text) c () c' ↔ ∃ t, Is t s ∧ Spans c [t] c' :=
  reads_expect

/-- A symbol that is there is taken. -/
theorem reads_take?_true {s : Symbol} :
    Reads (take? s) c true c' ↔ ∃ t, Is t s ∧ Spans c [t] c' := by
  rw [take?, reads_isAt_bind]
  constructor
  · intro h
    split at h
    · next hs =>
      obtain ⟨t, ht, hspan⟩ := Cursor.exists_of_sees hs
      exact ⟨t, ht, (reads_pure.1 h).2 ▸ hspan⟩
    · simp at h
  · rintro ⟨t, ht, hspan⟩
    rw [hspan.sees_eq, ht, if_pos rfl, reads_advance_bind, reads_pure]
    exact ⟨rfl, (spans_singleton.1 hspan).2.symm⟩

/-- Nothing is taken where the symbol is missing. -/
theorem reads_take?_false {s : Symbol} :
    Reads (take? s) c false c' ↔ c.sees s = false ∧ c = c' := by
  rw [take?, reads_isAt_bind]
  cases c.sees s <;> simp [-bind_pure_comp]

theorem reads_identifier {x : String} :
    Reads identifier c x c' ↔ ∃ t, IsName t x ∧ Spans c [t] c' := by
  rw [identifier, reads_peek_bind]
  constructor
  · intro h
    split at h
    · next y text position precedence hy =>
      obtain ⟨rfl, rfl⟩ : y = x ∧ c.next = c' := reads_pure.1 h
      exact ⟨_, rfl, spans_singleton.2 ⟨hy, rfl⟩⟩
    · exact absurd h not_reads_fail
  · rintro ⟨⟨content, text, position, precedence⟩, ht, hspan⟩
    obtain rfl : content = .symbol .identifier x := ht
    rw [hspan.head, (spans_singleton.1 hspan).2]
    rfl

theorem reads_statementEnd :
    Reads statementEnd c () c' ↔ ∃ t, Is t .semicolon ∧ Spans c [t] c' := by
  rw [statementEnd, reads_isAt_bind]
  constructor
  · intro h
    split at h
    · next hs =>
      obtain ⟨t, ht, hspan⟩ := Cursor.exists_of_sees hs
      exact ⟨t, ht, reads_advance.1 h ▸ hspan⟩
    · rw [reads_peek_bind] at h
      split at h
      · split at h <;> exact absurd h not_reads_fail
      · exact absurd h not_reads_fail
  · rintro ⟨t, ht, hspan⟩
    rw [hspan.sees_eq, ht, if_pos rfl, reads_advance]
    exact (spans_singleton.1 hspan).2.symm

theorem reads_typeName {type : String} :
    Reads typeName c type c' ↔ ∃ t, IsType t type ∧ Spans c [t] c' := by
  rw [typeName, reads_peek_bind]
  constructor
  · intro h
    split at h
    · next s v text position precedence ht =>
      have hspan : Spans c [_] c.next := spans_singleton.2 ⟨ht, rfl⟩
      split at h
      · next name hname =>
        obtain ⟨rfl, rfl⟩ : name = type ∧ c.next = c' := reads_pure.1 h
        exact ⟨_, .builtin (Token.isSymbol_of_content rfl) hname, hspan⟩
      · split at h
        · next hs =>
          obtain ⟨rfl, rfl⟩ : v = type ∧ c.next = c' := reads_pure.1 h
          exact ⟨_, .named (by rw [hs]), hspan⟩
        · exact absurd h not_reads_fail
    · exact absurd h not_reads_fail
  · rintro ⟨⟨content, text, position, precedence⟩, ht, hspan⟩
    rw [hspan.head, (spans_singleton.1 hspan).2]
    cases ht with
    | builtin hs hname =>
      obtain ⟨v, hv⟩ := Token.exists_content_of_isSymbol hs
      obtain rfl : content = .symbol _ v := hv
      simp only [hname]
      rfl
    | named hx =>
      obtain rfl : content = .symbol .identifier type := hx
      rfl

end Parser

end SumLang
