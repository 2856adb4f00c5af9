import SumLang.Proofs.EnoughFuel

/-! Rules that report a fault at the first token that no phrase of theirs can have there. A rule
tracks a language if what it reads belongs to the language, what it read before a fault can be
completed to a word of the language, and its outcome before a place depends on nothing behind that
place. -/
namespace SumLang

open Cursor (Spans)
open Grammar

namespace GrammarFault

def TestsBuiltin (f : GrammarFault) : Prop :=
  f.expectation = .enumeration ∧ ∃ type, isBuiltinType type = true ∧
    f.hint = some ("'if let' tests an enum-typed variable, not '" ++ type ++ "'")

/-- The index of the token that a fault is about. It is the token reported, but a built-in type in a
case test is reported only at the token behind it. -/
inductive Blames (f : GrammarFault) : Nat → Prop where
  | reported : ¬ f.TestsBuiltin → Blames f f.index
  | before {k : Nat} : f.TestsBuiltin → f.index = k + 1 → Blames f k

theorem Blames.unique {f : GrammarFault} {k k' : Nat} (h : f.Blames k) (h' : f.Blames k') :
    k = k' := by
  cases h with
  | reported hf =>
    cases h' with
    | reported => rfl
    | before hf' => exact absurd hf' hf
  | before hf hk =>
    cases h' with
    | reported hf' => exact absurd hf hf'
    | before hf' hk' => omega

end GrammarFault

namespace Cursor

/-- Two places with the same index, from which on the same tokens stand up to an index `b`. -/
def Agree (b : Nat) (c c' : Cursor) : Prop :=
  c.index = c'.index ∧ ∃ shared rest rest', c.rest = shared ++ rest ∧ c'.rest = shared ++ rest' ∧
    b ≤ c.index + shared.length

namespace Agree

variable {b : Nat} {c c' : Cursor}

/-- There is a token before the end of what is shared. -/
theorem exists_head (h : Agree b c c') (hb : c.index < b) :
    ∃ t, Spans c [t] c.next ∧ Spans c' [t] c'.next ∧ Agree b c.next c'.next := by
  obtain ⟨i, ts⟩ := c
  obtain ⟨i', ts'⟩ := c'
  obtain ⟨hi, shared, rest, rest', hr, hr', hlen⟩ := h
  dsimp only at hi hr hr' hlen hb
  cases shared with
  | nil =>
    simp only [List.length_nil] at hlen
    omega
  | cons t shared =>
    subst hi hr hr'
    refine ⟨t, ⟨rfl, rfl⟩, ⟨rfl, rfl⟩, rfl, shared, rest, rest', rfl, rfl, ?_⟩
    simp only [List.length_cons] at hlen
    simp only [List.cons_append, next]
    omega

theorem head?_eq (h : Agree b c c') (hb : c.index < b) : c.rest.head? = c'.rest.head? := by
  obtain ⟨t, hspan, hspan', -⟩ := h.exists_head hb
  rw [hspan.head, hspan'.head]

end Agree

theorem operator?_congr {c c' : Cursor} (h : c.rest.head? = c'.rest.head?) :
    c.operator? = c'.operator? := by
  obtain ⟨i, ts⟩ := c
  obtain ⟨i', ts'⟩ := c'
  cases ts with
  | nil =>
    obtain rfl : ts' = [] := by simpa using h.symm
    rfl
  | cons t ts =>
    obtain ⟨us, rfl⟩ : ∃ us, ts' = t :: us := by
      simpa [List.head?_eq_some_iff] using h.symm
    unfold operator?
    dsimp only
    split
    · next hr =>
      obtain ⟨rfl, -⟩ := List.cons.inj hr
      rfl
    · next hr =>
      split
      · next hr' =>
        obtain ⟨rfl, -⟩ := List.cons.inj hr'
        exact absurd rfl (hr _ _ _ _ _)
      · rfl

end Cursor

namespace Parser

open Cursor (Agree)

variable {α β : Type} {c c' : Cursor}

def Fails (p : Parser α) (c : Cursor) (f : GrammarFault) : Prop := ∃ c', p.run c = .error f c'

theorem fails_bind {p : Parser α} {k : α → Parser β} {f : GrammarFault} :
    Fails (p >>= k) c f ↔ Fails p c f ∨ ∃ a c₁, Reads p c a c₁ ∧ Fails (k a) c₁ f := by
  unfold Fails Reads
  rw [EStateM.run_bind]
  cases p.run c with
  | ok a c₁ =>
    constructor
    · intro h
      exact .inr ⟨a, c₁, rfl, h⟩
    · rintro (⟨c', h⟩ | ⟨a', c', h, hk⟩)
      · cases h
      · cases h
        exact hk
  | error e c₁ => simp

theorem Reads.fails_bind_iff {p : Parser α} {k : α → Parser β} {a : α} {c₁ : Cursor}
    {f : GrammarFault} (h : Reads p c a c₁) : Fails (p >>= k) c f ↔ Fails (k a) c₁ f := by
  unfold Reads at h
  unfold Fails
  rw [EStateM.run_bind, h]

theorem fails_fail {e : Expectation} {wanted hint : Option String} {f : GrammarFault} :
    Fails (fail (α := α) e wanted hint) c f ↔ f = ⟨e, wanted, c.rest.head?, c.index, hint⟩ := by
  constructor
  · rintro ⟨c', h⟩
    cases h
    rfl
  · rintro rfl
    exact ⟨c, rfl⟩

theorem not_fails_pure {a : α} {f : GrammarFault} : ¬ Fails (pure a) c f := by
  rintro ⟨c', h⟩
  cases h

/-- A rule that does not read fails. -/
theorem exists_fails {p : Parser α} (h : ∀ a c₁, ¬ Reads p c a c₁) : ∃ f, Fails p c f := by
  cases hrun : p.run c with
  | ok a c₁ => exact absurd hrun (h a c₁)
  | error f c₁ => exact ⟨f, c₁, hrun⟩

theorem NonnegPrecedence.append {ts us : List Token} (h : NonnegPrecedence ts)
    (h' : NonnegPrecedence us) : NonnegPrecedence (ts ++ us) := by
  intro t ht
  rcases List.mem_append.1 ht with ht | ht
  · exact h t ht
  · exact h' t ht

/-- Some word of a relation has no operator of negative precedence. -/
def Live (X : List Token → α → Prop) : Prop := ∃ ts a, NonnegPrecedence ts ∧ X ts a

/-- What a rule does before an index `b` it does from any place that agrees up to `b`. -/
structure Determined (p : Parser α) (b : Nat) (c c' : Cursor) : Prop where
  reads {a : α} {c₁ : Cursor} : Reads p c a c₁ → c₁.index < b →
    ∃ c₁', Reads p c' a c₁' ∧ Agree b c₁ c₁'
  fails {f : GrammarFault} {k : Nat} : Fails p c f → f.Blames k → k < b → ∃ f', Fails p c' f'

/-- From a place, the rule reads phrases of the grammar and blames the first token that no phrase
can have. -/
structure Tracks (p : Parser α) (X : List Token → α → Prop) (c : Cursor) : Prop where
  live : Live X
  reads {a : α} {c₁ : Cursor} : Reads p c a c₁ → ∃ ts, X ts a ∧ Spans c ts c₁
  fails {f : GrammarFault} : Fails p c f → ∃ ts, ts <+: c.rest ∧ f.Blames (c.index + ts.length) ∧
    Live fun us a => X (ts ++ us) a
  determined {c' : Cursor} {b : Nat} : Agree b c c' → Determined p b c c'

namespace Tracks

variable {p : Parser α} {X : List Token → α → Prop} {Z : List Token → β → Prop}

theorem index_le_of_reads (h : Tracks p X c) {a : α} {c₁ : Cursor} (hr : Reads p c a c₁) :
    c.index ≤ c₁.index := by
  obtain ⟨ts, -, hspan⟩ := h.reads hr
  have hindex := hspan.index
  omega

theorem index_le_of_fails (h : Tracks p X c) {f : GrammarFault} {k : Nat} (hf : Fails p c f)
    (hk : f.Blames k) : c.index ≤ k := by
  obtain ⟨ts, -, hblames, -⟩ := h.fails hf
  have hindex := hk.unique hblames
  omega

/-- A rule whose first step only looks at the current token. -/
theorem look_bind {γ : Type} {look : Parser γ} (o : Cursor → γ)
    (hlook : ∀ c, Reads look c (o c) c)
    (hhead : ∀ c c', c.rest.head? = c'.rest.head? → o c = o c') {k : γ → Parser β}
    (h : Tracks (k (o c)) Z c) : Tracks (look >>= k) Z c := by
  refine ⟨h.live, fun hr => h.reads ((hlook c).bind_iff.1 hr),
    fun hf => h.fails ((hlook c).fails_bind_iff.1 hf), fun {c' b} hagree => ⟨?_, ?_⟩⟩
  · intro a c₁ hr hb
    have hr := (hlook c).bind_iff.1 hr
    have hle := h.index_le_of_reads hr
    obtain ⟨c₁', hr', hagree'⟩ := (h.determined hagree).reads hr hb
    rw [hhead c c' (hagree.head?_eq (by omega))] at hr'
    exact ⟨c₁', (hlook c').bind_iff.2 hr', hagree'⟩
  · intro f i hf hblames hb
    have hf := (hlook c).fails_bind_iff.1 hf
    have hle := h.index_le_of_fails hf hblames
    obtain ⟨f', hf'⟩ := (h.determined hagree).fails hf hblames hb
    rw [hhead c c' (hagree.head?_eq (by omega))] at hf'
    exact ⟨f', (hlook c').fails_bind_iff.2 hf'⟩

theorem peek_bind {k : Option Token → Parser β} (h : Tracks (k c.rest.head?) Z c) :
    Tracks (peek >>= k) Z c :=
  look_bind (fun c => c.rest.head?) (fun _ => reads_peek.2 ⟨rfl, rfl⟩) (fun _ _ h => h) h

theorem isAt_bind {s : Symbol} {k : Bool → Parser β} (h : Tracks (k (c.sees s)) Z c) :
    Tracks (isAt s >>= k) Z c :=
  look_bind (·.sees s) (fun _ => reads_isAt.2 ⟨rfl, rfl⟩)
    (fun _ _ h => by rw [Cursor.sees, Cursor.sees, h]) h

theorem peekOperator_bind {k : Option (String × Int) → Parser β} (h : Tracks (k c.operator?) Z c) :
    Tracks (peekOperator >>= k) Z c :=
  look_bind Cursor.operator? (fun _ => reads_peekOperator.2 ⟨rfl, rfl⟩)
    (fun _ _ h => Cursor.operator?_congr h) h

theorem bindsTighter_bind {q : Int} {k : Bool → Parser β}
    (h : Tracks (k (c.operator?.any fun o => q < o.2)) Z c) : Tracks (bindsTighter q >>= k) Z c :=
  look_bind (·.operator?.any fun o => q < o.2) (fun _ => reads_bindsTighter.2 ⟨rfl, rfl⟩)
    (fun _ _ h => by rw [Cursor.operator?_congr h]) h

/-- The token after the current one may be looked at by a rule that takes the current one. -/
theorem isNext_bind {s : Symbol} {k : Bool → Parser β} (h : Tracks (k (c.next.sees s)) Z c)
    (hreads : ∀ {a c₁}, Reads (k (c.next.sees s)) c a c₁ → c.index < c₁.index)
    (hfails : ∀ {f i}, Fails (k (c.next.sees s)) c f → f.Blames i → c.index < i) :
    Tracks (isNext s >>= k) Z c := by
  have hlook : ∀ c, Reads (isNext s) c (c.next.sees s) c := fun _ => reads_isNext.2 ⟨rfl, rfl⟩
  have hsees : ∀ {c' b}, Agree b c c' → c.index + 1 < b → c.next.sees s = c'.next.sees s := by
    intro c' b hagree hb
    obtain ⟨t, hspan, -, hnext⟩ := hagree.exists_head (by omega)
    have hindex : c.next.index = c.index + 1 := hspan.index
    rw [Cursor.sees, Cursor.sees, hnext.head?_eq (by omega)]
  refine ⟨h.live, fun hr => h.reads ((hlook c).bind_iff.1 hr),
    fun hf => h.fails ((hlook c).fails_bind_iff.1 hf), fun {c' b} hagree => ⟨?_, ?_⟩⟩
  · intro a c₁ hr hb
    have hr := (hlook c).bind_iff.1 hr
    have hlt := hreads hr
    obtain ⟨c₁', hr', hagree'⟩ := (h.determined hagree).reads hr hb
    rw [hsees hagree (by omega)] at hr'
    exact ⟨c₁', (hlook c').bind_iff.2 hr', hagree'⟩
  · intro f i hf hblames hb
    have hf := (hlook c).fails_bind_iff.1 hf
    have hlt := hfails hf hblames
    obtain ⟨f', hf'⟩ := (h.determined hagree).fails hf hblames hb
    rw [hsees hagree (by omega)] at hf'
    exact ⟨f', (hlook c').fails_bind_iff.2 hf'⟩

/-- Taking the current token. -/
theorem advance_bind {t : Token} (ht : Spans c [t] c.next) (hlive : Live Z) {k : Unit → Parser β}
    (h : Tracks (k ()) (fun us b => Z (t :: us) b) c.next) : Tracks (advance >>= k) Z c := by
  have hnext : ∀ c, Reads advance c () c.next := fun _ => reads_advance.2 rfl
  have hindex : c.next.index = c.index + 1 := ht.index
  refine ⟨hlive, ?_, ?_, fun {c' b} hagree => ⟨?_, ?_⟩⟩
  · intro b c₁ hr
    obtain ⟨us, hZ, hspan⟩ := h.reads ((hnext c).bind_iff.1 hr)
    exact ⟨t :: us, hZ, ht.trans hspan⟩
  · intro f hf
    obtain ⟨us, hstart, hblames, hZ⟩ := h.fails ((hnext c).fails_bind_iff.1 hf)
    refine ⟨t :: us, ?_, ?_, hZ⟩
    · rw [ht.rest]
      exact (List.prefix_append_right_inj [t]).2 hstart
    · rwa [hindex, Nat.add_assoc, Nat.add_comm 1] at hblames
  · intro a c₁ hr hb
    have hr := (hnext c).bind_iff.1 hr
    have hle := h.index_le_of_reads hr
    obtain ⟨-, -, -, hagree'⟩ := hagree.exists_head (by omega)
    obtain ⟨c₁', hr', hagree₁⟩ := (h.determined hagree').reads hr hb
    exact ⟨c₁', (hnext c').bind_iff.2 hr', hagree₁⟩
  · intro f i hf hblames hb
    have hf := (hnext c).fails_bind_iff.1 hf
    have hle := h.index_le_of_fails hf hblames
    obtain ⟨-, -, -, hagree'⟩ := hagree.exists_head (by omega)
    obtain ⟨f', hf'⟩ := (h.determined hagree').fails hf hblames hb
    exact ⟨f', (hnext c').fails_bind_iff.2 hf'⟩

/-- A sequence fails in its first rule, or in the second behind a phrase of the first. -/
theorem fails_of_bind (hp : Tracks p X c) {k : α → Parser β}
    (hk : ∀ ts a c₁, X ts a → Tracks (k a) (fun us b => Z (ts ++ us) b) c₁) {f : GrammarFault}
    (hf : Fails (p >>= k) c f) :
    ∃ ts, ts <+: c.rest ∧ f.Blames (c.index + ts.length) ∧ Live fun us b => Z (ts ++ us) b := by
  rcases fails_bind.1 hf with hf | ⟨a, c₁, ha, hf⟩
  · obtain ⟨ts, hstart, hblames, us, a, hn, hX⟩ := hp.fails hf
    obtain ⟨vs, b, hn', hZ⟩ := (hk _ a c hX).live
    refine ⟨ts, hstart, hblames, us ++ vs, b, hn.append hn', ?_⟩
    rwa [List.append_assoc] at hZ
  · obtain ⟨ts, hX, hspan⟩ := hp.reads ha
    obtain ⟨us, hstart, hblames, vs, b, hn, hZ⟩ := (hk ts a c₁ hX).fails hf
    refine ⟨ts ++ us, ?_, ?_, vs, b, hn, ?_⟩
    · rw [hspan.rest]
      exact (List.prefix_append_right_inj ts).2 hstart
    · rwa [hspan.index, Nat.add_assoc, ← List.length_append] at hblames
    · rwa [← List.append_assoc] at hZ

theorem determined_bind (hp : Tracks p X c) {k : α → Parser β}
    (hk : ∀ ts a c₁, X ts a → Tracks (k a) (fun us b => Z (ts ++ us) b) c₁) {b : Nat}
    (hagree : Agree b c c') : Determined (p >>= k) b c c' := by
  constructor
  · intro d c₂ hr hb
    obtain ⟨a, c₁, ha, hd⟩ := reads_bind.1 hr
    obtain ⟨ts, hX, hspan⟩ := hp.reads ha
    have hrest := hk ts a c₁ hX
    have hle := hrest.index_le_of_reads hd
    obtain ⟨c₁', ha', hagree₁⟩ := (hp.determined hagree).reads ha (by omega)
    obtain ⟨c₂', hd', hagree₂⟩ := (hrest.determined hagree₁).reads hd hb
    exact ⟨c₂', ha'.bind_iff.2 hd', hagree₂⟩
  · intro f i hf hblames hb
    rcases fails_bind.1 hf with hf | ⟨a, c₁, ha, hf⟩
    · obtain ⟨f', hf'⟩ := (hp.determined hagree).fails hf hblames hb
      exact ⟨f', fails_bind.2 (.inl hf')⟩
    · obtain ⟨ts, hX, hspan⟩ := hp.reads ha
      have hrest := hk ts a c₁ hX
      have hle := hrest.index_le_of_fails hf hblames
      obtain ⟨c₁', ha', hagree₁⟩ := (hp.determined hagree).reads ha (by omega)
      obtain ⟨f', hf'⟩ := (hrest.determined hagree₁).fails hf hblames hb
      exact ⟨f', ha'.fails_bind_iff.2 hf'⟩

theorem bind (hp : Tracks p X c) {k : α → Parser β}
    (hk : ∀ ts a c₁, X ts a → Tracks (k a) (fun us b => Z (ts ++ us) b) c₁) :
    Tracks (p >>= k) Z c where
  live := by
    obtain ⟨ts, a, hn, hX⟩ := hp.live
    obtain ⟨us, b, hn', hZ⟩ := (hk ts a c hX).live
    exact ⟨ts ++ us, b, hn.append hn', hZ⟩
  reads hr := by
    obtain ⟨a, c₁, ha, hb⟩ := reads_bind.1 hr
    obtain ⟨ts, hX, hspan⟩ := hp.reads ha
    obtain ⟨us, hZ, hspan'⟩ := (hk ts a c₁ hX).reads hb
    exact ⟨ts ++ us, hZ, hspan.trans hspan'⟩
  fails hf := hp.fails_of_bind hk hf
  determined hagree := hp.determined_bind hk hagree

theorem pure {a : α} (h : X [] a) : Tracks (Pure.pure a) X c := by
  refine ⟨⟨[], a, by simp [NonnegPrecedence], h⟩, ?_, fun hf => absurd hf not_fails_pure,
    fun hagree => ⟨?_, fun hf => absurd hf not_fails_pure⟩⟩
  · intro b c₁ hr
    obtain ⟨rfl, rfl⟩ := reads_pure.1 hr
    exact ⟨[], h, .refl c⟩
  · intro b c₁ hr hb
    obtain ⟨rfl, rfl⟩ := reads_pure.1 hr
    exact ⟨_, reads_pure.2 ⟨rfl, rfl⟩, hagree⟩

/-- A rule that gives up at once blames the current token, before which all is still possible. -/
theorem fail (h : Live X) {e : Expectation} {wanted hint : Option String}
    (hblames : ∀ {f}, Fails (Parser.fail (α := α) e wanted hint) c f → f.Blames c.index) :
    Tracks (Parser.fail e wanted hint) X c :=
  ⟨h, fun hr => absurd hr not_reads_fail, fun hf => ⟨[], List.nil_prefix, hblames hf, h⟩,
    fun _ => ⟨fun hr => absurd hr not_reads_fail, fun _ _ _ => ⟨_, fails_fail.2 rfl⟩⟩⟩

/-- What a rule reads can be described by a finer relation that has the same words. -/
theorem of_exists (h : Tracks p X c) {Y : List Token → α → Prop}
    (hreads : ∀ {a c₁}, Reads p c a c₁ → ∃ ts, Y ts a ∧ Spans c ts c₁)
    (hwords : ∀ ts a, X ts a → ∃ a', Y ts a') : Tracks p Y c := by
  refine ⟨?_, hreads, ?_, h.determined⟩
  · obtain ⟨ts, a, hn, hX⟩ := h.live
    obtain ⟨a', hY⟩ := hwords ts a hX
    exact ⟨ts, a', hn, hY⟩
  · intro f hf
    obtain ⟨ts, hstart, hblames, us, a, hn, hX⟩ := h.fails hf
    obtain ⟨a', hY⟩ := hwords _ a hX
    exact ⟨ts, hstart, hblames, us, a', hn, hY⟩

theorem mono (h : Tracks p X c) {Y : List Token → α → Prop} (hXY : ∀ ts a, X ts a → Y ts a) :
    Tracks p Y c := by
  refine h.of_exists (fun hr => ?_) fun ts a hX => ⟨a, hXY ts a hX⟩
  obtain ⟨ts, hX, hspan⟩ := h.reads hr
  exact ⟨ts, hXY ts _ hX, hspan⟩

/-- A rule that takes its fuel from the place where it starts. -/
theorem fueled {q : Nat → Parser α} (hq : Settles q) (h : ∀ n, Tracks (q n) X c) :
    Tracks (fun c => q c.fuel c) X c := by
  refine ⟨(h 0).live, fun hr => (h c.fuel).reads hr, fun hf => (h c.fuel).fails hf, ?_⟩
  intro c' b hagree
  -- The two places may have different fuel; a larger one makes no difference at either.
  have hrun := hq c _ (Nat.le_max_left c.fuel c'.fuel)
  have hrun' := hq c' _ (Nat.le_max_right c.fuel c'.fuel)
  have hdet := (h (max c.fuel c'.fuel)).determined hagree
  constructor
  · intro a c₁ hr hb
    obtain ⟨c₁', hr', hagree'⟩ := hdet.reads (hrun.trans hr) hb
    exact ⟨c₁', hrun'.symm.trans hr', hagree'⟩
  · rintro f i ⟨c₁, hf⟩ hblames hb
    obtain ⟨f', c₁', hf'⟩ := hdet.fails ⟨c₁, hrun.trans hf⟩ hblames hb
    exact ⟨f', c₁', hrun'.symm.trans hf'⟩

/-- A symbol is taken if it is there. -/
theorem take?_bind {s : Symbol} {k : Bool → Parser β}
    (htrue : ∀ t c₁, Is t s → Tracks (k true) (fun us b => Z (t :: us) b) c₁)
    (hfalse : Tracks (k false) Z c) : Tracks (take? s >>= k) Z c := by
  rw [take?, bind_assoc]
  refine isAt_bind ?_
  cases hs : c.sees s with
  | false => simpa using hfalse
  | true =>
    obtain ⟨t, ht, hspan⟩ := Cursor.exists_of_sees hs
    rw [if_pos rfl, bind_assoc]
    refine advance_bind hspan hfalse.live ?_
    rw [pure_bind]
    exact htrue t c.next ht

end Tracks

structure ReadsToken (p : Parser α) (R : Token → α → Prop) : Prop where
  reads {c : Cursor} {a : α} {c₁ : Cursor} : Reads p c a c₁ ↔ ∃ t, R t a ∧ Spans c [t] c₁
  fails {c : Cursor} {f : GrammarFault} : Fails p c f → f.Blames c.index
  live : ∃ t a, 0 ≤ t.precedence ∧ R t a

namespace ReadsToken

variable {p : Parser α} {R : Token → α → Prop} {Z : List Token → β → Prop}

theorem tracks (h : ReadsToken p R) : Tracks p (fun ts a => ∃ t, ts = [t] ∧ R t a) c := by
  have hlive : Live fun ts a => ∃ t, ts = [t] ∧ R t a := by
    obtain ⟨t, a, ht, hR⟩ := h.live
    exact ⟨[t], a, by simp [NonnegPrecedence, ht], t, rfl, hR⟩
  refine ⟨hlive, ?_, fun hf => ⟨[], List.nil_prefix, h.fails hf, hlive⟩,
    fun {c' b} hagree => ⟨?_, ?_⟩⟩
  · intro a c₁ hr
    obtain ⟨t, hR, hspan⟩ := h.reads.1 hr
    exact ⟨[t], ⟨t, rfl, hR⟩, hspan⟩
  · intro a c₁ hr hb
    obtain ⟨t, hR, hspan⟩ := h.reads.1 hr
    have hindex := hspan.index
    obtain ⟨u, hu, hu', hagree'⟩ := hagree.exists_head (by omega)
    obtain ⟨ht, rfl⟩ := Cursor.spans_singleton.1 hspan
    obtain rfl : t = u := by simpa [ht] using hu.head
    exact ⟨c'.next, h.reads.2 ⟨t, hR, hu'⟩, hagree'⟩
  · intro f i hf hblames hb
    obtain rfl := hblames.unique (h.fails hf)
    obtain ⟨u, hu, hu', -⟩ := hagree.exists_head hb
    refine exists_fails fun a c₁ hr => ?_
    -- A token that the rule takes at one place it takes at the other, where it fails.
    obtain ⟨t, hR, hspan⟩ := h.reads.1 hr
    obtain ⟨ht, -⟩ := Cursor.spans_singleton.1 hspan
    obtain rfl : t = u := by simpa [ht] using hu'.head
    obtain ⟨c₂, hf⟩ := hf
    have hr : p.run c = _ := h.reads.2 ⟨t, hR, hu⟩
    rw [hf] at hr
    cases hr

theorem bind (h : ReadsToken p R) {k : α → Parser β}
    (hk : ∀ t a c₁, R t a → Tracks (k a) (fun us b => Z (t :: us) b) c₁) :
    Tracks (p >>= k) Z c := by
  refine h.tracks.bind ?_
  rintro _ a c₁ ⟨t, rfl, hR⟩
  exact hk t a c₁ hR

end ReadsToken

theorem fails_peek_bind {k : Option Token → Parser β} {f : GrammarFault} :
    Fails (peek >>= k) c f ↔ Fails (k c.rest.head?) c f :=
  (reads_peek.2 ⟨rfl, rfl⟩).fails_bind_iff

theorem fails_isAt_bind {s : Symbol} {k : Bool → Parser β} {f : GrammarFault} :
    Fails (isAt s >>= k) c f ↔ Fails (k (c.sees s)) c f :=
  (reads_isAt.2 ⟨rfl, rfl⟩).fails_bind_iff

theorem not_fails_advance {f : GrammarFault} : ¬ Fails advance c f := by
  rintro ⟨c', h⟩
  cases h

theorem not_fails_take? {s : Symbol} {f : GrammarFault} : ¬ Fails (take? s) c f := by
  rw [take?, fails_isAt_bind]
  split
  · rintro ⟨c', h⟩
    cases h
  · exact not_fails_pure

theorem blames_of_fail {e : Expectation} {wanted hint : Option String} {f : GrammarFault}
    (he : e ≠ .enumeration) (hf : Fails (fail (α := α) e wanted hint) c f) : f.Blames c.index := by
  obtain rfl := fails_fail.1 hf
  exact .reported fun h => he h.1

/-- A token that is a given symbol. -/
theorem exists_is (s : Symbol) : ∃ t : Token, 0 ≤ t.precedence ∧ Is t s :=
  ⟨⟨.symbol s "", "", 0, 0⟩, Int.le_refl 0, Token.isSymbol_of_content rfl⟩

theorem exists_isName : ∃ (t : Token) (x : String), 0 ≤ t.precedence ∧ IsName t x :=
  ⟨⟨.symbol .identifier "x", "x", 0, 0⟩, "x", Int.le_refl 0, rfl⟩

theorem readsToken_expect {s : Symbol} {e : Expectation} {wanted : Option String}
    (he : e ≠ .enumeration) : ReadsToken (expect s e wanted) (fun t _ => Is t s) := by
  refine ⟨reads_expect, fun {c f} hf => ?_, ?_⟩
  · rw [expect, fails_isAt_bind] at hf
    split at hf
    · exact absurd hf not_fails_advance
    · exact blames_of_fail he hf
  · obtain ⟨t, ht, hs⟩ := exists_is s
    exact ⟨t, (), ht, hs⟩

theorem readsToken_mark {s : Symbol} {text : String} :
    ReadsToken (mark s text) (fun t _ => Is t s) :=
  readsToken_expect (by decide)

theorem readsToken_identifier : ReadsToken identifier IsName := by
  refine ⟨reads_identifier, fun {c f} hf => ?_, exists_isName⟩
  rw [identifier, fails_peek_bind] at hf
  split at hf
  · exact absurd hf (by rintro ⟨c', h⟩; cases h)
  · exact blames_of_fail (by decide) hf

theorem readsToken_typeName : ReadsToken typeName IsType := by
  refine ⟨reads_typeName, fun {c f} hf => ?_, ?_⟩
  · rw [typeName, fails_peek_bind] at hf
    split at hf
    · split at hf
      · exact absurd hf (by rintro ⟨c', h⟩; cases h)
      · split at hf
        · exact absurd hf (by rintro ⟨c', h⟩; cases h)
        · exact blames_of_fail (by decide) hf
    · exact blames_of_fail (by decide) hf
  · obtain ⟨t, x, ht, hx⟩ := exists_isName
    exact ⟨t, x, ht, .named hx⟩

theorem readsToken_statementEnd : ReadsToken statementEnd (fun t _ => Is t .semicolon) := by
  refine ⟨reads_statementEnd, fun {c f} hf => ?_, ?_⟩
  · rw [statementEnd, fails_isAt_bind] at hf
    split at hf
    · exact absurd hf not_fails_advance
    · rw [fails_peek_bind] at hf
      split at hf
      · split at hf
        · exact blames_of_fail (by decide) hf
        · exact blames_of_fail (by decide) hf
      · exact blames_of_fail (by decide) hf
  · obtain ⟨t, ht, hs⟩ := exists_is .semicolon
    exact ⟨t, (), ht, hs⟩

theorem readsToken_mutability : ReadsToken mutability IsMutability := by
  refine ⟨reads_mutability, fun {c f} hf => ?_, ?_⟩
  · rcases fails_bind.1 hf with hf | ⟨b, c₁, hb, hf⟩
    · exact absurd hf not_fails_take?
    cases b with
    | true => exact absurd hf not_fails_pure
    | false =>
    obtain ⟨-, rfl⟩ := reads_take?_false.1 hb
    rcases fails_bind.1 hf with hf | ⟨b, c₁, hb, hf⟩
    · exact absurd hf not_fails_take?
    cases b with
    | true => exact absurd hf not_fails_pure
    | false =>
    obtain ⟨-, rfl⟩ := reads_take?_false.1 hb
    exact blames_of_fail (by decide) hf
  · obtain ⟨t, ht, hs⟩ := exists_is .letWord
    exact ⟨t, .immutable, ht, .immutable hs⟩

end Parser

end SumLang
