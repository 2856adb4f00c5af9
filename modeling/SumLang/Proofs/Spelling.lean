import SumLang.Proofs.MaximalMunch

/-! Texts whose tokens do not depend on what follows them. -/
namespace SumLang.Token

/-- The text does not continue a lexeme that stands before it. -/
def Boundary (cs : List Char) : Prop :=
  ∀ c ∈ cs.head?, isWordPart c = false ∧ c ≠ '.' ∧ c ≠ '>'

theorem boundary_nil : Boundary [] := by
  simp [Boundary]

theorem boundary_cons {c : Char} {cs : List Char} :
    Boundary (c :: cs) ↔ isWordPart c = false ∧ c ≠ '.' ∧ c ≠ '>' := by
  simp [Boundary]

theorem Boundary.append {cs ds : List Char} (h : Boundary cs) (h' : Boundary ds) :
    Boundary (cs ++ ds) := by
  cases cs with
  | nil => exact h'
  | cons c cs => exact h

/-- Behind its first character a lexeme other than a string holds nothing that marks a boundary. -/
theorem Spells.mem_tail {c d : Char} {v : List Char} {a : Content} {p : Int}
    (h : Spells (c :: v) a p) (hc : c ≠ '"') (hd : d ∈ v) :
    isWordPart d = true ∨ d = '.' ∨ d = '>' := by
  have hdigit : d.isDigit = true → isWordPart d = true := fun hd => by
    simp [isWordPart, Char.isAlphanum, hd]
  cases h with
  | word _ hall => exact .inl (isWordPart_iff.2 (hall d hd))
  | arrow => exact .inr (.inr (by simpa using hd))
  | mark => simp at hd
  | integer hall => exact .inl (hdigit (hall d (by simp [hd])))
  | @float _ ds f fs hall hfs =>
    rcases List.mem_append.1 hd with hd | hd
    · exact .inl (hdigit (hall d (by simp [hd])))
    rcases List.mem_cons.1 hd with rfl | hd
    · exact .inr (.inl rfl)
    · exact .inl (hdigit (hfs d hd))
  | string => exact absurd rfl hc

/-- What stands behind a boundary does not matter for the longest lexeme before it. -/
theorem Longest.change_rest {w r r₁ r₂ : List Char} (h : Longest w (w ++ (r ++ r₁)))
    (hb : Boundary r₂) : Longest w (w ++ (r ++ r₂)) := by
  obtain ⟨a, p, hs⟩ := h.lexeme
  obtain ⟨c, w, rfl⟩ := hs.exists_cons
  by_cases hc : c = '"'
  · subst hc
    obtain ⟨cs, s, rfl, hq, -, -⟩ := hs.string_of_quote
    simpa using longest_string hq (r ++ r₂)
  · rw [← List.append_assoc, List.cons_append] at h ⊢
    rw [List.cons_append, List.append_assoc]
    refine longest_cons (List.prefix_append w _) h.lexeme ?_
    rintro v hv ⟨a', p', hs'⟩
    rw [← List.append_assoc] at hv
    by_cases hlen : v.length ≤ (w ++ r).length
    · have hvr := List.prefix_of_prefix_length_le hv (List.prefix_append (w ++ r) r₂) hlen
      have hle := h.greatest (c :: v) (List.cons_prefix_cons.2
        ⟨rfl, hvr.trans (List.prefix_append _ r₁)⟩) ⟨a', p', hs'⟩
      simpa using hle
    · -- A longer lexeme would hold the first character behind the boundary.
      cases r₂ with
      | nil =>
        have hle := hv.length_le
        simp only [List.append_nil] at hle
        exact absurd hle hlen
      | cons d r₂ =>
        have hpre : w ++ r ++ [d] <+: v := by
          refine List.prefix_of_prefix_length_le (by simp) hv ?_
          simp only [List.length_append, List.length_singleton] at hlen ⊢
          omega
        obtain ⟨hword, hdot, harrow⟩ := boundary_cons.1 hb
        have hd : d ∈ v := hpre.subset (by simp)
        rcases hs'.mem_tail hc hd with hd | hd | hd
        · simp [hd] at hword
        · exact absurd hd hdot
        · exact absurd hd harrow

theorem Spells.longest {w rest : List Char} {a : Content} {p : Int} (h : Spells w a p)
    (hb : Boundary rest) : Longest w (w ++ rest) := by
  have hself : Longest w (w ++ ([] ++ [])) :=
    ⟨by simp, ⟨a, p, h⟩, fun v hv _ => by simpa using hv.length_le⟩
  exact hself.change_rest hb

/-- Before any boundary the text scans as tokens that satisfy `P`. -/
def Scans (cs : List Char) (P : List Token → Prop) : Prop :=
  ∀ position rest, Boundary rest → ∃ ts, P ts ∧
    scanFrom position (cs ++ rest) =
      (ts ++ (scanFrom (position + cs.length) rest).1, (scanFrom (position + cs.length) rest).2)

namespace Scans

variable {c : Char} {cs ds : List Char} {P Q : List Token → Prop}

theorem mono (h : Scans cs P) (hPQ : ∀ ts, P ts → Q ts) : Scans cs Q := by
  intro position rest hb
  obtain ⟨ts, hts, heq⟩ := h position rest hb
  exact ⟨ts, hPQ ts hts, heq⟩

theorem lexeme {a : Content} {p : Int} (h : Spells cs a p)
    (hlimit : ∀ n, a = .integer n → cs.length ≤ maxIntegerDigits) :
    Scans cs fun ts => ∃ t, ts = [t] ∧ t.content = a ∧ t.precedence = p := by
  intro position rest hb
  have htakes : Takes (cs ++ rest) cs a p :=
    ⟨h.longest hb, h, fun hd => (h.integer_of_digits hd).elim hlimit⟩
  exact ⟨_, ⟨_, rfl, rfl, rfl⟩, htakes.scanFrom_eq⟩

theorem append (h : Scans cs P) (h' : Scans ds Q) (hb : Boundary ds) :
    Scans (cs ++ ds) fun ts => ∃ us vs, ts = us ++ vs ∧ P us ∧ Q vs := by
  intro position rest hrest
  obtain ⟨us, hus, heq⟩ := h position (ds ++ rest) (hb.append hrest)
  obtain ⟨vs, hvs, heq'⟩ := h' (position + cs.length) rest hrest
  refine ⟨us ++ vs, ⟨us, vs, rfl, hus, hvs⟩, ?_⟩
  rw [List.append_assoc, heq, heq', List.append_assoc, List.length_append, Nat.add_assoc]

theorem space (h : Scans cs P) : Scans (' ' :: cs) P := by
  intro position rest hb
  obtain ⟨ts, hts, heq⟩ := h (position + 1) rest hb
  refine ⟨ts, hts, ?_⟩
  rw [List.cons_append, scanFrom_space (by decide), heq, List.length_cons, Nat.add_right_comm,
    Nat.add_assoc]

/-- A mark needs no boundary behind it, unless it can be the start of an arrow. -/
theorem mark {s : Symbol} {p : Int} (hm : (c, s, p) ∈ marks)
    (harrow : c = '-' → cs.head? ≠ some '>') (h : Scans cs P) :
    Scans (c :: cs) fun ts => ∃ t us, ts = t :: us ∧ t.content = .symbol s c.toString ∧
      t.precedence = p ∧ P us := by
  intro position rest hb
  obtain ⟨ts, hts, heq⟩ := h (position + 1) rest hb
  have hlongest : Longest [c] ([c] ++ (cs ++ rest)) := by
    refine longest_mark hm fun ⟨hc, hhead⟩ => ?_
    cases cs with
    | nil => exact (hb '>' hhead).2.2 rfl
    | cons d cs => exact harrow hc hhead
  have hdigit : c.isDigit = false := (start_of_mem_marks hm).2.1
  have htakes : Takes ([c] ++ (cs ++ rest)) [c] (.symbol s c.toString) p :=
    ⟨hlongest, .mark hm, fun hd => by simp [hd c (by simp)] at hdigit⟩
  refine ⟨⟨.symbol s c.toString, String.ofList [c], position, p⟩ :: ts,
    ⟨_, ts, rfl, rfl, rfl, hts⟩, ?_⟩
  rw [List.cons_append, ← List.singleton_append, htakes.scanFrom_eq, List.length_singleton, heq,
    List.length_cons, Nat.add_right_comm, Nat.add_assoc, List.cons_append]

end Scans

end SumLang.Token
