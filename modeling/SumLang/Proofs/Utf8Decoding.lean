import SumLang.Text.Utf8

/-! Decoding accepts exactly the encoded texts. The well-formed byte sequences of one character
stand between the two: the decoder reads them, and the encoder writes each of them once. -/
namespace SumLang

theorem exists_of_map_eq_ok {ε α β : Type} {f : α → β} {x : Except ε α} {b : β}
    (h : x.map f = .ok b) : ∃ a, x = .ok a ∧ f a = b := by
  cases x with
  | error e => cases h
  | ok a =>
    cases h
    exact ⟨a, rfl, rfl⟩

namespace Text

def Continues (b : UInt8) : Prop := 0x80 ≤ b.toNat ∧ b.toNat ≤ 0xBF

/-- The byte sequences of one character, by length, with its code point. The second byte is bounded
after a start byte at the end of a range: no shorter sequence, surrogate or value above the last
code point is left. -/
inductive Sequence : List UInt8 → Nat → Prop where
  | one {a : UInt8} : a.toNat < 0x80 → Sequence [a] a.toNat
  | two {a b : UInt8} : 0xC2 ≤ a.toNat → a.toNat ≤ 0xDF → Continues b →
      Sequence [a, b] (a.toNat % 32 * 64 + b.toNat % 64)
  | three {a b c : UInt8} : 0xE0 ≤ a.toNat → a.toNat ≤ 0xEF → Continues b → Continues c →
      (a.toNat = 0xE0 → 0xA0 ≤ b.toNat) → (a.toNat = 0xED → b.toNat ≤ 0x9F) →
      Sequence [a, b, c] ((a.toNat % 16 * 64 + b.toNat % 64) * 64 + c.toNat % 64)
  | four {a b c d : UInt8} : 0xF0 ≤ a.toNat → a.toNat ≤ 0xF4 → Continues b → Continues c →
      Continues d → (a.toNat = 0xF0 → 0x90 ≤ b.toNat) → (a.toNat = 0xF4 → b.toNat ≤ 0x8F) →
      Sequence [a, b, c, d]
        (((a.toNat % 8 * 64 + b.toNat % 64) * 64 + c.toNat % 64) * 64 + d.toNat % 64)

namespace Sequence

/-- A character is encoded as a sequence of its code point. -/
theorem of_char (c : Char) : Sequence (String.utf8EncodeChar c) c.toNat := by
  have hvalid : c.val.toNat < 0xD800 ∨ 0xDFFF < c.val.toNat ∧ c.val.toNat < 0x110000 := c.valid
  change Sequence _ c.val.toNat
  rw [String.utf8EncodeChar]
  generalize c.val.toNat = v at hvalid
  have byte {k : Nat} (hk : k < 256) : (UInt8.ofNat k).toNat = k := UInt8.toNat_ofNat_of_lt' hk
  have tail (k : Nat) : (UInt8.ofNat (k % 64 + 128)).toNat = k % 64 + 128 := byte (by omega)
  have continues (k : Nat) : Continues (UInt8.ofNat (k % 64 + 128)) := by
    rw [Continues, tail]
    omega
  split
  case isTrue hv =>
    have h : Sequence [UInt8.ofNat v] (UInt8.ofNat v).toNat := .one (by rw [byte] <;> omega)
    rwa [byte (by omega)] at h
  split
  case isTrue hv =>
    have ha : (UInt8.ofNat (v / 64 % 32 + 192)).toNat = v / 64 % 32 + 192 := byte (by omega)
    have h := two (a := UInt8.ofNat (v / 64 % 32 + 192)) (by omega) (by omega) (continues v)
    have hcode : (v / 64 % 32 + 192) % 32 * 64 + (v % 64 + 128) % 64 = v := by omega
    rwa [ha, tail, hcode] at h
  split
  case isTrue hv =>
    have ha : (UInt8.ofNat (v / 4096 % 16 + 224)).toNat = v / 4096 % 16 + 224 := byte (by omega)
    have h := three (a := UInt8.ofNat (v / 4096 % 16 + 224)) (by omega) (by omega)
      (continues (v / 64)) (continues v) (by rw [ha, tail]; omega) (by rw [ha, tail]; omega)
    have hcode : ((v / 4096 % 16 + 224) % 16 * 64 + (v / 64 % 64 + 128) % 64) * 64 +
        (v % 64 + 128) % 64 = v := by omega
    rwa [ha, tail, tail, hcode] at h
  case isFalse hv =>
    have ha : (UInt8.ofNat (v / 262144 % 8 + 240)).toNat = v / 262144 % 8 + 240 := byte (by omega)
    have h := four (a := UInt8.ofNat (v / 262144 % 8 + 240)) (by omega) (by omega)
      (continues (v / 4096)) (continues (v / 64)) (continues v) (by rw [ha, tail]; omega)
      (by rw [ha, tail]; omega)
    have hcode : (((v / 262144 % 8 + 240) % 8 * 64 + (v / 4096 % 64 + 128) % 64) * 64 +
        (v / 64 % 64 + 128) % 64) * 64 + (v % 64 + 128) % 64 = v := by omega
    rwa [ha, tail, tail, tail, hcode] at h

theorem isValidChar {bytes : List UInt8} {n : Nat} (h : Sequence bytes n) : n.isValidChar := by
  cases h with
  | one ha => left; omega
  | two ha ha' hb => left; omega
  | three ha ha' hb hc hlow hhigh =>
    simp only [Continues] at hb hc
    simp only [Nat.isValidChar]
    omega
  | four ha ha' hb hc hd hlow hhigh =>
    simp only [Continues] at hb hc hd
    right
    omega

/-- A sequence is the encoding of its code point. -/
theorem eq_encode {bytes : List UInt8} {n : Nat} (h : Sequence bytes n) :
    bytes = String.utf8EncodeChar (Char.ofNat n) := by
  have hval : (Char.ofNat n).val.toNat = n := by
    have := h.isValidChar
    rw [Char.ofNat, dif_pos this]
    rfl
  have byte {a : UInt8} {k : Nat} (hk : k = a.toNat) : UInt8.ofNat k = a := by
    rw [hk, UInt8.ofNat_toNat]
  rw [String.utf8EncodeChar, hval]
  cases h with
  | @one a ha => rw [if_pos (by omega), byte rfl]
  | @two a b ha ha' hb =>
    obtain ⟨hb, hb'⟩ := hb
    have := a.toNat_lt
    rw [if_neg (by omega), if_pos (by omega), byte (a := a) (by omega), byte (a := b) (by omega)]
  | @three a b c ha ha' hb hc hlow hhigh =>
    obtain ⟨hb, hb'⟩ := hb
    obtain ⟨hc, hc'⟩ := hc
    rw [if_neg (by omega), if_neg (by omega), if_pos (by omega), byte (a := a) (by omega),
      byte (a := b) (by omega), byte (a := c) (by omega)]
  | @four a b c d ha ha' hb hc hd hlow hhigh =>
    obtain ⟨hb, hb'⟩ := hb
    obtain ⟨hc, hc'⟩ := hc
    obtain ⟨hd, hd'⟩ := hd
    rw [if_neg (by omega), if_neg (by omega), if_neg (by omega), byte (a := a) (by omega),
      byte (a := b) (by omega), byte (a := c) (by omega), byte (a := d) (by omega)]

end Sequence

/-- The second bytes that a start byte allows, in numbers. -/
theorem continuationPlan_iff {a b : UInt8} {more : Nat} :
    (∃ low high, continuationPlan a = some (low, high, more) ∧ low ≤ b ∧ b ≤ high) ↔
      Continues b ∧
        (more = 0 ∧ 0xC2 ≤ a.toNat ∧ a.toNat ≤ 0xDF ∨
          more = 1 ∧ 0xE0 ≤ a.toNat ∧ a.toNat ≤ 0xEF ∧ (a.toNat = 0xE0 → 0xA0 ≤ b.toNat) ∧
            (a.toNat = 0xED → b.toNat ≤ 0x9F) ∨
          more = 2 ∧ 0xF0 ≤ a.toNat ∧ a.toNat ≤ 0xF4 ∧ (a.toNat = 0xF0 → 0x90 ≤ b.toNat) ∧
            (a.toNat = 0xF4 → b.toNat ≤ 0x8F)) := by
  have range (l h : UInt8) (k : Nat) :
      (∃ low high, some (l, h, k) = some (low, high, more) ∧ low.toNat ≤ b.toNat ∧
        b.toNat ≤ high.toNat) ↔ k = more ∧ l.toNat ≤ b.toNat ∧ b.toNat ≤ h.toNat := by
    constructor
    · rintro ⟨low, high, hplan, hlow, hhigh⟩
      cases hplan
      exact ⟨rfl, hlow, hhigh⟩
    · rintro ⟨rfl, hlow, hhigh⟩
      exact ⟨l, h, rfl, hlow, hhigh⟩
  simp only [continuationPlan, Continues, Bool.and_eq_true, decide_eq_true_eq, beq_iff_eq,
    UInt8.le_iff_toNat_le, ← UInt8.toNat_inj, UInt8.reduceToNat]
  repeat' split
  all_goals
    simp only [range, reduceCtorEq, false_and, exists_false, false_iff, UInt8.reduceToNat]
    omega

theorem isContinuation_iff {b : UInt8} : isContinuation b = true ↔ Continues b := by
  simp [isContinuation, Continues, UInt8.le_iff_toNat_le]

/-- One character is read where its sequence stands. -/
theorem decodeChar_of_sequence {a : UInt8} {bytes : List UInt8} {n : Nat}
    (h : Sequence (a :: bytes) n) (rest : List UInt8) :
    decodeChar a (bytes ++ rest) = .ok (n, bytes.length) := by
  -- A start byte of several bytes is not below `0x80`, and its plan has room for the second byte.
  have start {b : UInt8} {more : Nat} {bs : List UInt8} (ha : 0x80 ≤ a.toNat)
      (hplan : ∃ low high, continuationPlan a = some (low, high, more) ∧ low ≤ b ∧ b ≤ high) :
      decodeChar a (b :: bs) =
        (takeContinuations (startBits a more * 64 + b.toNat % 64) 2 more bs).map
          (·, more + 1) := by
    obtain ⟨low, high, hplan, hlow, hhigh⟩ := hplan
    have hsmall : ¬ a < 0x80 := by simpa [UInt8.lt_iff_toNat_lt] using ha
    simp [decodeChar, hsmall, hplan, hlow, hhigh]
  cases h with
  | one ha =>
    have hsmall : a < 0x80 := UInt8.lt_iff_toNat_lt.2 ha
    simp [decodeChar, hsmall]
  | two ha ha' hb =>
    have hplan := continuationPlan_iff.2 ⟨hb, .inl ⟨rfl, ha, ha'⟩⟩
    exact start (by omega) hplan
  | three ha ha' hb hc hlow hhigh =>
    have hplan := continuationPlan_iff.2 ⟨hb, .inr (.inl ⟨rfl, ha, ha', hlow, hhigh⟩)⟩
    have hc := isContinuation_iff.2 hc
    refine (start (by omega) hplan).trans ?_
    simp [takeContinuations, hc, startBits, Except.map]
  | four ha ha' hb hc hd hlow hhigh =>
    have hplan := continuationPlan_iff.2 ⟨hb, .inr (.inr ⟨rfl, ha, ha', hlow, hhigh⟩)⟩
    have hc := isContinuation_iff.2 hc
    have hd := isContinuation_iff.2 hd
    refine (start (by omega) hplan).trans ?_
    simp [takeContinuations, hc, hd, startBits, Except.map]

theorem takeContinuations_succ_eq_ok {code taken more n : Nat} {bytes : List UInt8}
    (h : takeContinuations code taken (more + 1) bytes = .ok n) :
    ∃ b rest, bytes = b :: rest ∧ Continues b ∧
      takeContinuations (code * 64 + b.toNat % 64) (taken + 1) more rest = .ok n := by
  cases bytes with
  | nil => cases h
  | cons b rest =>
    rw [takeContinuations] at h
    split at h
    case isTrue hb => exact ⟨b, rest, rfl, isContinuation_iff.1 hb, h⟩
    case isFalse => cases h

/-- What is read as one character is its sequence. -/
theorem sequence_of_decodeChar {a : UInt8} {bytes : List UInt8} {n more : Nat}
    (h : decodeChar a bytes = .ok (n, more)) : Sequence (a :: bytes.take more) n := by
  rw [decodeChar] at h
  split at h
  case isTrue hsmall =>
    cases h
    exact .one (UInt8.lt_iff_toNat_lt.1 hsmall)
  split at h
  case h_1 => cases h
  case h_2 low high further hplan =>
    cases bytes with
    | nil => cases h
    | cons b bytes =>
      dsimp only at h
      split at h
      case isFalse => cases h
      case isTrue hrange =>
        simp only [Bool.and_eq_true, decide_eq_true_eq] at hrange
        obtain ⟨code, hcode, hmore⟩ := exists_of_map_eq_ok h
        cases hmore
        obtain ⟨hb, ⟨rfl, ha, ha'⟩ | ⟨rfl, ha, ha', hlow, hhigh⟩ | ⟨rfl, ha, ha', hlow, hhigh⟩⟩ :=
          continuationPlan_iff.1 ⟨low, high, hplan, hrange⟩
        · cases hcode
          exact .two ha ha' hb
        · obtain ⟨c, rest, rfl, hc, hcode⟩ := takeContinuations_succ_eq_ok hcode
          cases hcode
          exact .three ha ha' hb hc hlow hhigh
        · obtain ⟨c, rest, rfl, hc, hcode⟩ := takeContinuations_succ_eq_ok hcode
          obtain ⟨d, rest, rfl, hd, hcode⟩ := takeContinuations_succ_eq_ok hcode
          cases hcode
          exact .four ha ha' hb hc hd hlow hhigh

theorem decodeFrom_encode_append (position : Nat) (c : Char) (rest : List UInt8) :
    ∃ next, decodeFrom position (String.utf8EncodeChar c ++ rest) =
      (decodeFrom next rest).map (c :: ·) := by
  have hsequence := Sequence.of_char c
  obtain ⟨a, bytes, hbytes⟩ := List.exists_cons_of_ne_nil (String.utf8EncodeChar_ne_nil (c := c))
  rw [hbytes] at hsequence ⊢
  rw [List.cons_append, decodeFrom, decodeChar_of_sequence hsequence]
  refine ⟨position + 1 + bytes.length, ?_⟩
  simp

/-- Decoding accepts exactly the encoded texts. -/
theorem decodeUtf8_eq_ok_iff {bytes : List UInt8} {cs : List Char} :
    decodeUtf8 bytes = .ok cs ↔ bytes = encodeUtf8 (String.ofList cs) := by
  rw [decodeUtf8, encodeUtf8, String.toList_ofList]
  generalize 0 = position
  constructor
  · intro h
    fun_induction decodeFrom position bytes generalizing cs with
    | case1 => cases h; rfl
    | case2 => cases h
    | case3 position b bytes n more hchar ih =>
      obtain ⟨cs, hcs, rfl⟩ := exists_of_map_eq_ok h
      have hsequence := (sequence_of_decodeChar hchar).eq_encode
      rw [List.flatMap_cons, ← hsequence, ← ih hcs, List.cons_append, List.take_append_drop]
  · rintro rfl
    induction cs generalizing position with
    | nil => rw [List.flatMap_nil, decodeFrom]
    | cons c cs ih =>
      obtain ⟨next, hnext⟩ := decodeFrom_encode_append position c (cs.flatMap String.utf8EncodeChar)
      rw [List.flatMap_cons, hnext, ih]
      rfl

end Text

end SumLang
