import Mathlib.Algebra.Order.Field.Power
import Mathlib.Algebra.Order.Ring.Rat
import Mathlib.Tactic.FieldSimp
import Mathlib.Tactic.Linarith
import Mathlib.Tactic.NormNum
import Mathlib.Tactic.Positivity
import Mathlib.Tactic.Ring
import SumLang.Double.Shortest

/-! The rounding of a positive rational to a double: the value that it lands on, and when it lands
on none. -/
namespace SumLang.Double

variable {num den m : ℕ} {q e : ℤ} {x : ℚ}

@[simp] theorem cast_powerOfTwo (n : ℕ) : (powerOfTwo n : ℚ) = 2 ^ n := by
  simp [powerOfTwo]

@[simp] theorem cast_powerOfTen (n : ℕ) : (powerOfTen n : ℚ) = 10 ^ n := by
  simp [powerOfTen]

theorem powerOfTwo_pos (n : ℕ) : 0 < powerOfTwo n := Nat.pow_pos (by decide)

theorem powerOfTen_pos (n : ℕ) : 0 < powerOfTen n := Nat.pow_pos (by decide)

theorem two_zpow_pos (e : ℤ) : (0 : ℚ) < 2 ^ e := zpow_pos (by norm_num) e

theorem two_zpow_add (e f : ℤ) : (2 : ℚ) ^ (e + f) = 2 ^ e * 2 ^ f := zpow_add₀ (by norm_num) e f

theorem two_zpow_le {e f : ℤ} (h : e ≤ f) : (2 : ℚ) ^ e ≤ 2 ^ f :=
  zpow_le_zpow_right₀ (by norm_num) h

/-- `m` is the integer nearest to `x`, of two at the same distance the even one. -/
structure IsNearest (x : ℚ) (m : ℕ) : Prop where
  low : (m : ℚ) - 1 / 2 ≤ x
  high : x ≤ m + 1 / 2
  tie : x = m - 1 / 2 ∨ x = m + 1 / 2 → m % 2 = 0

theorem IsNearest.le_succ {n : ℕ} (hm : IsNearest x m) (hn : IsNearest x n) : m ≤ n + 1 := by
  have h : (m : ℚ) ≤ n + 1 := by linarith [hm.low, hn.high]
  exact_mod_cast h

theorem IsNearest.ne_succ {n : ℕ} (hm : IsNearest x m) (hn : IsNearest x n) : m ≠ n + 1 := by
  rintro rfl
  have hlow := hm.low
  have hhigh := hn.high
  push_cast at hlow
  -- Both would be at the distance of a half, and two neighbours are not both even.
  have hx : x = n + 1 / 2 := by linarith
  have hsucc := hm.tie (.inl (by push_cast; linarith))
  have heven := hn.tie (.inr hx)
  omega

theorem IsNearest.unique {n : ℕ} (hm : IsNearest x m) (hn : IsNearest x n) : m = n := by
  have h := hm.le_succ hn
  have h' := hn.le_succ hm
  have hne := hm.ne_succ hn
  have hne' := hn.ne_succ hm
  omega

/-- The nearest integer to a quotient, in terms of its two parts. -/
theorem isNearest_div_iff (hd : 0 < den) :
    IsNearest (num / den) m ↔ 2 * (m * den) ≤ 2 * num + den ∧ 2 * num ≤ 2 * (m * den) + den ∧
      (2 * num + den = 2 * (m * den) ∨ 2 * num = 2 * (m * den) + den → m % 2 = 0) := by
  have hdq : (0 : ℚ) < den := by exact_mod_cast hd
  have hlow : (m : ℚ) - 1 / 2 ≤ num / den ↔ 2 * (m * den) ≤ 2 * num + den := by
    rw [le_div_iff₀ hdq, ← Nat.cast_le (α := ℚ)]
    push_cast
    constructor <;> intro h <;> linarith
  have hhigh : (num : ℚ) / den ≤ m + 1 / 2 ↔ 2 * num ≤ 2 * (m * den) + den := by
    rw [div_le_iff₀ hdq, ← Nat.cast_le (α := ℚ)]
    push_cast
    constructor <;> intro h <;> linarith
  have hbelow : (num : ℚ) / den = m - 1 / 2 ↔ 2 * num + den = 2 * (m * den) := by
    rw [div_eq_iff hdq.ne', ← Nat.cast_inj (R := ℚ)]
    push_cast
    constructor <;> intro h <;> linarith
  have habove : (num : ℚ) / den = m + 1 / 2 ↔ 2 * num = 2 * (m * den) + den := by
    rw [div_eq_iff hdq.ne', ← Nat.cast_inj (R := ℚ)]
    push_cast
    constructor <;> intro h <;> linarith
  rw [← hlow, ← hhigh, ← hbelow, ← habove]
  exact ⟨fun h => ⟨h.low, h.high, h.tie⟩, fun h => ⟨h.1, h.2.1, h.2.2⟩⟩

theorem isNearest_roundDiv (hd : 0 < den) : IsNearest (num / den) (roundDiv num den) := by
  have hdiv := Nat.div_add_mod num den
  have hmod := Nat.mod_lt num hd
  rw [isNearest_div_iff hd, roundDiv]
  generalize num % den = r at hdiv hmod ⊢
  generalize num / den = n at hdiv ⊢
  rw [Nat.mul_comm] at hdiv
  split
  · omega
  split
  · rw [Nat.add_one_mul n den]
    omega
  · obtain hn | hn := Nat.mod_two_eq_zero_or_one n
    · rw [hn, Nat.add_zero]
      omega
    · rw [hn, Nat.add_one_mul n den]
      omega

theorem scale_spec (num : ℕ) (hd : 0 < den) (e : ℤ) :
    0 < (scale num den e).2 ∧
      ((scale num den e).1 : ℚ) / (scale num den e).2 = num / den * 2 ^ e := by
  unfold scale
  split
  · next he =>
    obtain ⟨k, rfl⟩ := Int.eq_ofNat_of_zero_le he
    refine ⟨hd, ?_⟩
    rw [Int.toNat_natCast, Nat.cast_mul, cast_powerOfTwo, zpow_natCast, mul_div_right_comm]
  · next he =>
    obtain ⟨k, rfl⟩ : ∃ k : ℕ, e = -k := ⟨(-e).toNat, by omega⟩
    refine ⟨Nat.mul_pos hd (powerOfTwo_pos _), ?_⟩
    rw [neg_neg, Int.toNat_natCast, Nat.cast_mul, cast_powerOfTwo, zpow_neg, zpow_natCast,
      ← div_eq_mul_inv, div_div]

/-- A natural number between two powers of two. -/
theorem cast_log2_bounds (hn : num ≠ 0) :
    (2 : ℚ) ^ (num.log2 : ℤ) ≤ num ∧ (num : ℚ) < 2 ^ ((num.log2 : ℤ) + 1) := by
  have hlow : 2 ^ num.log2 ≤ num := Nat.log2_self_le hn
  have hhigh : num < 2 ^ (num.log2 + 1) := Nat.lt_log2_self
  constructor
  · rw [zpow_natCast]
    exact_mod_cast hlow
  · rw [← Nat.cast_succ, zpow_natCast]
    exact_mod_cast hhigh

/-- The power of two at or below a rational. -/
theorem binaryExponent_bounds (hn : 0 < num) (hd : 0 < den) :
    (2 : ℚ) ^ binaryExponent num den ≤ num / den ∧
      (num / den : ℚ) < 2 ^ (binaryExponent num den + 1) := by
  have hdq : (0 : ℚ) < den := by exact_mod_cast hd
  obtain ⟨hnlow, hnhigh⟩ := cast_log2_bounds hn.ne'
  obtain ⟨hdlow, hdhigh⟩ := cast_log2_bounds hd.ne'
  obtain ⟨hpos, hscale⟩ := scale_spec num hd (-((num.log2 : ℤ) - den.log2))
  unfold binaryExponent
  dsimp only
  generalize scale num den (-((num.log2 : ℤ) - den.log2)) = p at hpos hscale ⊢
  have hposq : (0 : ℚ) < p.2 := by exact_mod_cast hpos
  have htest : p.2 ≤ p.1 ↔ (2 : ℚ) ^ ((num.log2 : ℤ) - den.log2) ≤ num / den := by
    rw [← Nat.cast_le (α := ℚ), ← one_le_div hposq, hscale, zpow_neg, ← div_eq_mul_inv,
      one_le_div (two_zpow_pos _)]
  split
  · next h =>
    refine ⟨htest.1 h, ?_⟩
    rw [div_lt_iff₀ hdq]
    calc (num : ℚ) < 2 ^ ((num.log2 : ℤ) + 1) := hnhigh
      _ = 2 ^ ((num.log2 : ℤ) - den.log2 + 1) * 2 ^ (den.log2 : ℤ) := by
        rw [← two_zpow_add]
        congr 1
        ring
      _ ≤ 2 ^ ((num.log2 : ℤ) - den.log2 + 1) * den :=
        mul_le_mul_of_nonneg_left hdlow (two_zpow_pos _).le
  · next h =>
    rw [sub_add_cancel]
    refine ⟨?_, not_le.1 (mt htest.2 h)⟩
    rw [le_div_iff₀ hdq]
    calc (2 : ℚ) ^ ((num.log2 : ℤ) - den.log2 - 1) * den
        ≤ 2 ^ ((num.log2 : ℤ) - den.log2 - 1) * 2 ^ ((den.log2 : ℤ) + 1) :=
          mul_le_mul_of_nonneg_left hdhigh.le (two_zpow_pos _).le
      _ = 2 ^ (num.log2 : ℤ) := by
        rw [← two_zpow_add]
        congr 1
        ring
      _ ≤ num := hnlow

/-- The multiple `m · 2 ^ e` of the spacing of doubles around `x` that is nearest to `x`; it may be
the power of two at the end of the binade. -/
structure IsRounded (x : ℚ) (m : ℕ) (e : ℤ) : Prop where
  nearest : IsNearest (x / 2 ^ e) m
  minExponent_le : minExponent ≤ e
  lt : x < 2 ^ (e + 53)
  normal : 2 ^ (e + 52) ≤ x ∨ e = minExponent

theorem exists_isRounded (hn : 0 < num) (hd : 0 < den) :
    ∃ e, e = max (binaryExponent num den - (precision - 1 : ℕ)) minExponent ∧
      IsRounded (num / den)
        (roundDiv (scale num den (-e)).1 (scale num den (-e)).2) e := by
  obtain ⟨hlow, hhigh⟩ := binaryExponent_bounds hn hd
  generalize binaryExponent num den = b at hlow hhigh ⊢
  refine ⟨_, rfl, ?_⟩
  have hprecision : ((precision - 1 : ℕ) : ℤ) = 52 := rfl
  rw [hprecision]
  generalize he : max (b - 52) minExponent = e
  obtain ⟨hpos, hscale⟩ := scale_spec num hd (-e)
  have hnearest : IsNearest ((scale num den (-e)).1 / (scale num den (-e)).2)
      (roundDiv (scale num den (-e)).1 (scale num den (-e)).2) := isNearest_roundDiv hpos
  rw [hscale, zpow_neg, ← div_eq_mul_inv] at hnearest
  refine ⟨hnearest, by omega, hhigh.trans_le (two_zpow_le (by omega)), ?_⟩
  by_cases h : minExponent ≤ b - 52
  · exact .inl ((two_zpow_le (by omega)).trans hlow)
  · exact .inr (by omega)

/-- What a positive rational is rounded to. A significand of one bit too many moves to the next
binade. -/
theorem ofRatio_cases (negative : Bool) (hn : 0 < num) (hd : 0 < den) :
    ∃ m e, IsRounded (num / den) m e ∧
      (m = powerOfTwo precision ∧ e < maxExponent ∧
          ofRatio negative num den = .finite negative (powerOfTwo (precision - 1)) (e + 1) ∨
        m ≠ powerOfTwo precision ∧ e ≤ maxExponent ∧
          ofRatio negative num den = .finite negative m e ∨
        (m = powerOfTwo precision ∧ maxExponent ≤ e ∨ maxExponent < e) ∧
          ofRatio negative num den = .infinite negative) := by
  obtain ⟨e, he, hrounded⟩ := exists_isRounded hn hd
  refine ⟨_, e, hrounded, ?_⟩
  rw [ofRatio, if_neg hn.ne', ← he]
  dsimp only
  generalize roundDiv (scale num den (-e)).1 (scale num den (-e)).2 = m
  by_cases hm : m = powerOfTwo precision
  · rw [if_pos hm]
    by_cases hmax : maxExponent < e + 1
    · rw [if_pos hmax]
      exact .inr (.inr ⟨.inl ⟨hm, by omega⟩, rfl⟩)
    · rw [if_neg hmax]
      exact .inl ⟨hm, by omega, rfl⟩
  · rw [if_neg hm]
    by_cases hmax : maxExponent < e
    · rw [if_pos hmax]
      exact .inr (.inr ⟨.inr hmax, rfl⟩)
    · rw [if_neg hmax]
      exact .inr (.inl ⟨hm, by omega, rfl⟩)

/-- The significand and the exponent of a finite value: the exponent is the least with which the
significand fits. -/
structure Canonical (m : ℕ) (q : ℤ) : Prop where
  lt : m < powerOfTwo precision
  minExponent_le : minExponent ≤ q
  le_maxExponent : q ≤ maxExponent
  normal : powerOfTwo (precision - 1) ≤ m ∨ q = minExponent

theorem cast_powerOfTwo_precision : (powerOfTwo precision : ℚ) = 2 ^ 53 := cast_powerOfTwo 53

theorem cast_powerOfTwo_precision_pred : (powerOfTwo (precision - 1) : ℚ) = 2 ^ 52 :=
  cast_powerOfTwo 52

theorem two_zpow_add_ofNat (e : ℤ) (n : ℕ) : (2 : ℚ) ^ (e + n) = 2 ^ n * 2 ^ e := by
  rw [two_zpow_add, zpow_natCast, mul_comm]

namespace IsRounded

theorem lt_two_pow (h : IsRounded x m e) : x / 2 ^ e < 2 ^ 53 := by
  rw [div_lt_iff₀ (two_zpow_pos e), ← two_zpow_add_ofNat]
  exact h.lt

theorem two_pow_le (h : IsRounded x m e) : 2 ^ 52 ≤ x / 2 ^ e ∨ e = minExponent := by
  rw [le_div_iff₀ (two_zpow_pos e), ← two_zpow_add_ofNat]
  exact h.normal

theorem le_precision (h : IsRounded x m e) : m ≤ powerOfTwo precision := by
  have hle : (m : ℚ) < powerOfTwo precision + 1 := by
    rw [cast_powerOfTwo_precision]
    linarith [h.nearest.low, h.lt_two_pow]
  exact Nat.lt_succ_iff.1 (by exact_mod_cast hle)

theorem precision_pred_le (h : IsRounded x m e) :
    powerOfTwo (precision - 1) ≤ m ∨ e = minExponent := by
  refine h.two_pow_le.imp_left fun hle => ?_
  have hlt : (powerOfTwo (precision - 1) : ℚ) < m + 1 := by
    rw [cast_powerOfTwo_precision_pred]
    linarith [h.nearest.high]
  exact Nat.lt_succ_iff.1 (by exact_mod_cast hlt)

theorem canonical (h : IsRounded x m e) (hm : m ≠ powerOfTwo precision) (he : e ≤ maxExponent) :
    Canonical m e :=
  ⟨lt_of_le_of_ne h.le_precision hm, h.minExponent_le, he, h.precision_pred_le⟩

/-- The nearest multiple is the end of the binade from half a unit below it on. -/
theorem eq_precision_iff (h : IsRounded x m e) :
    m = powerOfTwo precision ↔ 2 ^ 53 - 1 / 2 ≤ x / 2 ^ e := by
  have hcast := cast_powerOfTwo_precision
  constructor
  · rintro rfl
    rw [← hcast]
    exact h.nearest.low
  · intro hle
    refine h.nearest.unique ⟨by rwa [hcast], ?_, fun _ => rfl⟩
    rw [hcast]
    linarith [h.lt_two_pow]

end IsRounded

/-- Halfway between the greatest finite value and the value that would follow it. -/
def overflowBound : ℕ := (powerOfTwo (precision + 1) - 1) * powerOfTwo 970

theorem cast_overflowBound : (overflowBound : ℚ) = (2 ^ 53 - 1 / 2) * 2 ^ maxExponent := by
  have hexponent : maxExponent = 1 + (970 : ℕ) := rfl
  have hbits : powerOfTwo (precision + 1) - 1 = 18014398509481983 := rfl
  rw [overflowBound, hbits, Nat.cast_mul, cast_powerOfTwo, hexponent, two_zpow_add_ofNat]
  generalize (2 : ℚ) ^ 970 = p
  ring

theorem ofRatio_of_overflowBound_le (negative : Bool) (hd : 0 < den)
    (h : overflowBound * den ≤ num) : ofRatio negative num den = .infinite negative := by
  have hbound : 0 < overflowBound :=
    Nat.mul_pos (by decide) (powerOfTwo_pos _)
  have hn : 0 < num := (Nat.mul_pos hbound hd).trans_le h
  have hdq : (0 : ℚ) < den := by exact_mod_cast hd
  have hle : (2 ^ 53 - 1 / 2) * 2 ^ maxExponent ≤ (num / den : ℚ) := by
    rw [← cast_overflowBound, le_div_iff₀ hdq]
    exact_mod_cast h
  obtain ⟨m, e, hrounded, hcases⟩ := ofRatio_cases negative hn hd
  -- The spacing around such a rational is at least that of the greatest values.
  have he : maxExponent ≤ e := by
    by_contra hlt
    have hexponent : e + 53 ≤ maxExponent + (52 : ℕ) := by omega
    have hsmall := hrounded.lt.trans_le (two_zpow_le hexponent)
    rw [two_zpow_add_ofNat] at hsmall
    have hpos := two_zpow_pos maxExponent
    linarith
  rcases hcases with ⟨-, hlt, -⟩ | ⟨hm, hmax, -⟩ | ⟨-, hinfinite⟩
  · omega
  · obtain rfl : e = maxExponent := by omega
    refine absurd (hrounded.eq_precision_iff.2 ?_) hm
    rwa [le_div_iff₀ (two_zpow_pos _)]
  · exact hinfinite

theorem exists_canonical_of_lt_overflowBound (negative : Bool) (hd : 0 < den)
    (h : num < overflowBound * den) :
    ∃ m q, Canonical m q ∧ ofRatio negative num den = .finite negative m q := by
  by_cases hzero : num = 0
  · refine ⟨0, minExponent, ⟨powerOfTwo_pos _, by decide, by decide, .inr rfl⟩, ?_⟩
    rw [ofRatio, if_pos hzero]
  have hdq : (0 : ℚ) < den := by exact_mod_cast hd
  have hlt : (num / den : ℚ) < (2 ^ 53 - 1 / 2) * 2 ^ maxExponent := by
    rw [← cast_overflowBound, div_lt_iff₀ hdq]
    exact_mod_cast h
  obtain ⟨m, e, hrounded, hcases⟩ := ofRatio_cases negative (Nat.pos_of_ne_zero hzero) hd
  have hpos := two_zpow_pos maxExponent
  have he : e ≤ maxExponent := by
    by_contra hgt
    obtain hle | hmin := hrounded.normal
    · have hbig := (two_zpow_le (show maxExponent + (53 : ℕ) ≤ e + 52 by omega)).trans hle
      rw [two_zpow_add_ofNat] at hbig
      linarith
    · exact hgt (hmin ▸ by decide)
  rcases hcases with ⟨-, hmax, heq⟩ | ⟨hm, -, heq⟩ | ⟨⟨hm, hmax⟩ | hmax, -⟩
  · exact ⟨_, _, ⟨by decide, by have := hrounded.minExponent_le; omega, by omega, .inl le_rfl⟩, heq⟩
  · exact ⟨m, e, hrounded.canonical hm he, heq⟩
  · obtain rfl : e = maxExponent := by omega
    have hle := hrounded.eq_precision_iff.1 hm
    rw [le_div_iff₀ hpos] at hle
    linarith
  · omega

def Basin.Holds (b : Basin) (x : ℚ) : Prop :=
  if b.closed then (b.low : ℚ) ≤ x ∧ x ≤ b.high else (b.low : ℚ) < x ∧ x < b.high

theorem Basin.contains_iff (b : Basin) (hd : 0 < den) :
    b.contains num den = true ↔ b.Holds (num / den) := by
  have hdq : (0 : ℚ) < den := by exact_mod_cast hd
  unfold Basin.contains Basin.Holds
  split
  · rw [Bool.and_eq_true, decide_eq_true_eq, decide_eq_true_eq, le_div_iff₀ hdq, div_le_iff₀ hdq]
    norm_cast
  · rw [Bool.and_eq_true, decide_eq_true_eq, decide_eq_true_eq, lt_div_iff₀ hdq, div_lt_iff₀ hdq]
    norm_cast

section Basin

theorem cast_basin_low_of_power (hm : m = powerOfTwo (precision - 1)) (hq : minExponent < q) :
    ((basin m q).low : ℚ) = 4 * m - 1 := by
  have hlow : (basin m q).low = 4 * m - 1 := if_pos ⟨hm, hq⟩
  have hpos := powerOfTwo_pos (precision - 1)
  rw [hlow, Nat.cast_sub (by omega)]
  push_cast
  ring

theorem cast_basin_low (hpos : 0 < m) (h : ¬(m = powerOfTwo (precision - 1) ∧ minExponent < q)) :
    ((basin m q).low : ℚ) = 4 * m - 2 := by
  have hlow : (basin m q).low = 4 * m - 2 := if_neg h
  rw [hlow, Nat.cast_sub (by omega)]
  push_cast
  ring

theorem le_cast_basin_low (hpos : 0 < m) (q : ℤ) : (4 * m - 2 : ℚ) ≤ (basin m q).low := by
  by_cases h : m = powerOfTwo (precision - 1) ∧ minExponent < q
  · rw [cast_basin_low_of_power h.1 h.2]
    linarith
  · rw [cast_basin_low hpos h]

theorem cast_basin_high : ((basin m q).high : ℚ) = 4 * m + 2 := by
  simp [basin]

theorem Basin.Holds.bounds {b : Basin} (h : b.Holds x) : (b.low : ℚ) ≤ x ∧ x ≤ b.high := by
  unfold Basin.Holds at h
  split at h
  · exact h
  · exact ⟨h.1.le, h.2.le⟩

theorem Basin.holds_of_lt {b : Basin} (h : (b.low : ℚ) < x) (h' : x < b.high) : b.Holds x := by
  unfold Basin.Holds
  split
  · exact ⟨h.le, h'.le⟩
  · exact ⟨h, h'⟩

/-- The significand is the integer nearest to what its basin holds. -/
theorem isNearest_of_holds (hpos : 0 < m) (h : (basin m q).Holds (4 * x)) : IsNearest x m := by
  have hlow := le_cast_basin_low hpos q
  have hhigh := cast_basin_high (m := m) (q := q)
  obtain ⟨hle, hge⟩ := h.bounds
  refine ⟨by linarith, by linarith, fun htie => ?_⟩
  by_contra hodd
  have hopen : (basin m q).closed = false := decide_eq_false hodd
  rw [Basin.Holds, hopen, if_neg (by decide)] at h
  rcases htie with hx | hx
  · linarith [h.1]
  · linarith [h.2]

/-- What a basin holds of the binade before its value is at the end of that binade, and the value is
the power of two that follows. -/
theorem IsRounded.eq_precision_of_holds {n : ℕ} (hrounded : IsRounded x n e) (hc : Canonical m q)
    (hpos : 0 < m) (h : (basin m q).Holds (4 * (x / 2 ^ q))) (hlt : e < q) :
    q = e + 1 ∧ m = powerOfTwo (precision - 1) ∧ n = powerOfTwo precision := by
  have hpq := two_zpow_pos q
  have hq : minExponent < q := hrounded.minExponent_le.trans_lt hlt
  have hsmall := hrounded.lt.trans_le (two_zpow_le (show e + 53 ≤ q + (52 : ℕ) by omega))
  rw [two_zpow_add_ofNat, ← div_lt_iff₀ hpq] at hsmall
  have hm : m = powerOfTwo (precision - 1) := by
    have hle : (m : ℚ) < powerOfTwo (precision - 1) + 1 := by
      rw [cast_powerOfTwo_precision_pred]
      linarith [(isNearest_of_holds hpos h).low]
    have hle : m < powerOfTwo (precision - 1) + 1 := by exact_mod_cast hle
    obtain hge | hmin := hc.normal <;> omega
  -- Below a power of two the basin is a quarter of a unit wide.
  have hlow := h.bounds.1
  rw [cast_basin_low_of_power hm hq, hm, cast_powerOfTwo_precision_pred] at hlow
  obtain rfl : q = e + 1 := by
    by_contra hne
    have hless := hrounded.lt.trans_le (two_zpow_le (show e + 53 ≤ q + (51 : ℕ) by omega))
    rw [two_zpow_add_ofNat, ← div_lt_iff₀ hpq] at hless
    linarith
  refine ⟨rfl, hm, ?_⟩
  rw [hrounded.eq_precision_iff]
  rw [two_zpow_add, zpow_one, ← div_div] at hlow
  linarith

/-- No basin reaches beyond the binade of its value. -/
theorem IsRounded.exponent_le_of_holds {n : ℕ} (hrounded : IsRounded x n e) (hc : Canonical m q)
    (hpos : 0 < m) (h : (basin m q).Holds (4 * (x / 2 ^ q))) : e ≤ q := by
  by_contra hgt
  obtain hle | hmin := hrounded.normal
  · have hmlt : (m : ℚ) + 1 ≤ 2 ^ 53 := by
      rw [← cast_powerOfTwo_precision]
      exact_mod_cast hc.lt
    have hbig := (two_zpow_le (show q + (53 : ℕ) ≤ e + 52 by omega)).trans hle
    rw [two_zpow_add_ofNat, ← le_div_iff₀ (two_zpow_pos q)] at hbig
    linarith [(isNearest_of_holds hpos h).high]
  · exact absurd hc.minExponent_le (by omega)

/-- Every rational in its basin is rounded to the value. -/
theorem ofRatio_of_holds (negative : Bool) (hc : Canonical m q) (hpos : 0 < m) (hn : 0 < num)
    (hd : 0 < den) (h : (basin m q).Holds (4 * (num / den / 2 ^ q))) :
    ofRatio negative num den = .finite negative m q := by
  obtain ⟨n, e, hrounded, hcases⟩ := ofRatio_cases negative hn hd
  have hmax := hc.le_maxExponent
  obtain hlt | rfl := (hrounded.exponent_le_of_holds hc hpos h).lt_or_eq
  · obtain ⟨rfl, hm, hn⟩ := hrounded.eq_precision_of_holds hc hpos h hlt
    rcases hcases with ⟨-, -, heq⟩ | ⟨hne, -, -⟩ | ⟨hlarge, -⟩
    · rw [heq, hm]
    · exact absurd hn hne
    · omega
  · obtain rfl := hrounded.nearest.unique (isNearest_of_holds hpos h)
    rcases hcases with ⟨hm, -, -⟩ | ⟨-, -, heq⟩ | ⟨⟨hm, -⟩ | hlarge, -⟩
    · exact absurd hm hc.lt.ne
    · exact heq
    · exact absurd hm hc.lt.ne
    · omega

end Basin

end SumLang.Double
