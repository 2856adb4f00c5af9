import SumLang.Proofs.NearestDouble

/-! The decimal that is chosen for a double rounds to it: seventeen digits always suffice to come
near enough. -/
namespace SumLang.Double

variable {num den m digits : ℕ} {q k : ℤ} {b : Basin}

theorem lt_powerOfTen_decimalWidth (n : ℕ) : n < powerOfTen (decimalWidth n) :=
  (Nat.length_toDigits_le_iff (by decide) Nat.length_toDigits_pos).1 le_rfl

theorem powerOfTen_decimalWidth_le {n : ℕ} (hn : 0 < n) : powerOfTen (decimalWidth n - 1) ≤ n := by
  by_cases hwidth : decimalWidth n - 1 = 0
  · rw [hwidth]
    exact hn
  · have hlonger : ¬decimalWidth n ≤ decimalWidth n - 1 := by omega
    exact not_lt.1 (mt (Nat.length_toDigits_le_iff (by decide) (by omega)).2 hlonger)

theorem ten_zpow_pos (k : ℤ) : (0 : ℚ) < 10 ^ k := zpow_pos (by norm_num) k

/-- The power of ten at or below a rational. -/
theorem ten_zpow_decimalExponent_le (hn : 0 < num) (hd : 0 < den) :
    (10 : ℚ) ^ decimalExponent num den ≤ num / den := by
  have hdq : (0 : ℚ) < den := by exact_mod_cast hd
  have hnegative {w : ℕ} (h : den ≤ num * powerOfTen w) :
      (10 : ℚ) ^ (-(w : ℤ)) ≤ num / den := by
    rw [zpow_neg, zpow_natCast, inv_le_iff_one_le_mul₀ (by positivity), div_mul_eq_mul_div,
      one_le_div hdq, ← cast_powerOfTen]
    exact_mod_cast h
  unfold decimalExponent
  dsimp only
  split
  · next hle =>
    have hquotient : 0 < num / den := Nat.div_pos hle hd
    have hwidth : 0 < decimalWidth (num / den) := Nat.length_toDigits_pos
    have hpower := powerOfTen_decimalWidth_le hquotient
    have hexponent : (decimalWidth (num / den) : ℤ) - 1 = (decimalWidth (num / den) - 1 : ℕ) := by
      omega
    rw [hexponent, zpow_natCast, ← cast_powerOfTen, le_div_iff₀ hdq]
    exact_mod_cast (Nat.le_div_iff_mul_le hd).1 hpower
  · split
    · next hle => exact hnegative hle
    · apply hnegative
      have hlt := lt_powerOfTen_decimalWidth (den / num)
      rw [Nat.mul_comm]
      exact ((Nat.div_lt_iff_lt_mul hn).1 hlt).le

theorem powerOfTenIn_spec (q k : ℤ) :
    0 < (powerOfTenIn q k).2 ∧
      ((powerOfTenIn q k).1 : ℚ) / (powerOfTenIn q k).2 = 4 * (10 ^ k / 2 ^ q) := by
  have hunit : (2 : ℚ) ^ (2 - q) = 4 / 2 ^ q := by
    rw [zpow_sub₀ (by norm_num)]
    norm_num
  by_cases hk : 0 ≤ k
  · obtain ⟨n, rfl⟩ := Int.eq_ofNat_of_zero_le hk
    obtain ⟨hpos, hscale⟩ := scale_spec (powerOfTen n) Nat.one_pos (2 - q)
    rw [powerOfTenIn, if_pos hk]
    refine ⟨hpos, hscale.trans ?_⟩
    rw [hunit, cast_powerOfTen, zpow_natCast, Nat.cast_one]
    ring
  · obtain ⟨n, rfl⟩ : ∃ n : ℕ, k = -n := ⟨(-k).toNat, by omega⟩
    obtain ⟨hpos, hscale⟩ := scale_spec 1 (powerOfTen_pos n) (2 - q)
    rw [powerOfTenIn, if_neg hk, neg_neg]
    refine ⟨hpos, hscale.trans ?_⟩
    rw [hunit, cast_powerOfTen, zpow_neg, zpow_natCast, Nat.cast_one]
    ring

/-- A grid point that is found lies in the basin. -/
theorem contains_of_gridPoint {unit : ℕ × ℕ} {c : ℕ} (h : gridPoint b num den unit = some c) :
    b.contains (c * unit.1) unit.2 = true := by
  unfold gridPoint at h
  dsimp only at h
  generalize num * unit.2 / (den * unit.1) = below at h
  split at h
  · cases h
  · next hbelow _ =>
    cases h
    exact hbelow
  · next _ habove =>
    cases h
    exact habove
  · next hbelow habove =>
    split at h
    · cases h
      exact hbelow
    split at h
    · cases h
      exact habove
    · cases h
      obtain heven | hodd := Nat.mod_two_eq_zero_or_one below
      · rwa [heven]
      · rwa [hodd]

/-- A grid point is found if one of the two around the number lies in the basin. -/
theorem isSome_gridPoint {unit : ℕ × ℕ} {below : ℕ}
    (hbelow : num * unit.2 / (den * unit.1) = below)
    (h : b.contains (below * unit.1) unit.2 = true ∨
      b.contains ((below + 1) * unit.1) unit.2 = true) :
    (gridPoint b num den unit).isSome = true := by
  unfold gridPoint
  dsimp only
  rw [hbelow]
  split
  · next hlow hhigh =>
    rw [hlow, hhigh] at h
    simp at h
  · rfl
  · rfl
  · split
    · rfl
    split
    · rfl
    · rfl

/-- The multiple `c · 10 ^ k`, in the units of the basin. -/
theorem contains_powerOfTenIn_iff (b : Basin) (c : ℕ) (q k : ℤ) :
    b.contains (c * (powerOfTenIn q k).1) (powerOfTenIn q k).2 = true ↔
      b.Holds (4 * (c * 10 ^ k / 2 ^ q)) := by
  obtain ⟨hpos, hunit⟩ := powerOfTenIn_spec q k
  rw [b.contains_iff hpos, Nat.cast_mul, mul_div_assoc, hunit]
  have hvalue : (c : ℚ) * (4 * (10 ^ k / 2 ^ q)) = 4 * (c * 10 ^ k / 2 ^ q) := by ring
  rw [hvalue]

/-- The multiple of `10 ^ k` below a value, and the one above it. -/
theorem gridPoint_bounds (m : ℕ) (q k : ℤ) {below : ℕ}
    (h : 4 * m * (powerOfTenIn q k).2 / (1 * (powerOfTenIn q k).1) = below) :
    (below * (10 ^ k / 2 ^ q) : ℚ) ≤ m ∧ (m : ℚ) < (below + 1) * (10 ^ k / 2 ^ q) := by
  obtain ⟨hpos, hunit⟩ := powerOfTenIn_spec q k
  generalize powerOfTenIn q k = unit at h hpos hunit
  have hposq : (0 : ℚ) < unit.2 := by exact_mod_cast hpos
  have hgrid : (0 : ℚ) < 10 ^ k / 2 ^ q := div_pos (ten_zpow_pos k) (two_zpow_pos q)
  have hnumq : (unit.1 : ℚ) = 4 * (10 ^ k / 2 ^ q) * unit.2 := (div_eq_iff hposq.ne').1 hunit
  have hnum : 0 < unit.1 := by
    have hpositive : (0 : ℚ) < unit.1 := by
      rw [hnumq]
      positivity
    exact_mod_cast hpositive
  rw [Nat.one_mul] at h
  generalize (10 : ℚ) ^ k / 2 ^ q = g at hnumq
  have hle : (below * unit.1 : ℚ) ≤ 4 * m * unit.2 := by
    exact_mod_cast (Nat.le_div_iff_mul_le hnum).1 h.ge
  have hlt : (4 * m * unit.2 : ℚ) < (below + 1) * unit.1 := by
    exact_mod_cast (Nat.div_lt_iff_lt_mul hnum).1 (Nat.lt_succ_of_le h.le)
  rw [hnumq] at hle hlt
  constructor
  · refine le_of_mul_le_mul_right (a := 4 * (unit.2 : ℚ)) ?_ (by positivity)
    linarith
  · refine lt_of_mul_lt_mul_right (a := 4 * (unit.2 : ℚ)) ?_ (by positivity)
    linarith

/-- A grid of sixteen decimals below the first digit of a value is fine enough to have a point in
the basin. -/
theorem isSome_gridPoint_of_fine (hc : Canonical m q) (hpos : 0 < m)
    (hk : (10 : ℚ) ^ 16 * (10 ^ k / 2 ^ q) ≤ m) :
    (gridPoint (basin m q) (4 * m) 1 (powerOfTenIn q k)).isSome = true := by
  have hlt : (m : ℚ) < 2 ^ 53 := by
    rw [← cast_powerOfTwo_precision]
    exact_mod_cast hc.lt
  obtain ⟨hbelow, habove⟩ := gridPoint_bounds m q k rfl
  refine isSome_gridPoint rfl ?_
  generalize 4 * m * (powerOfTenIn q k).2 / (1 * (powerOfTenIn q k).1) = below at hbelow habove ⊢
  rw [contains_powerOfTenIn_iff, contains_powerOfTenIn_iff, mul_div_assoc, mul_div_assoc]
  generalize (10 : ℚ) ^ k / 2 ^ q = g at hk hbelow habove ⊢
  have hhigh := cast_basin_high (m := m) (q := q)
  push_cast
  by_cases hpower : m = powerOfTwo (precision - 1) ∧ minExponent < q
  · have hlow := cast_basin_low_of_power hpower.1 hpower.2
    have hm : (m : ℚ) = 2 ^ 52 := by rw [hpower.1, cast_powerOfTwo_precision_pred]
    right
    exact Basin.holds_of_lt (by linarith) (by linarith)
  · have hlow := cast_basin_low hpos hpower
    by_cases hnear : (m : ℚ) - 1 / 2 < below * g
    · left
      exact Basin.holds_of_lt (by linarith) (by linarith)
    · right
      exact Basin.holds_of_lt (by linarith) (by linarith)

/-- The search ends with a decimal in the basin if the finest grid has one. -/
theorem holds_searchGrid (finer : ℕ)
    (h : (gridPoint b (4 * m) 1 (powerOfTenIn q (k - finer))).isSome = true) :
    b.Holds (4 * ((searchGrid b m q k finer).digits * 10 ^ (searchGrid b m q k finer).exponent /
      2 ^ q)) := by
  induction finer generalizing k with
  | zero =>
    rw [Nat.cast_zero, sub_zero] at h
    obtain ⟨c, hc⟩ := Option.isSome_iff_exists.1 h
    rw [searchGrid, hc, Option.getD_some]
    exact (contains_powerOfTenIn_iff b c q k).1 (contains_of_gridPoint hc)
  | succ finer ih =>
    rw [searchGrid]
    split
    · next c hc => exact (contains_powerOfTenIn_iff b c q k).1 (contains_of_gridPoint hc)
    · apply ih
      have hexponent : k - (finer + 1 : ℕ) = k - 1 - finer := by
        push_cast
        ring
      rwa [hexponent] at h

theorem holds_shortest (hc : Canonical m q) (hpos : 0 < m) :
    (basin m q).Holds (4 * ((shortest m q).digits * 10 ^ (shortest m q).exponent / 2 ^ q)) := by
  obtain ⟨hden, hvalue⟩ := scale_spec m Nat.one_pos q
  rw [Nat.cast_one, div_one] at hvalue
  have hpq := two_zpow_pos q
  have hnum : 0 < (scale m 1 q).1 := by
    have hmq : (0 : ℚ) < m := by exact_mod_cast hpos
    have hratio : (0 : ℚ) < (scale m 1 q).1 / (scale m 1 q).2 := by
      rw [hvalue]
      positivity
    by_contra hzero
    rw [Nat.eq_zero_of_not_pos hzero] at hratio
    simp at hratio
  have hexponent := ten_zpow_decimalExponent_le hnum hden
  rw [hvalue] at hexponent
  have hshortest : shortest m q = searchGrid (basin m q) m q
      (decimalExponent (scale m 1 q).1 (scale m 1 q).2) 16 := rfl
  rw [hshortest]
  refine holds_searchGrid 16 (isSome_gridPoint_of_fine hc hpos ?_)
  generalize decimalExponent (scale m 1 q).1 (scale m 1 q).2 = k at hexponent
  rw [zpow_sub₀ (by norm_num), mul_div_assoc', div_le_iff₀ hpq]
  have hpower : (10 : ℚ) ^ 16 * (10 ^ k / 10 ^ ((16 : ℕ) : ℤ)) = 10 ^ k := by
    rw [zpow_natCast]
    field_simp
  rwa [hpower]

/-- Every decimal in the basin reads as the value. -/
theorem ofDecimal_of_holds (negative : Bool) (hc : Canonical m q) (hpos : 0 < m)
    (h : (basin m q).Holds (4 * (digits * 10 ^ k / 2 ^ q))) :
    ofDecimal negative digits k = .finite negative m q := by
  have hdigits : 0 < digits := by
    by_contra hzero
    have hlow := h.bounds.1
    have hle := le_cast_basin_low hpos q
    have hmq : (1 : ℚ) ≤ m := by exact_mod_cast hpos
    rw [Nat.eq_zero_of_not_pos hzero, Nat.cast_zero, zero_mul, zero_div, mul_zero] at hlow
    linarith
  unfold ofDecimal
  split
  · next hk =>
    obtain ⟨n, rfl⟩ := Int.eq_ofNat_of_zero_le hk
    refine ofRatio_of_holds negative hc hpos (Nat.mul_pos hdigits (powerOfTen_pos _)) Nat.one_pos ?_
    rwa [Int.toNat_natCast, Nat.cast_mul, cast_powerOfTen, Nat.cast_one, div_one, ← zpow_natCast]
  · next hk =>
    obtain ⟨n, rfl⟩ : ∃ n : ℕ, k = -n := ⟨(-k).toNat, by omega⟩
    refine ofRatio_of_holds negative hc hpos hdigits (powerOfTen_pos _) ?_
    rwa [neg_neg, Int.toNat_natCast, cast_powerOfTen, div_eq_mul_inv (digits : ℚ), ← zpow_natCast,
      ← zpow_neg]

end SumLang.Double
