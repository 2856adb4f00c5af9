import SumLang.Proofs.RoundTrip
import SumLang.Proofs.ShortestDecimal
import SumLang.Proofs.WellFormed

/-! The text of a finite double is a decimal floating constant that denotes it. -/
namespace SumLang

open Lowering (lower)

namespace Double

variable {whole fraction mark ds cs : List Char} {digits m n : ℕ} {e k q : ℤ}

def IsDigits (ds : List Char) : Prop := ds ≠ [] ∧ ∀ d ∈ ds, d.isDigit = true

/-- The exponent of a constant and its value; without one the exponent is zero. -/
inductive ExponentPart : List Char → ℤ → Prop where
  | absent : ExponentPart [] 0
  | plain {ds : List Char} : IsDigits ds → ExponentPart ('e' :: ds) (digitsValue ds)
  | plus {ds : List Char} : IsDigits ds → ExponentPart ('e' :: '+' :: ds) (digitsValue ds)
  | minus {ds : List Char} : IsDigits ds → ExponentPart ('e' :: '-' :: ds) (-(digitsValue ds : ℤ))

/-- A decimal floating constant, which denotes `digits · 10 ^ exponent`: digits with a decimal
point, with an exponent, or with both. -/
inductive FloatingConstant : List Char → ℕ → ℤ → Prop where
  | point {whole fraction mark : List Char} {e : ℤ} : IsDigits whole → IsDigits fraction →
    ExponentPart mark e →
    FloatingConstant (whole ++ '.' :: (fraction ++ mark)) (digitsValue (whole ++ fraction))
      (e - fraction.length)
  | exponent {whole mark : List Char} {e : ℤ} : IsDigits whole → mark ≠ [] → ExponentPart mark e →
    FloatingConstant (whole ++ mark) (digitsValue whole) e

section Digits

theorem foldl_digits (ds : List Char) (n : ℕ) :
    ds.foldl (fun n d => n * 10 + (d.toNat - '0'.toNat)) n =
      n * powerOfTen ds.length + digitsValue ds := by
  induction ds generalizing n with
  | nil => exact (Nat.mul_one n).symm
  | cons d ds ih =>
    rw [digitsValue, List.foldl_cons, List.foldl_cons, ih, ih, List.length_cons, powerOfTen_succ]
    ring

theorem digitsValue_append (ds es : List Char) :
    digitsValue (ds ++ es) = digitsValue ds * powerOfTen es.length + digitsValue es := by
  rw [digitsValue, List.foldl_append, foldl_digits]
  rfl

theorem digitsValue_zeros (n : ℕ) : digitsValue (zeros n) = 0 := by
  induction n with
  | zero => rfl
  | succ n ih => exact ih

theorem digitsValue_zeros_append (n : ℕ) (ds : List Char) :
    digitsValue (zeros n ++ ds) = digitsValue ds := by
  rw [digitsValue_append, digitsValue_zeros, Nat.zero_mul, Nat.zero_add]

theorem zeros_append_zero (n : ℕ) : zeros n ++ ['0'] = zeros (n + 1) :=
  List.replicate_succ'.symm

theorem length_zeros (n : ℕ) : (zeros n).length = n := List.length_replicate

theorem isDigit_zeros (n : ℕ) : ∀ d ∈ zeros n, d.isDigit = true := by
  intro d hd
  rw [List.eq_of_mem_replicate hd]
  rfl

theorem isDigits_toDigits (n : ℕ) : IsDigits (Nat.toDigits 10 n) :=
  ⟨Nat.toDigits_ne_nil, fun _ hd => Nat.isDigit_of_mem_toDigits (by decide) (by decide) hd⟩

theorem IsDigits.zeros_append (h : IsDigits ds) (n : ℕ) : IsDigits (zeros n ++ ds) :=
  ⟨by simp [h.1], List.forall_mem_append.2 ⟨isDigit_zeros n, h.2⟩⟩

theorem IsDigits.append_zeros (h : IsDigits ds) (n : ℕ) : IsDigits (ds ++ zeros n) :=
  ⟨by simp [h.1], List.forall_mem_append.2 ⟨h.2, isDigit_zeros n⟩⟩

/-- The digits of a number are its significant digits and zeros behind them. -/
theorem toDigits_eq_append_zeros (n : ℕ) :
    ∃ k, Nat.toDigits 10 n = significantDigits n ++ zeros k := by
  have hsplit := List.takeWhile_append_dropWhile (p := (· == '0'))
    (l := (Nat.toDigits 10 n).reverse)
  have htrailing : (Nat.toDigits 10 n).reverse.takeWhile (· == '0') =
      zeros ((Nat.toDigits 10 n).reverse.takeWhile (· == '0')).length := by
    refine List.eq_replicate_of_mem fun d hd => ?_
    simpa using List.all_eq_true.1 List.all_takeWhile d hd
  rw [htrailing] at hsplit
  generalize ((Nat.toDigits 10 n).reverse.takeWhile (· == '0')).length = k at hsplit
  have hdigits := congrArg List.reverse hsplit
  rw [List.reverse_append, List.reverse_reverse, zeros, List.reverse_replicate] at hdigits
  unfold significantDigits
  dsimp only
  split
  · next hnil =>
    -- Zero has one digit, which stays.
    rw [hnil, List.nil_append] at hdigits
    cases k with
    | zero => exact absurd hdigits.symm Nat.toDigits_ne_nil
    | succ k => exact ⟨k, hdigits.symm⟩
  · exact ⟨k, hdigits.symm⟩

theorem isDigits_significantDigits (n : ℕ) : IsDigits (significantDigits n) := by
  obtain ⟨k, hk⟩ := toDigits_eq_append_zeros n
  refine ⟨?_, fun d hd => (isDigits_toDigits n).2 d (by simp [hk, hd])⟩
  unfold significantDigits
  dsimp only
  split
  · simp
  · next hne => exact hne

/-- The significant digits stand for the number up to a power of ten. -/
theorem digitsValue_significantDigits (n : ℕ) (e : ℤ) :
    (digitsValue (significantDigits n) : ℚ) *
        10 ^ (e + (decimalWidth n - 1 : ℕ) + 1 - (significantDigits n).length) = n * 10 ^ e := by
  obtain ⟨k, hk⟩ := toDigits_eq_append_zeros n
  have hpos : 0 < (significantDigits n).length :=
    List.length_pos_iff.2 (isDigits_significantDigits n).1
  have hvalue : n = digitsValue (significantDigits n) * powerOfTen k := by
    have h := digitsValue_toDigits n
    rwa [hk, digitsValue_append, digitsValue_zeros, length_zeros, Nat.add_zero, eq_comm] at h
  have hwidth : decimalWidth n = (significantDigits n).length + k := by
    rw [decimalWidth, hk, List.length_append, length_zeros]
  have hexponent : e + (decimalWidth n - 1 : ℕ) + 1 - (significantDigits n).length = k + e := by
    omega
  have hcast : (n : ℚ) = digitsValue (significantDigits n) * 10 ^ k := by
    rw [← cast_powerOfTen]
    exact_mod_cast hvalue
  rw [hexponent, zpow_add₀ (by norm_num), zpow_natCast, ← mul_assoc, ← hcast]

end Digits

section Write

/-- The text is a constant with the value of the digits `d₀d₁…` as `d₀.d₁… · 10 ^ e`. -/
def Denotes (cs ds : List Char) (e : ℤ) : Prop :=
  ∃ n k, FloatingConstant cs n k ∧ (n : ℚ) * 10 ^ k = digitsValue ds * 10 ^ (e + 1 - ds.length)

theorem FloatingConstant.plain (hwhole : IsDigits whole) (hfraction : IsDigits fraction) :
    FloatingConstant (whole ++ '.' :: fraction) (digitsValue (whole ++ fraction))
      (-(fraction.length : ℤ)) := by
  have h := FloatingConstant.point hwhole hfraction .absent
  rwa [List.append_nil, zero_sub] at h

theorem denotes_positional (h : IsDigits ds) (e : ℤ) : Denotes (positional ds e) ds e := by
  have hpos : 0 < ds.length := List.length_pos_iff.2 h.1
  have hzero : IsDigits ['0'] := ⟨by simp, by simp⟩
  unfold positional
  dsimp only
  split
  · -- The point and zeros stand before the digits.
    generalize hz : (-e - 1).toNat = z
    have hvalue : digitsValue (['0'] ++ (zeros z ++ ds)) = digitsValue ds :=
      digitsValue_zeros_append (z + 1) ds
    refine ⟨digitsValue (['0'] ++ (zeros z ++ ds)), -((zeros z ++ ds).length : ℤ),
      .plain hzero (h.zeros_append z), ?_⟩
    rw [hvalue, List.length_append, length_zeros]
    congr 2
    omega
  split
  · -- Zeros fill the place between the digits and the point.
    generalize hz : e.toNat + 1 - ds.length = z
    have hvalue : digitsValue (ds ++ zeros z ++ ['0']) = digitsValue ds * powerOfTen (z + 1) := by
      rw [List.append_assoc, zeros_append_zero, digitsValue_append, digitsValue_zeros, length_zeros,
        Nat.add_zero]
    refine ⟨_, _, .plain (h.append_zeros z) hzero, ?_⟩
    rw [hvalue, Nat.cast_mul, cast_powerOfTen, ← zpow_natCast, mul_assoc,
      ← zpow_add₀ (by norm_num), List.length_singleton]
    congr 2
    omega
  · -- The point stands among the digits.
    generalize hw : e.toNat + 1 = w
    have hwhole : IsDigits (ds.take w) :=
      ⟨by simp [h.1]; omega, fun d hd => h.2 d (List.mem_of_mem_take hd)⟩
    have hfraction : IsDigits (ds.drop w) :=
      ⟨by simp; omega, fun d hd => h.2 d (List.mem_of_mem_drop hd)⟩
    refine ⟨_, _, .plain hwhole hfraction, ?_⟩
    rw [List.take_append_drop, List.length_drop]
    congr 2
    omega

theorem exponentPart_power (width : ℕ) (e : ℤ) :
    ExponentPart ('e' :: (if e < 0 then '-' else '+') ::
      (zeros (width - (Nat.toDigits 10 e.natAbs).length) ++ Nat.toDigits 10 e.natAbs)) e := by
  have hdigits := (isDigits_toDigits e.natAbs).zeros_append
    (width - (Nat.toDigits 10 e.natAbs).length)
  have hvalue : digitsValue (zeros (width - (Nat.toDigits 10 e.natAbs).length) ++
      Nat.toDigits 10 e.natAbs) = e.natAbs := by
    rw [digitsValue_zeros_append, digitsValue_toDigits]
  by_cases he : e < 0
  · have hpart := ExponentPart.minus hdigits
    rw [hvalue] at hpart
    rw [if_pos he]
    convert hpart using 1
    omega
  · have hpart := ExponentPart.plus hdigits
    rw [hvalue] at hpart
    rw [if_neg he]
    convert hpart using 1
    omega

theorem denotes_scientific (h : IsDigits ds) (width : ℕ) (e : ℤ) :
    Denotes (scientific width ds e) ds e := by
  have hpart := exponentPart_power width e
  unfold scientific
  dsimp only
  rw [List.append_assoc, List.cons_append, List.cons_append]
  generalize hmark : 'e' :: (if e < 0 then '-' else '+') ::
      (zeros (width - (Nat.toDigits 10 e.natAbs).length) ++ Nat.toDigits 10 e.natAbs) = mark
    at hpart ⊢
  have hne : mark ≠ [] := by simp [← hmark]
  split
  · exact absurd rfl h.1
  · refine ⟨_, _, .exponent h hne hpart, ?_⟩
    rw [List.length_singleton, Nat.cast_one, add_sub_cancel_right]
  · next d ds hds =>
    obtain ⟨hd, hrest⟩ := List.forall_mem_cons.1 h.2
    have hwhole : IsDigits [d] := ⟨by simp, List.forall_mem_singleton.2 hd⟩
    refine ⟨_, _, .point hwhole ⟨fun hnil => hds (by rw [hnil]), hrest⟩ hpart, ?_⟩
    rw [List.singleton_append, List.length_cons]
    congr 2
    omega

theorem denotes_write (style : NumberStyle) (d : Decimal) :
    ∃ n k, FloatingConstant (d.write style) n k ∧
      (n : ℚ) * 10 ^ k = d.digits * 10 ^ d.exponent := by
  rw [← digitsValue_significantDigits d.digits d.exponent]
  have hdigits := isDigits_significantDigits d.digits
  unfold Decimal.write
  dsimp only
  split
  · exact denotes_positional hdigits _
  · exact denotes_scientific hdigits _ _

end Write

/-- The text of a finite value is a constant that denotes it. -/
theorem exists_floatingConstant_toText (h : Canonical m q) :
    ∃ n k, FloatingConstant (Double.finite false m q).toText.toList n k ∧
      ofDecimal false n k = .finite false m q := by
  by_cases hzero : m = 0
  · subst hzero
    have hzero : IsDigits ['0'] := ⟨by simp, by simp⟩
    obtain hnormal | rfl := h.normal
    · exact absurd (powerOfTwo_pos _) (not_lt.2 hnormal)
    · exact ⟨_, _, .plain hzero hzero, rfl⟩
  · obtain ⟨n, k, hconstant, hvalue⟩ := denotes_write standard (shortest m q)
    have hholds := holds_shortest h (Nat.pos_of_ne_zero hzero)
    rw [← hvalue] at hholds
    refine ⟨n, k, ?_, ofDecimal_of_holds false h (Nat.pos_of_ne_zero hzero) hholds⟩
    rw [toText, if_neg hzero]
    simpa using hconstant

section Read

theorem ne_of_isDigit {c d : Char} (hd : d.isDigit = true) (hc : c.isDigit = false) : d ≠ c := by
  rintro rfl
  rw [hd] at hc
  cases hc

theorem ExponentPart.exists_cons (h : ExponentPart mark e) (hne : mark ≠ []) :
    ∃ ds, mark = 'e' :: ds := by
  cases h with
  | absent => exact absurd rfl hne
  | plain _ => exact ⟨_, rfl⟩
  | plus _ => exact ⟨_, rfl⟩
  | minus _ => exact ⟨_, rfl⟩

theorem ExponentPart.dropWhile_isDigit (h : ExponentPart mark e) :
    mark.takeWhile Char.isDigit = [] ∧ mark.dropWhile Char.isDigit = mark := by
  by_cases hne : mark = []
  · subst hne
    exact ⟨rfl, rfl⟩
  · obtain ⟨ds, rfl⟩ := h.exists_cons hne
    exact ⟨rfl, rfl⟩

theorem ExponentPart.readExponent_eq (h : ExponentPart mark e) : readExponent mark = some e := by
  cases h with
  | absent => rfl
  | @plain ds hds =>
    obtain ⟨d, ds, rfl⟩ := List.exists_cons_of_ne_nil hds.1
    have hd := (List.forall_mem_cons.1 hds.2).1
    have hminus : d ≠ '-' := ne_of_isDigit hd rfl
    have hplus : d ≠ '+' := ne_of_isDigit hd rfl
    simp [readExponent, hminus, hplus, List.all_eq_true.2 hds.2]
  | plus hds => simp [readExponent, hds.1, List.all_eq_true.2 hds.2]
  | minus hds => simp [readExponent, hds.1, List.all_eq_true.2 hds.2]

/-- A constant is read as the value nearest to what it denotes. -/
theorem FloatingConstant.readMagnitude_eq (negative : Bool) (h : FloatingConstant cs n k) :
    readMagnitude negative cs = some (ofDecimal negative n k) := by
  cases h with
  | @point whole fraction mark e hwhole hfraction hpart =>
    obtain ⟨htake, hdrop⟩ := hpart.dropWhile_isDigit
    have hpoint : ('.' :: (fraction ++ mark)).takeWhile Char.isDigit = [] ∧
        ('.' :: (fraction ++ mark)).dropWhile Char.isDigit = '.' :: (fraction ++ mark) :=
      ⟨rfl, rfl⟩
    unfold readMagnitude
    dsimp only
    rw [List.takeWhile_append_of_pos hwhole.2, List.dropWhile_append_of_pos hwhole.2, hpoint.1,
      hpoint.2, List.append_nil, if_neg hwhole.1]
    change (readExponent ((fraction ++ mark).dropWhile Char.isDigit)).map (fun e =>
      ofDecimal negative (digitsValue (whole ++ (fraction ++ mark).takeWhile Char.isDigit))
        (e - ((fraction ++ mark).takeWhile Char.isDigit).length)) = _
    rw [List.takeWhile_append_of_pos hfraction.2, List.dropWhile_append_of_pos hfraction.2, htake,
      hdrop, List.append_nil, hpart.readExponent_eq, Option.map_some]
  | @exponent whole mark e hwhole hne hpart =>
    obtain ⟨htake, hdrop⟩ := hpart.dropWhile_isDigit
    obtain ⟨ds, rfl⟩ := hpart.exists_cons hne
    unfold readMagnitude
    dsimp only
    rw [List.takeWhile_append_of_pos hwhole.2, List.dropWhile_append_of_pos hwhole.2, htake, hdrop,
      List.append_nil, if_neg hwhole.1]
    change (readExponent ('e' :: ds)).map (fun e => ofDecimal negative (digitsValue (whole ++ []))
      (e - (0 : ℕ))) = _
    rw [hpart.readExponent_eq, Option.map_some, List.append_nil, Nat.cast_zero, sub_zero]

/-- Finite values with the same text are the same. -/
theorem toText_injective {m' : ℕ} {q' : ℤ} (h : Canonical m q) (h' : Canonical m' q')
    (htext : (Double.finite false m q).toText = (Double.finite false m' q').toText) :
    Double.finite false m q = .finite false m' q' := by
  obtain ⟨n, k, hconstant, hvalue⟩ := exists_floatingConstant_toText h
  obtain ⟨n', k', hconstant', hvalue'⟩ := exists_floatingConstant_toText h'
  have hread := hconstant.readMagnitude_eq false
  rw [htext, hconstant'.readMagnitude_eq false, hvalue, hvalue'] at hread
  exact (Option.some.inj hread).symm

end Read

section Lexeme

theorem ofLexeme_eq (whole fraction : List Char) :
    ofLexeme whole fraction =
      ofRatio false (digitsValue (whole ++ fraction)) (powerOfTen fraction.length) := by
  unfold ofLexeme ofDecimal
  split
  · next h =>
    have hlength : fraction.length = 0 := by omega
    rw [hlength]
    exact congrArg (ofRatio false · 1) (Nat.mul_one _)
  · rw [neg_neg, Int.toNat_natCast]

/-- The exact value of a lexeme is too great for a finite double: at least halfway between the
greatest one and the value that would follow it. -/
def Overflows (whole fraction : List Char) : Prop :=
  overflowBound * powerOfTen fraction.length ≤ digitsValue (whole ++ fraction)

theorem Overflows.ofLexeme_eq (h : Overflows whole fraction) :
    ofLexeme whole fraction = .infinite false := by
  rw [Double.ofLexeme_eq]
  exact ofRatio_of_overflowBound_le false (powerOfTen_pos _) h

theorem exists_canonical_of_not_overflows (h : ¬Overflows whole fraction) :
    ∃ m q, Canonical m q ∧ ofLexeme whole fraction = .finite false m q := by
  rw [ofLexeme_eq]
  exact exists_canonical_of_lt_overflowBound false (powerOfTen_pos _) (not_le.1 h)

theorem FloatingConstant.exists_digit (h : FloatingConstant cs n k) :
    ∃ d ds, cs = d :: ds ∧ d.isDigit = true := by
  have hcons {whole rest : List Char} (hwhole : IsDigits whole) :
      ∃ d ds, whole ++ rest = d :: ds ∧ d.isDigit = true := by
    obtain ⟨d, ds, rfl⟩ := List.exists_cons_of_ne_nil hwhole.1
    exact ⟨d, ds ++ rest, rfl, (List.forall_mem_cons.1 hwhole.2).1⟩
  cases h with
  | point hwhole _ _ => exact hcons hwhole
  | exponent hwhole _ _ => exact hcons hwhole

/-- A constant is no word. -/
theorem FloatingConstant.not_isIdentifier {text : String} (h : FloatingConstant text.toList n k) :
    ¬Token.IsIdentifier text := by
  intro hword
  obtain ⟨d, ds, hds, hd⟩ := h.exists_digit
  obtain ⟨c, cs, hcs, hc, -⟩ := hword.exists_word
  rw [hds, List.cons.injEq] at hcs
  rw [← hcs.1, Token.not_isAlpha_of_isDigit hd] at hc
  cases hc

theorem isIdentifier_inf : Token.IsIdentifier "inf" := by
  have htext : "inf".toList = 'i' :: ['n', 'f'] := rfl
  exact Token.isIdentifier_of_word htext rfl (by simp) rfl

theorem parseSource_lexeme (hwhole : IsDigits whole) (hfraction : IsDigits fraction) :
    parseSource (String.ofList (whole ++ '.' :: fraction) ++ ";") =
      .ok [.float (ofLexeme whole fraction)] := by
  have hspells := spells_float String.toList_ofList hwhole.1 hfraction.1 hwhole.2 hfraction.2 rfl
  have hscans := Token.Scans.lexeme hspells (by simp)
  refine parseSource_of_scans (Rendered.primary (hscans.mono ?_)).expression
  rintro ts ⟨t, rfl, ht, -⟩
  exact .literal (.float ht)

/-- The text in the code of any lexeme `digits '.' digits`: a floating constant that denotes the
value of the lexeme and is no word, except that a lexeme beyond the finite doubles becomes the word
`inf`, which is no constant. -/
theorem lower_lexeme (s : Settings) {whole fraction : List Char} (hwhole : IsDigits whole)
    (hfraction : IsDigits fraction) :
    ∃ x text, parseSource (String.ofList (whole ++ '.' :: fraction) ++ ";") = .ok [.float x] ∧
      lower s (.float x) = pure (some text) ∧
      (¬Overflows whole fraction → ¬Token.IsIdentifier text ∧
        ∃ n k, FloatingConstant text.toList n k ∧ ofDecimal false n k = x) ∧
      (Overflows whole fraction → text = "inf" ∧ Token.IsIdentifier text ∧
        ∀ n k, ¬FloatingConstant text.toList n k) := by
  refine ⟨_, _, parseSource_lexeme hwhole hfraction, by rw [lower], ?_, ?_⟩
  · intro h
    obtain ⟨m, q, hcanonical, hvalue⟩ := exists_canonical_of_not_overflows h
    obtain ⟨n, k, hconstant, hread⟩ := exists_floatingConstant_toText hcanonical
    rw [hvalue]
    exact ⟨hconstant.not_isIdentifier, n, k, hconstant, hread⟩
  · intro h
    rw [h.ofLexeme_eq]
    exact ⟨rfl, isIdentifier_inf, fun n k hconstant => hconstant.not_isIdentifier isIdentifier_inf⟩

/-- The lexeme `0.00001` needs an exponent in the code. -/
theorem lower_lexeme_small :
    IsDigits ['0'] ∧ IsDigits ['0', '0', '0', '0', '1'] ∧
      ¬Overflows ['0'] ['0', '0', '0', '0', '1'] ∧
      ∃ x text, parseSource "0.00001;" = .ok [.float x] ∧ lower {} (.float x) = pure (some text) ∧
        ¬Token.IsIdentifier text ∧
        ∃ n k, FloatingConstant text.toList n k ∧ ofDecimal false n k = x := by
  have hwhole : IsDigits ['0'] := ⟨by simp, by simp⟩
  have hfraction : IsDigits ['0', '0', '0', '0', '1'] := ⟨by simp, by simp⟩
  have hsmall : ¬Overflows ['0'] ['0', '0', '0', '0', '1'] := by
    unfold Overflows
    decide +kernel
  obtain ⟨x, text, hparse, hlower, hconstant, -⟩ := lower_lexeme {} hwhole hfraction
  exact ⟨hwhole, hfraction, hsmall, x, text, hparse, hlower, hconstant hsmall⟩

/-- The lexeme `1000…0.0` of `10 ^ 309` is written as a word. -/
theorem lower_lexeme_huge :
    IsDigits ('1' :: zeros 309) ∧ IsDigits ['0'] ∧
      ∃ x, parseSource (String.ofList ('1' :: zeros 309 ++ ['.', '0']) ++ ";") = .ok [.float x] ∧
        lower {} (.float x) = pure (some "inf") ∧ Token.IsIdentifier "inf" ∧
        ∀ n k, ¬FloatingConstant "inf".toList n k := by
  have hwhole : IsDigits ('1' :: zeros 309) :=
    ⟨by simp, List.forall_mem_cons.2 ⟨rfl, isDigit_zeros 309⟩⟩
  have hfraction : IsDigits ['0'] := ⟨by simp, by simp⟩
  have hvalue : digitsValue ('1' :: zeros 309 ++ ['0']) = powerOfTen 310 := by
    have hone : digitsValue ['1'] = 1 := rfl
    rw [List.cons_append, zeros_append_zero, ← List.singleton_append, digitsValue_append,
      digitsValue_zeros, length_zeros, hone, Nat.one_mul, Nat.add_zero]
  have hhuge : Overflows ('1' :: zeros 309) ['0'] := by
    unfold Overflows
    rw [hvalue]
    decide +kernel
  refine ⟨hwhole, hfraction, _, parseSource_lexeme hwhole hfraction, ?_, isIdentifier_inf,
    fun n k hconstant => hconstant.not_isIdentifier isIdentifier_inf⟩
  rw [lower, hhuge.ofLexeme_eq]
  rfl

end Lexeme

end Double

end SumLang
