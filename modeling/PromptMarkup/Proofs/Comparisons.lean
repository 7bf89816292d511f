/-
Comparing numbers in double precision.

* `Number.unpack_eq` — what a number is taken apart into for a comparison;
* `Number.lt_iff`, `Number.le_iff` — finite numbers are compared by their values;
* `Number.exceeds_iff` — which numbers are not at most a whole number;
* `Number.exists_wholePart` — the whole part of a finite number;
* `Number.value_ofNat` — whole numbers with at most 53 bits are numbers themselves.

Design notes: a comparison looks at the exponents first and at the significands if these are the
same.  This is the order of the values because the significand of a number with an exponent above
the least one has all of its 53 bits (`magnitude_lt_of_exponent`).
-/
import PromptMarkup.Proofs.Rounding

namespace PromptMarkup.Number

open Float.Model (UnpackedFloat Format)
open Float.Model.UnpackedFloat (unpackExponent unpackMantissa unpackSign Sign)

variable {x y : Float} {n : Nat}

/-! ### Fields -/

theorem toNat_unpackExponent (x : Float) :
    (@unpackExponent Format.binary64 x.toBits.toBitVec).toNat = exponentField x := by
  rw [Float.Model.UnpackedFloat.unpackExponent_def, BitVec.extractLsb'_toNat,
    Nat.shiftRight_eq_div_pow]
  rfl

theorem toNat_unpackMantissa (x : Float) :
    (@unpackMantissa Format.binary64 x.toBits.toBitVec).toNat = fractionField x := by
  rw [Float.Model.UnpackedFloat.unpackMantissa_def, BitVec.extractLsb'_toNat, Nat.shiftRight_zero]
  rfl

/-- The sign of a number that is taken apart. -/
def signOf (x : Float) : Sign :=
  if isNegative x then .negative else .positive

theorem ofBitVec_unpackSign (x : Float) :
    Sign.ofBitVec (@unpackSign Format.binary64 x.toBits.toBitVec) = signOf x := by
  have hlt : x.toBits.toNat < 2 ^ 64 := x.toBits.toNat_lt
  -- the sign is the highest bit of 64
  have hnat : (@unpackSign Format.binary64 x.toBits.toBitVec).toNat =
    x.toBits.toNat / 2 ^ 63 % 2 := by
    rw [Float.Model.UnpackedFloat.unpackSign_def, BitVec.extractLsb'_toNat,
      Nat.shiftRight_eq_div_pow]
    rfl
  show (if @unpackSign Format.binary64 x.toBits.toBitVec = 0#1 then Sign.positive
    else Sign.negative) =
      if decide (2 ^ 63 ≤ x.toBits.toNat) = true then .negative else .positive
  by_cases h : 2 ^ 63 ≤ x.toBits.toNat
  · rw [if_neg, if_pos (decide_eq_true h)]
    intro hzero
    rw [hzero, BitVec.toNat_ofNat] at hnat
    omega
  · rw [if_pos, if_neg (by rw [decide_eq_true_eq]; exact h)]
    refine BitVec.eq_of_toNat_eq ?_
    rw [hnat, BitVec.toNat_ofNat]
    omega

theorem unpackExponent_eq_iff {n : Nat} (hn : n < 2 ^ 11) :
    @unpackExponent Format.binary64 x.toBits.toBitVec = BitVec.ofNat 11 n ↔
    exponentField x = n := by
  rw [← BitVec.toNat_inj, toNat_unpackExponent, BitVec.toNat_ofNat, Nat.mod_eq_of_lt hn]

theorem unpackMantissa_eq_zero_iff :
    @unpackMantissa Format.binary64 x.toBits.toBitVec = 0#52 ↔ fractionField x = 0 := by
  rw [← BitVec.toNat_inj, toNat_unpackMantissa]
  rfl

theorem toNat_one_append (b : BitVec 52) : (1#1 ++ b).toNat = b.toNat + 2 ^ 52 := by
  rw [BitVec.toNat_append, BitVec.toNat_ofNat, ← Nat.shiftLeft_add_eq_or_of_lt b.isLt,
    Nat.shiftLeft_eq]
  omega

theorem finite_congr {s : Sign} {m m' : Nat} {q q' : Int} (h : 0 < m) (h' : 0 < m') (hm : m = m')
    (hq : q = q') :
    UnpackedFloat.finite s m q h = .finite s m' q' h' := by
  subst hm hq
  rfl

/-- What a number is taken apart into: its kind, and the fields of a finite one. -/
theorem unpack_eq (x : Float) :
    x.toModel.unpack =
      if exponentField x = 2047 then if fractionField x = 0 then .infinity (signOf x)
        else .notANumber
      else if hm : 0 < significand x then .finite (signOf x) (significand x) (exponent x) hm
      else .zero (signOf x) := by
  show UnpackedFloat.unpack Format.binary64 x.toBits.toBitVec = _
  have hones : (-1#11 : BitVec 11) = BitVec.ofNat 11 2047 := by decide
  unfold UnpackedFloat.unpack
  dsimp only
  -- the three ranges of the exponent field: all ones, all zeros, and what is between
  rw [ofBitVec_unpackSign]
  by_cases hmax : exponentField x = 2047
  · rw [if_pos hmax, if_pos (hones ▸ (unpackExponent_eq_iff (by decide)).2 hmax)]
    by_cases hfraction : fractionField x = 0
    · rw [if_pos hfraction, if_pos (unpackMantissa_eq_zero_iff.2 hfraction)]
    · rw [if_neg hfraction, if_neg (fun h => hfraction (unpackMantissa_eq_zero_iff.1 h))]
  · rw [if_neg hmax, if_neg (fun h => hmax ((unpackExponent_eq_iff (by decide)).1 (hones ▸ h)))]
    by_cases hzero : exponentField x = 0
    -- subnormal numbers have no hidden bit
    · have hsignificand : significand x = fractionField x := if_pos hzero
      rw [if_pos ((unpackExponent_eq_iff (by decide)).2 hzero)]
      by_cases hfraction : fractionField x = 0
      · rw [dif_pos (unpackMantissa_eq_zero_iff.2 hfraction), dif_neg (by omega)]
      · rw [dif_neg (fun h => hfraction (unpackMantissa_eq_zero_iff.1 h)), dif_pos (by omega)]
        refine finite_congr _ _ ((toNat_unpackMantissa x).trans hsignificand.symm) ?_
        rw [toNat_unpackExponent, hzero, exponent, if_pos hzero]
        rfl
    -- and all others have one, in front of their fraction
    · have hsignificand : significand x = fractionField x + 2 ^ 52 := if_neg hzero
      rw [if_neg (fun h => hzero ((unpackExponent_eq_iff (by decide)).1 h)), dif_pos (by omega)]
      refine finite_congr _ _ ?_ ?_
      · rw [toNat_one_append, toNat_unpackMantissa, hsignificand]
      · rw [toNat_unpackExponent, exponent, if_neg hzero]
        rfl

/-! ### The order of finite numbers -/

/-- The value of a finite number without its sign. -/
def magnitude (x : Float) : ℚ :=
  significand x * 2 ^ exponent x

theorem magnitude_nonneg (x : Float) : 0 ≤ magnitude x :=
  mul_nonneg (Nat.cast_nonneg _) (zpow_pos two_pos _).le

theorem value_of_signOf (x : Float) :
    signOf x = .negative ∧ value x = -magnitude x ∨ signOf x = .positive ∧
    value x = magnitude x := by
  cases h : isNegative x
  · exact .inr ⟨by rw [signOf, h]; rfl, by rw [value, h]; exact one_mul _⟩
  · exact .inl ⟨by rw [signOf, h]; rfl, by rw [value, h]; exact neg_one_mul _⟩

/-- The significand of a number whose exponent is not the least one has all of its bits. -/
theorem magnitude_lt_of_exponent (h : exponent x < exponent y) : magnitude x < magnitude y := by
  have hleast : -1074 ≤ exponent x := by
    unfold exponent
    split <;> omega
  have hnormal : 2 ^ 52 ≤ significand y := by
    have hfield : exponentField y ≠ 0 := by
      intro hzero
      rw [show exponent y = -1074 from if_pos hzero] at h
      omega
    rw [show significand y = fractionField y + 2 ^ 52 from if_neg hfield]
    omega
  have hlow : (significand x : ℚ) < 2 ^ 53 := mod_cast significand_lt x
  have hhigh : (2 ^ 52 : ℚ) ≤ significand y := mod_cast hnormal
  calc magnitude x
    _ < 2 ^ 53 * 2 ^ exponent x := mul_lt_mul_of_pos_right hlow (zpow_pos two_pos _)
    _ = 2 ^ 52 * 2 ^ (exponent x + 1) := by rw [zpow_add_one₀ two_ne_zero]; ring
    _ ≤ 2 ^ 52 * 2 ^ exponent y :=
      mul_le_mul_of_nonneg_left (zpow_le_zpow_right₀ one_le_two h) (by positivity)
    _ ≤ magnitude y := mul_le_mul_of_nonneg_right hhigh (zpow_pos two_pos _).le

theorem compare_magnitude (x y : Float) :
    (compare (exponent x) (exponent y)).then (compare (significand x) (significand y)) =
      compare (magnitude x) (magnitude y) := by
  rcases lt_trichotomy (exponent x) (exponent y) with hlt | heq | hgt
  · rw [compare_lt_iff_lt.2 hlt, compare_lt_iff_lt.2 (magnitude_lt_of_exponent hlt)]
    rfl
  · have hstep : (0 : ℚ) < 2 ^ exponent y := zpow_pos two_pos _
    rw [compare_eq_iff_eq.2 heq, magnitude, magnitude, heq, Ordering.then]
    rcases lt_trichotomy (significand x) (significand y) with hlt | heq | hgt
    · rw [compare_lt_iff_lt.2 hlt,
        compare_lt_iff_lt.2 (mul_lt_mul_of_pos_right (mod_cast hlt) hstep)]
    · rw [compare_eq_iff_eq.2 heq, compare_eq_iff_eq.2 (by rw [heq])]
    · rw [compare_gt_iff_gt.2 hgt,
        compare_gt_iff_gt.2 (mul_lt_mul_of_pos_right (mod_cast hgt) hstep)]
  · rw [compare_gt_iff_gt.2 hgt, compare_gt_iff_gt.2 (magnitude_lt_of_exponent hgt)]
    rfl

theorem compare_neg (a b : ℚ) : compare (-a) (-b) = (compare a b).swap := by
  rcases lt_trichotomy a b with hlt | rfl | hgt
  · rw [compare_lt_iff_lt.2 hlt, compare_gt_iff_gt.2 (neg_lt_neg hlt)]
    rfl
  · rw [compare_eq_iff_eq.2 rfl, compare_eq_iff_eq.2 rfl]
    rfl
  · rw [compare_gt_iff_gt.2 hgt, compare_lt_iff_lt.2 (neg_lt_neg hgt)]
    rfl

/-- A finite number is a zero or it has a significand; in both cases the sign is kept beside it. -/
theorem unpack_of_finite (h : isFinite x = true) :
    x.toModel.unpack = .zero (signOf x) ∧ value x = 0 ∨
      ∃ hm : 0 < significand x,
        x.toModel.unpack = .finite (signOf x) (significand x) (exponent x) hm ∧
        0 < magnitude x := by
  rw [unpack_eq, if_neg (bne_iff_ne.1 h)]
  by_cases hm : 0 < significand x
  · exact .inr ⟨hm, dif_pos hm, mul_pos (mod_cast hm) (zpow_pos two_pos _)⟩
  · refine .inl ⟨dif_neg hm, ?_⟩
    rw [value, Nat.eq_zero_of_not_pos hm, Nat.cast_zero, zero_mul, mul_zero]

/-- Finite numbers are compared by their values. -/
theorem compare_unpack (hx : isFinite x = true) (hy : isFinite y = true) :
    x.toModel.unpack.compare y.toModel.unpack = some (compare (value x) (value y)) := by
  have hmagnitudes := compare_magnitude x y
  -- zeros are cases of their own: they have a sign that their value does not tell
  rcases unpack_of_finite hx with ⟨hux, hvx⟩ | ⟨hmx, hux, hposx⟩ <;>
    rcases unpack_of_finite hy with ⟨huy, hvy⟩ | ⟨hmy, huy, hposy⟩ <;> rw [hux, huy]
  · rw [hvx, hvy]
    exact congrArg some (compare_eq_iff_eq.2 rfl).symm
  · rw [hvx]
    rcases value_of_signOf y with ⟨hsy, hvy⟩ | ⟨hsy, hvy⟩ <;> rw [hsy, hvy]
    · exact congrArg some (compare_gt_iff_gt.2 (neg_neg_of_pos hposy)).symm
    · exact congrArg some (compare_lt_iff_lt.2 hposy).symm
  · rw [hvy]
    rcases value_of_signOf x with ⟨hsx, hvx⟩ | ⟨hsx, hvx⟩ <;> rw [hsx, hvx]
    · exact congrArg some (compare_lt_iff_lt.2 (neg_neg_of_pos hposx)).symm
    · exact congrArg some (compare_gt_iff_gt.2 hposx).symm
  · rcases value_of_signOf x with ⟨hsx, hvx⟩ | ⟨hsx, hvx⟩ <;>
      rcases value_of_signOf y with ⟨hsy, hvy⟩ | ⟨hsy, hvy⟩ <;> rw [hsx, hsy, hvx, hvy]
    -- both negative: the order of the magnitudes is turned round
    · rw [compare_neg, ← hmagnitudes]
      rfl
    · exact congrArg some (compare_lt_iff_lt.2 (by linarith)).symm
    · exact congrArg some (compare_gt_iff_gt.2 (show -magnitude y < magnitude x by linarith)).symm
    · exact congrArg some hmagnitudes

theorem lt_iff (hx : isFinite x = true) (hy : isFinite y = true) : x < y ↔ value x < value y := by
  show decide ((x.toModel.unpack.compare y.toModel.unpack == some .lt) = true) = true ↔ _
  rw [decide_eq_true_eq, compare_unpack hx hy, beq_iff_eq, Option.some_inj, compare_lt_iff_lt]

theorem le_iff (hx : isFinite x = true) (hy : isFinite y = true) : x ≤ y ↔ value x ≤ value y := by
  show decide ((x.toModel.unpack.compare y.toModel.unpack).any (fun o => o.isLE) = true) = true ↔ _
  rw [decide_eq_true_eq, compare_unpack hx hy, Option.any_some, Ordering.isLE_iff_ne_gt]
  exact compare_le_iff_le

/-! ### Numbers that are not finite -/

theorem isNaN_of_isFinite (h : isFinite x = true) : x.isNaN = false := by
  show x.toModel.unpack.isNaN = false
  rcases unpack_of_finite h with ⟨hux, -⟩ | ⟨hmx, hux, -⟩
  · rw [hux]
    rfl
  · rw [hux]
    rfl

/-- A number that is not finite is infinite, or it is not a number. -/
theorem unpack_of_infinite (hfinite : isFinite x = false) (hnan : x.isNaN = false) :
    x.toModel.unpack = .infinity (signOf x) ∧ exponentField x = 2047 ∧ fractionField x = 0 := by
  have hmax : exponentField x = 2047 := by
    rw [isFinite] at hfinite
    exact bne_eq_false_iff_eq.1 hfinite
  have hunpack := unpack_eq x
  rw [if_pos hmax] at hunpack
  by_cases hfraction : fractionField x = 0
  · exact ⟨by rw [hunpack, if_pos hfraction], hmax, hfraction⟩
  · rw [if_neg hfraction] at hunpack
    have hnotANumber : x.isNaN = true := by
      show x.toModel.unpack.isNaN = true
      rw [hunpack]
      rfl
    exact absurd hnotANumber (Bool.eq_false_iff.1 hnan)

theorem eq_infinity_iff : x = infinity ↔ isFinite x = false ∧ x.isNaN = false ∧
    signOf x = .positive := by
  constructor
  · rintro rfl
    -- the other direction is about the bits: sign, exponent and fraction are all of them
    have hsign : isNegative infinity = false := by decide +kernel
    exact ⟨by decide +kernel, by decide +kernel, by rw [signOf, hsign]; rfl⟩
  · rintro ⟨hfinite, hnan, hsign⟩
    obtain ⟨-, hexponent, hfraction⟩ := unpack_of_infinite hfinite hnan
    have hbits : infinity.toBits.toNat = 2047 * 2 ^ 52 := by decide +kernel
    have hlt : x.toBits.toNat < 2 ^ 64 := x.toBits.toNat_lt
    have hexponent' : x.toBits.toNat / 2 ^ 52 % 2 ^ 11 = 2047 := hexponent
    have hfraction' : x.toBits.toNat % 2 ^ 52 = 0 := hfraction
    have hpositive : ¬2 ^ 63 ≤ x.toBits.toNat := by
      intro hnegative
      have hflag : isNegative x = true := decide_eq_true hnegative
      rw [signOf, hflag] at hsign
      cases hsign
    refine Float.toBits_inj.1 (UInt64.toNat_inj.1 ?_)
    rw [hbits]
    omega

/-- The infinities stand at the ends of the finite numbers. -/
theorem compare_infinity (s : Sign) (h : isFinite y = true) :
    (UnpackedFloat.infinity s).compare y.toModel.unpack =
      some (match s with
        | .negative => .lt
        | .positive => .gt) := by
  rcases unpack_of_finite h with ⟨hunpack, -⟩ | ⟨_, hunpack, -⟩ <;> rw [hunpack] <;> cases s <;> rfl

theorem isFinite_zero : isFinite 0 = true := by
  decide +kernel

theorem value_zero : value 0 = 0 := by
  have hzero : significand 0 = 0 := by decide +kernel
  rw [value, hzero, Nat.cast_zero, zero_mul, mul_zero]

/-! ### Whole numbers -/

theorem wholeMagnitude_eq_floor (x : Float) : wholeMagnitude x = ⌊magnitude x⌋₊ := by
  have hquotient : magnitude x =
      ((significand x * twoTo (exponent x).toNat : Nat) : ℚ) /
      (twoTo (-exponent x).toNat : Nat) := by
    rw [magnitude]
    rcases (exponent x).eq_nat_or_neg with ⟨k, hk | hk⟩ <;> rw [hk]
    · simp
    · simp [div_eq_mul_inv]
  rw [hquotient, Nat.floor_div_eq_div]
  rfl

/-- A finite number has a whole part; as a natural number it is zero if it is negative. -/
theorem exists_wholePart (h : isFinite x = true) :
    ∃ n, wholePart? x = some n ∧ n.toNat = ⌊value x⌋₊ := by
  have hwhole := wholeMagnitude_eq_floor x
  have hnonneg := magnitude_nonneg x
  rw [wholePart?, if_pos h]
  cases hsign : isNegative x with
  | false =>
    have hvalue : value x = magnitude x := by
      rw [value, hsign]
      exact one_mul _
    refine ⟨_, rfl, ?_⟩
    rw [hvalue, ← hwhole]
    rfl
  | true =>
    have hvalue : value x = -magnitude x := by
      rw [value, hsign]
      exact neg_one_mul _
    -- the whole part of a negative number is not positive
    refine ⟨_, rfl, ?_⟩
    rw [Nat.floor_of_nonpos (by linarith), if_pos rfl]
    omega

/-- A whole number with at most 53 bits is the value of a number. -/
theorem exists_value_eq (h : n < 2 ^ 53) : ∃ y, isFinite y = true ∧ value y = n := by
  by_cases hn : n = 0
  · subst hn
    refine ⟨ofMagnitude false 0, isFinite_ofMagnitude false (by decide), ?_⟩
    rw [value, significand, exponentField_ofMagnitude false (by decide),
      fractionField_ofMagnitude false (by decide)]
    norm_num
  -- the number is shifted left until its first bit is the hidden one
  · have hlog : Nat.log2 n < 53 := (Nat.log2_lt hn).2 h
    obtain ⟨q, hq⟩ : ∃ q : Int, q = Nat.log2 n - 52 := ⟨_, rfl⟩
    obtain ⟨k, hk⟩ : ∃ k : Nat, q = -k := ⟨52 - Nat.log2 n, by omega⟩
    obtain ⟨hlow, hhigh⟩ := significand_bounds hn hq
    have hshift : (n / 2 ^ q : ℚ) = (n * 2 ^ k : Nat) := by
      rw [hk, zpow_neg, zpow_natCast, div_inv_eq_mul]
      push_cast
      rfl
    rw [hshift] at hlow hhigh
    have hlow' : 2 ^ 52 ≤ n * 2 ^ k := mod_cast hlow
    have hhigh' : n * 2 ^ k < 2 ^ 53 := mod_cast hhigh
    refine ⟨ofMagnitude false ((q + 1075).toNat * 2 ^ 52 + (n * 2 ^ k - 2 ^ 52)),
      isFinite_ofMagnitude false (by omega), ?_⟩
    have hexponent : ((q + 1075).toNat : Int) - 1075 = q := by omega
    rw [(value_ofMagnitude false (by omega) (by omega) hlow' hhigh'.le).1, hexponent,
      ← hshift, sign,
      if_neg Bool.false_ne_true, one_mul, div_mul_cancel₀ _ (zpow_ne_zero q two_ne_zero)]

/-- Such a number is not rounded. -/
theorem value_ofNat (h : n < 2 ^ 53) : isFinite (ofNat n) = true ∧ value (ofNat n) = n := by
  have hrounds := rounds_nearest false (n := n) (by omega)
  rw [sign, if_neg Bool.false_ne_true, one_mul] at hrounds
  obtain ⟨y, hfinite, hvalue⟩ := exists_value_eq h
  have hnearest := hrounds.nearest y hfinite
  rw [hvalue, sub_self, abs_zero] at hnearest
  exact ⟨hrounds.finite, sub_eq_zero.1 (abs_eq_zero.1 (le_antisymm hnearest (abs_nonneg _)))⟩

/-- A number that is not at most `n` is greater, or it is infinite. -/
theorem exceeds_iff (h : n < 2 ^ 53) :
    x.isNaN = false ∧ ¬x ≤ ofNat n ↔ isFinite x = true ∧ (n : ℚ) < value x ∨ x = infinity := by
  obtain ⟨hn, hvalue⟩ := value_ofNat h
  cases hx : isFinite x with
  | true =>
    -- infinity is no number, and compares as the largest one
    have hne : x ≠ infinity := fun heq => Bool.noConfusion (hx.symm.trans (eq_infinity_iff.1 heq).1)
    rw [le_iff hx hn, hvalue, not_le]
    exact ⟨fun hboth => .inl ⟨rfl, hboth.2⟩, fun hor =>
      ⟨isNaN_of_isFinite hx, hor.elim And.right fun heq => absurd heq hne⟩⟩
  | false =>
    have hle : x.isNaN = false → (¬x ≤ ofNat n ↔ signOf x = .positive) := by
      intro hnan
      have hcompare : x ≤ ofNat n ↔
          (x.toModel.unpack.compare (ofNat n).toModel.unpack).any (fun o => o.isLE) = true :=
          decide_eq_true_iff
      rw [hcompare, (unpack_of_infinite hx hnan).1, compare_infinity _ hn]
      cases signOf x with
      | negative => exact ⟨fun h => absurd rfl h, fun h => nomatch h⟩
      | positive => exact ⟨fun _ => rfl, fun _ h => nomatch h⟩
    rw [eq_infinity_iff]
    exact ⟨fun hboth => .inr ⟨hx, hboth.1, (hle hboth.1).1 hboth.2⟩, fun hor => hor.elim
      (fun hboth => absurd hboth.1 Bool.false_ne_true) fun hboth =>
      ⟨hboth.2.1, (hle hboth.2.1).2 hboth.2.2⟩⟩

end PromptMarkup.Number
