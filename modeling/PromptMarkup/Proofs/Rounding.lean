/-
Whole numbers in double precision.

* `Number.isNaN_nearest` — a quotient is rounded to a number;
* `Number.value` — the exact value of a number;
* `Number.Rounds` — the numbers to which a rational number is rounded: none is nearer, and of two
  that are as near the one with the even significand is taken;
* `Number.rounds_ofInt` — an integer of at most 64 bits becomes a number to which it is rounded.

Design notes: the numbers with a given exponent stand at equal steps, so an error is measured in
steps.  Numbers with a larger exponent stand at whole steps as well, and those with a smaller one
are all in front of the first number with this exponent (`value_steps`).  A significand may be
rounded up to the next power of two; the bits of such a number are those of the next exponent
(`value_ofMagnitude`).
-/
import Mathlib
import PromptMarkup.Number.Binary

namespace PromptMarkup.Number

open Float.Model (UnpackedFloat Format)

/-! ### Bits -/

theorem toBits_ofBits {b : UInt64}
    (h : @UnpackedFloat.isNaNBits Format.binary64 b.toBitVec = false) :
    (Float.ofBits b).toBits = b := by
  have hpack := @UnpackedFloat.pack_unpack Format.binary64 b.toBitVec
  rw [h, if_neg Bool.false_ne_true] at hpack
  exact UInt64.toBitVec_inj.1 hpack

/-- Bits with the largest exponent are those of an infinity if they have no fraction. -/
theorem isNaNBits_eq_false {b : UInt64}
    (h : b.toNat / 2 ^ 52 % 2 ^ 11 = 2047 → b.toNat % 2 ^ 52 = 0) :
    @UnpackedFloat.isNaNBits Format.binary64 b.toBitVec = false := by
  refine decide_eq_false fun ⟨hexponent, hfraction⟩ => hfraction ?_
  rw [UnpackedFloat.unpackExponent_def] at hexponent
  rw [UnpackedFloat.unpackMantissa_def]
  have hfield : b.toNat / 2 ^ 52 % 2 ^ 11 = 2047 := by
    have hnat := congrArg BitVec.toNat hexponent
    rwa [BitVec.extractLsb'_toNat, Nat.shiftRight_eq_div_pow] at hnat
  refine BitVec.eq_of_toNat_eq ?_
  rw [BitVec.extractLsb'_toNat, Nat.shiftRight_zero]
  exact h hfield

theorem toNat_toBits_ofMagnitude (negative : Bool) {m : Nat} (h : m ≤ 2047 * 2 ^ 52) :
    (ofMagnitude negative m).toBits.toNat = m + negative.toNat * 2 ^ 63 := by
  have hsign : (if negative then twoTo 63 else 0) = negative.toNat * 2 ^ 63 := by
    cases negative
    · rfl
    · exact (Nat.one_mul _).symm
  have hle := negative.toNat_le
  have hnat : (UInt64.ofNat (m + negative.toNat * 2 ^ 63)).toNat = m + negative.toNat * 2 ^ 63 :=
    UInt64.toNat_ofNat_of_lt' (by rw [UInt64.size]; omega)
  rw [ofMagnitude, hsign, toBits_ofBits (isNaNBits_eq_false fun hfield => ?_), hnat]
  rw [hnat] at hfield ⊢
  omega

theorem isNaN_nan : nan.isNaN = true := by
  decide +kernel

theorem isNaN_ofMagnitude (negative : Bool) {m : Nat} (h : m ≤ 2047 * 2 ^ 52) :
    (ofMagnitude negative m).isNaN = false := by
  rw [Float.isNaN_eq_decide_eq_nan]
  refine decide_eq_false fun hnan => ?_
  have hbits := toNat_toBits_ofMagnitude negative h
  have hnanBits : Float.nan.toBits.toNat = 0x7FF8000000000000 := by decide +kernel
  rw [hnan, hnanBits] at hbits
  have hle := negative.toNat_le
  omega

theorem isNaN_nearest (negative : Bool) (num den : Nat) :
    (nearest negative num den).isNaN = false := by
  unfold nearest
  split
  · exact isNaN_ofMagnitude negative (Nat.zero_le _)
  · exact isNaN_ofMagnitude negative (Nat.min_le_right _ _)

section Fields

variable (negative : Bool) {m : Nat} (h : m < 2047 * 2 ^ 52)

include h

theorem exponentField_ofMagnitude : exponentField (ofMagnitude negative m) = m / 2 ^ 52 := by
  have hle := negative.toNat_le
  show (ofMagnitude negative m).toBits.toNat / 2 ^ 52 % 2 ^ 11 = m / 2 ^ 52
  rw [toNat_toBits_ofMagnitude negative (Nat.le_of_lt h)]
  omega

theorem fractionField_ofMagnitude : fractionField (ofMagnitude negative m) = m % 2 ^ 52 := by
  show (ofMagnitude negative m).toBits.toNat % 2 ^ 52 = m % 2 ^ 52
  rw [toNat_toBits_ofMagnitude negative (Nat.le_of_lt h)]
  omega

theorem isNegative_ofMagnitude : isNegative (ofMagnitude negative m) = negative := by
  show decide (2 ^ 63 ≤ (ofMagnitude negative m).toBits.toNat) = negative
  rw [toNat_toBits_ofMagnitude negative (Nat.le_of_lt h)]
  cases negative
  · exact decide_eq_false (by rw [Bool.toNat_false]; omega)
  · exact decide_eq_true (by rw [Bool.toNat_true]; omega)

theorem isFinite_ofMagnitude : isFinite (ofMagnitude negative m) = true := by
  rw [isFinite, exponentField_ofMagnitude negative h, bne_iff_ne]
  omega

end Fields

/-! ### Values -/

/-- The factor of a sign. -/
def sign (negative : Bool) : ℚ :=
  if negative then -1 else 1

theorem sign_mul_self (negative : Bool) : sign negative * sign negative = 1 := by
  cases negative
  · exact mul_one 1
  · exact (neg_mul_neg 1 1).trans (mul_one 1)

theorem abs_sign (negative : Bool) : |sign negative| = 1 := by
  cases negative
  · exact abs_one
  · exact (abs_neg 1).trans abs_one

/-- The value of a finite number. -/
def value (x : Float) : ℚ :=
  sign (isNegative x) * (significand x * 2 ^ exponent x)

/-- The numbers to which `r` is rounded: no finite number is nearer to `r`, and one with an even
significand is taken where another one is as near. -/
structure Rounds (r : ℚ) (x : Float) : Prop where
  finite : isFinite x = true
  nearest : ∀ y, isFinite y = true → |value x - r| ≤ |value y - r|
  even : ∀ y, isFinite y = true → |value y - r| = |value x - r| → value y ≠ value x →
    significand x % 2 = 0

theorem significand_lt (x : Float) : significand x < 2 ^ 53 := by
  have hfraction : fractionField x < 2 ^ 52 := Nat.mod_lt _ (Nat.two_pow_pos 52)
  have hstep : twoTo 52 = 2 ^ 52 := rfl
  unfold significand
  split <;> omega

/-- A number is a whole number of steps of length `2 ^ q`, or it is smaller than the first number
with a step of this length. -/
theorem value_steps (x : Float) (q : Int) :
    (∃ k : ℤ, value x = k * 2 ^ q) ∨ |value x| < 2 ^ 52 * 2 ^ q := by
  rcases le_or_gt q (exponent x) with hle | hlt
  · obtain ⟨j, hj⟩ := Int.le.dest hle
    refine .inl ⟨(if isNegative x then -1 else 1) * (significand x * 2 ^ j), ?_⟩
    rw [value, sign, ← hj, zpow_add₀ two_ne_zero, zpow_natCast]
    push_cast
    ring
  · refine .inr ?_
    have hsignificand : (significand x : ℚ) < 2 ^ 53 := mod_cast significand_lt x
    have hstep : (2 : ℚ) ^ exponent x ≤ 2 ^ (q - 1) := zpow_le_zpow_right₀ one_le_two (by omega)
    have hpos : (0 : ℚ) < 2 ^ exponent x := zpow_pos two_pos _
    calc |value x|
      _ = significand x * 2 ^ exponent x := by
        rw [value, abs_mul, abs_sign, one_mul,
          abs_of_nonneg (mul_nonneg (Nat.cast_nonneg _) hpos.le)]
      _ < 2 ^ 53 * 2 ^ exponent x := mul_lt_mul_of_pos_right hsignificand hpos
      _ ≤ 2 ^ 53 * 2 ^ (q - 1) := mul_le_mul_of_nonneg_left hstep (by positivity)
      _ = 2 ^ 52 * 2 ^ q := by rw [zpow_sub_one₀ two_ne_zero]; ring

/-! ### Quotients -/

/-- The error of a rounded quotient, in parts of the divisor. -/
theorem roundQuotient_bounds (num : Nat) {den : Nat} (h : 0 < den) :
    2 * num ≤ 2 * (roundQuotient num den * den) + den ∧
    2 * (roundQuotient num den * den) ≤ 2 * num + den ∧
      (2 * num = 2 * (roundQuotient num den * den) + den ∨ 2 * (roundQuotient num den * den) =
        2 * num + den →
        roundQuotient num den % 2 = 0) := by
  have hdiv : num / den * den + num % den = num := Nat.div_add_mod' num den
  have hmod := Nat.mod_lt num h
  unfold roundQuotient
  dsimp only
  split
  · omega
  · split
    · rw [Nat.add_mul]
      omega
    · rcases Nat.mod_two_eq_zero_or_one (num / den) with hmod2 |
        hmod2 <;> rw [hmod2, Nat.add_mul] <;> omega

theorem abs_roundQuotient_sub_le (num : Nat) {den : Nat} (h : 0 < den) :
    |(roundQuotient num den : ℚ) - num / den| ≤ 1 / 2 := by
  obtain ⟨hlow, hhigh, -⟩ := roundQuotient_bounds num h
  have hden : (0 : ℚ) < den := mod_cast h
  have hnum : (num / den * den : ℚ) = num := div_mul_cancel₀ _ hden.ne'
  have hlow' : (2 * num : ℚ) ≤ 2 * (roundQuotient num den * den) + den := mod_cast hlow
  have hhigh' : (2 * (roundQuotient num den * den) : ℚ) ≤ 2 * num + den := mod_cast hhigh
  have hlower : (num / den : ℚ) ≤ roundQuotient num den + 1 / 2 :=
    le_of_mul_le_mul_right (by linarith) hden
  have hupper : (roundQuotient num den : ℚ) ≤ num / den + 1 / 2 :=
    le_of_mul_le_mul_right (by linarith) hden
  rw [abs_le]
  constructor <;> linarith

theorem even_roundQuotient {num den : Nat} (h : 0 < den)
    (htie : |(roundQuotient num den : ℚ) - num / den| = 1 / 2) : roundQuotient num den % 2 = 0 := by
  have hden : (den : ℚ) ≠ 0 := mod_cast h.ne'
  have hnum : (num / den * den : ℚ) = num := div_mul_cancel₀ _ hden
  refine (roundQuotient_bounds num h).2.2 ?_
  rcases (abs_eq (by norm_num)).1 htie with htie | htie
  · have hquotient : (roundQuotient num den : ℚ) = num / den + 1 / 2 := by linarith
    have hscaled : (2 * (roundQuotient num den * den) : ℚ) = 2 * num + den := by
      rw [hquotient, add_mul, hnum]
      ring
    exact .inr (mod_cast hscaled)
  · have hquotient : (roundQuotient num den : ℚ) = num / den - 1 / 2 := by linarith
    have hscaled : (2 * num : ℚ) = 2 * (roundQuotient num den * den) + den := by
      rw [hquotient, sub_mul, hnum]
      ring
    exact .inl (mod_cast hscaled)

/-! ### Steps -/

/-- A whole number that is at most half a step away from `r` is a nearest one, also among the
numbers that are smaller than a whole number in front of `r`. -/
theorem abs_sub_le_of_half {r t : ℚ} {m b : ℤ} (h : |(m : ℚ) - r| ≤ 1 / 2) (hb : (b : ℚ) ≤ r)
    (ht : (∃ k : ℤ, t = k) ∨ |t| < b) :
    |(m : ℚ) - r| ≤ |t - r| ∧ (|t - r| = |(m : ℚ) - r| → t ≠ m → |(m : ℚ) - r| = 1 / 2) := by
  -- another whole number is a step away, and so at least half a step from `r`
  have hwhole : ∀ k : ℤ, k ≠ m → 1 / 2 ≤ |(k : ℚ) - r| := by
    intro k hk
    have hstep : (1 : ℚ) ≤ |(k : ℚ) - m| := mod_cast Int.one_le_abs (sub_ne_zero.2 hk)
    have htriangle := abs_sub_le (k : ℚ) r m
    rw [abs_sub_comm r] at htriangle
    linarith
  rcases ht with ⟨k, rfl⟩ | ht
  · by_cases hk : k = m
    · subst hk
      exact ⟨le_rfl, fun _ hne => absurd rfl hne⟩
    · have hle := hwhole k hk
      exact ⟨h.trans hle, fun heq _ => le_antisymm h (heq ▸ hle)⟩
  · have hlt : |(b : ℚ) - r| < |t - r| := by
      have htb := (abs_lt.1 ht).2
      rw [abs_sub_comm, abs_of_nonneg (sub_nonneg.2 hb), abs_sub_comm,
        abs_of_pos (sub_pos.2 (htb.trans_le hb))]
      linarith
    have hlt' : |(m : ℚ) - r| < |t - r| := by
      by_cases hbm : b = m
      · rwa [hbm] at hlt
      · exact (h.trans (hwhole b hbm)).trans_lt hlt
    exact ⟨hlt'.le, fun heq => absurd heq hlt'.ne'⟩

/-- A number whose significand is half a step away from the one of `r`. -/
theorem Rounds.of_steps {x : Float} {negative : Bool} {r : ℚ} {q : ℤ} {m : ℕ}
    (hfinite : isFinite x = true)
    (hvalue : value x = sign negative * (m * 2 ^ q)) (hparity : m % 2 = 0 → significand x % 2 = 0)
    (hr : 2 ^ 52 ≤ r) (hhalf : |(m : ℚ) - r| ≤ 1 / 2) (heven : |(m : ℚ) - r| = 1 / 2 → m % 2 = 0) :
    Rounds (sign negative * (r * 2 ^ q)) x := by
  have hsign := sign_mul_self negative
  have habs := abs_sign negative
  obtain ⟨σ, hσ⟩ : ∃ σ, σ = sign negative := ⟨_, rfl⟩
  rw [← hσ] at hvalue hsign habs ⊢
  have hstep : (0 : ℚ) < 2 ^ q := zpow_pos two_pos q
  -- errors are compared in steps, and after a turn of the sign
  have herror : ∀ v : ℚ, |v - σ * (r * 2 ^ q)| = |σ * v / 2 ^ q - r| * 2 ^ q := by
    intro v
    have hturn : v - σ * (r * 2 ^ q) = σ * ((σ * v / 2 ^ q - r) * 2 ^ q) := by
      rw [sub_mul, div_mul_cancel₀ _ hstep.ne']
      linear_combination -v * hsign
    rw [hturn, abs_mul, habs, one_mul, abs_mul, abs_of_pos hstep]
  have hx : σ * value x / 2 ^ q = m := by
    rw [hvalue, ← mul_assoc, hsign, one_mul, mul_div_cancel_right₀ _ hstep.ne']
  have hsteps : ∀ y, (∃ k : ℤ, σ * value y / 2 ^ q = k) ∨
    |σ * value y / 2 ^ q| < ((2 ^ 52 : ℤ) : ℚ) := by
    intro y
    rcases value_steps y q with ⟨k, hk⟩ | hlt
    · rcases mul_self_eq_one_iff.1 hsign with hone | hone
      · exact .inl ⟨k, by rw [hk, hone, one_mul, mul_div_cancel_right₀ _ hstep.ne']⟩
      · exact .inl ⟨-k, by rw [hk, hone, neg_one_mul, neg_div, mul_div_cancel_right₀ _ hstep.ne',
          Int.cast_neg]⟩
    · refine .inr ?_
      rw [abs_div, abs_mul, habs, one_mul, abs_of_pos hstep, div_lt_iff₀ hstep]
      exact mod_cast hlt
  have hnearest := fun y => abs_sub_le_of_half (m := m) hhalf (by exact mod_cast hr) (hsteps y)
  refine ⟨hfinite, fun y _ => ?_, fun y _ heq hne => hparity (heven ?_)⟩
  · rw [herror, herror, hx]
    exact mul_le_mul_of_nonneg_right (hnearest y).1 hstep.le
  · rw [herror, herror, hx] at heq
    refine (hnearest y).2 (mul_right_cancel₀ hstep.ne' heq) fun hy => hne ?_
    have hturn : σ * value y = m * 2 ^ q := (div_eq_iff hstep.ne').1 hy
    rw [hvalue, ← hturn, ← mul_assoc, hsign, one_mul]

/-! ### Whole numbers -/

theorem exponentOfQuotient_one {n : Nat} (h : n ≠ 0) :
    exponentOfQuotient n 1 = Nat.log2 n - 52 := by
  -- the first guess is low by one, and one step up is enough
  have hguess : max ((Nat.log2 n : Int) - Nat.log2 1 - 53) (-1074) = Nat.log2 n - 53 := by
    have hone : Nat.log2 1 = 0 := by decide
    rw [hone]
    omega
  have hlog := Nat.log2_self_le h
  unfold exponentOfQuotient
  rw [hguess]
  dsimp only
  rw [if_neg]
  · omega
  -- below the guess the quotient would still have 53 bits
  · refine Nat.not_lt.2
      ((Nat.le_div_iff_mul_le (by rw [Nat.one_mul]; exact Nat.two_pow_pos _)).2 ?_)
    calc twoTo 53 * (1 * twoTo (Nat.log2 n - 53 : Int).toNat)
      _ = 2 ^ (Nat.log2 n) * twoTo (-(Nat.log2 n - 53 : Int)).toNat := by
        rw [Nat.one_mul]
        show 2 ^ 53 * 2 ^ _ = 2 ^ _ * 2 ^ _
        rw [← Nat.pow_add, ← Nat.pow_add]
        congr 1
        omega
      _ ≤ _ := Nat.mul_le_mul_right _ hlog

theorem quotient_eq_div_zpow (n : Nat) (q : Int) :
    ((n * twoTo (-q).toNat : Nat) : ℚ) / ((1 * twoTo q.toNat : Nat) : ℚ) = n / 2 ^ q := by
  rw [Nat.one_mul]
  rcases q.eq_nat_or_neg with ⟨k, rfl | rfl⟩
  · simp
  · simp

section Normal

variable (negative : Bool) {e f : Nat} (he : 0 < e) (he' : e < 2047) (hf : f < 2 ^ 52)

include he he' hf

theorem exponentField_normal : exponentField (ofMagnitude negative (e * 2 ^ 52 + f)) = e := by
  rw [exponentField_ofMagnitude negative (by omega)]
  omega

theorem significand_normal : significand (ofMagnitude negative (e * 2 ^ 52 + f)) = f + 2 ^ 52 := by
  have hfraction : fractionField (ofMagnitude negative (e * 2 ^ 52 + f)) = f := by
    rw [fractionField_ofMagnitude negative (by omega)]
    omega
  rw [significand, exponentField_normal negative he he' hf, if_neg he.ne', hfraction]
  rfl

theorem value_normal : value (ofMagnitude negative (e * 2 ^ 52 + f)) =
    sign negative * ((f + 2 ^ 52 : Nat) * 2 ^ ((e : Int) - 1075)) := by
  rw [value, isNegative_ofMagnitude negative (by omega), significand_normal negative he he' hf,
    exponent, exponentField_normal negative he he' hf, if_neg he.ne']

end Normal

/-- A significand that was rounded up to `2 ^ 53` moves on to the next exponent. -/
theorem value_ofMagnitude (negative : Bool) {e m : Nat} (he : 0 < e) (he' : e < 2046)
    (hlow : 2 ^ 52 ≤ m) (hhigh : m ≤ 2 ^ 53) :
    value (ofMagnitude negative (e * 2 ^ 52 + (m - 2 ^ 52))) =
        sign negative * (m * 2 ^ ((e : Int) - 1075)) ∧
      (m % 2 = 0 → significand (ofMagnitude negative (e * 2 ^ 52 + (m - 2 ^ 52))) % 2 = 0) := by
  -- a mantissa rounded up to the next power of two carries into the exponent
  rcases Nat.lt_or_eq_of_le hhigh with hlt | rfl
  · have hf : m - 2 ^ 52 < 2 ^ 52 := by omega
    have hm : m - 2 ^ 52 + 2 ^ 52 = m := Nat.sub_add_cancel hlow
    rw [value_normal negative he (by omega) hf, significand_normal negative he (by omega) hf, hm]
    exact ⟨rfl, id⟩
  · have hnext : e * 2 ^ 52 + (2 ^ 53 - 2 ^ 52) = (e + 1) * 2 ^ 52 + 0 := by omega
    have hpower : (2 : ℚ) ^ (((e + 1 : Nat) : Int) - 1075) = 2 * 2 ^ ((e : Int) - 1075) := by
      rw [← zpow_one_add₀ two_ne_zero]
      congr 1
      omega
    rw [hnext, value_normal negative e.succ_pos (by omega) (Nat.two_pow_pos 52),
      significand_normal negative e.succ_pos (by omega) (Nat.two_pow_pos 52), hpower]
    refine ⟨?_, fun _ => by decide⟩
    push_cast
    ring

/-- The length of a step is such that `n` has a significand of 53 bits. -/
theorem significand_bounds {n : Nat} {q : Int} (hn : n ≠ 0) (hq : q = Nat.log2 n - 52) :
    2 ^ 52 ≤ (n / 2 ^ q : ℚ) ∧ (n / 2 ^ q : ℚ) < 2 ^ 53 := by
  have hstep : (0 : ℚ) < 2 ^ q := zpow_pos two_pos q
  have hlow : ((2 ^ Nat.log2 n : Nat) : ℚ) ≤ n := mod_cast Nat.log2_self_le hn
  have hhigh : (n : ℚ) < (2 ^ (Nat.log2 n + 1) : Nat) := mod_cast Nat.lt_log2_self
  have hscale : ∀ k j : Nat, (k : Int) + q = j → (2 : ℚ) ^ k * 2 ^ q = (2 ^ j : Nat) := by
    intro k j hk
    rw [← zpow_natCast, ← zpow_add₀ two_ne_zero, hk, zpow_natCast, Nat.cast_pow, Nat.cast_ofNat]
  rw [le_div_iff₀ hstep, div_lt_iff₀ hstep, hscale 52 (Nat.log2 n) (by omega),
    hscale 53 (Nat.log2 n + 1) (by omega)]
  exact ⟨hlow, hhigh⟩

/-- The significand that is stored for a whole number, and the exponent field beside it. -/
theorem exists_significand (negative : Bool) {n : Nat} {q : Int} (hn : n ≠ 0) (hlt : n < 2 ^ 64)
    (hq : q = Nat.log2 n - 52) :
    ∃ m : Nat, 2 ^ 52 ≤ m ∧ m ≤ 2 ^ 53 ∧ |(m : ℚ) - n / 2 ^ q| ≤ 1 / 2 ∧
    (|(m : ℚ) - n / 2 ^ q| = 1 / 2 → m % 2 = 0) ∧
      nearest negative n 1 = ofMagnitude negative ((q + 1075).toNat * 2 ^ 52 + (m - 2 ^ 52)) := by
  have hlog : Nat.log2 n < 64 := (Nat.log2_lt hn).2 hlt
  obtain ⟨m, hm⟩ : ∃ m, m = roundQuotient (n * twoTo (-q).toNat) (1 * twoTo q.toNat) := ⟨_, rfl⟩
  have hden : 0 < 1 * twoTo q.toNat := by
    rw [Nat.one_mul]
    exact Nat.two_pow_pos _
  have hhalf := abs_roundQuotient_sub_le (n * twoTo (-q).toNat) hden
  have heven := @even_roundQuotient (n * twoTo (-q).toNat) _ hden
  rw [← hm, quotient_eq_div_zpow] at hhalf heven
  obtain ⟨hlow, hhigh⟩ := significand_bounds hn hq
  have hmlow : 2 ^ 52 ≤ m := by
    have hnext : (2 ^ 52 : ℚ) < m + 1 := by linarith [(abs_le.1 hhalf).1]
    exact Nat.lt_succ_iff.1 (mod_cast hnext)
  have hmhigh : m ≤ 2 ^ 53 := by
    have hnext : (m : ℚ) < 2 ^ 53 + 1 := by linarith [(abs_le.1 hhalf).2]
    exact Nat.lt_succ_iff.1 (mod_cast hnext)
  -- the exponent is far from the largest one
  have hmagnitude :
      min (if m < 2 ^ 52 then m else (q + 1075).toNat * 2 ^ 52 + (m - 2 ^ 52)) (2047 * 2 ^ 52) =
        (q + 1075).toNat * 2 ^ 52 + (m - 2 ^ 52) := by
    rw [if_neg (Nat.not_lt.2 hmlow)]
    omega
  refine ⟨m, hmlow, hmhigh, hhalf, heven, ?_⟩
  unfold nearest
  rw [if_neg hn, exponentOfQuotient_one hn, ← hq]
  dsimp only
  rw [← hm]
  exact congrArg (ofMagnitude negative) hmagnitude

theorem rounds_zero (negative : Bool) : Rounds 0 (ofMagnitude negative 0) := by
  have hsignificand : significand (ofMagnitude negative 0) = 0 := by
    rw [significand, exponentField_ofMagnitude negative (by decide),
      fractionField_ofMagnitude negative (by decide)]
    rfl
  have hvalue : value (ofMagnitude negative 0) = 0 := by
    rw [value, hsignificand, Nat.cast_zero, zero_mul, mul_zero]
  refine ⟨isFinite_ofMagnitude negative (by decide), fun y _ => ?_,
    fun _ _ _ _ => by rw [hsignificand]⟩
  rw [hvalue, sub_zero, abs_zero]
  exact abs_nonneg _

theorem rounds_nearest (negative : Bool) {n : Nat} (h : n < 2 ^ 64) :
    Rounds (sign negative * n) (nearest negative n 1) := by
  by_cases hn : n = 0
  · subst hn
    rw [Nat.cast_zero, mul_zero, nearest, if_pos rfl]
    exact rounds_zero negative
  · have hlog : Nat.log2 n < 64 := (Nat.log2_lt hn).2 h
    obtain ⟨q, hq⟩ : ∃ q : Int, q = Nat.log2 n - 52 := ⟨_, rfl⟩
    obtain ⟨m, hmlow, hmhigh, hhalf, heven, hnearest⟩ := exists_significand negative hn h hq
    obtain ⟨hvalue, hparity⟩ := value_ofMagnitude negative
      (e := (q + 1075).toNat) (by omega) (by omega) hmlow hmhigh
    have hexponent : ((q + 1075).toNat : Int) - 1075 = q := by omega
    rw [hexponent] at hvalue
    have hrounds := Rounds.of_steps (isFinite_ofMagnitude negative (by omega)) hvalue hparity
      (significand_bounds hn hq).1 hhalf heven
    rwa [div_mul_cancel₀ _ (zpow_ne_zero q two_ne_zero), ← hnearest] at hrounds

/-- An integer of at most 64 bits becomes the nearest number. -/
theorem rounds_ofInt {n : Int} (h : n.natAbs < 2 ^ 64) : Rounds n (ofInt n) := by
  have hn : (n : ℚ) = sign (n < 0) * n.natAbs := by
    rcases lt_or_ge n 0 with hneg | hnonneg
    · rw [decide_eq_true hneg, Nat.cast_natAbs, abs_of_neg hneg, sign, if_pos rfl, Int.cast_neg,
        neg_one_mul, neg_neg]
    · rw [decide_eq_false (Int.not_lt.2 hnonneg), Nat.cast_natAbs, abs_of_nonneg hnonneg, sign,
        if_neg Bool.false_ne_true, one_mul]
  rw [hn]
  exact rounds_nearest _ h
end PromptMarkup.Number
