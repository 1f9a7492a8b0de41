import LineCalculator.Proofs.ExactDouble
import LineCalculator.Proofs.Tenfold

namespace LineCalculator.Double

open Float.Model Float.Model.UnpackedFloat

section Shift

variable {m n k : ℕ} {e : ℤ}

theorem roundedMantissa_le (x : ExtendedMantissa) : x.roundedMantissa ≤ x.mantissa + 1 := by
  obtain ⟨m, roundBit, stickyBit⟩ := x
  cases roundBit <;> cases stickyBit <;>
    simp only [ExtendedMantissa.roundedMantissa, ExtendedMantissa.accuracy,
      Accuracy.roundToNearestEven] <;>
    omega

theorem shiftToTargetExponent_of_value (hlow : 2 ^ 52 ≤ m) (h : (m : ℚ) * 2 ^ e = n)
    (hk : m.log2 = 52 + k) :
    shiftToTargetExponent .binary64 m e .exact =
      ((⟨m, false, false⟩ : ExtendedMantissa) >>> k, e + k) := by
  have hamount : ((m.log2 : ℤ) + e - 52 - e).toNat = k := by omega
  simp only [shiftToTargetExponent, targetExponent_of_value (by omega) h, shiftToExponent, hamount,
    ExtendedMantissa.ofMantissaAndAccuracy]

theorem leading_bits (hm : 0 < m) (hk : m.log2 = 52 + k) :
    2 ^ 52 ≤ m / 2 ^ k ∧ m / 2 ^ k < 2 ^ 53 := by
  constructor
  · rw [Nat.le_div_iff_mul_le (Nat.two_pow_pos k), ← pow_add, ← hk]
    exact Nat.log2_self_le hm.ne'
  · rw [Nat.div_lt_iff_lt_mul (Nat.two_pow_pos k), ← pow_add, show 53 + k = m.log2 + 1 by omega]
    exact Nat.lt_log2_self

theorem leading_bits_scaled (m k : ℕ) (e : ℤ) :
    ((m / 2 ^ k : ℕ) : ℚ) * 2 ^ (e + k) ≤ m * 2 ^ e ∧
      (m : ℚ) * 2 ^ e < ((m / 2 ^ k : ℕ) + 1) * 2 ^ (e + k) := by
  have hpow : (2 : ℚ) ^ (e + k) = 2 ^ k * 2 ^ e := by
    rw [zpow_add₀ (by norm_num), zpow_natCast, mul_comm]
  rw [hpow, ← mul_assoc, ← mul_assoc]
  constructor
  · gcongr
    exact_mod_cast Nat.div_mul_le_self m (2 ^ k)
  · gcongr
    exact_mod_cast Nat.lt_mul_of_div_lt (Nat.lt_succ_self _) (Nat.two_pow_pos k)

theorem shifted_exponent (m : ℕ) (e : ℤ) (accuracy : Accuracy) :
    (shiftToTargetExponent .binary64 m e accuracy).2 = max e (max (m.log2 + e - 52) (-1074)) := by
  have htarget : Format.targetExponent .binary64 (totalExponent m e) =
      max ((m.log2 : ℤ) + 1 + e - 53) (-1074) := rfl
  simp only [shiftToTargetExponent, shiftToExponent, htarget]
  omega

theorem shifted_le (m : ℕ) (e : ℤ) (accuracy : Accuracy) :
    ((shiftToTargetExponent .binary64 m e accuracy).1.mantissa : ℚ) *
      2 ^ (shiftToTargetExponent .binary64 m e accuracy).2 ≤ m * 2 ^ e := by
  have hmantissa : (ExtendedMantissa.ofMantissaAndAccuracy m accuracy).mantissa = m := by
    rcases accuracy with _ | _ | _ | _ <;> rfl
  simp only [shiftToTargetExponent, shiftToExponent, mantissa_shiftRight, hmantissa]
  exact (leading_bits_scaled _ _ _).1

theorem exponent_pos {q : ℕ} (hq : q < 2 ^ 53) (h : (n : ℚ) < (q + 1) * 2 ^ e)
    (hn : 2 ^ 53 ≤ n) : 0 < e := by
  have hlt : (2 : ℚ) ^ (53 : ℤ) < 2 ^ (53 + e) := by
    calc (2 : ℚ) ^ (53 : ℤ) ≤ n := by exact_mod_cast hn
      _ < (q + 1) * 2 ^ e := h
      _ ≤ 2 ^ (53 : ℤ) * 2 ^ e := by
          gcongr
          exact_mod_cast hq
      _ = 2 ^ (53 + e) := (zpow_add₀ (by norm_num) _ _).symm
  have := (zpow_lt_zpow_iff_right₀ (by norm_num : (1 : ℚ) < 2)).1 hlt
  omega

theorem exists_shifted (hlow : 2 ^ 52 ≤ m) (h : (m : ℚ) * 2 ^ e = n) (hn : 2 ^ 53 ≤ n) :
    ∃ (x : ExtendedMantissa) (t : ℕ),
      shiftToTargetExponent .binary64 m e .exact = (x, (t : ℤ)) ∧
      2 ^ 52 ≤ x.mantissa ∧ x.mantissa < 2 ^ 53 ∧
      x.mantissa * 2 ^ t ≤ n ∧ n < (x.mantissa + 1) * 2 ^ t := by
  have hm : 0 < m := by omega
  have hlog : 52 ≤ m.log2 := (Nat.le_log2 hm.ne').2 hlow
  obtain ⟨k, hk⟩ : ∃ k, m.log2 = 52 + k := ⟨m.log2 - 52, by omega⟩
  obtain ⟨hqlow, hqhigh⟩ := leading_bits hm hk
  obtain ⟨hbelow, habove⟩ := leading_bits_scaled m k e
  rw [h] at hbelow habove
  obtain ⟨t, ht⟩ := Int.eq_ofNat_of_zero_le (exponent_pos hqhigh habove hn).le
  rw [ht, zpow_natCast] at hbelow habove
  have hmantissa : ((⟨m, false, false⟩ : ExtendedMantissa) >>> k).mantissa = m / 2 ^ k :=
    mantissa_shiftRight _ k
  refine ⟨_, t, by rw [shiftToTargetExponent_of_value hlow h hk, ht], ?_⟩
  rw [hmantissa]
  exact ⟨hqlow, hqhigh, by exact_mod_cast hbelow, by exact_mod_cast habove⟩

end Shift

section Rounding

variable {m n r t : ℕ} {e : ℤ} {x : ExtendedMantissa} {z : UnpackedFloat}

def unit : ℚ :=
  1 / 2 ^ 52

theorem unit_pos : 0 < unit := by
  norm_num [unit]

theorem one_sub_unit_pos : 0 < 1 - unit := by
  norm_num [unit]

theorem one_sub_unit_le : 1 - unit ≤ 1 :=
  sub_le_self 1 unit_pos.le

theorem one_le_one_add_unit : 1 ≤ 1 + unit :=
  le_add_of_nonneg_right unit_pos.le

theorem representable_of_lt (hlow : 2 ^ 52 ≤ r) (hhigh : r ≤ 2 ^ 53) (h : r * 2 ^ t < 2 ^ 1024) :
    Representable (r * 2 ^ t) := by
  have hexponent : 2 ^ (52 + t) < 2 ^ 1024 := by
    rw [pow_add]
    exact (Nat.mul_le_mul_right _ hlow).trans_lt h
  have ht := (Nat.pow_lt_pow_iff_right (by norm_num : 1 < 2)).1 hexponent
  rcases hhigh.lt_or_eq with hlt | rfl
  · exact ⟨r, t, rfl, hlt, by omega⟩
  · rw [← pow_add] at h
    have ht' := (Nat.pow_lt_pow_iff_right (by norm_num : 1 < 2)).1 h
    exact ⟨2 ^ 52, t + 1, by rw [← pow_add, ← pow_add, show 53 + t = 52 + (t + 1) by omega],
      by norm_num, by omega⟩

theorem carries_of_shifted (hfirst : shiftToTargetExponent .binary64 m e .exact = (x, (t : ℤ)))
    (hlow : 2 ^ 52 ≤ x.roundedMantissa) (h : Representable (x.roundedMantissa * 2 ^ t)) :
    Carries (roundWithAccuracy .binary64 .positive m e .exact) (x.roundedMantissa * 2 ^ t) := by
  have hpos : 0 < x.roundedMantissa * 2 ^ t := by positivity
  obtain ⟨m', e', hfull⟩ := exists_fullWidth hpos h
  have hvalue := hfull.value
  push_cast at hvalue
  rw [← zpow_natCast] at hvalue
  obtain ⟨k, hk, hexponent⟩ := exists_scaled hlow hfull.high hvalue.symm
  have hm : 0 < m' := by have := hfull.low; omega
  have hsecond : shiftToTargetExponent .binary64 x.roundedMantissa t .exact =
      (⟨m', false, false⟩, e') := by
    rw [hk, hexponent]
    exact shiftToTargetExponent_of_full hfull k
  simp only [roundWithAccuracy, hfirst, hsecond]
  rw [dif_neg hm.ne']
  exact .finite hm hfull

theorem unpack_pack_infinity :
    UnpackedFloat.unpack .binary64 (UnpackedFloat.pack .binary64 (.infinity .positive)) =
      .infinity .positive := rfl

theorem pack_eq_packedInfinity {s : Sign} {m : ℕ} {hm : 0 < m} (h : 972 ≤ e) :
    UnpackedFloat.pack .binary64 (.finite s m e hm) = packedInfinity .binary64 s := by
  have hbias : Format.exponentBias .binary64 = 1023 := rfl
  simp only [UnpackedFloat.pack, hbias]
  rw [if_pos]
  change 2048 ≤ (e + (1023 : ℕ) + (52 : ℕ)).toNat + 1
  omega

theorem infinity_of_shifted (hfirst : shiftToTargetExponent .binary64 m e .exact = (x, (t : ℤ)))
    (h : 2 ^ 1024 ≤ x.roundedMantissa * 2 ^ t) :
    UnpackedFloat.unpack .binary64 (UnpackedFloat.pack .binary64
      (roundWithAccuracy .binary64 .positive m e .exact)) = .infinity .positive := by
  have hpos : 0 < x.roundedMantissa := by
    rcases Nat.eq_zero_or_pos x.roundedMantissa with hzero | hpos
    · rw [hzero, Nat.zero_mul] at h
      exact absurd h (by norm_num)
    · exact hpos
  have hlog : 1024 ≤ x.roundedMantissa.log2 + t := by
    have hlt : 2 ^ 1024 < 2 ^ (x.roundedMantissa.log2 + 1 + t) := by
      rw [pow_add]
      exact h.trans_lt (Nat.mul_lt_mul_of_pos_right Nat.lt_log2_self (Nat.two_pow_pos t))
    have := (Nat.pow_lt_pow_iff_right (by norm_num : 1 < 2)).1 hlt
    omega
  obtain ⟨hmantissa, -, -⟩ := shifted_bounds (e := t) hpos (by omega)
  have hexponent := shifted_exponent x.roundedMantissa t .exact
  obtain ⟨y, e', hsecond⟩ : ∃ y e',
      shiftToTargetExponent .binary64 x.roundedMantissa t .exact = (y, e') := ⟨_, _, rfl⟩
  simp only [hsecond] at hmantissa hexponent
  simp only [roundWithAccuracy, hfirst, hsecond]
  rw [dif_neg hmantissa.ne', pack_eq_packedInfinity (by omega)]
  exact unpack_pack_infinity

theorem near_of_last_place {q : ℕ} (hlow : 2 ^ 52 ≤ q) (hbelow : q * 2 ^ t ≤ n)
    (habove : n < (q + 1) * 2 ^ t) (hqr : q ≤ r) (hrq : r ≤ q + 1) :
    n * (1 - unit) ≤ (r * 2 ^ t : ℕ) ∧ ((r * 2 ^ t : ℕ) : ℚ) ≤ n * (1 + unit) := by
  have hplace : (2 : ℚ) ^ t ≤ n * unit := by
    rw [unit, mul_one_div, le_div_iff₀ (by norm_num), mul_comm]
    exact_mod_cast (Nat.mul_le_mul_right _ hlow).trans hbelow
  have hfloor : (q : ℚ) * 2 ^ t ≤ r * 2 ^ t := by gcongr
  have hceil : (r : ℚ) * 2 ^ t ≤ (q + 1) * 2 ^ t := by
    gcongr
    exact_mod_cast hrq
  have hbelow' : (q : ℚ) * 2 ^ t ≤ n := by exact_mod_cast hbelow
  have habove' : (n : ℚ) < (q + 1) * 2 ^ t := by exact_mod_cast habove
  push_cast
  constructor <;> linarith

theorem self_le_mul_one_add_unit (n : ℕ) : (n : ℚ) ≤ n * (1 + unit) :=
  le_mul_of_one_le_right (Nat.cast_nonneg n) one_le_one_add_unit

theorem mul_one_sub_unit_le_self (n : ℕ) : (n : ℚ) * (1 - unit) ≤ n :=
  mul_le_of_le_one_right (Nat.cast_nonneg n) one_sub_unit_le

theorem two_pow_eq_four_mul : (2 : ℚ) ^ 1024 = 4 * 2 ^ 1022 := by
  rw [show (4 : ℚ) = 2 ^ 2 by norm_num, ← pow_add]

theorem le_of_le_near (h : (2 : ℚ) ^ 1024 ≤ n * (1 + unit)) : 3 * 2 ^ 1022 ≤ n := by
  have hpos : (0 : ℚ) < 2 ^ 1022 := by positivity
  have hle : 3 * (2 : ℚ) ^ 1022 ≤ n := by
    rw [two_pow_eq_four_mul, unit] at h
    generalize (2 : ℚ) ^ 1022 = g at *
    norm_num at h
    linarith
  exact_mod_cast hle

theorem Rounding.near_or_infinity (h : Rounding z n) :
    (∃ a, Carries (UnpackedFloat.unpack .binary64 (UnpackedFloat.pack .binary64 z)) a ∧
      n * (1 - unit) ≤ a ∧ a ≤ n * (1 + unit)) ∨
    UnpackedFloat.unpack .binary64 (UnpackedFloat.pack .binary64 z) = .infinity .positive ∧
      3 * 2 ^ 1022 ≤ n := by
  have hexact (h : Carries z n) :
      ∃ a, Carries (UnpackedFloat.unpack .binary64 (UnpackedFloat.pack .binary64 z)) a ∧
        n * (1 - unit) ≤ a ∧ a ≤ n * (1 + unit) :=
    ⟨n, by rwa [h.unpack_pack], mul_one_sub_unit_le_self n, self_le_mul_one_add_unit n⟩
  cases h with
  | exact h => exact Or.inl (hexact h)
  | @rounded m n e hlow h =>
      rcases le_total n (2 ^ 53) with hsmall | hgreat
      · exact Or.inl (hexact (carries_roundWithAccuracy (.of_le hsmall) hlow h))
      · obtain ⟨x, t, hfirst, hxlow, hxhigh, hbelow, habove⟩ := exists_shifted hlow h hgreat
        have hfloor := mantissa_le_roundedMantissa x
        have hceil := roundedMantissa_le x
        obtain ⟨hnear, hnear'⟩ := near_of_last_place hxlow hbelow habove hfloor hceil
        rcases lt_or_ge (x.roundedMantissa * 2 ^ t) (2 ^ 1024) with hlt | hge
        · have hcarries := carries_of_shifted hfirst (hxlow.trans hfloor)
            (representable_of_lt (hxlow.trans hfloor) (by omega) hlt)
          exact Or.inl ⟨_, by rwa [hcarries.unpack_pack], hnear, hnear'⟩
        · refine Or.inr ⟨infinity_of_shifted hfirst hge, ?_⟩
          exact le_of_le_near (le_trans (by exact_mod_cast hge) hnear')

end Rounding

section Operations

variable {y : UnpackedFloat} {b : ℕ}

theorem unpack_mul (x y : Float) : (x * y).toModel.unpack =
    UnpackedFloat.unpack .binary64 (UnpackedFloat.pack .binary64
      (UnpackedFloat.mul .binary64 x.toModel.unpack y.toModel.unpack)) := rfl

theorem unpack_add (x y : Float) : (x + y).toModel.unpack =
    UnpackedFloat.unpack .binary64 (UnpackedFloat.pack .binary64
      (UnpackedFloat.add .binary64 x.toModel.unpack y.toModel.unpack)) := rfl

theorem unpack_div (x y : Float) : (x / y).toModel.unpack =
    UnpackedFloat.unpack .binary64 (UnpackedFloat.pack .binary64
      (UnpackedFloat.div .binary64 x.toModel.unpack y.toModel.unpack)) := rfl

theorem Carries.infinity_mul (h : Carries y b) (hb : 0 < b) :
    UnpackedFloat.mul .binary64 (.infinity .positive) y = .infinity .positive := by
  cases h with
  | zero => exact absurd hb (lt_irrefl 0)
  | finite hm h => rfl

theorem Carries.infinity_add (h : Carries y b) :
    UnpackedFloat.add .binary64 (.infinity .positive) y = .infinity .positive := by
  cases h with
  | zero => rfl
  | finite hm h => rfl

theorem Carries.infinity_div (h : Carries y b) :
    UnpackedFloat.div .binary64 (.infinity .positive) y = .infinity .positive := by
  cases h with
  | zero => rfl
  | finite hm h => rfl

theorem Carries.div_infinity (h : Carries y b) :
    UnpackedFloat.div .binary64 y (.infinity .positive) = .zero .positive := by
  cases h with
  | zero => rfl
  | finite hm h => rfl

end Operations

section Growth

variable {x y : Float} {z : UnpackedFloat} {a b n k : ℕ}

/-- Some roundings after `n` the double is still close to it, or it is an infinity, and then `n` is
great. -/
inductive Within (x : Float) (n k : ℕ) : Prop
  | held {a : ℕ} : Holds x a → n * (1 - unit) ^ k ≤ a → a ≤ n * (1 + unit) ^ k → Within x n k
  | infinite : x.toModel.unpack = .infinity .positive → 3 * 2 ^ 1022 ≤ n * (1 + unit) ^ k →
      Within x n k

theorem one_sub_unit_pow_le (k : ℕ) : (1 - unit) ^ k ≤ 1 :=
  pow_le_one₀ one_sub_unit_pos.le one_sub_unit_le

theorem one_le_one_add_unit_pow (k : ℕ) : 1 ≤ (1 + unit) ^ k :=
  one_le_pow₀ one_le_one_add_unit

theorem great_mono {n' k' : ℕ} (h : 3 * 2 ^ 1022 ≤ n * (1 + unit) ^ k) (hn : n ≤ n')
    (hk : k ≤ k') : 3 * 2 ^ 1022 ≤ n' * (1 + unit) ^ k' := by
  have hunit := one_le_one_add_unit
  refine h.trans ?_
  gcongr

theorem Holds.within (h : Holds x n) (k : ℕ) : Within x n k :=
  .held h (mul_le_of_le_one_right (Nat.cast_nonneg n) (one_sub_unit_pow_le k))
    (le_mul_of_one_le_right (Nat.cast_nonneg n) (one_le_one_add_unit_pow k))

theorem within_of_rounding (h : Rounding z a)
    (hx : x.toModel.unpack = UnpackedFloat.unpack .binary64 (UnpackedFloat.pack .binary64 z))
    (hlow : n * (1 - unit) ^ k ≤ a) (hhigh : a ≤ n * (1 + unit) ^ k) : Within x n (k + 1) := by
  have hsub := one_sub_unit_pos.le
  have hadd : 0 ≤ 1 + unit := zero_le_one.trans one_le_one_add_unit
  rcases h.near_or_infinity with ⟨c, hc, hlow', hhigh'⟩ | ⟨hinfinity, hgreat⟩
  · rw [← hx] at hc
    refine .held hc ?_ ?_
    · rw [pow_succ, ← mul_assoc]
      exact (mul_le_mul_of_nonneg_right hlow hsub).trans hlow'
    · rw [pow_succ, ← mul_assoc]
      exact hhigh'.trans (mul_le_mul_of_nonneg_right hhigh hadd)
  · refine .infinite (hx.trans hinfinity) ?_
    calc (3 * 2 ^ 1022 : ℚ) ≤ a := by exact_mod_cast hgreat
      _ ≤ a * (1 + unit) := self_le_mul_one_add_unit a
      _ ≤ n * (1 + unit) ^ k * (1 + unit) := mul_le_mul_of_nonneg_right hhigh hadd
      _ = n * (1 + unit) ^ (k + 1) := by rw [mul_assoc, ← pow_succ]

theorem Within.holds_zero (h : Within x 0 k) : Holds x 0 := by
  cases h with
  | @held a hx hlow hhigh =>
      rw [Nat.cast_zero, zero_mul] at hhigh
      have hzero : a = 0 := by exact_mod_cast le_antisymm hhigh (Nat.cast_nonneg a)
      rwa [← hzero]
  | infinite hx hgreat =>
      rw [Nat.cast_zero, zero_mul] at hgreat
      exact absurd hgreat (not_le.2 (by positivity))

theorem Within.mul (h : Within x n k) (hy : Holds y b) (hb : 0 < b) :
    Within (x * y) (n * b) (k + 1) := by
  cases h with
  | held hx hlow hhigh =>
      refine within_of_rounding (Carries.rounding_mul hx hy) rfl ?_ ?_
      · push_cast
        rw [mul_right_comm]
        gcongr
      · push_cast
        rw [mul_right_comm]
        gcongr
  | infinite hx hgreat =>
      refine .infinite ?_ (great_mono hgreat (Nat.le_mul_of_pos_right n hb) (Nat.le_succ k))
      rw [unpack_mul, hx, Carries.infinity_mul hy hb, unpack_pack_infinity]

theorem Within.add (h : Within x n k) (hy : Holds y b) : Within (x + y) (n + b) (k + 1) := by
  cases h with
  | held hx hlow hhigh =>
      refine within_of_rounding (Carries.rounding_add hx hy) rfl ?_ ?_
      · push_cast
        rw [add_mul]
        exact add_le_add hlow (mul_le_of_le_one_right (Nat.cast_nonneg b) (one_sub_unit_pow_le k))
      · push_cast
        rw [add_mul]
        exact add_le_add hhigh
          (le_mul_of_one_le_right (Nat.cast_nonneg b) (one_le_one_add_unit_pow k))
  | infinite hx hgreat =>
      refine .infinite ?_ (great_mono hgreat (Nat.le_add_right n b) (Nat.le_succ k))
      rw [unpack_add, hx, Carries.infinity_add hy, unpack_pack_infinity]

theorem Carries.lt (h : Carries z a) : a < 2 ^ 1024 := by
  cases h with
  | zero => positivity
  | @finite m _ e hm h =>
      have hlt : (a : ℚ) < 2 ^ (1024 : ℤ) := by
        calc (a : ℚ) = m * 2 ^ e := h.value.symm
          _ < 2 ^ (53 : ℤ) * 2 ^ e := by
              gcongr
              exact_mod_cast h.high
          _ = 2 ^ (53 + e) := (zpow_add₀ (by norm_num) _ _).symm
          _ ≤ 2 ^ (1024 : ℤ) := by
              have hexponent := h.exponent_high
              exact zpow_le_zpow_right₀ (by norm_num) (by omega)
      exact_mod_cast hlt

theorem ten_pow_mul_lt : (10 : ℚ) ^ 308 * (1 + unit) ^ 618 < 3 * 2 ^ 1022 := by
  have hnat : 10 ^ 308 * (2 ^ 52 + 1) ^ 618 < 3 * 2 ^ 1022 * (2 ^ 52) ^ 618 := by decide +kernel
  have hunit : 1 + unit = (2 ^ 52 + 1) / 2 ^ 52 := by norm_num [unit]
  rw [hunit, div_pow, ← mul_div_assoc, div_lt_iff₀ (by positivity)]
  exact_mod_cast hnat

theorem two_pow_le_ten_pow_mul {j : ℕ} (hj : 309 ≤ j) :
    (2 : ℚ) ^ 1024 ≤ 10 ^ j * (1 - unit) ^ (2 * j + 2) := by
  have hnat : 2 ^ 1024 * (2 ^ 52) ^ 620 ≤ 10 ^ 309 * (2 ^ 52 - 1) ^ 620 := by decide +kernel
  have hunit : 1 - unit = ((2 ^ 52 - 1 : ℕ) : ℚ) / 2 ^ 52 := by norm_num [unit]
  have hfirst : (2 : ℚ) ^ 1024 ≤ 10 ^ 309 * (1 - unit) ^ 620 := by
    rw [hunit, div_pow, ← mul_div_assoc, le_div_iff₀ (by positivity)]
    exact_mod_cast hnat
  -- Every further digit makes up for its two roundings.
  have hdigit : (1 : ℚ) ≤ 10 * (1 - unit) ^ 2 := by norm_num [unit]
  have hnonneg := one_sub_unit_pos.le
  obtain ⟨i, rfl⟩ := Nat.exists_eq_add_of_le hj
  calc (2 : ℚ) ^ 1024 ≤ 10 ^ 309 * (1 - unit) ^ 620 := hfirst
    _ ≤ 10 ^ 309 * (1 - unit) ^ 620 * (10 * (1 - unit) ^ 2) ^ i :=
        le_mul_of_one_le_right (by positivity) (one_le_pow₀ hdigit)
    _ = 10 ^ (309 + i) * (1 - unit) ^ (2 * (309 + i) + 2) := by
        rw [mul_pow, ← pow_mul, mul_mul_mul_comm, ← pow_add, ← pow_add]
        congr 2
        omega

theorem pos_of_near (h : n * (1 - unit) ^ k ≤ a) (hn : 0 < n) : 0 < a := by
  have hunit := one_sub_unit_pos
  have hpos : (0 : ℚ) < n * (1 - unit) ^ k := by positivity
  exact_mod_cast hpos.trans_le h

theorem Within.holds_or_infinity (h : Within x n k) :
    (∃ a, Holds x a ∧ (0 < n → 0 < a)) ∨ x.toModel.unpack = .infinity .positive := by
  cases h with
  | held hx hlow hhigh => exact Or.inl ⟨_, hx, pos_of_near hlow⟩
  | infinite hx hgreat => exact Or.inr hx

theorem Within.exists_holds (h : Within x n k) (hn : n ≤ 10 ^ 308) (hk : k ≤ 618) :
    ∃ a, Holds x a ∧ (0 < n → 0 < a) := by
  have hone := one_le_one_add_unit
  have hsmall : (n : ℚ) * (1 + unit) ^ k < 3 * 2 ^ 1022 := by
    calc (n : ℚ) * (1 + unit) ^ k ≤ 10 ^ 308 * (1 + unit) ^ 618 := by
          gcongr
          exact_mod_cast hn
      _ < 3 * 2 ^ 1022 := ten_pow_mul_lt
  cases h with
  | held hx hlow hhigh => exact ⟨_, hx, pos_of_near hlow⟩
  | infinite hx hgreat => exact absurd hgreat (not_le.2 hsmall)

theorem Within.unpack_eq_infinity {j : ℕ} (h : Within x n k) (hj : 309 ≤ j) (hn : 10 ^ j ≤ n)
    (hk : k ≤ 2 * j + 2) : x.toModel.unpack = .infinity .positive := by
  cases h with
  | infinite hx hgreat => exact hx
  | @held a hx hlow hhigh =>
      have hunit := one_sub_unit_pos.le
      have hle : (10 : ℚ) ^ j * (1 - unit) ^ (2 * j + 2) ≤ n * (1 - unit) ^ k := by
        have := pow_le_pow_of_le_one hunit one_sub_unit_le hk
        gcongr
        exact_mod_cast hn
      have hlt : (a : ℚ) < 2 ^ 1024 := by exact_mod_cast hx.lt
      exact absurd hlt (not_lt.2 ((two_pow_le_ten_pow_mul hj).trans (hle.trans hlow)))

end Growth

section Quotient

variable {m n : ℕ} {e : ℤ} {s : Sign} {accuracy : Accuracy} {x y : UnpackedFloat} {a b : ℕ}

theorem exists_value_packComponents {f : BitVec 11} {v : BitVec 52} (hf : f ≠ -1#11) :
    ∃ q, (ofUnpacked (UnpackedFloat.unpack .binary64
      (packComponents .binary64 s f v))).value? = some q := by
  simp only [UnpackedFloat.unpack, unpackExponent_packComponents, if_neg hf]
  split_ifs
  · exact ⟨_, rfl⟩
  · exact ⟨_, rfl⟩
  · exact ⟨_, rfl⟩

theorem exists_value_pack {hm : 0 < m} (h : e ≤ 971) :
    ∃ q, (ofUnpacked (UnpackedFloat.unpack .binary64
      (UnpackedFloat.pack .binary64 (.finite s m e hm)))).value? = some q := by
  have hbias : Format.exponentBias .binary64 = 1023 := rfl
  obtain ⟨f, hf⟩ : ∃ f : ℕ, (e + (1023 : ℕ) + (52 : ℕ)).toNat = f := ⟨_, rfl⟩
  have hall : BitVec.ofNat 11 f ≠ -1#11 := ofNat_ne_all_ones (by omega)
  simp only [UnpackedFloat.pack, hbias, hf]
  rw [if_neg (by change ¬ 2048 ≤ f + 1; omega)]
  split_ifs
  · exact exists_value_packComponents hall
  · exact exists_value_packComponents (by decide)

theorem log2_add_exponent_le (h : (m : ℚ) * 2 ^ e < 2 ^ (1024 : ℤ)) (he : e ≤ 1023) :
    m.log2 + e ≤ 1023 := by
  rcases Nat.eq_zero_or_pos m with rfl | hpos
  · simpa using he
  · have hlt : (2 : ℚ) ^ (m.log2 + e) < 2 ^ (1024 : ℤ) := by
      refine lt_of_le_of_lt ?_ h
      rw [zpow_add₀ (by norm_num), zpow_natCast]
      gcongr
      exact_mod_cast Nat.log2_self_le hpos.ne'
    have := (zpow_lt_zpow_iff_right₀ (by norm_num : (1 : ℚ) < 2)).1 hlt
    omega

theorem last_place_fits : (3 : ℚ) * 2 ^ 1022 + 2 ^ (971 : ℤ) ≤ 2 ^ (1024 : ℤ) := by
  have hnat : 3 * 2 ^ 1022 + 2 ^ 971 ≤ 2 ^ 1024 := by decide +kernel
  exact_mod_cast hnat

theorem exists_value_roundWithAccuracy (h : (m : ℚ) * 2 ^ e < 3 * 2 ^ 1022) (he : e ≤ 970) :
    ∃ q, (ofUnpacked (UnpackedFloat.unpack .binary64 (UnpackedFloat.pack .binary64
      (roundWithAccuracy .binary64 s m e accuracy)))).value? = some q := by
  obtain ⟨x, e', hfirst⟩ : ∃ x e', shiftToTargetExponent .binary64 m e accuracy = (x, e') :=
    ⟨_, _, rfl⟩
  have hexponent := shifted_exponent m e accuracy
  have hvalue := shifted_le m e accuracy
  simp only [hfirst] at hexponent hvalue
  have hlog := log2_add_exponent_le
    (h.trans_le ((le_add_of_nonneg_right (by positivity)).trans last_place_fits)) (by omega)
  have he' : e' ≤ 971 := by omega
  have hrounded : (x.roundedMantissa : ℚ) * 2 ^ e' < 2 ^ (1024 : ℤ) := by
    calc (x.roundedMantissa : ℚ) * 2 ^ e' ≤ (x.mantissa + 1) * 2 ^ e' := by
          gcongr
          exact_mod_cast roundedMantissa_le x
      _ = x.mantissa * 2 ^ e' + 2 ^ e' := by ring
      _ < 3 * 2 ^ 1022 + 2 ^ (971 : ℤ) :=
          add_lt_add_of_lt_of_le (hvalue.trans_lt h) (zpow_le_zpow_right₀ (by norm_num) he')
      _ ≤ 2 ^ (1024 : ℤ) := last_place_fits
  have hlog' := log2_add_exponent_le hrounded (by omega)
  have hexponent' := shifted_exponent x.roundedMantissa e' .exact
  simp only [roundWithAccuracy, hfirst]
  split_ifs
  · rw [UnpackedFloat.pack, unpack_packedZero]
    exact ⟨_, rfl⟩
  · exact exists_value_pack (by omega)

theorem targetExponent_quotient (m m' : ℕ) (e e' : ℤ) :
    Format.targetExponent .binary64 (totalExponent m e - totalExponent m' e') =
      max ((m.log2 : ℤ) + 1 + e - (m'.log2 + 1 + e') - 53) (-1074) := rfl

theorem divCore_bounds {m' : ℕ} {e' : ℤ} (hx : FullWidth m e a) (hy : FullWidth m' e' b) :
    ((divCore .binary64 m e m' e').1 : ℚ) * 2 ^ (divCore .binary64 m e m' e').2.1 ≤ a / b ∧
      (divCore .binary64 m e m' e').2.1 ≤ 970 := by
  have hm' : 0 < m' := by have := hy.low; omega
  have hlog : m.log2 = 52 := by simpa using log2_of_full hx.low hx.high 0
  have hlog' := log2_add_exponent_nonneg hm' hy.value
  have hhigh := hx.exponent_high
  simp only [divCore, targetExponent_quotient]
  obtain ⟨t, ht⟩ : ∃ t, t = min (e - e')
      (max ((m.log2 : ℤ) + 1 + e - (m'.log2 + 1 + e') - 53) (-1074)) := ⟨_, rfl⟩
  rw [← ht]
  refine ⟨?_, by omega⟩
  obtain ⟨k, hk⟩ := Int.eq_ofNat_of_zero_le (by omega : 0 ≤ e - e' - t)
  rw [hk, Int.toNat_natCast, Nat.shiftLeft_eq]
  calc ((m * 2 ^ k / m' : ℕ) : ℚ) * 2 ^ t ≤ (m * 2 ^ k : ℕ) / m' * 2 ^ t := by
        gcongr
        exact Nat.cast_div_le
    _ = m * 2 ^ e / (m' * 2 ^ e') := by
        rw [show e = k + t + e' by omega, zpow_add₀ (by norm_num), zpow_add₀ (by norm_num),
          zpow_natCast]
        push_cast
        field_simp
    _ = a / b := by rw [hx.value, hy.value]

theorem fullWidth_one {m : ℕ} {e : ℤ} (h : FullWidth m e 1) : m = 2 ^ 52 ∧ e = -52 := by
  have hone : ((2 ^ 52 : ℕ) : ℚ) * 2 ^ (-52 : ℤ) = m * 2 ^ e := by
    rw [h.value]
    norm_num
  have hle := exponent_le le_rfl h.high hone
  have hge := exponent_le h.low (by norm_num) hone.symm
  obtain rfl : e = -52 := le_antisymm hge hle
  exact ⟨by exact_mod_cast (mul_right_cancel₀ (by positivity) hone).symm, rfl⟩

theorem divCore_one (h : FullWidth m e a) :
    divCore .binary64 m e (2 ^ 52) (-52) = (m * 2, e - 1, .exact) := by
  have hm : 0 < m := by have := h.low; omega
  have hlog : m.log2 = 52 := by simpa using log2_of_full h.low h.high 0
  have hnonneg := log2_add_exponent_nonneg hm h.value
  have htarget : Format.targetExponent .binary64
      (totalExponent m e - totalExponent (2 ^ 52) (-52)) = e - 1 := by
    rw [targetExponent_quotient, Nat.log2_two_pow]
    omega
  have hmin : min (e - -52) (e - 1) = e - 1 := by omega
  have hamount : (e - -52 - (e - 1)).toNat = 53 := by omega
  have hshift : m <<< 53 = m * 2 * 2 ^ 52 := by
    rw [Nat.shiftLeft_eq, mul_assoc]
    rfl
  simp only [divCore, htarget, hmin, hamount, hshift]
  rw [Nat.mul_div_cancel _ (Nat.two_pow_pos 52), Nat.mul_mod_left]
  rfl

theorem Carries.div_one (hx : Carries x a) (hy : Carries y 1) :
    UnpackedFloat.div .binary64 x y = x := by
  cases hy with
  | finite hm' hy =>
      obtain ⟨rfl, rfl⟩ := fullWidth_one hy
      cases hx with
      | zero => rfl
      | @finite m _ e hm hx =>
          have hround := roundWithAccuracy_of_full hx hm .positive 1
          rw [pow_one, Nat.cast_one] at hround
          simp only [UnpackedFloat.div, divCore_one hx]
          exact hround

theorem quotient_lt (hb : 2 ≤ b) (ha : a < 2 ^ 1024) : (a : ℚ) / b < 3 * 2 ^ 1022 := by
  have hb' : (2 : ℚ) ≤ b := by exact_mod_cast hb
  have hpos : (0 : ℚ) < 2 ^ 1022 := by positivity
  have ha' : (a : ℚ) < 2 ^ 1024 := by exact_mod_cast ha
  rw [two_pow_eq_four_mul] at ha'
  rw [div_lt_iff₀ (by linarith)]
  generalize (2 : ℚ) ^ 1022 = g at *
  calc (a : ℚ) < 4 * g := ha'
    _ ≤ 3 * g * 2 := by linarith
    _ ≤ 3 * g * b := by gcongr

theorem Carries.exists_value (h : Carries x a) : ∃ q, (ofUnpacked x).value? = some q := by
  cases h with
  | zero => exact ⟨_, rfl⟩
  | finite hm h => exact ⟨_, rfl⟩

theorem Carries.exists_value_div (hx : Carries x a) (hy : Carries y b) (hb : 0 < b) :
    ∃ q, (ofUnpacked (UnpackedFloat.unpack .binary64 (UnpackedFloat.pack .binary64
      (UnpackedFloat.div .binary64 x y)))).value? = some q := by
  obtain rfl | htwo : b = 1 ∨ 2 ≤ b := by omega
  · rw [hx.div_one hy, hx.unpack_pack]
    exact hx.exists_value
  · have hlt := quotient_lt htwo hx.lt
    cases hy with
    | zero => exact absurd hb (lt_irrefl 0)
    | finite hm' hy =>
        cases hx with
        | zero =>
            simp only [UnpackedFloat.div, UnpackedFloat.pack, unpack_packedZero]
            exact ⟨_, rfl⟩
        | finite hm hx =>
            obtain ⟨hle, hexponent⟩ := divCore_bounds hx hy
            exact exists_value_roundWithAccuracy (hle.trans_lt hlt) hexponent

theorem Holds.exists_value_div {x y : Float} (hx : Holds x a) (hy : Holds y b) (hb : 0 < b) :
    ∃ q, (ofFloat (x / y)).value? = some q := by
  rw [ofFloat_eq]
  exact Carries.exists_value_div hx hy hb

theorem Holds.div_infinity {x y : Float} (hx : Holds x a)
    (hy : y.toModel.unpack = .infinity .positive) : (ofFloat (x / y)).value? = some 0 := by
  rw [ofFloat_eq, unpack_div, hy, Carries.div_infinity hx, UnpackedFloat.pack, unpack_packedZero]
  simp [ofUnpacked, Double.value?, signed, ofSign]

theorem ofFloat_infinity {x : Float} (hx : x.toModel.unpack = .infinity .positive) :
    ofFloat x = .infinite false := by
  rw [ofFloat_eq, hx]
  rfl

theorem ofFloat_infinity_div {x y : Float} (hx : x.toModel.unpack = .infinity .positive)
    (hy : Holds y b) : ofFloat (x / y) = .infinite false := by
  refine ofFloat_infinity ?_
  rw [unpack_div, hx, Carries.infinity_div hy, unpack_pack_infinity]

theorem ofFloat_infinity_div_infinity {x y : Float} (hx : x.toModel.unpack = .infinity .positive)
    (hy : y.toModel.unpack = .infinity .positive) : ofFloat (x / y) = .nan := by
  rw [ofFloat_eq, unpack_div, hx, hy]
  rfl

end Quotient

end LineCalculator.Double
