import LineCalculator.Proofs.BitPattern

namespace LineCalculator

def Representable (n : ℕ) : Prop :=
  ∃ m e : ℕ, n = m * 2 ^ e ∧ m < 2 ^ 53 ∧ e ≤ 971

theorem Representable.of_le {n : ℕ} (h : n ≤ 2 ^ 53) : Representable n := by
  rcases h.lt_or_eq with hlt | rfl
  · exact ⟨n, 0, by simp, hlt, by norm_num⟩
  · exact ⟨2 ^ 52, 1, by norm_num, by norm_num, by norm_num⟩

namespace Double

open Float.Model Float.Model.UnpackedFloat

structure FullWidth (m : ℕ) (e : ℤ) (n : ℕ) : Prop where
  low : 2 ^ 52 ≤ m
  high : m < 2 ^ 53
  exponent_low : -1074 ≤ e
  exponent_high : e ≤ 971
  value : (m : ℚ) * 2 ^ e = n

inductive Carries : UnpackedFloat → ℕ → Prop
  | zero : Carries (.zero .positive) 0
  | finite {m n : ℕ} {e : ℤ} (hm : 0 < m) : FullWidth m e n → Carries (.finite .positive m e hm) n

def Holds (x : Float) (n : ℕ) : Prop :=
  Carries x.toModel.unpack n

section Significand

variable {m m' n : ℕ} {e e' : ℤ}

theorem log2_of_full (hlow : 2 ^ 52 ≤ m) (hhigh : m < 2 ^ 53) (k : ℕ) :
    (m * 2 ^ k).log2 = 52 + k := by
  have hpos : 0 < m * 2 ^ k := by positivity
  rw [Nat.log2_eq_iff hpos.ne']
  have hlow' := Nat.mul_le_mul_right (2 ^ k) hlow
  have hhigh' := Nat.mul_lt_mul_of_pos_right hhigh (Nat.two_pow_pos k)
  rw [← pow_add] at hlow' hhigh'
  exact ⟨hlow', by rwa [show 52 + k + 1 = 53 + k by omega]⟩

theorem exponent_le (hlow : 2 ^ 52 ≤ m') (hhigh : m < 2 ^ 53)
    (h : (m' : ℚ) * 2 ^ e' = m * 2 ^ e) : e' ≤ e := by
  have hlow' : (2 : ℚ) ^ (52 + e') ≤ m' * 2 ^ e' := by
    rw [zpow_add₀ (by norm_num)]
    gcongr
    exact_mod_cast hlow
  have hhigh' : (m : ℚ) * 2 ^ e < 2 ^ (53 + e) := by
    rw [zpow_add₀ (by norm_num)]
    gcongr
    exact_mod_cast hhigh
  have := (zpow_lt_zpow_iff_right₀ (by norm_num : (1 : ℚ) < 2)).1 (hlow'.trans_lt (h ▸ hhigh'))
  omega

theorem exists_scaled (hlow : 2 ^ 52 ≤ m') (hhigh : m < 2 ^ 53)
    (h : (m' : ℚ) * 2 ^ e' = m * 2 ^ e) : ∃ k : ℕ, m' = m * 2 ^ k ∧ e' = e - k := by
  obtain ⟨k, hk⟩ := Int.eq_ofNat_of_zero_le (Int.sub_nonneg_of_le (exponent_le hlow hhigh h))
  obtain rfl : e = e' + k := by omega
  refine ⟨k, ?_, by omega⟩
  rw [zpow_add₀ (by norm_num), mul_comm ((2 : ℚ) ^ e'), ← mul_assoc] at h
  exact_mod_cast mul_right_cancel₀ (by positivity) h

theorem pos_of_value (hm : 0 < m) (h : (m : ℚ) * 2 ^ e = n) : 0 < n := by
  have hpos : (0 : ℚ) < m * 2 ^ e := by positivity
  rw [h] at hpos
  exact_mod_cast hpos

theorem exists_fullWidth (hn : 0 < n) (h : Representable n) : ∃ m e, FullWidth m e n := by
  obtain ⟨c, t, rfl, hc, ht⟩ := h
  have hpos : 0 < c := Nat.pos_of_mul_pos_right hn
  have hlog : c.log2 < 53 := (Nat.log2_lt hpos.ne').2 hc
  obtain ⟨k, hk⟩ : ∃ k, c.log2 + k = 52 := ⟨52 - c.log2, by omega⟩
  have hlow := Nat.mul_le_mul_right (2 ^ k) (Nat.log2_self_le hpos.ne')
  have hhigh := Nat.mul_lt_mul_of_pos_right (Nat.lt_log2_self (n := c)) (Nat.two_pow_pos k)
  rw [← pow_add, hk] at hlow
  rw [← pow_add, Nat.add_right_comm, hk] at hhigh
  refine ⟨c * 2 ^ k, t - k, hlow, hhigh, by omega, by omega, ?_⟩
  rw [zpow_sub₀ (by norm_num)]
  push_cast
  rw [zpow_natCast, zpow_natCast, mul_assoc, mul_div_cancel₀ _ (by positivity)]

end Significand

section Rounding

variable {m n : ℕ} {e : ℤ}

theorem shiftRight_zeros (m k : ℕ) :
    (⟨m * 2 ^ k, false, false⟩ : ExtendedMantissa) >>> k = ⟨m, false, false⟩ := by
  change Nat.repeat ExtendedMantissa.shiftRightOne k ⟨m * 2 ^ k, false, false⟩ = _
  induction k generalizing m with
  | zero => simp [Nat.repeat]
  | succ k ih =>
      rw [Nat.repeat, pow_succ', ← mul_assoc, ih]
      simp [ExtendedMantissa.shiftRightOne]

theorem targetExponent_of_full (h : FullWidth m e n) (k : ℕ) :
    Format.targetExponent .binary64 (totalExponent (m * 2 ^ k) (e - k)) = e := by
  have hexponent := h.exponent_low
  change max (((m * 2 ^ k).log2 : ℤ) + 1 + (e - k) - 53) (-1074) = e
  rw [log2_of_full h.low h.high]
  omega

theorem shiftToTargetExponent_of_full (h : FullWidth m e n) (k : ℕ) :
    shiftToTargetExponent .binary64 (m * 2 ^ k) (e - k) .exact = (⟨m, false, false⟩, e) := by
  have hshift : (e - (e - k)).toNat = k := by omega
  simp only [shiftToTargetExponent, targetExponent_of_full h, shiftToExponent, hshift,
    ExtendedMantissa.ofMantissaAndAccuracy, shiftRight_zeros, sub_add_cancel]

theorem roundWithAccuracy_of_full (h : FullWidth m e n) (hm : 0 < m) (s : Sign) (k : ℕ) :
    roundWithAccuracy .binary64 s (m * 2 ^ k) (e - k) .exact = .finite s m e hm := by
  -- The second shift meets a significand of full width, and leaves it as it is.
  have hagain := shiftToTargetExponent_of_full h 0
  rw [pow_zero, mul_one, Nat.cast_zero, sub_zero] at hagain
  have hrounded : (⟨m, false, false⟩ : ExtendedMantissa).roundedMantissa = m := rfl
  simp only [roundWithAccuracy, shiftToTargetExponent_of_full h, hrounded, hagain]
  rw [dif_neg hm.ne']

theorem carries_roundWithAccuracy (hn : Representable n) (hlow : 2 ^ 52 ≤ m)
    (h : (m : ℚ) * 2 ^ e = n) :
    Carries (roundWithAccuracy .binary64 .positive m e .exact) n := by
  have hpos : 0 < m := by omega
  obtain ⟨m', e', hfull⟩ := exists_fullWidth (pos_of_value hpos h) hn
  obtain ⟨k, rfl, rfl⟩ := exists_scaled hlow hfull.high (h.trans hfull.value.symm)
  have hm : 0 < m' := by have := hfull.low; omega
  rw [roundWithAccuracy_of_full hfull hm]
  exact .finite hm hfull

inductive Rounding : UnpackedFloat → ℕ → Prop
  | exact {x : UnpackedFloat} {n : ℕ} : Carries x n → Rounding x n
  | rounded {m n : ℕ} {e : ℤ} : 2 ^ 52 ≤ m → (m : ℚ) * 2 ^ e = n →
      Rounding (roundWithAccuracy .binary64 .positive m e .exact) n

theorem Rounding.carries {x : UnpackedFloat} (h : Rounding x n) (hn : Representable n) :
    Carries x n := by
  cases h with
  | exact h => exact h
  | rounded hlow h => exact carries_roundWithAccuracy hn hlow h

theorem log2_add_exponent_nonneg (hm : 0 < m) (h : (m : ℚ) * 2 ^ e = n) : 0 ≤ (m.log2 : ℤ) + e := by
  have hone : (2 : ℚ) ^ (0 : ℤ) ≤ n := by
    rw [zpow_zero]
    exact_mod_cast pos_of_value hm h
  have hlt : (n : ℚ) < 2 ^ ((m.log2 : ℤ) + 1 + e) := by
    rw [← h, zpow_add₀ (by norm_num)]
    gcongr
    exact_mod_cast Nat.lt_log2_self (n := m)
  have := (zpow_lt_zpow_iff_right₀ (by norm_num : (1 : ℚ) < 2)).1 (hone.trans_lt hlt)
  omega

theorem targetExponent_of_value (hm : 0 < m) (h : (m : ℚ) * 2 ^ e = n) :
    Format.targetExponent .binary64 (totalExponent m e) = m.log2 + e - 52 := by
  have hnonneg := log2_add_exponent_nonneg hm h
  change max ((m.log2 : ℤ) + 1 + e - 53) (-1074) = _
  omega

theorem rounding_round (hm : 0 < m) (h : (m : ℚ) * 2 ^ e = n) :
    Rounding (UnpackedFloat.round .binary64 .positive m e) n := by
  obtain ⟨k, hk⟩ : ∃ k, k = (e - (m.log2 + e - 52)).toNat := ⟨_, rfl⟩
  simp only [UnpackedFloat.round, targetExponent_of_value hm h, decreaseExponent, ← hk,
    Nat.shiftLeft_eq]
  refine .rounded ?_ ?_
  · calc 2 ^ 52 ≤ 2 ^ (m.log2 + k) := Nat.pow_le_pow_right (by norm_num) (by omega)
      _ = 2 ^ m.log2 * 2 ^ k := pow_add 2 m.log2 k
      _ ≤ m * 2 ^ k := Nat.mul_le_mul_right _ (Nat.log2_self_le hm.ne')
  · rw [← h, zpow_sub₀ (by norm_num)]
    push_cast
    rw [zpow_natCast, mul_assoc, mul_div_cancel₀ _ (by positivity)]

end Rounding

section Operations

variable {x y : UnpackedFloat} {a b : ℕ}

theorem ofNat_ne_all_ones {f : ℕ} (h : f < 2047) : BitVec.ofNat 11 f ≠ -1#11 := fun hall => by
  have hfield := congrArg BitVec.toNat hall
  rw [BitVec.toNat_ofNat, Nat.mod_eq_of_lt (by omega)] at hfield
  change f = 2047 at hfield
  omega

theorem unpack_pack_of_full {m n : ℕ} {e : ℤ} (h : FullWidth m e n) (hm : 0 < m) (s : Sign) :
    UnpackedFloat.unpack .binary64 (UnpackedFloat.pack .binary64 (.finite s m e hm)) =
      .finite s m e hm := by
  obtain ⟨hlow, hhigh, hexponentLow, hexponentHigh, -⟩ := h
  have hlog : m.log2 = 52 := by simpa using log2_of_full hlow hhigh 0
  have hbias : Format.exponentBias .binary64 = 1023 := rfl
  have hbits : Format.mantissaBits .binary64 = 53 := rfl
  obtain ⟨f, hf, hrange⟩ : ∃ f : ℕ, (e + (1023 : ℕ) + (52 : ℕ)).toNat = f ∧ f = e + 1075 :=
    ⟨_, rfl, by omega⟩
  have hfield : (BitVec.ofNat 11 f).toNat = f := Nat.mod_eq_of_lt (by omega)
  have hall : BitVec.ofNat 11 f ≠ -1#11 := ofNat_ne_all_ones (by omega)
  have hnone : BitVec.ofNat 11 f ≠ 0#11 := fun h => by
    have := congrArg BitVec.toNat h
    rw [hfield] at this
    change f = 0 at this
    omega
  have hmantissa : (1#1 ++ BitVec.ofNat 52 m).toNat = m := by
    rw [toNat_one_append, BitVec.toNat_ofNat]
    omega
  have hpack : UnpackedFloat.pack .binary64 (.finite s m e hm) =
      packComponents .binary64 s (BitVec.ofNat 11 f) (BitVec.ofNat 52 m) := by
    simp only [UnpackedFloat.pack, hlog, hbias, hbits, hf]
    rw [if_neg (by change ¬ 2048 ≤ f + 1; omega), if_pos trivial]
  rw [hpack]
  simp only [UnpackedFloat.unpack, unpackExponent_packComponents, unpackMantissa_packComponents,
    unpackSign_packComponents, Sign.ofBitVec_toBitVec, if_neg hall, if_neg hnone, hmantissa, hfield,
    hbias]
  congr 1
  omega

theorem Carries.unpack_pack (h : Carries x a) :
    UnpackedFloat.unpack .binary64 (UnpackedFloat.pack .binary64 x) = x := by
  cases h with
  | zero => exact unpack_packedZero
  | finite hm h => exact unpack_pack_of_full h hm _

theorem Carries.rounding_mul (hx : Carries x a) (hy : Carries y b) :
    Rounding (UnpackedFloat.mul .binary64 x y) (a * b) := by
  cases hx with
  | zero =>
      rw [Nat.zero_mul]
      cases hy with
      | zero => exact .exact .zero
      | finite hm hy => exact .exact .zero
  | @finite m a e hm hx =>
      cases hy with
      | zero => exact .exact .zero
      | @finite m' b e' hm' hy =>
          refine .rounded ?_ ?_
          · exact hx.low.trans (Nat.le_mul_of_pos_right m hm')
          · rw [zpow_add₀ (by norm_num)]
            push_cast
            rw [mul_mul_mul_comm, hx.value, hy.value]

theorem decreaseExponent_value (m : ℕ) {e e' : ℤ} (h : e' ≤ e) :
    ((decreaseExponent m e e').1 : ℚ) * 2 ^ e' = m * 2 ^ e := by
  obtain ⟨k, hk⟩ := Int.eq_ofNat_of_zero_le (Int.sub_nonneg_of_le h)
  obtain rfl : e = e' + k := by omega
  simp only [decreaseExponent, hk, Int.toNat_natCast, Nat.shiftLeft_eq]
  rw [zpow_add₀ (by norm_num)]
  push_cast
  rw [zpow_natCast]
  ring

theorem Carries.rounding_add (hx : Carries x a) (hy : Carries y b) :
    Rounding (UnpackedFloat.add .binary64 x y) (a + b) := by
  cases hx with
  | zero =>
      rw [Nat.zero_add]
      cases hy with
      | zero => exact .exact .zero
      | finite hm hy => exact .exact (.finite hm hy)
  | @finite m a e hm hx =>
      cases hy with
      | zero => exact .exact (.finite hm hx)
      | @finite m' b e' hm' hy =>
          have hvalue := decreaseExponent_value m (min_le_left e e')
          have hvalue' := decreaseExponent_value m' (min_le_right e e')
          obtain ⟨c, hc⟩ : ∃ c, c = (decreaseExponent m e (min e e')).1 := ⟨_, rfl⟩
          obtain ⟨c', hc'⟩ : ∃ c', c' = (decreaseExponent m' e' (min e e')).1 := ⟨_, rfl⟩
          rw [← hc, hx.value] at hvalue
          rw [← hc', hy.value] at hvalue'
          have hpos : 0 < c := by
            rw [hc, decreaseExponent, Nat.shiftLeft_eq]
            positivity
          have hcompare : compare ((c : ℤ) + c') 0 = .gt := Int.compare_eq_gt.2 (by omega)
          have hsum : ((c : ℤ) + c').toNat = c + c' := by omega
          change Rounding (UnpackedFloat.normalize .binary64 ((decreaseExponent m e (min e e')).1 +
            (decreaseExponent m' e' (min e e')).1) (min e e') .positive) (a + b)
          rw [← hc, ← hc']
          simp only [UnpackedFloat.normalize, hcompare, hsum]
          refine rounding_round (by omega) ?_
          push_cast
          rw [add_mul, hvalue, hvalue']

end Operations

section Held

variable {x y : Float} {a b : ℕ}

theorem Holds.mul (hx : Holds x a) (hy : Holds y b) (h : Representable (a * b)) :
    Holds (x * y) (a * b) := by
  have hproduct := (Carries.rounding_mul hx hy).carries h
  change Carries (UnpackedFloat.unpack .binary64 (UnpackedFloat.pack .binary64 _)) _
  rwa [hproduct.unpack_pack]

theorem Holds.add (hx : Holds x a) (hy : Holds y b) (h : Representable (a + b)) :
    Holds (x + y) (a + b) := by
  have hsum := (Carries.rounding_add hx hy).carries h
  change Carries (UnpackedFloat.unpack .binary64 (UnpackedFloat.pack .binary64 _)) _
  rwa [hsum.unpack_pack]

theorem holds_toFloat (n : UInt64) (h : n.toNat < 2 ^ 53) : Holds n.toFloat n.toNat := by
  have hcarries : Carries (UnpackedFloat.normalize .binary64 n.toNat 0 .positive) n.toNat := by
    rcases Nat.eq_zero_or_pos n.toNat with hzero | hpos
    · rw [hzero]
      exact .zero
    · have hcompare : compare (n.toNat : ℤ) 0 = .gt := Int.compare_eq_gt.2 (by omega)
      simp only [UnpackedFloat.normalize, hcompare, Int.toNat_natCast]
      exact (rounding_round hpos (by simp)).carries (.of_le h.le)
  change Carries (UnpackedFloat.unpack .binary64 (UnpackedFloat.pack .binary64
    (UnpackedFloat.normalize .binary64 n.toNat 0 .positive))) n.toNat
  rwa [hcarries.unpack_pack]

theorem holds_ofNat {n : ℕ} (h : n < 2 ^ 53) : Holds (Float.ofNat n) n := by
  have hone : Holds Float.exactlyRepresentablePowersOfTen[0] 1 := by
    have hfull : FullWidth (2 ^ 52) (-52) 1 := by constructor <;> norm_num
    have hunpack : Float.exactlyRepresentablePowersOfTen[0].toModel.unpack =
        .finite .positive (2 ^ 52) (-52) (by norm_num) := rfl
    rw [Holds, hunpack]
    exact .finite _ hfull
  have htoNat : n.toUInt64.toNat = n := by
    rw [Nat.toUInt64_eq, UInt64.toNat_ofNat', Nat.mod_eq_of_lt (by omega)]
  have hproduct := (holds_toFloat n.toUInt64 (by omega)).mul hone (by
    rw [mul_one, htoNat]
    exact .of_le h.le)
  rw [mul_one, htoNat] at hproduct
  have hofNat : Float.ofNat n = n.toUInt64.toFloat * Float.exactlyRepresentablePowersOfTen[0] := by
    change Float.ofScientific n false 0 = _
    rw [Float.ofScientific, dif_pos ⟨h, by norm_num⟩]
    rfl
  rwa [hofNat]

theorem Holds.value? (h : Holds x a) : (Double.ofFloat x).value? = some (a : ℚ) := by
  rw [ofFloat_eq]
  unfold Holds at h
  generalize x.toModel.unpack = u at h
  cases h with
  | zero => simp [ofUnpacked, Double.value?, signed, ofSign]
  | finite hm h => simp [ofUnpacked, Double.value?, signed, ofSign, h.value]

end Held

end Double

end LineCalculator
