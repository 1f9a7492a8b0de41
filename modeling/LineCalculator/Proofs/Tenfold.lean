import Mathlib

namespace LineCalculator.Double

open Float.Model Float.Model.UnpackedFloat

def Packable : UnpackedFloat → Prop
  | .zero _ => False
  | .finite _ m e _ => m < Nat.pow 2 53 ∧ -1074 ≤ e
  | _ => True

section Rounding

variable {m : Nat} {e : Int}

theorem mantissa_shiftRight (x : ExtendedMantissa) (k : Nat) :
    (x >>> k).mantissa = x.mantissa / Nat.pow 2 k := by
  change (Nat.repeat ExtendedMantissa.shiftRightOne k x).mantissa = _
  induction k with
  | zero => exact (Nat.div_one _).symm
  | succ k ih =>
      rw [Nat.repeat, ExtendedMantissa.shiftRightOne, ih, Nat.div_div_eq_div_mul]
      rfl

theorem mantissa_le_roundedMantissa (x : ExtendedMantissa) : x.mantissa ≤ x.roundedMantissa := by
  obtain ⟨m, roundBit, stickyBit⟩ := x
  cases roundBit <;> cases stickyBit <;>
    simp [ExtendedMantissa.roundedMantissa, ExtendedMantissa.accuracy, Accuracy.roundToNearestEven]

theorem shifted_bounds (hm : 0 < m) (he : -1074 - e ≤ m.log2) :
    0 < (shiftToTargetExponent .binary64 m e .exact).1.mantissa ∧
      (shiftToTargetExponent .binary64 m e .exact).1.mantissa < Nat.pow 2 53 ∧
      -1074 ≤ (shiftToTargetExponent .binary64 m e .exact).2 := by
  have htarget : Format.targetExponent .binary64 (totalExponent m e) =
      max (m.log2 + 1 + e - 53) (-1074) := rfl
  obtain ⟨k, hk⟩ : ∃ k, k = (Format.targetExponent .binary64 (totalExponent m e) - e).toNat :=
    ⟨_, rfl⟩
  have hmantissa : (shiftToTargetExponent .binary64 m e .exact).1.mantissa = m / Nat.pow 2 k := by
    rw [hk, ← mantissa_shiftRight ⟨m, false, false⟩]
    rfl
  have hexponent : (shiftToTargetExponent .binary64 m e .exact).2 = e + k := by
    rw [hk]
    rfl
  rw [htarget] at hk
  have hlow : Nat.pow 2 k ≤ m := (Nat.le_log2 (by omega)).1 (by omega)
  have hhigh : m < Nat.pow 2 (k + 53) := (Nat.log2_lt (by omega)).1 (by omega)
  have hsplit : Nat.pow 2 (k + 53) = Nat.pow 2 k * Nat.pow 2 53 := Nat.pow_add 2 k 53
  rw [hmantissa, hexponent]
  refine ⟨Nat.div_pos hlow (Nat.pow_pos (by decide)), Nat.div_lt_of_lt_mul ?_, by omega⟩
  rwa [← hsplit]

theorem packable_round (sign : Sign) (hm : 0 < m) (he : -1074 - e ≤ m.log2) :
    Packable (roundWithAccuracy .binary64 sign m e .exact) := by
  obtain ⟨hpos, -, hexponent⟩ := shifted_bounds hm he
  obtain ⟨x, e', hfirst⟩ : ∃ x e', shiftToTargetExponent .binary64 m e .exact = (x, e') :=
    ⟨_, _, rfl⟩
  simp only [hfirst] at hpos hexponent
  have hrounded := mantissa_le_roundedMantissa x
  -- Rounding up may carry into one more bit, so the significand is shifted a second time.
  have hcarried : -1074 - e' ≤ x.roundedMantissa.log2 := by omega
  obtain ⟨hpos', hlt, hexponent'⟩ := shifted_bounds (Nat.lt_of_lt_of_le hpos hrounded) hcarried
  simp only [roundWithAccuracy, hfirst]
  rw [dif_neg (Nat.ne_of_gt hpos')]
  exact ⟨hlt, hexponent'⟩

end Rounding

section Packing

variable {x : UnpackedFloat}

theorem components_of_eq_packedZero {s s' : Sign} {e : BitVec 11} {m : BitVec 52}
    (h : packComponents .binary64 s e m = packedZero .binary64 s') : e = 0#11 ∧ m = 0#52 := by
  have hexponent := congrArg unpackExponent h
  have hmantissa := congrArg unpackMantissa h
  rw [packedZero, unpackExponent_packComponents, unpackExponent_packComponents] at hexponent
  rw [packedZero, unpackMantissa_packComponents, unpackMantissa_packComponents] at hmantissa
  exact ⟨hexponent, hmantissa⟩

theorem unpack_pack_ne_zero (h : Packable x) (s : Sign) :
    UnpackedFloat.unpack .binary64 (UnpackedFloat.pack .binary64 x) ≠ .zero s := by
  rw [Ne, unpack_eq_zero_iff_of_valid valid_pack]
  intro hzero
  cases x with
  | zero s => exact h
  | notANumber => exact absurd (components_of_eq_packedZero hzero).1 (by decide)
  | infinity s => exact absurd (components_of_eq_packedZero hzero).1 (by decide)
  | finite s m e hm =>
      obtain ⟨hlt, hexponent⟩ := h
      have hbias : Format.exponentBias .binary64 = 1023 := rfl
      simp only [UnpackedFloat.pack, hbias] at hzero
      split at hzero
      · exact absurd (components_of_eq_packedZero hzero).1 (by decide)
      · rename_i hsmall
        split at hzero
        · -- A significand of full width has an exponent field of its own.
          have hfield := congrArg BitVec.toNat (components_of_eq_packedZero hzero).1
          rw [BitVec.toNat_ofNat, Nat.mod_eq_of_lt (by omega)] at hfield
          change (e + (1023 : Nat) + (52 : Nat)).toNat = 0 at hfield
          omega
        · rename_i hwidth
          have hne : m ≠ 0 := Nat.ne_of_gt hm
          have hlog : m.log2 < 53 := (Nat.log2_lt hne).2 hlt
          have hbits : Format.mantissaBits .binary64 = 53 := rfl
          have hshort : m < Nat.pow 2 52 := (Nat.log2_lt hne).1 (by omega)
          have hfraction := congrArg BitVec.toNat (components_of_eq_packedZero hzero).2
          rw [BitVec.toNat_ofNat, Nat.mod_eq_of_lt hshort] at hfraction
          exact hne hfraction

theorem exponent_of_unpack {b : BitVec (Format.numBits .binary64)} {s : Sign} {m : Nat} {e : Int}
    {hm : 0 < m} (h : UnpackedFloat.unpack .binary64 b = .finite s m e hm) : -1074 ≤ e := by
  have hbias : Format.exponentBias .binary64 = 1023 := rfl
  simp only [UnpackedFloat.unpack, hbias] at h
  split at h
  · split at h <;> cases h
  · split at h
    · split at h
      · cases h
      · cases h
        omega
    · rename_i hfield
      have hpos : (unpackExponent b).toNat ≠ 0 := fun hzero => hfield (BitVec.eq_of_toNat_eq hzero)
      cases h
      omega

theorem beq_zero_eq_false_iff {d : Float} :
    (d == 0) = false ↔ ∀ s, d.toModel.unpack ≠ .zero s := by
  have hbeq : (d == 0) = d.toModel.unpack.beq (.zero .positive) := rfl
  rw [hbeq, ← Bool.not_eq_true, beq_iff_ne_notANumber_and_eq, Sign.forall_iff]
  grind

theorem mul_ten_ne_zero {d : Float} (h : (d == 0) = false) : (d * Float.ofNat 10 == 0) = false := by
  rw [beq_zero_eq_false_iff] at h ⊢
  have hproduct : (d * Float.ofNat 10).toModel.unpack = UnpackedFloat.unpack .binary64
      (UnpackedFloat.pack .binary64 (UnpackedFloat.mul .binary64 d.toModel.unpack
        (.finite .positive 0x14000000000000 (-49) (by decide)))) := rfl
  rw [hproduct]
  refine unpack_pack_ne_zero ?_
  cases hd : d.toModel.unpack with
  | zero s => exact absurd hd (h s)
  | notANumber => trivial
  | infinity s => trivial
  | finite s m e hm =>
      have he := exponent_of_unpack hd
      have hle : 0x14000000000000 ≤ m * 0x14000000000000 := Nat.le_mul_of_pos_left _ hm
      have hlog : 49 ≤ (m * 0x14000000000000).log2 :=
        (Nat.le_log2 (by omega)).2 (Nat.le_trans (by decide) hle)
      exact packable_round _ (by omega) (by omega)

end Packing

end LineCalculator.Double
