import LineCalculator.Number.Double
import Mathlib

namespace LineCalculator

structure BitPattern where
  negative : Bool
  field : Fin 0x7ff
  fraction : Fin 0x10000000000000

def signed (negative : Bool) (x : ℚ) : ℚ :=
  if negative then -x else x

theorem abs_signed (negative : Bool) (x : ℚ) : |signed negative x| = |x| := by
  cases negative
  · rfl
  · exact abs_neg x

namespace BitPattern

def bits (p : BitPattern) : UInt64 :=
  .ofNat (p.negative.toNat * 2 ^ 63 + p.field * 2 ^ 52 + p.fraction)

def float (p : BitPattern) : Float :=
  .ofBits p.bits

/-- A field of zero stands for the same power of two as a field of one, but without the bit in
front of the fraction. -/
def value (p : BitPattern) : ℚ :=
  signed p.negative <|
    if p.field = 0 then p.fraction * 2 ^ (-1074 : ℤ)
    else (2 ^ 52 + p.fraction) * 2 ^ ((p.field : ℤ) - 1075)

end BitPattern

namespace Double

open Float.Model Float.Model.UnpackedFloat

def value? : Double → Option ℚ
  | .finite negative m q => some (signed negative (m * 2 ^ q))
  | _ => none

def ofSign : Sign → Bool
  | .negative => true
  | .positive => false

def ofUnpacked : UnpackedFloat → Double
  | .notANumber => .nan
  | .infinity s => .infinite (ofSign s)
  | .zero s => .finite (ofSign s) 0 (-1074)
  | .finite s m e _ => .finite (ofSign s) m e

section Fields

variable (b : BitVec 64)

theorem toNat_unpackMantissa :
    (@unpackMantissa .binary64 b).toNat = b.toNat % 0x10000000000000 := by
  rw [unpackMantissa_def]
  simp [BitVec.extractLsb'_toNat]

theorem toNat_unpackExponent :
    (@unpackExponent .binary64 b).toNat = b.toNat / 0x10000000000000 % 0x800 := by
  rw [unpackExponent_def]
  simp [BitVec.extractLsb'_toNat, Nat.shiftRight_eq_div_pow]

theorem ofSign_unpackSign :
    ofSign (Sign.ofBitVec (@unpackSign .binary64 b)) =
      decide (b.toNat / 0x8000000000000000 % 2 = 1) := by
  have htoNat : (@unpackSign .binary64 b).toNat = b.toNat / 0x8000000000000000 % 2 := by
    rw [unpackSign_def]
    simp [BitVec.extractLsb'_toNat, Nat.shiftRight_eq_div_pow]
  rw [← htoNat]
  generalize @unpackSign .binary64 b = s
  revert s
  decide

theorem toNat_one_append (m : BitVec 52) : (1#1 ++ m).toNat = 0x10000000000000 + m.toNat := by
  rw [BitVec.toNat_append, ← Nat.shiftLeft_add_eq_or_of_lt m.isLt]
  rfl

theorem ofBits_toNat : ofBits b.toNat = ofUnpacked (UnpackedFloat.unpack .binary64 b) := by
  have hbias : (Format.exponentBias .binary64 : Int) = 1023 := rfl
  have hall : @unpackExponent .binary64 b = -1#_ ↔
      b.toNat / 0x10000000000000 % 0x800 = 0x7ff := by
    rw [← toNat_unpackExponent, ← BitVec.toNat_inj]
    rfl
  have hnone : @unpackExponent .binary64 b = 0#_ ↔
      b.toNat / 0x10000000000000 % 0x800 = 0 := by
    rw [← toNat_unpackExponent, ← BitVec.toNat_inj]
    rfl
  have hfraction : @unpackMantissa .binary64 b = 0#_ ↔
      b.toNat % 0x10000000000000 = 0 := by
    rw [← toNat_unpackMantissa, ← BitVec.toNat_inj]
    rfl
  simp only [ofBits, UnpackedFloat.unpack, hall, hnone, hfraction]
  split_ifs with hfield hzero hfield hzero
  · rw [ofUnpacked, ofSign_unpackSign]
  · rfl
  · rw [ofUnpacked, ofSign_unpackSign, hzero]
  · rw [ofUnpacked, ofSign_unpackSign, toNat_unpackMantissa, toNat_unpackExponent, hfield, hbias]
    rfl
  · rw [ofUnpacked, ofSign_unpackSign, toNat_one_append, toNat_unpackMantissa,
      toNat_unpackExponent, hbias]
    rfl

end Fields

theorem ofFloat_eq (x : Float) : ofFloat x = ofUnpacked x.toModel.unpack :=
  ofBits_toNat x.toBits.toBitVec

end Double

namespace BitPattern

variable (p : BitPattern)

theorem toNat_bits :
    p.bits.toNat = p.negative.toNat * 2 ^ 63 + p.field * 2 ^ 52 + p.fraction := by
  have hsign := p.negative.toNat_le
  have hfield := p.field.isLt
  have hfraction := p.fraction.isLt
  rw [bits, UInt64.toNat_ofNat']
  apply Nat.mod_eq_of_lt
  omega

theorem field_bits : p.bits.toNat / 0x10000000000000 % 0x800 = p.field := by
  have hfield := p.field.isLt
  have hfraction := p.fraction.isLt
  rw [toNat_bits]
  cases p.negative <;> simp only [Bool.toNat_true, Bool.toNat_false] <;> omega

theorem toBits_float : p.float.toBits = p.bits := by
  have hvalid : Float.Model.Format.binary64.Valid p.bits.toBitVec := by
    refine ⟨fun hall => absurd (congrArg BitVec.toNat hall) ?_⟩
    rw [Double.toNat_unpackExponent]
    change ¬ p.bits.toNat / 0x10000000000000 % 0x800 = 0x7ff
    rw [field_bits]
    exact Nat.ne_of_lt p.field.isLt
  exact UInt64.toBitVec_inj.1 (Float.Model.UnpackedFloat.pack_unpack_of_valid hvalid)

theorem ofFloat_float : Double.ofFloat p.float =
    if p.field = 0 then .finite p.negative p.fraction (-1074)
    else .finite p.negative (0x10000000000000 + p.fraction) ((p.field : ℤ) - 1075) := by
  have hfield := p.field.isLt
  have hfraction := p.fraction.isLt
  have hsign : p.bits.toNat / 0x8000000000000000 % 2 = p.negative.toNat := by
    rw [toNat_bits]
    cases p.negative <;> simp only [Bool.toNat_true, Bool.toNat_false] <;> omega
  have hfractionBits : p.bits.toNat % 0x10000000000000 = p.fraction := by
    rw [toNat_bits]
    cases p.negative <;> simp only [Bool.toNat_true, Bool.toNat_false] <;> omega
  have hnegative : decide (p.negative.toNat = 1) = p.negative := by
    cases p.negative <;> rfl
  rw [Double.ofFloat, toBits_float]
  simp only [Double.ofBits, hsign, field_bits, hfractionBits, hnegative]
  rw [if_neg (Nat.ne_of_lt hfield)]
  simp only [Fin.ext_iff]
  rfl

theorem value?_float : (Double.ofFloat p.float).value? = some p.value := by
  rw [ofFloat_float, value]
  split_ifs
  · rfl
  · norm_num [Double.value?]

theorem exists_finite : ∃ m q, Double.ofFloat p.float = .finite p.negative m q ∧
    p.value = signed p.negative (m * 2 ^ q) := by
  obtain ⟨m, q, hfloat⟩ : ∃ m q, Double.ofFloat p.float = .finite p.negative m q := by
    rw [ofFloat_float]
    split_ifs <;> exact ⟨_, _, rfl⟩
  have hvalue := p.value?_float
  rw [hfloat] at hvalue
  exact ⟨m, q, hfloat, (Option.some.inj hvalue).symm⟩

end BitPattern

end LineCalculator
