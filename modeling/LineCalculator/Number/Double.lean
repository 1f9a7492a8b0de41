namespace LineCalculator

inductive Double where
  | nan
  | infinite (negative : Bool)
  | finite (negative : Bool) (significand : Nat) (exponent : Int)
  deriving DecidableEq, Repr

namespace Double

def ofBits (bits : Nat) : Double :=
  let negative := decide (bits / 0x8000000000000000 % 2 = 1)
  let field : Nat := bits / 0x10000000000000 % 0x800
  let fraction := bits % 0x10000000000000
  if field = 0x7ff then
    if fraction = 0 then .infinite negative else .nan
  else if field = 0 then .finite negative fraction (-1074)
  else .finite negative (0x10000000000000 + fraction) ((field : Int) - 1075)

def ofFloat (x : Float) : Double :=
  ofBits x.toBits.toNat

def numerator (m : Nat) (q : Int) : Nat :=
  m * Nat.pow 2 q.toNat

def denominator (q : Int) : Nat :=
  Nat.pow 2 (-q).toNat

def truncate? : Double → Option Int
  | .finite negative m q =>
      let n : Int := (numerator m q / denominator q : Nat)
      some (if negative then -n else n)
  | _ => none

theorem denominator_pos (q : Int) : 0 < denominator q :=
  Nat.pow_pos (by decide)

theorem numerator_pos {m : Nat} (q : Int) (h : 0 < m) : 0 < numerator m q :=
  Nat.mul_pos h (Nat.pow_pos (by decide))

end Double

end LineCalculator
