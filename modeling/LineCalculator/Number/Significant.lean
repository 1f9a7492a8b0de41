namespace LineCalculator

/-- The integer nearest to a quotient; of two at the same distance, the even one. -/
def roundDiv (num den : Nat) : Nat :=
  let q := num / den
  let r := num % den
  if 2 * r < den then q
  else if den < 2 * r then q + 1
  else if q % 2 = 0 then q
  else q + 1

def log10 (n : Nat) : Nat :=
  if n < 10 then 0 else log10 (n / 10) + 1

def decade (num den : Nat) : Int :=
  let a := log10 num
  let b := log10 den
  if den * Nat.pow 10 a ≤ num * Nat.pow 10 b then (a : Int) - b else (a : Int) - b - 1

structure Significant where
  coefficient : Nat
  exponent : Int
  deriving DecidableEq, Repr

namespace Significant

/-- Rounds `num / den` to `places` digits. A carry past the first digit moves the exponent. -/
def ofRatio (places num den : Nat) : Significant :=
  let e := decade num den
  let shift : Int := places - 1 - e
  let d := roundDiv (num * Nat.pow 10 shift.toNat) (den * Nat.pow 10 (-shift).toNat)
  if d < Nat.pow 10 places then ⟨d, e⟩ else ⟨Nat.pow 10 (places - 1), e + 1⟩

end Significant

theorem pow_log10_le {n : Nat} (h : 0 < n) : Nat.pow 10 (log10 n) ≤ n := by
  induction n using Nat.strongRecOn with
  | _ n ih =>
      rw [log10]
      split
      · exact h
      · have hd := ih (n / 10) (by omega) (by omega)
        change Nat.pow 10 (log10 (n / 10)) * 10 ≤ n
        omega

theorem lt_pow_log10 (n : Nat) : n < Nat.pow 10 (log10 n + 1) := by
  induction n using Nat.strongRecOn with
  | _ n ih =>
      rw [log10]
      split
      · change n < Nat.pow 10 0 * 10
        simpa using ‹n < 10›
      · have hd := ih (n / 10) (by omega)
        change n < Nat.pow 10 (log10 (n / 10) + 1) * 10
        omega

end LineCalculator
