import LineCalculator.Text.Basic

namespace LineCalculator.Text

def digitChar (n : Nat) : Char :=
  if n < 10 then Char.ofNat (0x30 + n) else Char.ofNat (0x57 + n)

def digits (base : Nat) : (width : Nat) → Nat → Text
  | 0, _ => []
  | width + 1, n => digits base width (n / base) ++ [digitChar (n % base)]

theorem length_digits (base width n : Nat) : (digits base width n).length = width := by
  induction width generalizing n with
  | zero => rfl
  | succ width ih => simp [digits, ih]

end LineCalculator.Text
