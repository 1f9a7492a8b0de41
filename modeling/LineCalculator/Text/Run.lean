import LineCalculator.Text.Basic

namespace LineCalculator.Text

structure Run where
  first : Nat
  last : Nat
  deriving DecidableEq, Repr

namespace Run

def has (r : Run) (c : Char) : Bool :=
  r.first ≤ c.toNat && c.toNat ≤ r.last

def cover (runs : List Run) (c : Char) : Bool :=
  runs.any (·.has c)

theorem cover_iff {runs : List Run} {c : Char} :
    cover runs c = true ↔ ∃ r ∈ runs, r.first ≤ c.toNat ∧ c.toNat ≤ r.last := by
  simp [cover, has]

end Run

end LineCalculator.Text
