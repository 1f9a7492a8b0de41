import LineCalculator.Text.Basic

namespace LineCalculator.Numeral

def begins (c : Char) : Bool :=
  c.isDigit || c = '.'

def front (pointed : Bool) : Text → Text
  | [] => []
  | c :: t =>
      if c.isDigit then c :: front pointed t
      else if c = '.' ∧ pointed = false then c :: front true t
      else []

structure Partial (α : Type) where
  value : α
  divisor : Option α
  deriving DecidableEq, Repr

section Fold

variable {α : Type} [Add α] [Mul α] (ofNat : Nat → α)

def digit (c : Char) : Nat :=
  c.toNat - '0'.toNat

def Partial.push (p : Partial α) (c : Char) : Partial α :=
  if c = '.' then ⟨p.value, some (ofNat 1)⟩
  else ⟨p.value * ofNat 10 + ofNat (digit c), p.divisor.map (· * ofNat 10)⟩

/-- The fold of a lexeme, in any arithmetic with a copy of the natural numbers. -/
def fold (lexeme : Text) : Partial α :=
  lexeme.foldl (Partial.push ofNat) ⟨ofNat 0, none⟩

end Fold

def value (lexeme : Text) : Float :=
  match fold Float.ofNat lexeme with
  | ⟨v, none⟩ => v
  | ⟨v, some d⟩ => v / d

theorem front_append_drop (pointed : Bool) (t : Text) :
    front pointed t ++ t.drop (front pointed t).length = t := by
  induction t generalizing pointed with
  | nil => rfl
  | cons c t ih =>
      simp only [front]
      split
      · simp [ih]
      · split
        · simp [ih]
        · simp

theorem length_front_le (pointed : Bool) (t : Text) : (front pointed t).length ≤ t.length := by
  have h := congrArg List.length (front_append_drop pointed t)
  rw [List.length_append] at h
  omega

theorem front_ne_nil {c : Char} (h : begins c = true) (t : Text) : front false (c :: t) ≠ [] := by
  simp only [begins, Bool.or_eq_true, decide_eq_true_eq] at h
  simp only [front]
  split
  · simp
  · simp_all

end LineCalculator.Numeral
