import LineCalculator.Proofs.Denotation
import LineCalculator.Proofs.ZeroDivisor

namespace LineCalculator

def MulOp.combine : MulOp → Float → Float → Float
  | .times, x, y => x * y
  | .divide, x, y => x / y

structure Divisor where
  index : Nat
  value : Float
  deriving DecidableEq, Repr

namespace Divisor

def later (n : Nat) (d : Divisor) : Divisor :=
  ⟨d.index + n, d.value⟩

theorem later_later (m n : Nat) (d : Divisor) : (d.later m).later n = d.later (m + n) := by
  simp only [later, Nat.add_assoc]

end Divisor

def MulOp.divisor : MulOp → Nat → Float → List Divisor
  | .times, _, _ => []
  | .divide, index, value => [⟨index, value⟩]

namespace Phrase

def value : {g : Goal} → Phrase g → Float
  | _, .number v => v
  | _, .group e => e.value
  | _, .single f => f.value
  | _, .multiplied t op f => op.combine t.value f.value
  | _, .lone t => t.value
  | _, .added e op t => op.combine e.value t.value

def divisors : {g : Goal} → Phrase g → List Divisor
  | _, .number _ => []
  | _, .group e => e.divisors.map (Divisor.later 1)
  | _, .single f => f.divisors
  | _, .multiplied t op f =>
      t.divisors ++ (f.divisors.map (Divisor.later (t.symbols.length + 1)) ++
        op.divisor (t.symbols.length + 1) f.value)
  | _, .lone t => t.divisors
  | _, .added e _ t => e.divisors ++ t.divisors.map (Divisor.later (e.symbols.length + 1))

section Find

variable {t : Phrase .term} {f : Phrase .factor} {e : Phrase .expression} {d : Divisor}

end Find

end Phrase

namespace Task

/-- Read from here, a divisor turns out to be zero, and it starts with the lexeme of this index. -/
def DividesAt (task : Task) (level : Level) (groups : List Group) (xs : List Lexeme)
    (n : Nat) : Prop :=
  ∃ front x back s s' first, xs = front ++ x :: back ∧
    task.Passes ⟨level, groups, .operand⟩ front s ∧ DividesByZero s x first.start s' ∧
    xs[n]? = some first

variable {task : Task} {level level' : Level} {groups groups' : List Group}
  {xs ys zs : List Lexeme} {x z : Lexeme} {n : Nat} {a b : Float}

namespace DividesAt

theorem append (h : task.DividesAt level groups xs n) (zs : List Lexeme) :
    task.DividesAt level groups (xs ++ zs) n := by
  obtain ⟨front, x, back, s, s', first, rfl, hfront, hx, hfirst⟩ := h
  refine ⟨front, x, back ++ zs, s, s', first, by simp, hfront, hx, ?_⟩
  have hn := (List.getElem?_eq_some_iff.1 hfirst).1
  rw [List.getElem?_append_left hn, hfirst]

theorem behind (h : task.DividesAt level' groups' xs n)
    (hys : task.Passes ⟨level, groups, .operand⟩ ys ⟨level', groups', .operand⟩) :
    task.DividesAt level groups (ys ++ xs) (n + ys.length) := by
  obtain ⟨front, x, back, s, s', first, rfl, hfront, hx, hfirst⟩ := h
  refine ⟨ys ++ front, x, back, s, s', first, by simp, hys.append hfront, hx, ?_⟩
  rw [List.getElem?_append_right (Nat.le_add_left ..), Nat.add_sub_cancel, hfirst]

end DividesAt

end Task

namespace Lexed

variable {l : Lexed} {limit : Int}

end Lexed

end LineCalculator
