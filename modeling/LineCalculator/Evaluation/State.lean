import LineCalculator.Token.Lexed

namespace LineCalculator

structure Level where
  sum : Option (Float × AddOp)
  product : Option (Float × MulOp)
  deriving DecidableEq, Repr

namespace Level

def empty : Level :=
  ⟨none, none⟩

def multiply? (l : Level) (factor : Float) : Option Float :=
  match l.product with
  | none => some factor
  | some (x, op) => op.combine? x factor

def total (l : Level) (term : Float) : Float :=
  match l.sum with
  | none => term
  | some (x, op) => op.combine x term

def settled (l : Level) : Level :=
  { l with product := none }

theorem total_empty (x : Float) : empty.total x = x := rfl

end Level

structure Group where
  opened : Nat
  outside : Level
  deriving DecidableEq, Repr

inductive Mode where
  | operand
  | operator (product : Float)
  deriving DecidableEq, Repr

structure State where
  level : Level
  groups : List Group
  mode : Mode
  deriving DecidableEq, Repr

namespace State

def initial : State :=
  ⟨.empty, [], .operand⟩

def openGroup (s : State) (offset : Nat) : State :=
  ⟨.empty, ⟨offset, s.level⟩ :: s.groups, .operand⟩

def awaitTerm (s : State) (product : Float) (op : AddOp) : State :=
  { s with level := ⟨some (s.level.total product, op), none⟩, mode := .operand }

def awaitFactor (s : State) (product : Float) (op : MulOp) : State :=
  { s with level := ⟨s.level.sum, some (product, op)⟩, mode := .operand }

end State

end LineCalculator
