import LineCalculator.Evaluation.State
import LineCalculator.Failure

namespace LineCalculator

inductive Goal where
  | expression
  | term
  | factor
  deriving DecidableEq, Repr

structure Task where
  goal : Goal
  limit : Int
  outer : Nat
  deriving DecidableEq, Repr

inductive Verdict where
  | next (s : State)
  | done (value : Float)
  | fail (f : Failure)
  /-- The symbol is taken, and completes something that has no value. -/
  | failPast (f : Failure) (s : State)
  deriving DecidableEq, Repr

def unexpectedOperand : Text :=
  "Unexpected token".toList

namespace State

def complete (s : State) (factor : Float) (start : Nat) : Verdict :=
  match s.level.multiply? factor with
  | none => .failPast ⟨.divisionByZero, start⟩ s
  | some product => .next { s with level := s.level.settled, mode := .operator product }

def stepInside (s : State) (product : Float) (g : Group) (gs : List Group) (x : Lexeme) : Verdict :=
  match x.symbol with
  | .additive op => .next (s.awaitTerm product op)
  | .multiplicative op => .next (s.awaitFactor product op)
  | .rparen => complete ⟨g.outside, gs, .operand⟩ (s.level.total product) g.opened
  | _ => .fail ⟨.missingClosingParen, x.start⟩

def finish (s : State) (ending : Ending) (offset : Nat) : Except Failure Float :=
  match s.mode, s.groups with
  | .operand, _ => .error ⟨.ofToken unexpectedOperand (.ending ending), offset⟩
  | .operator product, [] => .ok (s.level.total product)
  | .operator _, _ :: _ => .error ⟨.missingClosingParen, offset⟩

end State

namespace Task

def depth (task : Task) (s : State) : Nat :=
  task.outer + s.groups.length

def stepOperand (task : Task) (s : State) (x : Lexeme) : Verdict :=
  match x.symbol with
  | .number v => s.complete v x.start
  | .lparen =>
      if task.limit ≤ task.depth s then .fail ⟨.nestingTooDeep, x.start⟩
      else .next (s.openGroup x.start)
  | _ => .fail ⟨.unexpectedToken unexpectedOperand, x.start⟩

def stepOutside (task : Task) (s : State) (product : Float) (x : Lexeme) : Verdict :=
  match x.symbol with
  | .additive op =>
      if task.goal = .expression then .next (s.awaitTerm product op)
      else .done (s.level.total product)
  | .multiplicative op =>
      if task.goal = .factor then .done (s.level.total product)
      else .next (s.awaitFactor product op)
  | _ => .done (s.level.total product)

def step (task : Task) (s : State) (x : Lexeme) : Verdict :=
  match s.mode, s.groups with
  | .operand, _ => task.stepOperand s x
  | .operator product, [] => task.stepOutside s product x
  | .operator product, g :: gs => s.stepInside product g gs x

end Task

end LineCalculator
