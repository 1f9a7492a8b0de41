import LineCalculator.Text.Quoted
import LineCalculator.Token.Basic

namespace LineCalculator

inductive Category where
  | failure
  | unexpectedToken
  | missingClosingParen
  | divisionByZero
  | nestingTooDeep
  | invalidCharacter
  deriving DecidableEq, Repr

namespace Category

def name : Category → Text
  | .failure => "BCalcError".toList
  | .unexpectedToken => "UnexpectedToken".toList
  | .missingClosingParen => "MissingClosingParen".toList
  | .divisionByZero => "DivisionByZero".toList
  | .nestingTooDeep => "NestingTooDeep".toList
  | .invalidCharacter => "InvalidCharacter".toList

def all : List Category :=
  [.failure, .unexpectedToken, .missingClosingParen, .divisionByZero, .nestingTooDeep,
    .invalidCharacter]

def ofName? (t : Text) : Option Category :=
  all.find? fun k => k.name = t

def lineage : Category → List Category
  | .failure => [.failure]
  | .invalidCharacter => [.failure, .unexpectedToken, .invalidCharacter]
  | k => [.failure, k]

theorem ofName?_name (k : Category) : ofName? k.name = some k := by
  cases k <;> decide

end Category

inductive Cause where
  | unexpectedToken (complaint : Text)
  | invalidCharacter (complaint : Text) (c : Char)
  | missingClosingParen
  | divisionByZero
  | nestingTooDeep
  deriving DecidableEq, Repr

namespace Cause

def category : Cause → Category
  | .unexpectedToken _ => .unexpectedToken
  | .invalidCharacter _ _ => .invalidCharacter
  | .missingClosingParen => .missingClosingParen
  | .divisionByZero => .divisionByZero
  | .nestingTooDeep => .nestingTooDeep

def message : Cause → Text
  | .unexpectedToken complaint => complaint
  | .invalidCharacter complaint c => complaint ++ ": ".toList ++ Text.quoted [c]
  | .missingClosingParen => "Expected closing parenthesis".toList
  | .divisionByZero => "Division by zero".toList
  | .nestingTooDeep => "Expression nested too deeply".toList

def ofToken (complaint : Text) : Token → Cause
  | .ending (.invalid c) => .invalidCharacter complaint c
  | _ => .unexpectedToken complaint

end Cause

structure Failure where
  cause : Cause
  position : Nat
  deriving DecidableEq, Repr

def Failure.message (f : Failure) : Text :=
  f.cause.message

end LineCalculator
