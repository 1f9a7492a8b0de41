import LineCalculator.Text.Quoted

namespace LineCalculator

inductive Refusal where
  | unknownPolicy (name : Text)
  | sizeNotNumeral (text : Text)
  | sizeNotANumber
  | sizeInfinite
  | sizeTooSmall (size : Int)
  | unknownLevel (name : Text)
  | noLevel (written : Text)
  | unknownKind (name : Text)
  | zeroStep
  deriving DecidableEq, Repr

def Refusal.message : Refusal → Text
  | .unknownPolicy name => "Unknown error policy ".toList ++ Text.quoted name
  | .sizeNotNumeral text =>
      "Line buffer size ".toList ++ Text.quoted text ++ " is not a number".toList
  | .sizeNotANumber => "Line buffer size nan is not a number".toList
  | .sizeInfinite => "cannot convert float infinity to integer".toList
  | .sizeTooSmall size =>
      "Line buffer of ".toList ++ (toString size).toList ++ " is too small".toList
  | .unknownLevel name => "Unknown level: ".toList ++ Text.quoted name
  | .noLevel written => "Level not an integer or a valid string: ".toList ++ written
  | .unknownKind name => Text.quoted name ++ " is not a valid Kind".toList
  | .zeroStep => "range() arg 3 must not be zero".toList

end LineCalculator
