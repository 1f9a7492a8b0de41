import LineCalculator.Number.General

namespace LineCalculator

inductive AddOp where
  | plus
  | minus
  deriving DecidableEq, Repr

inductive MulOp where
  | times
  | divide
  deriving DecidableEq, Repr

def AddOp.combine : AddOp → Float → Float → Float
  | .plus, x, y => x + y
  | .minus, x, y => x - y

/-- Nothing is divided by a zero of either sign. -/
def MulOp.combine? : MulOp → Float → Float → Option Float
  | .times, x, y => some (x * y)
  | .divide, x, y => if y == 0 then none else some (x / y)

theorem MulOp.combine?_eq_none_iff {op : MulOp} {x y : Float} :
    op.combine? x y = none ↔ op = .divide ∧ (y == 0) = true := by
  cases op with
  | times => simp [combine?]
  | divide => simp [combine?]

inductive Symbol where
  | number (value : Float)
  | additive (op : AddOp)
  | multiplicative (op : MulOp)
  | lparen
  | rparen
  deriving DecidableEq, Repr

inductive Ending where
  | endOfLine
  | invalid (c : Char)
  deriving DecidableEq, Repr

inductive Token where
  | symbol (s : Symbol)
  | ending (e : Ending)
  deriving DecidableEq, Repr

inductive Kind where
  | number
  | plus
  | minus
  | times
  | divide
  | lparen
  | rparen
  | endOfLine
  | invalid
  deriving DecidableEq, Repr

namespace Kind

def name : Kind → Text
  | .number => "number".toList
  | .plus => ['+']
  | .minus => ['-']
  | .times => ['*']
  | .divide => ['/']
  | .lparen => ['(']
  | .rparen => [')']
  | .endOfLine => "end".toList
  | .invalid => "invalid".toList

def all : List Kind :=
  [.number, .plus, .minus, .times, .divide, .lparen, .rparen, .endOfLine, .invalid]

def ofName? (t : Text) : Option Kind :=
  all.find? fun k => k.name = t

def textWith (k : Kind) (value : Float) : Text :=
  match k with
  | .number => generalText value
  | k => k.name

theorem ofName?_name (k : Kind) : ofName? k.name = some k := by
  cases k <;> decide

theorem name_of_ofName? {t : Text} {k : Kind} (h : ofName? t = some k) : k.name = t := by
  simpa using List.find?_some h

end Kind

namespace Token

def kind : Token → Kind
  | .symbol (.number _) => .number
  | .symbol (.additive .plus) => .plus
  | .symbol (.additive .minus) => .minus
  | .symbol (.multiplicative .times) => .times
  | .symbol (.multiplicative .divide) => .divide
  | .symbol .lparen => .lparen
  | .symbol .rparen => .rparen
  | .ending .endOfLine => .endOfLine
  | .ending (.invalid _) => .invalid

def value? : Token → Option Float
  | .symbol (.number v) => some v
  | _ => none

def text : Token → Text
  | .symbol (.number v) => generalText v
  | t => t.kind.name

end Token

def Symbol.ofChar? : Char → Option Symbol
  | '+' => some (.additive .plus)
  | '-' => some (.additive .minus)
  | '*' => some (.multiplicative .times)
  | '/' => some (.multiplicative .divide)
  | '(' => some .lparen
  | ')' => some .rparen
  | _ => none

end LineCalculator
