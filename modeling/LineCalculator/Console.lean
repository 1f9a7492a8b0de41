import LineCalculator.Text.Lines

namespace LineCalculator

inductive Closing where
  | endOfInput
  | interrupt
  deriving DecidableEq, Repr

structure Console where
  stdin : Text
  inputIsTerminal : Bool
  outputIsTerminal : Bool
  typed : List Text
  closing : Closing
  deriving DecidableEq, Repr

namespace Console

def isInteractive (c : Console) : Bool :=
  c.inputIsTerminal && c.outputIsTerminal

def lines (c : Console) : List Text :=
  if c.isInteractive then c.typed.map (· ++ ['\n']) else Text.lines (Text.unifyBreaks c.stdin)

def interrupts (c : Console) : Bool :=
  c.isInteractive && c.closing = .interrupt

end Console

structure Session where
  message : Text
  viMode : Bool
  enableSuspend : Bool
  eraseWhenDone : Bool
  history : Option Text
  prompts : Nat
  deriving DecidableEq, Repr

end LineCalculator
