import LineCalculator.Calculator.Loop
import LineCalculator.Console
import LineCalculator.Flag

namespace LineCalculator

structure Report where
  status : Nat
  stdout : Text
  stderr : Text
  session : Option Session
  deriving DecidableEq, Repr

structure Invocation where
  settings : Settings
  overrides : Overrides
  arguments : List Text
  console : Console
  deriving DecidableEq, Repr

namespace Calculator

def execute (c : Calculator) (lines : List Text) : Report :=
  let p := c.readLines lines
  ⟨if p.stopped then 1 else 0, p.stdout, p.stderr false, none⟩

/-- The request that meets the end of the input counts too. -/
def session (c : Calculator) (history : Option Text) (p : Progress) : Session where
  message := c.prompt
  viMode := true
  enableSuspend := true
  eraseWhenDone := false
  history := history
  prompts := if p.stopped then p.requested else p.requested + 1

def converse (c : Calculator) (logs : Bool) (history : Option Text) (console : Console) : Report :=
  let p := c.readLines console.lines
  { status := if p.stopped || console.interrupts then 1 else 0
    stdout := p.stdout
    stderr := p.stderr logs
    session := if console.isInteractive then some (c.session history p) else none }

end Calculator

/-- A run is refused for what it is set up with before its arguments are looked at. -/
def Invocation.run (i : Invocation) : Except Refusal Report :=
  match Calculator.create i.settings i.overrides, i.settings.logs? with
  | .error r, _ => .error r
  | .ok _, .error r => .error r
  | .ok c, .ok logs =>
      match Opening.ofArguments i.arguments with
      | .finished status stdout => .ok ⟨status, stdout, [], none⟩
      | .reading stdout =>
          let report := c.converse logs i.settings.history? i.console
          .ok { report with stdout := stdout ++ report.stdout }

end LineCalculator
