import LineCalculator.Calculator.Run

namespace LineCalculator

def environment : IO Settings := do
  let mut found : List (Variable × Text) := []
  for v in Variable.all do
    if let some value ← IO.getEnv (String.ofList v.name) then
      found := (v, value.toList) :: found
  let table := found
  return .ofEnvironment fun v => table.lookup v

def put (stream : IO.FS.Stream) (t : Text) : IO Unit := do
  stream.putStr (String.ofList t)
  stream.flush

partial def converse (c : Calculator) (logs interactive : Bool) : IO UInt32 := do
  let stdin ← IO.getStdin
  let stdout ← IO.getStdout
  let stderr ← IO.getStderr
  if interactive then
    put stdout c.prompt
  let line ← stdin.getLine
  if line.isEmpty then
    return 0
  let p := c.readLines (Text.lines (Text.unifyBreaks line.toList))
  put stdout p.stdout
  put stderr (p.stderr logs)
  if p.stopped then
    return 1
  converse c logs interactive

def start (arguments : List Text) : IO UInt32 := do
  let settings ← environment
  let stdout ← IO.getStdout
  match Calculator.create settings .empty, settings.logs? with
  | .error r, _ => put (← IO.getStderr) (r.message ++ ['\n']); return 1
  | .ok _, .error r => put (← IO.getStderr) (r.message ++ ['\n']); return 1
  | .ok c, .ok logs =>
      match Opening.ofArguments arguments with
      | .finished status t => put stdout t; return status.toUInt32
      | .reading t =>
          put stdout t
          converse c logs ((← (← IO.getStdin).isTty) && (← stdout.isTty))

end LineCalculator

def main (arguments : List String) : IO UInt32 :=
  LineCalculator.start (arguments.map String.toList)
