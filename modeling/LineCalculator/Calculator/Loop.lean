import LineCalculator.Buffer
import LineCalculator.Calculator.Basic
import LineCalculator.Evaluation.Run

namespace LineCalculator

structure Entry where
  fragment : Text
  outcome : Except Failure Float

namespace Entry

def ofFragment (t : Text) : Entry :=
  ⟨t, evaluate t⟩

def fails (e : Entry) : Bool :=
  match e.outcome with
  | .ok _ => false
  | .error _ => true

def answer (e : Entry) : Text :=
  match e.outcome with
  | .ok v => generalText v ++ ['\n']
  | .error _ => []

def complaint (e : Entry) : Text :=
  match e.outcome with
  | .ok _ => []
  | .error f => "Error: ".toList ++ f.message ++ ['\n']

def record (e : Entry) : Text :=
  match e.outcome with
  | .ok v =>
      "bcalc.parser: DEBUG: ".toList ++ Text.quoted e.fragment ++ " = ".toList ++ generalText v
        ++ ['\n']
  | .error f =>
      "bcalc.cli: DEBUG: ".toList ++ f.cause.category.name ++ " at offset ".toList
        ++ (toString f.position).toList ++ " of ".toList ++ Text.quoted e.fragment ++ ['\n']

def diagnostics (logs : Bool) (e : Entry) : Text :=
  (if logs then e.record else []) ++ e.complaint

def throughFailure : List Entry → List Entry
  | [] => []
  | e :: es => if e.fails then [e] else e :: throughFailure es

end Entry

structure Progress where
  entries : List Entry
  requested : Nat
  stopped : Bool

namespace Progress

def stdout (p : Progress) : Text :=
  p.entries.flatMap Entry.answer

def stderr (logs : Bool) (p : Progress) : Text :=
  p.entries.flatMap (Entry.diagnostics logs)

end Progress

namespace Calculator

def cut (c : Calculator) (line : Text) : List Text :=
  pieces (c.size - 1) line

def readLine (c : Calculator) (line : Text) : List Entry × Bool :=
  let es := (c.cut line).map Entry.ofFragment
  if c.policy = .exit ∧ es.any Entry.fails then (Entry.throughFailure es, true) else (es, false)

def readLines (c : Calculator) : List Text → Progress
  | [] => ⟨[], 0, false⟩
  | line :: lines =>
      match c.readLine line with
      | (es, true) => ⟨es, 1, true⟩
      | (es, false) =>
          let p := readLines c lines
          ⟨es ++ p.entries, p.requested + 1, p.stopped⟩

theorem readLine_proceed {c : Calculator} (h : c.policy = .proceed) (line : Text) :
    c.readLine line = ((c.cut line).map Entry.ofFragment, false) := by
  simp [readLine, h]

theorem entries_readLines_proceed {c : Calculator} (h : c.policy = .proceed) (lines : List Text) :
    (c.readLines lines).entries = (lines.flatMap c.cut).map Entry.ofFragment := by
  induction lines with
  | nil => rfl
  | cons line lines ih => simp [readLines, readLine_proceed h, ih]

end Calculator

end LineCalculator
