import LineCalculator.Text.Blank
import LineCalculator.Text.DecimalDigit

namespace LineCalculator.Integer

def digitLimit : Nat := 4300

def digits? : Text → Option (List Nat)
  | [] => none
  | c :: t =>
      match Text.digitValue? c, t with
      | none, _ => none
      | some d, [] => some [d]
      | some d, '_' :: t => (digits? t).map (d :: ·)
      | some d, c :: t => (digits? (c :: t)).map (d :: ·)

def ofDigits (ds : List Nat) : Nat :=
  ds.foldl (fun n d => n * 10 + d) 0

def magnitude? (t : Text) : Option Nat :=
  (digits? t).bind fun ds => if ds.length ≤ digitLimit then some (ofDigits ds) else none

def signed? : Text → Option Int
  | '-' :: t => (magnitude? t).map fun n => -n
  | '+' :: t => (magnitude? t).map fun n => n
  | t => (magnitude? t).map fun n => n

def ofText? (t : Text) : Option Int :=
  signed? (Text.trim t)

end LineCalculator.Integer
