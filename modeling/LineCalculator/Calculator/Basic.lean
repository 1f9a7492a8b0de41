import LineCalculator.Number.Double
import LineCalculator.Number.Integer
import LineCalculator.Settings

namespace LineCalculator

inductive Policy where
  | exit
  | proceed
  deriving DecidableEq, Repr

namespace Policy

def name : Policy → Text
  | .exit => "exit".toList
  | .proceed => "continue".toList

def ofName? (t : Text) : Option Policy :=
  [exit, proceed].find? fun p => p.name = t

theorem ofName?_name (p : Policy) : ofName? p.name = some p := by
  cases p <;> decide

theorem name_of_ofName? {t : Text} {p : Policy} (h : ofName? t = some p) : p.name = t := by
  simpa using List.find?_some h

end Policy

inductive SizeArgument where
  | flag (b : Bool)
  | integer (n : Int)
  | double (x : Float)
  | text (t : Text)
  deriving DecidableEq, Repr

namespace SizeArgument

def isVoid : SizeArgument → Bool
  | .flag b => !b
  | .integer n => n = 0
  | .double x => x == 0
  | .text t => t = []

def size? : SizeArgument → Except Refusal Int
  | .flag b => .ok (if b then 1 else 0)
  | .integer n => .ok n
  | .double x =>
      match (Double.ofFloat x).truncate? with
      | some n => .ok n
      | none => .error (if Double.ofFloat x = .nan then .sizeNotANumber else .sizeInfinite)
  | .text t =>
      match Integer.ofText? t with
      | some n => .ok n
      | none => .error (.sizeNotNumeral t)

end SizeArgument

structure Overrides where
  onError : Option Text
  maxLine : Option SizeArgument
  prompt : Option Text
  deriving DecidableEq, Repr

namespace Overrides

def empty : Overrides :=
  ⟨none, none, none⟩

def textOr (given : Option Text) (setting : Text) : Text :=
  match given with
  | some t => if t = [] then setting else t
  | none => setting

def sizeOr (given : Option SizeArgument) (setting : Text) : SizeArgument :=
  match given with
  | some a => if a.isVoid then .text setting else a
  | none => .text setting

end Overrides

structure Calculator where
  policy : Policy
  /-- Size of the line buffer. One of its characters is kept free. -/
  size : Nat
  prompt : Text
  two_le_size : 2 ≤ size

namespace Calculator

def create (settings : Settings) (overrides : Overrides) : Except Refusal Calculator :=
  let policy := Overrides.textOr overrides.onError settings.onError
  match Policy.ofName? policy with
  | none => .error (.unknownPolicy policy)
  | some policy =>
      match (Overrides.sizeOr overrides.maxLine settings.maxLine).size? with
      | .error r => .error r
      | .ok n =>
          if h : 2 ≤ n then
            .ok ⟨policy, n.toNat, Overrides.textOr overrides.prompt settings.prompt, by omega⟩
          else .error (.sizeTooSmall n)

end Calculator

end LineCalculator
