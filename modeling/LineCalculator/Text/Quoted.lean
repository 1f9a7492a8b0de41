import LineCalculator.Text.Digits
import LineCalculator.Text.Printable

namespace LineCalculator.Text

def quoteMark (t : Text) : Char :=
  if '\'' ∈ t ∧ '"' ∉ t then '"' else '\''

def escape (mark c : Char) : Text :=
  if c = mark ∨ c = '\\' then ['\\', c]
  else if c = '\n' then ['\\', 'n']
  else if c = '\r' then ['\\', 'r']
  else if c = '\t' then ['\\', 't']
  else if isPrintable c then [c]
  else if c.toNat < 0x100 then '\\' :: 'x' :: digits 16 2 c.toNat
  else if c.toNat < 0x10000 then '\\' :: 'u' :: digits 16 4 c.toNat
  else '\\' :: 'U' :: digits 16 8 c.toNat

def quoted (t : Text) : Text :=
  quoteMark t :: t.flatMap (escape (quoteMark t)) ++ [quoteMark t]

end LineCalculator.Text
