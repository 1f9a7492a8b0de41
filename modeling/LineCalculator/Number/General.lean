import LineCalculator.Number.Double
import LineCalculator.Number.Significant
import LineCalculator.Text.Digits

namespace LineCalculator

namespace Text

def trimZeros (t : Text) : Text :=
  (t.reverse.dropWhile (· = '0')).reverse

def withFraction (whole fraction : Text) : Text :=
  if fraction = [] then whole else whole ++ '.' :: fraction

end Text

structure Layout where
  places : Nat
  lowest : Int
  exponentDigits : Nat
  deriving DecidableEq, Repr

namespace Layout

open Text

def general : Layout :=
  ⟨6, -4, 2⟩

def isPositional (l : Layout) (e : Int) : Bool :=
  l.lowest ≤ e && e < l.places

def positional (l : Layout) (s : Significant) : Text :=
  let ds := digits 10 l.places s.coefficient
  if s.exponent < 0 then
    withFraction ['0'] (List.replicate (-s.exponent - 1).toNat '0' ++ trimZeros ds)
  else
    withFraction (ds.take (s.exponent.toNat + 1)) (trimZeros (ds.drop (s.exponent.toNat + 1)))

def exponent (l : Layout) (e : Int) : Text :=
  'e' :: (if e < 0 then '-' else '+')
    :: digits 10 (max l.exponentDigits (log10 e.natAbs + 1)) e.natAbs

def scientific (l : Layout) (s : Significant) : Text :=
  let ds := digits 10 l.places s.coefficient
  withFraction (ds.take 1) (trimZeros (ds.drop 1)) ++ l.exponent s.exponent

def significant (l : Layout) (s : Significant) : Text :=
  if l.isPositional s.exponent then l.positional s else l.scientific s

def magnitude (l : Layout) (m : Nat) (q : Int) : Text :=
  if m = 0 then ['0']
  else l.significant (.ofRatio l.places (Double.numerator m q) (Double.denominator q))

def sign (negative : Bool) : Text :=
  if negative then ['-'] else []

def text (l : Layout) : Double → Text
  | .nan => "nan".toList
  | .infinite negative => sign negative ++ "inf".toList
  | .finite negative m q => sign negative ++ l.magnitude m q

end Layout

def generalText (x : Float) : Text :=
  Layout.general.text (.ofFloat x)

end LineCalculator
