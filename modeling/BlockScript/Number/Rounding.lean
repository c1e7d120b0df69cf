/-! Rounding of binary64 numbers. A finite number is `m * 2 ^ e` for integers `m` and `e`,
so rounding to an integer is a division of `m` and every result is rounded at most once. -/

namespace BlockScript.Number

open Float.Model (UnpackedFloat)
open Float.Model.UnpackedFloat (Sign)

def nan : Float := .ofModel (.pack .notANumber)

def infinity : Float := .ofModel (.pack (.infinity .positive))

/-- The number nearest to `m * 2 ^ e`, ties to even. A zero takes the sign `zero`. -/
def ofDyadic (m e : Int) (zero : Sign) : Float :=
  .ofModel (.pack (.normalize .binary64 m e zero))

/-- Rounds to an integer with `quotient`, a division of an integer by a positive one.
The sign of a zero is the sign of `x`. -/
def roundBy (quotient : Int → Int → Int) (x : Float) : Float :=
  match x.toModel.unpack with
  | .finite s m e _ =>
    if 0 ≤ e then x else ofDyadic (quotient (s.apply m) (1 <<< (-e).toNat : Nat)) 0 s
  | _ => x

def floor (x : Float) : Float :=
  roundBy (fun n d => n / d) x

def ceiling (x : Float) : Float :=
  roundBy (fun n d => -(-n / d)) x

/-- To the nearest integer, a half away from zero. -/
def round (x : Float) : Float :=
  roundBy (fun n d => n.sign * ((2 * n.natAbs + d) / (2 * d))) x

/-- To the nearest integer, a half towards positive infinity. -/
def roundHalfUp (x : Float) : Float :=
  floor (x + 0.5)

/-- The integer part. Infinities and NaN count as zero. -/
def truncate (x : Float) : Int :=
  x.toModel.unpack.toInt 0 0

/-- The integer part, held within 64 bits. -/
def toWord (x : Float) : Int :=
  x.toModel.toInt64.toInt

def isIntegral (x : Float) : Bool :=
  match x.toModel.unpack with
  | .zero _ => true
  | .finite _ m e _ => 0 ≤ e || m % (1 <<< (-e).toNat) == 0
  | _ => false

/-- The larger number, where NaN and a negative zero give way to `bound`. -/
def atLeast (x bound : Float) : Float :=
  if x > bound then x else bound

/-- Keeps `x` within `low` and `high`. NaN is left alone. -/
def clamp (x low high : Float) : Float :=
  if x < low then low else if x > high then high else x

/-- Rounded to ten decimals. -/
def toTenPlaces (x : Float) : Float :=
  round (x * 1e10) / 1e10

end BlockScript.Number
