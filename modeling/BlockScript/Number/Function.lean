import BlockScript.Number.Rounding

/-! The functions that a block may apply to a number. Angles are in degrees. -/

namespace BlockScript.Number

def pi : Float := 3.14159265358979323846

def toRadians (degrees : Float) : Float :=
  degrees * (pi / 180)

def toDegrees (radians : Float) : Float :=
  radians * (180 / pi)

inductive Function where
  | abs | floor | ceiling | sqrt | sin | cos | tan | asin | acos | atan | ln | log | exp | powerOfTen
  deriving DecidableEq

namespace Function

def all : List Function :=
  [abs, floor, ceiling, sqrt, sin, cos, tan, asin, acos, atan, ln, log, exp, powerOfTen]

def name : Function → String
  | abs => "abs"
  | floor => "floor"
  | ceiling => "ceiling"
  | sqrt => "sqrt"
  | sin => "sin"
  | cos => "cos"
  | tan => "tan"
  | asin => "asin"
  | acos => "acos"
  | atan => "atan"
  | ln => "ln"
  | log => "log"
  | exp => "e ^"
  | powerOfTen => "10 ^"

def ofName? (s : String) : Option Function :=
  all.find? (·.name == s)

/-- Sine and cosine are rounded to ten decimals, so that the sine of 180 is zero. -/
def apply (f : Function) (x : Float) : Float :=
  match f with
  | abs => x.abs
  | floor => Number.floor x
  | ceiling => Number.ceiling x
  | sqrt => x.sqrt
  | sin => toTenPlaces (toRadians x).sin
  | cos => toTenPlaces (toRadians x).cos
  | tan => (toRadians x).tan
  | asin => toDegrees x.asin
  | acos => toDegrees x.acos
  | atan => toDegrees x.atan
  | ln => x.log
  | log => x.log10
  | exp => x.exp
  | powerOfTen => (10 : Float).pow x

end Function

end BlockScript.Number
