import BlockScript.Number.Decimal

/-! The text shown for a number: an integer without a point, anything else with at most six
decimals and no trailing zeros. -/

namespace BlockScript.Number

def integerText (n : Int) : List Char :=
  if n < 0 then '-' :: Nat.toDigits 10 n.natAbs else Nat.toDigits 10 n.natAbs

def dropTrailing (c : Char) (cs : List Char) : List Char :=
  (cs.reverse.dropWhile (· == c)).reverse

/-- Numbers within `1e-9` of an integer are shown as that integer, up to `1e15`. -/
def showsAsInteger (x : Float) : Bool :=
  (x - round x).abs < 1e-9 && x.abs < 1e15

def display (x : Float) : String :=
  if x.isNaN then "NaN"
  else if x.isInf then (if x > 0 then "Infinity" else "-Infinity")
  else if showsAsInteger x then .ofList (integerText (truncate (round x)))
  else .ofList (dropTrailing '.' (dropTrailing '0' (fixed 6 x)))

end BlockScript.Number
