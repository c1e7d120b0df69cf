import BlockScript.Number.Rounding

/-! Decimal text of binary64 numbers: writing with a fixed number of places and reading
decimal literals. Both work on the exact value and round once. -/

namespace BlockScript.Number

open Float.Model.UnpackedFloat (Sign)

/-- The integer nearest to `n / d`, ties to even. -/
def nearestQuotient (n d : Nat) : Nat :=
  let q := n / d
  match compare (2 * (n % d)) d with
  | .lt => q
  | .eq => q + q % 2
  | .gt => q + 1

/-- `m * 2 ^ e` counted in units of `10 ^ -places`. -/
def decimalUnits (places : Nat) (m : Nat) (e : Int) : Nat :=
  if 0 ≤ e then (m <<< e.toNat) * Nat.pow 10 places
  else nearestQuotient (m * Nat.pow 10 places) (1 <<< (-e).toNat)

def paddedDigits (width n : Nat) : List Char :=
  let digits := Nat.toDigits 10 n
  List.replicate (width - digits.length) '0' ++ digits

/-- `units` with its last `places` digits after the point. -/
def pointed (places units : Nat) : List Char :=
  Nat.toDigits 10 (units / Nat.pow 10 places) ++
    '.' :: paddedDigits places (units % Nat.pow 10 places)

def signMark : Sign → List Char
  | .negative => ['-']
  | .positive => []

/-- The text of a finite number with `places` decimals. -/
def fixed (places : Nat) (x : Float) : List Char :=
  match x.toModel.unpack with
  | .finite s m e _ => signMark s ++ pointed places (decimalUnits places m e)
  | .zero s => signMark s ++ pointed places 0
  | _ => []

/-- The number nearest to `m * 10 ^ e`. Magnitudes far outside the range of numbers are
settled by their digit count. -/
def ofDecimal (m : Nat) (e : Int) : Float :=
  let magnitude := (Nat.toDigits 10 m).length + e
  if m = 0 then 0
  else if 310 < magnitude then infinity
  else if magnitude < -330 then 0
  else Float.ofScientific m (e < 0) e.natAbs

end BlockScript.Number
