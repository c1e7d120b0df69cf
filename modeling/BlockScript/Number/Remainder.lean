import BlockScript.Number.Rounding

/-! Remainders of binary64 numbers. Both operands are brought to a common exponent, where
the remainder is a remainder of integers. -/

namespace BlockScript.Number

open Float.Model (UnpackedFloat)

/-- The remainder of `x` by `y` that `integers` gives on a common exponent. -/
def remainderBy (integers : Int → Int → Int) (x y : Float) : Float :=
  match x.toModel.unpack, y.toModel.unpack with
  | .notANumber, _ => nan
  | .infinity _, _ => nan
  | _, .notANumber => nan
  | _, .zero _ => nan
  | _, .infinity _ => x
  | .zero _, .finite .. => x
  | .finite s m e _, .finite _ n f _ =>
    let g := min e f
    ofDyadic (integers (s.apply (m <<< (e - g).toNat : Nat)) (n <<< (f - g).toNat : Nat)) g s

/-- The remainder with the sign of `x`. -/
def remainder (x y : Float) : Float :=
  remainderBy Int.tmod x y

/-- The remainder that is not negative. -/
def wrap (x y : Float) : Float :=
  remainderBy (fun a b => a % b) x y

end BlockScript.Number
