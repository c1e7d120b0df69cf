import BlockScript.Number.Rounding

/-! The length of a right triangle's longest side, rounded once. -/

namespace BlockScript.Number

open Float.Model (UnpackedFloat)

/-- The square root of `m * 2 ^ e`. -/
def rootOfDyadic (m : Nat) (e : Int) : Float :=
  if h : 0 < m then .ofModel (.pack (.sqrt .binary64 (.finite .positive m e h))) else 0

def hypot (x y : Float) : Float :=
  match x.toModel.unpack, y.toModel.unpack with
  | .infinity _, _ => infinity
  | _, .infinity _ => infinity
  | .notANumber, _ => nan
  | _, .notANumber => nan
  | .zero _, _ => y.abs
  | _, .zero _ => x.abs
  | .finite _ m e _, .finite _ n f _ =>
    let g := min e f
    let a := m <<< (e - g).toNat
    let b := n <<< (f - g).toNat
    rootOfDyadic (a * a + b * b) (2 * g)

end BlockScript.Number
