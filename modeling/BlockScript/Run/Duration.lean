import BlockScript.Number.Decimal

/-! Durations given in seconds. -/

namespace BlockScript

open Float.Model.UnpackedFloat (Sign)

def nanosPerSecond : Nat := 1000000000
def nanosPerMilli : Nat := 1000000

/-- A duration in milliseconds: nearest nanosecond first, then up. Nothing that is not positive
takes any time, and a duration of `2 ^ 64` seconds or more never ends. -/
def milliseconds (seconds : Float) : Option Nat :=
  match seconds.toModel.unpack with
  | .infinity .positive => none
  | .finite .positive m e _ =>
    let nanos := Number.decimalUnits 9 m e
    if (1 <<< 64) * nanosPerSecond ≤ nanos then none
    else some ((nanos + nanosPerMilli - 1) / nanosPerMilli)
  | _ => some 0

end BlockScript
