import BlockScript.Run.Dice
import BlockScript.Texture

/-! Timing and limits of a run, and the services that it uses. Times are in milliseconds. -/

namespace BlockScript

structure Options where
  stepDelay : Nat := 50
  startDelay : Nat := 50
  failureDelay : Nat := 2000
  maxDepth : Nat := 64

/-- `generator` says who serves which texture request. `tracksSounds` and `tracksTextures` say which
calls of the services are recorded. -/
structure Services where
  generator : ObjectRequest → Generator := Generator.none
  dice : Dice := .initial
  tracksSounds : Bool := true
  tracksTextures : Bool := true

/-- The filter of log records, which `verbose` widens to every executed block. -/
def logFilter (verbose : Bool) : String :=
  "warn,warpblocks_core=" ++ if verbose then "DEBUG" else "INFO"

end BlockScript
