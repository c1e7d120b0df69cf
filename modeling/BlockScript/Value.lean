import BlockScript.Number.Display
import BlockScript.Number.Numeral
import BlockScript.Text.Blank
import BlockScript.Text.Lower

/-! Values of variables, parameters and expressions. Text that reads as a number counts as one. -/

namespace BlockScript

inductive Value where
  | number (x : Float)
  | text (s : String)
  deriving DecidableEq

namespace Value

def empty : Value := text ""

/-- Conditions are one or zero. -/
def ofBool (b : Bool) : Value :=
  number (if b then 1 else 0)

/-- Reads text as a number. Blank text is zero. -/
def readNumber? (s : String) : Option Float :=
  match Text.trimChars s.toList with
  | [] => some 0
  | cs => Number.readNumeral? cs

/-- The number that a value is, if it is one. -/
def number? : Value → Option Float
  | number x => if x.isNaN then none else some x
  | text s => readNumber? s

/-- The number in a number slot, where anything else counts as zero. -/
def toNumber (v : Value) : Float :=
  v.number?.getD 0

def toText : Value → String
  | number x => Number.display x
  | text s => s

def isTruthy : Value → Bool
  | number x => x != 0
  | text s => !(s == "" || s == "0")

def orderOf (x y : Float) : Ordering :=
  if x < y then .lt else if x > y then .gt else .eq

def textOrder (a b : String) : Ordering :=
  compare (Text.lower a).toList (Text.lower b).toList

/-- Two numbers compare as numbers, anything else as text without regard to case. -/
def order (a b : Value) : Ordering :=
  match a.number?, b.number? with
  | some x, some y => orderOf x y
  | _, _ => textOrder a.toText b.toText

def equals (a b : Value) : Bool :=
  a.order b == .eq

end Value

end BlockScript
