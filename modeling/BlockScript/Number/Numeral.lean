import BlockScript.Number.Decimal

/-! Reading a numeral: `Infinity` or a decimal literal with an optional sign, or an unsigned
hexadecimal literal below `2 ^ 64`. -/

namespace BlockScript.Number

def digitValue (c : Char) : Nat :=
  c.toNat - '0'.toNat

def readDigits (cs : List Char) : Nat :=
  cs.foldl (fun n c => 10 * n + digitValue c) 0

def hexValue? (c : Char) : Option Nat :=
  if c.isDigit then some (digitValue c)
  else if 'a' ≤ c ∧ c ≤ 'f' then some (c.toNat - 'a'.toNat + 10)
  else if 'A' ≤ c ∧ c ≤ 'F' then some (c.toNat - 'A'.toNat + 10)
  else none

/-- The value of hexadecimal digits, of which there is at least one. -/
def readHex? (cs : List Char) : Option Nat :=
  if cs.isEmpty then none
  else cs.foldlM (fun n c => (hexValue? c).map (16 * n + ·)) 0

/-- A hexadecimal word after its mark. One plus sign may stand before the digits. -/
def readHexWord? (cs : List Char) : Option Float :=
  let digits := match cs with
    | '+' :: rest => rest
    | _ => cs
  match readHex? digits with
  | some n => if n < 1 <<< 64 then some n.toUInt64.toFloat else none
  | none => none

/-- An exponent after its mark: an optional sign and at least one digit. -/
def readExponent? (cs : List Char) : Option Int :=
  let (negative, digits) := match cs with
    | '-' :: rest => (true, rest)
    | '+' :: rest => (false, rest)
    | _ => (false, cs)
  if digits.isEmpty || !digits.all Char.isDigit then none
  else if negative then some (-(readDigits digits : Int)) else some (readDigits digits)

/-- The part of a decimal literal after its digits: nothing, or an exponent. -/
def readScale? : List Char → Option Int
  | [] => some 0
  | c :: rest => if c = 'e' ∨ c = 'E' then readExponent? rest else none

def readDecimal? (cs : List Char) : Option Float :=
  let whole := cs.takeWhile Char.isDigit
  let (fraction, rest) := match cs.dropWhile Char.isDigit with
    | '.' :: rest => (rest.takeWhile Char.isDigit, rest.dropWhile Char.isDigit)
    | rest => ([], rest)
  if whole.isEmpty && fraction.isEmpty then none
  else (readScale? rest).map fun scale =>
    ofDecimal (readDigits (whole ++ fraction)) (scale - fraction.length)

def readUnsigned? (cs : List Char) : Option Float :=
  if cs = "Infinity".toList then some infinity else readDecimal? cs

/-- Reads a numeral without surrounding blanks. -/
def readNumeral? : List Char → Option Float
  | '-' :: rest => (readUnsigned? rest).map (- ·)
  | '+' :: rest => readUnsigned? rest
  | '0' :: 'x' :: rest => readHexWord? rest
  | '0' :: 'X' :: rest => readHexWord? rest
  | cs => readUnsigned? cs

end BlockScript.Number
