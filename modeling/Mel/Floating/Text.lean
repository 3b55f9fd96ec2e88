import Mel.Floating.Shortest

/-!
# The text of reals

A real is written with the fewest digits that read back, and always with a point
or an exponent, so that it cannot be taken for an integer. Magnitudes from
`10 ^ -4` up to `10 ^ 16` are written positionally, all others with an exponent
behind `e`. Zero keeps its sign.

Reading accepts a sign, digits with at most one point among them and an exponent,
and the names of the values that are no numbers.
-/

namespace Mel.Floating

namespace Decimal

def zeros (count : Nat) : String :=
  String.ofList (List.replicate count '0')

/-- Writes a decimal positionally when its leading digit is worth from `10 ^ -4` to `10 ^ 15`. -/
def text (decimal : Decimal) : String :=
  let digits := toString decimal.digits
  -- How many digits stand before the point; not positive if zeros lead.
  let point := (digits.length : Int) + decimal.exponent
  if point < -3 ∨ 16 < point then
    let fraction := digits.toList.drop 1
    String.ofList (digits.toList.take 1)
      ++ (if fraction.isEmpty then "" else "." ++ String.ofList fraction)
      ++ "e" ++ toString (point - 1)
  else if point ≤ 0 then
    "0." ++ zeros (-point).toNat ++ digits
  else if point < digits.length then
    String.ofList (digits.toList.take point.toNat) ++ "."
      ++ String.ofList (digits.toList.drop point.toNat)
  else
    digits ++ zeros (point - digits.length).toNat ++ ".0"

end Decimal

/-- The text of a real. -/
def text (real : Float) : String :=
  if real.isNaN then "NaN"
  else
    let sign := if isNegative real then "-" else ""
    if isInfinite real then sign ++ "inf"
    else
      match magnitude real with
      | 0 => sign ++ "0.0"
      | units => sign ++ (Decimal.shortest units).text

/-- The real nearest to `digits * 10 ^ -places`. -/
def ofPlaces (digits places : Nat) : Float :=
  Float.ofScientific digits true places

/-- The real nearest to `digits * 10 ^ exponent`. -/
def ofDecimal (decimal : Decimal) : Float :=
  Float.ofScientific decimal.digits (decimal.exponent < 0) decimal.exponent.natAbs

def digits? (text : List Char) : Option Nat :=
  if text.all Char.isDigit then
    some (text.foldl (fun number digit => 10 * number + (digit.toNat - '0'.toNat)) 0)
  else none

/-- Reads an exponent with its sign. -/
def exponent? : List Char → Option Int
  | [] => none
  | '-' :: text => if text.isEmpty then none else (digits? text).map fun digits => -digits
  | '+' :: text => if text.isEmpty then none else (digits? text).map fun digits => digits
  | text => (digits? text).map fun digits => digits

/-- Reads a decimal without a sign. -/
def decimal? (text : List Char) : Option Decimal := do
  let isExponentMark (character : Char) : Bool := character == 'e' || character == 'E'
  let mantissa := text.takeWhile (!isExponentMark ·)
  let exponent ← match text.dropWhile (!isExponentMark ·) with
    | [] => some 0
    | _ :: exponent => exponent? exponent
  let whole := mantissa.takeWhile (· ≠ '.')
  let fraction := (mantissa.dropWhile (· ≠ '.')).drop 1
  if whole.isEmpty && fraction.isEmpty then none
  let digits ← digits? (whole ++ fraction)
  return ⟨digits, exponent - fraction.length⟩

/-- Reads a real without a sign. -/
def unsigned? (text : List Char) : Option Float :=
  match String.ofList (text.map Char.toLower) with
  | "nan" => some (Float.ofBits 0x7ff8000000000000)
  | "inf" | "infinity" => some (Float.ofBits 0x7ff0000000000000)
  | _ => (decimal? text).map ofDecimal

/-- Reads the text of a real. -/
def ofText? (text : String) : Option Float :=
  match text.toList with
  | '-' :: text => (unsigned? text).map fun real => -real
  | '+' :: text => unsigned? text
  | text => unsigned? text

end Mel.Floating
