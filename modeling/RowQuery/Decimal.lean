/-!
Unsigned decimals in scientific form, and their written layouts.
-/

namespace RowQuery

/-- The number `digits · 10 ^ exponent`. -/
structure Decimal where
  digits : Nat
  exponent : Int
deriving DecidableEq, Repr

namespace Decimal

/-- The decimal digits of a number, the most significant first. -/
def digitChars (n : Nat) : List Char :=
  Nat.toDigits 10 n

/-- How many decimal digits a number has. -/
def width (n : Nat) : Nat :=
  (digitChars n).length

/-- A number with zeros in front up to a width. -/
def padded (width n : Nat) : String :=
  let digits := digitChars n
  String.ofList (List.replicate (width - digits.length) '0' ++ digits)

/-- The same number with no zero at the end of its digits. -/
def reduce (d : Decimal) : Decimal :=
  if h : d.digits ≠ 0 ∧ d.digits % 10 = 0 then reduce ⟨d.digits / 10, d.exponent + 1⟩ else d
termination_by d.digits
decreasing_by omega

/-- The power of ten of the first digit. -/
def leading (d : Decimal) : Int :=
  d.exponent + width d.digits - 1

/-- How a decimal is laid out: positionally when its first digit stands between the two given
powers of ten, otherwise with an exponent. -/
structure Layout where
  leastPositional : Int
  greatestPositional : Int
  /-- Whether an integer written positionally keeps `.0`. -/
  keepsPoint : Bool
  /-- Whether a positive exponent is written with `+`. -/
  signsExponent : Bool

/-- The digits with a point after those before it; zeros fill what is missing on either side. -/
def positionalChars (keepsPoint : Bool) (d : Decimal) : List Char :=
  let digits := digitChars d.digits
  if 0 ≤ d.exponent then
    digits ++ List.replicate d.exponent.toNat '0' ++ (if keepsPoint then ['.', '0'] else [])
  else
    let places := (-d.exponent).toNat
    if places < digits.length then
      digits.take (digits.length - places) ++ '.' :: digits.drop (digits.length - places)
    else
      '0' :: '.' :: List.replicate (places - digits.length) '0' ++ digits

/-- An exponent after its mark. -/
def exponentChars (signs : Bool) (exponent : Int) : List Char :=
  'e' :: (if exponent < 0 then ['-'] else if signs then ['+'] else []) ++ digitChars exponent.natAbs

/-- One digit, the others after a point, and the power of ten of the first. -/
def scientificChars (signs : Bool) (d : Decimal) : List Char :=
  (match digitChars d.digits with
    | [] => []
    | [first] => [first]
    | first :: others => first :: '.' :: others) ++ exponentChars signs d.leading

/-- A decimal in a layout. -/
def Layout.chars (layout : Layout) (d : Decimal) : List Char :=
  if layout.leastPositional ≤ d.leading ∧ d.leading ≤ layout.greatestPositional then
    positionalChars layout.keepsPoint d
  else scientificChars layout.signsExponent d

end Decimal

end RowQuery
