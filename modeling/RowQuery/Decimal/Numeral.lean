import RowQuery.Decimal
import RowQuery.Integer64
import RowQuery.Text.Blank

/-!
Numerals: the texts that are read as a number. An integer is a sign and digits; a decimal may have a
point and an exponent; `inf`, `infinity` and `nan` in any case are floats too.
-/

namespace RowQuery.Numeral

/-- The value of a run of decimal digits, read after the digits of `before`. -/
def digitsValue (before : Nat) (digits : List Char) : Nat :=
  digits.foldl (fun value c => 10 * value + (c.toNat - '0'.toNat)) before

/-- An optional sign and what follows; `true` is minus. -/
def sign : List Char → Bool × List Char
  | '-' :: rest => (true, rest)
  | '+' :: rest => (false, rest)
  | chars => (false, chars)

/-- Reads an optional sign and decimal digits, all of the text, as an integer. -/
def integer? (chars : List Char) : Option Int :=
  let (negative, digits) := sign chars
  if digits ≠ [] ∧ digits.all Char.isDigit then
    some (if negative then -(digitsValue 0 digits : Int) else digitsValue 0 digits)
  else none

/-- Reads an integer of 64 bits. -/
def int64? (chars : List Char) : Option Int64 :=
  (integer? chars).bind Integer64.ofInt?

/-- Reads an exponent, all of the text: nothing, or `e` or `E` and an integer. -/
def exponent? : List Char → Option Int
  | [] => some 0
  | mark :: rest => if mark == 'e' || mark == 'E' then integer? rest else none

/-- Reads an unsigned decimal, all of the text: digits with at most one point among them, at least
one digit, and an optional exponent. -/
def decimal? (chars : List Char) : Option Decimal :=
  let whole := chars.takeWhile Char.isDigit
  let afterWhole := chars.dropWhile Char.isDigit
  let (places, afterPlaces) : List Char × List Char :=
    match afterWhole with
    | '.' :: rest => (rest.takeWhile Char.isDigit, rest.dropWhile Char.isDigit)
    | rest => ([], rest)
  if whole = [] ∧ places = [] then none
  else match exponent? afterPlaces with
    | some exponent => some ⟨digitsValue (digitsValue 0 whole) places, exponent - places.length⟩
    | none => none

/-- The float nearest to an unsigned decimal. -/
def nearest (d : Decimal) : Float :=
  Float.ofScientific d.digits (d.exponent < 0) d.exponent.natAbs

/-- Whether a text spells a word, the case of ASCII letters aside. -/
def spells (word : String) (chars : List Char) : Bool :=
  chars.map Char.toLower == word.toList

/-- The floats that are written as words. -/
def namedFloat? (chars : List Char) : Option Float :=
  if spells "inf" chars || spells "infinity" chars then some (1.0 / 0.0)
  else if spells "nan" chars then some (0.0 / 0.0)
  else none

/-- Reads a float: an optional sign, and a word or a decimal. -/
def float? (chars : List Char) : Option Float :=
  let (negative, unsigned) := sign chars
  let magnitude := (namedFloat? unsigned).or ((decimal? unsigned).map nearest)
  magnitude.map fun x => if negative then -x else x

end RowQuery.Numeral
