import RowQuery.Decimal.Numeral
import RowQuery.Json

/-!
Reading JSON text. Each reader takes the characters from where it starts and gives a value with the
characters after it, or `none` if the text is not well formed.
-/

namespace RowQuery.Json

/-- White space between the parts of a JSON text. -/
def isSpace (c : Char) : Bool :=
  c == ' ' || c == '\n' || c == '\t' || c == '\r'

/-- What follows the white space at the start. -/
def skipSpace (chars : List Char) : List Char :=
  chars.dropWhile isSpace

/-- The value of a digit of base 16. -/
def hexValue? (c : Char) : Option Nat :=
  if c.isDigit then some (c.toNat - '0'.toNat)
  else if 'a' ≤ c ∧ c ≤ 'f' then some (c.toNat - 'a'.toNat + 10)
  else if 'A' ≤ c ∧ c ≤ 'F' then some (c.toNat - 'A'.toNat + 10)
  else none

/-- Four digits of base 16. -/
def hexUnit? : List Char → Option (Nat × List Char)
  | a :: b :: c :: d :: rest =>
    match hexValue? a, hexValue? b, hexValue? c, hexValue? d with
    | some a, some b, some c, some d => some (((a * 16 + b) * 16 + c) * 16 + d, rest)
    | _, _, _, _ => none
  | _ => none

/-- The character of an escape after `\u`: one unit, or a pair of surrogates. -/
def unicodeEscape? (chars : List Char) : Option (Char × List Char) :=
  match hexUnit? chars with
  | none => none
  | some (unit, rest) =>
    if 0xD800 ≤ unit ∧ unit ≤ 0xDBFF then
      match rest with
      | '\\' :: 'u' :: second =>
        match hexUnit? second with
        | some (low, rest) =>
          if 0xDC00 ≤ low ∧ low ≤ 0xDFFF then
            some (Char.ofNat (0x10000 + (unit - 0xD800) * 0x400 + (low - 0xDC00)), rest)
          else none
        | none => none
      | _ => none
    else if 0xDC00 ≤ unit ∧ unit ≤ 0xDFFF then none
    else some (Char.ofNat unit, rest)

/-- The character of an escape after its backslash. -/
def escape? : List Char → Option (Char × List Char)
  | '"' :: rest => some ('"', rest)
  | '\\' :: rest => some ('\\', rest)
  | '/' :: rest => some ('/', rest)
  | 'b' :: rest => some ('\x08', rest)
  | 'f' :: rest => some ('\x0c', rest)
  | 'n' :: rest => some ('\n', rest)
  | 'r' :: rest => some ('\r', rest)
  | 't' :: rest => some ('\t', rest)
  | 'u' :: rest => unicodeEscape? rest
  | _ => none

/-- The characters of a string up to its closing quote. Fuel bounds their number. -/
def stringChars? : Nat → List Char → Option (List Char × List Char)
  | 0, _ => none
  | _, [] => none
  | _, '"' :: rest => some ([], rest)
  | fuel + 1, '\\' :: rest =>
    match escape? rest with
    | some (c, rest) => (stringChars? fuel rest).map fun (text, rest) => (c :: text, rest)
    | none => none
  | fuel + 1, c :: rest =>
    if c.toNat < 0x20 then none
    else (stringChars? fuel rest).map fun (text, rest) => (c :: text, rest)

/-- A string after its opening quote. -/
def string? (chars : List Char) : Option (String × List Char) :=
  (stringChars? (chars.length + 1) chars).map fun (text, rest) => (String.ofList text, rest)

/-- The significand of a number as it is read: as many leading digits as 64 bits hold, and the power
of ten that the rest of the number adds. -/
structure Significand where
  digits : Nat
  exponent : Int
  /-- Whether a digit had to be left out. -/
  full : Bool
deriving DecidableEq, Repr

namespace Significand

/-- The number after one more digit, if 64 bits hold it. -/
def extend? (s : Significand) (digit : Char) : Option Nat :=
  let next := 10 * s.digits + (digit.toNat - '0'.toNat)
  if next < UInt64.size then some next else none

/-- One digit before the point; one that is left out still counts as a power of ten. -/
def addWhole (s : Significand) (digit : Char) : Significand :=
  match s.full, s.extend? digit with
  | false, some digits => { s with digits }
  | _, _ => { s with exponent := s.exponent + 1, full := true }

/-- One digit after the point; after the first that does not fit all are left out. -/
def addPlace (s : Significand) (digit : Char) : Significand :=
  match s.full, s.extend? digit with
  | false, some digits => { s with digits, exponent := s.exponent - 1 }
  | _, _ => { s with full := true }

end Significand

/-- A float times a power of ten, in steps of 308 powers at most; `none` past the largest float. -/
def scaleByTen? (x : Float) (exponent : Int) : Option Float :=
  if exponent.natAbs ≤ 308 then
    let power := Float.ofScientific 1 false exponent.natAbs
    if 0 ≤ exponent then
      if (x * power).isInf then none else some (x * power)
    else some (x / power)
  else if x == 0 then some x
  else if 0 ≤ exponent then none
  else scaleByTen? (x / Float.ofScientific 1 false 308) (exponent + 308)
termination_by exponent.natAbs
decreasing_by omega

/-- The digits of an exponent after its mark, with an optional sign. -/
def exponent? (chars : List Char) : Option (Int × List Char) :=
  let (negative, chars) := Numeral.sign chars
  let digits := chars.takeWhile Char.isDigit
  if digits = [] then none
  else
    let magnitude : Int := Numeral.digitsValue 0 digits
    some (if negative then -magnitude else magnitude, chars.dropWhile Char.isDigit)

/-- A float from its parts. -/
def float? (negative : Bool) (s : Significand) (exponent : Int) : Option Json :=
  (scaleByTen? (Float.ofNat s.digits) (s.exponent + exponent)).map fun x =>
    .float (if negative then -x else x)

/-- A number written with digits only: an integer if 64 bits hold it with or without a sign, a float
otherwise, as is a zero with a sign. -/
def integer? (negative : Bool) (s : Significand) : Option Json :=
  if s.full then float? negative s 0
  else if !negative then some (.integer s.digits)
  else if s.digits ≠ 0 ∧ Integer64.Fits (-(s.digits : Int)) then some (.integer (-(s.digits : Int)))
  else some (.float (-Float.ofNat s.digits))

/-- A number: digits without needless zeros in front, an optional fraction, an optional exponent. -/
def number? (chars : List Char) : Option (Json × List Char) :=
  let (negative, chars) :=
    match chars with
    | '-' :: rest => (true, rest)
    | rest => (false, rest)
  let whole := chars.takeWhile Char.isDigit
  let afterWhole := chars.dropWhile Char.isDigit
  if whole = [] ∨ (whole.head? = some '0' ∧ whole.length ≠ 1) then none
  else
    let significand := whole.foldl Significand.addWhole ⟨0, 0, false⟩
    match afterWhole with
    | '.' :: rest =>
      let places := rest.takeWhile Char.isDigit
      if places = [] then none
      else
        let significand :=
          places.foldl Significand.addPlace { significand with full := false }
        match rest.dropWhile Char.isDigit with
        | mark :: rest =>
          if mark == 'e' || mark == 'E' then
            (exponent? rest).bind fun (exponent, rest) =>
              (float? negative significand exponent).map fun json => (json, rest)
          else (float? negative significand 0).map fun json => (json, mark :: rest)
        | [] => (float? negative significand 0).map fun json => (json, [])
    | mark :: rest =>
      if mark == 'e' || mark == 'E' then
        (exponent? rest).bind fun (exponent, rest) =>
          (float? negative significand exponent).map fun json => (json, rest)
      else (integer? negative significand).map fun json => (json, mark :: rest)
    | [] => (integer? negative significand).map fun json => (json, [])

/-- The rest of a text that starts with a word. -/
def afterWord? (word : String) (chars : List Char) : Option (List Char) :=
  if word.toList.isPrefixOf chars then some (chars.drop word.length) else none

mutual

/-- A value after optional white space. Arrays and objects may be nested `levels` deep. -/
def value? (fuel levels : Nat) (chars : List Char) : Option (Json × List Char) :=
  match fuel with
  | 0 => none
  | fuel + 1 =>
    match skipSpace chars with
    | '"' :: rest => (string? rest).map fun (s, rest) => (.string s, rest)
    | '[' :: rest =>
      if levels = 0 then none
      else match skipSpace rest with
        | ']' :: rest => some (.array [], rest)
        | rest => (items? fuel (levels - 1) rest).map fun (items, rest) => (.array items, rest)
    | '\x7b' :: rest =>
      if levels = 0 then none
      else match skipSpace rest with
        | '\x7d' :: rest => some (ofMembers [], rest)
        | rest =>
          (members? fuel (levels - 1) rest).map fun (members, rest) => (ofMembers members, rest)
    | 't' :: rest => (afterWord? "rue" rest).map fun rest => (.boolean true, rest)
    | 'f' :: rest => (afterWord? "alse" rest).map fun rest => (.boolean false, rest)
    | 'n' :: rest => (afterWord? "ull" rest).map fun rest => (.null, rest)
    | rest => number? rest

/-- The items of an array up to its closing bracket, at least one. -/
def items? (fuel levels : Nat) (chars : List Char) : Option (List Json × List Char) :=
  match fuel with
  | 0 => none
  | fuel + 1 =>
    match value? fuel levels chars with
    | none => none
    | some (item, rest) =>
      match skipSpace rest with
      | ']' :: rest => some ([item], rest)
      | ',' :: rest => (items? fuel levels rest).map fun (items, rest) => (item :: items, rest)
      | _ => none

/-- The members of an object up to its closing brace, at least one. -/
def members? (fuel levels : Nat) (chars : List Char) :
    Option (List (String × Json) × List Char) :=
  match fuel with
  | 0 => none
  | fuel + 1 =>
    match skipSpace chars with
    | '"' :: rest =>
      match string? rest with
      | none => none
      | some (name, rest) =>
        match skipSpace rest with
        | ':' :: rest =>
          match value? fuel levels rest with
          | none => none
          | some (value, rest) =>
            match skipSpace rest with
            | '\x7d' :: rest => some ([(name, value)], rest)
            | ',' :: rest =>
              (members? fuel levels rest).map fun (members, rest) =>
                ((name, value) :: members, rest)
            | _ => none
        | _ => none
    | _ => none

end

/-- How deep arrays and objects may be nested in a text. -/
def deepest : Nat := 127

/-- Reads a text that is one JSON value with white space around it. -/
def read? (text : String) : Option Json :=
  let chars := text.toList
  match value? (2 * chars.length + 2) deepest chars with
  | some (json, rest) => if skipSpace rest = [] then some json else none
  | none => none

end RowQuery.Json
