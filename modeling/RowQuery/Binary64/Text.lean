import RowQuery.Binary64.Shortest

/-!
Floats as text. A form fixes the layout of the digits and the side a tie falls on.
-/

namespace RowQuery.Binary64

/-- How finite floats are written. -/
structure Form where
  layout : Decimal.Layout
  tie : Tie

/-- Floats shown to a reader: positional from a ten-thousandth to sixteen digits, no point after an
integer, an exponent without plus; a tie goes away from zero. -/
def plainForm : Form where
  layout :=
    { leastPositional := -4, greatestPositional := 15, keepsPoint := false, signsExponent := false }
  tie := .away

/-- Floats in JSON: positional from a hundred-thousandth to sixteen digits, a point in each of
these, a sign before each exponent; a tie goes to the even digit. -/
def jsonForm : Form where
  layout :=
    { leastPositional := -5, greatestPositional := 15, keepsPoint := true, signsExponent := true }
  tie := .even

/-- A finite float in a form. -/
def Form.chars (form : Form) (negative : Bool) (significand : Nat) (exponent : Int) : List Char :=
  let digits := form.layout.chars (shortest form.tie significand exponent)
  if negative then '-' :: digits else digits

/-- A float as shown to a reader. -/
def text (x : Float) : String :=
  match exact x with
  | .nan => "NaN"
  | .infinite negative => if negative then "-inf" else "inf"
  | .finite negative significand exponent =>
    String.ofList (plainForm.chars negative significand exponent)

/-- A float as JSON has it; JSON has no form for the others than the finite ones. -/
def jsonText? (x : Float) : Option String :=
  match exact x with
  | .finite negative significand exponent =>
    some (String.ofList (jsonForm.chars negative significand exponent))
  | _ => none

end RowQuery.Binary64
