import RowQuery.Json.Rows

/-!
Rows from an input with a JSON object in each line.
-/

namespace RowQuery

/-- Why an input gives no rows. Lines are counted from 1. -/
inductive LineFault where
  | notText
  | notJson (line : Nat) (message : String)
  | notARow (line : Nat) (fault : Fault)

/-- A fault of an input as a message. -/
def LineFault.message [Formats] : LineFault → String
  | .notText => "stream did not contain valid UTF-8"
  | .notJson line message => "line " ++ toString line ++ ": " ++ message
  | .notARow line fault => "line " ++ toString line ++ ": " ++ fault.render

namespace Row

variable [Formats]

/-- The row of a line; a blank line has none. -/
def ofLine (number : Nat) (line : List UInt8) : Except LineFault (Option Row) :=
  match String.fromUTF8? ⟨line.toArray⟩ with
  | none => .error .notText
  | some text =>
    let text := Text.trim text
    if text = "" then .ok none
    else match Formats.readJson text with
      | .error message => .error (.notJson number message)
      | .ok json =>
        match ofJson json with
        | .error fault => .error (.notARow number fault)
        | .ok row => .ok (some row)

/-- The rows of lines in order, where the first has a given number; the first fault counts. -/
def ofLines (number : Nat) : List (List UInt8) → Except LineFault (List Row)
  | [] => .ok []
  | line :: rest => do
    let row ← ofLine number line
    let rows ← ofLines (number + 1) rest
    return row.toList ++ rows

/-- The rows of an input. -/
def ofInput (bytes : ByteArray) : Except LineFault (List Row) :=
  ofLines 1 (Text.pieces (· == 10) bytes.toList)

end Row

end RowQuery
