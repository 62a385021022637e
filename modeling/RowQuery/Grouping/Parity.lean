import RowQuery.Grouping
import RowQuery.Value.Number

/-!
A grouping that is not by fields: rows are even or odd.
-/

namespace RowQuery.Grouping

/-- Whether a row is even: by its field `parity` if that is a text, else by its field `n`. -/
def isEven (row : Row) : Bool :=
  match (row.get? "parity").bind Value.text? with
  | some text => text == "even"
  | none =>
    match (row.get? "n").bind Value.int64? with
    | some n => n.toInt % 2 == 0
    | none => false

/-- Two groups, of the even rows and of the odd rows. -/
def parity : Grouping :=
  .custom "ParityGroupBy" fun row =>
    let id := if isEven row then "even" else "odd"
    ⟨id, [("parity", .text id)]⟩

end RowQuery.Grouping
