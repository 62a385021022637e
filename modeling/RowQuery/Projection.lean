import RowQuery.Expression
import RowQuery.Row

/-!
What columns and CONCAT write for a row.
-/

namespace RowQuery

/-- A value as an operand adds it to a concatenation: NULL adds nothing. -/
def Value.concatText [Formats] : Value → String
  | .null => ""
  | value => value.render

/-- The text of an operand for a row; a missing field adds nothing. -/
def Operand.text [Formats] (row : Row) : Operand → String
  | .literal text => text
  | .column name => ((row.get? (Name.normalize name)).map Value.concatText).getD ""

/-- The concatenation of operands for a row. -/
def concatenate [Formats] (operands : List Operand) (row : Row) : Value :=
  .text (String.join (operands.map (Operand.text row)))

/-- Writes what a column or CONCAT gives for a row; aggregate calls write nothing per row. -/
def Expression.project [Formats] (e : Expression) (row written : Row) : Row :=
  match e.term with
  | .column name =>
    if name = "*" then row.fields.foldl (fun written field => written.set field.1 field.2) written
    else written.set e.output ((row.get? e.field).getD .null)
  | .concat operands => written.set e.output (concatenate operands row)
  | .aggregate _ => written

end RowQuery
