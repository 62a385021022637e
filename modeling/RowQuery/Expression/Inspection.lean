import RowQuery.Expression
import RowQuery.Grouping
import RowQuery.Text.Width

/-!
Expressions with all their parts, for diagnosis.
-/

namespace RowQuery

/-- A number in base 16. -/
def hexadecimal (n : Nat) : String :=
  String.ofList (Nat.toDigits 16 n)

/-- A character of a text in quotes; what cannot be seen is written as its code point. -/
def inspectChar (c : Char) : String :=
  if c = '"' then "\\\""
  else if c = '\\' then "\\\\"
  else if c = '\n' then "\\n"
  else if c = '\r' then "\\r"
  else if c = '\t' then "\\t"
  else if c = '\x00' then "\\0"
  else if c = ' ' then " "
  else if c.toNat < 0x20 || (0x7F ≤ c.toNat && c.toNat ≤ 0xA0) || Text.isBlank c ||
      Text.charWidth c == 0 then
    "\\u\x7b" ++ hexadecimal c.toNat ++ "\x7d"
  else c.toString

/-- A text in quotes. -/
def inspectText (text : String) : String :=
  "\"" ++ String.join (text.toList.map inspectChar) ++ "\""

/-- A grouping with its fields. -/
def Grouping.inspect : Grouping → String
  | .byFields fields =>
    "ColumnGroupBy \x7b columns: [" ++ ", ".intercalate (fields.map inspectText) ++ "] \x7d"
  | .custom name _ => name

/-- An expression with its grouping. -/
def Expression.inspect (grouping : Option Grouping) (e : Expression) : String :=
  "ExpressionBase \x7b column_name: " ++ inspectText e.columnName ++
    ", alias: " ++ inspectText e.label ++
    ", output_property: " ++ inspectText e.plainOutput ++
    ", group_by: " ++
    (match grouping with
      | none => "None"
      | some grouping => "Some(" ++ grouping.inspect ++ ")") ++ " \x7d"

end RowQuery
