import RowQuery.Text.Blank

/-!
Names of columns and aliases: the normal form under which a row holds a field, and the quoted form
under which a select list writes a name.
-/

namespace RowQuery.Name

open Text (isBlank)

/-- The field a name stands for: each blank reads as an underscore. -/
def normalize (name : String) : String :=
  String.ofList (name.toList.map fun c => if isBlank c then '_' else c)

/-- The characters that a name can hold in quotes only. -/
def needsQuotes (c : Char) : Bool :=
  isBlank c || c == ',' || c == '(' || c == ')' || c == '[' || c == ']' || c == '"' || c == '\''

/-- The characters of a name as a select list writes it. Brackets are the first choice, double
quotes the second and single quotes the last; no style has an escape. -/
def quoteChars (name : List Char) : List Char :=
  if !name.isEmpty && !name.any needsQuotes then name
  else if !name.contains ']' then '[' :: name ++ [']']
  else if !name.contains '"' then '"' :: name ++ ['"']
  else '\'' :: name ++ ['\'']

/-- A name as a select list writes it. -/
def quote (name : String) : String :=
  String.ofList (quoteChars name.toList)

theorem toList_quote (name : String) : (quote name).toList = quoteChars name.toList := by
  simp [quote]

/-- The closing partner of an opening quote. -/
def closing (opening : Char) : Char :=
  if opening = '[' then ']' else opening

/-- The characters that open a quoted name. -/
def opens (c : Char) : Bool :=
  c == '[' || c == '"' || c == '\''

end RowQuery.Name
