import RowQuery.ResultSet
import RowQuery.Text.Blank
import RowQuery.Text.Width

/-!
Tables drawn with lines around their columns.
-/

namespace RowQuery

/-- A table: the texts of a header, and of rows with one text for each column. -/
structure Table where
  header : List String
  rows : List (List String)
deriving DecidableEq

namespace Table

/-- The characters of a horizontal rule. -/
structure Rule where
  left : Char
  line : Char
  crossing : Char
  right : Char

/-- The rule above the header. -/
def topRule : Rule := ⟨'┌', '─', '┬', '┐'⟩

/-- The rule under the header. -/
def headerRule : Rule := ⟨'╞', '═', '╪', '╡'⟩

/-- The rule under the last row. -/
def bottomRule : Rule := ⟨'└', '─', '┴', '┘'⟩

/-- The lines of a cell. -/
def cellLines (text : String) : List String :=
  (Text.pieces (· == '\n') text.toList).map String.ofList

/-- The width of a cell: that of its widest line. -/
def cellWidth (text : String) : Nat :=
  ((cellLines text).map Text.width).foldl max 0

/-- The width of each column: that of its widest cell. -/
def widths (table : Table) : List Nat :=
  table.rows.foldl (fun widths row => widths.zipWith max (row.map cellWidth))
    (table.header.map cellWidth)

/-- A horizontal rule over columns. -/
def Rule.render (rule : Rule) (widths : List Nat) : String :=
  rule.left.toString ++
    rule.crossing.toString.intercalate (widths.map fun width => "".pushn rule.line (width + 2)) ++
    rule.right.toString

/-- A text at the left of its column, with a space on both sides. -/
def padded (width : Nat) (text : String) : String :=
  " " ++ text ++ "".pushn ' ' (width - Text.width text + 1)

/-- One line of cells. -/
def renderLine (widths : List Nat) (texts : List String) : String :=
  "│" ++ "┆".intercalate (widths.zipWith padded texts) ++ "│"

/-- The lines of a row: as many as its tallest cell has. -/
def renderRow (widths : List Nat) (row : List String) : List String :=
  let cells := row.map cellLines
  let height := (cells.map List.length).foldl max 0
  (List.range height).map fun index =>
    renderLine widths (cells.map fun lines => lines[index]?.getD "")

/-- The lines of a table. -/
def lines (table : Table) : List String :=
  topRule.render table.widths :: renderRow table.widths table.header ++
    headerRule.render table.widths :: table.rows.flatMap (renderRow table.widths) ++
    [bottomRule.render table.widths]

/-- A table as text. -/
def render (table : Table) : String :=
  "\n".intercalate table.lines

/-- The row that stands for the rows that are not shown. -/
def moreRow (columns : List String) (hidden : Nat) : List String :=
  match columns with
  | [] => []
  | _ :: others =>
    ("... (" ++ toString hidden ++ " more rows) ...") :: others.map fun _ => ""

/-- The texts of a row under some columns; a field that is missing has none. -/
def textsOf [Formats] (columns : List String) (row : Row) : List String :=
  columns.map fun column => ((row.get? column).map Value.render).getD ""

/-- The table of the first rows of a result, up to a limit; the limit 0 is none. -/
def ofResult [Formats] (limit : Nat) (result : ResultSet) : Table :=
  let shown := if limit = 0 then result.size else min limit result.size
  let columns := result.columns
  { header := columns
    rows := (result.rows.take shown).map (textsOf columns) ++
      if shown < result.size then [moreRow columns (result.size - shown)] else [] }

end Table

end RowQuery
