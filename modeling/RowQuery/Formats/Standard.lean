import RowQuery.Formats
import RowQuery.Json.Printer
import RowQuery.Json.Reader
import RowQuery.Timestamp.Text

/-!
Formats for a program that brings its own.
-/

namespace RowQuery.Formats

/-- Instants and JSON as they are written and read here; a text that is no JSON is not explained. -/
scoped instance standard : Formats where
  instantText := Timestamp.text
  readJson text := (Json.read? text).elim (.error "invalid JSON") .ok
  jsonText := Json.render

end RowQuery.Formats
