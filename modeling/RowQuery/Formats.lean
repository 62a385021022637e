import RowQuery.Json
import RowQuery.Timestamp

/-!
Texts that are written and read by others: instants by RFC 3339, and JSON.
-/

namespace RowQuery

/-- How instants are written, and JSON is read and written. -/
class Formats where
  /-- An instant by RFC 3339 in UTC. -/
  instantText : Timestamp → String
  /-- The JSON value that a text is, or a message if it is none. -/
  readJson : String → Except String Json
  /-- A JSON value as text without any white space. -/
  jsonText : Json → String

end RowQuery
