import RowQuery.AggregateFunction
import RowQuery.Position
import RowQuery.Text.Blank
import RowQuery.Value.Order
import RowQuery.Value.Text

/-!
Faults: their causes, and the messages for them.
-/

namespace RowQuery

/-- Why an expression or a row cannot be made. -/
inductive ArgumentCause where
  | noColumn
  | noAggregateColumn (function : AggregateFunction)
  | starColumn (function : AggregateFunction)
  | noOperand
  | notAnObject (json : Json)
  | other (message : String)

/-- The message for a cause. -/
def ArgumentCause.message [Formats] : ArgumentCause → String
  | .noColumn => "select expression requires a column name"
  | .noAggregateColumn function => function.name ++ " requires a column name"
  | .starColumn function => function.name ++ " does not accept '*'"
  | .noOperand => "CONCAT requires at least 1 argument"
  | .notAnObject json => "row must be a JSON object, got " ++ Formats.jsonText json
  | .other message => message

/-- Why a value is of the wrong kind. -/
inductive TypeCause where
  | nullComparison
  | incomparable (left right : Kind)
  | notNumeric (function : AggregateFunction) (value : Value)
  | other (message : String)

/-- The message for a cause. -/
def TypeCause.message [Formats] : TypeCause → String
  | .nullComparison => "cannot compare NULL with non-NULL value"
  | .incomparable left right => "cannot compare " ++ left.name ++ " with " ++ right.name
  | .notNumeric function value =>
    function.name ++ " cannot use " ++ value.kind.name ++ " value '" ++ value.render ++ "'"
  | .other message => message

/-- How the text of a select list is malformed. -/
inductive ParseCause where
  | emptyExpression
  | missingExpression
  | unterminatedName
  | unterminatedLiteral
  | unterminatedCall
  | junkInCall
  | emptyArgument
  | missingSeparatorInCall
  | missingSeparator
  | other (message : String)
deriving DecidableEq

/-- The message for a cause. -/
def ParseCause.message : ParseCause → String
  | .emptyExpression => "empty expression"
  | .missingExpression => "expected expression after ','"
  | .unterminatedName => "unterminated quoted identifier"
  | .unterminatedLiteral => "unterminated string literal"
  | .unterminatedCall => "unterminated function call"
  | .junkInCall => "unexpected characters in function call"
  | .emptyArgument => "empty function argument"
  | .missingSeparatorInCall => "expected ',' or ')' in function call"
  | .missingSeparator => "expected ',' or end of input"
  | .other message => message

/-- A malformed place in a text. -/
structure ParseFault where
  cause : ParseCause
  position : Position
  /-- The whole text, or the empty text if it is not known. -/
  context : String
deriving DecidableEq

namespace ParseFault

/-- The message with its place. -/
def render (fault : ParseFault) : String :=
  fault.cause.message ++ " at " ++ fault.position.render

/-- A line without the carriage return at its end. -/
def withoutReturn (line : List Char) : List Char :=
  if line.getLast? = some '\r' then line.dropLast else line

/-- The lines of a text. A line feed ends a line, with the carriage return before it; nothing after
the last line feed is no line. -/
def lines (text : List Char) : List (List Char) :=
  let pieces := Text.pieces (· == '\n') text
  pieces.dropLast.map withoutReturn ++ pieces.getLast?.toList.filter fun last => !last.isEmpty

/-- The message, the line it is about and a mark under its column; the message alone if the text
has no such line. -/
def renderWithLine (fault : ParseFault) : String :=
  match fault.position.line with
  | 0 => fault.render
  | before + 1 =>
    match (lines fault.context.toList)[before]? with
    | none => fault.render
    | some line =>
      fault.render ++ "\n" ++ String.ofList line ++ "\n" ++
        "".pushn ' ' (fault.position.column - 1) ++ "^"

end ParseFault

/-- Why an operation failed. -/
inductive Fault where
  | argument (cause : ArgumentCause)
  | parse (fault : ParseFault)
  | type (cause : TypeCause)

namespace Fault

/-- A fault as a message. -/
def render [Formats] : Fault → String
  | .argument cause => "illegal argument: " ++ cause.message
  | .parse fault => "parse error: " ++ fault.render
  | .type cause => "type error: " ++ cause.message

/-- Whether a fault is about an argument. -/
def isArgument : Fault → Bool
  | .argument _ => true
  | _ => false

/-- Whether a fault is about malformed text. -/
def isParse : Fault → Bool
  | .parse _ => true
  | _ => false

/-- Whether a fault is about the kind of a value. -/
def isType : Fault → Bool
  | .type _ => true
  | _ => false

end Fault

/-- The order of two values, or the fault of comparing them. -/
def Value.compare (left right : Value) : Except Fault Ordering :=
  match left.compare? right with
  | some order => .ok order
  | none =>
    if left.isNull || right.isNull then .error (.type .nullComparison)
    else .error (.type (.incomparable left.kind right.kind))

end RowQuery
