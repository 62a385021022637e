import RowQuery.Expression

/-!
Expressions as a select list writes them.
-/

namespace RowQuery

/-- The characters of a literal: a quote within it is written twice. -/
def literalChars (text : List Char) : List Char :=
  '\'' :: (text.flatMap fun c => if c = '\'' then ['\'', '\''] else [c]) ++ ['\'']

/-- An operand as CONCAT has it. -/
def Operand.render : Operand → String
  | .literal text => String.ofList (literalChars text.toList)
  | .column name => Name.quote name

/-- A call as a select list has it. -/
def AggregateCall.render (call : AggregateCall) : String :=
  call.function.name ++ "(" ++ (if call.distinct then "DISTINCT " else "") ++
    Name.quote call.column ++ ")"

/-- A term as a select list has it. -/
def Term.render : Term → String
  | .column name => Name.quote name
  | .aggregate call => call.render
  | .concat operands => "CONCAT(" ++ ", ".intercalate (operands.map Operand.render) ++ ")"

/-- An expression as a select list has it. -/
def Expression.render (e : Expression) : String :=
  e.term.render ++ if e.hasLabel then " AS " ++ Name.quote e.label else ""

/-- A select list. -/
def Expression.renderList (expressions : List Expression) : String :=
  ", ".intercalate (expressions.map Expression.render)

end RowQuery
