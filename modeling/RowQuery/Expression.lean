import RowQuery.AggregateFunction
import RowQuery.Fault
import RowQuery.Name
import RowQuery.Settings

/-!
The expressions of a select list, and the fields that they read and write.
-/

namespace RowQuery

/-- An argument of CONCAT. -/
inductive Operand where
  | literal (text : String)
  | column (name : String)
deriving DecidableEq, Repr

/-- An aggregate function with its argument. -/
structure AggregateCall where
  function : AggregateFunction
  column : String
  distinct : Bool
  /-- Matters to the functions that take numbers only. -/
  operands : OperandRule
deriving DecidableEq, Repr

namespace AggregateCall

/-- A call; functions that take any value have no use for a rule of operands. -/
def of (function : AggregateFunction) (column : String) (distinct : Bool)
    (operands : OperandRule) : AggregateCall :=
  ⟨function, column, distinct, if function.isNumeric then operands else .coerce⟩

/-- Whether a call is over whole rows. -/
def isStar (call : AggregateCall) : Bool :=
  call.column == "*"

/-- Whether a call passes each value on once only. -/
def tracksDistinct (call : AggregateCall) : Bool :=
  call.distinct && call.function.heedsDistinct

end AggregateCall

/-- What an expression computes. -/
inductive Term where
  /-- A column of each row; `*` is all of them. -/
  | column (name : String)
  | aggregate (call : AggregateCall)
  | concat (operands : List Operand)
deriving DecidableEq, Repr

/-- What keeps a term from being an expression, if anything does. -/
def Term.flaw? : Term → Option ArgumentCause
  | .column name => if name = "" then some .noColumn else none
  | .aggregate call =>
    if call.column = "" then some (.noAggregateColumn call.function)
    else if call.isStar ∧ ¬ call.function.takesStar then some (.starColumn call.function)
    else none
  | .concat operands => if operands.isEmpty then some .noOperand else none

/-- An item of a select list. -/
structure Expression where
  term : Term
  /-- The name given with AS; empty if there is none. -/
  label : String
  sound : term.flaw? = none
deriving DecidableEq

namespace Expression

/-- The expression of a term without an alias. -/
def ofTerm (term : Term) : Except Fault Expression :=
  match sound : term.flaw? with
  | none => .ok ⟨term, "", sound⟩
  | some cause => .error (.argument cause)

/-- The same expression with another alias; the empty one takes the alias away. -/
def withLabel (label : String) (e : Expression) : Expression :=
  { e with label }

/-- What an expression is called in a select list, or COLUMN. -/
def kindName (e : Expression) : String :=
  match e.term with
  | .column _ => "COLUMN"
  | .aggregate call => call.function.name
  | .concat _ => "CONCAT"

/-- The column that an expression is over; CONCAT goes by a name of its own. -/
def columnName (e : Expression) : String :=
  match e.term with
  | .column name => name
  | .aggregate call => call.column
  | .concat _ => "concat"

/-- The field of the column. -/
def field (e : Expression) : String :=
  Name.normalize e.columnName

/-- The field of the alias. -/
def labelField (e : Expression) : String :=
  Name.normalize e.label

/-- Whether an alias is given. -/
def hasLabel (e : Expression) : Bool :=
  e.label != ""

/-- Whether an expression is over whole rows. -/
def isStar (e : Expression) : Bool :=
  e.columnName == "*"

/-- The aggregate call that an expression is, if it is one. -/
def call? (e : Expression) : Option AggregateCall :=
  match e.term with
  | .aggregate call => some call
  | _ => none

/-- Whether an expression folds many rows into one value. -/
def isAggregate (e : Expression) : Bool :=
  e.call?.isSome

/-- Whether an expression is an aggregate call with DISTINCT. -/
def isDistinct (e : Expression) : Bool :=
  e.call?.any AggregateCall.distinct

/-- The field of the alias, or of the column if there is none. -/
def plainOutput (e : Expression) : String :=
  if e.labelField = "" then e.field else e.labelField

/-- The field that an expression writes. Without an alias, that of an aggregate call is named for
its function and column. -/
def output (e : Expression) : String :=
  match e.term with
  | .aggregate call =>
    if e.hasLabel then e.labelField
    else if call.isStar then call.function.stem
    else call.function.stem ++ "_" ++ e.field
  | _ => e.plainOutput

end Expression

end RowQuery
