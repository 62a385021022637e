import RowQuery.Json.Lines
import RowQuery.SelectList
import RowQuery.Table

/-!
The command line: a select list is evaluated over rows read from an input, and the result is written
as a table or as JSON. Faults count in the order in which the steps are taken: the select list, the
grouping, the input, the evaluation.
-/

namespace RowQuery.CommandLine

/-- What is asked for. -/
structure Request where
  select : String
  /-- The columns to group by, with commas between them. -/
  groupBy : Option String
  /-- The file to read; the standard input if there is none. -/
  file : Option String
  /-- The number of rows to show; 0 shows all of them. -/
  limit : Nat
  json : Bool
  /-- Whether a malformed select list is a fault. -/
  strict : Bool
  /-- Whether a value that is no number is a fault to SUM and AVG. -/
  rejectNonNumeric : Bool
deriving DecidableEq

/-- Why an input cannot be read. -/
inductive Unreadable where
  | missing (file : String)
  | forbidden (file : String)
  | directory
  | other (file reason : String)
deriving DecidableEq, Repr

/-- The message for an input that cannot be read. -/
def Unreadable.message : Unreadable → String
  | .missing file => file ++ ": No such file or directory (os error 2)"
  | .forbidden file => file ++ ": Permission denied (os error 13)"
  | .directory => "Is a directory (os error 21)"
  | .other file reason => file ++ ": " ++ reason

/-- Why a request fails. -/
inductive Failure where
  | select (fault : Fault)
  | noGroupColumn
  | unreadable (reason : Unreadable)
  | line (fault : LineFault)
  | evaluation (fault : Fault)

/-- The message for a failure. Malformed select lists are shown with the place of the fault. -/
def Failure.message [Formats] : Failure → String
  | .select (.parse fault) => fault.renderWithLine
  | .select fault => fault.render
  | .noGroupColumn => "--group-by needs at least one column"
  | .unreadable reason => reason.message
  | .line fault => fault.message
  | .evaluation fault => fault.render

/-- What is written, and the exit code. -/
structure Report where
  output : String
  errors : String
  code : UInt32
deriving DecidableEq

/-- The report of a success. -/
def Report.ofOutput (output : String) : Report :=
  ⟨output, "", 0⟩

/-- The report of a failure. -/
def Report.ofFailure [Formats] (failure : Failure) : Report :=
  ⟨"", "Error: " ++ failure.message ++ "\n", 1⟩

/-- A time in nanoseconds as seconds with three places. -/
def elapsedText (nanos : Nat) : String :=
  let millis := (nanos + 500000) / 1000000
  toString (millis / 1000) ++ "." ++ Decimal.padded 3 (millis % 1000) ++ "s"

/-- The line under a table. -/
def summary (size : Nat) (elapsed : String) : String :=
  "\x1b[1;32m" ++ toString size ++ (if size = 1 then " row" else " rows") ++ " in set (" ++
    elapsed ++ ")\x1b[0m"

namespace Request

variable [Formats]

/-- How the select list is read and evaluated. -/
def settings (request : Request) : Settings where
  strict := request.strict
  operands := if request.rejectNonNumeric then .reject else .coerce

/-- The grouping asked for, if any. -/
def grouping (request : Request) : Except Failure (Option Grouping) :=
  match request.groupBy with
  | none => .ok none
  | some columns =>
    let grouping := Grouping.ofText columns
    if grouping.fields? = some [] then .error .noGroupColumn else .ok (some grouping)

/-- The select list asked for, with its grouping. -/
def list (request : Request) : Except Failure SelectList := do
  let list ← (SelectList.ofText request.settings request.select).mapError .select
  let grouping ← request.grouping
  return list.withGrouping grouping

/-- The rows of an input, which is given by its bytes or by the reason why there are none. -/
def readRows (input : Except Unreadable ByteArray) : Except Failure (List Row) := do
  let bytes ← input.mapError .unreadable
  (Row.ofInput bytes).mapError .line

/-- What a list gives over rows. -/
def execute [Hashing] (list : SelectList) (rows : List Row) : Except Failure ResultSet :=
  (list.execute rows).1.mapError .evaluation

/-- A result as it is written. -/
def present (request : Request) (elapsed : String) (result : ResultSet) : String :=
  if request.json then Formats.jsonText result.toJson ++ "\n"
  else (Table.ofResult request.limit result).render ++ "\n" ++ summary result.size elapsed ++ "\n"

/-- The report of a request for an input, where the evaluation takes some time. -/
def run [Hashing] (request : Request) (input : Except Unreadable ByteArray) (elapsed : String) :
    Report :=
  let result := do
    let list ← request.list
    let rows ← readRows input
    execute list rows
  match result with
  | .ok result => .ofOutput (request.present elapsed result)
  | .error failure => .ofFailure failure

end Request

end RowQuery.CommandLine
