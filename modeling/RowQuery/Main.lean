import RowQuery.CommandLine.Arguments
import RowQuery.Formats.Standard

/-!
The program: it reads its arguments and its input, and writes the report.
-/

namespace RowQuery.CommandLine

open scoped RowQuery.Formats RowQuery.Hashing

/-- Why a file cannot be read. -/
def Unreadable.ofError (file : String) : IO.Error → Unreadable
  | .noFileOrDirectory .. => .missing file
  | .permissionDenied .. => .forbidden file
  | .inappropriateType .. => .directory
  | error => .other file error.toString

/-- The bytes of the input. -/
def readInput : Option String → IO (Except Unreadable ByteArray)
  | none => return .ok (← (← IO.getStdin).readBinToEnd)
  | some file =>
    try return .ok (← IO.FS.readBinFile file)
    catch error => return .error (.ofError file error)

/-- Writes a report; gives its code. -/
def writeReport (report : Report) : IO UInt32 := do
  (← IO.getStdout).putStr report.output
  (← IO.getStderr).putStr report.errors
  return report.code

/-- Runs the program on its arguments; gives the exit code. -/
def program (words : List String) : IO UInt32 := do
  match Request.ofWords words with
  | .error misuse => writeReport ⟨"", "error: " ++ misuse.message ++ "\n", 2⟩
  | .ok request =>
    match request.list with
    | .error failure => writeReport (.ofFailure failure)
    | .ok list =>
      match Request.readRows (← readInput request.file) with
      | .error failure => writeReport (.ofFailure failure)
      | .ok rows =>
        let started ← IO.monoNanosNow
        match Request.execute list rows with
        | .error failure => writeReport (.ofFailure failure)
        | .ok result =>
          let elapsed := elapsedText ((← IO.monoNanosNow) - started)
          writeReport (.ofOutput (request.present elapsed result))

end RowQuery.CommandLine

def main (words : List String) : IO UInt32 :=
  RowQuery.CommandLine.program words
