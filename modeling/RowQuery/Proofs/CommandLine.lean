import RowQuery.CommandLine
import RowQuery.Proofs.Json.Rows

/-!
# What the command line reports

A request for a text gives a result exactly if the select list parses, the grouping has a column,
each line is blank or holds a row, and the list gives the result over the rows (`Gives`). Otherwise
one of these steps is the first to fail, with a message of its own (`FailsWith`), and the report is
about that one alone (`run_text`).
-/

namespace RowQuery.CommandLine

open Text (AllBlank)

/-! ## The grouping -/

/-- Some column between the commas is not blank. -/
def NamesColumn (columns : String) : Prop :=
  ∃ piece ∈ Text.pieces (· == ',') columns.toList, ¬ AllBlank piece

theorem normalize_eq_empty_iff {name : String} : Name.normalize name = "" ↔ name = "" := by
  rw [Name.normalize, ← String.toList_inj, String.toList_ofList]
  simp

theorem fields?_ofText_iff {columns : String} :
    (Grouping.ofText columns).fields? = some [] ↔ ¬ NamesColumn columns := by
  simp only [Grouping.ofText, Grouping.ofColumns, Grouping.fields?, Option.some_inj,
    List.filter_eq_nil_iff, List.forall_mem_map, NamesColumn, not_exists, not_and, not_not,
    bne_iff_ne, normalize_eq_empty_iff, Text.trim_ofList_eq_empty_iff]

namespace Request

variable {request : Request} {text : String}

theorem grouping_of_names (names : ∀ columns ∈ request.groupBy, NamesColumn columns) :
    request.grouping = .ok (request.groupBy.map Grouping.ofText) := by
  rw [grouping]
  cases asked : request.groupBy with
  | none => rfl
  | some columns =>
      exact if_neg (mt fields?_ofText_iff.mp (not_not.mpr (names columns asked)))

theorem grouping_of_not_names {columns : String} (asked : request.groupBy = some columns)
    (blank : ¬ NamesColumn columns) : request.grouping = .error .noGroupColumn := by
  rw [grouping, asked]
  exact if_pos (fields?_ofText_iff.mpr blank)

/-! ## Results and failures -/

/-- The select list of a request, read as its flags say. -/
def parsed (request : Request) : Except Fault SelectList :=
  SelectList.ofText
    { strict := request.strict
      operands := if request.rejectNonNumeric then .reject else .coerce } request.select

/-- What a request evaluates, if the select list parses and each grouping has a column. -/
def Evaluates (request : Request) (list : SelectList) : Prop :=
  ∃ ungrouped, request.parsed = .ok ungrouped ∧
    (∀ columns ∈ request.groupBy, NamesColumn columns) ∧
    list = ungrouped.withGrouping (request.groupBy.map Grouping.ofText)

section
variable [Formats]

/-- Why a line that is not blank does not hold a row. -/
inductive Refuses (line : List Char) : String → Prop
  | notJson {reason : String} :
      Formats.readJson (Text.trim (String.ofList line)) = .error reason → Refuses line reason
  | notAnObject {json : Json} :
      Formats.readJson (Text.trim (String.ofList line)) = .ok json →
      (∀ members, json ≠ .object members) →
      Refuses line ("illegal argument: row must be a JSON object, got " ++ Formats.jsonText json)

theorem render_notAnObject (json : Json) : (Fault.argument (.notAnObject json)).render =
    "illegal argument: row must be a JSON object, got " ++ Formats.jsonText json := by
  have literals : "illegal argument: " ++ "row must be a JSON object, got " =
      "illegal argument: row must be a JSON object, got " := by decide
  calc
    _ = "illegal argument: " ++ ("row must be a JSON object, got " ++ Formats.jsonText json) := rfl
    _ = "illegal argument: " ++ "row must be a JSON object, got " ++ Formats.jsonText json :=
      String.append_assoc.symm
    _ = _ := congrArg (· ++ Formats.jsonText json) literals

/-- The message for a line that is at fault has its number and the reason. -/
theorem misreads_iff {number : Nat} {line : List Char} {message : String} :
    (∃ fault, Row.Misreads number line fault ∧ fault.message = message) ↔
      ¬ AllBlank line ∧ ∃ reason, Refuses line reason ∧
        message = "line " ++ toString number ++ ": " ++ reason := by
  constructor
  · rintro ⟨fault, misreads, rfl⟩
    refine ⟨misreads.not_blank, ?_⟩
    cases misreads with
    | notJson _ refused => exact ⟨_, .notJson refused, rfl⟩
    | notARow _ read other =>
        exact ⟨_, .notAnObject read other, by rw [LineFault.message, render_notAnObject]⟩
  · rintro ⟨visible, reason, refuses, rfl⟩
    cases refuses with
    | notJson refused => exact ⟨_, .notJson visible refused, rfl⟩
    | notAnObject read other =>
        exact ⟨_, .notARow visible read other, by rw [LineFault.message, render_notAnObject]⟩

variable [Hashing]

/-- The result of a request for a text. -/
def Gives (request : Request) (text : String) (result : ResultSet) : Prop :=
  ∃ list rows, request.Evaluates list ∧
    List.Forall₂ Row.Reads ((Text.lines text).filter fun line => ¬ AllBlank line) rows ∧
    (list.execute rows).1 = .ok result

/-- The message for the first failure of a request for a text: all before it is as for a result. -/
inductive FailsWith (request : Request) (text : String) : String → Prop
  | malformed {fault : ParseFault} : request.parsed = .error (.parse fault) →
      FailsWith request text fault.renderWithLine
  | select {fault : Fault} : request.parsed = .error fault → fault.isParse = false →
      FailsWith request text fault.render
  | noGroupColumn {list : SelectList} {columns : String} : request.parsed = .ok list →
      request.groupBy = some columns → ¬ NamesColumn columns →
      FailsWith request text "--group-by needs at least one column"
  | line {list : SelectList} {before after : List (List Char)} {line : List Char}
      {reason : String} : request.Evaluates list →
      Text.lines text = before ++ line :: after →
      (∀ earlier ∈ before, AllBlank earlier ∨ ∃ row, Row.Reads earlier row) →
      ¬ AllBlank line → Refuses line reason →
      FailsWith request text ("line " ++ toString (before.length + 1) ++ ": " ++ reason)
  | evaluation {list : SelectList} {rows : List Row} {fault : Fault} : request.Evaluates list →
      List.Forall₂ Row.Reads ((Text.lines text).filter fun line => ¬ AllBlank line) rows →
      (list.execute rows).1 = .error fault → FailsWith request text fault.render

theorem gives_or_fails (request : Request) (text : String) :
    (∃ result, request.Gives text result) ∨ ∃ message, request.FailsWith text message := by
  cases parsed : request.parsed with
  | error fault =>
      cases fault with
      | parse fault => exact .inr ⟨_, .malformed parsed⟩
      | argument cause => exact .inr ⟨_, .select parsed rfl⟩
      | type cause => exact .inr ⟨_, .select parsed rfl⟩
  | ok ungrouped =>
      by_cases names : ∀ columns ∈ request.groupBy, NamesColumn columns
      · have evaluates : request.Evaluates _ := ⟨ungrouped, parsed, names, rfl⟩
        cases read : Row.ofInput text.toUTF8 with
        | error fault =>
            obtain ⟨before, line, after, whole, passed, misreads⟩ :=
              Row.ofInput_eq_error_iff.mp read
            obtain ⟨visible, reason, refuses, -⟩ := misreads_iff.mp ⟨fault, misreads, rfl⟩
            exact .inr ⟨_, .line evaluates whole passed visible refuses⟩
        | ok rows =>
            have held := Row.ofInput_eq_ok_iff.mp read
            cases executed :
                ((ungrouped.withGrouping (request.groupBy.map Grouping.ofText)).execute rows).1 with
            | error fault => exact .inr ⟨_, .evaluation evaluates held executed⟩
            | ok result => exact .inl ⟨result, _, rows, evaluates, held, executed⟩
      · push Not at names
        obtain ⟨columns, asked, blank⟩ := names
        exact .inr ⟨_, .noGroupColumn parsed asked blank⟩

end

/-! ## Reports -/

theorem ofText_eq_parsed (request : Request) :
    SelectList.ofText request.settings request.select = request.parsed :=
  rfl

theorem list_of_evaluates {list : SelectList} (evaluates : request.Evaluates list) :
    request.list = .ok list := by
  obtain ⟨ungrouped, parsed, names, rfl⟩ := evaluates
  rw [Request.list, ofText_eq_parsed, parsed, grouping_of_names names]
  rfl

theorem readRows_toUTF8 [Formats] (text : String) :
    readRows (.ok text.toUTF8) = (Row.ofInput text.toUTF8).mapError .line :=
  rfl

section
variable [Formats] [Hashing]

theorem run_of_rows {list : SelectList} {rows : List Row} (evaluates : request.Evaluates list)
    (held : List.Forall₂ Row.Reads ((Text.lines text).filter fun line => ¬ AllBlank line) rows)
    (elapsed : String) : request.run (.ok text.toUTF8) elapsed =
      match execute list rows with
      | .ok result => .ofOutput (request.present elapsed result)
      | .error failure => .ofFailure failure := by
  rw [run, list_of_evaluates evaluates, readRows_toUTF8, Row.ofInput_eq_ok_iff.mpr held]
  rfl

theorem run_of_gives {result : ResultSet} (gives : request.Gives text result) (elapsed : String) :
    request.run (.ok text.toUTF8) elapsed = ⟨request.present elapsed result, "", 0⟩ := by
  obtain ⟨list, rows, evaluates, held, executed⟩ := gives
  rw [run_of_rows evaluates held, execute, executed]
  rfl

theorem run_of_parsed {fault : Fault} (parsed : request.parsed = .error fault) (elapsed : String) :
    request.run (.ok text.toUTF8) elapsed = .ofFailure (.select fault) := by
  rw [run, Request.list, ofText_eq_parsed, parsed]
  rfl

theorem run_of_fails {message : String} (fails : request.FailsWith text message)
    (elapsed : String) : request.run (.ok text.toUTF8) elapsed =
      ⟨"", "Error: " ++ message ++ "\n", 1⟩ := by
  cases fails with
  | malformed parsed => exact run_of_parsed parsed elapsed
  | @select fault parsed other =>
      rw [run_of_parsed parsed]
      cases fault with
      | parse => cases other
      | argument | type => rfl
  | noGroupColumn parsed asked blank =>
      rw [run, Request.list, ofText_eq_parsed, parsed, grouping_of_not_names asked blank]
      rfl
  | line evaluates whole passed visible refuses =>
      obtain ⟨fault, misreads, message⟩ := misreads_iff.mpr ⟨visible, _, refuses, rfl⟩
      have misread : Row.FirstMisread 1 (Text.lines text) fault :=
        ⟨_, _, _, whole, passed, Nat.add_comm _ 1 ▸ misreads⟩
      rw [run, list_of_evaluates evaluates, readRows_toUTF8, Row.ofInput_eq_error_iff.mpr misread,
        ← message]
      rfl
  | evaluation evaluates held executed =>
      rw [run_of_rows evaluates held, execute, executed]
      rfl

end

end Request

end RowQuery.CommandLine
