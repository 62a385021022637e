import RowQuery.Proofs.Fault
import RowQuery.Proofs.Parser.Calls
import RowQuery.Proofs.Parser.Permissive

/-!
# Where malformed text is noticed

Each reading notes the places of its faults while the cursor is before a character that is not
blank, or is handed such a place by its caller (`Scan.Marks`). A parser keeps the place of a comma
besides, for the next call. So every fault marks a character of the text (`calls_mark`).
-/

namespace RowQuery

open Lookahead Grammar

namespace Scan

variable {α β : Type} {c : Cursor} {strict : Bool} {cause : ParseCause}

/-- At a cursor of a text, the faults of a reading mark characters of the text. -/
def Marks (reading : Scan α) (c : Cursor) : Prop :=
  c.Placed → ∀ fault last, reading c = .error (.parse fault) last → fault.Marks c.text

theorem marks_of_succeeds {reading : Scan α} (succeeds : Succeeds reading) : Marks reading c := by
  intro _ fault last failed
  obtain ⟨value, count, reached⟩ := succeeds c
  cases failed.symm.trans reached

theorem Marks.bind {first : Scan α} {second : α → Scan β} (start : Marks first c)
    (forward : Forward first) (next : ∀ result count, Marks (second result) (c.skip count)) :
    Marks (first >>= second) c := by
  intro placed fault last failed
  cases at_first : first c with
  | error fault' last' =>
      rw [bind_of_error at_first] at failed
      cases failed
      exact start placed fault last at_first
  | ok result middle =>
      rw [bind_of_ok at_first] at failed
      obtain ⟨count, rfl⟩ := forward.ok at_first
      exact next result count (placed.skip count) fault last failed

theorem marks_rest {next : List Char → Scan α} (later : Marks (next c.rest) c) :
    Marks (rest >>= next) c :=
  later

theorem marks_get {next : Cursor → Scan α} (later : Marks (next c) c) : Marks (get >>= next) c :=
  later

theorem marks_position {next : Position → Scan α} (later : c.Placed → Marks (next c.position) c) :
    Marks (position >>= next) c :=
  fun placed => later placed placed

theorem marks_skip {count : Nat} {next : Unit → Scan α}
    (later : Marks (next ()) (c.skip count)) : Marks (skip count >>= next) c :=
  fun placed => later (placed.skip count)

theorem marks_skipBlanks {next : Unit → Scan α} (later : Marks (next ()) c.skipBlanks) :
    Marks (skipBlanks >>= next) c :=
  fun placed => later (placed.skip _)

theorem marks_recover {place : Position} {next : Unit → Scan α}
    (message : '\n' ∉ cause.message.toList) (marks : place.Marks c.text)
    (later : Marks (next ()) c) : Marks (recover strict place cause >>= next) c := by
  intro placed fault last failed
  cases strict with
  | false => exact later placed fault last failed
  | true =>
      cases failed
      exact ⟨rfl, marks, message⟩

theorem marks_pure (value : α) : Marks (pure value : Scan α) c :=
  marks_of_succeeds (succeeds_pure value)

/-! ## Readings -/

theorem marks_quotedName {opening : Char} {others : List Char} (starts : c.rest = opening :: others)
    (opens : Name.opens opening) : Marks (quotedName strict opening) c := by
  have visible : Text.isBlank opening = false := by
    have begins : endsBare false opening = false := endsBare_of_opens opens
    simp only [endsBare, Bool.or_eq_false_iff] at begins
    exact begins.1.1
  refine marks_position fun placed => marks_rest (marks_skip ?_)
  split
  · exact marks_recover (by decide) (placed.marks starts visible) (marks_pure _)
  · exact marks_pure _

theorem marks_quotedLiteral {others : List Char} (starts : c.rest = '\'' :: others) :
    Marks (quotedLiteral strict) c := by
  refine marks_position fun placed => marks_rest (marks_skip ?_)
  split
  · exact marks_recover (by decide) (placed.marks starts rfl) (marks_pure _)
  · exact marks_pure _

theorem marks_argumentName : Marks (argumentName strict) c := by
  refine marks_rest ?_
  split
  · exact marks_skip (marks_pure _)
  · rename_i starts
    split
    · rename_i opens
      exact marks_quotedName starts opens
    · exact marks_of_succeeds (succeeds_bareName _)
  · exact marks_of_succeeds (succeeds_bareName _)

theorem marks_argument {opening : Position} (opens : opening.Marks c.text) :
    Marks (argument strict opening) c := by
  refine marks_position fun _ => marks_skipBlanks ?_
  refine (marks_of_succeeds succeeds_distinct).bind forward_distinct fun _ count => ?_
  refine marks_skipBlanks (marks_argumentName.bind (forward_argumentName _) fun _ more => ?_)
  refine marks_skipBlanks (marks_rest ?_)
  split
  · exact marks_skip (marks_pure _)
  · refine marks_position fun placed => marks_skip ?_
    split
    · rename_i closed
      obtain ⟨first, others, starts⟩ := List.exists_cons_of_length_pos (Nat.zero_lt_of_lt closed)
      exact marks_recover (by decide) (placed.marks starts (isBlank_head_skipBlanks starts))
        (marks_get (marks_pure _))
    · exact marks_recover (by decide) opens (marks_get (marks_pure _))

theorem marks_operand : Marks (operand strict) c := by
  refine marks_rest ?_
  split
  · rename_i starts
    exact (marks_quotedLiteral starts).bind (forward_quotedLiteral _) fun _ _ => marks_pure _
  · rename_i starts
    split
    · rename_i opens
      exact (marks_quotedName starts opens).bind (forward_quotedName ..) fun _ _ => marks_pure _
    · exact (marks_of_succeeds (succeeds_bareName _)).bind (forward_bareName _) fun _ _ =>
        marks_pure _
  · exact (marks_of_succeeds (succeeds_bareName _)).bind (forward_bareName _) fun _ _ =>
      marks_pure _

theorem marks_separator : Marks (separator strict) c := by
  refine marks_skipBlanks (marks_rest ?_)
  split
  · exact marks_skip (marks_pure _)
  · exact marks_pure _
  · exact marks_pure _
  · rename_i starts
    exact marks_position fun placed => marks_recover (by decide)
      (placed.marks starts (isBlank_head_skipBlanks starts)) (marks_pure _)

theorem marks_part {opening : Position} {afterComma : Bool} (opens : opening.Marks c.text) :
    Marks (part strict opening afterComma) c := by
  refine marks_skipBlanks (marks_rest ?_)
  split
  · exact marks_recover (by decide) opens (marks_pure _)
  · rename_i starts
    split
    · exact marks_position fun placed => marks_recover (by decide) (placed.marks starts rfl)
        (marks_skip (marks_pure _))
    · exact marks_skip (marks_pure _)
  · rename_i starts
    exact marks_position fun placed => marks_recover (by decide) (placed.marks starts rfl)
      (marks_skip (marks_pure _))
  · exact marks_operand.bind (forward_operand _) fun _ _ =>
      marks_separator.bind (forward_separator _) fun _ _ => marks_pure _

theorem marks_operands {opening : Position} {afterComma : Bool} :
    opening.Marks c.text → Marks (operands strict opening afterComma) c := by
  unfold Marks
  fun_induction operands strict opening afterComma c with
  | case1 afterComma c fault last reached =>
      intro opens placed _ _ same
      cases same
      exact marks_part opens placed _ _ reached
  | case2 => intro _ _ _ _ same; cases same
  | case3 => intro _ _ _ _ same; cases same
  | case4 afterComma c read comma next reached fault last at_rest ih =>
      intro opens placed _ _ same
      cases same
      obtain ⟨moved, rfl⟩ := (forward_part ..).ok reached
      exact ih opens (placed.skip moved) _ _ at_rest

theorem marks_build (term : Term) : Marks (build term) c := by
  intro _ fault last failed
  cases made : Expression.ofTerm term with
  | ok e =>
      simp only [build, made] at failed
      cases failed
  | error cause =>
      obtain ⟨_, -, rfl⟩ := ofTerm_eq_error made
      simp only [build, made] at failed
      cases failed

theorem marks_call {settings : Settings} {keyword : Keyword} {inner : List Char}
    (here : Call keyword c.rest inner) : Marks (call settings keyword) c := by
  have starts : (c.skip keyword.name.length).rest = '(' :: inner := by
    rw [Cursor.rest_skip, ← drop_length_of_afterWord? (word_iff.mp here), String.length_toList]
  refine marks_skip (marks_position fun placed => marks_skip ?_)
  have opens := placed.marks starts rfl
  cases keyword with
  | aggregate function =>
      refine Marks.bind (marks_argument opens) (forward_argument ..) fun _ _ => ?_
      exact marks_build _
  | concat =>
      exact Marks.bind (marks_operands opens) (forward_operands ..) fun _ _ => marks_build _

theorem marks_term (settings : Settings) : Marks (term settings) c := by
  refine marks_rest ?_
  split
  · rename_i opening found
    obtain ⟨head, opens⟩ := Option.filter_eq_some_iff.mp found
    obtain ⟨others, starts⟩ := List.head?_eq_some_iff.mp head
    exact (marks_quotedName starts opens).bind (forward_quotedName ..) fun _ _ => marks_build _
  · split
    · rename_i keyword found
      obtain ⟨inner, here⟩ := call?_eq_some_iff.mp found
      exact marks_call here
    · have named : Marks (nameFrom (spelled [] c.rest)) c :=
        marks_skip ((marks_of_succeeds (succeeds_bareName _)).bind (forward_bareName _) fun _ _ =>
          marks_pure _)
      exact named.bind (forward_nameFrom _) fun _ _ => marks_build _

theorem marks_label : Marks (label strict) c := by
  rw [label_eq]
  refine marks_rest ?_
  split
  · exact marks_pure _
  · refine marks_skip (marks_rest ?_)
    split
    · rename_i opening found
      obtain ⟨head, opens⟩ := Option.filter_eq_some_iff.mp found
      obtain ⟨others, starts⟩ := List.head?_eq_some_iff.mp head
      exact (marks_quotedName starts opens).bind (forward_quotedName ..) fun _ _ => marks_pure _
    · exact (marks_of_succeeds (succeeds_bareName _)).bind (forward_bareName _) fun _ _ =>
        marks_pure _

theorem marks_comma : Marks (comma strict) c := by
  refine marks_skipBlanks (marks_rest ?_)
  split
  · exact marks_pure _
  · exact marks_position fun _ => marks_skip (marks_pure _)
  · rename_i starts
    exact marks_position fun placed => marks_recover (by decide)
      (placed.marks starts (isBlank_head_skipBlanks starts)) (marks_pure _)

theorem marks_item (settings : Settings) : Marks (item settings) c :=
  (marks_term settings).bind (forward_term settings) fun _ _ =>
    marks_label.bind (forward_label _) fun _ _ =>
      marks_comma.bind (forward_comma _) fun _ _ => marks_pure _

theorem gives_comma (placed : c.Placed) :
    Gives (comma strict) c fun read _ => ∀ place ∈ read, place.Marks c.text := by
  refine gives_skipBlanks (gives_rest ?_)
  split
  · exact gives_pure nofun
  · rename_i starts
    refine gives_position (gives_skip (gives_pure ?_))
    rintro _ ⟨⟩
    exact (placed.skip _).marks starts rfl
  · exact gives_position (Gives.bind (fun _ _ _ => trivial) fun _ _ _ => gives_pure nofun)

theorem gives_item_comma (settings : Settings) (placed : c.Placed) :
    Gives (item settings) c fun read _ => ∀ place ∈ read.2, place.Marks c.text := by
  refine Gives.bind (forward_term settings).gives fun _ _ reached => ?_
  obtain ⟨count, rfl⟩ := reached
  refine Gives.bind (forward_label _).gives fun _ _ reached => ?_
  obtain ⟨more, rfl⟩ := reached
  exact Gives.bind (gives_comma ((placed.skip count).skip more)) fun _ _ kept => gives_pure kept

end Scan

namespace Parser

variable {p : Parser} {chars : List Char}

/-- A parser somewhere in a text. The place that it keeps, if any, is one of the text. -/
structure On (chars : List Char) (p : Parser) : Prop where
  text : p.cursor.text = chars
  placed : p.cursor.Placed
  pending : ∀ place ∈ p.pendingComma, place.Marks chars

theorem on_ofText (settings : Settings) (text : String) : (ofText settings text).On text.toList :=
  ⟨rfl, Cursor.placed_ofText text, nofun⟩

/-- A call keeps the parser on its text, and a fault of it marks a character there. -/
theorem On.next (on : p.On chars) :
    p.next.2.On chars ∧ ∀ fault, p.next.1 = .error (.parse fault) → fault.Marks chars := by
  have context : String.ofList p.cursor.text = String.ofList chars := congrArg _ on.text
  have placed : p.atNext.Placed := on.placed.skip _
  have no_feed : '\n' ∉ ParseCause.missingExpression.message.toList ∧
      '\n' ∉ ParseCause.emptyExpression.message.toList := by decide
  unfold Parser.next
  split
  · have ended : On chars { p with cursor := p.atNext, pendingComma := none } :=
      ⟨on.text, placed, nofun⟩
    split
    · exact ⟨ended, nofun⟩
    · rename_i comma pending
      split
      · refine ⟨ended, fun fault failed => ?_⟩
        cases failed
        exact ⟨context, on.pending comma pending, no_feed.1⟩
      · exact ⟨ended, nofun⟩
  · rename_i first others starts
    split
    · rename_i comma
      refine ⟨⟨on.text, placed, on.pending⟩, fun fault failed => ?_⟩
      cases failed
      have marks := placed.marks starts (by rw [comma]; rfl)
      exact ⟨context, on.text ▸ marks, no_feed.2⟩
    · rename_i other
      have takes := p.takes_item_atNext starts other
      split
      · rename_i read pending last reached
        have kept := Scan.gives_item_comma p.settings placed _ _ reached
        obtain ⟨count, rfl⟩ := takes.ok reached
        exact ⟨⟨on.text, placed.skip _, on.text ▸ kept⟩, nofun⟩
      · rename_i fault last failed
        obtain ⟨count, rfl⟩ := takes.error failed
        refine ⟨⟨on.text, placed.skip _, nofun⟩, fun fault' same => ?_⟩
        cases same
        exact on.text ▸ Scan.marks_item p.settings placed _ _ failed

theorem On.afterCalls (on : p.On chars) (count : Nat) : (p.afterCalls count).On chars := by
  induction count with
  | zero => exact on
  | succ count ih => exact ih.next.1

/-- The fault of malformed text that a result is, if it is one. -/
def parseFault? {α : Type} : Except Fault α → Option ParseFault
  | .error (.parse fault) => some fault
  | _ => none

theorem eq_error_of_parseFault? {α : Type} {result : Except Fault α} {fault : ParseFault}
    (found : parseFault? result = some fault) : result = .error (.parse fault) := by
  unfold parseFault? at found
  split at found
  · rw [Option.some_inj.mp found]
  · cases found

/-- Each parse fault of the strict parser has the whole text with it, and a place in it at a character
that is not blank. It is shown as its message, the line of that character and a mark under it; from
the line, the carriage return before its line feed is left out. -/
theorem calls_mark (rule : OperandRule) (text : String) (count : Nat) {fault : ParseFault}
    (failed : ((ofText ⟨true, rule⟩ text).afterCalls count).next.1 = .error (.parse fault)) :
    let before := text.toList.take fault.position.offset
    fault.context = text ∧
      fault.position.line = 1 + before.count '\n' ∧
      fault.position.column = 1 + (Text.lastLine before).length ∧
      ∃ c, text.toList[fault.position.offset]? = some c ∧ Text.isBlank c = false ∧
        fault.Shows (ParseFault.shownLine text.toList fault.position.offset) c := by
  have marks := ((on_ofText ⟨true, rule⟩ text).afterCalls count).next.2 fault failed
  obtain ⟨line, column⟩ := marks.position.counts
  exact ⟨by rw [marks.context, String.ofList_toList], line, column, marks.shows⟩

/-- A comma of the call before, at the end of its line. -/
theorem calls_mark_comma :
    let text := "x,\r\na ,\r\n "
    let fault : ParseFault := ⟨.missingExpression, ⟨6, 2, 3⟩, text⟩
    ((ofText ⟨true, .coerce⟩ text).afterCalls 2).next.1 = .error (.parse fault) ∧
      fault.Shows "a ,".toList ',' := by
  intro text fault
  have failed : ((ofText ⟨true, .coerce⟩ text).afterCalls 2).next.1 = .error (.parse fault) :=
    eq_error_of_parseFault? (by decide +kernel)
  obtain ⟨-, -, -, c, here, -, shows⟩ := calls_mark .coerce text 2 failed
  have comma : text.toList[6]? = some ',' := by decide +kernel
  cases here.symm.trans comma
  have line : ParseFault.shownLine text.toList 6 = "a ,".toList := by decide +kernel
  exact ⟨failed, line ▸ shows⟩

/-- A carriage return at the very end of the text stays in the line that is shown. -/
theorem last_line_keeps_return :
    let text := "a b\r"
    let fault : ParseFault := ⟨.missingSeparator, ⟨2, 1, 3⟩, text⟩
    (ofText ⟨true, .coerce⟩ text).next.1 = .error (.parse fault) ∧
      Text.lineAt text.toList 2 = "a b\r".toList ∧
      Text.pieces (· == '\n') fault.renderWithLine.toList =
        [fault.render.toList, "a b\r".toList, "  ^".toList] ∧
      Text.pieces (· == '\n') fault.renderWithLine.toList ≠
        [fault.render.toList, ParseFault.withoutReturn (Text.lineAt text.toList 2),
          "  ^".toList] := by
  intro text fault
  have failed : (ofText ⟨true, .coerce⟩ text).next.1 = .error (.parse fault) :=
    eq_error_of_parseFault? (by decide +kernel)
  exact ⟨failed, by decide +kernel, by decide +kernel, by decide +kernel⟩

end Parser

end RowQuery
