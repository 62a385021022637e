import RowQuery.Fault
import RowQuery.Proofs.Decimal
import RowQuery.Proofs.Json.Lines
import RowQuery.Proofs.Position

/-!
# Faults with their line

A fault at a character of a text is shown as three lines: its message, the line of the character and
a mark under the character (`ParseFault.Marks.shows`). Lines are counted by line feeds, while the
line that is shown loses the carriage return before its line feed.
-/

namespace RowQuery

namespace Text

section
variable {α : Type} {separates : α → Bool}

theorem pieces_of_none {list : List α} (none : ∀ x ∈ list, separates x = false) :
    pieces separates list = [list] := by
  have cut := pieces_append none (rfl : pieces separates [] = [] :: [])
  rwa [List.append_nil] at cut

theorem pieces_append_cons (first : List α) {x : α} (second : List α) (here : separates x = true) :
    pieces separates (first ++ x :: second) =
      pieces separates first ++ pieces separates second := by
  induction first with
  | nil => simp [pieces, here]
  | cons y first ih =>
      obtain ⟨piece, others, cut⟩ := exists_pieces separates first
      rw [List.cons_append, pieces, ih, pieces, cut]
      split <;> rfl

theorem length_pieces (separates : α → Bool) (list : List α) :
    (pieces separates list).length = list.countP separates + 1 := by
  induction list with
  | nil => rfl
  | cons x list ih =>
      obtain ⟨piece, others, cut⟩ := exists_pieces separates list
      rw [cut, List.length_cons] at ih
      by_cases here : separates x = true <;> simp_all [pieces]

end

theorem pieces_append_lineFeed (first second : List Char) :
    pieces (· == '\n') (first ++ '\n' :: second) =
      pieces (· == '\n') first ++ pieces (· == '\n') second :=
  pieces_append_cons first second rfl

theorem pieces_of_feedless {line : List Char} (feedless : '\n' ∉ line) :
    pieces (· == '\n') line = [line] :=
  pieces_of_none fun _ member => beq_eq_false_iff_ne.mpr fun feed => feedless (feed ▸ member)

theorem toList_pushn (c : Char) (n : Nat) : ("".pushn c n).toList = List.replicate n c := by
  induction n with
  | zero => rfl
  | succ n ih =>
      have last : "".pushn c (n + 1) = ("".pushn c n).push c := rfl
      rw [last, String.toList_push, ih, List.replicate_succ']

end Text

namespace ParseFault

variable {text : List Char} {fault : ParseFault}

/-- The line at an offset as it is shown: without the carriage return before its line feed. -/
def shownLine (text : List Char) (offset : Nat) : List Char :=
  if '\n' ∈ text.drop offset then withoutReturn (Text.lineAt text offset)
  else Text.lineAt text offset

/-- The first line of what is left of a text, and whether there are more. -/
theorem exists_pieces_of_line {line : List Char} (feedless : '\n' ∉ line) (after : List Char) :
    ∃ below, Text.pieces (· == '\n') (line ++ after.dropWhile (· != '\n')) = line :: below ∧
      (below = [] ↔ '\n' ∉ after) := by
  cases later : after.dropWhile (· != '\n') with
  | nil =>
      have none : '\n' ∉ after := by
        simpa using fun feed => List.dropWhile_eq_nil_iff.mp later '\n' feed
      exact ⟨[], by rw [List.append_nil, Text.pieces_of_feedless feedless], by simp [none]⟩
  | cons d later' =>
      have feed : d = '\n' := by
        have stops := List.head?_dropWhile_not (· != '\n') after
        rw [later] at stops
        simpa using stops
      subst feed
      obtain ⟨piece, others, cut⟩ := Text.exists_pieces (· == '\n') later'
      have member : '\n' ∈ after := List.dropWhile_sublist _ |>.subset (later ▸ List.mem_cons_self)
      refine ⟨piece :: others, ?_, by simp [member]⟩
      rw [Text.pieces_append_lineFeed, Text.pieces_of_feedless feedless, cut]
      rfl

/-- The pieces of a text around a character that is no line feed. -/
theorem exists_pieces_eq (before after : List Char) {c : Char} (other : c ≠ '\n') :
    ∃ above below, Text.pieces (· == '\n') (before ++ c :: after) =
        above ++ (Text.lastLine before ++ c :: after.takeWhile (· != '\n')) :: below ∧
      above.length = before.count '\n' ∧ (below = [] ↔ '\n' ∉ after) := by
  let line := Text.lastLine before ++ c :: after.takeWhile (· != '\n')
  have feedless : '\n' ∉ line := by
    rw [List.mem_append, List.mem_cons, not_or, not_or]
    exact ⟨Text.lineFeed_not_mem_lastLine before, Ne.symm other,
      Text.lineFeed_not_mem_takeWhile after⟩
  have rest : Text.lastLine before ++ c :: after = line ++ after.dropWhile (· != '\n') := by
    rw [List.append_assoc, List.cons_append, List.takeWhile_append_dropWhile]
  obtain ⟨below, cut, ended⟩ := exists_pieces_of_line feedless after
  rcases Text.eq_lastLine_or before with ⟨whole, none⟩ | ⟨first, whole, count⟩
  · refine ⟨[], below, ?_, none.symm, ended⟩
    rw [List.nil_append, ← cut, ← rest, ← whole]
  · refine ⟨Text.pieces (· == '\n') first, below, ?_, ?_, ended⟩
    · have text : before ++ c :: after =
          first ++ '\n' :: (line ++ after.dropWhile (· != '\n')) := by
        rw [← rest, ← List.cons_append, ← List.append_assoc, ← whole]
      rw [text, Text.pieces_append_lineFeed, cut]
    · rw [Text.length_pieces, count, List.count_eq_countP]

/-- Counted by line feeds, the line of a character is the line that is shown. -/
theorem getElem?_lines (before after : List Char) {c : Char} (other : c ≠ '\n') :
    (lines (before ++ c :: after))[before.count '\n']? =
      some (shownLine (before ++ c :: after) before.length) := by
  obtain ⟨above, below, cut, length, ended⟩ := exists_pieces_eq before after other
  have line : Text.lineAt (before ++ c :: after) before.length =
      Text.lastLine before ++ c :: after.takeWhile (· != '\n') := by
    rw [Text.lineAt, List.take_left, List.drop_left, List.takeWhile_cons_of_pos (by simpa using other)]
  rw [lines, cut, ← length, shownLine, line, List.drop_left]
  by_cases last : '\n' ∈ after
  · have more : below ≠ [] := fun none => ended.mp none last
    rw [if_pos (List.mem_cons_of_mem c last), List.dropLast_append_of_ne_nil (List.cons_ne_nil _ _),
      List.dropLast_cons_of_ne_nil more]
    simp
  · obtain rfl := ended.mpr last
    have feedless : '\n' ∉ c :: after := by simp [last, Ne.symm other]
    rw [if_neg feedless]
    simp

/-! ## What is shown -/

theorem isPrefix_withoutReturn (line : List Char) : withoutReturn line <+: line := by
  rw [withoutReturn]
  split
  · exact List.dropLast_prefix line
  · exact List.prefix_rfl

theorem isPrefix_shownLine (text : List Char) (offset : Nat) :
    shownLine text offset <+: Text.lineAt text offset := by
  rw [shownLine]
  split
  · exact isPrefix_withoutReturn _
  · exact List.prefix_rfl

theorem lineFeed_not_mem_shownLine (text : List Char) (offset : Nat) :
    '\n' ∉ shownLine text offset := by
  intro member
  rcases List.mem_append.mp ((isPrefix_shownLine text offset).subset member) with before | after
  · exact Text.lineFeed_not_mem_lastLine _ before
  · exact Text.lineFeed_not_mem_takeWhile _ after

/-- The carriage return that a line loses is never the character of a fault. -/
theorem withoutReturn_append {first others : List Char} {c : Char} (visible : c ≠ '\r') :
    ∃ kept, withoutReturn (first ++ c :: others) = first ++ c :: kept := by
  rw [withoutReturn]
  split
  · rename_i last
    cases others with
    | nil => exact absurd (by simpa using last) visible
    | cons d others =>
        exact ⟨(d :: others).dropLast, by rw [List.dropLast_append_of_ne_nil (by simp)]; rfl⟩
  · exact ⟨others, rfl⟩

theorem getElem?_shownLine (before after : List Char) {c : Char}
    (visible : Text.isBlank c = false) :
    (shownLine (before ++ c :: after) before.length)[(Text.lastLine before).length]? = some c := by
  have other : c ≠ '\n' := by rintro rfl; cases visible
  have other' : c ≠ '\r' := by rintro rfl; cases visible
  rw [shownLine, Text.lineAt, List.take_left, List.drop_left,
    List.takeWhile_cons_of_pos (by simpa using other)]
  split
  · obtain ⟨kept, shown⟩ := withoutReturn_append other'
    rw [shown, List.getElem?_append_right (Nat.le_refl _), Nat.sub_self]
    rfl
  · rw [List.getElem?_append_right (Nat.le_refl _), Nat.sub_self]
    rfl

theorem lineFeed_not_mem_render (message : '\n' ∉ fault.cause.message.toList) :
    '\n' ∉ fault.render.toList := by
  have number (n : Nat) : '\n' ∉ Nat.toDigits 10 n := fun member =>
    absurd (Numeral.isDigit_of_mem_digitChars member) (by decide)
  simp [render, Position.render, message, number]

/-- A fault at a character of a text that is not blank, with a message of one line. -/
structure Marks (text : List Char) (fault : ParseFault) : Prop where
  context : fault.context = String.ofList text
  position : fault.position.Marks text
  message : '\n' ∉ fault.cause.message.toList

/-- What a fault shows: its message, a line and a mark, in which the mark is under a character of the
line. -/
structure Shows (fault : ParseFault) (excerpt : List Char) (c : Char) : Prop where
  pieces : Text.pieces (· == '\n') fault.renderWithLine.toList =
    [fault.render.toList, excerpt, List.replicate (fault.position.column - 1) ' ' ++ ['^']]
  marked : excerpt[fault.position.column - 1]? = some c

theorem Marks.shows (marks : fault.Marks text) : ∃ c, text[fault.position.offset]? = some c ∧
    Text.isBlank c = false ∧ fault.Shows (shownLine text fault.position.offset) c := by
  obtain ⟨before, c, after, rfl, visible, position⟩ := marks.position
  have offset : fault.position.offset = before.length := by
    rw [position, Position.offset_start_afterAll]
  have column : fault.position.column - 1 = (Text.lastLine before).length := by
    rw [position, Position.column_afterAll, Nat.add_sub_cancel_left]
  have line : fault.position.line = before.count '\n' + 1 := by
    rw [position, Position.line_afterAll, Nat.add_comm]
  have other : c ≠ '\n' := by rintro rfl; cases visible
  have shown : fault.renderWithLine = fault.render ++ "\n" ++
      String.ofList (shownLine (before ++ c :: after) before.length) ++ "\n" ++
        "".pushn ' ' (fault.position.column - 1) ++ "^" := by
    rw [renderWithLine, line]
    simp only
    rw [marks.context, String.toList_ofList, getElem?_lines before after other]
  rw [offset]
  refine ⟨c, by simp, visible, ?_, column ▸ getElem?_shownLine before after visible⟩
  have chars : fault.renderWithLine.toList = fault.render.toList ++ '\n' ::
      (shownLine (before ++ c :: after) before.length ++ '\n' ::
        (List.replicate (fault.position.column - 1) ' ' ++ ['^'])) := by
    simp [shown, Text.toList_pushn]
  rw [chars, Text.pieces_append_lineFeed, Text.pieces_append_lineFeed,
    Text.pieces_of_feedless (lineFeed_not_mem_render marks.message),
    Text.pieces_of_feedless (lineFeed_not_mem_shownLine _ _), Text.pieces_of_feedless (by simp)]
  rfl

end ParseFault

end RowQuery
