import Mathlib.Data.List.Induction
import Mathlib.Data.List.TakeWhile
import RowQuery.Cursor

/-!
# Lines and columns

The line of a place counts the line feeds before it, and its column the characters after the last of
them (`line_afterAll`, `column_afterAll`).
-/

namespace RowQuery

namespace Text

/-- The characters after the last line feed. -/
def lastLine (chars : List Char) : List Char :=
  (chars.reverse.takeWhile (· != '\n')).reverse

/-- The line that an offset of a text lies in. -/
def lineAt (text : List Char) (offset : Nat) : List Char :=
  lastLine (text.take offset) ++ (text.drop offset).takeWhile (· != '\n')

theorem lastLine_append_singleton (chars : List Char) (c : Char) :
    lastLine (chars ++ [c]) = if c = '\n' then [] else lastLine chars ++ [c] := by
  by_cases feed : c = '\n' <;> simp [lastLine, feed]

theorem lineFeed_not_mem_takeWhile (chars : List Char) :
    '\n' ∉ chars.takeWhile (· != '\n') := by
  intro member
  simpa using List.mem_takeWhile_imp member

theorem lineFeed_not_mem_lastLine (chars : List Char) : '\n' ∉ lastLine chars := by
  rw [lastLine, List.mem_reverse]
  exact lineFeed_not_mem_takeWhile chars.reverse

/-- Either all characters are of one line, or a line feed comes before the last line. -/
theorem eq_lastLine_or (chars : List Char) :
    chars = lastLine chars ∧ chars.count '\n' = 0 ∨
      ∃ first, chars = first ++ '\n' :: lastLine chars ∧
        chars.count '\n' = first.count '\n' + 1 := by
  induction chars using List.reverseRecOn with
  | nil => exact .inl ⟨rfl, rfl⟩
  | append_singleton chars c ih =>
      rw [lastLine_append_singleton]
      by_cases feed : c = '\n'
      · exact .inr ⟨chars, by simp [feed], by simp [feed]⟩
      · rw [if_neg feed]
        rcases ih with ⟨whole, none⟩ | ⟨first, whole, count⟩
        · exact .inl ⟨by rw [← whole], by simp [none, feed]⟩
        · refine .inr ⟨first, ?_, by simp [count, feed]⟩
          rw [← List.cons_append, ← List.append_assoc, ← whole]

end Text

namespace Position

theorem afterAll_append (p : Position) (first second : List Char) :
    p.afterAll (first ++ second) = (p.afterAll first).afterAll second :=
  List.foldl_append

theorem line_afterAll (chars : List Char) :
    (start.afterAll chars).line = 1 + chars.count '\n' := by
  induction chars using List.reverseRecOn with
  | nil => rfl
  | append_singleton chars c ih =>
      have last : start.afterAll (chars ++ [c]) = (start.afterAll chars).after c :=
        afterAll_append ..
      rw [last, after]
      by_cases feed : c = '\n' <;> simp [feed, ih, Nat.add_assoc]

theorem column_afterAll (chars : List Char) :
    (start.afterAll chars).column = 1 + (Text.lastLine chars).length := by
  induction chars using List.reverseRecOn with
  | nil => rfl
  | append_singleton chars c ih =>
      have last : start.afterAll (chars ++ [c]) = (start.afterAll chars).after c :=
        afterAll_append ..
      rw [last, after, Text.lastLine_append_singleton]
      by_cases feed : c = '\n' <;> simp [feed, ih, Nat.add_assoc]

theorem offset_start_afterAll (chars : List Char) :
    (start.afterAll chars).offset = chars.length := by
  rw [offset_afterAll]
  exact Nat.zero_add _

/-- A place within a text or at its end: the one after its first characters. -/
def In (text : List Char) (p : Position) : Prop :=
  p.offset ≤ text.length ∧ p = start.afterAll (text.take p.offset)

theorem in_start (text : List Char) : start.In text :=
  ⟨Nat.zero_le _, rfl⟩

theorem In.counts {text : List Char} {p : Position} (place : p.In text) :
    p.line = 1 + (text.take p.offset).count '\n' ∧
      p.column = 1 + (Text.lastLine (text.take p.offset)).length :=
  ⟨(congrArg line place.2).trans (line_afterAll _),
    (congrArg column place.2).trans (column_afterAll _)⟩

/-- The offset determines the place. -/
theorem In.eq_of_offset {text : List Char} {p q : Position} (first : p.In text)
    (second : q.In text) (same : p.offset = q.offset) : p = q := by
  rw [first.2, second.2, same]

/-- A place of a text at which a character stands that is not blank. -/
def Marks (text : List Char) (p : Position) : Prop :=
  ∃ before c after, text = before ++ c :: after ∧ Text.isBlank c = false ∧ p = start.afterAll before

theorem Marks.in_text {text : List Char} {p : Position} (marks : p.Marks text) : p.In text := by
  obtain ⟨before, c, after, rfl, -, rfl⟩ := marks
  rw [In, offset_start_afterAll, List.take_left]
  exact ⟨List.length_append ▸ Nat.le_add_right _ _, rfl⟩

theorem Marks.counts {text : List Char} {p : Position} (marks : p.Marks text) :
    p.line = 1 + (text.take p.offset).count '\n' ∧
      p.column = 1 + (Text.lastLine (text.take p.offset)).length :=
  marks.in_text.counts

end Position

namespace Cursor

variable {c : Cursor}

/-- The place of a cursor is the one after all characters before it. -/
def Placed (c : Cursor) : Prop :=
  c.position = .afterAll .start (c.text.take c.position.offset)

theorem placed_ofText (text : String) : (ofText text).Placed :=
  rfl

theorem Placed.skip (placed : c.Placed) (count : Nat) : (c.skip count).Placed := by
  have taken : c.rest.take (c.rest.take count).length = c.rest.take count := by
    rw [List.take_eq_take_iff, List.length_take]
    omega
  rw [Placed, Cursor.skip, Position.offset_afterAll, List.take_add, ← c.rest_eq, taken,
    Position.afterAll_append, ← placed]

/-- The cursor stands in its text or at the end of it. -/
def Within (c : Cursor) : Prop :=
  c.position.offset ≤ c.text.length

theorem within_ofText (text : String) : (ofText text).Within :=
  Nat.zero_le _

theorem length_rest (c : Cursor) : c.rest.length = c.text.length - c.position.offset := by
  rw [c.rest_eq, List.length_drop]

theorem Within.skip (within : c.Within) (count : Nat) : (c.skip count).Within := by
  have left := c.length_rest
  rw [Within] at within ⊢
  rw [offset_skip, text_skip]
  omega

theorem Within.offset_of_rest_nil (within : c.Within) (ended : c.rest = []) :
    c.position.offset = c.text.length := by
  have left := c.length_rest
  rw [ended, List.length_nil] at left
  rw [Within] at within
  omega

theorem Placed.marks {first : Char} {others : List Char} (placed : c.Placed)
    (starts : c.rest = first :: others) (visible : Text.isBlank first = false) :
    c.position.Marks c.text := by
  refine ⟨c.text.take c.position.offset, first, others, ?_, visible, placed⟩
  rw [← starts, c.rest_eq, List.take_append_drop]

end Cursor

end RowQuery
