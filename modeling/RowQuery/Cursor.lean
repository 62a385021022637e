import RowQuery.Position
import RowQuery.Text.Blank

/-!
A cursor in a text. Main statements: moving forward drops characters from what is left, moving twice
is moving once, and going back to where a cursor was undoes all moves since.
-/

namespace RowQuery

/-- A text, a place in it, and what is left of the text from there. -/
structure Cursor where
  text : List Char
  position : Position
  rest : List Char
  rest_eq : rest = text.drop position.offset

namespace Cursor

/-- The cursor at the start of a text. -/
def ofText (text : String) : Cursor :=
  ⟨text.toList, .start, text.toList, rfl⟩

/-- The cursor after some more characters, or at the end if there are fewer. -/
def skip (count : Nat) (c : Cursor) : Cursor where
  text := c.text
  position := c.position.afterAll (c.rest.take count)
  rest := c.rest.drop count
  rest_eq := by
    rw [Position.offset_afterAll, List.length_take, ← List.drop_drop, ← c.rest_eq]
    by_cases enough : count ≤ c.rest.length
    · rw [Nat.min_eq_left enough]
    · rw [Nat.min_eq_right (by omega), List.drop_length, List.drop_eq_nil_of_le (by omega)]

@[simp] theorem rest_skip (count : Nat) (c : Cursor) : (c.skip count).rest = c.rest.drop count :=
  rfl

theorem ext_of {c d : Cursor} (text : c.text = d.text) (position : c.position = d.position) :
    c = d := by
  obtain ⟨cText, cPosition, cRest, cEq⟩ := c
  obtain ⟨dText, dPosition, dRest, dEq⟩ := d
  simp only at text position
  subst text position cEq dEq
  rfl

theorem skip_skip (first second : Nat) (c : Cursor) :
    (c.skip first).skip second = c.skip (first + second) := by
  refine ext_of rfl ?_
  simp only [skip, Position.afterAll, List.take_add, List.foldl_append]

theorem skip_zero (c : Cursor) : c.skip 0 = c :=
  ext_of rfl rfl

theorem offset_skip (count : Nat) (c : Cursor) :
    (c.skip count).position.offset = c.position.offset + min count c.rest.length := by
  rw [skip, Position.offset_afterAll, List.length_take]

@[simp] theorem text_skip (count : Nat) (c : Cursor) : (c.skip count).text = c.text :=
  rfl

/-- The cursor at another place of the text. -/
def moveTo (position : Position) (c : Cursor) : Cursor :=
  ⟨c.text, position, c.text.drop position.offset, rfl⟩

theorem moveTo_skip (count : Nat) (c : Cursor) : (c.skip count).moveTo c.position = c :=
  ext_of rfl rfl

/-- The character at the cursor. -/
def peek (c : Cursor) : Option Char :=
  c.rest.head?

/-- The character at the cursor, which moves past it. -/
def advance (c : Cursor) : Option Char × Cursor :=
  (c.peek, c.skip 1)

/-- Whether two characters are equal, the case of ASCII letters aside. -/
def sameLetter (a b : Char) : Bool :=
  a.toLower == b.toLower

/-- Moves past the given character in either case, if it stands at the cursor. -/
def eat (expected : Char) (c : Cursor) : Bool × Cursor :=
  match c.peek with
  | some found => if sameLetter found expected then (true, c.skip 1) else (false, c)
  | none => (false, c)

/-- The cursor after all characters that satisfy a test. -/
def skipWhile (test : Char → Bool) (c : Cursor) : Cursor :=
  c.skip (c.rest.takeWhile test).length

/-- The cursor after any blanks. -/
def skipBlanks (c : Cursor) : Cursor :=
  c.skipWhile Text.isBlank

theorem rest_skipWhile (test : Char → Bool) (c : Cursor) :
    (c.skipWhile test).rest = c.rest.dropWhile test := by
  have whole : c.rest.takeWhile test ++ c.rest.dropWhile test = c.rest :=
    List.takeWhile_append_dropWhile
  rw [skipWhile, rest_skip]
  exact (congrArg (List.drop _) whole.symm).trans List.drop_left

/-- The characters of the text from one offset to another. -/
def slice (first last : Nat) (c : Cursor) : List Char :=
  (c.text.take last).drop first

end Cursor

end RowQuery
