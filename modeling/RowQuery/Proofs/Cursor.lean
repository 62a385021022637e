import RowQuery.Proofs.Position

/-!
# The places that a cursor comes to

A cursor carries its line and column along and jumps back to places marked before. Whatever is done
with it, each of its places is the one after the first characters of the text, and so are its marks:
the offset determines line and column, and between two offsets the text is cut where the places
are (`places_by_offset`).
-/

namespace RowQuery

namespace Cursor

variable {c : Cursor} {marks : List Position}

/-! ## One call -/

theorem in_skip (here : c.position.In c.text) (count : Nat) :
    (c.skip count).position.In c.text :=
  ⟨Within.skip here.1 count, Placed.skip here.2 count⟩

theorem in_eat (here : c.position.In c.text) (expected : Char) :
    (c.eat expected).2.text = c.text ∧ (c.eat expected).2.position.In c.text := by
  unfold eat
  split
  · split
    · exact ⟨rfl, in_skip here 1⟩
    · exact ⟨rfl, here⟩
  · exact ⟨rfl, here⟩

/-! ## Runs -/

/-- A cursor after some calls, with the places that were marked since its text was set, to which it
can go back. Looking at the next character changes neither. -/
inductive Reached : Cursor → List Position → Prop
  | ofText (text : String) : Reached (ofText text) []
  | advance {c : Cursor} {marks : List Position} (reached : Reached c marks) :
      Reached c.advance.2 marks
  | eat {c : Cursor} {marks : List Position} (reached : Reached c marks) (expected : Char) :
      Reached (c.eat expected).2 marks
  | skipBlanks {c : Cursor} {marks : List Position} (reached : Reached c marks) :
      Reached c.skipBlanks marks
  | mark {c : Cursor} {marks : List Position} (reached : Reached c marks) :
      Reached c (c.position :: marks)
  | rewind {c : Cursor} {marks : List Position} {place : Position} (reached : Reached c marks)
      (marked : place ∈ marks) : Reached (c.moveTo place) marks
  | reset {c : Cursor} {marks : List Position} (reached : Reached c marks) (text : String) :
      Reached (.ofText text) []

theorem Reached.places (reached : Reached c marks) :
    c.position.In c.text ∧ ∀ place ∈ marks, place.In c.text := by
  induction reached with
  | ofText text => exact ⟨Position.in_start _, nofun⟩
  | advance _ ih => exact ⟨in_skip ih.1 1, ih.2⟩
  | eat _ expected ih =>
      obtain ⟨text, here⟩ := in_eat ih.1 expected
      rw [text]
      exact ⟨here, ih.2⟩
  | skipBlanks _ ih => exact ⟨in_skip ih.1 _, ih.2⟩
  | mark _ ih => exact ⟨ih.1, List.forall_mem_cons.mpr ih⟩
  | rewind _ marked ih => exact ⟨ih.2 _ marked, ih.2⟩
  | reset _ text => exact ⟨Position.in_start _, nofun⟩

/-- The characters from one offset to another, neither beyond the end, are cut out of the text. -/
theorem exists_slice (c : Cursor) {first last : Nat} (order : first ≤ last)
    (within : last ≤ c.text.length) : ∃ before after,
      c.text = before ++ c.slice first last ++ after ∧ before.length = first ∧
        (c.slice first last).length = last - first := by
  refine ⟨c.text.take first, c.text.drop last, ?_, List.length_take_of_le (order.trans within), ?_⟩
  · have front := List.take_append_drop first (c.text.take last)
    rw [List.take_take, Nat.min_eq_left order] at front
    rw [slice, front, List.take_append_drop]
  · rw [slice, List.length_drop, List.length_take_of_le within]

/-- Whatever is done with a cursor, its place and its marks lie within the text, and line and column
count the characters before them. Of two places on one text, in whatever runs, the offsets tell
whether they differ, and a slice from one to the other holds the characters between them. -/
theorem places_by_offset (reached : Reached c marks) :
    (∀ p ∈ c.position :: marks, p.offset ≤ c.text.length ∧
      p.line = 1 + (c.text.take p.offset).count '\n' ∧
      p.column = 1 + (Text.lastLine (c.text.take p.offset)).length) ∧
    ∀ d others, Reached d others → d.text = c.text →
      ∀ p ∈ c.position :: marks, ∀ q ∈ d.position :: others,
        (p.offset = q.offset → p = q) ∧
        (p.offset ≤ q.offset → ∃ before after,
          c.text = before ++ c.slice p.offset q.offset ++ after ∧ before.length = p.offset ∧
            (c.slice p.offset q.offset).length = q.offset - p.offset) := by
  have places : ∀ p ∈ c.position :: marks, p.In c.text := List.forall_mem_cons.mpr reached.places
  refine ⟨fun p here => ⟨(places p here).1, (places p here).counts⟩,
    fun d others reached' text p here q there => ?_⟩
  have places' : ∀ q ∈ d.position :: others, q.In c.text :=
    text ▸ List.forall_mem_cons.mpr reached'.places
  exact ⟨(places p here).eq_of_offset (places' q there),
    fun order => c.exists_slice order (places' q there).1⟩

/-- A run over three lines that goes back to its mark. -/
theorem places_by_offset_lines :
    let passed := ((ofText "é\n\n ß,x").advance.2.skipBlanks.eat 'ß').2
    let back := passed.moveTo ⟨1, 1, 2⟩
    Reached back [⟨1, 1, 2⟩] ∧ Reached passed [⟨1, 1, 2⟩] ∧ passed.position = ⟨5, 3, 3⟩ ∧
      back.slice 1 5 = ['\n', '\n', ' ', 'ß'] ∧
      ∃ before after, back.text = before ++ back.slice 1 5 ++ after ∧ before.length = 1 := by
  intro passed back
  have marked : Reached (ofText "é\n\n ß,x").advance.2 [⟨1, 1, 2⟩] :=
    (Reached.ofText "é\n\n ß,x").advance.mark
  have later : Reached passed [⟨1, 1, 2⟩] := marked.skipBlanks.eat 'ß'
  have returned : Reached back [⟨1, 1, 2⟩] := later.rewind List.mem_cons_self
  have place : passed.position = ⟨5, 3, 3⟩ := by decide +kernel
  obtain ⟨-, between⟩ := (places_by_offset returned).2 passed _ later rfl ⟨1, 1, 2⟩
    List.mem_cons_self ⟨5, 3, 3⟩ (place ▸ List.mem_cons_self)
  obtain ⟨before, after, whole, length, -⟩ := between (by decide)
  exact ⟨returned, later, place, by decide +kernel, before, after, whole, length⟩

end Cursor

end RowQuery
