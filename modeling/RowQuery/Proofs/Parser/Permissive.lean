import RowQuery.Proofs.Parser.Acceptance
import RowQuery.Proofs.Parser.Lockstep

/-!
# Permissive readings

What a strict reading accepts, the permissive one reads in the same way (`Reads.permissive`). Past a
recovery only the argument of an aggregate call depends on where it started: if nothing closes the
call after the name, its column is the raw text up to the next closing parenthesis
(`argument_permissive`).
-/

namespace RowQuery

theorem Cursor.slice_skip (c : Cursor) (count more other : Nat) :
    (c.skip other).slice c.position.offset ((c.skip count).position.offset + more) =
      c.rest.take count ++ (c.rest.drop count).take more := by
  have offset : (c.skip count).position.offset =
      c.position.offset + (c.rest.take count).length := Position.offset_afterAll ..
  have whole : c.rest.take count ++ c.rest.drop count = c.rest := List.take_append_drop ..
  have before : c.rest.take (c.rest.take count).length = c.rest.take count :=
    (congrArg (List.take _) whole.symm).trans List.take_left
  have after : c.rest.drop (c.rest.take count).length = c.rest.drop count :=
    (congrArg (List.drop _) whole.symm).trans List.drop_left
  rw [slice, text_skip, List.drop_take, ← c.rest_eq, offset, Nat.add_assoc,
    Nat.add_sub_cancel_left, List.take_add, before, after]

end RowQuery

namespace RowQuery.Scan

open Text (isBlank trimChars)
open Lookahead Grammar

section
variable {α β : Type} {c : Cursor} {left : List Char}

/-! ## Strict and permissive -/

theorem Reads.unique {reading : Scan α} {value other : α} {left left' : List Char}
    (one : Reads reading c value left) (two : Reads reading c other left') :
    other = value ∧ left' = left := by
  obtain ⟨last, reached, rfl⟩ := one
  obtain ⟨last', reached', rfl⟩ := two
  cases reached.symm.trans reached'
  exact ⟨rfl, rfl⟩

theorem Reads.permissive {strict permissive : Scan α} (lockstep : Lockstep strict permissive)
    {value : α} (here : Reads strict c value left) : Reads permissive c value left := by
  obtain ⟨last, reached, rfl⟩ := here
  rcases (lockstep c).agrees with same | ⟨fault, stop, failed⟩
  · exact ⟨last, same.symm.trans reached, rfl⟩
  · cases reached.symm.trans failed

theorem recover_permissive (position : Position) (cause : ParseCause) :
    recover false position cause = pure () :=
  rfl

theorem reads_get_bind {next : Cursor → Scan α} {result : α} :
    Reads (get >>= next) c result left ↔ Reads (next c) c result left :=
  Iff.rfl

theorem reads_bind_of_ok {first : Scan α} {second : α → Scan β} {value : α} {middle : Cursor}
    {result : β} (reached : first c = .ok value middle) :
    Reads (first >>= second) c result left ↔ Reads (second value) middle result left := by
  rw [Reads, bind_of_ok reached, Reads]

/-- A permissive reading accepts a value as the strict one does if it gives the value only where the
strict one does not recover. -/
theorem reads_permissive_iff {strict permissive : Scan α} (lockstep : Lockstep strict permissive)
    {value : α} {accepts : Prop} {rest : List Char}
    (strictly : ∀ left, Reads strict c value left ↔ accepts ∧ left = rest)
    (only : ∀ left, Reads permissive c value left → accepts) :
    Reads permissive c value left ↔ accepts ∧ left = rest := by
  constructor
  · intro here
    have accepted := only _ here
    have read := ((strictly rest).mpr ⟨accepted, rfl⟩).permissive lockstep
    exact ⟨accepted, (read.unique here).2⟩
  · rintro ⟨accepted, rfl⟩
    exact ((strictly left).mpr ⟨accepted, rfl⟩).permissive lockstep

/-! ## Readings that always succeed -/

def Succeeds (reading : Scan α) : Prop :=
  ∀ c, ∃ value count, reading c = .ok value (c.skip count)

theorem Succeeds.bind {first : Scan α} {second : α → Scan β} (start : Succeeds first)
    (next : ∀ value, Succeeds (second value)) : Succeeds (first >>= second) := by
  intro c
  obtain ⟨value, count, reached⟩ := start c
  obtain ⟨result, more, reached'⟩ := next value (c.skip count)
  rw [Cursor.skip_skip] at reached'
  exact ⟨result, count + more, (bind_of_ok reached).trans reached'⟩

theorem succeeds_pure (value : α) : Succeeds (pure value : Scan α) :=
  fun c => ⟨value, 0, by rw [Cursor.skip_zero]; rfl⟩

theorem succeeds_rest : Succeeds rest :=
  fun c => ⟨c.rest, 0, by rw [Cursor.skip_zero]; rfl⟩

theorem succeeds_position : Succeeds position :=
  fun c => ⟨c.position, 0, by rw [Cursor.skip_zero]; rfl⟩

theorem succeeds_skip (count : Nat) : Succeeds (skip count) :=
  fun _ => ⟨(), count, rfl⟩

theorem succeeds_bareName (inCall : Bool) : Succeeds (bareName inCall) :=
  succeeds_rest.bind fun _ => (succeeds_skip _).bind fun _ => succeeds_pure _

theorem succeeds_quotedName (opening : Char) : Succeeds (quotedName false opening) := by
  refine succeeds_position.bind fun _ => succeeds_rest.bind fun _ => (succeeds_skip _).bind
    fun _ => ?_
  split
  · exact (succeeds_pure _).bind fun _ => succeeds_pure _
  · exact (succeeds_pure _).bind fun _ => succeeds_pure _

theorem succeeds_distinct : Succeeds distinct := by
  rw [distinct_eq]
  refine succeeds_rest.bind fun _ => ?_
  split
  · exact (succeeds_skip _).bind fun _ => succeeds_pure _
  · exact succeeds_pure _

theorem succeeds_argumentName : Succeeds (argumentName false) := by
  refine succeeds_rest.bind fun _ => ?_
  split
  · exact (succeeds_skip _).bind fun _ => succeeds_pure _
  · split
    · exact succeeds_quotedName _
    · exact succeeds_bareName _
  · exact succeeds_bareName _

/-! ## Names and calls -/

theorem closing_not_mem_of_quotedName {opening : Char} {name : String}
    (here : Reads (quotedName false opening) c name left) : Name.closing opening ∉ name.toList := by
  have within : name.toList = c.rest.tail.takeWhile (· != Name.closing opening) := by
    rw [quotedName, reads_position_bind, reads_rest_bind, reads_skip_bind] at here
    simp only [recover_permissive, pure_bind, ite_self, reads_pure] at here
    rw [here.1, String.toList_ofList, quoted]
    split <;> rfl
  intro member
  rw [within] at member
  simpa using mem_takeWhile _ _ _ member

/-- How a permissive call goes on after the name of its column: it is closed, or the name is the raw
text up to the next closing parenthesis. -/
inductive Closes (taken : List Char) (column : String × Bool) :
    List Char → String × Bool → List Char → Prop
  | here {rest : List Char} : Closes taken column (')' :: rest) column rest
  | later {body rest : List Char} :
      (body ++ rest).head? ≠ some ')' → ')' ∉ body → (∀ c ∈ rest.head?, c = ')') →
      Closes taken column (body ++ rest) (String.ofList (trimChars (taken ++ body)), false)
        rest.tail

theorem closes_of_unclosed {taken text : List Char} {column : String × Bool}
    (unclosed : text.head? ≠ some ')') :
    Closes taken column text
      (String.ofList (trimChars (taken ++ text.take (text.takeWhile (· != ')')).length)), false)
      (text.drop ((text.takeWhile (· != ')')).length + 1)) := by
  have whole : text.takeWhile (· != ')') ++ text.dropWhile (· != ')') = text :=
    List.takeWhile_append_dropWhile
  have body : text.take (text.takeWhile (· != ')')).length = text.takeWhile (· != ')') :=
    (congrArg (List.take _) whole.symm).trans List.take_left
  have within : ')' ∉ text.takeWhile (· != ')') :=
    fun member => by simpa using mem_takeWhile _ _ _ member
  have closing : ∀ c ∈ (text.dropWhile (· != ')')).head?, c = ')' :=
    fun c first => by simpa using head?_dropWhile _ _ c first
  have closes : Closes taken column _ _ _ := .later (whole.symm ▸ unclosed) within closing
  rw [whole] at closes
  rwa [body, ← List.drop_drop, drop_length_takeWhile, List.drop_one]

theorem argument_permissive (opening : Position) (c : Cursor) :
    ∃ (flag : Bool) (modified : Cursor) (name : String) (taken named left : List Char)
      (result : String × Bool),
      Reads distinct c.skipBlanks flag modified.rest ∧
      Reads (argumentName false) modified.skipBlanks name named ∧
      c.rest = taken ++ named.dropWhile isBlank ∧
      Closes taken (name, flag) (named.dropWhile isBlank) result left ∧
      Reads (argument false opening) c result left := by
  obtain ⟨flag, moved, modifier⟩ := succeeds_distinct c.skipBlanks
  obtain ⟨name, length, column⟩ := succeeds_argumentName (c.skipBlanks.skip moved).skipBlanks
  obtain ⟨count, after⟩ : ∃ count,
      ((c.skipBlanks.skip moved).skipBlanks.skip length).skipBlanks = c.skip count := by
    simp only [Cursor.skipBlanks, Cursor.skipWhile, Cursor.skip_skip]
    exact ⟨_, rfl⟩
  have follows : ((c.skipBlanks.skip moved).skipBlanks.skip length).rest.dropWhile isBlank =
      c.rest.drop count := by
    rw [← rest_skipBlanks, after, Cursor.rest_skip]
  suffices ∃ left result, Closes (c.rest.take count) (name, flag) (c.rest.drop count) result left ∧
      Reads (argument false opening) c result left by
    obtain ⟨left, result, closes, read⟩ := this
    refine ⟨flag, _, name, c.rest.take count, _, left, result, ⟨_, modifier, rfl⟩,
      ⟨_, column, rfl⟩, ?_, follows.symm ▸ closes, read⟩
    rw [follows, List.take_append_drop]
  simp only [argument, reads_position_bind, reads_skipBlanks_bind, reads_bind_of_ok modifier,
    reads_bind_of_ok column, after, reads_rest_bind]
  split
  · rename_i closed
    obtain ⟨rest, starts⟩ := List.head?_eq_some_iff.mp closed
    rw [Cursor.rest_skip] at starts
    refine ⟨rest, (name, flag), starts ▸ .here, ?_⟩
    rw [reads_skip_bind, reads_pure, Cursor.rest_skip, Cursor.rest_skip, starts]
    exact ⟨rfl, rfl⟩
  · rename_i unclosed
    simp only [reads_position_bind, reads_skip_bind, recover_permissive, pure_bind, ite_self,
      reads_get_bind, reads_pure, Cursor.skip_skip, Cursor.slice_skip, Cursor.rest_skip]
    rw [Cursor.rest_skip] at unclosed
    exact ⟨_, _, closes_of_unclosed unclosed, rfl, List.drop_drop ..⟩

end

end RowQuery.Scan

namespace RowQuery.Parser

open Grammar (Blanks)

/-! ## The next expression -/

theorem atNext_eq_of_blanks {p : Parser} {rest : List Char} (blanks : Blanks p.cursor.rest rest)
    (other : rest.head? ≠ some ',') : p.atNext.rest = rest := by
  obtain ⟨before, whole, within, ends⟩ := blanks
  rw [atNext, Cursor.rest_skipWhile]
  refine (Grammar.eq_takeWhile_append _ whole (fun c member => ?_) fun c first => ?_).2.symm
  · simp [within c member]
  · have visible : ¬ Text.isBlank c := ends c first
    have no_comma : c ≠ ',' := by
      rintro rfl
      exact other first
    simp [visible, no_comma]

theorem drain_of_atNext_nil {p : Parser} (permissive : p.settings.strict = false)
    (alive : p.failed = false) (none_left : p.atNext.rest = []) : p.drain.1 = [] := by
  have reached : p.next.1 = .ok none := by
    rw [next, none_left]
    cases p.pendingComma <;> simp [permissive]
  exact drain_of_next_none alive (Prod.ext reached rfl)

theorem drain_of_blanks {p : Parser} (permissive : p.settings.strict = false)
    (alive : p.failed = false) (blanks : Blanks p.cursor.rest []) : p.drain.1 = [] :=
  drain_of_atNext_nil permissive alive (atNext_eq_of_blanks blanks (by simp))

end RowQuery.Parser
