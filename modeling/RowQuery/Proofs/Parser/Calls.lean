import Mathlib.Data.List.TakeWhile
import RowQuery.Proofs.Parser.Locality
import RowQuery.Proofs.Position

/-!
# Permissive reading comes to an end

While the text holds more than blanks and commas, each call for the next expression moves the cursor
on, to a place within the text, whether it gives an expression or a fault (`next_cases`). So however
malformed the text is, calls go on at most once for each of its characters before they find the end
(`calls_progress`).
-/

namespace RowQuery

namespace Parser

variable {p : Parser} {text : List Char}

/-! ## One call -/

theorem atNext_rest_eq_nil_iff (permissive : p.settings.strict = false) :
    p.atNext.rest = [] ↔ ∀ c ∈ p.cursor.rest, Text.isBlank c = true ∨ c = ',' := by
  rw [atNext, Cursor.rest_skipWhile, List.dropWhile_eq_nil_iff]
  simp [permissive]

/-- A call of the permissive parser stops at the end of the text, or it gives an expression or a
fault and takes at least one character for it. -/
theorem next_cases (permissive : p.settings.strict = false) :
    p.atNext.rest = [] ∧ p.next.1 = .ok none ∧ p.next.2.cursor = p.atNext ∨
      p.atNext.rest ≠ [] ∧ p.next.1 ≠ .ok none ∧
        ∃ count, p.next.2.cursor = p.atNext.skip (count + 1) := by
  cases starts : p.atNext.rest with
  | nil =>
      left
      rw [next, starts]
      cases p.pendingComma <;> simp [permissive]
  | cons first others =>
      right
      have other : first ≠ ',' := by simpa [starts] using head?_atNext permissive
      have takes := p.takes_item_atNext starts other
      cases read : Scan.item p.settings p.atNext with
      | ok result last =>
          have found : p.next =
              (.ok (some result.1), { p with cursor := last, pendingComma := result.2 }) := by
            simp [next, starts, other, read]
          rw [found]
          exact ⟨List.cons_ne_nil _ _, by simp, takes.ok read⟩
      | error fault last =>
          have found : p.next =
              (.error fault, { p with cursor := last, pendingComma := none }) := by
            simp [next, starts, other, read]
          rw [found]
          exact ⟨List.cons_ne_nil _ _, by simp, takes.error read⟩

theorem next_eq_none_iff (permissive : p.settings.strict = false) :
    p.next.1 = .ok none ↔ ∀ c ∈ p.cursor.rest, Text.isBlank c = true ∨ c = ',' := by
  rw [← atNext_rest_eq_nil_iff permissive]
  rcases next_cases permissive with ⟨ended, found, -⟩ | ⟨more, found, -⟩
  · exact iff_of_true found ended
  · exact iff_of_false found more

theorem exists_skip_next (permissive : p.settings.strict = false) :
    ∃ count, p.next.2.cursor = p.cursor.skip count := by
  rcases next_cases permissive with ⟨-, -, moved⟩ | ⟨-, -, count, moved⟩
  · exact ⟨_, moved⟩
  · exact ⟨_, moved.trans (Cursor.skip_skip ..)⟩

theorem offset_lt_next (permissive : p.settings.strict = false) (found : p.next.1 ≠ .ok none) :
    p.position.offset < p.next.2.position.offset := by
  rcases next_cases permissive with ⟨-, ended, -⟩ | ⟨more, -, count, moved⟩
  · exact absurd ended found
  · have before : p.position.offset ≤ p.atNext.position.offset := by
      rw [position, atNext, Cursor.skipWhile, Cursor.offset_skip]
      exact Nat.le_add_right ..
    have left : 0 < p.atNext.rest.length := List.length_pos_iff.mpr more
    have after : p.next.2.position.offset =
        p.atNext.position.offset + min (count + 1) p.atNext.rest.length := by
      rw [position, moved, Cursor.offset_skip]
    omega

/-- A permissive parser somewhere in a text. -/
structure Amid (text : List Char) (p : Parser) : Prop where
  permissive : p.settings.strict = false
  text : p.cursor.text = text
  within : p.cursor.Within

theorem Amid.rest (amid : p.Amid text) : p.cursor.rest = text.drop p.position.offset := by
  rw [p.cursor.rest_eq, amid.text, position]

theorem Amid.offset_le (amid : p.Amid text) : p.position.offset ≤ text.length :=
  amid.text ▸ amid.within

theorem Amid.offset_next_of_none (amid : p.Amid text) (found : p.next.1 = .ok none) :
    p.next.2.position.offset = text.length := by
  rcases next_cases amid.permissive with ⟨ended, -, moved⟩ | ⟨-, more, -⟩
  · rw [position, moved, ← amid.text]
    exact (amid.within.skip _).offset_of_rest_nil ended
  · exact absurd found more

theorem Amid.next (amid : p.Amid text) : p.next.2.Amid text := by
  obtain ⟨count, moved⟩ := exists_skip_next amid.permissive
  constructor
  · rw [settings_next, amid.permissive]
  · rw [moved, Cursor.text_skip, amid.text]
  · rw [moved]
    exact amid.within.skip count

/-! ## Any number of calls -/

/-- The parser after some calls for the next expression, whatever they gave. -/
def afterCalls : Nat → Parser → Parser
  | 0, p => p
  | count + 1, p => (afterCalls count p).next.2

theorem Amid.afterCalls (amid : p.Amid text) (count : Nat) : (p.afterCalls count).Amid text := by
  induction count with
  | zero => exact amid
  | succ count ih => exact ih.next

theorem Amid.min_le_offset (amid : p.Amid text) (count : Nat) :
    min count text.length ≤ (p.afterCalls count).position.offset := by
  induction count with
  | zero => simp
  | succ count ih =>
      have here := amid.afterCalls count
      rw [Parser.afterCalls]
      by_cases found : (p.afterCalls count).next.1 = .ok none
      · rw [here.offset_next_of_none found]
        exact Nat.min_le_right ..
      · have moved := offset_lt_next here.permissive found
        omega

/-- Each call of the permissive parser that gives an expression or a fault has moved the cursor on,
within the text. The other calls are those where only blanks and commas are left, and they put the
cursor at the end; after as many calls as the text has characters there are no others. -/
theorem calls_progress (rule : OperandRule) (text : String) :
    (∀ count,
      let p := (ofText ⟨false, rule⟩ text).afterCalls count
      let found := p.next.1
      let q := p.next.2
      (found = .ok none ↔
        ∀ c ∈ text.toList.drop p.position.offset, Text.isBlank c = true ∨ c = ',') ∧
      (found = .ok none → q.position.offset = text.length) ∧
      (found ≠ .ok none →
        p.position.offset < q.position.offset ∧ q.position.offset ≤ text.length) ∧
      ∀ fault, found = .error fault → fault.isArgument = true) ∧
    ∀ later, ((ofText ⟨false, rule⟩ text).afterCalls (text.length + later)).next.1 = .ok none := by
  have amid : (ofText ⟨false, rule⟩ text).Amid text.toList :=
    ⟨rfl, rfl, Cursor.within_ofText text⟩
  rw [← String.length_toList]
  constructor
  · intro count p found q
    have here : p.Amid text.toList := amid.afterCalls count
    refine ⟨?_, here.offset_next_of_none, ?_, fun fault => next_argument here.permissive⟩
    · rw [← here.rest]
      exact next_eq_none_iff here.permissive
    · intro more
      exact ⟨offset_lt_next here.permissive more, here.next.offset_le⟩
  · intro later
    have here := amid.afterCalls (text.toList.length + later)
    have far := amid.min_le_offset (text.toList.length + later)
    rw [Nat.min_eq_right (Nat.le_add_right ..)] at far
    have nothing_left := here.rest.trans (List.drop_eq_nil_of_le far)
    rw [next_eq_none_iff here.permissive, nothing_left]
    exact nofun

theorem calls_progress_malformed :
    let start := ofText ⟨false, .coerce⟩ "SUM(),,a'"
    let p := start.next.2
    let q := p.next.2
    (∃ fault, start.next.1 = .error fault ∧ fault.isArgument = true) ∧
      start.position.offset < p.position.offset ∧
      p.next.1 = .ok (some ⟨.column "a'", "", rfl⟩) ∧ p.position.offset < q.position.offset ∧
      q.next.1 = .ok none ∧ q.next.2.position.offset = 9 := by
  intro start p q
  obtain ⟨calls, -⟩ := calls_progress .coerce "SUM(),,a'"
  obtain ⟨-, -, moved, argument⟩ := calls 0
  obtain ⟨-, -, moved', -⟩ := calls 1
  obtain ⟨-, ended, -⟩ := calls 2
  have nothing : start.next.1.toOption = none := by decide +kernel
  obtain ⟨fault, first⟩ : ∃ fault, start.next.1 = .error fault := by
    cases at_start : start.next.1 with
    | error fault => exact ⟨fault, rfl⟩
    | ok found =>
        rw [at_start] at nothing
        cases nothing
  have second : p.next.1 = .ok (some ⟨.column "a'", "", rfl⟩) :=
    eq_ok_of_toOption (by decide +kernel)
  have third : q.next.1 = .ok none := eq_ok_of_toOption (by decide +kernel)
  have failed : start.next.1 ≠ .ok none := first ▸ nofun
  have read : p.next.1 ≠ .ok none := second ▸ nofun
  exact ⟨⟨fault, first, argument fault first⟩, (moved failed).1, second, (moved' read).1, third,
    ended third⟩

end Parser

end RowQuery
