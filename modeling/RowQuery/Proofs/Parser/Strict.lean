import RowQuery.Proofs.Parser.Acceptance

/-!
# The texts that strict parsing accepts

A text is accepted, with a list of expressions, exactly if the grammar derives that list from it
(`parseList_eq_ok_iff_listText`).
-/

namespace RowQuery.Scan

open Lookahead Grammar

section
variable {β : Type} {c : Cursor} {left : List Char}

/-! ## Items -/

/-- What an item ends with: a comma, if there is more, or the end of the text. -/
def Ends (more : Bool) (text rest : List Char) : Prop :=
  (more = false ∧ rest = [] ∧ Blanks text []) ∨ (more = true ∧ Blanks text (',' :: rest))

theorem reads_comma {f : Bool → β} {result : β} :
    Reads (comma true >>= fun pending => pure (f pending.isSome)) c result left ↔
      ∃ more, Ends more c.rest left ∧ result = f more := by
  rw [comma, bind_assoc, reads_skipBlanks_bind, bind_assoc, reads_rest_bind]
  simp only [Ends, blanks_rest_iff]
  split <;> rename_i starts <;> rw [starts]
  · rw [pure_bind, reads_pure, starts]
    simp [and_comm]
  · simp only [bind_assoc, reads_position_bind, reads_skip_bind, pure_bind]
    rw [reads_pure, Cursor.rest_skip, starts]
    simp [and_comm, eq_comm]
  · rename_i other
    rw [bind_assoc, reads_position_bind, bind_assoc]
    apply iff_of_false not_reads_recover
    rintro ⟨more, ⟨-, -, same⟩ | ⟨-, same⟩, -⟩
    · cases same
    · exact other (List.cons.inj same).1.symm

theorem not_introducer_of_ends {more : Bool} {text rest name : List Char}
    (ends : Ends more text rest) : ¬ Introducer text name := by
  rintro ⟨word, gap, blanks, ⟨letters, rfl, same⟩, -⟩
  obtain ⟨c, others, rfl, first, -⟩ := List.map_eq_cons_iff.mp same
  rcases ends with ⟨-, -, blanks'⟩ | ⟨-, blanks'⟩
  · cases blanks.unique blanks'
  · obtain ⟨rfl, -⟩ := List.cons.inj (blanks.unique blanks')
    cases first

theorem reads_item {rule : OperandRule} {e : Expression} {more : Bool} {first : Char}
    {others : List Char} (starts : c.rest = first :: others)
    (begins : endsBare false first = false) :
    (∃ pending, Reads (item ⟨true, rule⟩) c (e, pending) left ∧ pending.isSome = more) ↔
      ∃ rest, ItemText rule c.rest e rest ∧ Ends more rest left := by
  have observed : (∃ pending, Reads (item ⟨true, rule⟩) c (e, pending) left ∧
        pending.isSome = more) ↔
      Reads (item ⟨true, rule⟩ >>= fun read => pure (read.1, read.2.isSome)) c (e, more) left := by
    rw [reads_map]
    constructor
    · rintro ⟨pending, read, rfl⟩
      exact ⟨_, read, rfl⟩
    · rintro ⟨⟨e, pending⟩, read, ⟨⟩⟩
      exact ⟨pending, read, rfl⟩
  rw [observed, item]
  simp only [bind_assoc, pure_bind]
  refine (reads_bind _ (fun t middle => ∃ label rest, OptionalLabel middle label rest ∧
      e = t.withLabel (label.getD "") ∧ Ends more rest left)
    (fun _ _ => reads_term starts begins) fun t middle _ => ?_).trans ?_
  · refine reads_bind _ (fun label rest => e = t.withLabel (label.getD "") ∧ Ends more rest left)
      (fun _ _ => reads_label) fun label middle' _ => ?_
    refine (reads_comma (f := fun more => (t.withLabel (label.getD ""), more))).trans ?_
    constructor
    · rintro ⟨_, ends, ⟨⟩⟩
      exact ⟨rfl, ends⟩
    · rintro ⟨rfl, ends⟩
      exact ⟨more, ends, rfl⟩
  · constructor
    · rintro ⟨t, middle, ⟨term, unlabelled⟩, label, rest, labelled, rfl, ends⟩
      rcases labelled with ⟨rfl, rfl, -⟩ | ⟨start, name, rfl, introduced, labelled⟩
      · exact ⟨_, .plain term rfl, ends⟩
      · exact ⟨_, .labelled term introduced labelled, ends⟩
    · rintro ⟨rest, here, ends⟩
      cases here with
      | plain term unlabelled =>
          refine ⟨e, rest, ⟨term, unlabelled⟩, none, rest, .inl ⟨rfl, rfl, ?_⟩, ?_, ends⟩
          · rintro ⟨name, introduced, -⟩
            exact not_introducer_of_ends ends introduced
          · obtain ⟨term', label, sound⟩ := e
            subst unlabelled
            rfl
      | labelled term introduced labelled =>
          exact ⟨e.withLabel "", _, ⟨term, rfl⟩, some e.label, rest,
            .inr ⟨_, _, rfl, introduced, labelled⟩, rfl, ends⟩

end

end RowQuery.Scan

namespace RowQuery.Parser

open Scan Grammar
open Lookahead (endsBare)

/-! ## Select lists -/

theorem atNext_eq_skipBlanks {p : Parser} (strict : p.settings.strict = true) :
    p.atNext = p.cursor.skipBlanks := by
  simp [atNext, Cursor.skipBlanks, strict]

theorem next_eq_ok_none_iff {p : Parser} (strict : p.settings.strict = true) :
    p.next.1 = .ok none ↔ p.pendingComma = none ∧ Blanks p.cursor.rest [] := by
  rw [blanks_rest_iff, ← atNext_eq_skipBlanks strict, next]
  split
  · rename_i ends
    cases pending : p.pendingComma with
    | none => simp [ends]
    | some comma => simp [strict]
  · rename_i first others starts
    rw [starts]
    refine iff_of_false ?_ (by simp)
    split
    · simp
    · split <;> simp

theorem next_eq_ok_some_iff {p q : Parser} {rule : OperandRule}
    (settings : p.settings = ⟨true, rule⟩) {e : Expression} :
    p.next = (.ok (some e), q) ↔ ∃ first others pending last,
      p.cursor.skipBlanks.rest = first :: others ∧ first ≠ ',' ∧
      item ⟨true, rule⟩ p.cursor.skipBlanks = .ok (e, pending) last ∧
      q = { p with cursor := last, pendingComma := pending } := by
  rw [next_eq_some_iff, atNext_eq_skipBlanks (by rw [settings]), settings]

theorem itemsText_cons_iff {rule : OperandRule} {text start : List Char} {e : Expression}
    {list : List Expression} (blanks : Blanks text start) :
    ItemsText rule text (e :: list) ↔ ∃ more rest left, ItemText rule start e rest ∧
      Ends more rest left ∧
      ((more = false ∧ list = []) ∨ (more = true ∧ ItemsText rule left list)) := by
  constructor
  · intro here
    cases here with
    | last before item ends =>
        obtain rfl := before.unique blanks
        exact ⟨false, _, _, item, .inl ⟨rfl, rfl, ends⟩, .inl ⟨rfl, rfl⟩⟩
    | more before item comma items =>
        obtain rfl := before.unique blanks
        exact ⟨true, _, _, item, .inr ⟨rfl, comma⟩, .inr ⟨rfl, items⟩⟩
  · rintro ⟨more, rest, left, item, ends, ⟨rfl, rfl⟩ | ⟨rfl, items⟩⟩
    · rcases ends with ⟨-, -, ends⟩ | ⟨⟨⟩, -⟩
      exact .last blanks item ends
    · rcases ends with ⟨⟨⟩, -⟩ | ⟨-, comma⟩
      exact .more blanks item comma items

theorem not_itemsText_nil {rule : OperandRule} {list : List Expression} :
    ¬ ItemsText rule [] list := by
  intro here
  have none_left : Blanks [] [] := blanks_iff.mpr rfl
  cases here with
  | last before item =>
      obtain rfl := before.unique none_left
      obtain ⟨_, _, ⟨⟩, -⟩ := item.starts
  | more before item =>
      obtain rfl := before.unique none_left
      obtain ⟨_, _, ⟨⟩, -⟩ := item.starts

theorem drain_eq_map_ok_iff {rule : OperandRule} {list : List Expression} {p : Parser}
    (settings : p.settings = ⟨true, rule⟩) (alive : p.failed = false) :
    p.drain.1 = list.map .ok ↔
      (p.pendingComma = none ∧ list = [] ∧ Blanks p.cursor.rest []) ∨
        ItemsText rule p.cursor.rest list := by
  induction list generalizing p with
  | nil =>
      have none_left : ¬ ItemsText rule p.cursor.rest [] := nofun
      have next_none := next_eq_ok_none_iff (p := p) (by rw [settings])
      simp only [List.map_nil, none_left, or_false, true_and]
      rw [← next_none]
      rcases reached : p.next with ⟨fault | (_ | e), q⟩
      · simp [drain_of_next_error alive reached]
      · simp [drain_of_next_none alive reached]
      · simp [drain_of_next_ok alive reached]
  | cons e list ih =>
      rw [drain_eq_cons_iff alive, itemsText_cons_iff blanks_skipBlanks]
      simp only [next_eq_ok_some_iff settings, reduceCtorEq, false_and, and_false, false_or]
      constructor
      · rintro ⟨_, ⟨first, others, pending, last, starts, other, read, rfl⟩, drained⟩
        have begins : endsBare false first = false := by
          simp [endsBare, isBlank_head_skipBlanks starts, other]
        obtain ⟨rest, here, ends⟩ := (reads_item starts begins).mp ⟨pending, ⟨last, read, rfl⟩, rfl⟩
        refine ⟨_, rest, last.rest, here, ends, ?_⟩
        rw [ih (p := { p with cursor := last, pendingComma := pending }) settings alive] at drained
        rcases drained with ⟨none, rfl, -⟩ | items
        · exact .inl ⟨Option.isSome_eq_false_iff.mpr (Option.isNone_iff_eq_none.mpr none), rfl⟩
        · rcases ends with ⟨-, nil, -⟩ | ⟨more, -⟩
          · exact absurd (nil ▸ items) not_itemsText_nil
          · exact .inr ⟨more, items⟩
      · rintro ⟨more, rest, left, here, ends, tail⟩
        obtain ⟨first, others, starts, begins⟩ := here.starts
        obtain ⟨pending, ⟨last, read, rfl⟩, some⟩ :=
          (reads_item starts begins).mpr ⟨rest, here, ends⟩
        refine ⟨_, ⟨first, others, pending, last, starts, ?_, read, rfl⟩,
          (ih (p := { p with cursor := last, pendingComma := pending }) settings alive).mpr ?_⟩
        · rintro rfl
          cases begins
        · rcases tail with ⟨rfl, rfl⟩ | ⟨rfl, items⟩
          · rcases ends with ⟨-, nil, -⟩ | ⟨⟨⟩, -⟩
            refine .inl ⟨by simpa using some, rfl, ?_⟩
            rw [nil]
            exact blanks_iff.mpr rfl
          · exact .inr items

theorem parseList_eq_ok_iff_items {rule : OperandRule} {text : String} {list : List Expression} :
    Expression.parseList ⟨true, rule⟩ text = .ok list ↔
      (list = [] ∧ Blanks text.toList []) ∨ ItemsText rule text.toList list := by
  rw [parseList_eq_ok, drain_eq_map_ok_iff rfl rfl]
  simp [ofText, Cursor.ofText]

theorem parseList_eq_ok_iff_listText {rule : OperandRule} {text : String}
    {list : List Expression} :
    Expression.parseList ⟨true, rule⟩ text = .ok list ↔ ListText rule text.toList list := by
  rw [parseList_eq_ok_iff_items]
  constructor
  · rintro (⟨rfl, blanks⟩ | items)
    · exact .blank blanks
    · exact .items items
  · intro here
    cases here with
    | blank blanks => exact .inl ⟨rfl, blanks⟩
    | items items => exact .inr items

end RowQuery.Parser
