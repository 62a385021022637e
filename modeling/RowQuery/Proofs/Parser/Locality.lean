import RowQuery.Proofs.Parser.Permissive

/-!
# Permissive readings heed what is left of the text only

At two cursors with one rest a permissive reading comes to the same and takes the same number of
characters, whatever stands before the cursors (`Alike`). Places are read for faults of malformed
text, which permissive reading does not have; the raw text of a call is cut out between two places,
and lies within the rest (`alike_argument`). So the expressions that are left for a parser depend
only on the rest at its next expression (`drain_of_atNext`).
-/

namespace RowQuery.Scan

open Lookahead

/-! ## Readings -/

/-- Two outcomes at two cursors are one, and both cursors have moved as far. -/
inductive Agrees {α : Type} (c d : Cursor) :
    EStateM.Result Fault Cursor α → EStateM.Result Fault Cursor α → Prop
  | ok (value : α) (count : Nat) : Agrees c d (.ok value (c.skip count)) (.ok value (d.skip count))
  | error (fault : Fault) (count : Nat) :
      Agrees c d (.error fault (c.skip count)) (.error fault (d.skip count))

def Alike {α : Type} (reading reading' : Scan α) : Prop :=
  ∀ c d : Cursor, c.rest = d.rest → Agrees c d (reading c) (reading' d)

section
variable {α β : Type} {c d : Cursor} {first first' : Scan α} {second second' : α → Scan β}

theorem Agrees.bind (start : Agrees c d (first c) (first' d))
    (next : ∀ value count, first c = .ok value (c.skip count) →
      Agrees (c.skip count) (d.skip count) (second value (c.skip count))
        (second' value (d.skip count))) :
    Agrees c d ((first >>= second) c) ((first' >>= second') d) := by
  generalize reached : first c = result at start
  generalize reached' : first' d = result' at start
  cases start with
  | error fault count =>
      rw [bind_of_error reached, bind_of_error reached']
      exact .error fault count
  | ok value count =>
      have later := next value count reached
      rw [bind_of_ok reached, bind_of_ok reached']
      generalize second value (c.skip count) = outcome at later ⊢
      generalize second' value (d.skip count) = outcome' at later ⊢
      cases later with
      | ok result more =>
          rw [Cursor.skip_skip, Cursor.skip_skip]
          exact .ok result (count + more)
      | error fault more =>
          rw [Cursor.skip_skip, Cursor.skip_skip]
          exact .error fault (count + more)

theorem rest_skip_eq (same : c.rest = d.rest) (count : Nat) :
    (c.skip count).rest = (d.skip count).rest := by
  rw [Cursor.rest_skip, Cursor.rest_skip, same]

theorem Alike.bind (start : Alike first first') (next : ∀ value, Alike (second value)
    (second' value)) : Alike (first >>= second) (first' >>= second') := by
  intro c d same
  apply (start c d same).bind
  intro value count _
  exact next value _ _ (rest_skip_eq same count)

theorem Agrees.position_bind {next next' : Position → Scan α}
    (later : Agrees c d (next c.position c) (next' d.position d)) :
    Agrees c d ((position >>= next) c) ((position >>= next') d) :=
  later

theorem Agrees.get_bind {next next' : Cursor → Scan α} (later : Agrees c d (next c c) (next' d d)) :
    Agrees c d ((get >>= next) c) ((get >>= next') d) :=
  later

theorem Agrees.rest_bind {next next' : List Char → Scan α} (same : c.rest = d.rest)
    (later : Agrees c d (next c.rest c) (next' c.rest d)) :
    Agrees c d ((rest >>= next) c) ((rest >>= next') d) := by
  rwa [show (rest >>= next) c = next c.rest c from rfl,
    show (rest >>= next') d = next' d.rest d from rfl, ← same]

theorem Alike.position_bind {next next' : Position → Scan α}
    (alike : ∀ here there, Alike (next here) (next' there)) :
    Alike (position >>= next) (position >>= next') :=
  fun c d same => Agrees.position_bind (alike c.position d.position c d same)

theorem Alike.rest_bind {next next' : List Char → Scan α}
    (alike : ∀ chars, Alike (next chars) (next' chars)) :
    Alike (rest >>= next) (rest >>= next') :=
  fun c d same => Agrees.rest_bind same (alike c.rest c d same)

theorem alike_pure (value : α) : Alike (pure value : Scan α) (pure value) := by
  intro c d _
  have here := Agrees.ok (c := c) (d := d) value 0
  rwa [Cursor.skip_zero, Cursor.skip_zero] at here

theorem alike_throw (fault : Fault) : Alike (throw fault : Scan α) (throw fault) := by
  intro c d _
  have here := Agrees.error (α := α) (c := c) (d := d) fault 0
  rwa [Cursor.skip_zero, Cursor.skip_zero] at here

theorem alike_skip (count : Nat) : Alike (skip count) (skip count) :=
  fun _ _ _ => .ok () count

theorem alike_skipBlanks : Alike skipBlanks skipBlanks := by
  intro c d same
  have blanks : d.skipBlanks = d.skip (c.rest.takeWhile Text.isBlank).length := by
    rw [same]
    rfl
  rw [show skipBlanks d = .ok () d.skipBlanks from rfl, blanks]
  exact .ok () _

end

theorem alike_bareName (inCall : Bool) : Alike (bareName inCall) (bareName inCall) :=
  .rest_bind fun _ => (alike_skip _).bind fun _ => alike_pure _

theorem alike_distinct : Alike distinct distinct := by
  rw [distinct_eq]
  apply Alike.rest_bind
  intro chars
  split
  · exact (alike_skip _).bind fun _ => alike_pure _
  · exact alike_pure _

/-- Past the closing quote, or the end of the text if there is none. -/
theorem alike_quotedName (opening : Char) :
    Alike (quotedName false opening) (quotedName false opening) := by
  apply Alike.position_bind
  intro here there
  apply Alike.rest_bind
  intro chars
  simp only [recover_permissive, ite_self, pure_bind]
  exact (alike_skip _).bind fun _ => alike_pure _

theorem alike_quotedLiteral : Alike (quotedLiteral false) (quotedLiteral false) := by
  apply Alike.position_bind
  intro here there
  apply Alike.rest_bind
  intro chars
  simp only [recover_permissive, ite_self, pure_bind]
  exact (alike_skip _).bind fun _ => alike_pure _

theorem alike_argumentName : Alike (argumentName false) (argumentName false) := by
  apply Alike.rest_bind
  intro chars
  split
  · exact (alike_skip _).bind fun _ => alike_pure _
  · split
    · exact alike_quotedName _
    · exact alike_bareName _
  · exact alike_bareName _

theorem slice_skip_eq {c d : Cursor} (same : c.rest = d.rest) (count more length : Nat) :
    ((c.skip count).skip more).slice c.position.offset
        ((c.skip count).position.offset + length) =
      ((d.skip count).skip more).slice d.position.offset
        ((d.skip count).position.offset + length) := by
  rw [Cursor.skip_skip, Cursor.skip_skip, Cursor.slice_skip, Cursor.slice_skip, same]

/-- Both calls end after the same characters, and the raw text lies within them. -/
theorem alike_argument (opening opening' : Position) :
    Alike (argument false opening) (argument false opening') := by
  intro c d same
  apply Agrees.position_bind
  apply (alike_skipBlanks c d same).bind
  intro _ before _
  apply (alike_distinct _ _ (rest_skip_eq same _)).bind
  intro flag modified _
  rw [Cursor.skip_skip, Cursor.skip_skip]
  apply (alike_skipBlanks _ _ (rest_skip_eq same _)).bind
  intro _ gap _
  rw [Cursor.skip_skip, Cursor.skip_skip]
  apply (alike_argumentName _ _ (rest_skip_eq same _)).bind
  intro column named _
  rw [Cursor.skip_skip, Cursor.skip_skip]
  apply (alike_skipBlanks _ _ (rest_skip_eq same _)).bind
  intro _ after _
  rw [Cursor.skip_skip, Cursor.skip_skip]
  generalize before + modified + gap + named + after = count
  apply Agrees.rest_bind (rest_skip_eq same count)
  by_cases closed : (c.skip count).rest.head? = some ')'
  · simp only [if_pos closed]
    exact ((alike_skip 1).bind fun _ => alike_pure _) _ _ (rest_skip_eq same count)
  · simp only [if_neg closed, recover_permissive, ite_self, pure_bind]
    apply Agrees.position_bind
    apply (alike_skip _ _ _ (rest_skip_eq same count)).bind
    intro _ more _
    apply Agrees.get_bind
    rw [slice_skip_eq same]
    exact alike_pure _ _ _ (rest_skip_eq (rest_skip_eq same count) more)

theorem alike_operand : Alike (operand false) (operand false) := by
  apply Alike.rest_bind
  intro chars
  split
  · exact alike_quotedLiteral.bind fun _ => alike_pure _
  · split
    · exact (alike_quotedName _).bind fun _ => alike_pure _
    · exact (alike_bareName _).bind fun _ => alike_pure _
  · exact (alike_bareName _).bind fun _ => alike_pure _

theorem alike_separator : Alike (separator false) (separator false) := by
  apply alike_skipBlanks.bind
  intro _
  apply Alike.rest_bind
  intro chars
  split
  · exact (alike_skip _).bind fun _ => alike_pure _
  · exact alike_pure _
  · exact alike_pure _
  · exact .position_bind fun _ _ => alike_pure _

theorem alike_part (opening opening' : Position) (afterComma : Bool) :
    Alike (part false opening afterComma) (part false opening' afterComma) := by
  apply alike_skipBlanks.bind
  intro _
  apply Alike.rest_bind
  intro chars
  simp only [recover_permissive, pure_bind]
  split
  · exact alike_pure _
  · split
    · exact .position_bind fun _ _ => (alike_skip _).bind fun _ => alike_pure _
    · exact (alike_skip _).bind fun _ => alike_pure _
  · exact .position_bind fun _ _ => (alike_skip _).bind fun _ => alike_pure _
  · exact alike_operand.bind fun _ => alike_separator.bind fun _ => alike_pure _

theorem alike_operands (opening opening' : Position) (afterComma : Bool) :
    Alike (operands false opening afterComma) (operands false opening' afterComma) := by
  intro c d same
  -- Each part leaves less of the text, so both calls end.
  induction left : c.rest.length using Nat.strongRecOn generalizing afterComma c d with
  | ind n ih =>
      rw [operands_eq, operands_eq]
      apply (alike_part opening opening' afterComma c d same).bind
      intro read count reached
      cases read with
      | none => exact alike_pure _ _ _ (rest_skip_eq same count)
      | some parts =>
          have shorter := gives_part false opening afterComma c _ _ reached rfl
          apply (ih _ (left ▸ shorter) parts.2 _ _ (rest_skip_eq same count) rfl).bind
          intro others more _
          exact alike_pure _ _ _ (rest_skip_eq (rest_skip_eq same count) more)

theorem alike_build (t : Term) : Alike (build t) (build t) := by
  unfold build
  split
  · exact alike_pure _
  · exact alike_throw _

theorem alike_call (rule : OperandRule) (keyword : Keyword) :
    Alike (call ⟨false, rule⟩ keyword) (call ⟨false, rule⟩ keyword) := by
  apply (alike_skip _).bind
  intro _
  apply Alike.position_bind
  intro opening opening'
  apply (alike_skip 1).bind
  intro _
  cases keyword with
  | aggregate function => exact (alike_argument opening opening').bind fun _ => alike_build _
  | concat => exact (alike_operands opening opening' false).bind fun _ => alike_build _

theorem alike_nameFrom (letters : List Char) : Alike (nameFrom letters) (nameFrom letters) :=
  (alike_skip _).bind fun _ => (alike_bareName _).bind fun _ => alike_pure _

theorem alike_term (rule : OperandRule) : Alike (term ⟨false, rule⟩) (term ⟨false, rule⟩) := by
  apply Alike.rest_bind
  intro chars
  split
  · exact (alike_quotedName _).bind fun _ => alike_build _
  · split
    · exact alike_call rule _
    · exact (alike_nameFrom _).bind fun _ => alike_build _

theorem alike_label : Alike (label false) (label false) := by
  rw [label_eq]
  apply Alike.rest_bind
  intro chars
  split
  · exact alike_pure _
  · apply (alike_skip _).bind
    intro _
    apply Alike.rest_bind
    intro later
    split
    · exact (alike_quotedName _).bind fun _ => alike_pure _
    · exact (alike_bareName _).bind fun _ => alike_pure _

/-- Whether there is a comma is alike, its place is not. -/
theorem alike_comma {α : Type} (value : α) :
    Alike (comma false >>= fun _ => pure value) (comma false >>= fun _ => pure value) := by
  rw [comma, bind_assoc]
  apply alike_skipBlanks.bind
  intro _
  rw [bind_assoc]
  apply Alike.rest_bind
  intro chars
  split
  · exact alike_pure _
  · simp only [bind_assoc, pure_bind]
    exact .position_bind fun _ _ => (alike_skip 1).bind fun _ => alike_pure _
  · simp only [bind_assoc, recover_permissive, pure_bind]
    exact .position_bind fun _ _ => alike_pure _

theorem alike_item (rule : OperandRule) :
    Alike (item ⟨false, rule⟩ >>= fun read => pure read.1)
      (item ⟨false, rule⟩ >>= fun read => pure read.1) := by
  rw [item]
  simp only [bind_assoc, pure_bind]
  apply (alike_term rule).bind
  intro e
  apply alike_label.bind
  intro label
  exact alike_comma _

theorem item_cases (rule : OperandRule) {c d : Cursor} (same : c.rest = d.rest) :
    (∃ fault count, item ⟨false, rule⟩ c = .error fault (c.skip count) ∧
        item ⟨false, rule⟩ d = .error fault (d.skip count)) ∨
      ∃ e pending pending' count, item ⟨false, rule⟩ c = .ok (e, pending) (c.skip count) ∧
        item ⟨false, rule⟩ d = .ok (e, pending') (d.skip count) := by
  have read := alike_item rule c d same
  cases reached : item ⟨false, rule⟩ c with
  | error fault last =>
      rw [bind_of_error reached] at read
      cases reached' : item ⟨false, rule⟩ d with
      | error fault' last' =>
          rw [bind_of_error reached'] at read
          cases read
          exact .inl ⟨_, _, rfl, rfl⟩
      | ok result' last' =>
          rw [bind_of_ok reached'] at read
          cases read
  | ok result last =>
      obtain ⟨e, pending⟩ := result
      rw [bind_of_ok reached] at read
      cases reached' : item ⟨false, rule⟩ d with
      | error fault' last' =>
          rw [bind_of_error reached'] at read
          cases read
      | ok result' last' =>
          obtain ⟨e', pending'⟩ := result'
          rw [bind_of_ok reached'] at read
          obtain ⟨-, count⟩ := read
          exact .inr ⟨_, _, _, _, rfl, rfl⟩

end RowQuery.Scan

namespace RowQuery.Parser

/-! ## Select lists -/

theorem head?_atNext {p : Parser} (permissive : p.settings.strict = false) :
    p.atNext.rest.head? ≠ some ',' := by
  intro first
  rw [atNext, Cursor.rest_skipWhile] at first
  have stops := Grammar.head?_dropWhile _ _ _ first
  simp [permissive] at stops

theorem drain_of_item_error {p : Parser} {first : Char} {others : List Char} {fault : Fault}
    {last : Cursor} (alive : p.failed = false) (starts : p.atNext.rest = first :: others)
    (other : first ≠ ',') (failed : Scan.item p.settings p.atNext = .error fault last) :
    p.drain.1 = [.error fault] := by
  have reached : p.next.1 = .error fault := by
    simp [next, starts, other, failed]
  exact drain_of_next_error alive (Prod.ext reached rfl)

theorem drain_of_item_ok {p : Parser} {first : Char} {others : List Char} {e : Expression}
    {pending : Option Position} {last : Cursor} (alive : p.failed = false)
    (starts : p.atNext.rest = first :: others) (other : first ≠ ',')
    (read : Scan.item p.settings p.atNext = .ok (e, pending) last) :
    last.rest.length < p.cursor.rest.length ∧
      p.drain.1 = .ok e :: (drain { p with cursor := last, pendingComma := pending }).1 := by
  have reached := next_eq_some_iff.mpr ⟨first, others, pending, last, starts, other, read, rfl⟩
  exact ⟨length_next_lt reached, drain_of_next_ok alive reached⟩

theorem atNext_eq_of_rest {rule : OperandRule} {p q : Parser}
    (settings : p.settings = ⟨false, rule⟩) (settings' : q.settings = ⟨false, rule⟩)
    (same : p.cursor.rest = q.cursor.rest) :
    p.atNext.rest = q.atNext.rest := by
  rw [atNext, atNext, Cursor.rest_skipWhile, Cursor.rest_skipWhile, settings, settings', same]

theorem drain_of_atNext {rule : OperandRule} {p q : Parser} (settings : p.settings = ⟨false, rule⟩)
    (settings' : q.settings = ⟨false, rule⟩) (alive : p.failed = false) (alive' : q.failed = false)
    (same : p.atNext.rest = q.atNext.rest) : p.drain.1 = q.drain.1 := by
  -- Each item leaves less of the text, and the same before both parsers.
  induction left : p.cursor.rest.length using Nat.strongRecOn generalizing p q with
  | ind n ih =>
      have no_comma := head?_atNext (p := p) (by rw [settings])
      cases starts : p.atNext.rest with
      | nil =>
          rw [drain_of_atNext_nil (by rw [settings]) alive starts,
            drain_of_atNext_nil (by rw [settings']) alive' (same ▸ starts)]
      | cons first others =>
          have other : first ≠ ',' := by simpa [starts] using no_comma
          have starts' := same ▸ starts
          rcases Scan.item_cases rule same with ⟨fault, count, here, there⟩ |
            ⟨e, pending, pending', count, here, there⟩
          · rw [← settings] at here
            rw [← settings'] at there
            rw [drain_of_item_error alive starts other here,
              drain_of_item_error alive' starts' other there]
          · rw [← settings] at here
            rw [← settings'] at there
            obtain ⟨shorter, first_drain⟩ := drain_of_item_ok alive starts other here
            obtain ⟨-, second_drain⟩ := drain_of_item_ok alive' starts' other there
            rw [first_drain, second_drain]
            exact congrArg _ (ih _ (left ▸ shorter) (p := { p with cursor := _, pendingComma := _ })
              (q := { q with cursor := _, pendingComma := _ }) settings settings' alive alive'
              (atNext_eq_of_rest settings settings' (Scan.rest_skip_eq same count)) rfl)

end RowQuery.Parser
