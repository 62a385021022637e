import RowQuery.Proofs.Parser.Sequence

/-!
# Strict and permissive reading in lockstep

The two ways of reading share their code and differ in `recover` only: strict reading stops there
with a parse fault, permissive reading goes on. So at every cursor a strict reading does what the
permissive one does or ends in a parse fault (`Lockstep`), a relation that sequencing preserves.
The items of a text follow by induction on what is left of it: between two items the strict parser
skips blanks and the permissive one also commas, which strict reading does not get past
(`next_permissive`).
-/

namespace RowQuery.Scan

open Lookahead

/-! ## Readings -/

structure LockstepAt {α : Type} (strict permissive : Scan α) (c : Cursor) : Prop where
  agrees : strict c = permissive c ∨ ∃ fault last, strict c = .error (.parse fault) last
  argument : ∀ {fault last}, permissive c = .error fault last → fault.isArgument

abbrev Lockstep {α : Type} (strict permissive : Scan α) : Prop :=
  ∀ c, LockstepAt strict permissive c

theorem LockstepAt.bind {α β : Type} {first first' : Scan α} {second second' : α → Scan β}
    {c : Cursor} (start : LockstepAt first first' c)
    (next : ∀ value last, first' c = .ok value last →
      LockstepAt (second value) (second' value) last) :
    LockstepAt (first >>= second) (first' >>= second') c := by
  cases reached : first' c with
  | error fault last =>
      refine ⟨?_, fun failed => ?_⟩
      · rcases start.agrees with same | ⟨parse, stop, failed⟩
        · exact .inl (by rw [bind_of_error (same.trans reached), bind_of_error reached])
        · exact .inr ⟨parse, stop, bind_of_error failed⟩
      · rw [bind_of_error reached] at failed
        cases failed
        exact start.argument reached
  | ok value middle =>
      have rest := next value middle reached
      refine ⟨?_, fun failed => ?_⟩
      · rcases start.agrees with same | ⟨parse, stop, failed⟩
        · rw [bind_of_ok (same.trans reached), bind_of_ok reached]
          exact rest.agrees
        · exact .inr ⟨parse, stop, bind_of_error failed⟩
      · rw [bind_of_ok reached] at failed
        exact rest.argument failed

theorem Lockstep.bind {α β : Type} {first first' : Scan α} {second second' : α → Scan β}
    (start : Lockstep first first') (next : ∀ value, Lockstep (second value) (second' value)) :
    Lockstep (first >>= second) (first' >>= second') :=
  fun c => (start c).bind fun value last _ => next value last

theorem lockstep_of_ok {α : Type} {reading : Scan α}
    (succeeds : ∀ c, ∃ value last, reading c = .ok value last) : Lockstep reading reading := by
  intro c
  refine ⟨.inl rfl, fun failed => ?_⟩
  obtain ⟨value, middle, reached⟩ := succeeds c
  rw [reached] at failed
  cases failed

theorem lockstep_pure {α : Type} (value : α) : Lockstep (pure value : Scan α) (pure value) :=
  lockstep_of_ok fun _ => ⟨_, _, rfl⟩

theorem lockstep_rest : Lockstep rest rest :=
  lockstep_of_ok fun _ => ⟨_, _, rfl⟩

theorem lockstep_position : Lockstep position position :=
  lockstep_of_ok fun _ => ⟨_, _, rfl⟩

theorem lockstep_get : Lockstep (get : Scan Cursor) get :=
  lockstep_of_ok fun _ => ⟨_, _, rfl⟩

theorem lockstep_skip (count : Nat) : Lockstep (skip count) (skip count) :=
  lockstep_of_ok fun _ => ⟨_, _, rfl⟩

theorem lockstep_skipBlanks : Lockstep skipBlanks skipBlanks :=
  lockstep_of_ok fun _ => ⟨_, _, rfl⟩

theorem lockstep_bareName (inCall : Bool) : Lockstep (bareName inCall) (bareName inCall) :=
  lockstep_of_ok fun _ => ⟨_, _, rfl⟩

theorem lockstep_distinct : Lockstep distinct distinct := by
  rw [distinct_eq]
  refine lockstep_rest.bind fun chars => ?_
  split
  · exact (lockstep_skip _).bind fun _ => lockstep_pure _
  · exact lockstep_pure _

theorem lockstep_recover (position : Position) (cause : ParseCause) :
    Lockstep (recover true position cause) (recover false position cause) :=
  fun _ => ⟨.inr ⟨_, _, rfl⟩, fun failed => by cases failed⟩

theorem lockstep_quotedName (opening : Char) :
    Lockstep (quotedName true opening) (quotedName false opening) := by
  refine lockstep_position.bind fun _ => lockstep_rest.bind fun _ => ?_
  refine (lockstep_skip _).bind fun _ => ?_
  split
  · exact (lockstep_recover _ _).bind fun _ => lockstep_pure _
  · exact (lockstep_pure _).bind fun _ => lockstep_pure _

theorem lockstep_quotedLiteral : Lockstep (quotedLiteral true) (quotedLiteral false) := by
  refine lockstep_position.bind fun _ => lockstep_rest.bind fun _ => ?_
  refine (lockstep_skip _).bind fun _ => ?_
  split
  · exact (lockstep_recover _ _).bind fun _ => lockstep_pure _
  · exact (lockstep_pure _).bind fun _ => lockstep_pure _

theorem lockstep_argumentName : Lockstep (argumentName true) (argumentName false) := by
  refine lockstep_rest.bind fun _ => ?_
  split
  · exact (lockstep_skip _).bind fun _ => lockstep_pure _
  · split
    · exact lockstep_quotedName _
    · exact lockstep_bareName _
  · exact lockstep_bareName _

theorem lockstep_argument (opening : Position) :
    Lockstep (argument true opening) (argument false opening) := by
  refine lockstep_position.bind fun _ => lockstep_skipBlanks.bind fun _ =>
    lockstep_distinct.bind fun _ => lockstep_skipBlanks.bind fun _ =>
    lockstep_argumentName.bind fun _ => lockstep_skipBlanks.bind fun _ =>
    lockstep_rest.bind fun _ => ?_
  split
  · exact (lockstep_skip _).bind fun _ => lockstep_pure _
  · refine lockstep_position.bind fun _ => (lockstep_skip _).bind fun _ => ?_
    split
    · exact (lockstep_recover _ _).bind fun _ => lockstep_get.bind fun _ => lockstep_pure _
    · exact (lockstep_recover _ _).bind fun _ => lockstep_get.bind fun _ => lockstep_pure _

theorem lockstep_operand : Lockstep (operand true) (operand false) := by
  refine lockstep_rest.bind fun _ => ?_
  split
  · exact lockstep_quotedLiteral.bind fun _ => lockstep_pure _
  · split
    · exact (lockstep_quotedName _).bind fun _ => lockstep_pure _
    · exact (lockstep_bareName _).bind fun _ => lockstep_pure _
  · exact (lockstep_bareName _).bind fun _ => lockstep_pure _

theorem lockstep_separator : Lockstep (separator true) (separator false) := by
  refine lockstep_skipBlanks.bind fun _ => lockstep_rest.bind fun _ => ?_
  split
  · exact (lockstep_skip _).bind fun _ => lockstep_pure _
  · exact lockstep_pure _
  · exact lockstep_pure _
  · exact lockstep_position.bind fun _ => (lockstep_recover _ _).bind fun _ => lockstep_pure _

theorem lockstep_part (opening : Position) (afterComma : Bool) :
    Lockstep (part true opening afterComma) (part false opening afterComma) := by
  refine lockstep_skipBlanks.bind fun _ => lockstep_rest.bind fun _ => ?_
  split
  · exact (lockstep_recover _ _).bind fun _ => lockstep_pure _
  · split
    · exact lockstep_position.bind fun _ => (lockstep_recover _ _).bind fun _ =>
        (lockstep_skip _).bind fun _ => lockstep_pure _
    · exact (lockstep_pure _).bind fun _ => (lockstep_skip _).bind fun _ => lockstep_pure _
  · exact lockstep_position.bind fun _ => (lockstep_recover _ _).bind fun _ =>
      (lockstep_skip _).bind fun _ => lockstep_pure _
  · exact lockstep_operand.bind fun _ => lockstep_separator.bind fun _ => lockstep_pure _

theorem lockstep_operands (opening : Position) (afterComma : Bool) :
    Lockstep (operands true opening afterComma) (operands false opening afterComma) := by
  intro c
  -- Each part leaves less of the text, so the call ends.
  induction left : c.rest.length using Nat.strongRecOn generalizing afterComma c with
  | ind n ih =>
      rw [operands_eq, operands_eq]
      refine (lockstep_part opening afterComma c).bind fun read last reached => ?_
      cases read with
      | none => exact lockstep_pure _ _
      | some parts =>
          have shorter := gives_part false opening afterComma c _ _ reached rfl
          exact (ih _ (left ▸ shorter) parts.2 last rfl).bind fun _ _ _ => lockstep_pure _ _

theorem lockstep_build (term : Term) : Lockstep (build term) (build term) := by
  intro c
  refine ⟨.inl rfl, fun failed => ?_⟩
  cases made : Expression.ofTerm term with
  | ok expression =>
      simp only [build, made] at failed
      cases failed
  | error fault =>
      obtain ⟨cause, -, rfl⟩ := ofTerm_eq_error made
      simp only [build, made] at failed
      cases failed
      rfl

theorem lockstep_call (rule : OperandRule) (keyword : Keyword) :
    Lockstep (call ⟨true, rule⟩ keyword) (call ⟨false, rule⟩ keyword) := by
  refine (lockstep_skip _).bind fun _ => lockstep_position.bind fun opening =>
    (lockstep_skip _).bind fun _ => ?_
  cases keyword with
  | aggregate function => exact (lockstep_argument opening).bind fun _ => lockstep_build _
  | concat => exact (lockstep_operands opening false).bind fun _ => lockstep_build _

theorem lockstep_nameFrom (letters : List Char) : Lockstep (nameFrom letters) (nameFrom letters) :=
  (lockstep_skip _).bind fun _ => (lockstep_bareName _).bind fun _ => lockstep_pure _

theorem lockstep_term (rule : OperandRule) :
    Lockstep (term ⟨true, rule⟩) (term ⟨false, rule⟩) := by
  refine lockstep_rest.bind fun chars => ?_
  split
  · exact (lockstep_quotedName _).bind fun _ => lockstep_build _
  · split
    · exact lockstep_call rule _
    · exact (lockstep_nameFrom _).bind fun _ => lockstep_build _

theorem lockstep_label : Lockstep (label true) (label false) := by
  rw [label_eq, label_eq]
  refine lockstep_rest.bind fun chars => ?_
  split
  · exact lockstep_pure _
  · refine (lockstep_skip _).bind fun _ => lockstep_rest.bind fun _ => ?_
    split
    · exact (lockstep_quotedName _).bind fun _ => lockstep_pure _
    · exact (lockstep_bareName _).bind fun _ => lockstep_pure _

theorem lockstep_comma : Lockstep (comma true) (comma false) := by
  refine lockstep_skipBlanks.bind fun _ => lockstep_rest.bind fun _ => ?_
  split
  · exact lockstep_pure _
  · exact lockstep_position.bind fun _ => (lockstep_skip _).bind fun _ => lockstep_pure _
  · exact lockstep_position.bind fun _ => (lockstep_recover _ _).bind fun _ => lockstep_pure _

theorem lockstep_item (rule : OperandRule) :
    Lockstep (item ⟨true, rule⟩) (item ⟨false, rule⟩) :=
  (lockstep_term rule).bind fun _ => lockstep_label.bind fun _ =>
    lockstep_comma.bind fun _ => lockstep_pure _

end RowQuery.Scan

namespace RowQuery.Parser

/-! ## The sequence of expressions -/

def permissive (p : Parser) : Parser :=
  { p with settings := p.settings.withStrict false }

theorem takeWhile_or_eq {blank : Char → Bool} {text : List Char}
    (other : (text.dropWhile blank).head? ≠ some ',') :
    text.takeWhile (fun c => blank c || c == ',') = text.takeWhile blank := by
  induction text with
  | nil => rfl
  | cons c text ih =>
      by_cases white : blank c
      · simp only [List.dropWhile_cons_of_pos white] at other
        simp [white, ih other]
      · simp only [List.dropWhile_cons_of_neg white, List.head?_cons] at other
        simp_all

theorem atNext_permissive {p : Parser} (strict : p.settings.strict = true)
    (other : p.atNext.rest.head? ≠ some ',') : p.permissive.atNext = p.atNext := by
  simp only [atNext, strict, Cursor.rest_skipWhile] at other
  simp only [atNext, permissive, strict, Settings.withStrict, Cursor.skipWhile]
  simp only [Bool.not_true, Bool.false_and, Bool.or_false, Bool.not_false, Bool.true_and] at other ⊢
  rw [takeWhile_or_eq other]

theorem next_permissive {p : Parser} (strict : p.settings.strict = true) :
    p.permissive.next = (p.next.1, p.next.2.permissive) ∨
      ∃ fault, p.next.1 = .error (.parse fault) := by
  cases starts : p.atNext.rest with
  | nil =>
      have same := atNext_permissive strict (by simp [starts])
      cases pending : p.pendingComma with
      | none =>
          left
          simp only [next, same, starts]
          simp [permissive, pending]
      | some comma =>
          right
          simp [next, starts, pending, strict, faultAt]
  | cons first others =>
      by_cases comma : first = ','
      · right
        simp [next, starts, comma, faultAt]
      · have same := atNext_permissive strict (by simp [starts, comma])
        have settings : p.settings = ⟨true, p.settings.operands⟩ := by rw [← strict]
        rcases (Scan.lockstep_item p.settings.operands p.atNext).agrees with
          agrees | ⟨fault, last, failed⟩
        · left
          have agrees' :
              Scan.item p.permissive.settings p.atNext = Scan.item p.settings p.atNext := by
            rw [settings]; exact agrees.symm
          simp only [next, same, starts, if_neg comma, agrees']
          cases Scan.item p.settings p.atNext with
          | ok value last => simp [permissive]
          | error fault last => simp [permissive]
        · right
          rw [← settings] at failed
          simp [next, starts, comma, failed]

theorem step_permissive {p : Parser} (strict : p.settings.strict = true) :
    p.permissive.step = (p.step.1, p.step.2.permissive) ∨
      ∃ fault, p.step.1 = some (.error (.parse fault)) := by
  by_cases failed : p.failed
  · left
    simp [step, failed, permissive]
  · have alive : p.permissive.failed = false := by simpa [permissive] using failed
    rcases next_permissive strict with same | ⟨fault, at_next⟩
    · left
      simp only [step, failed, alive, same, Bool.false_eq_true, if_false]
      rcases p.next with ⟨_ | _ | _, q⟩ <;> rfl
    · right
      rcases reached : p.next with ⟨result, q⟩
      rw [reached] at at_next
      obtain rfl : result = .error (.parse fault) := at_next
      simp [step, failed, reached]

theorem drain_permissive {p : Parser} (strict : p.settings.strict = true) :
    p.drain.1 = p.permissive.drain.1 ∨ ∃ before : List Expression, ∃ fault,
      p.drain.1 = before.map .ok ++ [.error (.parse fault)] ∧
        before.map .ok <+: p.permissive.drain.1 := by
  -- Until strict reading stops, both parsers are at one cursor and each item leaves less text.
  induction left : p.cursor.rest.length using Nat.strongRecOn generalizing p with
  | ind n ih =>
      rcases step_permissive strict with same | ⟨fault, at_step⟩
      · rcases stepped : p.step with ⟨_ | fault | expression, q⟩ <;> rw [stepped] at same
        · exact .inl ((step_none stepped).trans (step_none same).symm)
        · exact .inl ((step_error stepped).2.trans (step_error same).2.symm)
        · obtain ⟨reached, here⟩ := step_ok stepped
          have settings : q.settings = p.settings := by
            rw [← settings_next p, reached]
          rcases ih _ (left ▸ length_next_lt reached) (settings ▸ strict) rfl with
            others | ⟨before, fault, others, within⟩
          · exact .inl (by rw [here, (step_ok same).2, others])
          · refine .inr ⟨expression :: before, fault, ?_, ?_⟩
            · rw [here, others]
              rfl
            · rw [(step_ok same).2]
              exact List.cons_prefix_cons.mpr ⟨rfl, within⟩
      · obtain ⟨q, stepped⟩ : ∃ q, p.step = (some (.error (.parse fault)), q) :=
          ⟨_, Prod.ext at_step rfl⟩
        exact .inr ⟨[], fault, (step_error stepped).2, List.nil_prefix⟩

theorem next_argument {p : Parser} (permissive : p.settings.strict = false) {fault : Fault}
    (failed : p.next.1 = .error fault) : fault.isArgument := by
  have settings : p.settings = ⟨false, p.settings.operands⟩ := by rw [← permissive]
  unfold next at failed
  split at failed
  · split at failed
    · cases failed
    · rw [permissive] at failed
      cases failed
  · rename_i first others starts
    split at failed
    · rename_i comma
      have test := List.head?_dropWhile_not
        (fun c => Text.isBlank c || (!p.settings.strict && c == ',')) p.cursor.rest
      rw [atNext, Cursor.rest_skipWhile] at starts
      rw [starts] at test
      simp [comma, permissive] at test
    · split at failed
      · cases failed
      · rename_i reached
        cases failed
        rw [settings] at reached
        exact (Scan.lockstep_item p.settings.operands p.atNext).argument reached

theorem drain_argument {p : Parser} (permissive : p.settings.strict = false) {fault : Fault}
    (member : .error fault ∈ p.drain.1) : fault.isArgument := by
  induction left : p.cursor.rest.length using Nat.strongRecOn generalizing p with
  | ind n ih =>
      rcases stepped : p.step with ⟨_ | cause | expression, q⟩
      · rw [step_none stepped] at member
        cases member
      · obtain ⟨reached, here⟩ := step_error stepped
        rw [here] at member
        cases List.mem_singleton.mp member
        exact next_argument permissive reached
      · obtain ⟨reached, here⟩ := step_ok stepped
        have settings : q.settings = p.settings := by
          rw [← settings_next p, reached]
        rw [here] at member
        have later : .error fault ∈ q.drain.1 := by simpa using member
        exact ih _ (left ▸ length_next_lt reached) (settings ▸ permissive) later rfl

theorem drain_strict_eq_take_drain_permissive (rule : OperandRule) (text : String) :
    let permissive := (ofText ⟨false, rule⟩ text).drain.1
    let strict := (ofText ⟨true, rule⟩ text).drain.1
    (strict = permissive ∨ ∃ k ≤ permissive.length, ∃ fault,
      strict = permissive.take k ++ [.error (.parse fault)]) ∧
    (∀ list, Expression.parseList ⟨true, rule⟩ text = .ok list →
      Expression.parseList ⟨false, rule⟩ text = .ok list) ∧
    (∀ cause, strict.getLast? = some (.error (.argument cause)) → strict = permissive) ∧
    ∀ fault, .error fault ∈ permissive → fault.isArgument := by
  intro permissive strict
  have cut : strict = permissive ∨ ∃ before : List Expression, ∃ fault,
      strict = before.map .ok ++ [.error (.parse fault)] ∧ before.map .ok <+: permissive :=
    drain_permissive (p := ofText ⟨true, rule⟩ text) rfl
  refine ⟨?_, ?_, ?_, fun fault => drain_argument rfl⟩
  · rcases cut with same | ⟨before, fault, here, within⟩
    · exact .inl same
    · refine .inr ⟨before.length, by simpa using within.length_le, fault, ?_⟩
      rw [here, List.prefix_iff_eq_take.mp within]
      simp
  · intro list accepted
    rw [parseList_eq_ok] at accepted ⊢
    rcases cut with same | ⟨before, fault, here, -⟩
    · exact same.symm.trans accepted
    · have last : strict.getLast? = some (.error (.parse fault)) := by simp [here]
      rw [show strict = list.map .ok from accepted] at last
      simp at last
  · intro cause last
    rcases cut with same | ⟨before, fault, here, -⟩
    · exact same
    · simp [here] at last

end RowQuery.Parser
