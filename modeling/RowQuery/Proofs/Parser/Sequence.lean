import RowQuery.Parser

/-!
The steps of the parser and of the readings under it, as equations: the operands of a call one part
at a time, and the expressions of a select list one step at a time.
-/

namespace RowQuery

namespace Scan

/-- The operands after a part of the arguments. -/
def operandsAfter (strict : Bool) (opening : Position) :
    Option (List Operand × Bool) → Scan (List Operand)
  | none => pure []
  | some (read, comma) => do
    let others ← (operands strict opening comma : Scan (List Operand))
    return read ++ others

theorem operands_eq (strict : Bool) (opening : Position) (afterComma : Bool) :
    operands strict opening afterComma =
      part strict opening afterComma >>= operandsAfter strict opening := by
  funext c
  rw [operands]
  split <;> rename_i reached
  · exact (bind_of_error reached).symm
  · rw [bind_of_ok reached]
    rfl
  · rw [bind_of_ok reached]
    split <;> rename_i at_rest
    · simp only [operandsAfter, bind_of_ok at_rest]
      rfl
    · simp only [operandsAfter, bind_of_error at_rest]

theorem ofTerm_eq_ok_iff {term : Term} {e : Expression} :
    Expression.ofTerm term = .ok e ↔ e.term = term ∧ e.label = "" := by
  unfold Expression.ofTerm
  split
  · rename_i sound
    constructor
    · rintro ⟨⟩
      exact ⟨rfl, rfl⟩
    · obtain ⟨term', label, sound'⟩ := e
      rintro ⟨rfl, rfl⟩
      rfl
  · rename_i cause flawed
    constructor
    · rintro ⟨⟩
    · rintro ⟨rfl, -⟩
      cases flawed.symm.trans e.sound

theorem ofTerm_eq_error {term : Term} {fault : Fault}
    (failed : Expression.ofTerm term = .error fault) :
    ∃ cause, term.flaw? = some cause ∧ fault = .argument cause := by
  unfold Expression.ofTerm at failed
  split at failed
  · cases failed
  · rename_i cause flawed
    cases failed
    exact ⟨cause, flawed, rfl⟩

theorem gives_build (term : Term) (c : Cursor) :
    Gives (build term) c fun e _ => e.term = term ∧ e.label = "" := by
  intro e last reached
  cases made : Expression.ofTerm term with
  | error fault =>
      simp only [build, made] at reached
      cases reached
  | ok e' =>
      simp only [build, made] at reached
      cases reached
      exact ofTerm_eq_ok_iff.mp made

theorem forward_call (settings : Settings) (keyword : Lookahead.Keyword) :
    Forward (call settings keyword) where
  ok reached := by
    obtain ⟨count, rfl⟩ := (takes_call ..).ok reached
    exact ⟨count + 1, rfl⟩
  error failed := by
    obtain ⟨count, rfl⟩ := (takes_call ..).error failed
    exact ⟨count + 1, rfl⟩

theorem forward_term (settings : Settings) : Forward (term settings) := by
  refine forward_rest.bind fun _ => ?_
  split
  · exact (forward_quotedName ..).bind fun _ => forward_build _
  · split
    · exact forward_call ..
    · exact (forward_nameFrom _).bind fun _ => forward_build _

end Scan

namespace Parser

theorem settings_next (p : Parser) : p.next.2.settings = p.settings := by
  unfold next
  split
  · split
    · rfl
    · split <;> rfl
  · split
    · rfl
    · split <;> rfl

theorem next_eq_some_iff {p q : Parser} {e : Expression} :
    p.next = (.ok (some e), q) ↔ ∃ first others pending last,
      p.atNext.rest = first :: others ∧ first ≠ ',' ∧
      Scan.item p.settings p.atNext = .ok (e, pending) last ∧
      q = { p with cursor := last, pendingComma := pending } := by
  rw [next]
  cases starts : p.atNext.rest with
  | nil =>
      refine iff_of_false ?_ (by simp)
      cases p.pendingComma with
      | none => simp
      | some comma => dsimp only; split <;> simp
  | cons first others =>
      by_cases comma : first = ','
      · subst comma
        apply iff_of_false (by simp)
        rintro ⟨_, _, _, _, same, other, -⟩
        exact other (List.cons.inj same).1.symm
      · simp only [if_neg comma]
        cases read : Scan.item p.settings p.atNext with
        | error fault last => simp
        | ok result last =>
            obtain ⟨made, pending⟩ := result
            constructor
            · rintro ⟨⟩
              exact ⟨first, others, pending, last, rfl, comma, rfl, rfl⟩
            · rintro ⟨_, _, _, _, -, -, ⟨⟩, rfl⟩
              rfl

theorem drain_of_failed {p : Parser} (failed : p.failed = true) : p.drain.1 = [] := by
  rw [drain, if_pos failed]

theorem step_none {p q : Parser} (stepped : p.step = (none, q)) : p.drain.1 = [] := by
  unfold step at stepped
  split at stepped
  · exact drain_of_failed ‹_›
  · rename_i alive
    rw [drain, if_neg alive]
    split at stepped <;> rename_i reached <;> cases stepped
    split <;> rename_i again <;> rw [reached] at again <;> cases again

theorem step_ok {p q : Parser} {expression : Expression}
    (stepped : p.step = (some (.ok expression), q)) :
    p.next = (.ok (some expression), q) ∧ p.drain.1 = .ok expression :: q.drain.1 := by
  unfold step at stepped
  split at stepped
  · cases stepped
  · rename_i alive
    split at stepped <;> rename_i reached <;> cases stepped
    refine ⟨reached, ?_⟩
    rw [drain, if_neg alive]
    split <;> rename_i again <;> rw [reached] at again <;> cases again
    rfl

theorem step_error {p q : Parser} {fault : Fault} (stepped : p.step = (some (.error fault), q)) :
    p.next.1 = .error fault ∧ p.drain.1 = [.error fault] := by
  unfold step at stepped
  split at stepped
  · cases stepped
  · rename_i alive
    split at stepped <;> rename_i reached <;> cases stepped
    refine ⟨congrArg Prod.fst reached, ?_⟩
    rw [drain, if_neg alive]
    split <;> rename_i again <;> rw [reached] at again <;> cases again
    rfl

section
variable {p q : Parser}

theorem drain_of_next_none (alive : p.failed = false) (reached : p.next = (.ok none, q)) :
    p.drain.1 = [] :=
  step_none (show p.step = (none, q) by simp [step, alive, reached])

theorem drain_of_next_ok {e : Expression} (alive : p.failed = false)
    (reached : p.next = (.ok (some e), q)) : p.drain.1 = .ok e :: q.drain.1 :=
  (step_ok (show p.step = (some (.ok e), q) by simp [step, alive, reached])).2

theorem drain_of_next_error {fault : Fault} (alive : p.failed = false)
    (reached : p.next = (.error fault, q)) : p.drain.1 = [.error fault] :=
  (step_error (show p.step = (some (.error fault), { q with failed := true }) by
    simp [step, alive, reached])).2

theorem drain_eq_cons_iff {e : Expression} {list : List Expression} (alive : p.failed = false) :
    p.drain.1 = (e :: list).map .ok ↔
      ∃ q, p.next = (.ok (some e), q) ∧ q.drain.1 = list.map .ok := by
  rcases reached : p.next with ⟨fault | (_ | e'), q⟩
  · simp [drain_of_next_error alive reached]
  · simp [drain_of_next_none alive reached]
  · simp [drain_of_next_ok alive reached, and_assoc]

end

theorem mapM_map_ok (list : List Expression) :
    (list.map (Except.ok (ε := Fault))).mapM id = .ok list := by
  induction list with
  | nil => rfl
  | cons expression list ih =>
      rw [List.map_cons, List.mapM_cons, ih]
      rfl

theorem eq_map_ok_of_mapM {items : List (Except Fault Expression)} {list : List Expression}
    (accepted : items.mapM id = .ok list) : items = list.map .ok := by
  induction items generalizing list with
  | nil =>
      cases accepted
      rfl
  | cons item items ih =>
      rw [List.mapM_cons] at accepted
      cases item with
      | error fault => cases accepted
      | ok expression =>
          cases rest : items.mapM id with
          | error fault =>
              rw [rest] at accepted
              cases accepted
          | ok others =>
              rw [rest] at accepted
              cases accepted
              rw [ih rest, List.map_cons]

theorem parseList_eq_ok {settings : Settings} {text : String} {list : List Expression} :
    Expression.parseList settings text = .ok list ↔
      (ofText settings text).drain.1 = list.map .ok := by
  refine ⟨eq_map_ok_of_mapM, fun whole => ?_⟩
  rw [Expression.parseList, whole, mapM_map_ok]

theorem eq_ok_of_toOption {α : Type} {result : Except Fault α} {value : α}
    (read : result.toOption = some value) : result = .ok value := by
  cases result with
  | error fault => cases read
  | ok other =>
      cases read
      rfl

end Parser

end RowQuery
