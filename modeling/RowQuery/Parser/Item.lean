import RowQuery.Parser.Scan

/-!
Reading one item of a select list: its term, its alias and the comma after it. Main statement: an
item takes at least one character.
-/

namespace RowQuery.Scan

open Lookahead

/-- The operands of CONCAT from the cursor to the end of the call. -/
def operands (strict : Bool) (opening : Position) (afterComma : Bool) (c : Cursor) :
    EStateM.Result Fault Cursor (List Operand) :=
  match _reached : part strict opening afterComma c with
  | .error fault last => .error fault last
  | .ok none last => .ok [] last
  | .ok (some (read, comma)) next =>
    match operands strict opening comma next with
    | .ok others last => .ok (read ++ others) last
    | .error fault last => .error fault last
termination_by c.rest.length
decreasing_by exact gives_part strict opening afterComma c _ _ _reached rfl

/-- The expression of a term, or the fault that there is none. -/
def build (term : Term) : Scan Expression :=
  match Expression.ofTerm term with
  | .ok expression => pure expression
  | .error fault => throw fault

/-- A call, the cursor at the name of its function. -/
def call (settings : Settings) (keyword : Keyword) : Scan Expression := do
  skip keyword.name.length
  let opening ← position
  skip 1
  match keyword with
  | .aggregate function =>
    let (column, distinct) ← argument settings.strict opening
    build (.aggregate (.of function column distinct settings.operands))
  | .concat => build (.concat (← operands settings.strict opening false))

/-- A bare name, of which some letters were read before. -/
def nameFrom (letters : List Char) : Scan String := do
  skip letters.length
  return String.ofList letters ++ (← bareName false)

/-- A column or a call. Letters that begin the name of a function and turn out to be of no call
are the first ones of a column. -/
def term (settings : Settings) : Scan Expression := do
  let chars ← rest
  match chars.head?.filter Name.opens with
  | some opening => build (.column (← quotedName settings.strict opening))
  | none =>
    match call? chars with
    | some keyword => call settings keyword
    | none => build (.column (← nameFrom (spelled [] chars)))

/-- Moves past blanks, `AS` and more blanks, to the character that an alias starts with. -/
def labelStart : Scan (Option Char) := do
  skipBlanks
  let introduced ← wordAndGap "AS".toList
  return (← rest).head?.filter fun first => introduced && first != ','

/-- The name of an alias that starts with the given character. -/
def labelName (strict : Bool) (first : Char) : Scan String :=
  if Name.opens first then quotedName strict first else bareName false

/-- The alias, if there is one; otherwise the cursor goes back to the start. -/
def label (strict : Bool) : Scan (Option String) := do
  let mark ← position
  match ← labelStart with
  | some first => return some (← labelName strict first)
  | none =>
    rewind mark
    return none

/-- Past the comma after an item, if there is one, and the place of that comma. -/
def comma (strict : Bool) : Scan (Option Position) := do
  skipBlanks
  match ← rest with
  | [] => return none
  | ',' :: _ =>
    let comma ← position
    skip 1
    return some comma
  | _ :: _ =>
    recover strict (← position) .missingSeparator
    return none

/-- An item of a select list, and the place of the comma after it. -/
def item (settings : Settings) : Scan (Expression × Option Position) := do
  let expression ← term settings
  let label ← label settings.strict
  let comma ← comma settings.strict
  return (expression.withLabel (label.getD ""), comma)

/-! ## Looking ahead -/

/-- An alias is found if the words before it stand at the cursor. -/
theorem labelStart_cases (c : Cursor) :
    (∃ length first, label? c.rest = some length ∧ (c.skip length).rest.head? = some first ∧
        labelStart c = .ok (some first) (c.skip length)) ∨
      (label? c.rest = none ∧ ∃ count, labelStart c = .ok none (c.skip count)) := by
  have begins {introduced : Bool} {last : Cursor}
      (read : wordAndGap "AS".toList c.skipBlanks = .ok introduced last) : labelStart c =
        .ok (last.rest.head?.filter fun first => introduced && first != ',') last :=
    (bind_of_ok read : _)
  have blanks : c.skipBlanks.rest = c.rest.dropWhile Text.isBlank := c.rest_skipWhile Text.isBlank
  have moves (count : Nat) : c.skipBlanks.skip count =
      c.skip ((c.rest.takeWhile Text.isBlank).length + count) := Cursor.skip_skip ..
  rcases wordAndGap_cases "AS".toList c.skipBlanks with
    ⟨rest, count, found, gap, rfl, left, read⟩ | ⟨missing, count, read⟩
  · have at_start := begins read
    rw [blanks] at found
    rw [moves, ← Nat.add_assoc] at left at_start
    rw [left] at at_start
    cases starts : rest.dropWhile Text.isBlank with
    | nil =>
      rw [starts] at at_start
      exact .inr ⟨by simp only [label?, found, starts], _, at_start⟩
    | cons first others =>
      rw [starts] at left at_start
      by_cases comma : first = ','
      · subst comma
        exact .inr ⟨by simp only [label?, found, starts, or_true, if_true], _, at_start⟩
      · refine .inl ⟨_, first, ?_, by rw [left]; rfl, at_start.trans (by simp [comma])⟩
        simp only [label?, found, starts, gap, comma, or_self, if_false]
        rfl
  · refine .inr ⟨?_, (c.rest.takeWhile Text.isBlank).length + count, ?_⟩
    · simp only [label?]
      split
      · rfl
      · rename_i rest found
        rw [← blanks] at found
        split
        · rfl
        · exact if_pos (.inl (missing rest found))
    · rw [begins read, moves]
      cases (c.skip _).rest <;> rfl

theorem label_cases (strict : Bool) (c : Cursor) :
    (∃ length first, label? c.rest = some length ∧ (c.skip length).rest.head? = some first ∧
        label strict c = (labelName strict first >>= fun name => pure (some name))
          (c.skip length)) ∨
      (label? c.rest = none ∧ label strict c = .ok none c) := by
  have from_start : label strict c = (labelStart >>= fun start => match start with
      | some first => labelName strict first >>= fun name => pure (some name)
      | none => rewind c.position >>= fun _ => pure none) c := rfl
  rcases labelStart_cases c with ⟨length, first, found, starts, read⟩ | ⟨missing, count, read⟩
  · exact .inl ⟨length, first, found, starts, from_start.trans (bind_of_ok read)⟩
  · refine .inr ⟨missing, from_start.trans ((bind_of_ok read).trans ?_)⟩
    exact congrArg (EStateM.Result.ok none) (c.moveTo_skip count)

/-- Whether there is an alias, and where it starts, can be told without moving. -/
theorem label_eq (strict : Bool) : label strict = do
    match label? (← rest) with
    | none => return none
    | some length =>
      skip length
      match (← rest).head?.filter Name.opens with
      | some opening => return some (← quotedName strict opening)
      | none => return some (← bareName false) := by
  funext c
  change label strict c =
    (match label? c.rest with
      | none => pure none
      | some length => skip length >>= fun _ => rest >>= fun chars =>
        match chars.head?.filter Name.opens with
        | some opening => quotedName strict opening >>= fun name => pure (some name)
        | none => bareName false >>= fun name => pure (some name) : Scan (Option String)) c
  rcases label_cases strict c with ⟨length, first, found, starts, read⟩ | ⟨missing, read⟩
  · have same : (labelName strict first >>= fun name => pure (some name)) =
        match (c.skip length).rest.head?.filter Name.opens with
        | some opening => quotedName strict opening >>= fun name => pure (some name)
        | none => bareName false >>= fun name => pure (some name) := by
      rw [labelName, starts, Option.filter_some]
      cases Name.opens first <;> rfl
    rw [read, found]
    exact congrFun same (c.skip length)
  · rw [read, missing]
    rfl

/-! ## Taking characters -/

theorem forward_operands (strict : Bool) (opening : Position) (afterComma : Bool) :
    Forward (operands strict opening afterComma) := by
  have all (c : Cursor) : (∀ result last, operands strict opening afterComma c = .ok result last →
        ∃ count, last = c.skip count) ∧
      ∀ fault last, operands strict opening afterComma c = .error fault last →
        ∃ count, last = c.skip count := by
    fun_induction operands strict opening afterComma c with
    | case1 afterComma c fault last reached =>
      constructor <;> intro _ _ same <;> cases same
      exact (forward_part ..).error reached
    | case2 afterComma c last reached =>
      constructor <;> intro _ _ same <;> cases same
      exact (forward_part ..).ok reached
    | case3 afterComma c read comma next reached others last at_rest ih =>
      constructor <;> intro _ _ same <;> cases same
      obtain ⟨moved, rfl⟩ := (forward_part ..).ok reached
      obtain ⟨more, rfl⟩ := ih.1 _ _ at_rest
      exact ⟨moved + more, Cursor.skip_skip ..⟩
    | case4 afterComma c read comma next reached fault last at_rest ih =>
      constructor <;> intro _ _ same <;> cases same
      obtain ⟨moved, rfl⟩ := (forward_part ..).ok reached
      obtain ⟨more, rfl⟩ := ih.2 _ _ at_rest
      exact ⟨moved + more, Cursor.skip_skip ..⟩
  exact ⟨fun reached => (all _).1 _ _ reached, fun reached => (all _).2 _ _ reached⟩

theorem forward_build (term : Term) : Forward (build term) := by
  unfold build
  split
  · exact forward_pure _
  · exact forward_throw _

theorem takes_call (settings : Settings) (keyword : Keyword) (c : Cursor) :
    Takes (call settings keyword) c := by
  have named : ∃ count, keyword.name.length = count + 1 := by
    cases keyword with
    | aggregate function => cases function <;> exact ⟨_, rfl⟩
    | concat => exact ⟨_, rfl⟩
  obtain ⟨count, length⟩ := named
  unfold call
  rw [length]
  refine takes_skip fun _ => forward_position.bind fun _ => (forward_skip _).bind fun _ => ?_
  cases keyword with
  | aggregate function => exact (forward_argument ..).bind fun _ => forward_build _
  | concat => exact (forward_operands ..).bind fun _ => forward_build _

theorem forward_nameFrom (letters : List Char) : Forward (nameFrom letters) :=
  (forward_skip _).bind fun _ => (forward_bareName _).bind fun _ => forward_pure _

theorem takes_nameFrom {letters : List Char} {c : Cursor} {first : Char} {others : List Char}
    (starts : c.rest = first :: others) (begins : endsBare false first = false) :
    Takes (nameFrom letters) c := by
  cases letters with
  | nil =>
    have here : nameFrom [] c = (bareName false >>= fun name => pure ("" ++ name)) c := by
      rw [nameFrom, List.length_nil]
      exact congrArg (bareName false >>= fun name => pure ("" ++ name)) c.skip_zero
    have takes : Takes (bareName false >>= fun name => pure ("" ++ name)) c :=
      (takes_bareName starts begins).bind fun _ => forward_pure _
    exact ⟨fun reached => takes.ok (here ▸ reached), fun failed => takes.error (here ▸ failed)⟩
  | cons letter letters =>
    exact takes_skip fun _ => (forward_bareName _).bind fun _ => forward_pure _

/-- A term takes at least one character, at a cursor before neither a blank nor a comma. -/
theorem takes_term {settings : Settings} {c : Cursor} {first : Char} {others : List Char}
    (starts : c.rest = first :: others) (begins : endsBare false first = false) :
    Takes (term settings) c := by
  refine takes_rest ?_
  split
  · exact (takes_quotedName settings.strict _ c).bind fun _ => forward_build _
  · split
    · exact takes_call settings _ c
    · exact (takes_nameFrom starts begins).bind fun _ => forward_build _

theorem forward_label (strict : Bool) : Forward (label strict) := by
  rw [label_eq]
  refine forward_rest.bind fun _ => ?_
  split
  · exact forward_pure _
  · refine (forward_skip _).bind fun _ => forward_rest.bind fun _ => ?_
    split
    · exact (forward_quotedName ..).bind fun _ => forward_pure _
    · exact (forward_bareName _).bind fun _ => forward_pure _

theorem forward_comma (strict : Bool) : Forward (comma strict) := by
  refine forward_skipBlanks.bind fun _ => forward_rest.bind fun _ => ?_
  split
  · exact forward_pure _
  · exact forward_position.bind fun _ => (forward_skip _).bind fun _ => forward_pure _
  · exact forward_position.bind fun _ => (forward_recover ..).bind fun _ => forward_pure _

/-- An item takes at least one character, at a cursor before neither a blank nor a comma. -/
theorem takes_item {settings : Settings} {c : Cursor} {first : Char} {others : List Char}
    (starts : c.rest = first :: others) (begins : endsBare false first = false) :
    Takes (item settings) c :=
  (takes_term starts begins).bind fun _ => (forward_label _).bind fun _ =>
    (forward_comma _).bind fun _ => forward_pure _

end RowQuery.Scan
