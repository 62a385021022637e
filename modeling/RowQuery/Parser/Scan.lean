import RowQuery.Expression
import RowQuery.Parser.Lookahead

/-!
Reading the parts of a select list at a cursor. A fault leaves the cursor where it was noticed. Main
statements: reading never moves back, and an operand takes at least one character.
-/

namespace RowQuery

/-- A reading at a cursor. -/
abbrev Scan := EStateM Fault Cursor

namespace Scan

open Lookahead

/-- The characters from the cursor on. -/
def rest : Scan (List Char) :=
  return (← get).rest

/-- The place of the cursor. -/
def position : Scan Position :=
  return (← get).position

/-- Moves past some characters. -/
def skip (count : Nat) : Scan Unit :=
  modify (Cursor.skip count)

/-- Moves past blanks. -/
def skipBlanks : Scan Unit :=
  modify Cursor.skipBlanks

/-- Notes that the text is malformed: a fault if reading is strict, nothing otherwise. -/
def recover (strict : Bool) (position : Position) (cause : ParseCause) : Scan Unit := do
  if strict then
    let cursor ← get
    throw (.parse ⟨cause, position, String.ofList cursor.text⟩)

/-- A bare name. -/
def bareName (inCall : Bool) : Scan String := do
  let name := bare inCall (← rest)
  skip name.length
  return String.ofList name

/-- A quoted name, the cursor at its opening quote. -/
def quotedName (strict : Bool) (opening : Char) : Scan String := do
  let start ← position
  let name := quoted (Name.closing opening) (← rest).tail
  skip (name.length + 1)
  if !name.closed then recover strict start .unterminatedName
  return String.ofList name.text

/-- A literal, the cursor at its opening quote. -/
def quotedLiteral (strict : Bool) : Scan String := do
  let start ← position
  let text := literal (← rest).tail
  skip (text.length + 1)
  if !text.closed then recover strict start .unterminatedLiteral
  return String.ofList text.text

/-- Goes back to a place that was noted before. -/
def rewind (mark : Position) : Scan Unit :=
  modify (Cursor.moveTo mark)

/-- Moves past a letter in either case, if it stands at the cursor. -/
def eat (letter : Char) : Scan Bool :=
  modifyGet (Cursor.eat letter)

/-- Moves past a word letter by letter, up to the first letter that does not stand there. -/
def word : List Char → Scan Bool
  | [] => return true
  | letter :: letters => eat letter <&&> word letters

/-- Moves past blanks, and whether there were any. -/
def gap : Scan Bool := do
  let start ← position
  skipBlanks
  return start.offset < (← position).offset

/-- Moves past a word and the blanks after it, of which there must be some. Where one of the two is
missing, the cursor stays behind what was found of them. -/
def wordAndGap (letters : List Char) : Scan Bool :=
  word letters <&&> gap

/-- Moves past DISTINCT and the blanks after it, if it is there, and back to the start otherwise. -/
def distinct : Scan Bool := do
  let mark ← position
  if ← wordAndGap "DISTINCT".toList then return true
  else
    rewind mark
    return false

/-- The name of the column in a call. -/
def argumentName (strict : Bool) : Scan String := do
  match ← rest with
  | '*' :: _ => skip 1; return "*"
  | c :: _ => if Name.opens c then quotedName strict c else bareName true
  | [] => bareName true

/-- The argument of an aggregate call and the closing parenthesis. If the argument does not end
there, everything after the opening one up to the next closing one is the name of the column. -/
def argument (strict : Bool) (opening : Position) : Scan (String × Bool) := do
  let first := (← position).offset
  skipBlanks
  let distinct ← distinct
  skipBlanks
  let column ← argumentName strict
  skipBlanks
  let chars ← rest
  if chars.head? = some ')' then
    skip 1
    return (column, distinct)
  else
    let unexpected ← position
    let body := chars.takeWhile (· != ')')
    skip (body.length + 1)
    if body.length < chars.length then recover strict unexpected .junkInCall
    else recover strict opening .unterminatedCall
    let raw := (← get).slice first (unexpected.offset + body.length)
    return (String.ofList (Text.trimChars raw), false)

/-- An operand of CONCAT. -/
def operand (strict : Bool) : Scan Operand := do
  match ← rest with
  | '\'' :: _ => return .literal (← quotedLiteral strict)
  | c :: _ =>
    if Name.opens c then return .column (← quotedName strict c)
    else return .column (← bareName true)
  | [] => return .column (← bareName true)

/-- What follows an operand: past a comma if there is one, and whether there was. -/
def separator (strict : Bool) : Scan Bool := do
  skipBlanks
  match ← rest with
  | ',' :: _ => skip 1; return true
  | ')' :: _ | [] => return false
  | _ :: _ => recover strict (← position) .missingSeparatorInCall; return false

/-- A part of the arguments of CONCAT: `none` at their end, otherwise the operand if there is one,
and whether a comma came last. -/
def part (strict : Bool) (opening : Position) (afterComma : Bool) :
    Scan (Option (List Operand × Bool)) := do
  skipBlanks
  match ← rest with
  | [] => recover strict opening .unterminatedCall; return none
  | ')' :: _ =>
    if afterComma then recover strict (← position) .emptyArgument
    skip 1
    return none
  | ',' :: _ =>
    recover strict (← position) .emptyArgument
    skip 1
    return some ([], true)
  | _ :: _ =>
    let operand ← operand strict
    let comma ← separator strict
    return some ([operand], comma)

/-! ## Looking ahead -/

theorem bind_of_ok {α β : Type} {first : Scan α} {second : α → Scan β} {c middle : Cursor}
    {result : α} (reached : first c = .ok result middle) :
    (first >>= second) c = second result middle := by
  simp only [bind, EStateM.bind, reached]

theorem andM_of_true {first second : Scan Bool} {c middle : Cursor}
    (found : first c = .ok true middle) : (first <&&> second) c = second middle :=
  bind_of_ok found

theorem andM_of_false {first second : Scan Bool} {c middle : Cursor}
    (missing : first c = .ok false middle) : (first <&&> second) c = .ok false middle :=
  bind_of_ok missing

theorem eat_apply (letter : Char) (c : Cursor) :
    eat letter c = .ok (c.eat letter).1 (c.eat letter).2 :=
  rfl

/-- A word is found letter by letter if it stands at the cursor as a whole. -/
theorem word_cases (letters : List Char) (c : Cursor) :
    (afterWord? letters c.rest = some (c.skip letters.length).rest ∧
        word letters c = .ok true (c.skip letters.length)) ∨
      (afterWord? letters c.rest = none ∧ ∃ count, word letters c = .ok false (c.skip count)) := by
  induction letters generalizing c with
  | nil =>
    rw [List.length_nil, c.skip_zero, afterWord?]
    exact .inl ⟨rfl, rfl⟩
  | cons letter letters ih =>
    have stays (missing : c.eat letter = (false, c)) :
        ∃ count, word (letter :: letters) c = .ok false (c.skip count) := by
      have at_letter : eat letter c = .ok false c := by rw [eat_apply, missing]
      exact ⟨0, by rw [c.skip_zero, word, andM_of_false at_letter]⟩
    cases starts : c.rest with
    | nil => exact .inr ⟨rfl, stays (by rw [Cursor.eat, Cursor.peek, starts]; rfl)⟩
    | cons first others =>
      have left : (c.skip 1).rest = others := by rw [Cursor.rest_skip, starts]; rfl
      by_cases same : Cursor.sameLetter first letter
      · have eaten : c.eat letter = (true, c.skip 1) := by
          simp [Cursor.eat, Cursor.peek, starts, same]
        have at_letter : eat letter c = .ok true (c.skip 1) := by rw [eat_apply, eaten]
        have rest := ih (c.skip 1)
        rw [left, Cursor.skip_skip] at rest
        rw [afterWord?, if_pos same, word, andM_of_true at_letter, List.length_cons, Nat.add_comm]
        refine rest.imp id (And.imp id ?_)
        rintro ⟨count, missing⟩
        exact ⟨1 + count, by rw [missing, Cursor.skip_skip]⟩
      · refine .inr ⟨by rw [afterWord?, if_neg same], stays ?_⟩
        simp [Cursor.eat, Cursor.peek, starts, same]

theorem gap_apply (c : Cursor) :
    gap c = .ok (!(c.rest.takeWhile Text.isBlank).isEmpty) c.skipBlanks := by
  have taken : (c.rest.takeWhile Text.isBlank).length ≤ c.rest.length :=
    (List.takeWhile_sublist _).length_le
  have moved : c.position.offset < c.skipBlanks.position.offset ↔
      0 < (c.rest.takeWhile Text.isBlank).length := by
    rw [Cursor.skipBlanks, Cursor.skipWhile, Cursor.offset_skip]
    omega
  have given : gap c = .ok (decide (c.position.offset < c.skipBlanks.position.offset))
      c.skipBlanks := rfl
  rw [given]
  simp only [moved]
  cases c.rest.takeWhile Text.isBlank <;> rfl

/-- A word and the blanks after it are moved past if both stand at the cursor. -/
theorem wordAndGap_cases (letters : List Char) (c : Cursor) :
    (∃ rest count, afterWord? letters c.rest = some rest ∧ rest.takeWhile Text.isBlank ≠ [] ∧
        count = letters.length + (rest.takeWhile Text.isBlank).length ∧
        (c.skip count).rest = rest.dropWhile Text.isBlank ∧
        wordAndGap letters c = .ok true (c.skip count)) ∨
      ((∀ rest, afterWord? letters c.rest = some rest → rest.takeWhile Text.isBlank = []) ∧
        ∃ count, wordAndGap letters c = .ok false (c.skip count)) := by
  rcases word_cases letters c with ⟨found, read⟩ | ⟨missing, count, read⟩
  · have reached := (andM_of_true read).trans (gap_apply (c.skip letters.length))
    have left := (c.skip letters.length).rest_skipWhile Text.isBlank
    rw [Cursor.skipBlanks] at reached
    rw [Cursor.skipWhile, Cursor.skip_skip] at reached left
    generalize (c.skip letters.length).rest = rest at found reached left
    cases blanks : (rest.takeWhile Text.isBlank).isEmpty with
    | true =>
      rw [blanks] at reached
      refine .inr ⟨fun other same => ?_, _, reached⟩
      cases found.symm.trans same
      exact List.isEmpty_iff.mp blanks
    | false =>
      rw [blanks] at reached
      exact .inl ⟨rest, _, found, List.isEmpty_eq_false_iff.mp blanks, rfl, left, reached⟩
  · refine .inr ⟨fun rest found => ?_, count, andM_of_false read⟩
    cases missing.symm.trans found

theorem distinct_cases (c : Cursor) :
    (∃ length, distinct? c.rest = some length ∧ distinct c = .ok true (c.skip length)) ∨
      (distinct? c.rest = none ∧ distinct c = .ok false c) := by
  rcases wordAndGap_cases "DISTINCT".toList c with
    ⟨rest, count, found, blanks, length, -, read⟩ | ⟨missing, count, read⟩
  · refine .inl ⟨count, ?_, (bind_of_ok read : _)⟩
    rw [distinct?, found, length]
    exact if_neg blanks
  · have back : distinct c = .ok false ((c.skip count).moveTo c.position) := (bind_of_ok read : _)
    refine .inr ⟨?_, by rw [back, Cursor.moveTo_skip]⟩
    rw [distinct?]
    split
    · rfl
    · rename_i rest found
      exact if_pos (missing rest found)

/-- Whether DISTINCT and blanks stand at the cursor can be told without moving. -/
theorem distinct_eq : distinct = do
    match distinct? (← rest) with
    | some length => skip length; return true
    | none => return false := by
  funext c
  change distinct c = (match distinct? c.rest with
    | some length => skip length >>= fun _ => pure true
    | none => pure false : Scan Bool) c
  rcases distinct_cases c with ⟨length, found, read⟩ | ⟨missing, read⟩
  · rw [read, found]
    rfl
  · rw [read, missing]
    rfl

/-! ## Moving forward -/

/-- A reading that leaves the cursor at or after its start, in the same text. -/
structure Forward {α : Type} (reading : Scan α) : Prop where
  ok : ∀ {c result last}, reading c = .ok result last → ∃ count, last = c.skip count
  error : ∀ {c fault last}, reading c = .error fault last → ∃ count, last = c.skip count

theorem bind_of_error {α β : Type} {first : Scan α} {second : α → Scan β} {c last : Cursor}
    {fault : Fault} (failed : first c = .error fault last) :
    (first >>= second) c = .error fault last := by
  simp only [bind, EStateM.bind, failed]

theorem bind_ok {α β : Type} {first : Scan α} {second : α → Scan β} {c last : Cursor} {result : β}
    (reached : (first >>= second) c = .ok result last) :
    ∃ value middle, first c = .ok value middle ∧ second value middle = .ok result last := by
  cases at_first : first c with
  | error fault middle =>
    rw [bind_of_error at_first] at reached
    cases reached
  | ok value middle =>
    rw [bind_of_ok at_first] at reached
    exact ⟨value, middle, rfl, reached⟩

theorem Forward.bind {α β : Type} {first : Scan α} {second : α → Scan β} (start : Forward first)
    (next : ∀ result, Forward (second result)) : Forward (first >>= second) where
  ok := by
    intro c result last reached
    obtain ⟨value, middle, at_first, at_second⟩ := bind_ok reached
    obtain ⟨moved, rfl⟩ := start.ok at_first
    obtain ⟨more, rfl⟩ := (next value).ok at_second
    exact ⟨moved + more, Cursor.skip_skip ..⟩
  error := by
    intro c fault last reached
    cases at_first : first c with
    | error fault' last' =>
      rw [bind_of_error at_first] at reached
      cases reached
      exact start.error at_first
    | ok value middle =>
      rw [bind_of_ok at_first] at reached
      obtain ⟨moved, rfl⟩ := start.ok at_first
      obtain ⟨more, rfl⟩ := (next value).error reached
      exact ⟨moved + more, Cursor.skip_skip ..⟩

theorem forward_of_ok {α : Type} {reading : Scan α} (result : Cursor → α) (count : Cursor → Nat)
    (reads : ∀ c, reading c = .ok (result c) (c.skip (count c))) : Forward reading where
  ok := by
    intro c _ last reached
    rw [reads c] at reached
    cases reached
    exact ⟨_, rfl⟩
  error := by
    intro c _ last reached
    rw [reads c] at reached
    cases reached

theorem forward_pure {α : Type} (result : α) : Forward (pure result : Scan α) :=
  forward_of_ok (fun _ => result) (fun _ => 0) fun _ => rfl

theorem forward_rest : Forward rest :=
  forward_of_ok Cursor.rest (fun _ => 0) fun _ => rfl

theorem forward_position : Forward position :=
  forward_of_ok Cursor.position (fun _ => 0) fun _ => rfl

theorem forward_get : Forward (get : Scan Cursor) :=
  forward_of_ok id (fun _ => 0) fun _ => rfl

theorem forward_skip (count : Nat) : Forward (skip count) :=
  forward_of_ok (fun _ => ()) (fun _ => count) fun _ => rfl

theorem forward_skipBlanks : Forward skipBlanks :=
  forward_of_ok (fun _ => ()) (fun c => (c.rest.takeWhile Text.isBlank).length) fun _ => rfl

theorem forward_throw {α : Type} (fault : Fault) : Forward (throw fault : Scan α) where
  ok := by
    intro _ _ _ reached
    cases reached
  error := by
    intro _ _ _ reached
    cases reached
    exact ⟨0, (Cursor.skip_zero _).symm⟩

theorem forward_recover (strict : Bool) (position : Position) (cause : ParseCause) :
    Forward (recover strict position cause) := by
  unfold recover
  split
  · exact forward_get.bind fun _ => forward_throw _
  · exact forward_pure _

theorem forward_bareName (inCall : Bool) : Forward (bareName inCall) :=
  forward_rest.bind fun _ => (forward_skip _).bind fun _ => forward_pure _

theorem forward_quotedName (strict : Bool) (opening : Char) :
    Forward (quotedName strict opening) := by
  refine forward_position.bind fun _ => forward_rest.bind fun _ => (forward_skip _).bind fun _ => ?_
  split
  · exact (forward_recover ..).bind fun _ => forward_pure _
  · exact (forward_pure _).bind fun _ => forward_pure _

theorem forward_quotedLiteral (strict : Bool) : Forward (quotedLiteral strict) := by
  refine forward_position.bind fun _ => forward_rest.bind fun _ => (forward_skip _).bind fun _ => ?_
  split
  · exact (forward_recover ..).bind fun _ => forward_pure _
  · exact (forward_pure _).bind fun _ => forward_pure _

theorem forward_distinct : Forward distinct := by
  rw [distinct_eq]
  refine forward_rest.bind fun _ => ?_
  split
  · exact (forward_skip _).bind fun _ => forward_pure _
  · exact forward_pure _

theorem forward_argumentName (strict : Bool) : Forward (argumentName strict) := by
  refine forward_rest.bind fun _ => ?_
  split
  · exact (forward_skip _).bind fun _ => forward_pure _
  · split
    · exact forward_quotedName ..
    · exact forward_bareName _
  · exact forward_bareName _

theorem forward_argument (strict : Bool) (opening : Position) :
    Forward (argument strict opening) := by
  refine forward_position.bind fun _ => forward_skipBlanks.bind fun _ =>
    forward_distinct.bind fun _ => forward_skipBlanks.bind fun _ =>
    (forward_argumentName strict).bind fun _ => forward_skipBlanks.bind fun _ =>
    forward_rest.bind fun _ => ?_
  split
  · exact (forward_skip _).bind fun _ => forward_pure _
  · refine forward_position.bind fun _ => (forward_skip _).bind fun _ => ?_
    split
    · exact (forward_recover ..).bind fun _ => forward_get.bind fun _ => forward_pure _
    · exact (forward_recover ..).bind fun _ => forward_get.bind fun _ => forward_pure _

theorem forward_operand (strict : Bool) : Forward (operand strict) := by
  refine forward_rest.bind fun _ => ?_
  split
  · exact (forward_quotedLiteral _).bind fun _ => forward_pure _
  · split
    · exact (forward_quotedName ..).bind fun _ => forward_pure _
    · exact (forward_bareName _).bind fun _ => forward_pure _
  · exact (forward_bareName _).bind fun _ => forward_pure _

theorem forward_separator (strict : Bool) : Forward (separator strict) := by
  refine forward_skipBlanks.bind fun _ => forward_rest.bind fun _ => ?_
  split
  · exact (forward_skip _).bind fun _ => forward_pure _
  · exact forward_pure _
  · exact forward_pure _
  · exact forward_position.bind fun _ => (forward_recover ..).bind fun _ => forward_pure _

theorem forward_part (strict : Bool) (opening : Position) (afterComma : Bool) :
    Forward (part strict opening afterComma) := by
  refine forward_skipBlanks.bind fun _ => forward_rest.bind fun _ => ?_
  split
  · exact (forward_recover ..).bind fun _ => forward_pure _
  · split
    · exact forward_position.bind fun _ => (forward_recover ..).bind fun _ =>
        (forward_skip _).bind fun _ => forward_pure _
    · exact (forward_pure _).bind fun _ => (forward_skip _).bind fun _ => forward_pure _
  · exact forward_position.bind fun _ => (forward_recover ..).bind fun _ =>
      (forward_skip _).bind fun _ => forward_pure _
  · exact (forward_operand _).bind fun _ => (forward_separator _).bind fun _ => forward_pure _

/-! ## Taking characters -/

/-- Whenever a reading at a cursor succeeds, its result and the cursor after it are as stated. -/
def Gives {α : Type} (reading : Scan α) (c : Cursor) (holds : α → Cursor → Prop) : Prop :=
  ∀ result last, reading c = .ok result last → holds result last

theorem gives_position {α : Type} {next : Position → Scan α} {c : Cursor}
    {holds : α → Cursor → Prop} (then_ : Gives (next c.position) c holds) :
    Gives (position >>= next) c holds :=
  fun _ _ reached => then_ _ _ reached

theorem gives_rest {α : Type} {next : List Char → Scan α} {c : Cursor}
    {holds : α → Cursor → Prop} (then_ : Gives (next c.rest) c holds) :
    Gives (rest >>= next) c holds :=
  fun _ _ reached => then_ _ _ reached

theorem gives_skip {α : Type} {count : Nat} {next : Unit → Scan α} {c : Cursor}
    {holds : α → Cursor → Prop} (then_ : Gives (next ()) (c.skip count) holds) :
    Gives (skip count >>= next) c holds :=
  fun _ _ reached => then_ _ _ reached

theorem gives_skipBlanks {α : Type} {next : Unit → Scan α} {c : Cursor}
    {holds : α → Cursor → Prop} (then_ : Gives (next ()) c.skipBlanks holds) :
    Gives (skipBlanks >>= next) c holds :=
  fun _ _ reached => then_ _ _ reached

theorem gives_pure {α : Type} {result : α} {c : Cursor} {holds : α → Cursor → Prop}
    (here : holds result c) : Gives (pure result) c holds := by
  intro _ _ reached
  cases reached
  exact here

theorem Gives.bind {α β : Type} {first : Scan α} {second : α → Scan β} {c : Cursor}
    {between : α → Cursor → Prop} {holds : β → Cursor → Prop} (start : Gives first c between)
    (next : ∀ result middle, between result middle → Gives (second result) middle holds) :
    Gives (first >>= second) c holds := by
  intro result last reached
  obtain ⟨value, middle, at_first, at_second⟩ := bind_ok reached
  exact next value middle (start _ _ at_first) _ _ at_second

theorem Forward.gives {α : Type} {reading : Scan α} (forward : Forward reading) {c : Cursor} :
    Gives reading c fun _ last => ∃ count, last = c.skip count :=
  fun _ _ reached => forward.ok reached

/-- A reading that takes at least one character at a cursor. -/
structure Takes {α : Type} (reading : Scan α) (c : Cursor) : Prop where
  ok : ∀ {result last}, reading c = .ok result last → ∃ count, last = c.skip (count + 1)
  error : ∀ {fault last}, reading c = .error fault last → ∃ count, last = c.skip (count + 1)

theorem Takes.gives {α : Type} {reading : Scan α} {c : Cursor} (takes : Takes reading c) :
    Gives reading c fun _ last => ∃ count, last = c.skip (count + 1) :=
  fun _ _ reached => takes.ok reached

theorem takes_position {α : Type} {next : Position → Scan α} {c : Cursor}
    (takes : Takes (next c.position) c) : Takes (position >>= next) c :=
  ⟨fun reached => takes.ok reached, fun failed => takes.error failed⟩

theorem takes_rest {α : Type} {next : List Char → Scan α} {c : Cursor}
    (takes : Takes (next c.rest) c) : Takes (rest >>= next) c :=
  ⟨fun reached => takes.ok reached, fun failed => takes.error failed⟩

theorem skip_skip_succ (c : Cursor) (count more : Nat) :
    (c.skip (count + 1)).skip more = c.skip (count + more + 1) := by
  rw [Cursor.skip_skip, Nat.add_right_comm]

theorem takes_skip {α : Type} {count : Nat} {next : Unit → Scan α} {c : Cursor}
    (forward : ∀ u, Forward (next u)) : Takes (skip (count + 1) >>= next) c where
  ok reached := by
    obtain ⟨more, rfl⟩ := (forward ()).ok reached
    exact ⟨count + more, skip_skip_succ ..⟩
  error failed := by
    obtain ⟨more, rfl⟩ := (forward ()).error failed
    exact ⟨count + more, skip_skip_succ ..⟩

theorem Takes.bind {α β : Type} {first : Scan α} {second : α → Scan β} {c : Cursor}
    (takes : Takes first c) (forward : ∀ result, Forward (second result)) :
    Takes (first >>= second) c where
  ok reached := by
    obtain ⟨value, middle, at_first, at_second⟩ := bind_ok reached
    obtain ⟨count, rfl⟩ := takes.ok at_first
    obtain ⟨more, rfl⟩ := (forward value).ok at_second
    exact ⟨count + more, skip_skip_succ ..⟩
  error failed := by
    cases at_first : first c with
    | error fault middle =>
      rw [bind_of_error at_first] at failed
      cases failed
      exact takes.error at_first
    | ok value middle =>
      rw [bind_of_ok at_first] at failed
      obtain ⟨count, rfl⟩ := takes.ok at_first
      obtain ⟨more, rfl⟩ := (forward value).error failed
      exact ⟨count + more, skip_skip_succ ..⟩

theorem takes_quotedName (strict : Bool) (opening : Char) (c : Cursor) :
    Takes (quotedName strict opening) c := by
  refine takes_position (takes_rest (takes_skip fun _ => ?_))
  split
  · exact (forward_recover ..).bind fun _ => forward_pure _
  · exact (forward_pure _).bind fun _ => forward_pure _

theorem takes_quotedLiteral (strict : Bool) (c : Cursor) : Takes (quotedLiteral strict) c := by
  refine takes_position (takes_rest (takes_skip fun _ => ?_))
  split
  · exact (forward_recover ..).bind fun _ => forward_pure _
  · exact (forward_pure _).bind fun _ => forward_pure _

theorem takes_bareName {inCall : Bool} {c : Cursor} {first : Char} {others : List Char}
    (starts : c.rest = first :: others) (begins : endsBare inCall first = false) :
    Takes (bareName inCall) c := by
  refine takes_rest ?_
  have length : (bare inCall c.rest).length = (bare inCall others).length + 1 := by
    simp [bare, starts, begins]
  dsimp only
  rw [length]
  exact takes_skip fun _ => forward_pure _

theorem takes_operand {strict : Bool} {c : Cursor} {first : Char} {others : List Char}
    (starts : c.rest = first :: others) (begins : endsBare true first = false) :
    Takes (operand strict) c := by
  refine takes_rest ?_
  split
  · exact (takes_quotedLiteral strict c).bind fun _ => forward_pure _
  · split
    · exact (takes_quotedName strict _ c).bind fun _ => forward_pure _
    · exact (takes_bareName starts begins).bind fun _ => forward_pure _
  · exact (takes_bareName starts begins).bind fun _ => forward_pure _

theorem length_skip_lt {c : Cursor} (count : Nat) (more : c.rest ≠ []) :
    (c.skip (count + 1)).rest.length < c.rest.length := by
  have positive := List.length_pos_iff.mpr more
  rw [Cursor.rest_skip, List.length_drop]
  omega

theorem length_skip_le (c : Cursor) (count : Nat) :
    (c.skip count).rest.length ≤ c.rest.length := by
  rw [Cursor.rest_skip, List.length_drop]
  omega

theorem isBlank_head_skipBlanks {c : Cursor} {first : Char} {others : List Char}
    (starts : c.skipBlanks.rest = first :: others) : Text.isBlank first = false := by
  rw [Cursor.skipBlanks, Cursor.rest_skipWhile] at starts
  have test := List.head?_dropWhile_not Text.isBlank c.rest
  rw [starts] at test
  simpa using test

theorem gives_part (strict : Bool) (opening : Position) (afterComma : Bool) (c : Cursor) :
    Gives (part strict opening afterComma) c fun read last =>
      read.isSome → last.rest.length < c.rest.length := by
  refine gives_skipBlanks (gives_rest ?_)
  have before : c.skipBlanks.rest.length ≤ c.rest.length := length_skip_le ..
  split
  · exact Gives.bind (fun _ _ _ => trivial) fun _ _ _ => gives_pure nofun
  · split
    · exact gives_position (Gives.bind (fun _ _ _ => trivial) fun _ _ _ =>
        gives_skip (gives_pure nofun))
    · exact gives_skip (gives_pure nofun)
  · rename_i starts
    have some_left : c.skipBlanks.rest ≠ [] := by simp [starts]
    refine gives_position (Gives.bind (forward_recover ..).gives fun _ _ reached => ?_)
    obtain ⟨count, rfl⟩ := reached
    refine gives_skip (gives_pure fun _ => ?_)
    rw [Cursor.skip_skip]
    have shorter := length_skip_lt count some_left
    omega
  · rename_i first others not_closing not_comma starts
    have some_left : c.skipBlanks.rest ≠ [] := by simp [starts]
    have begins : endsBare true first = false := by
      have visible := isBlank_head_skipBlanks starts
      simpa [endsBare, visible] using ⟨not_comma, not_closing⟩
    refine Gives.bind (takes_operand starts begins).gives fun _ _ reached => ?_
    obtain ⟨count, rfl⟩ := reached
    refine Gives.bind (forward_separator strict).gives fun _ _ reached => ?_
    obtain ⟨more, rfl⟩ := reached
    refine gives_pure fun _ => ?_
    have shorter := length_skip_lt (count + more) some_left
    rw [skip_skip_succ]
    omega

end Scan

end RowQuery
