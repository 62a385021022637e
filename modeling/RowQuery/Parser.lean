import RowQuery.Parser.Item

/-!
The parser of select lists: one expression at a time, or all of them. Main statement: each
expression leaves less of the text.
-/

namespace RowQuery

/-- A parser in the midst of a select list. -/
structure Parser where
  settings : Settings
  cursor : Cursor
  /-- The comma after the last expression, if one was read. -/
  pendingComma : Option Position
  /-- Whether a fault has ended the sequence of expressions. -/
  failed : Bool

namespace Parser

/-- The parser at the start of a text. -/
def ofText (settings : Settings) (text : String) : Parser :=
  ⟨settings, Cursor.ofText text, none, false⟩

/-- The parser at the start of another text. -/
def restart (text : String) (p : Parser) : Parser :=
  ofText p.settings text

/-- The place of the cursor. -/
def position (p : Parser) : Position :=
  p.cursor.position

/-- The fault of malformed text. -/
def faultAt (p : Parser) (position : Position) (cause : ParseCause) : Fault :=
  .parse ⟨cause, position, String.ofList p.cursor.text⟩

/-- The cursor before the next expression: past blanks, and past commas unless reading is strict. -/
def atNext (p : Parser) : Cursor :=
  p.cursor.skipWhile fun c => Text.isBlank c || (!p.settings.strict && c == ',')

/-- The next expression, or none at the end of the text. After a fault the cursor stays where it was
noticed. -/
def next (p : Parser) : Except Fault (Option Expression) × Parser :=
  match p.atNext.rest with
  | [] =>
    let ended := { p with cursor := p.atNext, pendingComma := none }
    match p.pendingComma with
    | none => (.ok none, ended)
    | some comma =>
      if p.settings.strict then (.error (p.faultAt comma .missingExpression), ended)
      else (.ok none, ended)
  | first :: _ =>
    if first = ',' then
      (.error (p.faultAt p.atNext.position .emptyExpression), { p with cursor := p.atNext })
    else match Scan.item p.settings p.atNext with
      | .ok (expression, comma) last =>
        (.ok (some expression), { p with cursor := last, pendingComma := comma })
      | .error fault last => (.error fault, { p with cursor := last, pendingComma := none })

theorem atNext_rest (p : Parser) {first : Char} {others : List Char}
    (starts : p.atNext.rest = first :: others) : Text.isBlank first = false := by
  rw [atNext, Cursor.rest_skipWhile] at starts
  have test := List.head?_dropWhile_not
    (fun c => Text.isBlank c || (!p.settings.strict && c == ',')) p.cursor.rest
  rw [starts] at test
  simp only [List.head?_cons] at test
  exact Bool.eq_false_iff.mpr fun blank => by simp [blank] at test

theorem takes_item_atNext (p : Parser) {first : Char} {others : List Char}
    (starts : p.atNext.rest = first :: others) (other : first ≠ ',') :
    Scan.Takes (Scan.item p.settings) p.atNext := by
  refine Scan.takes_item starts ?_
  simp [Lookahead.endsBare, p.atNext_rest starts, other]

/-- Each expression leaves less of the text. -/
theorem length_next_lt {p q : Parser} {expression : Expression}
    (reached : p.next = (.ok (some expression), q)) :
    q.cursor.rest.length < p.cursor.rest.length := by
  have before : p.atNext.rest.length ≤ p.cursor.rest.length := Scan.length_skip_le ..
  unfold next at reached
  split at reached
  · split at reached
    · cases reached
    · split at reached <;> cases reached
  · rename_i first others starts
    split at reached
    · cases reached
    · rename_i other
      split at reached
      · rename_i read comma last at_item
        cases reached
        obtain ⟨count, rfl⟩ := (p.takes_item_atNext starts other).ok at_item
        have shorter := Scan.length_skip_lt count (c := p.atNext) (by simp [starts])
        exact Nat.lt_of_lt_of_le shorter before
      · cases reached

/-- All that is left to read, in order: expressions, up to the end or to a fault, which is the last
item. After a fault there is nothing left. -/
def drain (p : Parser) : List (Except Fault Expression) × Parser :=
  if p.failed then ([], p)
  else match _reached : p.next with
    | (.ok none, last) => ([], last)
    | (.error fault, last) => ([.error fault], { last with failed := true })
    | (.ok (some expression), q) =>
      let (others, last) := drain q
      (.ok expression :: others, last)
termination_by p.cursor.rest.length
decreasing_by exact length_next_lt _reached

/-- The next in the sequence of expressions; nothing at the end or after a fault. -/
def step (p : Parser) : Option (Except Fault Expression) × Parser :=
  if p.failed then (none, p)
  else match p.next with
    | (.ok none, q) => (none, q)
    | (.ok (some expression), q) => (some (.ok expression), q)
    | (.error fault, q) => (some (.error fault), { q with failed := true })

end Parser

/-- The expressions of a select list, or the first fault in it. -/
def Expression.parseList (settings : Settings) (text : String) : Except Fault (List Expression) :=
  (Parser.ofText settings text).drain.1.mapM id

end RowQuery
