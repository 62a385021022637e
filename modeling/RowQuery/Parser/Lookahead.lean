import RowQuery.AggregateFunction
import RowQuery.Cursor
import RowQuery.Name

/-!
What the next characters of a select list are, found without moving.
-/

namespace RowQuery.Lookahead

open Text (isBlank)

/-- What follows a word at the start of a text, the case of ASCII letters aside. -/
def afterWord? : List Char → List Char → Option (List Char)
  | [], chars => some chars
  | _ :: _, [] => none
  | letter :: word, c :: chars =>
    if Cursor.sameLetter c letter then afterWord? word chars else none

/-- The functions of a select list. -/
inductive Keyword where
  | aggregate (function : AggregateFunction)
  | concat
deriving DecidableEq, Repr

namespace Keyword

/-- All functions. -/
def all : List Keyword :=
  AggregateFunction.all.map .aggregate ++ [.concat]

/-- The name of a function. -/
def name : Keyword → String
  | .aggregate function => function.name
  | .concat => "CONCAT"

/-- Whether some letters begin the name of a function, the case of ASCII letters aside. -/
def begins (letters : List Char) : Bool :=
  all.any fun keyword => (afterWord? letters keyword.name.toList).isSome

/-- The function that some letters are the name of. -/
def ofLetters? (letters : List Char) : Option Keyword :=
  all.find? fun keyword => afterWord? letters keyword.name.toList == some []

end Keyword

/-- The letters at the start of a text that begin the name of a function together with those read
before. They are read one at a time, up to the first that no name goes on with. -/
def spelled (before : List Char) : List Char → List Char
  | [] => before
  | c :: chars =>
    if Keyword.begins (before ++ [c]) then spelled (before ++ [c]) chars else before

/-- The function that a call at the start of a text is of: the letters of its name, and an opening
parenthesis where the letters end. -/
def call? (chars : List Char) : Option Keyword :=
  let letters := spelled [] chars
  match chars.drop letters.length with
  | '(' :: _ => Keyword.ofLetters? letters
  | _ => none

/-- The length of `DISTINCT` and the blanks after it, of which there must be some. -/
def distinct? (chars : List Char) : Option Nat :=
  match afterWord? "DISTINCT".toList chars with
  | none => none
  | some rest =>
    let blanks := rest.takeWhile isBlank
    if blanks = [] then none else some ("DISTINCT".length + blanks.length)

/-- The characters before an alias: blanks, `AS` and more blanks. An alias starts with anything but
a comma. -/
def label? (chars : List Char) : Option Nat :=
  let blanks := chars.takeWhile isBlank
  match afterWord? "AS".toList (chars.dropWhile isBlank) with
  | none => none
  | some rest =>
    let gap := rest.takeWhile isBlank
    match rest.dropWhile isBlank with
    | [] => none
    | first :: _ =>
      if gap = [] ∨ first = ',' then none else some (blanks.length + "AS".length + gap.length)

/-- Whether a bare name ends before a character. In a call it also ends before the parenthesis. -/
def endsBare (inCall : Bool) (c : Char) : Bool :=
  isBlank c || c == ',' || (inCall && c == ')')

/-- A bare name at the start of a text. -/
def bare (inCall : Bool) (chars : List Char) : List Char :=
  chars.takeWhile fun c => !endsBare inCall c

/-- A text within quotes as it is read: what it stands for, the characters it takes with the closing
quote, and whether there is one. -/
structure Quoted where
  text : List Char
  length : Nat
  closed : Bool
deriving DecidableEq, Repr

/-- The name within quotes, read from after the opening one. -/
def quoted (closing : Char) (chars : List Char) : Quoted :=
  let text := chars.takeWhile (· != closing)
  if text.length < chars.length then ⟨text, text.length + 1, true⟩ else ⟨text, text.length, false⟩

/-- The literal within single quotes, read from after the opening one; two quotes stand for one. -/
def literal : List Char → Quoted
  | [] => ⟨[], 0, false⟩
  | '\'' :: '\'' :: rest =>
    let read := literal rest
    ⟨'\'' :: read.text, read.length + 2, read.closed⟩
  | '\'' :: _ => ⟨[], 1, true⟩
  | c :: rest =>
    let read := literal rest
    ⟨c :: read.text, read.length + 1, read.closed⟩

end RowQuery.Lookahead
