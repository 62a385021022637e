import RowQuery.Expression.Printer
import RowQuery.Parser.Lookahead

/-!
# The grammar of select lists

Each relation holds of a text, of what stands at its start, and of what is left of the text after
it. Blanks and bare names are as long as they can be, so what is left never starts with more of
them. `ListText` is about a whole text.
-/

namespace RowQuery.Grammar

open Text (isBlank)
open Lookahead (Keyword endsBare)

/-- All blanks at the start of a text, if there are any. -/
def Blanks (text rest : List Char) : Prop :=
  ∃ blanks, text = blanks ++ rest ∧ (∀ c ∈ blanks, isBlank c) ∧ ∀ c ∈ rest.head?, ¬ isBlank c

/-- All blanks at the start of a text, of which there is at least one. -/
def Gap (text rest : List Char) : Prop :=
  Blanks text rest ∧ rest ≠ text

/-- A word, the case of ASCII letters aside. -/
def Word (word : String) (text rest : List Char) : Prop :=
  ∃ letters, text = letters ++ rest ∧ letters.map Char.toLower = word.toList.map Char.toLower

/-- A name in brackets, in double or in single quotes, which does not hold the closing one. -/
inductive Quoted : List Char → String → List Char → Prop
  | intro {opening : Char} {name rest : List Char} :
      Name.opens opening → Name.closing opening ∉ name →
      Quoted (opening :: name ++ Name.closing opening :: rest) (String.ofList name) rest

/-- All characters up to a blank or a comma, in a call also up to a closing parenthesis. -/
inductive Bare (inCall : Bool) : List Char → String → List Char → Prop
  | intro {run rest : List Char} :
      (∀ c ∈ run, ¬ endsBare inCall c) → (∀ c ∈ rest.head?, endsBare inCall c) →
      (∀ c ∈ run.head?, ¬ Name.opens c) →
      Bare inCall (run ++ rest) (String.ofList run) rest

/-- The column of an aggregate call. -/
inductive Column : List Char → String → List Char → Prop
  | quoted {text rest : List Char} {name : String} : Quoted text name rest → Column text name rest
  | star {rest : List Char} : Column ('*' :: rest) "*" rest
  | bare {text rest : List Char} {name : String} :
      Bare true text name rest → text.head? ≠ some '*' → Column text name rest

/-- DISTINCT, which blanks must follow. -/
def Modifier (text rest : List Char) : Prop :=
  ∃ gap, Word "DISTINCT" text gap ∧ Gap gap rest

/-- The column of an aggregate call with all up to the closing parenthesis. -/
inductive Argument : List Char → String × Bool → List Char → Prop
  | plain {text start last rest : List Char} {name : String} :
      Blanks text start → (¬ ∃ column, Modifier start column) → Column start name last →
      Blanks last (')' :: rest) → Argument text (name, false) rest
  | distinct {text start column last rest : List Char} {name : String} :
      Blanks text start → Modifier start column → Column column name last →
      Blanks last (')' :: rest) → Argument text (name, true) rest

/-- An operand of CONCAT: a literal, in which a quote is written twice, or a column. -/
inductive OperandText : List Char → Operand → List Char → Prop
  | literal {text rest : List Char} :
      rest.head? ≠ some '\'' →
      OperandText (literalChars text ++ rest) (.literal (String.ofList text)) rest
  | quoted {text rest : List Char} {name : String} :
      Quoted text name rest → text.head? ≠ some '\'' → OperandText text (.column name) rest
  | bare {text rest : List Char} {name : String} :
      Bare true text name rest → name ≠ "" → OperandText text (.column name) rest

/-- The operands of CONCAT with all up to the closing parenthesis. -/
inductive OperandsText : List Char → List Operand → List Char → Prop
  | last {text start after rest : List Char} {operand : Operand} :
      Blanks text start → OperandText start operand after → Blanks after (')' :: rest) →
      OperandsText text [operand] rest
  | more {text start after others rest : List Char} {operand : Operand}
      {operands : List Operand} :
      Blanks text start → OperandText start operand after → Blanks after (',' :: others) →
      OperandsText others operands rest → OperandsText text (operand :: operands) rest

/-- A call at the start of a text: the name of a function and an opening parenthesis. -/
def Call (keyword : Keyword) (text inner : List Char) : Prop :=
  Word keyword.name text ('(' :: inner)

/-- A column or a call. -/
inductive TermText (rule : OperandRule) : List Char → Term → List Char → Prop
  | quoted {text rest : List Char} {name : String} :
      Quoted text name rest → TermText rule text (.column name) rest
  | aggregate {function : AggregateFunction} {text inner rest : List Char} {column : String}
      {distinct : Bool} :
      Call (.aggregate function) text inner → Argument inner (column, distinct) rest →
      TermText rule text (.aggregate (.of function column distinct rule)) rest
  | concat {text inner rest : List Char} {operands : List Operand} :
      Call .concat text inner → OperandsText inner operands rest →
      TermText rule text (.concat operands) rest
  | bare {text rest : List Char} {name : String} :
      Bare false text name rest → name ≠ "" → (¬ ∃ keyword inner, Call keyword text inner) →
      TermText rule text (.column name) rest

/-- The name of an alias. -/
inductive LabelText : List Char → String → List Char → Prop
  | quoted {text rest : List Char} {name : String} :
      Quoted text name rest → LabelText text name rest
  | bare {text rest : List Char} {name : String} :
      Bare false text name rest → name ≠ "" → LabelText text name rest

/-- What comes before an alias: blanks, AS and more blanks. -/
def Introducer (text rest : List Char) : Prop :=
  ∃ word gap, Blanks text word ∧ Word "AS" word gap ∧ Gap gap rest

/-- A term, with or without an alias. An empty alias is none. -/
inductive ItemText (rule : OperandRule) : List Char → Expression → List Char → Prop
  | plain {text rest : List Char} {e : Expression} :
      TermText rule text e.term rest → e.label = "" → ItemText rule text e rest
  | labelled {text middle name rest : List Char} {e : Expression} :
      TermText rule text e.term middle → Introducer middle name → LabelText name e.label rest →
      ItemText rule text e rest

/-- Items with single commas between them. -/
inductive ItemsText (rule : OperandRule) : List Char → List Expression → Prop
  | last {text start rest : List Char} {e : Expression} :
      Blanks text start → ItemText rule start e rest → Blanks rest [] → ItemsText rule text [e]
  | more {text start rest others : List Char} {e : Expression} {list : List Expression} :
      Blanks text start → ItemText rule start e rest → Blanks rest (',' :: others) →
      ItemsText rule others list → ItemsText rule text (e :: list)

/-- A select list; the blank text is the empty one. -/
inductive ListText (rule : OperandRule) : List Char → List Expression → Prop
  | blank {text : List Char} : Blanks text [] → ListText rule text []
  | items {text : List Char} {list : List Expression} :
      ItemsText rule text list → ListText rule text list

end RowQuery.Grammar
