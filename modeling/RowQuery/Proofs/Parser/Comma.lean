import RowQuery.Proofs.Parser.Locality
import RowQuery.Proofs.Parser.Strict

/-!
# Select lists compose at a comma

What the grammar has at the start of a text it still has there if a comma and any text are put
after the whole, one lemma for each relation: names, blanks and words end no later at a comma than
at the end of the text. So the items of a list that strict parsing accepts are the first that the
permissive parser reads from it, a comma and any text, and it goes on with that text
(`drain_append_comma`).
-/

namespace RowQuery.Grammar

open Text (isBlank)
open Lookahead (Keyword endsBare)

section
variable {text rest : List Char} (after : List Char)

theorem ends_append_comma (test : Char → Prop) (comma : test ',')
    (ends : ∀ c ∈ rest.head?, test c) : ∀ c ∈ (rest ++ ',' :: after).head?, test c := by
  cases rest with
  | nil =>
      rintro _ ⟨⟩
      exact comma
  | cons d rest => exact ends

theorem Blanks.append_comma (here : Blanks text rest) :
    Blanks (text ++ ',' :: after) (rest ++ ',' :: after) := by
  obtain ⟨blanks, rfl, within, ends⟩ := here
  exact ⟨blanks, List.append_assoc .., within,
    ends_append_comma after (fun c => ¬ isBlank c) (by decide) ends⟩

theorem Gap.append_comma (here : Gap text rest) :
    Gap (text ++ ',' :: after) (rest ++ ',' :: after) := by
  obtain ⟨blanks, moved⟩ := here
  exact ⟨blanks.append_comma after, fun same => moved (List.append_cancel_right same)⟩

theorem Word.append_comma {word : String} (here : Word word text rest) :
    Word word (text ++ ',' :: after) (rest ++ ',' :: after) := by
  obtain ⟨letters, rfl, same⟩ := here
  exact ⟨letters, List.append_assoc .., same⟩

/-- A word of letters does not reach over the comma. -/
theorem Word.of_append_comma {word : String} {left : List Char}
    (lower : word.toList.all fun d => d.toLower.isLower)
    (here : Word word (text ++ ',' :: after) left) :
    ∃ rest, left = rest ++ ',' :: after ∧ Word word text rest := by
  obtain ⟨letters, whole, same, begins⟩ := here.letters lower
  rcases List.append_eq_append_iff.mp whole with ⟨inner, rfl, tail⟩ | ⟨inner, rfl, tail⟩
  · cases inner with
    | nil => exact ⟨[], tail.symm, text, (List.append_nil _).symm, by simpa using same⟩
    | cons c inner =>
        obtain ⟨rfl, -⟩ := List.cons.inj tail
        cases (begins ',' (by simp) false).1
  · exact ⟨inner, tail, letters, rfl, same⟩

theorem Quoted.append_comma {name : String} (here : Quoted text name rest) :
    Quoted (text ++ ',' :: after) name (rest ++ ',' :: after) := by
  obtain ⟨opens, within⟩ := here
  rw [List.append_assoc, List.cons_append]
  exact .intro opens within

theorem Bare.append_comma {inCall : Bool} {name : String} (here : Bare inCall text name rest) :
    Bare inCall (text ++ ',' :: after) name (rest ++ ',' :: after) := by
  obtain ⟨within, ends, unopened⟩ := here
  rw [List.append_assoc]
  exact .intro within (ends_append_comma after (fun c => endsBare inCall c) rfl ends) unopened

theorem Modifier.append_comma (here : Modifier text rest) :
    Modifier (text ++ ',' :: after) (rest ++ ',' :: after) := by
  obtain ⟨gap, word, blanks⟩ := here
  exact ⟨_, word.append_comma after, blanks.append_comma after⟩

theorem Modifier.of_append_comma {left : List Char} (here : Modifier (text ++ ',' :: after) left) :
    ∃ column, Modifier text column := by
  obtain ⟨_, word, blanks⟩ := here
  obtain ⟨gap, rfl, word'⟩ := word.of_append_comma after (by decide)
  refine ⟨_, gap, word', gap_iff.mpr ⟨rfl, fun none => ?_⟩⟩
  apply (gap_iff.mp blanks).2
  cases gap with
  | nil => rfl
  | cons c gap =>
      have visible : ¬ isBlank c := fun white => by simp [white] at none
      rw [List.cons_append, List.takeWhile_cons_of_neg visible]

theorem Call.append_comma {keyword : Keyword} (here : Call keyword text rest) :
    Call keyword (text ++ ',' :: after) (rest ++ ',' :: after) :=
  Word.append_comma after here

theorem Call.of_append_comma {keyword : Keyword} {left : List Char}
    (here : Call keyword (text ++ ',' :: after) left) : ∃ inner, Call keyword text inner := by
  obtain ⟨inner, tail, word⟩ := Word.of_append_comma after (all_isLower_toLower_name keyword) here
  cases inner with
  | nil => cases (List.cons.inj tail).1
  | cons c inner =>
      obtain ⟨rfl, -⟩ := List.cons.inj tail
      exact ⟨inner, word⟩

theorem head?_append_comma {c : Char} (other : c ≠ ',') (differs : text.head? ≠ some c) :
    (text ++ ',' :: after).head? ≠ some c := by
  cases text with
  | nil => simpa using other.symm
  | cons d text => exact differs

theorem Column.append_comma {name : String} (here : Column text name rest) :
    Column (text ++ ',' :: after) name (rest ++ ',' :: after) := by
  cases here with
  | quoted quoted => exact .quoted (quoted.append_comma after)
  | star => exact .star
  | bare bare other =>
      exact .bare (bare.append_comma after) (head?_append_comma after (by decide) other)

theorem Argument.append_comma {column : String × Bool} (here : Argument text column rest) :
    Argument (text ++ ',' :: after) column (rest ++ ',' :: after) := by
  cases here with
  | plain blanks unmodified column closing =>
      apply Argument.plain (blanks.append_comma after) _ (column.append_comma after)
        (closing.append_comma after)
      rintro ⟨_, modifier⟩
      exact unmodified (modifier.of_append_comma after)
  | distinct blanks modifier column closing =>
      exact .distinct (blanks.append_comma after) (modifier.append_comma after)
        (column.append_comma after) (closing.append_comma after)

theorem OperandText.append_comma {operand : Operand} (here : OperandText text operand rest) :
    OperandText (text ++ ',' :: after) operand (rest ++ ',' :: after) := by
  cases here with
  | literal ends =>
      rw [List.append_assoc]
      exact .literal (head?_append_comma after (by decide) ends)
  | quoted quoted other =>
      exact .quoted (quoted.append_comma after) (head?_append_comma after (by decide) other)
  | bare bare some => exact .bare (bare.append_comma after) some

theorem OperandsText.append_comma {operands : List Operand}
    (here : OperandsText text operands rest) :
    OperandsText (text ++ ',' :: after) operands (rest ++ ',' :: after) := by
  induction here with
  | last blanks operand closing =>
      exact .last (blanks.append_comma after) (operand.append_comma after)
        (closing.append_comma after)
  | more blanks operand comma others ih =>
      exact .more (blanks.append_comma after) (operand.append_comma after)
        (comma.append_comma after) ih

theorem TermText.append_comma {rule : OperandRule} {term : Term}
    (here : TermText rule text term rest) :
    TermText rule (text ++ ',' :: after) term (rest ++ ',' :: after) := by
  cases here with
  | quoted quoted => exact .quoted (quoted.append_comma after)
  | aggregate call argument =>
      exact .aggregate (call.append_comma after) (argument.append_comma after)
  | concat call operands => exact .concat (call.append_comma after) (operands.append_comma after)
  | bare bare some uncalled =>
      apply TermText.bare (bare.append_comma after) some
      rintro ⟨keyword, _, call⟩
      exact uncalled ⟨keyword, call.of_append_comma after⟩

theorem LabelText.append_comma {name : String} (here : LabelText text name rest) :
    LabelText (text ++ ',' :: after) name (rest ++ ',' :: after) := by
  cases here with
  | quoted quoted => exact .quoted (quoted.append_comma after)
  | bare bare some => exact .bare (bare.append_comma after) some

theorem Introducer.append_comma (here : Introducer text rest) :
    Introducer (text ++ ',' :: after) (rest ++ ',' :: after) := by
  obtain ⟨_, _, blanks, word, gap⟩ := here
  exact ⟨_, _, blanks.append_comma after, word.append_comma after, gap.append_comma after⟩

theorem ItemText.append_comma {rule : OperandRule} {e : Expression}
    (here : ItemText rule text e rest) :
    ItemText rule (text ++ ',' :: after) e (rest ++ ',' :: after) := by
  cases here with
  | plain term unlabelled => exact .plain (term.append_comma after) unlabelled
  | labelled term introducer label =>
      exact .labelled (term.append_comma after) (introducer.append_comma after)
        (label.append_comma after)

end

end RowQuery.Grammar

namespace RowQuery.Parser

open Scan Grammar
open Lookahead (endsBare)

theorem drain_item {rule : OperandRule} {p : Parser} {start rest left : List Char} {e : Expression}
    (settings : p.settings = ⟨false, rule⟩) (alive : p.failed = false)
    (blanks : Blanks p.cursor.rest start) (here : ItemText rule start e rest)
    (comma : Blanks rest (',' :: left)) :
    ∃ q : Parser, q.settings = ⟨false, rule⟩ ∧ q.failed = false ∧ q.cursor.rest = left ∧
      p.drain.1 = .ok e :: q.drain.1 := by
  obtain ⟨first, others, starts, begins⟩ := here.starts
  have other : first ≠ ',' := by
    rintro rfl
    cases begins
  have at_item : p.atNext.rest = start :=
    atNext_eq_of_blanks blanks (by simpa [starts] using other)
  obtain ⟨pending, read, -⟩ := (reads_item (at_item.trans starts) begins).mpr
    ⟨rest, at_item.symm ▸ here, .inr ⟨rfl, comma⟩⟩
  obtain ⟨last, reached, last_rest⟩ := read.permissive (lockstep_item rule)
  rw [← settings] at reached
  exact ⟨{ p with cursor := last, pendingComma := pending }, settings, alive, last_rest,
    drain_of_next_ok alive (next_eq_some_iff.mpr
      ⟨first, others, pending, last, at_item.trans starts, other, reached, rfl⟩)⟩

theorem drain_items {rule : OperandRule} {text : List Char} {list : List Expression}
    (here : ItemsText rule text list) (after : List Char) {p : Parser}
    (settings : p.settings = ⟨false, rule⟩) (alive : p.failed = false)
    (starts : p.cursor.rest = text ++ ',' :: after) :
    ∃ q : Parser, q.settings = ⟨false, rule⟩ ∧ q.failed = false ∧ q.cursor.rest = after ∧
      p.drain.1 = list.map .ok ++ q.drain.1 := by
  induction here generalizing p with
  | last blanks item ends =>
      exact drain_item settings alive (starts ▸ blanks.append_comma after)
        (item.append_comma after) (ends.append_comma after)
  | more blanks item comma items ih =>
      obtain ⟨q, settings', alive', starts', first⟩ := drain_item settings alive
        (starts ▸ blanks.append_comma after) (item.append_comma after) (comma.append_comma after)
      obtain ⟨last, settings'', alive'', rest, others⟩ := ih settings' alive' starts'
      exact ⟨last, settings'', alive'', rest, by rw [first, others]; rfl⟩

/-- Past blanks and a comma the permissive parser is where it starts reading what comes after. -/
theorem atNext_of_blank {p q : Parser} {rule : OperandRule} {before : List Char}
    (settings : p.settings = ⟨false, rule⟩) (settings' : q.settings = ⟨false, rule⟩)
    (blank : ∀ c ∈ before, Text.isBlank c)
    (starts : p.cursor.rest = before ++ ',' :: q.cursor.rest) :
    p.atNext.rest = q.atNext.rest := by
  rw [atNext, atNext, Cursor.rest_skipWhile, Cursor.rest_skipWhile, settings, settings', starts,
    List.dropWhile_append_of_pos]
  · simp
  · intro c member
    simp [blank c member]

/-- The permissive parser reads a list that strict parsing accepts, a comma and any text as the list
followed by what it reads from that text alone, faults included. -/
theorem drain_append_comma {rule : OperandRule} {before : String} {list : List Expression}
    (accepted : Expression.parseList ⟨true, rule⟩ before = .ok list) (after : String) :
    (ofText ⟨false, rule⟩ (before ++ "," ++ after)).drain.1 =
      list.map .ok ++ (ofText ⟨false, rule⟩ after).drain.1 := by
  let whole := ofText ⟨false, rule⟩ (before ++ "," ++ after)
  have starts : whole.cursor.rest = before.toList ++ ',' :: after.toList := by
    simp [whole, ofText, Cursor.ofText]
  rcases parseList_eq_ok_iff_items.mp accepted with ⟨rfl, blank⟩ | items
  · obtain ⟨blanks, text, within, -⟩ := blank
    rw [List.append_nil] at text
    exact drain_of_atNext rfl rfl rfl rfl (atNext_of_blank rfl rfl within (text ▸ starts))
  · obtain ⟨q, settings, alive, rest, read⟩ :=
      drain_items items after.toList (p := whole) rfl rfl starts
    have same := atNext_eq_of_rest (q := ofText ⟨false, rule⟩ after) settings rfl rest
    rw [read, drain_of_atNext settings rfl alive rfl same]

theorem drain_append_comma_quoted :
    ∃ list, Expression.parseList ⟨true, .coerce⟩ "[a,b] AS ',' , CONCAT(c, ',')" = .ok list ∧
      (ofText ⟨false, .coerce⟩ ("[a,b] AS ',' , CONCAT(c, ',')" ++ "," ++ "d, SUM(*)")).drain.1 =
        list.map .ok ++ (ofText ⟨false, .coerce⟩ "d, SUM(*)").drain.1 := by
  let list : List Expression :=
    [⟨.column "a,b", ",", rfl⟩, ⟨.concat [.column "c", .literal ","], "", rfl⟩]
  have read : (Expression.parseList ⟨true, .coerce⟩ "[a,b] AS ',' , CONCAT(c, ',')").toOption =
      some list := by decide +kernel
  have accepted : Expression.parseList ⟨true, .coerce⟩ "[a,b] AS ',' , CONCAT(c, ',')" = .ok list :=
    eq_ok_of_toOption read
  exact ⟨list, accepted, drain_append_comma accepted "d, SUM(*)"⟩

end RowQuery.Parser
