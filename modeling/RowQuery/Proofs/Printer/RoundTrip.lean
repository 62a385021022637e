import Mathlib.Data.List.Forall2
import RowQuery.Proofs.Parser.Strict
import RowQuery.Proofs.Printer.Names

/-!
# Printing and parsing again

Each printed form is looked at in the grammar, in both directions: the text that is printed for an
expression derives that expression exactly if the expression is printable, and then it is read up to
its end and no further. A list of expressions comes back exactly if all of them are printable
(`parseList_renderList_iff_printable`).
-/

namespace RowQuery

open Name (Quotable Starred)

/-! ## Printable expressions -/

def Operand.Printable : Operand → Prop
  | .literal _ => True
  | .column name => ¬ (']' ∈ name.toList ∧ '"' ∈ name.toList)

def Term.Printable : Term → Prop
  | .column name => Quotable name
  | .aggregate call => Quotable call.column ∧ ¬ Starred call.column
  | .concat operands => ∀ operand ∈ operands, operand.Printable

def Expression.Printable (e : Expression) : Prop :=
  e.term.Printable ∧ Quotable e.label

/-- A term as a parser with another rule of operands has it. -/
def Term.withRule (rule : OperandRule) : Term → Term
  | .aggregate call => .aggregate (.of call.function call.column call.distinct rule)
  | term => term

theorem Term.flaw?_withRule (rule : OperandRule) (term : Term) :
    (term.withRule rule).flaw? = term.flaw? := by
  cases term <;> rfl

def Expression.withRule (rule : OperandRule) (e : Expression) : Expression :=
  ⟨e.term.withRule rule, e.label, (e.term.flaw?_withRule rule).trans e.sound⟩

namespace Grammar

open Text (isBlank)
open Name (quoteChars Plain)
open Lookahead (endsBare Keyword)

/-! ## Operands -/

section
variable {rest left : List Char}

theorem operandText_render_iff {operand : Operand} (ends : ∀ c ∈ rest.head?, endsBare true c) :
    OperandText (operand.render.toList ++ rest) operand left ↔ operand.Printable ∧ left = rest := by
  have unquoted : rest.head? ≠ some '\'' := fun quote => by cases ends _ quote
  cases operand with
  | literal text =>
      have printed : (Operand.literal text).render.toList = literalChars text.toList := by
        simp [Operand.render]
      rw [printed, operandText_iff_literal rfl]
      constructor
      · rintro ⟨chars, same, whole, -⟩
        cases same
        rw [String.toList_ofList] at whole
        exact ⟨trivial, (List.append_cancel_left whole).symm⟩
      · rintro ⟨-, rfl⟩
        exact ⟨text.toList, by simp, rfl, unquoted⟩
  | column name =>
      have printed : (Operand.column name).render.toList = quoteChars name.toList :=
        Name.toList_quote name
      rw [printed]
      by_cases plain : Plain name
      · have printable : (Operand.column name).Printable :=
          fun both => plain.2 _ both.1 rfl
        have bare : Bare true (name.toList ++ rest) name rest :=
          (bare_plain_iff plain ends).mpr ⟨rfl, rfl⟩
        rw [Name.quoteChars_of_plain plain, iff_true_intro printable, true_and]
        obtain ⟨c, others, starts, begins⟩ := bare.starts plain.1
        have unopened := bare.unopened
        rw [starts] at unopened
        rw [starts, operandText_iff_bare unopened begins, ← starts]
        simp [bare_plain_iff plain ends]
      · obtain ⟨opening, style⟩ := Name.exists_style plain
        have head : (quoteChars name.toList ++ rest).head? = some opening := by
          rw [style.append]
          rfl
        by_cases single : opening = '\''
        · subst single
          rw [operandText_iff_literal head]
          simp [Operand.Printable, style.single.mp rfl]
        · have printable : (Operand.column name).Printable :=
            fun both => single (style.single.mpr both)
          have quotable : Quotable name := fun all => printable ⟨all.1, all.2.1⟩
          rw [operandText_iff_quoted (by simp [head, style.opens]) (by simpa [head] using single)]
          simp only [Operand.column.injEq, exists_eq_left', quoted_style_iff style]
          simp [printable, quotable]

theorem blanks_of_starts (inCall : Bool) {text : List Char}
    (starts : ∃ c others, text = c :: others ∧ endsBare inCall c = false) :
    Blanks text text ∧ Blanks (' ' :: text) text := by
  obtain ⟨c, others, rfl, begins⟩ := starts
  have visible : ∀ d ∈ (c :: others).head?, ¬ isBlank d := by
    rintro _ ⟨⟩ blank
    simp [endsBare, blank] at begins
  exact ⟨⟨[], rfl, by simp, visible⟩, ⟨[' '], rfl, by simp; decide, visible⟩⟩

theorem operand_render_starts (operand : Operand) :
    ∃ c others, operand.render.toList = c :: others ∧ endsBare true c = false := by
  cases operand with
  | literal text =>
      rw [Operand.render, String.toList_ofList]
      exact ⟨'\'', _, rfl, rfl⟩
  | column name =>
      rw [Operand.render, Name.toList_quote]
      exact quoteChars_starts true name

/-- Printed parts with a comma and a blank between them. -/
def separated (parts : List String) : List Char :=
  (", ".intercalate parts).toList

@[simp] theorem separated_singleton (part : String) : separated [part] = part.toList := by
  simp [separated]

@[simp] theorem separated_cons_cons (first second : String) (others : List String) :
    separated (first :: second :: others) =
      first.toList ++ ',' :: ' ' :: separated (second :: others) := by
  simp [separated, String.intercalate_cons_cons]

theorem separated_starts {inCall : Bool} {first : String} (others : List String)
    (rest : List Char)
    (starts : ∃ c others, first.toList = c :: others ∧ endsBare inCall c = false) :
    ∃ c more, separated (first :: others) ++ rest = c :: more ∧ endsBare inCall c = false := by
  obtain ⟨c, chars, starts, begins⟩ := starts
  cases others with
  | nil => exact ⟨c, chars ++ rest, by simp [starts], begins⟩
  | cons second others =>
      rw [separated_cons_cons, starts]
      exact ⟨c, _, rfl, begins⟩

theorem operandsText_printed_iff {first : Operand} {others : List Operand} {text : List Char}
    (blanks : Blanks text (separated ((first :: others).map Operand.render) ++ ')' :: rest)) :
    OperandsText text (first :: others) left ↔
      (∀ operand ∈ first :: others, operand.Printable) ∧ left = rest := by
  induction others generalizing first text with
  | nil =>
      have close : Blanks (')' :: rest) (')' :: rest) :=
        blanks_of_visible _ rfl
      have read (after : List Char) : OperandText (first.render.toList ++ ')' :: rest) first after ↔
          first.Printable ∧ after = ')' :: rest :=
        operandText_render_iff (by simp [endsBare])
      simp only [List.map_cons, List.map_nil, separated_singleton] at blanks
      simp only [List.mem_singleton, forall_eq]
      constructor
      · intro here
        cases here with
        | last before operand ends =>
            obtain rfl := before.unique blanks
            obtain ⟨printable, rfl⟩ := (read _).mp operand
            exact ⟨printable, (List.cons.inj (ends.unique close)).2⟩
        | more _ _ _ nothing => cases nothing
      · rintro ⟨printable, rfl⟩
        exact .last blanks ((read _).mpr ⟨printable, rfl⟩) close
  | cons second others ih =>
      let printed := separated ((second :: others).map Operand.render) ++ ')' :: rest
      have comma : Blanks (',' :: ' ' :: printed) (',' :: ' ' :: printed) :=
        blanks_of_visible _ rfl
      have following : Blanks (' ' :: printed) printed :=
        (blanks_of_starts true (separated_starts _ _ (operand_render_starts second))).2
      have read (after : List Char) :
          OperandText (first.render.toList ++ ',' :: ' ' :: printed) first after ↔
            first.Printable ∧ after = ',' :: ' ' :: printed :=
        operandText_render_iff (by simp [endsBare])
      simp only [List.map_cons, separated_cons_cons, List.append_assoc, List.cons_append] at blanks
      rw [List.forall_mem_cons, and_assoc, ← ih following]
      constructor
      · intro here
        cases here with
        | more before operand ends others =>
            obtain rfl := before.unique blanks
            obtain ⟨printable, rfl⟩ := (read _).mp operand
            obtain ⟨-, rfl⟩ := List.cons.inj (ends.unique comma)
            exact ⟨printable, others⟩
      · rintro ⟨printable, others⟩
        exact .more blanks ((read _).mpr ⟨printable, rfl⟩) comma others

/-! ## Calls -/

/-- No quoted name starts with a word. -/
theorem plain_of_word {word name : String} {rest left : List Char} (some : word ≠ "")
    (lower : word.toList.all fun d => d.toLower.isLower)
    (here : Word word (quoteChars name.toList ++ rest) left) : Plain name := by
  refine Classical.byContradiction fun quoted => ?_
  obtain ⟨opening, style⟩ := Name.exists_style quoted
  obtain ⟨letters, whole, same, begins⟩ := here.letters lower
  rw [style.append] at whole
  cases letters with
  | nil => exact some (by simpa using same.symm)
  | cons c letters =>
      obtain ⟨rfl, -⟩ := List.cons.inj whole
      cases style.opens.symm.trans (begins opening (by simp) true).2

theorem not_modifier_printed {name : String} {column : List Char} :
    ¬ Modifier (quoteChars name.toList ++ ')' :: rest) column := by
  rintro ⟨gap, word, ⟨blanks, whole, within, -⟩, other⟩
  have plain := plain_of_word (by decide) (by decide) word
  rw [Name.quoteChars_of_plain plain] at word
  obtain ⟨letters, same, -, begins⟩ := word.letters (by decide)
  cases blanks with
  | nil => exact other whole.symm
  | cons blank blanks =>
      have blank_here : isBlank blank = true := within blank (by simp)
      have first := eq_takeWhile_append (fun c => !endsBare true c) same
        (fun c member => by simp [(begins c member true).1])
        (by simp [whole, endsBare, blank_here])
      have cut := plain_cut true plain (show ∀ c ∈ (')' :: rest).head?, endsBare true c by
        simp [endsBare])
      have follows := cut.2.trans first.2.symm
      rw [whole] at follows
      obtain ⟨rfl, -⟩ := List.cons.inj follows
      cases blank_here

theorem not_call_printed {name : String} (plain : Plain name)
    (ends : ∀ c ∈ rest.head?, endsBare false c) :
    ¬ ∃ keyword inner, Call keyword (name.toList ++ rest) inner := by
  rintro ⟨keyword, inner, call⟩
  obtain ⟨letters, whole, -, begins⟩ := Word.letters call (all_isLower_toLower_name keyword)
  have parenthesis : '(' ∈ (name.toList ++ rest).takeWhile fun c => !endsBare false c := by
    rw [whole, List.takeWhile_append_of_pos fun c member => by simp [(begins c member false).1],
      List.takeWhile_cons_of_pos (by decide)]
    simp
  rw [← (plain_cut false plain ends).1] at parenthesis
  exact plain.2 _ parenthesis rfl

theorem blanks_quoteChars (name : String) (rest : List Char) :
    Blanks (quoteChars name.toList ++ rest) (quoteChars name.toList ++ rest) ∧
      Blanks (' ' :: (quoteChars name.toList ++ rest)) (quoteChars name.toList ++ rest) := by
  obtain ⟨c, others, starts, begins⟩ := quoteChars_starts true name
  rw [starts]
  exact blanks_of_starts true ⟨c, others ++ rest, rfl, begins⟩

theorem modifier_printed {name : String} :
    Modifier ("DISTINCT ".toList ++ quoteChars name.toList ++ ')' :: rest)
      (quoteChars name.toList ++ ')' :: rest) := by
  refine ⟨' ' :: (quoteChars name.toList ++ ')' :: rest), ⟨"DISTINCT".toList, by simp, rfl⟩,
    (blanks_quoteChars name _).2, ?_⟩
  intro same
  simpa using congrArg List.length same

theorem argument_printed_iff {name : String} {d : Bool} :
    Argument ((if d then "DISTINCT ".toList else []) ++ quoteChars name.toList ++ ')' :: rest)
      (name, d) left ↔ (Quotable name ∧ ¬ Starred name) ∧ left = rest := by
  have close : Blanks (')' :: rest) (')' :: rest) :=
    blanks_of_visible _ rfl
  have read (after : List Char) : Column (quoteChars name.toList ++ ')' :: rest) name after ↔
      (Quotable name ∧ ¬ Starred name) ∧ after = ')' :: rest :=
    column_quoteChars_iff (by simp [endsBare])
  have visible := (blanks_quoteChars name (')' :: rest)).1
  cases d with
  | false =>
      constructor
      · intro here
        cases here with
        | plain before _ column ends =>
            obtain rfl := before.unique visible
            obtain ⟨printable, rfl⟩ := (read _).mp column
            exact ⟨printable, (List.cons.inj (ends.unique close)).2⟩
      · rintro ⟨printable, rfl⟩
        refine .plain visible ?_ ((read _).mpr ⟨printable, rfl⟩) close
        rintro ⟨_, modifier⟩
        exact not_modifier_printed modifier
  | true =>
      have start : Blanks ("DISTINCT ".toList ++ quoteChars name.toList ++ ')' :: rest)
          ("DISTINCT ".toList ++ quoteChars name.toList ++ ')' :: rest) :=
        (blanks_of_starts false ⟨'D', _, by simp; rfl, rfl⟩).1
      constructor
      · intro here
        cases here with
        | distinct before modified column ends =>
            obtain rfl := before.unique start
            obtain rfl := modified.unique modifier_printed
            obtain ⟨printable, rfl⟩ := (read _).mp column
            exact ⟨printable, (List.cons.inj (ends.unique close)).2⟩
      · rintro ⟨printable, rfl⟩
        exact .distinct start modifier_printed ((read _).mpr ⟨printable, rfl⟩) close

/-! ## Terms -/

theorem termText_column_iff {rule : OperandRule} {name : String}
    (ends : ∀ c ∈ rest.head?, endsBare false c) :
    TermText rule (quoteChars name.toList ++ rest) (.column name) left ↔
      Quotable name ∧ left = rest := by
  by_cases plain : Plain name
  · have bare : Bare false (name.toList ++ rest) name rest :=
      (bare_plain_iff plain ends).mpr ⟨rfl, rfl⟩
    rw [Name.quoteChars_of_plain plain, iff_true_intro (Name.quotable_of_plain plain), true_and]
    constructor
    · intro here
      cases here with
      | quoted quoted => cases bare.unopened.symm.trans quoted.opens
      | bare bare => exact ((bare_plain_iff plain ends).mp bare).2
    · rintro rfl
      exact .bare bare plain.1 (not_call_printed plain ends)
  · obtain ⟨opening, style⟩ := Name.exists_style plain
    have opened : (quoteChars name.toList ++ rest).head?.any Name.opens = true := by
      simp [style.append, style.opens]
    rw [termText_iff_quoted opened]
    simp only [Term.column.injEq, exists_eq_left', quoted_style_iff style]

theorem toList_render_aggregate (call : AggregateCall) :
    (Term.aggregate call).render.toList = (Keyword.aggregate call.function).name.toList ++
      '(' :: ((if call.distinct then "DISTINCT ".toList else []) ++ quoteChars call.column.toList ++
        [')']) := by
  cases distinct : call.distinct <;>
    simp [Term.render, AggregateCall.render, Keyword.name, Name.toList_quote, distinct]

theorem toList_render_concat (operands : List Operand) :
    (Term.concat operands).render.toList =
      Keyword.concat.name.toList ++ '(' :: (separated (operands.map Operand.render) ++ [')']) := by
  simp [Term.render, Keyword.name, separated]

theorem call_render_aggregate (call : AggregateCall) (rest : List Char) :
    Call (.aggregate call.function) ((Term.aggregate call).render.toList ++ rest)
      ((if call.distinct then "DISTINCT ".toList else []) ++ quoteChars call.column.toList ++
        ')' :: rest) := by
  rw [toList_render_aggregate, List.append_assoc, List.cons_append, List.append_assoc,
    List.singleton_append]
  exact ⟨_, rfl, rfl⟩

theorem call_render_concat (operands : List Operand) (rest : List Char) :
    Call .concat ((Term.concat operands).render.toList ++ rest)
      (separated (operands.map Operand.render) ++ ')' :: rest) := by
  rw [toList_render_concat, List.append_assoc, List.cons_append, List.append_assoc,
    List.singleton_append]
  exact ⟨_, rfl, rfl⟩

theorem termText_render_iff (rule : OperandRule) (left : List Char) {t : Term}
    (sound : t.flaw? = none) (ends : ∀ c ∈ rest.head?, endsBare false c) :
    TermText rule (t.render.toList ++ rest) (t.withRule rule) left ↔
      t.Printable ∧ left = rest := by
  cases t with
  | column name =>
      have printed : (Term.column name).render.toList = quoteChars name.toList :=
        Name.toList_quote name
      rw [printed]
      exact termText_column_iff ends
  | aggregate call =>
      rw [termText_iff_call (call_render_aggregate call rest), Term.Printable,
        ← argument_printed_iff (d := call.distinct)]
      constructor
      · rintro ⟨column, distinct, same, argument⟩
        simp only [Term.withRule, AggregateCall.of, Term.aggregate.injEq,
          AggregateCall.mk.injEq] at same
        obtain ⟨-, rfl, rfl, -⟩ := same
        exact argument
      · intro argument
        exact ⟨call.column, call.distinct, rfl, argument⟩
  | concat operands =>
      rw [termText_iff_call (call_render_concat operands rest)]
      cases operands with
      | nil => cases sound
      | cons first others =>
          have starts := separated_starts (others.map Operand.render) (')' :: rest)
            (operand_render_starts first)
          rw [Term.Printable, ← operandsText_printed_iff (blanks_of_starts true starts).1]
          constructor
          · rintro ⟨_, ⟨⟩, read⟩
            exact read
          · intro read
            exact ⟨_, rfl, read⟩

/-! ## Items -/

theorem introducer_as {name : String} (rest : List Char) :
    Introducer (' ' :: 'A' :: 'S' :: ' ' :: (quoteChars name.toList ++ rest))
      (quoteChars name.toList ++ rest) := by
  refine ⟨_, _, (blanks_of_starts false ⟨'A', _, rfl, rfl⟩).2,
    ⟨['A', 'S'], rfl, rfl⟩, (blanks_quoteChars name rest).2, ?_⟩
  intro same
  simpa using congrArg List.length same

/-- What stands after an item: nothing, or a comma. -/
theorem exists_ends_of_follows (follows : ∀ c ∈ rest.head?, c = ',') :
    ∃ more left, Scan.Ends more rest left := by
  cases rest with
  | nil => exact ⟨false, [], .inl ⟨rfl, rfl, [], rfl, by simp, by simp⟩⟩
  | cons c rest =>
      obtain rfl := follows c rfl
      exact ⟨true, rest, .inr ⟨rfl, blanks_of_visible _ rfl⟩⟩

theorem itemText_render_iff (rule : OperandRule) (e : Expression) (more : Bool)
    (left : List Char) (follows : ∀ c ∈ rest.head?, c = ',') :
    (∃ last, ItemText rule (e.render.toList ++ rest) (e.withRule rule) last ∧
      Scan.Ends more last left) ↔ e.Printable ∧ Scan.Ends more rest left := by
  have ends : ∀ c ∈ rest.head?, endsBare false c := by
    intro c first
    obtain rfl := follows c first
    rfl
  by_cases unlabelled : e.label = ""
  · have printed : e.render.toList = e.term.render.toList := by
      simp [Expression.render, Expression.hasLabel, unlabelled]
    have printable : e.Printable ↔ e.term.Printable := by
      rw [Expression.Printable, unlabelled, and_iff_left Name.quotable_empty]
    rw [printed, printable]
    constructor
    · rintro ⟨last, here, ended⟩
      cases here with
      | plain term _ =>
          obtain ⟨printable, rfl⟩ := (termText_render_iff rule _ e.sound ends).mp term
          exact ⟨printable, ended⟩
      | labelled term introduced _ =>
          obtain ⟨-, rfl⟩ := (termText_render_iff rule _ e.sound ends).mp term
          obtain ⟨_, _, ended⟩ := exists_ends_of_follows follows
          exact absurd introduced (Scan.not_introducer_of_ends ended)
    · rintro ⟨printable, ended⟩
      refine ⟨rest, .plain ?_ unlabelled, ended⟩
      exact (termText_render_iff rule _ e.sound ends).mpr ⟨printable, rfl⟩
  · have printed : e.render.toList ++ rest = e.term.render.toList ++
        ' ' :: 'A' :: 'S' :: ' ' :: (quoteChars e.label.toList ++ rest) := by
      simp [Expression.render, Expression.hasLabel, unlabelled, Name.toList_quote]
    have read (after : List Char) := termText_render_iff rule after e.sound
      (show ∀ c ∈ (' ' :: 'A' :: 'S' :: ' ' :: (quoteChars e.label.toList ++ rest)).head?,
        endsBare false c by rintro _ ⟨⟩; decide)
    rw [printed]
    constructor
    · rintro ⟨last, here, ended⟩
      cases here with
      | plain _ none => exact absurd none unlabelled
      | labelled term introduced label =>
          obtain ⟨printable, rfl⟩ := (read _).mp term
          obtain rfl := introduced.unique (introducer_as rest)
          obtain ⟨quotable, rfl⟩ := (labelText_quoteChars_iff ends).mp label
          exact ⟨⟨printable, quotable⟩, ended⟩
    · rintro ⟨⟨printable, quotable⟩, ended⟩
      exact ⟨rest, .labelled ((read _).mpr ⟨printable, rfl⟩) (introducer_as rest)
        ((labelText_quoteChars_iff ends).mpr ⟨quotable, rfl⟩), ended⟩

theorem term_render_starts (t : Term) :
    ∃ c others, t.render.toList = c :: others ∧ endsBare false c = false := by
  have called {keyword : Keyword} (inner : List Char) : ∃ c others,
      keyword.name.toList ++ '(' :: inner = c :: others ∧ endsBare false c = false := by
    have call : Call keyword (keyword.name.toList ++ '(' :: inner) inner := ⟨_, rfl, rfl⟩
    obtain ⟨c, others, starts, begins, -⟩ := call.starts
    exact ⟨c, others, starts, begins⟩
  cases t with
  | column name =>
      rw [Term.render, Name.toList_quote]
      exact quoteChars_starts false name
  | aggregate call =>
      rw [toList_render_aggregate]
      exact called _
  | concat operands =>
      rw [toList_render_concat]
      exact called _

theorem render_starts (e : Expression) :
    ∃ c others, e.render.toList = c :: others ∧ endsBare false c = false := by
  obtain ⟨c, others, starts, begins⟩ := term_render_starts e.term
  rw [Expression.render, String.toList_append, starts]
  exact ⟨c, _, rfl, begins⟩

/-! ## Lists -/

theorem itemsText_render_iff (rule : OperandRule) {first : Expression} {others : List Expression}
    {text : List Char}
    (blanks : Blanks text (separated ((first :: others).map Expression.render))) :
    ItemsText rule text ((first :: others).map (Expression.withRule rule)) ↔
      ∀ e ∈ first :: others, e.Printable := by
  induction others generalizing first text with
  | nil =>
      have read (more : Bool) (left : List Char) :=
        itemText_render_iff rule first more left
          (show ∀ c ∈ ([] : List Char).head?, c = ',' by simp)
      simp only [List.append_nil] at read
      rw [List.map_cons, Parser.itemsText_cons_iff blanks]
      simp only [List.map_cons, List.map_nil, separated_singleton, List.mem_singleton, forall_eq]
      constructor
      · rintro ⟨more, rest, left, item, ends, -⟩
        exact ((read more left).mp ⟨rest, item, ends⟩).1
      · intro printable
        have ended : Scan.Ends false [] [] := .inl ⟨rfl, rfl, [], rfl, by simp, by simp⟩
        obtain ⟨rest, item, ends⟩ := (read false []).mpr ⟨printable, ended⟩
        exact ⟨false, rest, [], item, ends, .inl ⟨rfl, trivial⟩⟩
  | cons second others ih =>
      let printed := separated ((second :: others).map Expression.render)
      have following : Blanks (' ' :: printed) printed := by
        have starts := separated_starts (others.map Expression.render) [] (render_starts second)
        rw [List.append_nil] at starts
        exact (blanks_of_starts false starts).2
      have comma : Blanks (',' :: ' ' :: printed) (',' :: ' ' :: printed) :=
        blanks_of_visible _ rfl
      have read (more : Bool) (left : List Char) :=
        itemText_render_iff rule first more left
          (show ∀ c ∈ (',' :: ' ' :: printed).head?, c = ',' by simp)
      simp only [List.map_cons, separated_cons_cons] at blanks
      rw [List.map_cons, Parser.itemsText_cons_iff blanks, List.forall_mem_cons, ← ih following]
      constructor
      · rintro ⟨more, rest, left, item, ends, tail⟩
        obtain ⟨printable, ended⟩ := (read more left).mp ⟨rest, item, ends⟩
        rcases tail with ⟨-, ⟨⟩⟩ | ⟨rfl, items⟩
        rcases ended with ⟨⟨⟩, -⟩ | ⟨-, at_comma⟩
        obtain ⟨-, rfl⟩ := List.cons.inj (at_comma.unique comma)
        exact ⟨printable, items⟩
      · rintro ⟨printable, items⟩
        obtain ⟨rest, item, ends⟩ := (read true _).mpr ⟨printable, .inr ⟨rfl, comma⟩⟩
        exact ⟨true, rest, _, item, ends, .inr ⟨rfl, items⟩⟩

end

end Grammar

namespace Expression

/-! ## The same expression -/

/-- The operands of CONCAT. -/
def operands (e : Expression) : List Operand :=
  match e.term with
  | .concat operands => operands
  | _ => []

/-- Two expressions that differ in the rule for operands at most. -/
structure Alike (read e : Expression) : Prop where
  kind : read.kindName = e.kindName
  column : read.columnName = e.columnName
  distinct : read.isDistinct = e.isDistinct
  label : read.label = e.label
  operands : read.operands = e.operands

theorem alike_withRule (rule : OperandRule) (e : Expression) : Alike (e.withRule rule) e := by
  obtain ⟨term, label, sound⟩ := e
  cases term <;> exact ⟨rfl, rfl, rfl, rfl, rfl⟩

theorem withRule_eq_of_alike {rule : OperandRule} {read e : Expression} (alike : Alike read e) :
    read.withRule rule = e.withRule rule := by
  obtain ⟨term, label, sound⟩ := read
  obtain ⟨term', label', sound'⟩ := e
  obtain ⟨kind, column, distinct, labels, operands⟩ := alike
  simp only [kindName, columnName, isDistinct, call?, Expression.operands]
    at kind column distinct labels operands
  have named (function : AggregateFunction) :
      function.name ≠ "COLUMN" ∧ function.name ≠ "CONCAT" := by
    cases function <;> decide
  have name_injective (function other : AggregateFunction) (same : function.name = other.name) :
      function = other := by
    revert same
    cases function <;> cases other <;> decide
  have terms : term.withRule rule = term'.withRule rule := by
    cases term with
    | column name =>
        cases term' with
        | column name' => exact congrArg Term.column column
        | aggregate call => exact absurd kind.symm (named _).1
        | concat operands' => exact absurd (show "COLUMN" = "CONCAT" from kind) (by decide)
    | aggregate call =>
        cases term' with
        | column name => exact absurd kind (named _).1
        | aggregate call' =>
            have function : call.function = call'.function := name_injective _ _ kind
            simp only [Option.any_some] at distinct
            simp only [Term.withRule, function, column, distinct]
        | concat operands' => exact absurd kind (named _).2
    | concat operands =>
        cases term' with
        | column name => exact absurd (show "CONCAT" = "COLUMN" from kind) (by decide)
        | aggregate call => exact absurd kind.symm (named _).2
        | concat operands' => exact congrArg Term.concat operands
  simp only [withRule, terms, labels]

end Expression

theorem Expression.withRule_eq_of_term {rule : OperandRule} {e : Expression}
    (same : e.term.withRule rule = e.term) : e.withRule rule = e := by
  simp only [withRule, same]

namespace Scan

theorem gives_build_withRule {rule : OperandRule} {c : Cursor} {t : Term}
    (same : t.withRule rule = t) :
    Gives (build t) c fun e _ => e.withRule rule = e ∧ e.label = "" := by
  intro e last reached
  obtain ⟨term, unlabelled⟩ := gives_build t c e last reached
  exact ⟨Expression.withRule_eq_of_term (term ▸ same), unlabelled⟩

/-- A parser gives its own rule of operands to every call. -/
theorem gives_term (settings : Settings) (c : Cursor) :
    Gives (term settings) c fun e _ => e.withRule settings.operands = e ∧ e.label = "" := by
  refine gives_rest ?_
  split
  · exact Gives.bind (fun _ _ _ => trivial) fun _ _ _ => gives_build_withRule rfl
  · split
    · refine gives_skip (gives_position (gives_skip ?_))
      split
      · exact Gives.bind (fun _ _ _ => trivial) fun _ _ _ => gives_build_withRule rfl
      · exact Gives.bind (fun _ _ _ => trivial) fun _ _ _ => gives_build_withRule rfl
    · exact Gives.bind (fun _ _ _ => trivial) fun _ _ _ => gives_build_withRule rfl

theorem gives_item (settings : Settings) (c : Cursor) :
    Gives (item settings) c fun read _ => read.1.withRule settings.operands = read.1 := by
  refine Gives.bind (gives_term settings c) fun e _ same => ?_
  refine Gives.bind (fun _ _ _ => trivial) fun label _ _ => ?_
  refine Gives.bind (fun _ _ _ => trivial) fun _ _ _ => gives_pure ?_
  exact congrArg (Expression.withLabel (label.getD "")) same.1

end Scan

namespace Parser

open Expression (Alike)

theorem map_withRule_eq_of_drain {p : Parser} {list : List Expression}
    (read : p.drain.1 = list.map .ok) :
    list.map (Expression.withRule p.settings.operands) = list := by
  induction list generalizing p with
  | nil => rfl
  | cons e list ih =>
      have alive : p.failed = false := by
        refine Bool.eq_false_iff.mpr fun failed => ?_
        cases (drain_of_failed failed).symm.trans read
      obtain ⟨q, reached, others⟩ := (drain_eq_cons_iff alive).mp read
      have settings : q.settings = p.settings := by
        rw [← settings_next p, reached]
      obtain ⟨_, _, _, _, -, -, at_item, -⟩ := next_eq_some_iff.mp reached
      rw [List.map_cons, Scan.gives_item _ _ _ _ at_item, ← settings, ih others]

theorem exists_alike_iff {strict : Bool} {rule : OperandRule} {text : String}
    {list : List Expression} :
    (∃ read, Expression.parseList ⟨strict, rule⟩ text = .ok read ∧
        List.Forall₂ Alike read list) ↔
      Expression.parseList ⟨strict, rule⟩ text = .ok (list.map (Expression.withRule rule)) := by
  constructor
  · rintro ⟨read, parsed, alike⟩
    have own : read.map (Expression.withRule rule) = read :=
      map_withRule_eq_of_drain (parseList_eq_ok.mp parsed)
    have same : read.map (Expression.withRule rule) = list.map (Expression.withRule rule) := by
      clear parsed own
      induction alike with
      | nil => rfl
      | cons first _ ih =>
          rw [List.map_cons, List.map_cons, Expression.withRule_eq_of_alike first, ih]
    rw [parsed, ← same, own]
  · intro parsed
    refine ⟨_, parsed, ?_⟩
    rw [List.forall₂_map_left_iff]
    exact List.forall₂_same.mpr fun e _ => Expression.alike_withRule rule e

theorem parseList_renderList_iff_printable {rule : OperandRule} {list : List Expression} :
    (∃ read, Expression.parseList ⟨true, rule⟩ (Expression.renderList list) = .ok read ∧
      List.Forall₂ Alike read list) ↔ ∀ e ∈ list, e.Printable := by
  rw [exists_alike_iff, parseList_eq_ok_iff_items]
  cases list with
  | nil =>
      have blank : Grammar.Blanks (Expression.renderList []).toList [] :=
        ⟨[], rfl, by simp, by simp⟩
      simp [blank]
  | cons first others =>
      have starts := Grammar.separated_starts (others.map Expression.render) []
        (Grammar.render_starts first)
      rw [List.append_nil] at starts
      have follows := (Grammar.blanks_of_starts false starts).1
      rw [← Grammar.itemsText_render_iff rule follows]
      simp only [List.map_cons, reduceCtorEq, false_and, false_or]
      rfl

end Parser

end RowQuery
