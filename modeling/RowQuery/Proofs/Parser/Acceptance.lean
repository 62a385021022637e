import RowQuery.Proofs.Parser.Keywords
import RowQuery.Proofs.Parser.Sequence

/-!
# Strict readings accept their grammar

For each reading, the value it succeeds with and the rest that it leaves are those of the grammar,
in both directions at once (`Reads`). A strict reading never gets past a recovery, so only the rest
of the text matters to it and no position does.
-/

namespace RowQuery.Scan

open Text (isBlank)
open Lookahead Grammar

/-- A reading at a cursor succeeds with a value and leaves the rest of the text. -/
def Reads {α : Type} (reading : Scan α) (c : Cursor) (value : α) (rest : List Char) : Prop :=
  ∃ last, reading c = .ok value last ∧ last.rest = rest

section
variable {α β : Type} {c : Cursor} {left : List Char}

theorem reads_pure {value result : α} :
    Reads (pure value) c result left ↔ result = value ∧ left = c.rest := by
  constructor
  · rintro ⟨last, ⟨⟩, rfl⟩
    exact ⟨rfl, rfl⟩
  · rintro ⟨rfl, rfl⟩
    exact ⟨c, rfl, rfl⟩

theorem reads_bind {first : Scan α} {second : α → Scan β} {result : β}
    (start next : α → List Char → Prop)
    (at_first : ∀ value middle, Reads first c value middle ↔ start value middle)
    (at_second : ∀ value middle, start value middle.rest →
      (Reads (second value) middle result left ↔ next value middle.rest)) :
    Reads (first >>= second) c result left ↔
      ∃ value middle, start value middle ∧ next value middle := by
  constructor
  · rintro ⟨last, reached, rfl⟩
    obtain ⟨value, middle, here, there⟩ := bind_ok reached
    have began : start value middle.rest := (at_first _ _).mp ⟨middle, here, rfl⟩
    exact ⟨value, middle.rest, began, (at_second _ _ began).mp ⟨last, there, rfl⟩⟩
  · rintro ⟨value, _, began, ended⟩
    obtain ⟨middle, here, rfl⟩ := (at_first _ _).mpr began
    obtain ⟨last, there, rfl⟩ := (at_second _ middle began).mpr ended
    exact ⟨last, (bind_of_ok here).trans there, rfl⟩

theorem reads_position_bind {next : Position → Scan α} {result : α} :
    Reads (position >>= next) c result left ↔ Reads (next c.position) c result left :=
  Iff.rfl

theorem reads_rest_bind {next : List Char → Scan α} {result : α} :
    Reads (rest >>= next) c result left ↔ Reads (next c.rest) c result left :=
  Iff.rfl

theorem reads_skip_bind {count : Nat} {next : Unit → Scan α} {result : α} :
    Reads (skip count >>= next) c result left ↔ Reads (next ()) (c.skip count) result left :=
  Iff.rfl

theorem reads_skipBlanks_bind {next : Unit → Scan α} {result : α} :
    Reads (skipBlanks >>= next) c result left ↔ Reads (next ()) c.skipBlanks result left :=
  Iff.rfl

theorem reads_map {first : Scan α} {f : α → β} {result : β} :
    Reads (first >>= fun value => pure (f value)) c result left ↔
      ∃ value, Reads first c value left ∧ result = f value := by
  constructor
  · rintro ⟨last, reached, rfl⟩
    obtain ⟨value, middle, here, there⟩ := bind_ok reached
    cases there
    exact ⟨value, ⟨_, here, rfl⟩, rfl⟩
  · rintro ⟨value, ⟨last, reached, rfl⟩, rfl⟩
    exact ⟨last, bind_of_ok reached, rfl⟩

theorem not_reads_recover {position : Position} {cause : ParseCause} {next : Unit → Scan α}
    {result : α} : ¬ Reads (recover true position cause >>= next) c result left := by
  rintro ⟨last, reached, -⟩
  cases reached

theorem rest_skipBlanks : c.skipBlanks.rest = c.rest.dropWhile isBlank :=
  Cursor.rest_skipWhile isBlank c

theorem reads_quotedName {opening : Char} {text : List Char} {name : String}
    (starts : c.rest = opening :: text) (opens : Name.opens opening) :
    Reads (quotedName true opening) c name left ↔ Quoted c.rest name left := by
  rw [quotedName, reads_position_bind, reads_rest_bind, reads_skip_bind, starts, quoted_iff opens,
    List.tail_cons]
  cases closed : (quoted (Name.closing opening) text).closed with
  | false =>
      simp only [Bool.not_false, if_true, Bool.false_eq_true, false_and, iff_false]
      exact not_reads_recover
  | true =>
      simp only [Bool.not_true, Bool.false_eq_true, if_false, true_and]
      rw [reads_pure, Cursor.rest_skip, starts, List.drop_succ_cons]

theorem reads_quotedLiteral {text : List Char} {read : String} (starts : c.rest = '\'' :: text) :
    Reads (quotedLiteral true) c read left ↔
      ∃ chars, read = String.ofList chars ∧ c.rest = literalChars chars ++ left ∧
        left.head? ≠ some '\'' := by
  rw [quotedLiteral, reads_position_bind, reads_rest_bind, reads_skip_bind, starts,
    List.tail_cons]
  have whole (chars : List Char) : '\'' :: text = literalChars chars ++ left ↔
      text = doubled chars ++ '\'' :: left := by
    simp [literalChars, doubled]
  simp only [whole]
  cases closed : (literal text).closed with
  | false =>
      simp only [Bool.not_false, if_true]
      apply iff_of_false not_reads_recover
      rintro ⟨chars, -, rfl, ends⟩
      rw [literal_doubled ends] at closed
      cases closed
  | true =>
      simp only [Bool.not_true, Bool.false_eq_true, if_false]
      rw [reads_pure, Cursor.rest_skip, starts, List.drop_succ_cons]
      constructor
      · rintro ⟨rfl, rfl⟩
        exact ⟨_, rfl, eq_doubled_of_literal closed⟩
      · rintro ⟨chars, rfl, rfl, ends⟩
        rw [literal_doubled ends]
        simp

theorem reads_bareName {inCall : Bool} {name : String}
    (unopened : c.rest.head?.any Name.opens = false) :
    Reads (bareName inCall) c name left ↔ Bare inCall c.rest name left := by
  rw [bareName, reads_rest_bind, reads_skip_bind, reads_pure, bare_iff unopened, Cursor.rest_skip]

theorem reads_distinct_true : Reads distinct c true left ↔ Modifier c.rest left := by
  rw [distinct_eq, reads_rest_bind, ← distinct?_iff]
  cases distinct? c.rest with
  | none => simp [reads_pure]
  | some length =>
      simp only [reads_skip_bind, reads_pure]
      simp [eq_comm]

theorem reads_distinct_false :
    Reads distinct c false left ↔ (¬ ∃ column, Modifier c.rest column) ∧ left = c.rest := by
  rw [distinct_eq, reads_rest_bind]
  simp only [← distinct?_iff]
  cases distinct? c.rest with
  | none => simp [reads_pure]
  | some length =>
      simp only [reads_skip_bind, reads_pure]
      simp

theorem reads_argumentName {name : String} :
    Reads (argumentName true) c name left ↔ Column c.rest name left := by
  rw [argumentName, reads_rest_bind]
  split
  · rename_i others starts
    rw [reads_skip_bind, reads_pure, Cursor.rest_skip, starts]
    constructor
    · rintro ⟨rfl, rfl⟩
      exact .star
    · intro here
      cases here with
      | quoted quoted => cases quoted.opens
      | star => exact ⟨rfl, rfl⟩
      | bare _ other => exact absurd rfl other
  · rename_i first others star starts
    have head : c.rest.head? = some first := by rw [starts]; rfl
    split
    · rename_i opens
      rw [reads_quotedName starts opens, column_iff_quoted (by simpa [head] using opens)]
    · rename_i unopened
      have closed : c.rest.head?.any Name.opens = false := by simpa [head] using unopened
      rw [reads_bareName closed, column_iff_bare closed (by simpa [head] using star)]
  · rename_i starts
    rw [reads_bareName (by simp [starts]), column_iff_bare] <;> simp [starts]

theorem blanks_skipBlanks : Blanks c.rest c.skipBlanks.rest :=
  blanks_iff.mpr rest_skipBlanks

/-- Up to the closing parenthesis of a call. -/
theorem reads_close {column result : String × Bool} {unclosed : List Char → Scan (String × Bool)}
    (never : ∀ chars last, ¬ Reads (unclosed chars) last result left) :
    Reads (do
      skipBlanks
      let chars ← rest
      if chars.head? = some ')' then skip 1; return column else unclosed chars) c result left ↔
      result = column ∧ Blanks c.rest (')' :: left) := by
  rw [reads_skipBlanks_bind, reads_rest_bind]
  split
  · rename_i closed
    obtain ⟨others, starts⟩ := List.head?_eq_some_iff.mp closed
    have blanks : Blanks c.rest (')' :: others) := starts ▸ blanks_skipBlanks
    rw [reads_skip_bind, reads_pure, Cursor.rest_skip, starts]
    refine and_congr_right fun _ => ⟨fun same => ?_, fun close => ?_⟩
    · subst same
      exact blanks
    · exact (List.cons.inj (close.unique blanks)).2
  · rename_i other
    apply iff_of_false (never _ _)
    rintro ⟨-, close⟩
    rw [blanks_skipBlanks.unique close] at other
    exact other rfl

theorem reads_argument {opening : Position} {result : String × Bool} :
    Reads (argument true opening) c result left ↔ Argument c.rest result left := by
  rw [argument, reads_position_bind, reads_skipBlanks_bind]
  refine (reads_bind (Reads distinct c.skipBlanks) (fun distinct middle => ∃ column last,
    Column (middle.dropWhile isBlank) column last ∧
      result = (column, distinct) ∧ Blanks last (')' :: left))
    (fun _ _ => Iff.rfl) fun distinct middle _ => ?_).trans ?_
  · rw [reads_skipBlanks_bind, ← rest_skipBlanks]
    refine reads_bind _
      (fun column last => result = (column, distinct) ∧ Blanks last (')' :: left))
      (fun _ _ => reads_argumentName) fun column last _ => ?_
    apply reads_close
    intro chars last
    rw [reads_position_bind, reads_skip_bind]
    split
    · exact not_reads_recover
    · exact not_reads_recover
  · constructor
    · rintro ⟨distinct, middle, read, column, last, name, rfl, close⟩
      cases distinct with
      | false =>
          obtain ⟨unmodified, rfl⟩ := reads_distinct_false.mp read
          rw [blanks_skipBlanks.dropWhile_eq] at name
          exact .plain blanks_skipBlanks unmodified name close
      | true =>
          obtain ⟨gap, word, blanks, more⟩ := reads_distinct_true.mp read
          rw [blanks.dropWhile_eq] at name
          exact .distinct blanks_skipBlanks ⟨gap, word, blanks, more⟩ name close
    · intro here
      cases here with
      | plain blanks unmodified name close =>
          obtain rfl := blanks.unique blanks_skipBlanks
          refine ⟨false, _, reads_distinct_false.mpr ⟨unmodified, rfl⟩, _, _, ?_, rfl, close⟩
          rwa [blanks.dropWhile_eq]
      | distinct blanks modified name close =>
          obtain rfl := blanks.unique blanks_skipBlanks
          refine ⟨true, _, reads_distinct_true.mpr modified, _, _, ?_, rfl, close⟩
          obtain ⟨_, _, blanks, _⟩ := modified
          rwa [blanks.dropWhile_eq]

theorem reads_operand {operand : Operand} {first : Char} {others : List Char}
    (starts : c.rest = first :: others) (begins : endsBare true first = false) :
    Reads (Scan.operand true) c operand left ↔ OperandText c.rest operand left := by
  have head : c.rest.head? = some first := by rw [starts]; rfl
  rw [Scan.operand, reads_rest_bind]
  split
  · rename_i text quote
    rw [reads_map, operandText_iff_literal (by rw [quote]; rfl)]
    simp only [reads_quotedLiteral quote]
    constructor
    · rintro ⟨_, ⟨chars, rfl, literal⟩, rfl⟩
      exact ⟨chars, rfl, literal⟩
    · rintro ⟨chars, rfl, literal⟩
      exact ⟨_, ⟨chars, rfl, literal⟩, rfl⟩
  · rename_i d text quote whole
    obtain ⟨rfl, rfl⟩ := List.cons.inj (starts.symm.trans whole)
    split
    · rename_i opens
      rw [reads_map, operandText_iff_quoted (by simpa [head] using opens)
        (by simpa [head] using quote)]
      simp only [reads_quotedName starts opens, and_comm]
    · rename_i unopened
      rw [Bool.not_eq_true] at unopened
      rw [reads_map, starts, operandText_iff_bare unopened begins, ← starts]
      simp only [reads_bareName (c := c) (by simpa [head] using unopened), and_comm]
  · rename_i none
    cases starts.symm.trans none

theorem blanks_rest_iff : Blanks c.rest left ↔ left = c.skipBlanks.rest := by
  rw [blanks_iff, rest_skipBlanks]

/-- What an operand ends with: a comma, or what closes the call. -/
def Separates (comma : Bool) (text rest : List Char) : Prop :=
  (comma = true ∧ Blanks text (',' :: rest)) ∨
    (comma = false ∧ Blanks text rest ∧ rest.head?.all (· == ')'))

theorem reads_separator {comma : Bool} :
    Reads (separator true) c comma left ↔ Separates comma c.rest left := by
  rw [separator, reads_skipBlanks_bind, reads_rest_bind]
  simp only [Separates, blanks_rest_iff]
  split <;> rename_i starts <;> rw [starts]
  · rw [reads_skip_bind, reads_pure, Cursor.rest_skip, starts]
    simp +contextual
  · rw [reads_pure, starts]
    simp +contextual
  · rw [reads_pure, starts]
    simp +contextual
  · rename_i first others comma close
    rw [reads_position_bind]
    apply iff_of_false not_reads_recover
    rintro (⟨-, same⟩ | ⟨-, rfl, same⟩)
    · exact comma (List.cons.inj same).1.symm
    · exact close (by simpa using same)

theorem operandsText_iff {text start rest : List Char} {operands : List Operand}
    (blanks : Blanks text start) :
    OperandsText text operands rest ↔ ∃ operand after, OperandText start operand after ∧
      ∃ comma next, Separates comma after next ∧ ∃ others,
        ((comma = false ∧ others = [] ∧ Blanks next (')' :: rest)) ∨
          OperandsText next others rest) ∧ operands = operand :: others := by
  constructor
  · intro here
    cases here with
    | last before read ends =>
        obtain rfl := before.unique blanks
        exact ⟨_, _, read, false, _, .inr ⟨rfl, ends, rfl⟩, [], .inl ⟨rfl, rfl, ends.self⟩, rfl⟩
    | more before read comma call =>
        obtain rfl := before.unique blanks
        exact ⟨_, _, read, true, _, .inl ⟨rfl, comma⟩, _, .inr call, rfl⟩
  · rintro ⟨operand, after, read, comma, next, separated, others, call, rfl⟩
    rcases separated with ⟨rfl, before⟩ | ⟨rfl, before, ends⟩
    · exact .more blanks read before (by simpa using call)
    · rcases call with ⟨-, rfl, close⟩ | call
      · obtain rfl := close.unique before.self
        exact .last blanks read before
      · -- Nothing but the closing parenthesis can follow, and no operand starts with it.
        obtain ⟨d, more, rfl, begins⟩ := call.starts before.self
        simp at ends
        subst ends
        cases begins

theorem Separates.length_le {comma : Bool} {text rest : List Char}
    (separated : Separates comma text rest) : rest.length ≤ text.length := by
  rcases separated with ⟨-, blanks⟩ | ⟨-, blanks, -⟩
  · have shorter := blanks.length_le
    simp at shorter
    omega
  · exact blanks.length_le

theorem reads_operands {opening : Position} {afterComma : Bool} {result : List Operand} :
    Reads (operands true opening afterComma) c result left ↔
      (afterComma = false ∧ result = [] ∧ Blanks c.rest (')' :: left)) ∨
        OperandsText c.rest result left := by
  -- Each operand leaves less of the text.
  induction size : c.rest.length using Nat.strongRecOn generalizing c afterComma result with
  | ind n ih =>
      have no_operand {rest : List Char} (starts : c.skipBlanks.rest = rest)
          (ends : rest.head?.all (endsBare true) = true) : ¬ OperandsText c.rest result left := by
        intro here
        obtain ⟨first, others, whole, begins⟩ := here.starts blanks_skipBlanks
        rw [← starts, whole] at ends
        simp [begins] at ends
      rw [operands_eq, part, bind_assoc, reads_skipBlanks_bind, bind_assoc, reads_rest_bind,
        blanks_rest_iff]
      split <;> rename_i starts <;> rw [starts]
      · rw [bind_assoc]
        apply iff_of_false not_reads_recover
        simp [no_operand starts rfl]
      · cases afterComma with
        | true =>
            simp only [if_true, reads_position_bind, bind_assoc]
            apply iff_of_false not_reads_recover
            simp [no_operand starts rfl]
        | false =>
            simp only [Bool.false_eq_true, if_false, bind_assoc, pure_bind]
            rw [reads_skip_bind, operandsAfter, reads_pure, Cursor.rest_skip, starts]
            simp [no_operand starts rfl]
      · simp only [reads_position_bind, bind_assoc]
        apply iff_of_false not_reads_recover
        simp [no_operand starts rfl]
      · rename_i first others close comma
        have visible : isBlank first = false := isBlank_head_skipBlanks starts
        have begins : endsBare true first = false := by
          simpa [endsBare, visible] using ⟨comma, close⟩
        have no_end : ¬ (afterComma = false ∧ result = [] ∧ ')' :: left = first :: others) :=
          fun ends => close (List.cons.inj ends.2.2).1.symm
        simp only [bind_assoc, pure_bind]
        rw [or_iff_right no_end, operandsText_iff blanks_skipBlanks]
        refine reads_bind _ (fun operand after => ∃ comma next, Separates comma after next ∧ _)
          (fun _ _ => reads_operand starts begins) fun operand middle read => ?_
        refine reads_bind _ (fun comma next => ∃ others, _ ∧ result = operand :: others)
          (fun _ _ => reads_separator) fun comma last separated => ?_
        have shorter : last.rest.length < n := by
          have after_blanks := (blanks_skipBlanks (c := c)).length_le
          have after_operand := read.length_lt
          have after_separator := separated.length_le
          omega
        refine reads_map.trans ?_
        simp only [ih _ shorter rfl]
        rfl

/-! ## Terms and aliases -/

theorem reads_build {first : Scan α} (term : α → Term) {e : Expression} :
    Reads (first >>= fun value => build (term value)) c e left ↔
      ∃ value, e.term = term value ∧ Reads first c value left ∧ e.label = "" := by
  have build_iff (term : Term) (c : Cursor) :
      Reads (build term) c e left ↔ e.term = term ∧ e.label = "" ∧ left = c.rest := by
    rw [← and_assoc, ← ofTerm_eq_ok_iff]
    unfold build
    cases Expression.ofTerm term with
    | ok made => simp [reads_pure, eq_comm]
    | error fault =>
        refine iff_of_false ?_ (by simp)
        rintro ⟨last, ⟨⟩, -⟩
  rw [reads_bind _ (fun value middle => e.term = term value ∧ e.label = "" ∧ left = middle)
    (fun _ _ => Iff.rfl) fun value middle _ => build_iff _ _]
  constructor
  · rintro ⟨value, _, read, same, unlabelled, rfl⟩
    exact ⟨value, same, read, unlabelled⟩
  · rintro ⟨value, same, read, unlabelled⟩
    exact ⟨value, left, read, same, unlabelled, rfl⟩

theorem reads_call {rule : OperandRule} {keyword : Keyword} {inner : List Char} {e : Expression}
    (here : Call keyword c.rest inner) :
    Reads (call ⟨true, rule⟩ keyword) c e left ↔
      TermText rule c.rest e.term left ∧ e.label = "" := by
  rw [call, reads_skip_bind, reads_position_bind, reads_skip_bind, Cursor.skip_skip,
    termText_iff_call here]
  have inside : (c.skip (keyword.name.length + 1)).rest = inner := by
    rw [Cursor.rest_skip, here.drop_eq]
  cases keyword with
  | aggregate function =>
      refine (reads_build fun read : String × Bool =>
        .aggregate (.of function read.1 read.2 rule)).trans ?_
      simp only [reads_argument, inside, Prod.exists, ← and_assoc, exists_and_right]
  | concat =>
      refine (reads_build Term.concat).trans ?_
      have some_operand (same : e.term = .concat []) : False := by
        have sound := e.sound
        rw [same] at sound
        cases sound
      simp only [reads_operands, inside, ← and_assoc, exists_and_right]
      refine and_congr_left fun _ => exists_congr fun operands => and_congr_right fun same => ?_
      apply or_iff_right
      rintro ⟨⟨-, rfl⟩, -⟩
      exact some_operand same

theorem reads_term {rule : OperandRule} {e : Expression} {first : Char} {others : List Char}
    (starts : c.rest = first :: others) (begins : endsBare false first = false) :
    Reads (term ⟨true, rule⟩) c e left ↔ TermText rule c.rest e.term left ∧ e.label = "" := by
  have head : c.rest.head? = some first := by rw [starts]; rfl
  rw [term, reads_rest_bind]
  split
  · rename_i opening found
    obtain ⟨same, opens⟩ := Option.filter_eq_some_iff.mp found
    cases head.symm.trans same
    refine (reads_build Term.column).trans ?_
    rw [termText_iff_quoted (by simpa [head] using opens)]
    simp only [reads_quotedName starts opens, ← and_assoc, exists_and_right]
  · rename_i closed
    have unopened : Name.opens first = false := by simpa [head] using closed
    split
    · rename_i keyword found
      obtain ⟨inner, here⟩ := call?_eq_some_iff.mp found
      exact reads_call here
    · rename_i uncalled
      refine (reads_build Term.column).trans ?_
      have bare_iff (name : String) : Reads (nameFrom (spelled [] (first :: others))) c name left ↔
          Bare false (first :: others) name left := by
        rw [← starts, Reads, nameFrom_spelled]
        exact reads_bareName (by simpa [head] using unopened)
      rw [call?_eq_none_iff, starts] at uncalled
      rw [starts, termText_iff_bare unopened begins uncalled]
      simp only [bare_iff, ← and_assoc, exists_and_right]

/-- An alias, or none where the words before one do not stand. -/
def OptionalLabel (text : List Char) (label : Option String) (rest : List Char) : Prop :=
  (label = none ∧ rest = text ∧ ¬ ∃ name, Introducer text name ∧ ∃ d ∈ name.head?, d ≠ ',') ∨
    ∃ start name, label = some name ∧ Introducer text start ∧ LabelText start name rest

theorem reads_label {result : Option String} :
    Reads (label true) c result left ↔ OptionalLabel c.rest result left := by
  rw [label_eq, reads_rest_bind]
  cases found : label? c.rest with
  | none =>
      have nowhere : ¬ ∃ start, Introducer c.rest start ∧ ∃ d ∈ start.head?, d ≠ ',' := by
        rintro ⟨start, here⟩
        obtain ⟨length, found', -⟩ := label?_iff.mpr here
        cases found.symm.trans found'
      refine reads_pure.trans ⟨fun ends => .inl ⟨ends.1, ends.2, nowhere⟩, ?_⟩
      rintro (⟨ends, same, -⟩ | ⟨start, name, -, here, name_here⟩)
      · exact ⟨ends, same⟩
      · obtain ⟨d, others, rfl, begins⟩ := name_here.starts
        refine absurd ⟨_, here, d, rfl, ?_⟩ nowhere
        rintro rfl
        cases begins
  | some length =>
      obtain ⟨here, d, first, other⟩ := label?_iff.mp ⟨length, found, rfl⟩
      obtain ⟨others, starts⟩ := List.head?_eq_some_iff.mp first
      have begins : endsBare false d = false := by
        obtain ⟨_, _, _, _, ⟨_, _, _, visible⟩, _⟩ := here
        have := visible d first
        simpa [endsBare, other] using this
      rw [← Cursor.rest_skip] at here starts
      have unique : OptionalLabel c.rest result left ↔
          ∃ name, LabelText (c.skip length).rest name left ∧ result = some name := by
        constructor
        · rintro (⟨-, -, nowhere⟩ | ⟨start, name, rfl, here', name_here⟩)
          · exact absurd ⟨_, here, d, by rw [starts]; rfl, other⟩ nowhere
          · obtain rfl := here'.unique here
            exact ⟨name, name_here, rfl⟩
        · rintro ⟨name, name_here, rfl⟩
          exact .inr ⟨_, name, rfl, here, name_here⟩
      have head : (c.skip length).rest.head? = some d := by rw [starts]; rfl
      simp only [reads_skip_bind, reads_rest_bind]
      rw [unique]
      split
      · rename_i opening found
        obtain ⟨same, opens⟩ := Option.filter_eq_some_iff.mp found
        cases head.symm.trans same
        refine reads_map.trans (exists_congr fun name => and_congr_left fun _ => ?_)
        rw [reads_quotedName starts opens, labelText_iff_quoted (by rw [head]; exact opens)]
      · rename_i closed
        rw [head] at closed
        have unopened : Name.opens d = false := by simpa using closed
        refine reads_map.trans (exists_congr fun name => and_congr_left fun _ => ?_)
        rw [reads_bareName (by rw [head]; exact unopened), starts,
          labelText_iff_bare unopened begins]

end

end RowQuery.Scan
