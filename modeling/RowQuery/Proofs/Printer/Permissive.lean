import RowQuery.Proofs.Parser.Permissive
import RowQuery.Proofs.Printer.RoundTrip

/-!
# Printing and parsing again permissively

Where a printed expression is in the grammar, the permissive parser reads it as the strict one does.
Where it is not, what comes back is a name cut at the first closing quote, a literal, or the raw
text of a call. Only the last can be the name that was printed: a longer name after a star, in a
call without DISTINCT. So a list comes back exactly if all of its expressions are `Restorable`
(`parseList_renderList_iff_restorable`).
-/

namespace RowQuery

open Name (Quotable Starred)

/-! ## Restorable expressions -/

def Term.Restorable : Term → Prop
  | .column name => Quotable name
  | .aggregate call => Quotable call.column ∧ ¬ (Starred call.column ∧ call.distinct = true)
  | .concat operands => ∀ operand ∈ operands, operand.Printable

def Expression.Restorable (e : Expression) : Prop :=
  e.term.Restorable ∧ Quotable e.label

instance : (operand : Operand) → Decidable operand.Printable
  | .literal _ => inferInstanceAs (Decidable True)
  | .column _ => inferInstanceAs (Decidable (¬ (_ ∧ _)))

instance : (t : Term) → Decidable t.Restorable
  | .column name => inferInstanceAs (Decidable (Quotable name))
  | .aggregate _ => inferInstanceAs (Decidable (Quotable _ ∧ ¬ (_ ∧ _ = true)))
  | .concat operands => inferInstanceAs (Decidable (∀ operand ∈ operands, operand.Printable))

instance (e : Expression) : Decidable e.Restorable :=
  inferInstanceAs (Decidable (_ ∧ _))

namespace Scan

open Text (isBlank trimChars)
open Name (quoteChars Plain)
open Lookahead Grammar

section
variable {c : Cursor} {rest left : List Char}

/-! ## Names -/

theorem reads_quotedName_printed {name : String} {opening : Char} (style : Name.Style name opening)
    (starts : c.rest = quoteChars name.toList ++ rest) :
    Reads (quotedName false opening) c name left ↔ Quotable name ∧ left = rest := by
  refine reads_permissive_iff (lockstep_quotedName opening) (fun left => ?_) fun left here =>
    style.quotable.mp (closing_not_mem_of_quotedName here)
  rw [reads_quotedName (starts.trans (style.append rest)) style.opens, starts,
    quoted_style_iff style]

theorem count_dropWhile {test : Char → Bool} {d : Char} (kept : test d = false)
    (text : List Char) : (text.dropWhile test).count d = text.count d := by
  have before : (text.takeWhile test).count d = 0 := by
    refine List.count_eq_zero.mpr fun member => ?_
    cases kept.symm.trans (mem_takeWhile test text d member)
  calc (text.dropWhile test).count d
      = (text.takeWhile test).count d + (text.dropWhile test).count d := by
        rw [before, Nat.zero_add]
    _ = text.count d := by rw [← List.count_append, List.takeWhile_append_dropWhile]

theorem count_trimChars {d : Char} (visible : isBlank d = false) (text : List Char) :
    (trimChars text).count d = text.count d := by
  rw [trimChars, List.count_reverse, count_dropWhile visible, List.count_reverse,
    count_dropWhile visible]

theorem closing_of_opens {opening : Char} (opens : Name.opens opening) :
    opening ≠ ')' ∧ Name.closing opening ≠ ')' ∧ isBlank (Name.closing opening) = false := by
  simp only [Name.opens, Bool.or_eq_true, beq_iff_eq] at opens
  rcases opens with (rfl | rfl) | rfl <;> decide

/-- Raw text is never the name that is quoted in it: it holds one more closing quote, or lacks a
closing parenthesis of the name. -/
theorem trimChars_ne_quoted {name body after : List Char} {opening : Char}
    (opens : Name.opens opening)
    (cut : opening :: name ++ Name.closing opening :: ')' :: rest = body ++ after)
    (ends : ∀ c ∈ after.head?, c = ')') : trimChars body ≠ name := by
  obtain ⟨open_ne, close_ne, visible⟩ := closing_of_opens opens
  intro same
  rcases List.append_eq_append_iff.mp cut with ⟨inner, whole, tail⟩ | ⟨inner, whole, tail⟩
  · cases inner with
    | nil => exact close_ne (ends _ (by rw [← List.nil_append after, ← tail]; rfl))
    | cons quote inner =>
        obtain ⟨rfl, -⟩ := List.cons.inj tail
        have more : name.count (Name.closing opening) < body.count (Name.closing opening) := by
          rw [whole, List.count_append, List.count_cons_self]
          have := List.count_le_count_cons (a := Name.closing opening) (b := opening) (l := name)
          omega
        rw [← same, count_trimChars visible] at more
        exact Nat.lt_irrefl _ more
  · cases inner with
    | nil => exact close_ne (ends _ (by rw [tail]; rfl))
    | cons parenthesis inner =>
        obtain rfl := ends parenthesis (by rw [tail]; rfl)
        have fewer : body.count ')' < name.count ')' := by
          have counts := congrArg (List.count ')') whole
          rw [List.count_cons_of_ne open_ne, List.count_append, List.count_cons_self] at counts
          omega
        rw [← same, count_trimChars rfl] at fewer
        exact Nat.lt_irrefl _ fewer

theorem trimChars_eq_self {text : List Char} (first : ∀ c ∈ text.head?, ¬ isBlank c)
    (last : ∀ c ∈ text.getLast?, ¬ isBlank c) : trimChars text = text := by
  have start : text.dropWhile isBlank = text :=
    (blanks_iff.mp ⟨[], rfl, by simp, first⟩).symm
  rw [← List.head?_reverse] at last
  have stop : text.reverse.dropWhile isBlank = text.reverse :=
    (blanks_iff.mp ⟨[], rfl, by simp, last⟩).symm
  rw [trimChars, start, stop, List.reverse_reverse]

theorem trimChars_starred {name : String} (d : Bool) (starred : Starred name) :
    trimChars ((if d then "DISTINCT ".toList else []) ++ name.toList) =
      (if d then "DISTINCT ".toList else []) ++ name.toList := by
  obtain ⟨long, -, bare⟩ := starred
  have visible : ∀ c ∈ name.toList, ¬ isBlank c :=
    fun c member blank => bare c member (by simp [Name.needsQuotes, blank])
  have begins : ∀ c ∈ (if d then "DISTINCT ".toList else []).head?, ¬ isBlank c := by
    cases d with
    | false => rintro _ ⟨⟩
    | true =>
        rw [if_pos rfl, show "DISTINCT ".toList.head? = some 'D' from rfl]
        rintro _ ⟨⟩
        decide
  generalize (if d then "DISTINCT ".toList else []) = modifier at begins ⊢
  apply trimChars_eq_self
  · intro c member
    rw [List.head?_append] at member
    cases head : modifier.head? with
    | some d => exact begins c (by simpa [head] using member)
    | none => exact visible c (List.mem_of_head? (by simpa [head] using member))
  · intro c member
    rw [List.getLast?_append_of_ne_nil _ (List.ne_nil_of_length_pos (by omega))] at member
    exact visible c (List.mem_of_getLast? member)

/-! ## Calls -/

theorem Closes.eq_of_unclosed {taken body text : List Char} {column result : String × Bool}
    (closes : Closes taken column text result left) (whole : text = body ++ ')' :: rest)
    (some : body ≠ []) (within : ')' ∉ body) :
    result = (String.ofList (trimChars (taken ++ body)), false) ∧ left = rest := by
  obtain ⟨first, others, rfl⟩ := List.exists_cons_of_ne_nil some
  cases closes with
  | here =>
      obtain ⟨rfl, -⟩ := List.cons.inj whole
      exact absurd List.mem_cons_self within
  | @later read after unclosed within' ends =>
      have cut {first rest : List Char} (whole : read ++ after = first ++ rest)
          (within : ')' ∉ first) (ends : ∀ c ∈ rest.head?, c = ')') :=
        eq_takeWhile_append (· != ')') whole
          (fun c member => bne_iff_ne.mpr fun same => within (same ▸ member))
          (fun c first => by simp [ends c first])
      obtain ⟨read_eq, after_eq⟩ := cut rfl within' ends
      obtain ⟨body_eq, rest_eq⟩ := cut whole within (by simp)
      rw [body_eq, ← read_eq, after_eq, ← rest_eq]
      exact ⟨rfl, rfl⟩

theorem reads_argumentName_of_opens {opening : Char} {text : List Char} {name : String}
    (starts : c.rest = opening :: text) (opens : Name.opens opening) :
    Reads (argumentName false) c name left ↔ Reads (quotedName false opening) c name left := by
  rw [argumentName, reads_rest_bind, starts]
  split <;> rename_i same <;> cases same
  · cases opens
  · rw [if_pos opens]

section
variable {name : String} {d : Bool}
  (starts : c.rest =
    (if d then "DISTINCT ".toList else []) ++ quoteChars name.toList ++ ')' :: rest)
include starts

theorem reads_distinct_printed :
    Reads distinct c.skipBlanks d (quoteChars name.toList ++ ')' :: rest) := by
  cases d with
  | false =>
      have visible : c.skipBlanks.rest = quoteChars name.toList ++ ')' :: rest :=
        (blanks_rest_iff.mp (starts ▸ (blanks_quoteChars name _).1)).symm
      refine reads_distinct_false.mpr ⟨?_, visible.symm⟩
      rw [visible]
      rintro ⟨_, modifier⟩
      exact not_modifier_printed modifier
  | true =>
      have blanks : Blanks c.rest c.rest :=
        starts ▸ (blanks_of_starts false ⟨'D', _, by simp; rfl, rfl⟩).1
      rw [reads_distinct_true, ← blanks_rest_iff.mp blanks, starts]
      exact modifier_printed

/-- The reading of a printed call up to the name of the column. -/
theorem argument_permissive_printed (opening : Position) :
    ∃ (at_name : Cursor) (read : String) (taken named left : List Char) (result : String × Bool),
      at_name.rest = quoteChars name.toList ++ ')' :: rest ∧
      Reads (argumentName false) at_name read named ∧
      c.rest = taken ++ named.dropWhile isBlank ∧
      Closes taken (read, d) (named.dropWhile isBlank) result left ∧
      Reads (argument false opening) c result left := by
  obtain ⟨flag, modified, read, taken, named, left, result, modifier, column, more⟩ :=
    argument_permissive opening c
  obtain ⟨rfl, same⟩ := (reads_distinct_printed starts).unique modifier
  refine ⟨_, read, taken, named, left, result, ?_, column, more⟩
  rw [rest_skipBlanks, same, (blanks_quoteChars name _).1.dropWhile_eq]

/-- The star of a longer name is read as the column, so the call goes on after it. -/
theorem reads_argument_starred (opening : Position) (starred : Starred name) :
    Reads (argument false opening) c
      (String.ofList ((if d then "DISTINCT ".toList else []) ++ name.toList), false) rest := by
  obtain ⟨at_name, read, taken, named, left, result, name_rest, column, whole, closes, here⟩ :=
    argument_permissive_printed starts opening
  have trimmed := trimChars_starred d starred
  have plain := Name.plain_of_starred starred
  obtain ⟨long, star, bare⟩ := starred
  obtain ⟨others, name_eq⟩ := List.head?_eq_some_iff.mp star
  obtain ⟨second, more, rfl⟩ : ∃ second more, others = second :: more := by
    refine List.exists_cons_of_ne_nil ?_
    rintro rfl
    simp [name_eq] at long
  have inside : ∀ c ∈ second :: more, ¬ Name.needsQuotes c :=
    fun c member => bare c (name_eq ▸ List.mem_cons_of_mem _ member)
  rw [Name.quoteChars_of_plain plain, name_eq] at starts name_rest
  have at_star : Reads (argumentName false) at_name "*" (second :: more ++ ')' :: rest) :=
    (reads_argumentName.mpr (name_rest ▸ .star)).permissive lockstep_argumentName
  obtain ⟨rfl, rfl⟩ := at_star.unique column
  have follows : (second :: more ++ ')' :: rest).dropWhile isBlank =
      second :: more ++ ')' :: rest := by
    refine List.dropWhile_cons_of_neg fun blank => inside second List.mem_cons_self ?_
    simp [Name.needsQuotes, blank]
  rw [follows] at whole closes
  obtain ⟨rfl, rfl⟩ := closes.eq_of_unclosed rfl (List.cons_ne_nil _ _)
    fun member => inside _ member rfl
  generalize (if d then "DISTINCT ".toList else []) = modifier at starts trimmed ⊢
  have taken_eq : taken = modifier ++ ['*'] :=
    List.append_cancel_right (whole.symm.trans (by simp [starts]))
  have raw : taken ++ second :: more = modifier ++ name.toList := by
    rw [taken_eq, name_eq, List.append_assoc, List.singleton_append]
  rwa [raw, trimmed] at here

theorem quotable_of_reads_argument {opening : Position}
    (back : Reads (argument false opening) c (name, d) left) : Quotable name := by
  by_cases plain : Plain name
  · exact Name.quotable_of_plain plain
  obtain ⟨quote, style⟩ := Name.exists_style plain
  obtain ⟨at_name, read, taken, named, left, result, name_rest, column, whole, closes, here⟩ :=
    argument_permissive_printed starts opening
  obtain ⟨rfl, rfl⟩ := here.unique back
  rw [style.append] at name_rest
  rw [reads_argumentName_of_opens name_rest style.opens] at column
  generalize named.dropWhile isBlank = after at whole closes
  generalize result_eq : (name, d) = result at closes
  cases closes with
  | here =>
      obtain ⟨rfl, -⟩ := Prod.mk.inj result_eq
      exact style.quotable.mp (closing_not_mem_of_quotedName column)
  | @later body after unclosed within ends =>
      obtain ⟨name_eq, rfl⟩ := Prod.mk.inj result_eq
      -- Without DISTINCT the raw text is the printed name, cut or with the quotes around it.
      rw [starts, if_neg Bool.false_ne_true, List.nil_append, style.append, ← List.cons_append,
        ← List.append_assoc taken] at whole
      refine absurd ?_ (trimChars_ne_quoted style.opens whole ends)
      rw [name_eq, String.toList_ofList]

theorem reads_argument_printed {opening : Position} :
    Reads (argument false opening) c (name, d) left ↔
      (Quotable name ∧ ¬ (Starred name ∧ d = true)) ∧ left = rest := by
  by_cases starred : Starred name
  · have read := reads_argument_starred starts opening starred
    have quotable := Name.quotable_of_plain (Name.plain_of_starred starred)
    cases d with
    | true =>
        refine iff_of_false (fun here => ?_) (by simp [starred])
        cases (Prod.mk.inj (read.unique here).1).2
    | false =>
        rw [if_neg Bool.false_ne_true, List.nil_append, String.ofList_toList] at read
        simp only [quotable, starred, Bool.false_eq_true, and_false, not_false_iff, true_and]
        constructor
        · exact fun here => (read.unique here).2
        · rintro rfl
          exact read
  · have printable : (Quotable name ∧ ¬ Starred name) ↔
        (Quotable name ∧ ¬ (Starred name ∧ d = true)) := by simp [starred]
    rw [← printable]
    refine reads_permissive_iff (lockstep_argument opening) (fun left => ?_) fun left here =>
      ⟨quotable_of_reads_argument starts here, starred⟩
    rw [reads_argument, starts, argument_printed_iff]

end

/-! ## Operands -/

theorem reads_operand_printed {operand : Operand} (ends : ∀ c ∈ rest.head?, endsBare true c)
    (starts : c.rest = operand.render.toList ++ rest) :
    Reads (Scan.operand false) c operand left ↔ operand.Printable ∧ left = rest := by
  refine reads_permissive_iff lockstep_operand (fun left => ?_) fun left here => ?_
  · obtain ⟨first, others, printed, begins⟩ := operand_render_starts operand
    have whole : c.rest = first :: (others ++ rest) := by rw [starts, printed, List.cons_append]
    rw [reads_operand whole begins, starts, operandText_render_iff ends]
  · cases operand with
    | literal text => trivial
    | column name =>
        -- In single quotes the name is read as a literal.
        rintro ⟨bracket, double⟩
        have plain : ¬ Plain name := fun plain => plain.2 _ bracket rfl
        obtain ⟨opening, style⟩ := Name.exists_style plain
        obtain rfl := style.single.mpr ⟨bracket, double⟩
        rw [Operand.render, Name.toList_quote, style.append] at starts
        rw [Scan.operand, reads_rest_bind, starts] at here
        obtain ⟨_, -, same⟩ := reads_map.mp here
        cases same

theorem of_reads_operands {strict afterComma : Bool} {opening : Position} {operand : Operand}
    {others : List Operand} {first : Char} {text : List Char}
    (starts : c.skipBlanks.rest = first :: text) (begins : endsBare true first = false)
    (here : Reads (operands strict opening afterComma) c (operand :: others) left) :
    ∃ (middle last : Cursor) (comma : Bool),
      Reads (Scan.operand strict) c.skipBlanks operand middle.rest ∧
      Reads (separator strict) middle comma last.rest ∧
      Reads (operands strict opening comma) last others left := by
  rw [operands_eq, part, bind_assoc, reads_skipBlanks_bind, bind_assoc, reads_rest_bind,
    starts] at here
  split at here <;> rename_i same <;> cases same
  · cases begins
  · cases begins
  simp only [bind_assoc, pure_bind, operandsAfter] at here
  obtain ⟨end_, reached, rfl⟩ := here
  obtain ⟨read, middle, at_operand, reached⟩ := bind_ok reached
  obtain ⟨comma, last, at_separator, reached⟩ := bind_ok reached
  obtain ⟨more, stop, at_others, reached⟩ := bind_ok reached
  cases reached
  exact ⟨middle, last, comma, ⟨_, at_operand, rfl⟩, ⟨_, at_separator, rfl⟩, _, at_others, rfl⟩

theorem printable_of_reads_operands {afterComma : Bool} {opening : Position} {first : Operand}
    {others : List Operand}
    (blanks : Blanks c.rest (separated ((first :: others).map Operand.render) ++ ')' :: rest))
    (here : Reads (operands false opening afterComma) c (first :: others) left) :
    ∀ operand ∈ first :: others, operand.Printable := by
  induction others generalizing first afterComma c with
  | nil =>
      obtain ⟨x, text, starts, begins⟩ := separated_starts [] (')' :: rest)
        (operand_render_starts first)
      have at_first := blanks_rest_iff.mp blanks
      rw [List.map_singleton] at at_first
      obtain ⟨middle, -, -, read, -⟩ := of_reads_operands (at_first.symm.trans starts) begins here
      rw [separated_singleton] at at_first
      have printable := (reads_operand_printed (by simp [endsBare]) at_first.symm).mp read
      simpa using printable.1
  | cons second others ih =>
      obtain ⟨x, text, starts, begins⟩ := separated_starts
        ((second :: others).map Operand.render) (')' :: rest) (operand_render_starts first)
      have at_first := blanks_rest_iff.mp blanks
      rw [List.map_cons] at at_first
      obtain ⟨middle, last, comma, read, at_separator, more⟩ :=
        of_reads_operands (at_first.symm.trans starts) begins here
      let printed := separated ((second :: others).map Operand.render) ++ ')' :: rest
      have following : Blanks (' ' :: printed) printed :=
        (blanks_of_starts true (separated_starts _ _ (operand_render_starts second))).2
      rw [List.map_cons, separated_cons_cons, List.append_assoc, List.cons_append,
        List.cons_append] at at_first
      obtain ⟨printable, middle_rest⟩ :=
        (reads_operand_printed (by simp [endsBare]) at_first.symm).mp read
      have at_comma : Reads (separator false) middle true (' ' :: printed) := by
        refine (reads_separator.mpr (.inl ⟨rfl, ?_⟩)).permissive lockstep_separator
        rw [middle_rest]
        exact blanks_of_visible _ rfl
      obtain ⟨rfl, last_rest⟩ := at_comma.unique at_separator
      exact List.forall_mem_cons.mpr ⟨printable, ih (last_rest ▸ following) more⟩

/-! ## Terms -/

theorem reads_term_of_opens {settings : Settings} {opening : Char} {text : List Char}
    {e : Expression} (starts : c.rest = opening :: text) (opens : Name.opens opening) :
    Reads (term settings) c e left ↔ ∃ name, e.term = .column name ∧
      Reads (quotedName settings.strict opening) c name left ∧ e.label = "" := by
  have found : c.rest.head?.filter Name.opens = some opening := by simp [starts, opens]
  rw [term, reads_rest_bind]
  simp only [found]
  exact reads_build Term.column

theorem reads_term_of_call {settings : Settings} {keyword : Keyword} {inner : List Char}
    {e : Expression} (here : Call keyword c.rest inner) :
    Reads (term settings) c e left ↔ Reads (call settings keyword) c e left := by
  obtain ⟨first, others, starts, -, unopened⟩ := here.starts
  have unquoted : c.rest.head?.filter Name.opens = none := by simp [starts, unopened]
  have called : call? c.rest = some keyword := call?_eq_some_iff.mpr ⟨inner, here⟩
  rw [term, reads_rest_bind]
  simp only [unquoted, called]

theorem reads_term_aggregate {strict : Bool} {rule : OperandRule} {call : AggregateCall}
    {inner : List Char} {e : Expression} (here : Call (.aggregate call.function) c.rest inner)
    (same : e.term = (Term.aggregate call).withRule rule)
    (unlabelled : e.label = "") :
    ∃ opening start, start.rest = inner ∧ (Reads (term ⟨strict, rule⟩) c e left ↔
      Reads (argument strict opening) start (call.column, call.distinct) left) := by
  let name := (Keyword.aggregate call.function).name
  refine ⟨(c.skip name.length).position, c.skip (name.length + 1), here.drop_eq, ?_⟩
  rw [reads_term_of_call here, Scan.call, reads_skip_bind, reads_position_bind, reads_skip_bind,
    Cursor.skip_skip]
  refine (reads_build fun read : String × Bool =>
    .aggregate (.of call.function read.1 read.2 rule)).trans ?_
  constructor
  · rintro ⟨⟨column, distinct⟩, same', read, -⟩
    have calls := Term.aggregate.inj (same.symm.trans same')
    simp only [AggregateCall.of, AggregateCall.mk.injEq] at calls
    obtain ⟨-, rfl, rfl, -⟩ := calls
    exact read
  · exact fun read => ⟨(call.column, call.distinct), same, read, unlabelled⟩

theorem reads_term_concat {strict : Bool} {rule : OperandRule} {operands : List Operand}
    {inner : List Char} {e : Expression} (here : Call .concat c.rest inner)
    (same : e.term = .concat operands)
    (unlabelled : e.label = "") :
    ∃ opening start, start.rest = inner ∧ (Reads (term ⟨strict, rule⟩) c e left ↔
      Reads (Scan.operands strict opening false) start operands left) := by
  let name := Keyword.concat.name
  refine ⟨(c.skip name.length).position, c.skip (name.length + 1), here.drop_eq, ?_⟩
  rw [reads_term_of_call here, Scan.call, reads_skip_bind, reads_position_bind, reads_skip_bind,
    Cursor.skip_skip]
  refine (reads_build Term.concat).trans ?_
  constructor
  · rintro ⟨read, same', here, -⟩
    cases same.symm.trans same'
    exact here
  · exact fun read => ⟨_, same, read, unlabelled⟩

theorem quotable_of_reads_term {settings : Settings} {name : String} {e : Expression}
    (starts : c.rest = quoteChars name.toList ++ rest) (permissive : settings.strict = false)
    (same : e.term = .column name) (here : Reads (term settings) c e left) : Quotable name := by
  by_cases plain : Plain name
  · exact Name.quotable_of_plain plain
  obtain ⟨opening, style⟩ := Name.exists_style plain
  have opened := starts.trans (style.append rest)
  obtain ⟨read, same', quoted, -⟩ := (reads_term_of_opens opened style.opens).mp here
  obtain rfl : name = read := Term.column.inj (same.symm.trans same')
  rw [permissive] at quoted
  exact ((reads_quotedName_printed style starts).mp quoted).1

/-- What is read at a printed term is the term if it is restorable, and nothing else is. -/
theorem reads_term_printed {rule : OperandRule} {t : Term} {e : Expression}
    (sound : t.flaw? = none) (ends : ∀ c ∈ rest.head?, endsBare false c)
    (starts : c.rest = t.render.toList ++ rest) (same : e.term = t.withRule rule)
    (unlabelled : e.label = "") :
    Reads (term ⟨false, rule⟩) c e left ↔ t.Restorable ∧ left = rest := by
  obtain ⟨first, others, printed, begins⟩ := term_render_starts t
  have whole : c.rest = first :: (others ++ rest) := by rw [starts, printed, List.cons_append]
  have strictly (left : List Char) :
      Reads (term ⟨true, rule⟩) c e left ↔ t.Printable ∧ left = rest := by
    rw [reads_term whole begins, same, starts, termText_render_iff rule left sound ends,
      and_iff_left unlabelled]
  cases t with
  | column name =>
      rw [Term.render, Name.toList_quote] at starts
      exact reads_permissive_iff (lockstep_term rule) strictly fun left here =>
        quotable_of_reads_term starts rfl same here
  | aggregate call =>
      have called : Call (.aggregate call.function) c.rest _ :=
        starts.symm ▸ call_render_aggregate call rest
      obtain ⟨opening, start, start_rest, reads⟩ := reads_term_aggregate called same unlabelled
      rw [reads, reads_argument_printed start_rest]
      rfl
  | concat operands =>
      refine reads_permissive_iff (lockstep_term rule) strictly fun left here => ?_
      have called : Call .concat c.rest _ := starts.symm ▸ call_render_concat operands rest
      obtain ⟨opening, start, start_rest, reads⟩ := reads_term_concat called same unlabelled
      cases operands with
      | nil => cases sound
      | cons operand others =>
          have at_first := separated_starts (others.map Operand.render) (')' :: rest)
            (operand_render_starts operand)
          have blanks : Blanks start.rest
              (separated ((operand :: others).map Operand.render) ++ ')' :: rest) := by
            rw [start_rest]
            exact (blanks_of_starts true at_first).1
          exact printable_of_reads_operands blanks (reads.mp here)

/-! ## Items -/

theorem reads_label_printed {name : String} (ends : ∀ c ∈ rest.head?, endsBare false c)
    (starts : c.rest = ' ' :: 'A' :: 'S' :: ' ' :: (quoteChars name.toList ++ rest)) :
    Reads (label false) c (some name) left ↔ Quotable name ∧ left = rest := by
  have introduced : Introducer c.rest (quoteChars name.toList ++ rest) :=
    starts ▸ introducer_as rest
  refine reads_permissive_iff lockstep_label (fun left => ?_) fun left here => ?_
  · rw [reads_label, ← labelText_quoteChars_iff ends]
    constructor
    · rintro (⟨⟨⟩, -⟩ | ⟨start, _, ⟨⟩, there, labelled⟩)
      rwa [there.unique introduced] at labelled
    · exact fun labelled => .inr ⟨_, _, rfl, introduced, labelled⟩
  · by_cases plain : Plain name
    · exact Name.quotable_of_plain plain
    obtain ⟨opening, style⟩ := Name.exists_style plain
    have opened := style.append rest
    obtain ⟨length, found, drop⟩ := label?_iff.mpr ⟨introduced, opening, by rw [opened]; rfl, by
      rintro rfl
      cases style.opens⟩
    have at_name : (c.skip length).rest = quoteChars name.toList ++ rest := drop
    have quoted : (c.skip length).rest.head?.filter Name.opens = some opening := by
      rw [at_name, opened]
      simp [style.opens]
    rw [label_eq, reads_rest_bind, found] at here
    simp only [reads_skip_bind, reads_rest_bind, quoted] at here
    obtain ⟨read, here, same⟩ := reads_map.mp here
    cases same
    exact ((reads_quotedName_printed style at_name).mp here).1

/-- What stands after the term of a printed expression. -/
def suffix (label : String) : List Char :=
  if label = "" then [] else ' ' :: 'A' :: 'S' :: ' ' :: quoteChars label.toList

theorem toList_render (e : Expression) :
    e.render.toList = e.term.render.toList ++ suffix e.label := by
  by_cases unlabelled : e.label = ""
  · simp [Expression.render, Expression.hasLabel, suffix, unlabelled]
  · simp [Expression.render, Expression.hasLabel, suffix, unlabelled, Name.toList_quote]

theorem reads_suffix {name : String} (follows : ∀ c ∈ rest.head?, c = ',')
    (starts : c.rest = suffix name ++ rest) :
    (∃ read, read.getD "" = name ∧ Reads (label false) c read left) ↔
      Quotable name ∧ left = rest := by
  by_cases unlabelled : name = ""
  · subst unlabelled
    have none_here : Reads (label false) c none rest := by
      obtain ⟨_, _, ended⟩ := exists_ends_of_follows follows
      refine (reads_label.mpr (.inl ⟨rfl, starts.symm, ?_⟩)).permissive lockstep_label
      rintro ⟨start, introduced, -⟩
      rw [starts] at introduced
      exact not_introducer_of_ends ended introduced
    constructor
    · rintro ⟨read, -, here⟩
      exact ⟨Name.quotable_empty, (none_here.unique here).2⟩
    · rintro ⟨-, rfl⟩
      exact ⟨none, rfl, none_here⟩
  · have ends : ∀ c ∈ rest.head?, endsBare false c := by
      intro c first
      obtain rfl := follows c first
      rfl
    rw [suffix, if_neg unlabelled] at starts
    rw [← reads_label_printed ends starts]
    constructor
    · rintro ⟨_ | read, same, here⟩
      · exact absurd same.symm unlabelled
      · exact same ▸ here
    · exact fun here => ⟨some name, rfl, here⟩

theorem reads_comma_permissive (follows : ∀ d ∈ c.rest.head?, d = ',') :
    ∃ pending, Reads (comma false) c pending c.rest.tail := by
  rw [comma]
  simp only [reads_skipBlanks_bind, reads_rest_bind]
  cases starts : c.rest with
  | nil =>
      have same : c.skipBlanks.rest = [] := by rw [rest_skipBlanks, starts]; rfl
      simp only [same]
      exact ⟨none, reads_pure.mpr ⟨rfl, same.symm⟩⟩
  | cons d others =>
      obtain rfl := follows d (by rw [starts]; rfl)
      have same : c.skipBlanks.rest = ',' :: others := by
        rw [rest_skipBlanks, starts, (blanks_of_visible others rfl).dropWhile_eq]
      simp only [same, reads_position_bind, reads_skip_bind]
      refine ⟨_, reads_pure.mpr ⟨rfl, ?_⟩⟩
      rw [Cursor.rest_skip, same]
      rfl

theorem of_reads_item {settings : Settings} {e : Expression} {pending : Option Position}
    (here : Reads (item settings) c (e, pending) left) :
    ∃ (middle last : Cursor) (read : Option String),
      Reads (term settings) c (e.withLabel "") middle.rest ∧
      Reads (label settings.strict) middle read last.rest ∧ read.getD "" = e.label ∧
      Reads (comma settings.strict) last pending left := by
  obtain ⟨stop, reached, rfl⟩ := here
  obtain ⟨made, middle, at_term, reached⟩ := bind_ok reached
  obtain ⟨read, last, at_label, reached⟩ := bind_ok reached
  obtain ⟨_, _, at_comma, reached⟩ := bind_ok reached
  cases reached
  have unlabelled := (gives_term settings c _ _ at_term).2
  have same : (made.withLabel (read.getD "")).withLabel "" = made := by
    rw [← unlabelled]
    rfl
  exact ⟨middle, last, read, ⟨middle, same.symm ▸ at_term, rfl⟩, ⟨last, at_label, rfl⟩, rfl, _,
    at_comma, rfl⟩

/-- An item is read back if it is restorable, with the comma after it. -/
theorem reads_item_printed {rule : OperandRule} {e : Expression}
    (follows : ∀ c ∈ rest.head?, c = ',') (starts : c.rest = e.render.toList ++ rest) :
    (∃ pending, Reads (item ⟨false, rule⟩) c (e.withRule rule, pending) left) ↔
      e.Restorable ∧ left = rest.tail := by
  rw [toList_render, List.append_assoc] at starts
  have ends : ∀ c ∈ (suffix e.label ++ rest).head?, endsBare false c := by
    intro c first
    rw [suffix] at first
    split at first
    · obtain rfl := follows c first
      rfl
    · cases first
      decide
  have read_term (left : List Char) :
      Reads (term ⟨false, rule⟩) c ((e.withRule rule).withLabel "") left ↔
        e.term.Restorable ∧ left = suffix e.label ++ rest :=
    reads_term_printed e.sound ends starts rfl rfl
  constructor
  · rintro ⟨pending, here⟩
    obtain ⟨middle, last, read, at_term, at_label, same, at_comma⟩ := of_reads_item here
    obtain ⟨restorable, middle_rest⟩ := (read_term _).mp at_term
    obtain ⟨quotable, last_rest⟩ := (reads_suffix follows middle_rest).mp ⟨read, same, at_label⟩
    obtain ⟨_, at_comma'⟩ := reads_comma_permissive (last_rest ▸ follows)
    exact ⟨⟨restorable, quotable⟩, last_rest ▸ (at_comma'.unique at_comma).2⟩
  · rintro ⟨⟨restorable, quotable⟩, rfl⟩
    obtain ⟨middle, at_term, middle_rest⟩ := (read_term _).mpr ⟨restorable, rfl⟩
    obtain ⟨read, same, last, at_label, last_rest⟩ :=
      (reads_suffix follows middle_rest).mpr ⟨quotable, rfl⟩
    obtain ⟨pending, stop, at_comma, stop_rest⟩ := reads_comma_permissive (last_rest ▸ follows)
    refine ⟨pending, stop, ?_, last_rest ▸ stop_rest⟩
    rw [item, bind_of_ok at_term, bind_of_ok at_label, bind_of_ok at_comma, same]
    rfl

end

end Scan

namespace Parser

open Expression (Alike)
open Grammar (Blanks separated)

/-! ## Lists -/

/-- What stands after the first of some printed expressions, and after the comma in it. -/
theorem exists_separated_eq (first : Expression) (others : List Expression) :
    ∃ rest, separated ((first :: others).map Expression.render) = first.render.toList ++ rest ∧
      (∀ c ∈ rest.head?, c = ',') ∧
      Blanks rest.tail (separated (others.map Expression.render)) := by
  cases others with
  | nil => exact ⟨[], by simp, by simp, [], by simp [separated], by simp, by simp [separated]⟩
  | cons second others =>
      have starts := Grammar.separated_starts (others.map Expression.render) []
        (Grammar.render_starts second)
      rw [List.append_nil] at starts
      refine ⟨_, by rw [List.map_cons, List.map_cons, Grammar.separated_cons_cons], ?_, ?_⟩
      · rintro _ ⟨⟩
        rfl
      · exact (Grammar.blanks_of_starts false starts).2

theorem drain_printed_iff {rule : OperandRule} {list : List Expression} {p : Parser}
    (settings : p.settings = ⟨false, rule⟩) (alive : p.failed = false)
    (blanks : Blanks p.cursor.rest (separated (list.map Expression.render))) :
    p.drain.1 = (list.map (Expression.withRule rule)).map .ok ↔ ∀ e ∈ list, e.Restorable := by
  induction list generalizing p with
  | nil =>
      simp [drain_of_blanks (by rw [settings]) alive blanks]
  | cons e list ih =>
      obtain ⟨rest, printed, follows, tail⟩ := exists_separated_eq e list
      obtain ⟨first, others, starts, begins⟩ := Grammar.render_starts e
      have other : first ≠ ',' := by
        rintro rfl
        cases begins
      have at_item : p.atNext.rest = e.render.toList ++ rest := by
        rw [printed] at blanks
        exact atNext_eq_of_blanks blanks (by simpa [starts] using other)
      have read (left : List Char) :
          (∃ pending, Scan.Reads (Scan.item p.settings) p.atNext (e.withRule rule, pending) left) ↔
            e.Restorable ∧ left = rest.tail := by
        rw [settings]
        exact Scan.reads_item_printed follows at_item
      have later (pending : Option Position) {last : Cursor} (last_rest : last.rest = rest.tail) :=
        ih (p := { p with cursor := last, pendingComma := pending }) settings alive
          (last_rest ▸ tail)
      rw [List.map_cons, drain_eq_cons_iff alive, List.forall_mem_cons]
      simp only [next_eq_some_iff]
      constructor
      · rintro ⟨_, ⟨_, _, pending, last, -, -, reached, rfl⟩, drained⟩
        obtain ⟨restorable, last_rest⟩ := (read _).mp ⟨pending, last, reached, rfl⟩
        exact ⟨restorable, (later pending last_rest).mp drained⟩
      · rintro ⟨restorable, others_restorable⟩
        obtain ⟨pending, last, reached, last_rest⟩ := (read _).mpr ⟨restorable, rfl⟩
        refine ⟨_, ⟨first, others ++ rest, pending, last, ?_, other, reached, rfl⟩,
          (later pending last_rest).mpr others_restorable⟩
        rw [at_item, starts, List.cons_append]

theorem parseList_renderList_eq_iff {rule : OperandRule} {list : List Expression} :
    Expression.parseList ⟨false, rule⟩ (Expression.renderList list) =
      .ok (list.map (Expression.withRule rule)) ↔ ∀ e ∈ list, e.Restorable := by
  rw [parseList_eq_ok]
  refine drain_printed_iff (p := ofText ⟨false, rule⟩ _) rfl rfl ?_
  show Blanks (separated (list.map Expression.render)) (separated (list.map Expression.render))
  cases list with
  | nil => exact ⟨[], rfl, by simp, by simp [separated]⟩
  | cons e list =>
      have starts := Grammar.separated_starts (list.map Expression.render) []
        (Grammar.render_starts e)
      rw [List.append_nil] at starts
      exact (Grammar.blanks_of_starts false starts).1

/-- What the permissive parser makes of a text comes back from its printed form exactly if each
expression is restorable. -/
theorem parseList_renderList_iff_restorable {rule : OperandRule} {text : String}
    {list : List Expression} (accepted : Expression.parseList ⟨false, rule⟩ text = .ok list) :
    (Expression.parseList ⟨false, rule⟩ (Expression.renderList list) = .ok list ↔
      ∀ e ∈ list, e.Restorable) ∧
    ((∃ read, Expression.parseList ⟨false, rule⟩ (Expression.renderList list) = .ok read ∧
      List.Forall₂ Alike read list) ↔ ∀ e ∈ list, e.Restorable) := by
  have own : list.map (Expression.withRule rule) = list :=
    map_withRule_eq_of_drain (parseList_eq_ok.mp accepted)
  constructor
  · have restored : Expression.parseList ⟨false, rule⟩ (Expression.renderList list) =
        .ok (list.map (Expression.withRule rule)) ↔ ∀ e ∈ list, e.Restorable :=
      parseList_renderList_eq_iff
    rwa [own] at restored
  · exact exists_alike_iff.trans parseList_renderList_eq_iff

theorem parseList_renderList_iff_restorable_starred :
    ∃ list, Expression.parseList ⟨false, .coerce⟩ "COUNT(*a), [b c] AS x" = .ok list ∧
      Expression.parseList ⟨false, .coerce⟩ (Expression.renderList list) = .ok list := by
  let list : List Expression :=
    [⟨.aggregate ⟨.count, "*a", false, .coerce⟩, "", rfl⟩, ⟨.column "b c", "x", rfl⟩]
  have read : (Expression.parseList ⟨false, .coerce⟩ "COUNT(*a), [b c] AS x").toOption =
      some list := by decide +kernel
  have accepted : Expression.parseList ⟨false, .coerce⟩ "COUNT(*a), [b c] AS x" = .ok list :=
    eq_ok_of_toOption read
  exact ⟨list, accepted,
    (parseList_renderList_iff_restorable accepted).1.mpr (by decide +kernel)⟩

/-- A bare name with all three closing quotes is printed in single quotes, which end at the one
within it. -/
theorem bare_name_cut_at_quote :
    ∃ list, Expression.parseList ⟨false, .coerce⟩ "a]\"'" = .ok list ∧
      ¬ ∃ read, Expression.parseList ⟨false, .coerce⟩ (Expression.renderList list) = .ok read := by
  let list : List Expression := [⟨.column "a]\"'", "", rfl⟩]
  have first : (Expression.parseList ⟨false, .coerce⟩ "a]\"'").toOption = some list := by
    decide +kernel
  have again : (Expression.parseList ⟨false, .coerce⟩ (Expression.renderList list)).toOption =
      none := by decide +kernel
  refine ⟨list, eq_ok_of_toOption first, ?_⟩
  rintro ⟨read, accepted⟩
  rw [accepted] at again
  cases again

end Parser

end RowQuery
