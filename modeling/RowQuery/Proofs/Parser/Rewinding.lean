import Mathlib.Data.List.TakeWhile
import RowQuery.Proofs.Parser.Permissive

/-!
# Parts that are looked for and may be missing

The alias of an item and DISTINCT in a call are looked for letter by letter, past blanks and line
feeds, and the search can end at any of them. Where the part is missing, the cursor is back at its
start, with its offset, line and column; where it is there, the search finds it
(`lookahead_exact`).
-/

namespace RowQuery

/-- Ahead of a cursor, what is left of the text determines the place. -/
theorem Cursor.skip_eq_of_rest_eq {c : Cursor} {count other : Nat}
    (same : (c.skip count).rest = (c.skip other).rest) : c.skip count = c.skip other := by
  have taken : c.rest.take count = c.rest.take other := by
    have whole : c.rest.take count ++ c.rest.drop count =
        c.rest.take other ++ c.rest.drop other := by
      rw [List.take_append_drop, List.take_append_drop]
    rw [rest_skip, rest_skip] at same
    rw [same] at whole
    exact List.append_cancel_right whole
  exact ext_of rfl (congrArg c.position.afterAll taken)

namespace Scan

open Lookahead Grammar

variable {strict : Bool} {c last : Cursor} {fault : Fault} {length : Nat} {first : Char}
  {others : List Char}

theorem bind_pure_eq_error_iff {α β : Type} {reading : Scan α} {result : α → β} :
    (reading >>= fun value => pure (result value)) c = .error fault last ↔
      reading c = .error fault last := by
  cases read : reading c with
  | ok value middle =>
      rw [bind_of_ok read]
      exact iff_of_false nofun nofun
  | error fault' middle =>
      rw [bind_of_error read, EStateM.Result.error.injEq, EStateM.Result.error.injEq]

/-! ## Names that nothing closes -/

/-- A quoted name that nothing closes. -/
def Unclosed (text : List Char) : Prop :=
  ∃ opening others, text = opening :: others ∧ Name.opens opening = true ∧
    Name.closing opening ∉ others

theorem closed_iff {closing : Char} {text : List Char} :
    (quoted closing text).closed = true ↔ closing ∈ text := by
  have whole : text.takeWhile (· != closing) = text ↔ closing ∉ text := by
    rw [List.takeWhile_eq_self_iff]
    constructor
    · intro others member
      simpa using others closing member
    · intro missing c member
      rw [bne_iff_ne]
      rintro rfl
      exact missing member
  have part : (text.takeWhile (· != closing)).Sublist text := List.takeWhile_sublist _
  by_cases shorter : (text.takeWhile (· != closing)).length < text.length
  · have closed : (quoted closing text).closed = true := by simp only [quoted, if_pos shorter]
    refine iff_of_true closed (Classical.not_not.mp fun missing => ?_)
    rw [whole.mpr missing] at shorter
    exact Nat.lt_irrefl _ shorter
  · have unclosed : (quoted closing text).closed ≠ true := by
      simp only [quoted, if_neg shorter]
      decide
    exact iff_of_false unclosed (whole.mp (part.eq_of_length_le (Nat.le_of_not_lt shorter)))

/-- Only strict reading fails at a quoted name, and only at one that nothing closes. -/
theorem quotedName_eq_error_iff {opening : Char} :
    (∃ last, quotedName strict opening c = .error fault last) ↔
      strict = true ∧ Name.closing opening ∉ c.rest.tail ∧
        fault = .parse ⟨.unterminatedName, c.position, String.ofList c.text⟩ := by
  rw [← closed_iff]
  have read : quotedName strict opening c =
      (if !(quoted (Name.closing opening) c.rest.tail).closed then
          recover strict c.position .unterminatedName >>= fun _ =>
            pure (String.ofList (quoted (Name.closing opening) c.rest.tail).text)
        else pure () >>= fun _ =>
          pure (String.ofList (quoted (Name.closing opening) c.rest.tail).text))
      (c.skip ((quoted (Name.closing opening) c.rest.tail).length + 1)) := rfl
  rw [read]
  cases (quoted (Name.closing opening) c.rest.tail).closed with
  | true =>
      refine iff_of_false ?_ (by simp)
      rintro ⟨last, failed⟩
      cases failed
  | false =>
      cases strict with
      | false =>
          refine iff_of_false ?_ (by simp)
          rintro ⟨last, failed⟩
          cases failed
      | true =>
          constructor
          · rintro ⟨last, failed⟩
            cases failed
            exact ⟨rfl, Bool.false_ne_true, rfl⟩
          · rintro ⟨-, -, rfl⟩
            exact ⟨_, rfl⟩

theorem labelName_eq_error_iff (starts : c.rest = first :: others) :
    (∃ last, labelName strict first c = .error fault last) ↔
      strict = true ∧ Unclosed c.rest ∧
        fault = .parse ⟨.unterminatedName, c.position, String.ofList c.text⟩ := by
  cases opens : Name.opens first with
  | true =>
      have unclosed : Unclosed c.rest ↔ Name.closing first ∉ c.rest.tail := by
        rw [starts, List.tail_cons]
        constructor
        · rintro ⟨_, _, ⟨⟩, -, missing⟩
          exact missing
        · exact fun missing => ⟨first, others, rfl, opens, missing⟩
      rw [labelName, if_pos opens, quotedName_eq_error_iff, unclosed]
  | false =>
      rw [labelName, if_neg (by rw [opens]; decide)]
      constructor
      · rintro ⟨last, failed⟩
        cases failed
      · rintro ⟨-, ⟨opening, _, same, opens', -⟩, -⟩
        cases starts.symm.trans same
        cases opens.symm.trans opens'

/-! ## Aliases -/

/-- Blanks, AS, more blanks and a character other than a comma. -/
def LabelAhead (text : List Char) : Prop :=
  ∃ start, Introducer text start ∧ ∃ first ∈ start.head?, first ≠ ','

theorem label_of_not_ahead (missing : ¬ LabelAhead c.rest) : label strict c = .ok none c := by
  rcases label_cases strict c with ⟨length, first, found, -⟩ | ⟨-, read⟩
  · exact absurd ⟨_, label?_iff.mp ⟨length, found, rfl⟩⟩ missing
  · exact read

theorem label_of_introducer (introduced : Introducer c.rest (c.skip length).rest)
    (starts : (c.skip length).rest = first :: others) (other : first ≠ ',') :
    label strict c = (labelName strict first >>= fun name => pure (some name)) (c.skip length) := by
  have head : (c.skip length).rest.head? = some first := by
    rw [starts]
    rfl
  rcases label_cases strict c with ⟨count, first', found, starts', read⟩ | ⟨missing, -⟩
  · have introduced' := (label?_iff.mp ⟨count, found, rfl⟩).1
    rw [← Cursor.rest_skip] at introduced'
    rw [Cursor.skip_eq_of_rest_eq (introduced'.unique introduced)] at starts' read
    cases head.symm.trans starts'
    exact read
  · obtain ⟨count, found, -⟩ := label?_iff.mpr ⟨introduced, first, head, other⟩
    cases missing.symm.trans found

theorem LabelAhead.starts (ahead : LabelAhead c.rest) : ∃ length first others,
    Introducer c.rest (c.skip length).rest ∧ (c.skip length).rest = first :: others ∧
      first ≠ ',' := by
  obtain ⟨start, introduced, first, head, other⟩ := ahead
  obtain ⟨length, -, rfl⟩ := label?_iff.mpr ⟨introduced, first, head, other⟩
  obtain ⟨others, starts⟩ := List.head?_eq_some_iff.mp head
  exact ⟨length, first, others, introduced, starts, other⟩

theorem label_eq_none_iff :
    label strict c = .ok none last ↔ last = c ∧ ¬ LabelAhead c.rest := by
  constructor
  · intro read
    have missing : ¬ LabelAhead c.rest := by
      intro ahead
      obtain ⟨length, first, others, introduced, starts, other⟩ := ahead.starts
      rw [label_of_introducer introduced starts other] at read
      obtain ⟨name, middle, -, named⟩ := bind_ok read
      cases named
    rw [label_of_not_ahead missing] at read
    cases read
    exact ⟨rfl, missing⟩
  · rintro ⟨rfl, missing⟩
    exact label_of_not_ahead missing

/-- An alias is read, or the reading fails at it, exactly if it is ahead. -/
theorem label_takes_iff :
    ((∃ name last, label strict c = .ok (some name) last) ∨
      ∃ fault last, label strict c = .error fault last) ↔ LabelAhead c.rest := by
  constructor
  · intro taken
    by_contra missing
    rw [label_of_not_ahead missing] at taken
    rcases taken with ⟨_, _, ⟨⟩⟩ | ⟨_, _, ⟨⟩⟩
  · intro ahead
    obtain ⟨length, first, others, introduced, starts, other⟩ := ahead.starts
    rw [label_of_introducer introduced starts other]
    cases read : labelName strict first (c.skip length) with
    | ok name last => exact .inl ⟨name, last, bind_of_ok read⟩
    | error fault last => exact .inr ⟨fault, last, bind_of_error read⟩

theorem label_eq_error_iff :
    (∃ last, label strict c = .error fault last) ↔ strict = true ∧ ∃ length,
      Introducer c.rest (c.skip length).rest ∧ Unclosed (c.skip length).rest ∧
        fault = .parse ⟨.unterminatedName, (c.skip length).position, String.ofList c.text⟩ := by
  have failing {length : Nat} {first : Char} {others : List Char}
      (introduced : Introducer c.rest (c.skip length).rest)
      (starts : (c.skip length).rest = first :: others) (other : first ≠ ',') :
      (∃ last, label strict c = .error fault last) ↔ strict = true ∧
        Unclosed (c.skip length).rest ∧
          fault = .parse ⟨.unterminatedName, (c.skip length).position, String.ofList c.text⟩ := by
    simp only [label_of_introducer introduced starts other, bind_pure_eq_error_iff]
    exact labelName_eq_error_iff starts
  constructor
  · rintro ⟨last, failed⟩
    obtain ⟨length, first, others, introduced, starts, other⟩ :=
      (label_takes_iff.mp (.inr ⟨fault, last, failed⟩)).starts
    obtain ⟨strictly, unclosed, same⟩ := (failing introduced starts other).mp ⟨last, failed⟩
    exact ⟨strictly, length, introduced, unclosed, same⟩
  · rintro ⟨strictly, length, introduced, unclosed, same⟩
    obtain ⟨opening, others, starts, opens, -⟩ := id unclosed
    have other : opening ≠ ',' := by
      rintro rfl
      cases opens
    exact (failing introduced starts other).mpr ⟨strictly, unclosed, same⟩

/-! ## DISTINCT -/

theorem distinct_eq_false_iff :
    distinct c = .ok false last ↔ last = c ∧ ¬ ∃ rest, Modifier c.rest rest := by
  simp only [← distinct?_iff]
  rcases distinct_cases c with ⟨length, found, read⟩ | ⟨missing, read⟩
  · simp [read, found]
  · simp [read, missing, eq_comm]

theorem distinct_eq_true_iff :
    distinct c = .ok true last ↔ Modifier c.rest last.rest ∧ ∃ length, last = c.skip length := by
  rcases distinct_cases c with ⟨length, found, read⟩ | ⟨missing, read⟩
  · have here : Modifier c.rest (c.skip length).rest := distinct?_iff.mp ⟨length, found, rfl⟩
    rw [read]
    constructor
    · intro same
      cases same
      exact ⟨here, length, rfl⟩
    · rintro ⟨there, other, rfl⟩
      rw [Cursor.skip_eq_of_rest_eq (here.unique there)]
  · rw [read]
    refine iff_of_false nofun ?_
    rintro ⟨there, -⟩
    obtain ⟨length, found, -⟩ := distinct?_iff.mpr there
    cases missing.symm.trans found

/-! ## Both parts -/

/-- An alias is taken exactly if blanks, AS, blanks and a character other than a comma are ahead: it
is read, or strict reading fails at its opening quote, which nothing closes. DISTINCT is taken
exactly if it is ahead with blanks after it, and so are these. Otherwise the cursor is where it
was. -/
theorem lookahead_exact (strict : Bool) (c : Cursor) :
    (∀ last, label strict c = .ok none last ↔ last = c ∧ ¬ LabelAhead c.rest) ∧
    ((∃ name last, label strict c = .ok (some name) last) ∨
      (∃ fault last, label strict c = .error fault last) ↔ LabelAhead c.rest) ∧
    (∀ fault, (∃ last, label strict c = .error fault last) ↔ strict = true ∧ ∃ length,
      Introducer c.rest (c.skip length).rest ∧ Unclosed (c.skip length).rest ∧
        fault = .parse ⟨.unterminatedName, (c.skip length).position, String.ofList c.text⟩) ∧
    (∀ last, distinct c = .ok false last ↔ last = c ∧ ¬ ∃ rest, Modifier c.rest rest) ∧
    (∀ last, distinct c = .ok true last ↔
      Modifier c.rest last.rest ∧ ∃ length, last = c.skip length) ∧
    ∀ fault last, distinct c ≠ .error fault last := by
  refine ⟨fun _ => label_eq_none_iff, label_takes_iff, fun _ => label_eq_error_iff,
    fun _ => distinct_eq_false_iff, fun _ => distinct_eq_true_iff, fun fault last failed => ?_⟩
  obtain ⟨value, count, read⟩ := succeeds_distinct c
  cases read.symm.trans failed

end Scan

end RowQuery
