import RowQuery.Proofs.Grammar.Lookahead
import RowQuery.Proofs.Parser.Sequence

/-!
# Columns and calls

The letters of a function's name are read one at a time; those that no call has are the first ones
of a column, and no character is lost (`nameFrom_spelled`). So a term without quotes is a call
exactly if its text starts with a name and a parenthesis, and is a column of that whole text up to a
blank or a comma otherwise (`term_of_unquoted`).
-/

namespace RowQuery

open Lookahead Grammar

theorem Grammar.bare_eq_spelled_append (inCall : Bool) (text : List Char) :
    bare inCall text =
      spelled [] text ++ bare inCall (text.drop (spelled [] text).length) := by
  obtain ⟨letters, rest, rfl, read, begins⟩ := exists_spelled [] text
  rw [List.nil_append] at read begins
  have within : ∀ c ∈ letters, !endsBare inCall c := by
    rcases begins with rfl | begins
    · exact nofun
    · exact fun c member => by simp [(Keyword.letters_of_begins begins c member inCall).1]
  rw [read, List.drop_left, bare, List.takeWhile_append_of_pos within, bare]

namespace Scan

theorem nameFrom_spelled (c : Cursor) : nameFrom (spelled [] c.rest) c = bareName false c := by
  have name := bare_eq_spelled_append false c.rest
  have length : (bare false c.rest).length = (spelled [] c.rest).length +
      (bare false (c.rest.drop (spelled [] c.rest).length)).length := by
    rw [← List.length_append, ← name]
  calc nameFrom (spelled [] c.rest) c
      = .ok (String.ofList (spelled [] c.rest) ++
          String.ofList (bare false (c.rest.drop (spelled [] c.rest).length)))
        ((c.skip (spelled [] c.rest).length).skip
          (bare false (c.rest.drop (spelled [] c.rest).length)).length) := rfl
    _ = .ok (String.ofList (bare false c.rest)) (c.skip (bare false c.rest).length) := by
      rw [← String.ofList_append, ← name, Cursor.skip_skip, ← length]

theorem gives_call_kind (settings : Settings) (keyword : Keyword) (c : Cursor) :
    Gives (call settings keyword) c fun e _ => e.kindName = keyword.name := by
  have kind {term : Term} {c : Cursor}
      (named : ∀ e : Expression, e.term = term → e.kindName = keyword.name) :
      Gives (build term) c fun e _ => e.kindName = keyword.name :=
    fun e last reached => named e (gives_build term c e last reached).1
  refine gives_skip (gives_position (gives_skip ?_))
  cases keyword with
  | aggregate function =>
      refine Gives.bind (fun _ _ _ => trivial) fun _ _ _ => kind fun e same => ?_
      rw [Expression.kindName, same]
      rfl
  | concat =>
      refine Gives.bind (fun _ _ _ => trivial) fun _ _ _ => kind fun e same => ?_
      rw [Expression.kindName, same]
      rfl

theorem build_of_sound {term : Term} (sound : term.flaw? = none) :
    build term = pure ⟨term, "", sound⟩ := by
  have made : Expression.ofTerm term = .ok ⟨term, "", sound⟩ := ofTerm_eq_ok_iff.mpr ⟨rfl, rfl⟩
  rw [build, made]

/-- The letters at a cursor are read as the name of a function, and reading goes on in its call. -/
def CallsAt (settings : Settings) (keyword : Keyword) (c : Cursor) : Prop :=
  call? c.rest = some keyword ∧ term settings c = call settings keyword c

/-- A term that does not start with a quote is read as a call of a function exactly if the name of
the function and a parenthesis stand there, and can give nothing else than that function then.
Otherwise it is the column of all characters up to the first blank or comma, and the cursor is after
them. -/
theorem term_of_unquoted (settings : Settings) {c : Cursor} {first : Char} {others : List Char}
    (starts : c.rest = first :: others) (visible : Text.isBlank first = false)
    (other : first ≠ ',') (unquoted : Name.opens first = false) :
    (∀ keyword, (CallsAt settings keyword c ↔ ∃ inner, Call keyword c.rest inner) ∧
      (CallsAt settings keyword c →
        ∀ e last, term settings c = .ok e last → e.kindName = keyword.name)) ∧
    ((¬ ∃ keyword inner, Call keyword c.rest inner) →
      ∃ name rest sound, c.rest = name ++ rest ∧
        (∀ d ∈ name, Text.isBlank d = false ∧ d ≠ ',') ∧
        (∀ d ∈ rest.head?, Text.isBlank d = true ∨ d = ',') ∧
        term settings c = .ok ⟨.column (String.ofList name), "", sound⟩ (c.skip name.length)) := by
  have unopened : c.rest.head?.filter Name.opens = none := by simp [starts, unquoted]
  have reached : rest c = .ok c.rest c := rfl
  have calls (keyword : Keyword) (found : call? c.rest = some keyword) :
      term settings c = call settings keyword c := by
    rw [term, bind_of_ok reached, unopened]
    simp only [found]
  have column (uncalled : call? c.rest = none) : term settings c =
      (nameFrom (spelled [] c.rest) >>= fun name => build (.column name)) c := by
    rw [term, bind_of_ok reached, unopened]
    simp only [uncalled]
  constructor
  · intro keyword
    constructor
    · rw [← call?_eq_some_iff]
      exact ⟨And.left, fun found => ⟨found, calls keyword found⟩⟩
    · rintro ⟨-, same⟩ e last reached
      exact gives_call_kind settings keyword c e last (same ▸ reached)
  · intro uncalled
    rw [← call?_eq_none_iff] at uncalled
    let name := bare false c.rest
    have some_letter : name ≠ [] := by simp [name, bare, starts, endsBare, visible, other]
    have sound : (Term.column (String.ofList name)).flaw? = none := by
      simpa [Term.flaw?] using some_letter
    refine ⟨name, c.rest.dropWhile fun d => !endsBare false d, sound,
      List.takeWhile_append_dropWhile.symm, ?_, ?_, ?_⟩
    · intro d member
      simpa [endsBare] using mem_takeWhile _ _ d member
    · intro d member
      have ends : endsBare false d := by simpa using head?_dropWhile _ _ d member
      simpa [endsBare] using ends
    · rw [column uncalled, bind_of_ok (nameFrom_spelled c), build_of_sound sound]
      rfl

/-- The letters of COUNT, in any case, before a parenthesis and before another letter. -/
theorem term_of_unquoted_letters :
    let settings : Settings := ⟨true, .coerce⟩
    let c := Cursor.ofText "coUnt(*)"
    let d := Cursor.ofText "Counté(x),y"
    CallsAt settings (.aggregate .count) c ∧
      ∃ sound, term settings d = .ok ⟨.column "Counté(x)", "", sound⟩ (d.skip 9) := by
  intro settings c d
  have start : c.rest = 'c' :: "oUnt(*)".toList := by decide +kernel
  have start' : d.rest = 'C' :: "ounté(x),y".toList := by decide +kernel
  obtain ⟨calls, -⟩ := term_of_unquoted settings start (by decide) (by decide) (by decide)
  obtain ⟨-, column⟩ := term_of_unquoted settings start' (by decide) (by decide) (by decide)
  have called : ∃ inner, Call (.aggregate .count) c.rest inner :=
    ⟨"*)".toList, "coUnt".toList, by decide +kernel, by decide⟩
  have uncalled : ¬ ∃ keyword inner, Call keyword d.rest inner :=
    call?_eq_none_iff.mp (by decide +kernel)
  refine ⟨(calls _).1.mpr called, ?_⟩
  obtain ⟨name, rest, sound, whole, within, ends, read⟩ := column uncalled
  have stops : ∀ e ∈ rest.head?, ¬ (!endsBare false e) := by
    intro e head
    rcases ends e head with blank | rfl
    · simp [endsBare, blank]
    · decide
  obtain ⟨cut, -⟩ := eq_takeWhile_append _ whole (by simpa [endsBare] using within) stops
  obtain rfl : name = "Counté(x)".toList := cut.trans (by decide +kernel)
  exact ⟨sound, read⟩

end Scan

end RowQuery
