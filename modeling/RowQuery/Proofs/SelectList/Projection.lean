import RowQuery.Formats.Standard
import RowQuery.Proofs.SelectList.Faults

/-!
# Lists without aggregate calls

Such a list maps rows to rows, whatever grouping is set. Each expression writes some fields for a
row; a field that several of them write has its place from the first and its value from the last
(`execute_projects`).
-/

namespace RowQuery

/-! ## Expressions -/

namespace Expression

/-- The fields that an expression writes for a row, no two of one name: `*` all fields of the row,
another column and CONCAT one field. -/
def written [Formats] (e : Expression) (row : Row) : List Field :=
  match e.term with
  | .column name =>
    if name = "*" then row.fields
    else [(e.output, (row.get? (Name.normalize name)).getD .null)]
  | .concat operands => [(e.output, concatenate operands row)]
  | .aggregate _ => []

/-- What an expression writes under a name for a row, if it does. -/
def wrote? [Formats] (row : Row) (name : String) (e : Expression) : Option Value :=
  (e.written row).lookup name

theorem nodup_written [Formats] (e : Expression) (row : Row) :
    ((e.written row).map Prod.fst).Nodup := by
  unfold written
  split
  · split
    · exact row.distinct
    · exact List.pairwise_singleton _ _
  · exact List.pairwise_singleton _ _
  · exact List.nodup_nil

theorem project_eq_setAll [Formats] (e : Expression) (row written : Row) :
    e.project row written = written.setAll (e.written row) := by
  obtain ⟨term, label, sound⟩ := e
  cases term with
  | column name =>
      by_cases star : name = "*"
      · simp only [project, Expression.written, if_pos star]
        rfl
      · simp only [project, Expression.written, if_neg star]
        rfl
  | concat operands => rfl
  | aggregate call => rfl

end Expression

/-! ## Lists -/

namespace SelectList

/-- A row shows what expressions write for another: each field at the place of its first writer and
with the value of its last. -/
structure Projects [Formats] (expressions : List Expression) (row shown : Row) : Prop where
  names : shown.names =
    (expressions.flatMap fun e => (e.written row).map Prod.fst).eraseDups
  values : ∀ name, shown.get? name =
    (expressions.filterMap (Expression.wrote? row name)).getLast?

theorem project_eq_setAll [Formats] (expressions : List Expression) (row : Row) :
    project expressions row = Row.empty.setAll (expressions.flatMap fun e => e.written row) := by
  rw [Row.setAll, List.foldl_flatMap, project]
  congr 1
  funext written e
  exact e.project_eq_setAll row written

theorem get?_foldl_project [Formats] (expressions : List Expression) (row written : Row)
    (name : String) :
    (expressions.foldl (fun written e => e.project row written) written).get? name =
      (expressions.filterMap (Expression.wrote? row name)).getLast?.or (written.get? name) := by
  induction expressions generalizing written with
  | nil => rfl
  | cons e rest ih =>
      have step : (e.project row written).get? name =
          (e.wrote? row name).or (written.get? name) := by
        rw [e.project_eq_setAll, Row.get?_setAll_of_nodup (e.nodup_written row)]
        rfl
      rw [List.foldl_cons, ih, step, ← Option.or_assoc]
      cases wrote : e.wrote? row name with
      | none => rw [List.filterMap_cons_none wrote, Option.or_none]
      | some value =>
          rw [List.filterMap_cons_some wrote, List.getLast?_cons, Option.or_some]

theorem projects [Formats] (expressions : List Expression) (row : Row) :
    Projects expressions row (project expressions row) where
  names := by
    rw [project_eq_setAll, Row.names_setAll, List.map_flatMap]
    rfl
  values name := by
    rw [project, get?_foldl_project]
    exact Option.or_none

/-- A list without aggregate calls gives a row for each row, in order, which shows what its
expressions write for that row alone. -/
theorem execute_projects [Formats] [Hashing] (list : SelectList)
    (plain : list.hasAggregates = false) :
    ∃ output : Row → Row,
      (∀ rows, (list.execute rows).1 = .ok ⟨rows.map output⟩ ∧
        ∀ grouping, ((list.withGrouping grouping).execute rows).1 = .ok ⟨rows.map output⟩) ∧
      ∀ row, Projects list.expressions row (output row) := by
  refine ⟨project list.expressions, fun rows => ⟨execute_of_no_aggregates plain, ?_⟩,
    projects list.expressions⟩
  intro grouping
  have expressions : (list.withGrouping grouping).expressions = list.expressions := by
    simp only [SelectList.expressions, withGrouping, List.map_map]
    rfl
  rw [execute_of_no_aggregates ((hasAggregates_withGrouping grouping list).trans plain),
    expressions]

open scoped Formats Hashing in
/-- The alias of the first column is a field that the star writes again, and CONCAT writes over
another field of the star. -/
theorem execute_projects_overwritten :
    let list := ofExpressions [⟨.column "n", "k", rfl⟩, ⟨.column "*", "", rfl⟩,
      ⟨.concat [.column "k", .literal "-", .column "none"], "the n", rfl⟩]
    let row := Row.ofFields [("the_n", .integer 1), ("k", .text "a"), ("n", .null)]
    let shown := Row.ofFields [("k", .text "a"), ("the_n", .text "a-"), ("n", .null)]
    list.hasAggregates = false ∧ (list.execute [row]).1 = .ok ⟨[shown]⟩ ∧
      Projects list.expressions row shown := by
  intro list row shown
  obtain ⟨output, ran, projected⟩ := execute_projects list rfl
  have evaluated : (list.execute [row]).1 = .ok ⟨[shown]⟩ := by
    simp only [list, row, shown]
    rfl
  have same : output row = shown := by
    have both := (ran [row]).1.symm.trans evaluated
    injection both with both
    injection both with both
    injection both
  exact ⟨rfl, evaluated, same ▸ projected row⟩

end SelectList

end RowQuery
