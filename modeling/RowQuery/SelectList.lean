import RowQuery.Expression.Printer
import RowQuery.Parser
import RowQuery.Progress
import RowQuery.Projection

/-!
Select lists under evaluation. A list with an aggregate call gives one row, or one for each group;
any other list gives one row for each row.
-/

namespace RowQuery

/-- An expression under evaluation. -/
structure SelectItem where
  expression : Expression
  /-- How rows are grouped; `none` if all rows count together. -/
  grouping : Option Grouping
  progress : Progress

namespace SelectItem

/-- An expression before any row, without grouping. -/
def ofExpression (expression : Expression) : SelectItem :=
  ⟨expression, none, .start⟩

/-- Whether an item is an aggregate call. -/
def isAggregate (item : SelectItem) : Bool :=
  item.expression.isAggregate

/-- The number of groups met so far, for an aggregate call. -/
def groupCount? (item : SelectItem) : Option Nat :=
  item.expression.call?.map fun _ => item.progress.groups.size

/-- The item with another alias. -/
def withLabel (label : String) (item : SelectItem) : SelectItem :=
  { item with expression := item.expression.withLabel label }

/-- The item with another grouping, or with none. -/
def withGrouping (grouping : Option Grouping) (item : SelectItem) : SelectItem :=
  { item with grouping }

/-- Forgets all rows. -/
def start (item : SelectItem) : SelectItem :=
  { item with progress := .start }

/-- Takes one more row into an aggregate call; other items do not change. -/
def absorb [Hashing] (row : Row) (item : SelectItem) : Except Fault Unit × SelectItem :=
  match item.expression.call? with
  | none => (.ok (), item)
  | some call =>
    let (outcome, progress) := item.progress.add call item.grouping row
    (outcome, { item with progress })

/-- Writes the results of an aggregate call; other items write nothing. -/
def finish (item : SelectItem) (result : ResultSet) : ResultSet × SelectItem :=
  match item.expression.call? with
  | none => (result, item)
  | some call =>
    let (result, progress) :=
      item.progress.finish call item.grouping item.expression.output result
    (result, { item with progress })

end SelectItem

/-- A select list under evaluation. -/
structure SelectList where
  items : List SelectItem

namespace SelectList

/-- The list of some expressions, without grouping. -/
def ofExpressions (expressions : List Expression) : SelectList :=
  ⟨expressions.map .ofExpression⟩

/-- The list that a text writes. -/
def ofText (settings : Settings) (text : String) : Except Fault SelectList :=
  (Expression.parseList settings text).map ofExpressions

/-- The expressions in order. -/
def expressions (list : SelectList) : List Expression :=
  list.items.map SelectItem.expression

/-- The list as text. -/
def render (list : SelectList) : String :=
  Expression.renderList list.expressions

/-- Whether any item is an aggregate call. -/
def hasAggregates (list : SelectList) : Bool :=
  list.items.any SelectItem.isAggregate

/-- The list with one grouping, or none, for all items. -/
def withGrouping (grouping : Option Grouping) (list : SelectList) : SelectList :=
  ⟨list.items.map (SelectItem.withGrouping grouping)⟩

/-- The list with another alias for the item at an index. -/
def withLabel (index : Nat) (label : String) (list : SelectList) : SelectList :=
  ⟨list.items.modify index (SelectItem.withLabel label)⟩

/-- Takes one more row into each item in order, up to the first fault. -/
def absorbRow [Hashing] (row : Row) : List SelectItem → Except Fault Unit × List SelectItem
  | [] => (.ok (), [])
  | item :: rest =>
    match item.absorb row with
    | (.error fault, item) => (.error fault, item :: rest)
    | (.ok (), item) =>
      let (outcome, rest) := absorbRow row rest
      (outcome, item :: rest)

/-- Takes rows into the items in order, up to the first fault. -/
def absorbRows [Hashing] : List Row → List SelectItem → Except Fault Unit × List SelectItem
  | [], items => (.ok (), items)
  | row :: rows, items =>
    match absorbRow row items with
    | (.error fault, items) => (.error fault, items)
    | (.ok (), items) => absorbRows rows items

/-- Writes the results of all items in order. -/
def finishItems : List SelectItem → ResultSet → ResultSet × List SelectItem
  | [], result => (result, [])
  | item :: rest, result =>
    let (result, item) := item.finish result
    let (result, rest) := finishItems rest result
    (result, item :: rest)

/-- The row that a list without aggregate calls gives for a row. -/
def project [Formats] (expressions : List Expression) (row : Row) : Row :=
  expressions.foldl (fun written expression => expression.project row written) .empty

/-- Evaluates a list over rows. -/
def execute [Formats] [Hashing] (rows : List Row) (list : SelectList) :
    Except Fault ResultSet × SelectList :=
  let started := list.items.map SelectItem.start
  if list.hasAggregates then
    match absorbRows rows started with
    | (.error fault, items) => (.error fault, ⟨items⟩)
    | (.ok (), items) =>
      let (result, items) := finishItems items .empty
      (.ok result, ⟨items⟩)
  else (.ok ⟨rows.map (project list.expressions)⟩, ⟨started⟩)

end SelectList

end RowQuery
