/-!
The functions of a select list that fold many rows into one value.
-/

namespace RowQuery

/-- A function over all rows, or over the rows of a group. -/
inductive AggregateFunction where
  | avg
  | count
  | max
  | min
  | sum
deriving DecidableEq, Repr

namespace AggregateFunction

/-- All functions. -/
def all : List AggregateFunction :=
  [.avg, .count, .max, .min, .sum]

/-- The name of a function in a select list. -/
def name : AggregateFunction → String
  | .avg => "AVG"
  | .count => "COUNT"
  | .max => "MAX"
  | .min => "MIN"
  | .sum => "SUM"

/-- What the field of a result is called after its function. -/
def stem : AggregateFunction → String
  | .avg => "avg"
  | .count => "count"
  | .max => "max"
  | .min => "min"
  | .sum => "sum"

/-- Whether a function takes `*`, which stands for whole rows. -/
def takesStar : AggregateFunction → Bool
  | .count => true
  | _ => false

/-- Whether a function takes numbers only. -/
def isNumeric : AggregateFunction → Bool
  | .avg | .sum => true
  | _ => false

/-- Whether DISTINCT changes what a function gives; an extremum is the same without repetitions. -/
def heedsDistinct : AggregateFunction → Bool
  | .max | .min => false
  | _ => true

end AggregateFunction

end RowQuery
