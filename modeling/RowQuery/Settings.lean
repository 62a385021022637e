/-!
How select lists are read and evaluated.
-/

namespace RowQuery

/-- What SUM and AVG do with a value that is not a number. -/
inductive OperandRule where
  /-- A boolean counts as 0 or 1 and a numeral as its number; other values are left out. -/
  | coerce
  /-- The value is a fault. -/
  | reject
deriving DecidableEq, Repr

namespace OperandRule

instance : Inhabited OperandRule := ⟨coerce⟩

/-- The name of a rule. -/
def name : OperandRule → String
  | .coerce => "coerce"
  | .reject => "reject"

end OperandRule

/-- How a select list is read and evaluated. -/
structure Settings where
  /-- Whether malformed text is a fault; otherwise reading recovers from it. -/
  strict : Bool
  operands : OperandRule
deriving DecidableEq, Repr

namespace Settings

/-- Recovers from malformed text and coerces operands. -/
def permissive : Settings := ⟨false, .coerce⟩

/-- Refuses malformed text and operands that are not numbers. -/
def rejecting : Settings := ⟨true, .reject⟩

instance : Inhabited Settings := ⟨permissive⟩

/-- The same settings with another treatment of malformed text. -/
def withStrict (settings : Settings) (strict : Bool) : Settings :=
  { settings with strict }

/-- The same settings with another rule for operands. -/
def withOperands (settings : Settings) (operands : OperandRule) : Settings :=
  { settings with operands }

end Settings

end RowQuery
