/-!
# Operators

The operators of filter expressions and the directions of sort keys, with their names.
-/

namespace EntityQuery

inductive Comparison where
  | eq | ne | gt | ge | lt | le
deriving DecidableEq

namespace Comparison

def name : Comparison → String
  | .eq => "eq"
  | .ne => "ne"
  | .gt => "gt"
  | .ge => "ge"
  | .lt => "lt"
  | .le => "le"

def key : Comparison → String
  | .eq => "$eq"
  | .ne => "$ne"
  | .gt => "$gt"
  | .ge => "$gte"
  | .lt => "$lt"
  | .le => "$lte"

/-- The comparison that holds of the swapped operands exactly when this one holds. -/
def swap : Comparison → Comparison
  | .gt => .lt
  | .ge => .le
  | .lt => .gt
  | .le => .ge
  | c => c

@[simp] theorem swap_swap (c : Comparison) : c.swap.swap = c := by
  cases c <;> rfl

end Comparison

inductive BinaryOperator where
  | comparison (c : Comparison)
  | and
  | or
deriving DecidableEq

namespace BinaryOperator

def table : List (String × BinaryOperator) :=
  [("eq", .comparison .eq), ("ne", .comparison .ne), ("gt", .comparison .gt),
   ("ge", .comparison .ge), ("lt", .comparison .lt), ("le", .comparison .le), ("and", .and),
   ("or", .or)]

def name : BinaryOperator → String
  | .comparison c => c.name
  | .and => "and"
  | .or => "or"

/-- The key of a comparison; the connectives have none of their own. -/
def key? : BinaryOperator → Option String
  | .comparison c => some c.key
  | _ => none

def swap : BinaryOperator → BinaryOperator
  | .comparison c => .comparison c.swap
  | op => op

end BinaryOperator

inductive UnaryOperator where
  | not | negate
deriving DecidableEq

namespace UnaryOperator

def table : List (String × UnaryOperator) :=
  [("not", .not), ("negate", .negate)]

def name : UnaryOperator → String
  | .not => "not"
  | .negate => "negate"

def symbol : UnaryOperator → String
  | .not => "not"
  | .negate => "-"

end UnaryOperator

inductive Direction where
  | ascending | descending
deriving DecidableEq

namespace Direction

def table : List (String × Direction) :=
  [("asc", .ascending), ("desc", .descending)]

def name : Direction → String
  | .ascending => "asc"
  | .descending => "desc"

def sign : Direction → Int64
  | .ascending => 1
  | .descending => -1

end Direction

end EntityQuery
