/-!
# Text patterns

The patterns for which texts are searched. A text stands for itself in a pattern once its
metacharacters are escaped; an anchor ties it to the start or to the end.
-/

namespace EntityQuery

inductive TextSearch where
  | contains
  | startsWith
  | endsWith
deriving DecidableEq

namespace Pattern

/-- The characters that can mean something else than themselves. -/
def metacharacters : List Char :=
  ['\\', '.', '+', '*', '?', '(', ')', '|', '[', ']', '\x7b', '\x7d', '^', '$', '#', '&', '-', '~']

/-- A text with a backslash before each metacharacter. -/
def escape : List Char → List Char
  | [] => []
  | c :: cs => if c ∈ metacharacters then '\\' :: c :: escape cs else c :: escape cs

end Pattern

namespace TextSearch

def pattern (m : TextSearch) (text : String) : String :=
  let escaped := Pattern.escape text.toList
  match m with
  | .contains => String.ofList escaped
  | .startsWith => String.ofList ('^' :: escaped)
  | .endsWith => String.ofList (escaped ++ ['$'])

end TextSearch

end EntityQuery
