import EntityQuery.Numeric.Binary64
import EntityQuery.Text.Numeral

/-!
# Reading floats

A decimal text stands for the float nearest to the number it spells, however many digits it has.
-/

namespace EntityQuery.Binary64

/-- The float nearest to `digits * 10 ^ exponent`. A magnitude whose first digit stands beyond all
floats is decided by its place alone, so that a long exponent costs nothing. -/
def ofDigits (negative : Bool) (digits : Nat) (exponent : Int) : Binary64 :=
  let place : Int := exponent + (Text.decimal digits).length
  if digits = 0 ∨ place < -330 then ofIndex negative 0
  else if 310 < place then .infinite negative
  else ofRatio negative (digits * Nat.pow 10 exponent.toNat) (Nat.pow 10 (-exponent).toNat)

/-- An integer behind an optional sign. -/
def signedDigits? : List Char → Option Int
  | '-' :: ds => (digits? ds).map fun n => -(n : Int)
  | '+' :: ds => (digits? ds).map fun n => (n : Int)
  | ds => (digits? ds).map fun n => (n : Int)
where
  digits? (ds : List Char) : Option Nat :=
    if ds ≠ [] ∧ ds.all Char.isDigit then some (Text.ofDecimal ds) else none

/-- What follows the digits of a number: nothing, or `e` and an exponent. -/
def exponentOf? : List Char → Option Int
  | [] => some 0
  | c :: rest => if c = 'e' ∨ c = 'E' then signedDigits? rest else none

/-- A number without a sign: digits with a point among, before or behind them, and an exponent. -/
def ofUnsigned? (negative : Bool) (cs : List Char) : Option Binary64 := do
  let (whole, r) := Text.spanDigits cs
  let (fraction, r) := match r with
    | '.' :: rest => Text.spanDigits rest
    | rest => ([], rest)
  if whole ++ fraction = [] then none
  else
    let exponent ← exponentOf? r
    return ofDigits negative (Text.ofDecimal (whole ++ fraction)) (exponent - fraction.length)

/-- A float without a sign, by its digits or by its name in letters of either case. -/
def ofName? (negative : Bool) (cs : List Char) : Option Binary64 :=
  let name := String.ofList (cs.map Char.toLower)
  if name = "nan" then some .nan
  else if name = "inf" ∨ name = "infinity" then some (.infinite negative)
  else ofUnsigned? negative cs

def ofText? (s : String) : Option Binary64 :=
  match s.toList with
  | '-' :: cs => ofName? true cs
  | '+' :: cs => ofName? false cs
  | cs => ofName? false cs

end EntityQuery.Binary64
