import EntityQuery.Numeric.Shortest
import EntityQuery.Text.Numeral

/-!
# How a float is laid out as text

The digits are those of `Shortest`; a `Layout` holds the decisions that remain: where positional
notation ends, how an exponent is written, and which way a tie between two digits goes.
-/

namespace EntityQuery

/-- The decisions of a format for floats. -/
structure Layout where
  tie : Tie
  /-- Exponents of the leading digit from here on are written positionally … -/
  plainFrom : Int
  /-- … below this one. -/
  plainBelow : Int
  /-- A whole number is written `4.0` and not `4`. -/
  pointZero : Bool
  /-- A positive exponent is written `e+16` and not `e16`. -/
  plusSign : Bool

namespace Layout

/-- Every float written positionally; no float has a leading digit beyond these places. -/
def plain : Layout where
  tie := .away
  plainFrom := -400
  plainBelow := 400
  pointZero := false
  plusSign := false

/-- Digits `ds` with the point after the first `whole` of them. -/
def positional (l : Layout) (ds : List Char) (whole : Int) : List Char :=
  if whole ≤ 0 then
    '0' :: '.' :: (List.replicate (-whole).toNat '0' ++ ds)
  else if (ds.length : Int) ≤ whole then
    ds ++ List.replicate (whole.toNat - ds.length) '0' ++ (if l.pointZero then ['.', '0'] else [])
  else
    ds.take whole.toNat ++ '.' :: ds.drop whole.toNat

/-- Digits `ds` with the point after the first, and an exponent. -/
def scientific (l : Layout) (ds : List Char) (exponent : Int) : List Char :=
  let body := match ds with
    | d :: e :: rest => d :: '.' :: e :: rest
    | short => short
  let sign := if exponent < 0 then ['-'] else if l.plusSign then ['+'] else []
  body ++ 'e' :: (sign ++ Text.decimal exponent.natAbs)

def unsigned (l : Layout) (d : Digits) : List Char :=
  let ds := Text.decimal d.digits
  let whole := d.exponent + ds.length
  if l.plainFrom < whole ∧ whole ≤ l.plainBelow then l.positional ds whole
  else l.scientific ds (whole - 1)

/-- The text of a finite float. NaN and the infinities have none. -/
def text? (l : Layout) : Binary64 → Option String
  | .finite negative exponent fraction =>
    let x := Shortest.Magnitude.ofFields exponent fraction
    let body := if x.m = 0 then l.positional ['0'] 1 else l.unsigned (x.shortest l.tie)
    some (String.ofList (if negative then '-' :: body else body))
  | _ => none

end Layout

end EntityQuery
