import EntityQuery.Json.Tree
import EntityQuery.Text.Numeral

/-!
# JSON numbers

A number is first taken off a text as it is written. Without a point and an exponent it is then an
integer as long as 64 bits hold it. Any other one is a float: the leading digits that 64 bits hold,
scaled by a power of ten. Digits beyond those are dropped, so the float is close to the number
written but not always the nearest one.
-/

namespace EntityQuery.Json

/-- The largest number of 64 bits. -/
def maxSignificand : Nat := 18446744073709551615

/-- The largest power of ten that is a float. -/
def maxPower : Nat := 308

/-- A number as it is written. -/
structure Numeral where
  negative : Bool
  whole : List Char
  /-- The digits behind the point; none if there is no point. -/
  fraction : List Char
  /-- The value of the exponent, if there is one. -/
  exponent? : Option Int

/-- Append digits to a significand while 64 bits hold it; also how many digits were appended. -/
def appendDigits (significand : Nat) : List Char → Nat × Nat
  | [] => (significand, 0)
  | c :: cs =>
    let next := significand * 10 + (c.toNat - 48)
    if next ≤ maxSignificand then
      let (s, count) := appendDigits next cs
      (s, count + 1)
    else
      (significand, 0)

def powerOfTen (n : Nat) : Binary64 :=
  .ofNat (Nat.pow 10 n)

/-- Divide by `10 ^ n`, a float-sized power of ten at a time. -/
def divideByTen (x : Binary64) (n : Nat) : Binary64 :=
  if n ≤ maxPower then x.div (powerOfTen n)
  else if x.isZero then x
  else divideByTen (x.div (powerOfTen maxPower)) (n - maxPower)
termination_by n
decreasing_by simp only [maxPower] at *; omega

/-- The float for `significand * 10 ^ exponent`; none if it would be infinite. -/
def scaleByTen? (significand : Nat) (exponent : Int) : Option Binary64 :=
  let x := Binary64.ofNat significand
  if exponent < 0 then some (divideByTen x (-exponent).toNat)
  else if x.isZero then some x
  else if exponent ≤ maxPower then
    let y := x.mul (powerOfTen exponent.toNat)
    if y.isFinite then some y else none
  else none

/-- The float that a number is read as; none if it is out of range. -/
def Numeral.double? (n : Numeral) : Option Binary64 :=
  let (head, kept) := appendDigits 0 n.whole
  let (significand, places) := appendDigits head n.fraction
  let exponent := ((n.whole.length - kept : Nat) : Int) - places + n.exponent?.getD 0
  (scaleByTen? significand exponent).map fun x => if n.negative then x.neg else x

/-- The integer that a number is read as; none if it has a point or an exponent, needs more than 64
bits, or is the negative zero. -/
def Numeral.int? (n : Numeral) : Option Int :=
  let value := Text.ofDecimal n.whole
  if n.fraction ≠ [] ∨ n.exponent?.isSome then none
  else if n.negative then
    if value = 0 ∨ 9223372036854775808 < value then none else some (-value)
  else if value ≤ maxSignificand then some value
  else none

/-- What a number is read as; none if it is out of range. -/
def Numeral.json? (n : Numeral) : Option Json :=
  match n.int? with
  | some value => some (.int value)
  | none => n.double?.map .double

/-! ## Scanning -/

/-- The digits before the point: a zero stands alone. -/
def scanWhole? (cs : List Char) : Option (List Char × List Char) :=
  match Text.spanDigits cs with
  | ([], _) => none
  | ('0' :: _ :: _, _) => none
  | r => some r

/-- The digits behind a point, at least one. Without a point there are none. -/
def scanFraction? : List Char → Option (List Char × List Char)
  | '.' :: rest =>
    match Text.spanDigits rest with
    | ([], _) => none
    | r => some r
  | cs => some ([], cs)

/-- The digits of an exponent behind its sign. -/
def scanExponentDigits? (negative : Bool) (cs : List Char) : Option (Option Int × List Char) :=
  match Text.spanDigits cs with
  | ([], _) => none
  | (ds, rest) =>
    let value : Int := Text.ofDecimal ds
    some (some (if negative then -value else value), rest)

def scanExponent? : List Char → Option (Option Int × List Char)
  | 'e' :: '-' :: rest | 'E' :: '-' :: rest => scanExponentDigits? true rest
  | 'e' :: '+' :: rest | 'E' :: '+' :: rest => scanExponentDigits? false rest
  | 'e' :: rest | 'E' :: rest => scanExponentDigits? false rest
  | cs => some (none, cs)

def scanUnsigned? (negative : Bool) (cs : List Char) : Option (Numeral × List Char) := do
  let (whole, r) ← scanWhole? cs
  let (fraction, r) ← scanFraction? r
  let (exponent?, r) ← scanExponent? r
  return (⟨negative, whole, fraction, exponent?⟩, r)

/-- The number at the head of a text, and what follows it. -/
def scanNumeral? : List Char → Option (Numeral × List Char)
  | '-' :: rest => scanUnsigned? true rest
  | cs => scanUnsigned? false cs

end EntityQuery.Json
