import EntityQuery.Numeric.Binary64

/-!
# The fewest digits that identify a float

Among all decimals that round to a given float, the shortest are those with the fewest digits, and
of these the one nearest to the float is taken. Everything is decided by comparing natural numbers.
-/

namespace EntityQuery

structure Digits where
  digits : Nat
  exponent : Int
deriving DecidableEq

/-- Which of two equally near decimals is taken. -/
inductive Tie where
  | toEven
  | away

namespace Shortest

/-- A positive magnitude `m * 2 ^ q` whose gap to the float below is half the gap to the one above
when `narrow` is set. That is so at each power of two but the smallest. -/
structure Magnitude where
  m : Nat
  q : Int
  narrow : Bool

def Magnitude.ofFields (exponent fraction : Nat) : Magnitude :=
  ⟨Binary64.significand exponent fraction, Binary64.scale exponent, fraction == 0 && exponent > 1⟩

/-- Compare `a * 10 ^ i` with `b * 2 ^ j`. -/
def compareScaled (a : Nat) (i : Int) (b : Nat) (j : Int) : Ordering :=
  compare (a * Nat.pow 10 i.toNat * Nat.pow 2 (-j).toNat)
    (b * Nat.pow 2 j.toNat * Nat.pow 10 (-i).toNat)

/-- The decimal rounds to `x`: it lies between the midpoints to the neighbours of `x`, which
themselves round to `x` exactly when the significand is even. -/
def Magnitude.readsBack (x : Magnitude) (d : Digits) : Bool :=
  -- Midpoints in quarters of the gap: two above, and two below or only one.
  let low := if x.narrow then 4 * x.m - 1 else 4 * x.m - 2
  let closed := x.m % 2 == 0
  let below := compareScaled d.digits d.exponent low (x.q - 2)
  let above := compareScaled d.digits d.exponent (4 * x.m + 2) (x.q - 2)
  (below == .gt || closed && below == .eq) && (above == .lt || closed && above == .eq)

/-- The least `k` with `m * 2 ^ q < 10 ^ k`. The bit length times the logarithm of two, as
1233/4096, is off by at most one. -/
def Magnitude.places (x : Magnitude) : Int :=
  let guess := ((x.m.log2 : Int) + x.q) * 1233 / 4096
  ([guess, guess + 1].find? fun k => compareScaled 1 k x.m x.q == .gt).getD (guess + 2)

/-- The neighbour of `x` on the grid of multiples of `10 ^ grid` that rounds to `x`; the nearer one
if both do. -/
def Magnitude.onGrid (tie : Tie) (x : Magnitude) (grid : Int) : Option Digits :=
  let num := x.m * Nat.pow 2 x.q.toNat * Nat.pow 10 (-grid).toNat
  let den := Nat.pow 2 (-x.q).toNat * Nat.pow 10 grid.toNat
  let floor := num / den
  let lower : Digits := ⟨floor, grid⟩
  let upper : Digits := ⟨floor + 1, grid⟩
  match x.readsBack lower, x.readsBack upper with
  | false, false => none
  | true, false => some lower
  | false, true => some upper
  | true, true =>
    match compare (2 * num) ((2 * floor + 1) * den), tie with
    | .lt, _ => some lower
    | .gt, _ => some upper
    | .eq, .away => some upper
    | .eq, .toEven => some (if floor % 2 = 0 then lower else upper)

/-- Move up to `fuel` trailing zeros from the digits into the exponent. -/
def stripZeros : Nat → Digits → Digits
  | 0, d => d
  | fuel + 1, d =>
    if d.digits % 10 = 0 then stripZeros fuel ⟨d.digits / 10, d.exponent + 1⟩ else d

/-- The magnitude itself, digit by digit. -/
def Magnitude.exact (x : Magnitude) : Digits :=
  ⟨x.m * Nat.pow 2 x.q.toNat * Nat.pow 5 (-x.q).toNat, min x.q 0⟩

/-- The shortest decimal that rounds to `x`. Seventeen digits always suffice; were they not to, the
exact value would still be right. -/
def Magnitude.shortest (tie : Tie) (x : Magnitude) : Digits :=
  let places := x.places
  match (List.range 17).findSome? fun (n : Nat) => x.onGrid tie (places - n - 1) with
  | some d => stripZeros 18 d
  | none => x.exact

end Shortest

end EntityQuery
