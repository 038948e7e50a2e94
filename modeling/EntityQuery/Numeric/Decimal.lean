import EntityQuery.Text.Numeral

/-!
# Decimals of 96 bits

A decimal is a sign, a mantissa below `2 ^ 96` and a number of decimal places, at most 28. The
places belong to the value: `12.5` and `12.50` are two decimals.
-/

namespace EntityQuery

def Decimal.limit : Nat := 79228162514264337593543950336

def Decimal.maxScale : Nat := 28

/-- The decimal `mantissa / 10 ^ scale`, negated if `negative` is set. -/
structure Decimal where
  negative : Bool
  mantissa : Nat
  scale : Nat
  mantissa_lt : mantissa < Decimal.limit
  scale_le : scale ≤ Decimal.maxScale
deriving DecidableEq

namespace Decimal

/-- The decimal of these parts, if the mantissa and the scale are in range. -/
def ofParts? (negative : Bool) (mantissa scale : Nat) : Option Decimal :=
  if h : mantissa < limit ∧ scale ≤ maxScale then
    some ⟨negative, mantissa, scale, h.1, h.2⟩
  else
    none

/-- The whole number `n`, if it has at most 96 bits. -/
def ofInt? (n : Int) : Option Decimal :=
  ofParts? (n < 0) n.natAbs 0

/-- The decimal with the other sign; a zero has a sign too. -/
def neg (d : Decimal) : Decimal :=
  { d with negative := !d.negative }

@[simp] theorem neg_neg (d : Decimal) : d.neg.neg = d := by
  simp [neg]

/-! ## Writing -/

/-- The digits of a decimal without its sign: at least one digit stands before the point. -/
def unsignedText (d : Decimal) : List Char :=
  let ds := Text.padded (d.scale + 1) d.mantissa
  if d.scale = 0 then ds
  else ds.take (ds.length - d.scale) ++ '.' :: ds.drop (ds.length - d.scale)

def toText (d : Decimal) : String :=
  String.ofList (if d.negative then '-' :: d.unsignedText else d.unsignedText)

/-! ## Reading

Digits are taken as long as the mantissa fits and 28 places are not exceeded. The first digit that
is dropped decides the rounding; behind it only digits and underscores may follow, and they change
nothing.
-/

structure Progress where
  mantissa : Nat
  scale : Nat
  /-- The point has been read. -/
  point : Bool
  /-- Some digit has been read. -/
  digits : Bool

def Progress.start : Progress := ⟨0, 0, false, false⟩

/-- A decimal that has been read; a zero is read without a sign. -/
def ofRead? (negative : Bool) (mantissa scale : Nat) : Option Decimal :=
  ofParts? (negative && mantissa != 0) mantissa scale

/-- Round on the first dropped digit: five and above go away from zero. A mantissa that overflows by
it gives up its last digit. -/
def round? (negative : Bool) (p : Progress) (digit : Nat) : Option Decimal :=
  if digit < 5 then ofRead? negative p.mantissa p.scale
  else if p.mantissa + 1 < limit then ofRead? negative (p.mantissa + 1) p.scale
  else if p.scale = 0 then none
  else ofRead? negative ((p.mantissa + 5) / 10) (p.scale - 1)

/-- Text that can follow a dropped digit. -/
def isDropped (cs : List Char) : Bool :=
  cs.all fun c => c.isDigit || c == '_'

/-- Round on the first dropped digit, if what follows it can be dropped. -/
def dropRest? (negative : Bool) (p : Progress) (digit : Nat) (rest : List Char) : Option Decimal :=
  if isDropped rest then round? negative p digit else none

/-- A mantissa is short if all but its last digit are below this number. -/
def shortLimit : Nat := 1844674407370954906

def Progress.isShort (p : Progress) : Bool :=
  p.mantissa / 10 < shortLimit

/-- All places are taken, so the next digit is dropped. -/
def Progress.isFull (p : Progress) : Bool :=
  p.point && maxScale ≤ p.scale

/-- Read digits, at most one point, and underscores behind the first digit. An underscore behind the
last place stands for a dropped zero if the mantissa is short, and for nothing otherwise. -/
def readDigits (negative : Bool) : Progress → List Char → Option Decimal
  | p, [] => if p.digits then ofRead? negative p.mantissa p.scale else none
  | p, c :: rest =>
    match Text.digit? c with
    | some d =>
      let next := p.mantissa * 10 + d
      if p.isFull then dropRest? negative p d rest
      else if next < limit then
        readDigits negative ⟨next, if p.point then p.scale + 1 else 0, p.point, true⟩ rest
      else if p.point then dropRest? negative p d rest
      -- Digits before the point cannot be dropped.
      else none
    | none =>
      if c = '.' && !p.point then readDigits negative { p with point := true } rest
      else if c = '_' && p.digits then
        if p.isFull && p.isShort then dropRest? negative p 0 rest
        else readDigits negative p rest
      else none

/-- Read a decimal in positional notation, behind an optional sign. -/
def ofPositional? : List Char → Option Decimal
  | '-' :: rest => readDigits true .start rest
  | '+' :: rest => readDigits false .start rest
  | cs => readDigits false .start cs

/-- An exponent without its minus sign: digits behind an optional plus sign. -/
def exponent? (cs : List Char) : Option Nat :=
  let ds := match cs with
    | '+' :: rest => rest
    | ds => ds
  if ds ≠ [] ∧ ds.all Char.isDigit then some (Text.ofDecimal ds) else none

/-- Divide by `10 ^ places`. Places beyond the 28th are rounded off first, a half going away from
zero. -/
def shiftRight? (d : Decimal) (places : Nat) : Option Decimal :=
  if maxScale < places then none
  else if d.scale + places ≤ maxScale then ofParts? d.negative d.mantissa (d.scale + places)
  else
    let dropped := d.scale + places - maxScale
    let kept := d.mantissa / Nat.pow 10 dropped
    let next := d.mantissa / Nat.pow 10 (dropped - 1) % 10
    ofParts? d.negative (if 5 ≤ next then kept + 1 else kept) maxScale

/-- Multiply by `10 ^ places`: first by dropping places, beyond them by a whole factor. -/
def shiftLeft? (d : Decimal) (places : Nat) : Option Decimal :=
  if places ≤ d.scale then ofParts? d.negative d.mantissa (d.scale - places)
  else if maxScale < places then none
  else
    let mantissa := d.mantissa * Nat.pow 10 (places - d.scale)
    ofParts? (d.negative && mantissa != 0) mantissa 0

/-- Read a decimal in scientific notation: a positional one, `e` or `E`, and an exponent. -/
def ofScientific? (cs : List Char) : Option Decimal :=
  match cs.span (fun c => c != 'e' && c != 'E') with
  | (_, []) => none
  | (base, _ :: exponent) => do
    let d ← ofPositional? base
    match exponent with
    | '-' :: rest => d.shiftRight? (← exponent? rest)
    | rest => d.shiftLeft? (← exponent? rest)

/-- Read a decimal in positional or, failing that, in scientific notation. -/
def ofText? (s : String) : Option Decimal :=
  ofPositional? s.toList <|> ofScientific? s.toList

end Decimal

end EntityQuery
