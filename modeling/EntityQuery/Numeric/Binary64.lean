/-!
# Binary floats of 64 bits

A float is kept by its three fields, so that every operation is exact arithmetic on natural
numbers followed by one rounding. Rounding is to the nearest float, a tie going to the even one.
-/

namespace EntityQuery

/-- Two to the 52nd power: the weight of the leading bit that the fraction field leaves out. -/
def Binary64.hidden : Nat := 4503599627370496

/-- A binary float of 64 bits. All NaNs are one value, since no output tells them apart. -/
inductive Binary64 where
  | nan
  | infinite (negative : Bool)
  | finite (negative : Bool) (exponent : Fin 2047) (fraction : Fin Binary64.hidden)
deriving DecidableEq

namespace Binary64

/-! ## Fields and magnitude -/

/-- The integer `m` of the magnitude `m * 2 ^ q`. The least exponent field has no hidden bit. -/
def significand (exponent fraction : Nat) : Nat :=
  if exponent = 0 then fraction else hidden + fraction

/-- The power `q` of the magnitude `m * 2 ^ q`. The two least exponent fields share one scale. -/
def scale (exponent : Nat) : Int :=
  (max exponent 1 : Nat) - 1075

def neg : Binary64 → Binary64
  | .nan => .nan
  | .infinite negative => .infinite (!negative)
  | .finite negative exponent fraction => .finite (!negative) exponent fraction

def isFinite : Binary64 → Bool
  | .finite .. => true
  | _ => false

def isZero : Binary64 → Bool
  | .finite _ exponent fraction => exponent.val == 0 && fraction.val == 0
  | _ => false

@[simp] theorem neg_neg (x : Binary64) : x.neg.neg = x := by
  cases x <;> simp [neg]

/-- The float at place `index` in the ascending row of the non-negative floats; infinity comes
after the largest finite one. A carry out of the fraction lands in the exponent field by itself. -/
def ofIndex (negative : Bool) (index : Nat) : Binary64 :=
  if h : index / hidden < 2047 then
    .finite negative ⟨index / hidden, h⟩ ⟨index % hidden, Nat.mod_lt _ (by decide)⟩
  else
    .infinite negative

/-! ## Rounding -/

/-- The quotient as the nearest integer; a tie goes to the even one. -/
def roundEven (num den : Nat) : Nat :=
  let floor := num / den
  match compare (2 * (num % den)) den with
  | .lt => floor
  | .gt => floor + 1
  | .eq => if floor % 2 = 0 then floor else floor + 1

/-- Numerator and denominator of `num / den * 2 ^ power`. -/
def shifted (num den : Nat) (power : Int) : Nat × Nat :=
  (num * Nat.pow 2 power.toNat, den * Nat.pow 2 (-power).toNat)

/-- The scale at which `num / den` has 53 significant bits, and never less than the scale of the
smallest floats. The bit lengths give it up to one, and one comparison settles it. -/
def scaleOf (num den : Nat) : Int :=
  -- The quotient lies in [2 ^ (guess + 52), 2 ^ (guess + 54)) unless the floor of scales is met.
  let guess : Int := max ((num.log2 : Int) - den.log2 - 53) (-1074)
  let (n, d) := shifted num den (-guess)
  if 2 * hidden * d ≤ n then guess + 1 else guess

def ofRatio (negative : Bool) (num den : Nat) : Binary64 :=
  if num = 0 then
    ofIndex negative 0
  else
    let q := scaleOf num den
    let (n, d) := shifted num den (-q)
    -- A significand of 53 bits carries its leading bit into the exponent field.
    ofIndex negative ((q + 1074).toNat * hidden + roundEven n d)

def ofScaled (negative : Bool) (m d : Nat) (q : Int) : Binary64 :=
  let (num, den) := shifted m d q
  ofRatio negative num den

def ofNat (n : Nat) : Binary64 :=
  ofRatio false n 1

def ofInt (n : Int) : Binary64 :=
  ofRatio (n < 0) n.natAbs 1

def mul : Binary64 → Binary64 → Binary64
  | .finite s e f, .finite t g h =>
    ofScaled (s != t) (significand e f * significand g h) 1 (scale e + scale g)
  | .nan, _ => .nan
  | _, .nan => .nan
  | x@(.finite s _ _), .infinite t => if x.isZero then .nan else .infinite (s != t)
  | .infinite s, y@(.finite t _ _) => if y.isZero then .nan else .infinite (s != t)
  | .infinite s, .infinite t => .infinite (s != t)

def div : Binary64 → Binary64 → Binary64
  | x@(.finite s e f), y@(.finite t g h) =>
    if y.isZero then
      if x.isZero then .nan else .infinite (s != t)
    else
      ofScaled (s != t) (significand e f) (significand g h) (scale e - scale g)
  | .nan, _ => .nan
  | _, .nan => .nan
  | .infinite s, .finite t _ _ => .infinite (s != t)
  | .finite s _ _, .infinite t => ofIndex (s != t) 0
  | .infinite _, .infinite _ => .nan

end Binary64

end EntityQuery
