set_option autoImplicit false

namespace Recompute.Decimal

structure Scaled where
  digits : Nat
  exponent : Int
  deriving DecidableEq, Repr

structure Interval where
  lower : Nat
  value : Nat
  upper : Nat
  scale : Nat
  closed : Bool

-- The numbers nearer to `significand * 2 ^ exponent` than to any other with a 53-bit significand.
-- The spacing below a power of two is half the spacing above it, so the unit is a quarter step.
def Interval.around (significand : Nat) (exponent : Int) (powerOfTwo : Bool) : Interval :=
  let up := (exponent - 2).toNat
  { lower := (4 * significand - if powerOfTwo then 1 else 2) * Nat.pow 2 up
    value := 4 * significand * Nat.pow 2 up
    upper := (4 * significand + 2) * Nat.pow 2 up
    scale := Nat.pow 2 (2 - exponent).toNat
    closed := significand % 2 = 0 }

def Interval.inUnits (i : Interval) (exponent : Int) : Interval :=
  let up := Nat.pow 10 (-exponent).toNat
  { i with lower := i.lower * up, value := i.value * up, upper := i.upper * up
           scale := i.scale * Nat.pow 10 exponent.toNat }

def Interval.Contains (i : Interval) (n : Nat) : Prop :=
  if i.closed then i.lower ≤ n * i.scale ∧ n * i.scale ≤ i.upper
  else i.lower < n * i.scale ∧ n * i.scale < i.upper

instance (i : Interval) (n : Nat) : Decidable (i.Contains n) := by
  unfold Interval.Contains
  infer_instance

def Interval.nearest? (i : Interval) : Option Nat :=
  let below := i.value / i.scale
  let above := below + 1
  if i.Contains below then
    if i.Contains above ∧ above * i.scale - i.value ≤ i.value - below * i.scale then some above
    else some below
  else if i.Contains above then some above
  else none

def leastPower (value scale : Nat) : Nat → Int → Int
  | 0, k => k
  | n + 1, k =>
    if value * Nat.pow 10 (-k).toNat < scale * Nat.pow 10 k.toNat then k
    else leastPower value scale n (k + 1)

def lowestPower : Int := -324

def Interval.firstHit (i : Interval) (top : Int) : Nat → Int → Option Scaled
  | 0, _ => none
  | n + 1, count =>
    match (i.inUnits (top - count)).nearest? with
    | some digits => some ⟨digits, top - count⟩
    | none => i.firstHit top n (count + 1)

def Scaled.strip : Nat → Scaled → Scaled
  | 0, d => d
  | n + 1, d =>
    if d.digits ≠ 0 ∧ d.digits % 10 = 0 then strip n ⟨d.digits / 10, d.exponent + 1⟩ else d

-- The decimal with the fewest digits that lies nearer to `significand * 2 ^ exponent` than to any
-- other double, and of those the nearest one. Seventeen digits always suffice.
def shortest (significand : Nat) (exponent : Int) (powerOfTwo : Bool) : Scaled :=
  let i := Interval.around significand exponent powerOfTwo
  let top := leastPower i.value i.scale 640 lowestPower
  ((i.firstHit top 17 1).getD ⟨significand, exponent⟩).strip 17

end Recompute.Decimal
