import Callable.Value.Binary
set_option autoImplicit false

/-!
Floating-point numbers in decimal notation. The digits are the fewest that are read back as the
number, and of those the nearest to it. No exponent is written.
-/

namespace Callable

/-- A number and the range of what is rounded to it, which may contain its ends. -/
structure Rounding where
  low : Rat
  value : Rat
  high : Rat
  closed : Bool

namespace Rounding

def contains (r : Rounding) (d : Rat) : Bool :=
  if r.closed then r.low ≤ d && d ≤ r.high else r.low < d && d < r.high

/-- The multiple of a unit in the range that is nearest to the number, the larger one of two. -/
def nearest? (r : Rounding) (unit : Rat) : Option Nat :=
  let n := (r.value / unit).floor.toNat
  let below : Rat := n * unit
  let above : Rat := (n + 1) * unit
  match r.contains below, r.contains above with
  | true, true => some (if r.value - below < above - r.value then n else n + 1)
  | true, false => some n
  | false, true => some (n + 1)
  | false, false => none

/-- The decimal with the largest unit, which is the one with the fewest digits, among the powers of
ten from `10 ^ e` down. -/
def shortest? (r : Rounding) : Nat → Int → Option (Nat × Int)
  | 0, _ => none
  | k + 1, e =>
    match r.nearest? ((10 : Rat) ^ e) with
    | some n => some (n, e)
    | none => r.shortest? k (e - 1)

theorem contains_nearest? {r : Rounding} {unit : Rat} {n : Nat} (h : r.nearest? unit = some n) :
    r.contains (n * unit) = true := by
  simp only [nearest?] at h
  split at h
  case h_1 below above =>
    split at h <;> cases h
    · exact below
    · simpa using above
  case h_2 below above =>
    cases h
    exact below
  case h_3 below above =>
    cases h
    simpa using above
  case h_4 => cases h

/-- The decimal is read back as the number. -/
theorem contains_shortest? {r : Rounding} {k n : Nat} {e e' : Int}
    (h : r.shortest? k e = some (n, e')) : r.contains (n * (10 : Rat) ^ e') = true := by
  induction k generalizing e with
  | zero => cases h
  | succ k ih =>
    unfold shortest? at h
    split at h
    · rename_i found
      cases h
      exact contains_nearest? found
    · exact ih h

end Rounding

namespace Binary

def exponent (x : Binary) : Nat := x.magnitude / Nat.pow 2 x.precision.fraction

/-- The bits below the exponent, under a leading one unless the number is too small for it. -/
def significand (x : Binary) : Nat :=
  let low := x.magnitude % Nat.pow 2 x.precision.fraction
  if x.exponent = 0 then low else Nat.pow 2 x.precision.fraction + low

/-- What the last bit of the significand stands for. -/
def ulp (x : Binary) : Rat :=
  let bias : Int := Nat.pow 2 (x.precision.width - x.precision.fraction - 2) - 1
  (2 : Rat) ^ (Nat.max 1 x.exponent - bias - x.precision.fraction : Int)

/-- Below a power of two the numbers are closer to each other. -/
def rounding (x : Binary) : Rounding :=
  let value : Rat := x.significand * x.ulp
  let narrow := x.significand = Nat.pow 2 x.precision.fraction
  { low := value - x.ulp / (if narrow then 4 else 2)
    value := value
    high := value + x.ulp / 2
    closed := x.exponent = 0 || x.significand % 2 = 0 }

/-- The digits of a number with as many of them after the point as the unit asks for. -/
def positional (n : Nat) (e : Int) : String :=
  let digits := (toString n).toList
  if 0 ≤ e then .ofList (digits ++ List.replicate e.toNat '0')
  else
    let after := (-e).toNat
    let padded := List.replicate (after + 1 - digits.length) '0' ++ digits
    let before := padded.length - after
    .ofList (padded.take before ++ '.' :: padded.drop before)

def display (x : Binary) : String :=
  let sign := if x.isNegative then "-" else ""
  if x.isNaN then "NaN"
  else if x.magnitude = x.precision.infinity then sign ++ "inf"
  else if x.magnitude = 0 then sign ++ "0"
  else
    let (n, e) := (x.rounding.shortest? 640 310).getD (0, 0)
    sign ++ positional n e

end Binary

end Callable
