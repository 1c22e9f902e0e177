set_option autoImplicit false

/-!
Binary floating-point numbers as bit patterns. The sign is the top bit, and the other bits, read as
a number, grow with the magnitude; a pattern above that of infinity is no number.
-/

namespace Callable

inductive Precision where
  | single | double
  deriving DecidableEq, Repr, Inhabited

namespace Precision

def width : Precision → Nat
  | .single => 32
  | .double => 64

/-- The bits below the exponent. -/
def fraction : Precision → Nat
  | .single => 23
  | .double => 52

/-- The least pattern with a sign. -/
def signBit (p : Precision) : Nat := Nat.pow 2 (p.width - 1)

def infinity (p : Precision) : Nat := p.signBit - Nat.pow 2 p.fraction

end Precision

structure Binary where
  precision : Precision
  bits : Nat
  bits_lt : bits < Nat.pow 2 precision.width
  deriving DecidableEq, Repr

namespace Binary

def magnitude (x : Binary) : Nat := x.bits % x.precision.signBit

def isNegative (x : Binary) : Bool := x.precision.signBit ≤ x.bits

def isNaN (x : Binary) : Bool := x.precision.infinity < x.magnitude

/-- A number with the order of the values; the two zeros have the same key. -/
def key (x : Binary) : Int := if x.isNegative then -x.magnitude else x.magnitude

def compare? (x y : Binary) : Option Ordering :=
  if x.isNaN || y.isNaN then none else some (compare x.key y.key)

def ofDouble (x : Float) : Binary := ⟨.double, x.toBits.toNat, x.toBits.toNat_lt⟩

def ofSingle (x : Float32) : Binary := ⟨.single, x.toBits.toNat, x.toBits.toNat_lt⟩

def toDouble (x : Binary) : Float := .ofBits (.ofNat x.bits)

def toSingle (x : Binary) : Float32 := .ofBits (.ofNat x.bits)

/-- The result is rounded to the precision of the first operand, which both are meant to have. -/
def add (x y : Binary) : Binary :=
  match x.precision with
  | .single => ofSingle (x.toSingle + y.toSingle)
  | .double => ofDouble (x.toDouble + y.toDouble)

def mul (x y : Binary) : Binary :=
  match x.precision with
  | .single => ofSingle (x.toSingle * y.toSingle)
  | .double => ofDouble (x.toDouble * y.toDouble)

@[simp] theorem precision_add (x y : Binary) : (x.add y).precision = x.precision := by
  unfold add
  split <;> rename_i h <;> rw [h] <;> rfl

@[simp] theorem precision_mul (x y : Binary) : (x.mul y).precision = x.precision := by
  unfold mul
  split <;> rename_i h <;> rw [h] <;> rfl

def hexDigit (n : Nat) : Char :=
  .ofNat (if n < 10 then '0'.toNat + n else 'a'.toNat + (n - 10))

/-- The last digits of a number to base sixteen, as many as asked for. -/
def hexDigits : Nat → Nat → List Char → List Char
  | 0, _, cs => cs
  | k + 1, n, cs => hexDigits k (n / 16) (hexDigit (n % 16) :: cs)

/-- The bit pattern to base sixteen. All patterns that are no number are written alike. -/
def text (x : Binary) : String :=
  if x.isNaN then "NaN" else .ofList (hexDigits (x.precision.width / 4) x.bits [])

def hexValue? (c : Char) : Option Nat :=
  if c.isDigit then some (c.toNat - '0'.toNat)
  else if 'a' ≤ c ∧ c ≤ 'f' then some (c.toNat - 'a'.toNat + 10)
  else if 'A' ≤ c ∧ c ≤ 'F' then some (c.toNat - 'A'.toNat + 10)
  else none

def ofBits? (p : Precision) (n : Nat) : Option Binary :=
  if h : n < Nat.pow 2 p.width then some ⟨p, n, h⟩ else none

/-- The pattern that is chosen where any pattern that is no number will do. -/
def quietNaN (p : Precision) : Nat := p.infinity + Nat.pow 2 (p.fraction - 1)

def parse? (p : Precision) (s : String) : Option Binary :=
  if s = "NaN" then ofBits? p (quietNaN p)
  else if s.length = p.width / 4 then
    (s.toList.foldlM (fun n c => (hexValue? c).map (16 * n + ·)) 0).bind (ofBits? p)
  else none

end Binary

end Callable
