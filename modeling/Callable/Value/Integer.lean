set_option autoImplicit false

/-!
Integers of fixed width. An integer carries the proof that it is in the range of its kind, so the
only way to compute one is to check or to wrap an exact result.
-/

namespace Callable

/-- The integer types that arguments have in runs. The other widths (16 bits and those of a pointer)
are types only: operations can be probed on them, as on `Atom.u16`. The checked arithmetic of the folds
is stated over any range of integers, and the ranges of these types are cases of it. -/
inductive IntKind where
  | i8 | u8 | i32 | u32 | i64 | u64 | i128 | u128
  deriving DecidableEq, Repr, Inhabited

namespace IntKind

def isSigned : IntKind → Bool
  | .i8 | .i32 | .i64 | .i128 => true
  | _ => false

def width : IntKind → Nat
  | .i8 | .u8 => 8
  | .i32 | .u32 => 32
  | .i64 | .u64 => 64
  | .i128 | .u128 => 128

/-- The number of values that are not negative. -/
def half (k : IntKind) : Nat := Nat.pow 2 (if k.isSigned then k.width - 1 else k.width)

def lo (k : IntKind) : Int := if k.isSigned then -k.half else 0

def hi (k : IntKind) : Int := k.half - 1

end IntKind

structure Integer where
  kind : IntKind
  val : Int
  lo_le : kind.lo ≤ val
  le_hi : val ≤ kind.hi
  deriving DecidableEq, Repr

/-- The arithmetic whose result is out of range. -/
inductive Overflow where
  | add | subtract | multiply | negate
  deriving DecidableEq, Repr, Inhabited

def Overflow.message : Overflow → String
  | .add => "attempt to add with overflow"
  | .subtract => "attempt to subtract with overflow"
  | .multiply => "attempt to multiply with overflow"
  | .negate => "attempt to negate with overflow"

namespace Integer

def ofInt? (k : IntKind) (n : Int) : Option Integer :=
  if h : k.lo ≤ n ∧ n ≤ k.hi then some ⟨k, n, h.1, h.2⟩ else none

theorem ofInt?_eq_some_iff {k : IntKind} {n : Int} {i : Integer} :
    ofInt? k n = some i ↔ i.kind = k ∧ i.val = n := by
  unfold ofInt?
  constructor
  · intro h
    split at h
    · cases h
      exact ⟨rfl, rfl⟩
    · cases h
  · rintro ⟨rfl, rfl⟩
    rw [dif_pos ⟨i.lo_le, i.le_hi⟩]

theorem ofInt?_eq_none_iff {k : IntKind} {n : Int} :
    ofInt? k n = none ↔ ¬(k.lo ≤ n ∧ n ≤ k.hi) := by
  unfold ofInt?
  split <;> simp_all

/-- The exact result of an operation if it is in range. -/
def checked (o : Overflow) (k : IntKind) (n : Int) : Except Overflow Integer :=
  match ofInt? k n with
  | some i => .ok i
  | none => .error o

theorem exists_checked {o : Overflow} {k : IntKind} {n : Int} (inside : k.lo ≤ n ∧ n ≤ k.hi) :
    ∃ i, checked o k n = .ok i := by
  simp only [checked, ofInt?, dif_pos inside]
  exact ⟨_, rfl⟩

theorem checked_eq_error {o : Overflow} {k : IntKind} {n : Int} (outside : ¬(k.lo ≤ n ∧ n ≤ k.hi)) :
    checked o k n = .error o := by
  simp only [checked, ofInt?_eq_none_iff.2 outside]

/-- The number in the range of 64 signed bits that is equal to the given one modulo `2 ^ 64`. -/
def wrap64 (n : Int) : Integer where
  kind := .i64
  val := n.bmod 18446744073709551616
  lo_le := by
    have h := Int.le_bmod (by decide : 0 < 18446744073709551616) (x := n)
    have lo : IntKind.i64.lo = -9223372036854775808 := by decide
    omega
  le_hi := by
    have h := Int.bmod_lt (by decide : 0 < 18446744073709551616) (x := n)
    have hi : IntKind.i64.hi = 9223372036854775807 := by decide
    omega

def text (i : Integer) : String := toString i.val

/-- The value of a decimal digit. -/
def digit? (c : Char) : Option Nat := if c.isDigit then some (c.toNat - '0'.toNat) else none

/-- At least one digit and nothing else. -/
def natural? : List Char → Option Nat
  | [] => none
  | cs => cs.foldlM (fun n c => (digit? c).map (10 * n + ·)) 0

/-- A decimal number in the range of the kind. A plus sign is allowed, and a minus sign where the
kind has negative numbers. -/
def parse? (k : IntKind) (s : String) : Option Integer :=
  match s.toList with
  | '+' :: cs => (natural? cs).bind fun n => ofInt? k n
  | '-' :: cs => if k.isSigned then (natural? cs).bind fun n => ofInt? k (-n) else none
  | cs => (natural? cs).bind fun n => ofInt? k n

end Integer

end Callable
