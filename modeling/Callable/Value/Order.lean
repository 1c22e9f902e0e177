import Callable.Value.Basic
set_option autoImplicit false

/-!
The order of values. Only values of one kind are compared, and of those some are in no order. A pair
is compared by its first parts unless they are equal.
-/

namespace Callable

namespace Value

/-- Whether two values are of one kind that has an order. -/
def comparable : Value → Value → Bool
  | .int m, .int n => m.kind = n.kind
  | .float x, .float y => x.precision = y.precision
  | .bool _, .bool _ => true
  | .char _, .char _ => true
  | .str _, .str _ => true
  | .string _, .string _ => true
  | .keyed _ _, .keyed _ _ => true
  | .unit, .unit => true
  | .pair a b, .pair c d => comparable a c && comparable b d
  | _, _ => false

def compare? : Value → Value → Option Ordering
  | .int m, .int n => some (compare m.val n.val)
  | .float x, .float y => x.compare? y
  | .bool a, .bool b => some (compare a.toNat b.toNat)
  | .char c, .char d => some (compare c.toNat d.toNat)
  | .str s, .str t => some (compare s t)
  | .string s, .string t => some (compare s t)
  | .keyed k _, .keyed k' _ => some (compare k.val k'.val)
  | .unit, .unit => some .eq
  | .pair a b, .pair c d =>
    match compare? a c with
    | some .eq => compare? b d
    | o => o
  | _, _ => none

/-- The left value if it is greater, else the right one. -/
def max (l r : Value) : Value := if compare? l r = some .gt then l else r

/-- The right value if it is less, else the left one. -/
def min (l r : Value) : Value := if compare? r l = some .lt then r else l

end Value

end Callable
