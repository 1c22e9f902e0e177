import Callable.Value.Order
set_option autoImplicit false

/-!
The operations on values that have no parts. A leaf is a function of its arguments: it returns a
value, or it stops because an integer result is out of range, or because it does not take such
arguments.
-/

namespace Callable

/-- Why a run ends without a value. -/
inductive Stop where
  | overflow (o : Overflow)
  | notInvocable
  deriving DecidableEq, Repr

/-- The most values that are made into a list. -/
abbrev listLimit : Nat := 12

/-- `mix` takes a fixed number of integers. -/
inductive Leaf where
  | max | min | sum | product | nest | push | first | last | step | sub | longest | bytes | count
  | answer | identity | negate | square | render | list | never
  | mix (arity : Nat)
  deriving DecidableEq, Repr

namespace Leaf

def name : Leaf → String
  | .max => "max"
  | .min => "min"
  | .sum => "sum"
  | .product => "product"
  | .nest => "nest"
  | .push => "push"
  | .first => "first"
  | .last => "last"
  | .step => "step"
  | .sub => "sub"
  | .longest => "longest"
  | .bytes => "bytes"
  | .count => "count"
  | .answer => "answer"
  | .identity => "identity"
  | .negate => "negate"
  | .square => "square"
  | .render => "render"
  | .list => "list"
  | .never => "never"
  | .mix n => "mix" ++ toString n

/-- The exact integer if it is in the range of the kind. -/
def exactly (o : Overflow) (k : IntKind) (n : Int) : Except Stop Value :=
  match Integer.checked o k n with
  | .ok i => .ok (.int i)
  | .error o => .error (.overflow o)

/-- An operation on two numbers of one kind, which is exact on integers. -/
def arithmetic (o : Overflow) (exact : Int → Int → Int) (rounded : Binary → Binary → Binary) :
    Value → Value → Except Stop Value
  | .int m, .int n =>
    if m.kind = n.kind then exactly o m.kind (exact m.val n.val) else .error .notInvocable
  | .float x, .float y =>
    if x.precision = y.precision then .ok (.float (rounded x y)) else .error .notInvocable
  | _, _ => .error .notInvocable

/-- The sum of two numbers, or a text that is owned with one that is borrowed at its end. -/
def add : Value → Value → Except Stop Value
  | .string s, .str t => .ok (.string (s ++ t))
  | l, r => arithmetic .add (· + ·) .add l r

/-- The number that comes after `s` when `x` is mixed in. -/
def mixIn (s x : Int) : Integer := .wrap64 (s * 31 - x)

/-- The integers of a list of 64 signed bits each. -/
def longs? : List Value → Option (List Int)
  | [] => some []
  | .int ⟨.i64, n, _, _⟩ :: vs => (longs? vs).map (n :: ·)
  | _ => none

def apply : Leaf → List Value → Except Stop Value
  | .max, [l, r] => if l.comparable r then .ok (l.max r) else .error .notInvocable
  | .min, [l, r] => if l.comparable r then .ok (l.min r) else .error .notInvocable
  | .sum, [l, r] => add l r
  | .product, [l, r] => arithmetic .multiply (· * ·) .mul l r
  | .nest, [l, r] => .ok (.pair l r)
  | .push, [.unit, v] => .ok (.list [v])
  | .push, [.list vs, v] => .ok (.list (vs ++ [v]))
  | .first, [l, _] => .ok l
  | .last, [_, r] => .ok r
  | .step, [.int ⟨.i64, l, _, _⟩, .int ⟨.i64, r, _, _⟩] => .ok (.int (mixIn l r))
  | .sub, [.int ⟨.i64, l, _, _⟩, .int ⟨.i64, r, _, _⟩] => exactly .subtract .i64 (l - r)
  | .longest, [.str l, .str r] => .ok (.str (if l.utf8ByteSize < r.utf8ByteSize then r else l))
  | .bytes, [.int ⟨.u64, n, _, _⟩, .str s] => exactly .add .u64 (n + s.utf8ByteSize)
  | .count, [.int ⟨.u64, n, _, _⟩, _] => exactly .add .u64 (n + 1)
  | .answer, [] => .ok (.int ⟨.u8, 42, by decide, by decide⟩)
  | .identity, [v] => .ok v
  | .negate, [.int ⟨.i32, n, _, _⟩] => exactly .negate .i32 (-n)
  | .square, [.int ⟨.i64, n, _, _⟩] => exactly .multiply .i64 (n * n)
  | .render, [v] =>
    match v.text? with
    | some s => .ok (.string s)
    | none => .error .notInvocable
  | .list, vs => if vs.length ≤ listLimit then .ok (.list vs) else .error .notInvocable
  | .mix n, vs =>
    match longs? vs with
    | some ns =>
      if ns.length = n then .ok (.int (ns.foldl (fun s x => mixIn s.val x) (.wrap64 7)))
      else .error .notInvocable
    | none => .error .notInvocable
  | _, _ => .error .notInvocable

end Leaf

end Callable
