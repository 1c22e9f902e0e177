import Callable.Run.Effect
set_option autoImplicit false

/-!
What each decorator does with its data, its target and the arguments of a call. A decorator may call
its target once, twice or not at all.
-/

namespace Callable

/-- What the operations of a run share: the level of the collector, the names of operations in
events, and the texts of the values that can be labels. -/
structure Setting where
  level : Level
  typeName : Op → String
  label? : Value → Option String

namespace Decorator

variable (target : List Value → Run Value)

/-- Counts the call before it is made. -/
def countCall (place n : Nat) (xs : List Value) : Run Value := do
  match Integer.checked .add .u32 (n + 1) with
  | .error o => Run.stop (.overflow o)
  | .ok i =>
    Run.setCounter place (n + 1)
    return .pair (.int i) (← target xs)

/-- The count is checked first, as the first step of a sequence. -/
theorem countCall_eq (place n : Nat) (xs : List Value) :
    countCall target place n xs = do
      let i ← Run.ofExcept ((Integer.checked .add .u32 (n + 1)).mapError .overflow)
      Run.setCounter place (n + 1)
      return .pair (.int i) (← target xs) := by
  -- Applied to arguments, the function would be opened as far as the bounds of the integer kind.
  generalize opened : @countCall = call
  delta countCall at opened
  subst opened
  dsimp only
  generalize Integer.checked .add .u32 (n + 1) = counted
  cases counted <;> rfl

/-- Calls the target for an integer of 64 signed bits and combines it with another one. -/
def combine (o : Overflow) (op : Int → Int → Int) (n : Int) (xs : List Value) : Run Value := do
  match ← target xs with
  | .int ⟨.i64, m, _, _⟩ => Run.ofExcept (Leaf.exactly o .i64 (op n m))
  | _ => Run.stop .notInvocable

def prependTo (s : String) (xs : List Value) : Run Value := do
  match ← target xs with
  | .string t => return .string (s ++ t)
  | _ => Run.stop .notInvocable

def callTwice (xs : List Value) : Run Value := do
  let first ← target xs
  let second ← target xs
  return .pair first second

/-- Tells the collector of the call. No event follows a call that does not return. -/
def traceCall (set : Setting) (label operation : String) (xs : List Value) : Run Value := do
  Run.emit set.level (.invoking label operation)
  let v ← target xs
  Run.emit set.level (.returned label)
  return v

/-- The call of a decorator other than `trace`, given its data as it is at the start of the call. -/
def call (place : Nat) : Decorator → Datum → List Value → Run Value
  | .relay, _, xs => target xs
  | .tally, .counter n, xs => countCall target place n xs
  | .prepend, .value (.str s), xs => prependTo target s xs
  | .scale, .value (.int ⟨.i64, n, _, _⟩), xs => combine target .multiply (· * ·) n xs
  | .offset, .value (.int ⟨.i64, n, _, _⟩), xs => combine target .add (· + ·) n xs
  | .ignore, .value v, _ => pure v
  | .twice, _, xs => callTwice target xs
  | .swap, _, xs => target xs.reverse
  | .curry, .value v, xs => target (v :: xs)
  | .dropFirst, _, _ :: xs => target xs
  | .inspect, .value v, xs => pure (.pair v (.list xs))
  | .lookup, .value (.list vs), [.int ⟨.u8, n, lo, hi⟩] =>
    match vs[n.toNat]? with
    | some v => pure v
    | none => target [.int ⟨.u8, n, lo, hi⟩]
  | .wrap, .value v, xs => do return .pair v (← target xs)
  | _, _, _ => Run.stop .notInvocable

end Decorator

end Callable
