import Callable.Run.Decorator
import Callable.Run.Fold
import Callable.Resolution.Rule
set_option autoImplicit false

/-!
The run of an operation. A fold runs its operation once for each step, and a decorated operation
runs its decorator, which may run the target.
-/

namespace Callable

section Folds

variable {σ : Type} (step : Value → Value → RunOn σ Value)

/-- The fold of the arguments from the state, if they are not too many. -/
def foldArgs (s : Value) (xs : List Value) : RunOn σ Value :=
  if xs.length ≤ foldLimit then foldFrom step s xs else Run.stop .notInvocable

/-- The fold of the arguments alone. A single one is the result as it is, and the first two of more are
what the first step is for. -/
def foldSelf : List Value → RunOn σ Value
  | [] => Run.stop .notInvocable
  | [x] => pure x
  | x :: y :: xs =>
    if xs.length + 2 ≤ foldLimit then do
      let s ← step x y
      foldFrom step s xs
    else Run.stop .notInvocable

/-- Such a fold is the fold of the further arguments from the first one. -/
theorem foldSelf_cons (x : Value) (xs : List Value) :
    foldSelf step (x :: xs) =
      if xs.length < foldLimit then foldFrom step x xs else Run.stop .notInvocable := by
  cases xs <;> rfl

end Folds

def Leaf.invoke (l : Leaf) (xs : List Value) : Run Value := do
  let v ← Run.ofExcept (l.apply xs)
  Run.write (.called l xs v)
  return v

/-- The call of a decorator whose data, with the counter at `place`, is now `data`. -/
def Decorator.invoke (set : Setting) (place : Nat) (operation : String) (d : Decorator)
    (data : Datum) (target : List Value → Run Value) (xs : List Value) : Run Value :=
  match d, data with
  | .trace, .value v =>
    match set.label? v with
    | some label => Decorator.traceCall target set label operation xs
    | none => Run.stop .notInvocable
  | .trace, .counter _ => Run.stop .notInvocable
  | d, data => Decorator.call target place d data xs

/-- The log tells that a decorator starts. Of a trace nothing but its events is told. -/
def Decorator.announce (place : Nat) (d : Decorator) (data : Datum) (xs : List Value) : Run Unit :=
  if d = .trace then pure () else Run.write (.decorating place d data xs)

theorem Decorator.announce_of_ne {d : Decorator} (told : d ≠ .trace) (place : Nat) (data : Datum)
    (xs : List Value) : d.announce place data xs = Run.write (.decorating place d data xs) :=
  if_neg told

namespace Op

/-- The run of an operation whose counters stand from `place` on. -/
def invoke (set : Setting) : Op → Nat → List Value → Run Value
  | .leaf l, _, xs => l.invoke xs
  | .compress f, place, xs => foldSelf (fun s x => f.invoke set place [s, x]) xs
  | .seeded f s, place, xs => foldArgs (fun s x => f.invoke set place [s, x]) s xs
  | .decorated d data f, place, xs =>
    if xs.length ≤ decoratedLimit then do
      let now := data.load (← Run.counters) place
      d.announce place now xs
      d.invoke set place (set.typeName f) now (f.invoke set (place + data.counters.length)) xs
    else Run.stop .notInvocable

end Op

/-- What is left of a run: how it ended, its log, and the operation with its counters after it. -/
structure Report where
  outcome : Except Stop Value
  log : List Entry
  op : Op

namespace Op

def start (op : Op) : World := ⟨op.counters, []⟩

/-- Calls the operation itself, so that its counters keep their changes. -/
def call (set : Setting) (op : Op) (xs : List Value) : Report :=
  let (outcome, w) := Run.inWorld op.start (op.invoke set 0 xs)
  ⟨outcome, w.log, op.load w.counters 0⟩

/-- Folds the arguments with the operation from the given state. -/
def fold (set : Setting) (op : Op) (s : Value) (xs : List Value) : Report :=
  let (outcome, w) := Run.inWorld op.start (foldArgs (fun s x => op.invoke set 0 [s, x]) s xs)
  ⟨outcome, w.log, op.load w.counters 0⟩

/-- Folds the further arguments with the operation from the first one. -/
def foldSelf (set : Setting) (op : Op) (xs : List Value) : Report :=
  let (outcome, w) :=
    Run.inWorld op.start (Callable.foldSelf (fun s x => op.invoke set 0 [s, x]) xs)
  ⟨outcome, w.log, op.load w.counters 0⟩

end Op

end Callable
