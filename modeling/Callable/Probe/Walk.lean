import Callable.Probe.Reveal
import Callable.Probe.Trail
import Callable.Resolution.Result
set_option autoImplicit false

/-!
The walk that explains a rejection. It goes from a rejected adaptor to the call inside it that the
adaptor fails for, one step at a time, and records a failure for each rejected layer. The number of
steps is bounded, and a walk that is cut off leaves the chain that it has recorded so far.
-/

namespace Callable

/-- The steps that a probe takes at most. -/
abbrev stepBudget : Nat := 48

/-- Where a walk is. A `nested` operation has its own rejection recorded already; the `target` of a
decorated callable need not reject at all. -/
inductive WalkState where
  | probe (op : Ty) (args : List Ty)
  | target (op : Ty) (args : List Ty)
  | nested (op : Ty) (args : List Ty)
  | fold (f s : Ty) (rest : List Ty)
  | seed (f s : Ty) (args : List Ty)
  | decorator (d t g : Ty) (args : List Ty)
  | done
  deriving DecidableEq, Repr

def foldOperationFrame (f s x : Ty) : Frame := ⟨.foldOperation, f.name, [s.name, x.name]⟩

def seedFrame (s : Ty) : Frame := ⟨.seedNotClone, s.name, []⟩

def decoratorFrame (d t g : Ty) (args : List Ty) : Frame :=
  ⟨.decoratorOperation, d.name, (Ty.decoratorArgs 0 t g args).map Ty.name⟩

/-- The frame of a rejected adaptor and the check of what is inside it. -/
def expand? : Ty → List Ty → Option (Frame × WalkState)
  | .compress f, [] => some (⟨.missingSeed, (Ty.compress f).name, []⟩, .done)
  | .compress f, x :: xs =>
    some (⟨.fold, (Ty.compress f).name, (x :: xs).map Ty.name⟩, .fold f x xs)
  | .seeded f s, xs => some (⟨.fold, (Ty.seeded f s).name, xs.map Ty.name⟩, .seed f s xs)
  | .decorated d t g, xs =>
    some (⟨.decorated, (Ty.decorated d t g).name, xs.map Ty.name⟩, .decorator d t g xs)
  | _, _ => none

/-- The accounts that operations give of their rejections themselves. -/
abbrev Reveals := Ty → List Ty → Option Failure

section Reveals

variable (reveals : Reveals)

/-- What is known of a rejection beyond the fact of it. -/
def insight? (op : Ty) (args : List Ty) : Option (Failure × WalkState) :=
  match expand? op args with
  | some (f, s) => some (.root f, s)
  | none => (reveals op args).map fun a => (a, .done)

def rejection (op : Ty) (args : List Ty) : Failure × WalkState :=
  (insight? reveals op args).getD (.notInvocable op args, .done)

namespace WalkState

/-- A step of the walk that has the accounts of operations from the table. -/
def advanceBy : WalkState → Option Mark × WalkState
  | .probe op args =>
    match result? op args with
    | some r => (some (.accept r.name), .done)
    | none => (some (.push (rejection reveals op args).1), (rejection reveals op args).2)
  | .target op args =>
    match result? op args with
    | some _ => (none, .done)
    | none => (some (.push (rejection reveals op args).1), (rejection reveals op args).2)
  | .nested op args =>
    match insight? reveals op args with
    | some (a, s) => (some (.push a), s)
    | none => (none, .done)
  | .fold _ _ [] => (none, .done)
  | .fold f s (x :: xs) =>
    match result? f [s, x] with
    | some s' => (none, .fold f s' xs)
    | none => (some (.push (.root (foldOperationFrame f s x))), .nested f [s, x])
  | .seed f s args =>
    if s.isClone then (none, .fold f s args) else (some (.push (.root (seedFrame s))), .done)
  | .decorator d t g args =>
    if decoratorAccepts d t g args then (none, .done)
    else (some (.push (.root (decoratorFrame d t g args))), .target g args)
  | .done => (none, .done)

end WalkState

end Reveals

namespace WalkState

def advance : WalkState → Option Mark × WalkState := advanceBy Ty.reveal?

/-- The state after a number of steps. -/
def after : Nat → WalkState → WalkState
  | 0, s => s
  | n + 1, s => after n s.advance.2

/-- What is recorded in a number of steps. -/
def marks : Nat → WalkState → List Mark
  | 0, _ => []
  | n + 1, s => s.advance.1.toList ++ marks n s.advance.2

theorem marks_add (n m : Nat) (s : WalkState) :
    s.marks (n + m) = s.marks n ++ (s.after n).marks m := by
  induction n generalizing s with
  | zero => simp [marks, after]
  | succ n ih =>
    rw [Nat.succ_add]
    simp [marks, after, ih]

@[simp] theorem marks_done (n : Nat) : WalkState.done.marks n = [] := by
  induction n with
  | zero => rfl
  | succ n ih => simpa [marks, advance, advanceBy] using ih

end WalkState

/-- The answer of a walk of the given number of steps. -/
def probeWithin (budget : Nat) (op : Ty) (args : List Ty) : Capability :=
  (Trail.ofMarks ((WalkState.probe op args).marks budget)).toCapability op args

def probe (op : Ty) (args : List Ty) : Capability := probeWithin stepBudget op args

end Callable
