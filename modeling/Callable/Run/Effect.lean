import Callable.Run.Op
set_option autoImplicit false

/-!
What a run does besides returning a value: it counts, and it writes a log. What was counted and
logged stays when the run stops without a value.
-/

namespace Callable

/-- The least severe kind of event that a collector keeps. -/
inductive Level where
  | off | warn | info | debug | trace
  deriving DecidableEq, Repr, Inhabited

/-- The events of a traced call: one before the target is called, one after it has returned. -/
inductive Event where
  | invoking (label operation : String)
  | returned (label : String)
  deriving DecidableEq, Repr

def Event.level : Event → Level
  | .invoking _ _ => .debug
  | .returned _ => .trace

namespace Level

def rank : Level → Nat
  | .off => 0
  | .warn => 1
  | .info => 2
  | .debug => 3
  | .trace => 4

def keeps (l : Level) (e : Event) : Bool := e.level.rank ≤ l.rank

end Level

inductive Entry where
  | called (leaf : Leaf) (args : List Value) (result : Value)
  | decorating (place : Nat) (d : Decorator) (data : Datum) (args : List Value)
  | event (e : Event)
  deriving Repr

structure World where
  counters : List Nat
  log : List Entry
  deriving Repr

/-- Runs with a state, which stays as it is when they stop. -/
abbrev RunOn (σ : Type) := ExceptT Stop (StateM σ)

abbrev Run := RunOn World

namespace Run

def stop {σ α : Type} (s : Stop) : RunOn σ α := throw s

def ofExcept {α : Type} : Except Stop α → Run α
  | .ok a => pure a
  | .error s => stop s

def write (e : Entry) : Run Unit := modify fun w => { w with log := w.log ++ [e] }

/-- Writes an event that the level keeps. -/
def emit (l : Level) (e : Event) : Run Unit := if l.keeps e then write (.event e) else pure ()

def counters : Run (List Nat) := do return (← get).counters

def setCounter (place n : Nat) : Run Unit :=
  modify fun w => { w with counters := w.counters.set place n }

/-- The run from a given world: how it ends, and the world that it leaves. -/
def inWorld {α : Type} (w : World) (x : Run α) : Except Stop α × World := x.run w

@[simp] theorem inWorld_pure {α : Type} (w : World) (a : α) :
    Run.inWorld w (pure a) = (.ok a, w) := rfl

@[simp] theorem inWorld_stop {α : Type} (w : World) (s : Stop) :
    Run.inWorld w (stop s : Run α) = (.error s, w) := rfl

/-- A sequence in a state. It goes no further than the first stop. -/
theorem run_bind {σ α β : Type} (x : RunOn σ α) (f : α → RunOn σ β) (w : σ) :
    (x >>= f).run w =
      match x.run w with
      | (.ok a, w') => (f a).run w'
      | (.error s, w') => (.error s, w') := by
  have first : (x >>= f).run w =
      (ExceptT.bindCont (m := StateM σ) f (x.run w).1).run (x.run w).2 := rfl
  rw [first]
  cases x.run w with
  | mk e w' => cases e <;> rfl

theorem inWorld_bind {α β : Type} (w : World) (x : Run α) (f : α → Run β) :
    Run.inWorld w (x >>= f) =
      match Run.inWorld w x with
      | (.ok a, w') => Run.inWorld w' (f a)
      | (.error s, w') => (.error s, w') := by
  unfold Run.inWorld
  rw [run_bind]
  cases x.run w with
  | mk e w' => cases e <;> rfl

theorem inWorld_bind_of_ok {α β : Type} {w w' : World} {x : Run α} {f : α → Run β} {a : α}
    (first : Run.inWorld w x = (.ok a, w')) : Run.inWorld w (x >>= f) = Run.inWorld w' (f a) := by
  rw [inWorld_bind, first]

theorem inWorld_ofExcept {α : Type} (w : World) (e : Except Stop α) :
    Run.inWorld w (ofExcept e) = (e, w) := by
  cases e <;> rfl

@[simp] theorem inWorld_write (w : World) (e : Entry) :
    Run.inWorld w (write e) = (.ok (), { w with log := w.log ++ [e] }) := rfl

theorem inWorld_emit (w : World) (l : Level) (e : Event) :
    Run.inWorld w (emit l e) =
      (.ok (), if l.keeps e then { w with log := w.log ++ [.event e] } else w) := by
  unfold emit
  split <;> rfl

@[simp] theorem inWorld_counters (w : World) : Run.inWorld w counters = (.ok w.counters, w) := rfl

@[simp] theorem inWorld_setCounter (w : World) (place n : Nat) :
    Run.inWorld w (setCounter place n) = (.ok (), { w with counters := w.counters.set place n }) :=
  rfl

end Run

end Callable
