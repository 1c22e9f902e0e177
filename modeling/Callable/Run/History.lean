import Callable.Run.Nest
set_option autoImplicit false

/-!
Call trees. The history of a run is the tree of the calls that were made and, if the run stopped,
how far the last of them had got. Whatever stands around a plain operation calls it, and what is
traced is told with its label and the name of its target, so the history is read off the layers
(`Op.callTree`).
-/

namespace Callable

/-- A call that has returned, with the calls made inside if it was traced. -/
inductive Call where
  | plain (args : List Value) (result : Value)
  | traced (label operation : String) (inner : List Call)

/-- How far a run had got when it stopped: the calls that had returned, and the traced call, if any,
that had not. -/
inductive Progress where
  | stopped (before : List Call)
  | inside (before : List Call) (label operation : String) (inner : Progress)

/-- The traced calls that were in progress, from the outside inwards. -/
def Progress.inProgress : Progress → List (String × String)
  | .stopped _ => []
  | .inside _ label operation inner => (label, operation) :: inner.inProgress

inductive History (α : Type) where
  | returned (calls : List Call) (a : α)
  | stopped (progress : Progress) (reason : Stop)

/-! ### Events -/

mutual

/-- A traced call tells of itself before what is inside and after it. -/
def Call.events : Call → List Event
  | .plain _ _ => []
  | .traced label operation inner =>
    .invoking label operation :: (eventsOfCalls inner ++ [.returned label])

def eventsOfCalls : List Call → List Event
  | [] => []
  | c :: cs => c.events ++ eventsOfCalls cs

end

/-- A traced call that has not returned has told of itself only before what is inside. -/
def Progress.events : Progress → List Event
  | .stopped before => eventsOfCalls before
  | .inside before label operation inner =>
    eventsOfCalls before ++ .invoking label operation :: inner.events

@[simp] theorem eventsOfCalls_append (cs cs' : List Call) :
    eventsOfCalls (cs ++ cs') = eventsOfCalls cs ++ eventsOfCalls cs' := by
  induction cs with
  | nil => rfl
  | cons c cs ih => simp [eventsOfCalls, ih]

/-! ### Histories in sequence -/

/-- What is in progress after some calls have returned. -/
def Progress.after (calls : List Call) : Progress → Progress
  | .stopped before => .stopped (calls ++ before)
  | .inside before label operation inner => .inside (calls ++ before) label operation inner

@[simp] theorem Progress.events_after (calls : List Call) (p : Progress) :
    (p.after calls).events = eventsOfCalls calls ++ p.events := by
  cases p <;> simp [Progress.after, Progress.events]

namespace History

variable {α β : Type}

def outcome : History α → Except Stop α
  | .returned _ a => .ok a
  | .stopped _ reason => .error reason

def events : History α → List Event
  | .returned calls _ => eventsOfCalls calls
  | .stopped progress _ => progress.events

def inProgress : History α → List (String × String)
  | .returned _ _ => []
  | .stopped progress _ => progress.inProgress

/-- Nothing is in progress once a run has returned. -/
theorem inProgress_of_outcome {h : History α} {a : α} (returned : h.outcome = .ok a) :
    h.inProgress = [] := by
  cases h with
  | returned calls b => rfl
  | stopped progress reason => cases returned

def after (calls : List Call) : History α → History α
  | .returned calls' a => .returned (calls ++ calls') a
  | .stopped progress reason => .stopped (progress.after calls) reason

/-- Nothing happens after a stop. -/
def bind : History α → (α → History β) → History β
  | .returned calls a, next => (next a).after calls
  | .stopped progress reason, _ => .stopped progress reason

def map (f : α → β) : History α → History β
  | .returned calls a => .returned calls (f a)
  | .stopped progress reason => .stopped progress reason

instance : Monad History where
  pure := .returned []
  bind := bind
  map := map

end History

/-- Histories of runs that count: they start with counters and end with others. -/
abbrev Telling := StateT (List Nat) History

namespace Telling

def stop {α : Type} (reason : Stop) : Telling α := fun _ => .stopped (.stopped []) reason

/-- The call of an operation of which nothing is told. -/
def plain (base : Op) (xs : List Value) : Telling Value := fun cs =>
  match Run.inWorld ⟨cs, []⟩ (base.invoke (typedSetting .off) 0 xs) with
  | (.ok v, w) => .returned [.plain xs v] (v, w.counters)
  | (.error reason, _) => .stopped (.stopped []) reason

/-- A traced call of what is inside. -/
def traced {α : Type} (label operation : String) (inner : Telling α) : Telling α := fun cs =>
  match inner cs with
  | .returned calls r => .returned [.traced label operation calls] r
  | .stopped progress reason => .stopped (.inside [] label operation progress) reason

end Telling

namespace Op

/-- The calls that a nest of folds and traces makes, and how it ends. -/
def tell (base : Op) : List OpAdaptor → List Value → Telling Value
  | [], xs => Telling.plain base xs
  | .compress :: _, [] => Telling.stop .notInvocable
  | .compress :: ls, x :: xs =>
    if xs.length < foldLimit then foldFrom (fun s x => base.tell ls [s, x]) x xs
    else Telling.stop .notInvocable
  | .seeded z :: ls, xs =>
    if xs.length ≤ foldLimit then foldFrom (fun s x => base.tell ls [s, x]) z xs
    else Telling.stop .notInvocable
  | .traced v fit :: ls, xs =>
    if xs.length ≤ decoratedLimit then
      Telling.traced (v.display?.get fit) (base.nest ls).typeName (base.tell ls xs)
    else Telling.stop .notInvocable

/-- The call tree of one call of the nest. -/
def callTree (base : Op) (layers : List OpAdaptor) (xs : List Value) : History Value :=
  (base.tell layers xs).run' base.counters

end Op

end Callable
