import Callable.Run.Nest
set_option autoImplicit false

/-!
The calls inside folds. A fold calls its operation once for each argument until a call stops, and an
operation further inside is called by the calls of what stands around it. The calls are read off the
run that makes them, each with its arguments, in the order in which they start (`Op.calls`). They are
the record of the same run when it keeps one (`Op.records_recorded`).
-/

namespace Callable

open Run

/-- The calls that the steps of a fold lead to. A step that stops is the last one. -/
def foldCalls (step : Value → Value → Run Value)
    (inner : World → Value → Value → List (List Value)) : World → Value → List Value →
    List (List Value)
  | _, _, [] => []
  | w, s, x :: xs =>
    inner w s x ++
      match inWorld w (step s x) with
      | (.ok s', w') => foldCalls step inner w' s' xs
      | (.error _, _) => []

theorem foldCalls_single (step : Value → Value → Run Value)
    (inner : World → Value → Value → List (List Value)) (w : World) (s x : Value) :
    foldCalls step inner w s [x] = inner w s x := by
  unfold foldCalls
  cases inWorld w (step s x) with
  | mk outcome w' => cases outcome <;> simp [foldCalls]

namespace Op

/-- The calls of what stands the given number of folds inside the operation, when the operation is
called in the world with its counters at the place. -/
def calls (set : Setting) : Nat → Op → Nat → World → List Value → List (List Value)
  | 0, _, _, _, xs => [xs]
  | depth + 1, .compress f, place, w, x :: xs =>
    if xs.length < foldLimit then
      foldCalls (fun s x => f.invoke set place [s, x])
        (fun w s x => f.calls set depth place w [s, x]) w x xs
    else []
  | depth + 1, .seeded f z, place, w, xs =>
    if xs.length ≤ foldLimit then
      foldCalls (fun s x => f.invoke set place [s, x])
        (fun w s x => f.calls set depth place w [s, x]) w z xs
    else []
  | _, _, _, _, _ => []

end Op

/-! ### The record of the calls -/

/-- Runs with a record of calls besides the world. -/
abbrev Recorded := RunOn (List (List Value) × World)

/-- The call of a run, which is recorded with its arguments before it does anything. -/
def recordCall (xs : List Value) (x : Run Value) : Recorded Value :=
  ExceptT.mk fun (calls, w) =>
    let (outcome, w') := inWorld w x
    (outcome, calls ++ [xs], w')

/-- The run of which nothing is recorded. -/
def unrecorded (x : Run Value) : Recorded Value :=
  ExceptT.mk fun (calls, w) =>
    let (outcome, w') := inWorld w x
    (outcome, calls, w')

/-- The step, which is recorded with its arguments before it does anything. -/
def recording (step : Value → Value → Run Value) (s x : Value) : Recorded Value :=
  recordCall [s, x] (step s x)

/-- The run of an operation that records the calls of what stands the given number of folds inside. -/
def Op.recorded (set : Setting) : Nat → Op → Nat → List Value → Recorded Value
  | 0, op, place, xs => recordCall xs (op.invoke set place xs)
  | depth + 1, .compress f, place, xs =>
    Callable.foldSelf (fun s x => f.recorded set depth place [s, x]) xs
  | depth + 1, .seeded f z, place, xs =>
    foldArgs (fun s x => f.recorded set depth place [s, x]) z xs
  | _ + 1, op, place, xs => unrecorded (op.invoke set place xs)

/-- The recorded run does what the run does, and adds the calls to its record. -/
def Records {α : Type} (x : Recorded α) (y : Run α) (calls : World → List (List Value)) : Prop :=
  ∀ before w, x.run (before, w) = ((inWorld w y).1, before ++ calls w, (inWorld w y).2)

section Records

variable {α β : Type}

/-- Where a run leaves the record as it is, it has no calls. -/
theorem records_nothing {x : Recorded α} {y : Run α}
    (same : ∀ before w, x.run (before, w) = ((inWorld w y).1, before, (inWorld w y).2)) :
    Records x y fun _ => [] := by
  intro before w
  rw [List.append_nil]
  exact same before w

theorem records_pure (a : α) : Records (pure a) (pure a) fun _ => [] :=
  records_nothing fun _ _ => rfl

theorem records_stop (s : Stop) : Records (stop s : Recorded α) (stop s) fun _ => [] :=
  records_nothing fun _ _ => rfl

theorem records_unrecorded (x : Run Value) : Records (unrecorded x) x fun _ => [] :=
  records_nothing fun _ _ => rfl

theorem records_recordCall (xs : List Value) (x : Run Value) :
    Records (recordCall xs x) x fun _ => [xs] :=
  fun _ _ => rfl

/-- The record of a sequence. Nothing is added to it after a stop. -/
theorem Records.bind {x : Recorded α} {y : Run α} {f : α → Recorded β} {g : α → Run β}
    {calls : World → List (List Value)} {later : α → World → List (List Value)}
    (first : Records x y calls) (next : ∀ a, Records (f a) (g a) (later a)) :
    Records (x >>= f) (y >>= g) fun w =>
      calls w ++
        match inWorld w y with
        | (.ok a, w') => later a w'
        | (.error _, _) => [] := by
  intro before w
  rw [run_bind, first, inWorld_bind]
  cases ran : inWorld w y with
  | mk outcome w' =>
    cases outcome with
    | error s =>
      simp only [ran, List.append_nil]
    | ok a =>
      simp only [ran, ← List.append_assoc]
      exact next a _ w'

variable {step : Value → Value → Run Value} {recorded : Value → Value → Recorded Value}
  {inner : World → Value → Value → List (List Value)}
  (steps : ∀ s x, Records (recorded s x) (step s x) fun w => inner w s x)

include steps

theorem records_foldFrom (s : Value) (xs : List Value) :
    Records (foldFrom recorded s xs) (foldFrom step s xs) fun w => foldCalls step inner w s xs := by
  induction xs generalizing s with
  | nil => exact records_pure s
  | cons x xs ih =>
    intro before w
    rw [foldFrom, foldFrom, (steps s x).bind ih before w]
    cases ran : inWorld w (step s x) with
    | mk outcome w' => cases outcome <;> simp only [foldCalls, ran]

end Records

/-- The record changes nothing in the run of an operation, and it shows the calls inside. -/
theorem Op.records_recorded (set : Setting) (depth : Nat) (op : Op) (place : Nat) (xs : List Value) :
    Records (op.recorded set depth place xs) (op.invoke set place xs) fun w =>
      op.calls set depth place w xs := by
  induction depth generalizing op xs with
  | zero => exact records_recordCall xs _
  | succ depth ih =>
    cases op with
    | leaf l => exact records_unrecorded _
    | decorated d data f => exact records_unrecorded _
    | compress f =>
      cases xs with
      | nil => exact records_stop _
      | cons x xs =>
        simp only [Op.recorded, Op.invoke, Op.calls, foldSelf_cons]
        split
        · exact records_foldFrom (fun s x => ih f [s, x]) x xs
        · exact records_stop _
    | seeded f z =>
      simp only [Op.recorded, Op.invoke, Op.calls, foldArgs]
      split
      · exact records_foldFrom (fun s x => ih f [s, x]) z xs
      · exact records_stop _

/-! ### Observations -/

/-- What is seen of the call of an operation: the calls inside, the log, the counters that are left,
and how it ended. -/
structure Observation where
  calls : List (List Value)
  log : List Entry
  counters : List Nat
  outcome : Except Stop Value

namespace Op

/-- Observes the call of an operation, and inside it the calls of what stands the given number of
folds inside. -/
def observe (set : Setting) (depth : Nat) (op : Op) (xs : List Value) : Observation :=
  let report := op.call set xs
  ⟨op.calls set depth 0 op.start xs, report.log, report.op.counters, report.outcome⟩

/-- What is observed is what the recorded run leaves. -/
theorem run_recorded (set : Setting) (depth : Nat) (op : Op) (xs : List Value) :
    (op.recorded set depth 0 xs).run ([], op.start) =
      ((op.observe set depth xs).outcome, (op.observe set depth xs).calls,
        (inWorld op.start (op.invoke set 0 xs)).2) :=
  records_recorded set depth op 0 xs [] op.start

/-- Operations with the same run and the same calls inside are seen to do the same, if their counters
are laid out in the same way. -/
theorem observe_congr {set : Setting} {op op' : Op} {depth depth' : Nat} {xs xs' : List Value}
    (run : op.invoke set 0 xs = op'.invoke set 0 xs')
    (inside : ∀ w, op.calls set depth 0 w xs = op'.calls set depth' 0 w xs')
    (counters : ∀ cs, (op.load cs 0).counters = (op'.load cs 0).counters)
    (start : op.counters = op'.counters) :
    op.observe set depth xs = op'.observe set depth' xs' := by
  have started : op.start = op'.start := by simp only [Op.start, start]
  simp only [observe, call, started, run, inside, counters]

end Op

end Callable
