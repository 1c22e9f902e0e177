import Callable.Run.Calls
set_option autoImplicit false

/-!
Folds of a leaf over values of one type. What an operation of that type makes of its elements
(`applications`) is known without any world. Where a leaf does the same with their values
(`Leaf.ActsAs`), the runs of the folds of the leaf are read off it: how they end, the calls inside
and the log.
-/

namespace Callable

open Run

/-- A call of an operation that may overflow, and how it ended. -/
structure Application (α : Type) where
  state : α
  arg : α
  result : Except Overflow α

section Operation

variable {α : Type}

/-- The calls of a fold. One that overflows is the last. -/
def applications (op : α → α → Except Overflow α) : α → List α → List (Application α)
  | _, [] => []
  | s, x :: xs =>
    ⟨s, x, op s x⟩ ::
      match op s x with
      | .ok s' => applications op s' xs
      | .error _ => []

theorem applications_of_ok {op : α → α → Except Overflow α} {s s' x : α} (ran : op s x = .ok s')
    (xs : List α) :
    applications op s (x :: xs) = ⟨s, x, .ok s'⟩ :: applications op s' xs := by
  simp only [applications, ran]

theorem applications_of_error {op : α → α → Except Overflow α} {s x : α} {o : Overflow}
    (ran : op s x = .error o) (xs : List α) :
    applications op s (x :: xs) = [⟨s, x, .error o⟩] := by
  simp only [applications, ran]

end Operation

section Values

variable {α : Type} (val : α → Value)

/-- How a run ends for what an operation has come to. -/
def ending : Except Overflow α → Except Stop Value
  | .ok a => .ok (val a)
  | .error o => .error (.overflow o)

namespace Application

def args (c : Application α) : List Value := [val c.state, val c.arg]

/-- What a leaf leaves in the log if it has returned. -/
def entry? (l : Leaf) (c : Application α) : Option Entry :=
  match c.result with
  | .ok r => some (.called l (c.args val) (val r))
  | .error _ => none

end Application

/-- The leaf does with values of the type what the operation does with its elements. -/
def Leaf.ActsAs (l : Leaf) (op : α → α → Except Overflow α) : Prop :=
  ∀ s x, l.apply [val s, val x] = ending val (op s x)

/-- What is seen of a fold of a leaf that acts as the operation. -/
def observedAs (l : Leaf) (op : α → α → Except Overflow α) (z : α) (xs : List α) : Observation where
  calls := (applications op z xs).map (Application.args val)
  log := (applications op z xs).filterMap (Application.entry? val l)
  counters := []
  outcome := ending val (foldFrom op z xs)

variable {val} {l : Leaf} {op : α → α → Except Overflow α} (acts : l.ActsAs val op)
  (set : Setting) (w : World)

include acts

theorem inWorld_leaf_of_ok {s s' x : α} (ran : op s x = .ok s') :
    inWorld w (l.invoke [val s, val x]) =
      (.ok (val s'), { w with log := w.log ++ [.called l [val s, val x] (val s')] }) := by
  have applied : l.apply [val s, val x] = .ok (val s') := by rw [acts, ran, ending]
  simp only [Leaf.invoke, inWorld_bind, inWorld_ofExcept, applied, inWorld_write,
    inWorld_pure]

theorem inWorld_leaf_of_error {s x : α} {o : Overflow} (ran : op s x = .error o) :
    inWorld w (l.invoke [val s, val x]) = (.error (.overflow o), w) := by
  have applied : l.apply [val s, val x] = .error (.overflow o) := by rw [acts, ran, ending]
  simp only [Leaf.invoke, inWorld_bind, inWorld_ofExcept, applied]

theorem inWorld_foldFrom_leaf (z : α) (xs : List α) :
    inWorld w (foldFrom (fun s x => l.invoke [s, x]) (val z) (xs.map val)) =
      (ending val (foldFrom op z xs),
        { w with log := w.log ++ (applications op z xs).filterMap (Application.entry? val l) }) := by
  induction xs generalizing z w with
  | nil =>
    simp only [List.map_nil, applications, List.filterMap_nil, List.append_nil]
    rfl
  | cons x xs ih =>
    simp only [List.map_cons, foldFrom]
    cases ran : op z x with
    | error o =>
      have unlogged : [⟨z, x, .error o⟩].filterMap (Application.entry? val l) = [] := rfl
      rw [inWorld_bind, inWorld_leaf_of_error acts w ran, applications_of_error ran,
        unlogged, List.append_nil]
      rfl
    | ok s =>
      have logged : Application.entry? val l ⟨z, x, .ok s⟩ =
          some (.called l [val z, val x] (val s)) := rfl
      rw [inWorld_bind_of_ok (inWorld_leaf_of_ok acts w ran), ih, applications_of_ok ran,
        List.filterMap_cons_some logged, List.append_assoc]
      rfl

theorem foldCalls_leaf (z : α) (xs : List α) :
    foldCalls (fun s x => l.invoke [s, x]) (fun _ s x => [[s, x]]) w (val z)
      (xs.map val) = (applications op z xs).map (Application.args val) := by
  induction xs generalizing z w with
  | nil => rfl
  | cons x xs ih =>
    simp only [List.map_cons, foldCalls]
    cases ran : op z x with
    | error o =>
      rw [inWorld_leaf_of_error acts w ran, applications_of_error ran]
      rfl
    | ok s =>
      rw [inWorld_leaf_of_ok acts w ran, applications_of_ok ran]
      simp only [ih]
      rfl

/-! ### The folds -/

theorem observe_seeded_leaf (z : α) {xs : List α} (few : xs.length ≤ foldLimit) :
    (Op.seeded (.leaf l) (val z)).observe set 1 (xs.map val) = observedAs val l op z xs := by
  have short : (xs.map val).length ≤ foldLimit := by rwa [List.length_map]
  simp only [Op.observe, Op.call, Op.calls, Op.invoke, foldArgs, if_pos short]
  rw [foldCalls_leaf acts _ z xs]
  simp only [inWorld_foldFrom_leaf acts _ z xs]
  rfl

theorem observe_compress_leaf (z : α) {xs : List α} (few : (z :: xs).length ≤ foldLimit) :
    (Op.compress (.leaf l)).observe set 1 ((z :: xs).map val) = observedAs val l op z xs := by
  have short : (xs.map val).length < foldLimit := by rwa [List.length_map]
  simp only [List.map_cons, Op.observe, Op.call, Op.calls, Op.invoke, foldSelf_cons, if_pos short]
  rw [foldCalls_leaf acts _ z xs]
  simp only [inWorld_foldFrom_leaf acts _ z xs]
  rfl

theorem fold_leaf (z : α) {xs : List α} (few : xs.length ≤ foldLimit) :
    (Op.leaf l).fold set (val z) (xs.map val) =
      ⟨(observedAs val l op z xs).outcome, (observedAs val l op z xs).log, .leaf l⟩ := by
  have short : (xs.map val).length ≤ foldLimit := by rwa [List.length_map]
  simp only [Op.fold, Op.invoke, foldArgs, if_pos short, inWorld_foldFrom_leaf acts _ z xs]
  rfl

theorem foldSelf_leaf (z : α) {xs : List α} (few : (z :: xs).length ≤ foldLimit) :
    (Op.leaf l).foldSelf set ((z :: xs).map val) =
      ⟨(observedAs val l op z xs).outcome, (observedAs val l op z xs).log, .leaf l⟩ := by
  have short : (xs.map val).length < foldLimit := by rwa [List.length_map]
  simp only [List.map_cons, Op.foldSelf, Op.invoke, foldSelf_cons, if_pos short,
    inWorld_foldFrom_leaf acts _ z xs]
  rfl

end Values

end Callable
