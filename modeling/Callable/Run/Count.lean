import Callable.Run.Effect
set_option autoImplicit false

/-!
What counters show. A counting call adds one to its counter before it goes on, and a call that finds
the largest count stops there. So a counter shows how many counting calls have started at its place,
and these are read off the log.
-/

namespace Callable

/-- The largest count of 32 bits. -/
def countLimit : Nat := 4294967295

/-- The count that a counter shows after some counting calls. -/
def countUp (n calls : Nat) : Nat := max n (min (n + calls) countLimit)

@[simp] theorem countUp_zero (n : Nat) : countUp n 0 = n := by
  unfold countUp
  omega

@[simp] theorem countUp_countUp (n calls more : Nat) :
    countUp (countUp n calls) more = countUp n (calls + more) := by
  unfold countUp
  omega

theorem countUp_one_of_lt {n : Nat} (below : n < countLimit) : countUp n 1 = n + 1 := by
  unfold countUp
  omega

theorem countUp_one_of_le {n : Nat} (full : countLimit ≤ n) : countUp n 1 = n := by
  unfold countUp
  omega

/-- A counter that is not full shows all the calls. -/
theorem eq_add_of_countUp_lt {n calls : Nat} (below : countUp n calls < countLimit) :
    countUp n calls = n + calls := by
  unfold countUp at below ⊢
  omega

/-- Whether the entry is of a counting call at the place. -/
def Entry.countsAt (place : Nat) : Entry → Bool
  | .decorating p .tally (.counter _) _ => p = place
  | _ => false

/-- How many counting calls have started at the place. -/
def runsAt (place : Nat) (log : List Entry) : Nat := log.countP (Entry.countsAt place)

theorem runsAt_append (place : Nat) (log log' : List Entry) :
    runsAt place (log ++ log') = runsAt place log + runsAt place log' :=
  List.countP_append

/-- What the counters show after the calls of the log. -/
def countedUp (cs : List Nat) (log : List Entry) : List Nat :=
  cs.mapIdx fun place n => countUp n (runsAt place log)

/-- Without counting calls the counters are as they were. -/
theorem countedUp_eq_self {log : List Entry} (quiet : ∀ place, runsAt place log = 0)
    (cs : List Nat) : countedUp cs log = cs := by
  refine List.ext_getElem? fun p => ?_
  simp [countedUp, quiet]

@[simp] theorem countedUp_nil (cs : List Nat) : countedUp cs [] = cs :=
  countedUp_eq_self (fun _ => rfl) cs

theorem countedUp_append (cs : List Nat) (log log' : List Entry) :
    countedUp cs (log ++ log') = countedUp (countedUp cs log) log' := by
  simp [countedUp, runsAt_append, Function.comp_def]

@[simp] theorem length_countedUp (cs : List Nat) (log : List Entry) :
    (countedUp cs log).length = cs.length :=
  List.length_mapIdx

/-- A counting call changes the counter at its place only. -/
theorem countedUp_tally (cs : List Nat) (place n m : Nat) (xs : List Value) :
    countedUp cs [.decorating place .tally (.counter m) xs] =
      cs.set place (countUp (cs[place]?.getD n) 1) := by
  refine List.ext_getElem? fun p => ?_
  by_cases here : place = p
  · subst here
    cases at_ : cs[place]? <;> simp [countedUp, runsAt, Entry.countsAt, List.getElem?_set_self', at_]
  · simp [countedUp, runsAt, Entry.countsAt, here]

end Callable
