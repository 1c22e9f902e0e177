import Callable.Run.Calls
import Callable.Run.Typing
set_option autoImplicit false

/-!
Folds as loops. Where the arguments are not too many, both folds are the monadic left fold of the
list, so all that the steps do besides returning a value is done in the order of the list. Which
calls are made is shown by a step that records each call before it does anything else (`recording`).
-/

namespace Callable

open Run

/-- The calls of the steps of a fold, and none further inside. -/
abbrev stepCalls (step : Value → Value → Run Value) : World → Value → List Value →
    List (List Value) :=
  foldCalls step fun _ s x => [[s, x]]

/-- What the calls of a loop over the arguments are. -/
structure CallsOfLoop (step : Value → Value → Run Value) (w : World) (z : Value) (xs : List Value)
    (calls : List (List Value)) : Prop where
  /-- Each call is for the next argument, with the state that the calls before it have led to. -/
  call_iff : ∀ k call, calls[k]? = some call ↔ ∃ s w' x,
    inWorld w ((xs.take k).foldlM step z) = (.ok s, w') ∧ xs[k]? = some x ∧ call = [s, x]
  /-- Where no call stops, there is one for each argument. -/
  returned : ∀ v w', inWorld w (xs.foldlM step z) = (.ok v, w') → calls.length = xs.length
  /-- A loop that stops is stopped by its last call. -/
  stopped : ∀ e w'', inWorld w (xs.foldlM step z) = (.error e, w'') → ∃ k s w' x,
    calls.length = k + 1 ∧ inWorld w ((xs.take k).foldlM step z) = (.ok s, w') ∧
      xs[k]? = some x ∧ inWorld w' (step s x) = (.error e, w'')

variable {step : Value → Value → Run Value} {w w' : World} {z s x : Value} {xs : List Value}

theorem inWorld_foldlM_cons_of_ok (ran : inWorld w (step z x) = (.ok s, w')) (xs : List Value) :
    inWorld w ((x :: xs).foldlM step z) = inWorld w' (xs.foldlM step s) := by
  rw [List.foldlM_cons]
  exact inWorld_bind_of_ok ran

theorem inWorld_foldlM_cons_of_error {e : Stop} (ran : inWorld w (step z x) = (.error e, w'))
    (xs : List Value) : inWorld w ((x :: xs).foldlM step z) = (.error e, w') := by
  rw [List.foldlM_cons, inWorld_bind, ran]

namespace CallsOfLoop

theorem nil : CallsOfLoop step w z [] [] where
  call_iff := by simp
  returned := fun _ _ _ => rfl
  stopped := by
    intro e w'' ran
    cases ran

/-- The first call is for the first argument, with the seed. -/
theorem first_call_iff (calls : List (List Value)) (call : List Value) :
    ([z, x] :: calls)[0]? = some call ↔ ∃ s w' x',
      inWorld w (((x :: xs).take 0).foldlM step z) = (.ok s, w') ∧ (x :: xs)[0]? = some x' ∧
        call = [s, x'] := by
  constructor
  · intro found
    cases found
    exact ⟨z, w, x, rfl, rfl, rfl⟩
  · rintro ⟨s, w', x', reached, next, rfl⟩
    cases reached
    cases next
    rfl

theorem cons_of_ok {calls : List (List Value)} (ran : inWorld w (step z x) = (.ok s, w'))
    (rest : CallsOfLoop step w' s xs calls) :
    CallsOfLoop step w z (x :: xs) ([z, x] :: calls) where
  call_iff := by
    intro k call
    cases k with
    | zero => exact first_call_iff _ call
    | succ k =>
      simp only [List.getElem?_cons_succ, List.take_succ_cons, inWorld_foldlM_cons_of_ok ran]
      exact rest.call_iff k call
  returned := by
    intro v w'' all
    rw [inWorld_foldlM_cons_of_ok ran] at all
    simp only [List.length_cons, rest.returned v w'' all]
  stopped := by
    intro e w'' all
    rw [inWorld_foldlM_cons_of_ok ran] at all
    obtain ⟨k, s', w₁, x', last, reached, next, stops⟩ := rest.stopped e w'' all
    refine ⟨k + 1, s', w₁, x', congrArg Nat.succ last, ?_, next, stops⟩
    rw [List.take_succ_cons, inWorld_foldlM_cons_of_ok ran, reached]

theorem cons_of_error {e : Stop} (ran : inWorld w (step z x) = (.error e, w')) (xs : List Value) :
    CallsOfLoop step w z (x :: xs) [[z, x]] where
  call_iff := by
    intro k call
    cases k with
    | zero => exact first_call_iff _ call
    | succ k =>
      constructor
      · intro found
        cases found
      · rintro ⟨s, w'', x', reached, -⟩
        rw [List.take_succ_cons, inWorld_foldlM_cons_of_error ran] at reached
        cases reached
  returned := by
    intro v w'' all
    rw [inWorld_foldlM_cons_of_error ran] at all
    cases all
  stopped := by
    intro e' w'' all
    rw [inWorld_foldlM_cons_of_error ran] at all
    cases all
    exact ⟨0, z, w, x, rfl, rfl, rfl, ran⟩

end CallsOfLoop

theorem callsOfLoop_stepCalls (step : Value → Value → Run Value) (w : World) (z : Value)
    (xs : List Value) : CallsOfLoop step w z xs (stepCalls step w z xs) := by
  induction xs generalizing w z with
  | nil => exact .nil
  | cons x xs ih =>
    simp only [stepCalls, foldCalls]
    cases ran : inWorld w (step z x) with
    | mk outcome w' =>
      cases outcome with
      | error e => exact .cons_of_error ran xs
      | ok s => exact .cons_of_ok ran (ih w' s)

/-! ### Folds -/

/-- Up to the limit, the fold from a seed is the monadic left fold of the arguments, and the fold
without a seed is that of the further arguments from the first one. Its steps are called in order,
each with the next argument and the state reached, until the arguments are used up or a step stops.
A fold of two lists, one after the other, is the fold of the second from where the first has led. -/
theorem folds_loop_over_args (step : Value → Value → Run Value) (z : Value) (xs : List Value) :
    (xs.length ≤ foldLimit → foldArgs step z xs = xs.foldlM step z) ∧
    (∀ x, (x :: xs).length ≤ foldLimit → foldSelf step (x :: xs) = xs.foldlM step x) ∧
    (∀ w, ∃ calls,
      (∀ before, (foldFrom (recording step) z xs).run (before, w) =
        ((inWorld w (xs.foldlM step z)).1, before ++ calls, (inWorld w (xs.foldlM step z)).2)) ∧
      CallsOfLoop step w z xs calls) ∧
    ∀ ys, (xs ++ ys).length ≤ foldLimit →
      foldArgs step z (xs ++ ys) = foldArgs step z xs >>= fun s => foldArgs step s ys := by
  refine ⟨?_, ?_, ?_, ?_⟩
  · intro few
    rw [foldArgs, if_pos few, foldFrom_eq_foldlM]
  · intro x few
    have within : xs.length < foldLimit := few
    rw [foldSelf_cons, if_pos within, foldFrom_eq_foldlM]
  · intro w
    refine ⟨stepCalls step w z xs, fun before => ?_, callsOfLoop_stepCalls step w z xs⟩
    rw [← foldFrom_eq_foldlM]
    exact records_foldFrom (fun s x => records_recordCall [s, x] (step s x)) z xs before w
  · intro ys few
    have parts : xs.length ≤ foldLimit ∧ ys.length ≤ foldLimit := by
      rw [List.length_append] at few
      omega
    simp only [foldArgs, if_pos few, if_pos parts.1, if_pos parts.2]
    exact foldFrom_append step z xs ys

/-- The second step of a sum overflows, so it is the last one to be called. -/
theorem overflowing_sum_loops :
    let byte := fun n h h' => Value.int ⟨.u8, n, h, h'⟩
    let z := byte 200 (by decide) (by decide)
    let x := byte 50 (by decide) (by decide)
    let y := byte 10 (by decide) (by decide)
    let step := fun s x => (Op.leaf .sum).invoke (typedSetting .off) 0 [s, x]
    [x, y].length ≤ foldLimit ∧ foldArgs step z [x, y] = [x, y].foldlM step z ∧
      [z, x, y].length ≤ foldLimit ∧ foldSelf step [z, x, y] = [x, y].foldlM step z ∧
      (∃ calls, CallsOfLoop step ⟨[], []⟩ z [x, y] calls ∧ calls.length = 2) ∧
      (inWorld ⟨[], []⟩ (foldArgs step z [x, y])).1 = .error (.overflow .add) ∧
      foldArgs step z ([x] ++ [y]) = foldArgs step z [x] >>= fun s => foldArgs step s [y] := by
  intro byte z x y step
  obtain ⟨seeded, unseeded, record, -⟩ := folds_loop_over_args step z [x, y]
  obtain ⟨calls, same, loop⟩ := record ⟨[], []⟩
  obtain ⟨-, -, -, split⟩ := folds_loop_over_args step z [x]
  have two : calls = [[z, x], [byte 250 (by decide) (by decide), y]] := by
    have shown : [] ++ calls = [[z, x], [byte 250 (by decide) (by decide), y]] :=
      (congrArg (fun r => r.2.1) (same [])).symm
    exact shown
  exact ⟨by decide, seeded (by decide), by decide, unseeded z (by decide),
    ⟨calls, loop, congrArg List.length two⟩, rfl, split [y] (by decide)⟩

end Callable
