import Callable.Resolution.Result
import Callable.Run.Calls
set_option autoImplicit false

/-!
Folds of folds. A fold calls its operation with a state and an argument only, and for these two a fold
that starts from its first argument is one call of what is inside it. So all folds but the outermost
one can be left out: for types (`result?_folds_pair`), for runs (`invoke_folds_pair`) and for the
calls of the innermost operation (`calls_folds_pair`).
-/

namespace Callable

/-- Some folds, each of them from its first argument. -/
abbrev folds {α : Type} {isLabel : α → Prop} (k : Nat) : List (Adaptor isLabel) :=
  List.replicate k .compress

/-! ### Types -/

theorem result?_compress_pair (f s x : Ty) : result? (.compress f) [s, x] = result? f [s, x] := by
  rw [result?_compress_cons (Nat.le_of_ble_eq_true rfl)]
  simp [foldResult?]

theorem result?_folds_pair (k : Nat) (f s x : Ty) :
    result? (f.nest (folds k)) [s, x] = result? f [s, x] := by
  induction k with
  | zero => rfl
  | succ k ih => exact (result?_compress_pair _ s x).trans ih

/-- What is around the operation of a fold is of no importance if it changes nothing for a state and an
argument. -/
theorem result?_compress_congr {f g : Ty} (same : ∀ s x, result? f [s, x] = result? g [s, x])
    (xs : List Ty) : result? (.compress f) xs = result? (.compress g) xs := by
  by_cases few : xs.length ≤ functionLimit
  · cases xs with
    | nil => rw [result?_compress_nil, result?_compress_nil]
    | cons x xs =>
      rw [result?_compress_cons few, result?_compress_cons few]
      exact foldResult?_congr same x xs
  · have many := Nat.lt_of_not_le few
    rw [result?_eq_none_of_length many, result?_eq_none_of_length many]

theorem result?_seeded_congr {f g : Ty} (same : ∀ s x, result? f [s, x] = result? g [s, x]) (z : Ty)
    (xs : List Ty) : result? (.seeded f z) xs = result? (.seeded g z) xs := by
  by_cases few : xs.length ≤ functionLimit
  · rw [result?_seeded few, result?_seeded few, foldResult?_congr same]
  · have many := Nat.lt_of_not_le few
    rw [result?_eq_none_of_length many, result?_eq_none_of_length many]

/-! ### Runs -/

section Runs

variable (set : Setting) {f g : Op} (place : Nat)

theorem invoke_folds_pair (k : Nat) (s x : Value) :
    (f.nest (folds k)).invoke set place [s, x] = f.invoke set place [s, x] := by
  induction k with
  | zero => rfl
  | succ k ih =>
    calc (f.nest (folds (k + 1))).invoke set place [s, x]
        = foldFrom (fun s x => (f.nest (folds k)).invoke set place [s, x]) s [x] := rfl
      _ = (f.nest (folds k)).invoke set place [s, x] := foldFrom_single _ s x
      _ = f.invoke set place [s, x] := ih

/-- The call of the innermost operation is the only one that the folds around it lead to. -/
theorem calls_folds_pair (k : Nat) (w : World) (s x : Value) :
    (f.nest (folds k)).calls set k place w [s, x] = [[s, x]] := by
  induction k generalizing w s x with
  | zero => rfl
  | succ k ih =>
    calc (f.nest (folds (k + 1))).calls set (k + 1) place w [s, x]
        = foldCalls (fun s x => (f.nest (folds k)).invoke set place [s, x])
            (fun w s x => (f.nest (folds k)).calls set k place w [s, x]) w s [x] := rfl
      _ = (f.nest (folds k)).calls set k place w [s, x] := foldCalls_single _ _ w s x
      _ = [[s, x]] := ih w s x

section Congruence

variable {set place} (same : ∀ s x, f.invoke set place [s, x] = g.invoke set place [s, x])

include same

theorem invoke_compress_congr (xs : List Value) :
    (Op.compress f).invoke set place xs = (Op.compress g).invoke set place xs := by
  simp only [Op.invoke, same]

theorem invoke_seeded_congr (z : Value) (xs : List Value) :
    (Op.seeded f z).invoke set place xs = (Op.seeded g z).invoke set place xs := by
  simp only [Op.invoke, same]

variable {n n' : Nat} (inside : ∀ w s x, f.calls set n place w [s, x] = g.calls set n' place w [s, x])

include inside

theorem calls_compress_congr (w : World) (xs : List Value) :
    (Op.compress f).calls set (n + 1) place w xs = (Op.compress g).calls set (n' + 1) place w xs := by
  cases xs with
  | nil => rfl
  | cons x xs => simp only [Op.calls, same, inside]

theorem calls_seeded_congr (z : Value) (w : World) (xs : List Value) :
    (Op.seeded f z).calls set (n + 1) place w xs =
      (Op.seeded g z).calls set (n' + 1) place w xs := by
  simp only [Op.calls, same, inside]

end Congruence

end Runs

/-- Folding through folds that start from their first argument changes nothing. However many of them
stand inside a fold, it takes the same arguments with the same result as the fold of what is inside
all of them, and so does a fold from a seed; and its calls lead to the same calls of the innermost
operation, write the same log, leave the same counters, and end in the same value or the same stop. -/
theorem folds_agree (k : Nat) :
    (∀ (f : Ty) (xs : List Ty),
      result? (f.nest (folds (k + 1))) xs = result? (.compress f) xs) ∧
    (∀ (f z : Ty) (xs : List Ty),
      result? (f.nest (.seeded z :: folds k)) xs = result? (.seeded f z) xs) ∧
    ∀ (set : Setting) (f : Op) (xs : List Value),
      (f.nest (folds (k + 1))).observe set (k + 1) xs = (Op.compress f).observe set 1 xs ∧
      ∀ z, (f.nest (.seeded z :: folds k)).observe set (k + 1) xs =
        (Op.seeded f z).observe set 1 xs := by
  refine ⟨?_, ?_, fun set f xs => ⟨?_, fun z => ?_⟩⟩
  · intro f xs
    exact result?_compress_congr (result?_folds_pair k f) xs
  · intro f z xs
    exact result?_seeded_congr (result?_folds_pair k f) z xs
  · apply Op.observe_congr
    · exact invoke_compress_congr (invoke_folds_pair set 0 k) xs
    · intro w
      exact calls_compress_congr (invoke_folds_pair set 0 k) (calls_folds_pair set 0 k) w xs
    · intro cs
      rw [Op.load_nest, Op.counters_nest]
      rfl
    · exact Op.counters_nest f _
  · apply Op.observe_congr
    · exact invoke_seeded_congr (invoke_folds_pair set 0 k) z xs
    · intro w
      exact calls_seeded_congr (invoke_folds_pair set 0 k) (calls_folds_pair set 0 k) z w xs
    · intro cs
      rw [Op.load_nest, Op.counters_nest]
      rfl
    · exact Op.counters_nest f _

/-- The sum that is out of range is among the calls, and nothing is called after it. -/
example :
    let byte := fun (n : Int) (lo : 0 ≤ n) (hi : n ≤ 255) => Value.int ⟨.u8, n, lo, hi⟩
    let a := byte 200 (by decide) (by decide)
    let b := byte 50 (by decide) (by decide)
    ((Op.compress (.compress (.leaf .sum))).observe (typedSetting .off) 2 [a, b, b, a]).calls =
      [[a, b], [byte 250 (by decide) (by decide), b]] := by
  rfl

end Callable
