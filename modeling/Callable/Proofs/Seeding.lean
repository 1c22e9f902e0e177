import Callable.Proofs.Budget
import Callable.Run.Calls
import Callable.Session.Script
set_option autoImplicit false

/-!
Folds from a first argument and folds from a seed. A seed that can be copied stands for the first
argument: the same folds are accepted (`result?_seeded_eq_compress`), and what is inside is called in
the same way (`observe_seeded`). Of a rejection both walks say the same but for the frame of the fold
itself; the walk of the seeded fold takes one step more, for its seed (`frames_tail_seeded`).
-/

namespace Callable

open WalkState

theorem result?_seeded_eq_compress {f x : Ty} {xs : List Ty} (copies : x.isClone = true)
    (few : xs.length < foldLimit) : result? (.seeded f x) xs = result? (.compress f) (x :: xs) := by
  rw [result?_seeded (Nat.le_of_lt few), result?_compress_cons few, if_pos copies]

/-! ### Rejections -/

section Walks

variable {f s : Ty} {xs : List Ty}

/-- The check of a seed that can be copied takes a step and records nothing. -/
theorem frames_seed (copies : s.isClone = true) (n : Nat) :
    (WalkState.seed f s xs).frames (n + 1) = (WalkState.fold f s xs).frames n :=
  frames_of_step (.copied copies) n

theorem frames_tail_seeded (copies : s.isClone = true)
    (unseeded : result? (.compress f) (s :: xs) = none)
    (seeded : result? (.seeded f s) xs = none) (n : Nat) :
    ((WalkState.probe (.compress f) (s :: xs)).frames (n + 1)).tail =
      ((WalkState.probe (.seeded f s) xs).frames (n + 2)).tail := by
  rw [frames_probe_layer .compress unseeded, frames_probe_layer .seeded seeded, frames_seed copies]
  rfl

end Walks

/-! ### Runs -/

/-- What stands inside the fold is called in the same way, at every depth. -/
theorem observe_seeded (set : Setting) (depth : Nat) (f : Op) (x : Value) {xs : List Value}
    (few : xs.length < foldLimit) :
    (Op.seeded f x).observe set (depth + 1) xs =
      (Op.compress f).observe set (depth + 1) (x :: xs) := by
  have within := Nat.le_of_lt few
  apply Op.observe_congr
  · simp only [Op.invoke, foldArgs, foldSelf_cons, if_pos few, if_pos within]
  · intro w
    simp only [Op.calls, if_pos few, if_pos within]
  · intro cs
    rfl
  · rfl

/-- The two flavours of folds agree. A fold from its first argument and the fold that is seeded with
it, if it can be copied, take the same further arguments with the same result. If they reject and
the walk of the seeded fold, which is the longer one, is not cut off, their chains differ only in the
first frame. And turned into a fold from a seed, a fold makes the same calls for the further arguments
as it makes for all of them, and ends in the same value or the same stop. -/
theorem seeded_fold_agrees (f x : Ty) (xs : List Ty) (copies : x.isClone = true)
    (few : xs.length < foldLimit) :
    result? (.compress f) (x :: xs) = result? (.seeded f x) xs ∧
    (result? (.compress f) (x :: xs) = none →
      (WalkState.probe (.seeded f x) xs).after stepBudget = .done →
        ∃ a b, (probe (.compress f) (x :: xs)).failure? = some a ∧
          (probe (.seeded f x) xs).failure? = some b ∧ a.frames.tail = b.frames.tail) ∧
    ∀ (set : Setting) (g : Op) (v : Value) (vs : List Value), vs.length < foldLimit →
      ∃ seeded, (Object.op (.compress g)).withSeed? v = some seeded ∧
        ∀ depth, seeded.observe set (depth + 1) vs =
          (Op.compress g).observe set (depth + 1) (v :: vs) := by
  have same : result? (.seeded f x) xs = result? (.compress f) (x :: xs) :=
    result?_seeded_eq_compress copies few
  refine ⟨same.symm, ?_, ?_⟩
  · intro unseeded finished
    have seeded := same.trans unseeded
    obtain ⟨a, failed, all⟩ :=
      Option.map_eq_some_iff.1 (frames_probeWithin (n := stepBudget) (by decide) unseeded)
    obtain ⟨b, failed', all'⟩ :=
      Option.map_eq_some_iff.1 (frames_probeWithin (n := stepBudget + 1) (by decide) seeded)
    -- The walk of the seeded fold is over, so that one more step makes no difference to it.
    rw [probeWithin_of_done (Nat.le_succ stepBudget) finished] at failed'
    refine ⟨a, b, failed, failed', ?_⟩
    rw [all, all']
    exact frames_tail_seeded copies unseeded seeded 47
  · intro set g v vs short
    exact ⟨.seeded g v, rfl, fun depth => observe_seeded set depth g v short⟩

theorem seeded_max_agrees :
    Ty.isClone .i32 = true ∧ [Ty.i32, .bool].length < foldLimit ∧
    result? (.compress (.primitive .max)) [.i32, .i32, .bool] =
      result? (.seeded (.primitive .max) .i32) [.i32, .bool] ∧
    result? (.compress (.primitive .max)) [.i32, .i32, .bool] = none ∧
    (WalkState.probe (.seeded (.primitive .max) .i32) [.i32, .bool]).after stepBudget = .done ∧
    (∃ a b, (probe (.compress (.primitive .max)) [.i32, .i32, .bool]).failure? = some a ∧
      (probe (.seeded (.primitive .max) .i32) [.i32, .bool]).failure? = some b ∧
        a.frames.tail = b.frames.tail) ∧
    [Value.bool true, .bool false].length < foldLimit ∧
    ∃ seeded, (Object.op (.compress (.leaf .max))).withSeed? (.bool false) = some seeded ∧
      seeded.observe (scriptSetting .trace) 1 [.bool true, .bool false] =
        (Op.compress (.leaf .max)).observe (scriptSetting .trace) 1
          [.bool false, .bool true, .bool false] := by
  have rejected : result? (.compress (.primitive .max)) [.i32, .i32, .bool] = none := by decide
  have finished : (WalkState.probe (.seeded (.primitive .max) .i32) [.i32, .bool]).after stepBudget =
      .done := by decide
  obtain ⟨types, chains, runs⟩ :=
    seeded_fold_agrees (.primitive .max) .i32 [.i32, .bool] rfl (by decide)
  obtain ⟨seeded, made, seen⟩ := runs (scriptSetting .trace) (.leaf .max) (.bool false)
    [.bool true, .bool false] (by decide)
  exact ⟨rfl, by decide, types, rejected, finished, chains rejected finished, by decide, seeded, made,
    seen 0⟩

end Callable
