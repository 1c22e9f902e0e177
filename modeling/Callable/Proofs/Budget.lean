import Callable.Proofs.Record
set_option autoImplicit false

/-!
How many steps a walk takes. Every layer of adaptors costs four steps and every argument one more
(`Ty.stepLimit`), and each state has its share of that limit left (`WalkState.stepsLeft`). A walk
with enough steps is over, and a shorter one leaves a prefix of the chain (`probeWithin_budget`).
-/

namespace Callable

namespace Ty

/-- The adaptors on the way from the operation to the one that is none. -/
def layers : Ty → Nat
  | .compress f => f.layers + 1
  | .seeded f _ => f.layers + 1
  | .decorated _ _ g => g.layers + 1
  | _ => 0

/-- The steps that the walk of the operation takes at most for a number of arguments. -/
def stepLimit (op : Ty) (n : Nat) : Nat := if op.layers = 0 then 1 else n + 4 * op.layers - 1

theorem stepLimit_pos (op : Ty) (n : Nat) : 0 < op.stepLimit n := by
  unfold stepLimit
  split <;> omega

theorem stepLimit_succ_layers (op inner : Ty) (n : Nat) (h : op.layers = inner.layers + 1) :
    op.stepLimit n = n + 4 * inner.layers + 3 := by
  unfold stepLimit
  rw [if_neg (by omega)]
  omega

/-- A fold inside another one has two arguments. -/
theorem stepLimit_two_le (op : Ty) : op.stepLimit 2 ≤ 4 * op.layers + 1 := by
  unfold stepLimit
  split <;> omega

theorem stepLimit_le (op : Ty) (n : Nat) : op.stepLimit n ≤ n + 4 * op.layers + 1 := by
  unfold stepLimit
  split <;> omega

end Ty

namespace WalkState

/-- The steps that a walk from the state still takes at most. -/
def stepsLeft : WalkState → Nat
  | .probe op args => op.stepLimit args.length
  | .target op args => op.stepLimit args.length
  | .nested op args => op.stepLimit args.length
  | .fold f _ rest => rest.length + f.stepLimit 2
  | .seed f _ args => args.length + f.stepLimit 2 + 1
  | .decorator _ _ g args => g.stepLimit args.length + 1
  | .done => 0

theorem stepsLeft_eq_zero_iff {s : WalkState} : s.stepsLeft = 0 ↔ s = .done := by
  constructor
  · intro h
    cases s with
    | probe op args | target op args | nested op args =>
      exact absurd h (Nat.ne_of_gt (op.stepLimit_pos args.length))
    | fold f s rest =>
      have := f.stepLimit_pos 2
      simp only [stepsLeft] at h
      omega
    | seed f s args => cases h
    | decorator d t g args => cases h
    | done => rfl
  · rintro rfl
    rfl

theorem stepsLeft_asked {s : WalkState} {op : Ty} {args : List Ty} (asked : s.Asks op args) :
    s.stepsLeft = op.stepLimit args.length := by
  cases asked <;> rfl

theorem stepsLeft_layer {op : Ty} {args : List Ty} {f : Frame} {s : WalkState}
    (layer : Layer op args f s) : s.stepsLeft < op.stepLimit args.length := by
  cases layer with
  | missingSeed => exact Ty.stepLimit_pos _ _
  | @compress g x xs =>
    have inner := g.stepLimit_two_le
    rw [Ty.stepLimit_succ_layers (.compress g) g (x :: xs).length rfl]
    simp only [stepsLeft, List.length_cons]
    omega
  | @seeded g z xs =>
    have inner := g.stepLimit_two_le
    rw [Ty.stepLimit_succ_layers (.seeded g z) g args.length rfl]
    simp only [stepsLeft]
    omega
  | @decorated d t g xs =>
    have inner := g.stepLimit_le args.length
    rw [Ty.stepLimit_succ_layers (.decorated d t g) g args.length rfl]
    simp only [stepsLeft]
    omega

theorem Step.stepsLeft {s s' : WalkState} {a? : Option Failure} (step : Step s a? s') :
    s'.stepsLeft ≤ s.stepsLeft - 1 := by
  cases step with
  | expand asked layer =>
    rw [stepsLeft_asked asked]
    exact Nat.le_sub_one_of_lt (stepsLeft_layer layer)
  | reveal | reject | leave | accept | foldEnd | uncopied | taken | done => exact Nat.zero_le _
  | @foldStop f s x xs =>
    change f.stepLimit 2 ≤ xs.length + 1 + f.stepLimit 2 - 1
    omega
  | foldStep | copied | refused =>
    simp only [WalkState.stepsLeft, List.length_cons]
    omega

theorem stepsLeft_advance (s : WalkState) : s.advance.2.stepsLeft ≤ s.stepsLeft - 1 := by
  by_cases rejecting : s.Rejecting
  · obtain ⟨_, -, step⟩ := step_advance rejecting
    exact step.stepsLeft
  · cases s with
    | probe op args =>
      cases hr : result? op args with
      | some r =>
        simp only [advance, advanceBy, hr]
        exact Nat.zero_le _
      | none => exact absurd hr rejecting
    | _ => exact absurd trivial rejecting

theorem stepsLeft_after (n : Nat) (s : WalkState) : (s.after n).stepsLeft ≤ s.stepsLeft - n := by
  induction n generalizing s with
  | zero => exact Nat.le_refl _
  | succ n ih =>
    have first := stepsLeft_advance s
    have rest := ih s.advance.2
    simp only [after]
    omega

/-- A walk that has taken all of its steps is over. -/
theorem after_of_stepsLeft_le {n : Nat} {s : WalkState} (h : s.stepsLeft ≤ n) :
    s.after n = .done := by
  have left := stepsLeft_after n s
  rw [Nat.sub_eq_zero_of_le h, Nat.le_zero] at left
  exact stepsLeft_eq_zero_iff.1 left

end WalkState

/-! ### Budgets -/

open WalkState

theorem probeWithin_of_done {n m : Nat} {op : Ty} {args : List Ty} (h : n ≤ m)
    (finished : (WalkState.probe op args).after n = .done) :
    probeWithin m op args = probeWithin n op args := by
  obtain ⟨k, rfl⟩ := Nat.exists_eq_add_of_le h
  unfold probeWithin
  rw [marks_add, finished, marks_done, List.append_nil]

theorem Capability.isInvocable_iff_failure? {c : Capability} :
    c.isInvocable = true ↔ c.failure? = none := by
  unfold isInvocable resultType? failure?
  cases c.outcome <;> simp

/-- A probe that takes any step at all knows whether the call is accepted. -/
theorem isInvocable_probeWithin {n : Nat} (op : Ty) (args : List Ty) (hn : 0 < n) :
    (probeWithin n op args).isInvocable = accepts op args := by
  cases hr : result? op args with
  | some r =>
    rw [probeWithin_of_accepted hn hr]
    simp [accepts, hr, Capability.isInvocable, Capability.resultType?, Capability.invocable]
  | none =>
    have all := frames_probeWithin hn hr
    obtain ⟨a, failed, -⟩ := Option.map_eq_some_iff.1 all
    have rejected : (probeWithin n op args).isInvocable ≠ true := by
      intro invocable
      rw [Capability.isInvocable_iff_failure?.1 invocable] at failed
      cases failed
    simp [accepts, hr, rejected]

theorem prefix_probeWithin {n m : Nat} {op : Ty} {args : List Ty} {b : Failure} (hn : 0 < n)
    (h : n ≤ m) (failed : (probeWithin m op args).failure? = some b) :
    ∃ a, (probeWithin n op args).failure? = some a ∧ a.frames <+: b.frames := by
  have hm : 0 < m := Nat.lt_of_lt_of_le hn h
  cases hr : result? op args with
  | some r =>
    rw [probeWithin_of_accepted hm hr] at failed
    cases failed
  | none =>
    obtain ⟨a, failed', cut⟩ := Option.map_eq_some_iff.1 (frames_probeWithin hn hr)
    have whole := frames_probeWithin hm hr
    rw [failed, Option.map_some, Option.some.injEq] at whole
    refine ⟨a, failed', ?_⟩
    obtain ⟨k, rfl⟩ := Nat.exists_eq_add_of_le h
    rw [cut, whole, frames_add]
    exact List.prefix_append _ _

/-- A walk takes at most four steps for each layer and one for each argument, so that the budget of
a probe covers nine layers. A smaller budget gives the same verdict and the beginning of the same
chain. -/
theorem probeWithin_budget (op : Ty) (args : List Ty) :
    (op.layers = 0 → (WalkState.probe op args).after 1 = .done) ∧
    (1 ≤ op.layers →
      (WalkState.probe op args).after (args.length + 4 * op.layers - 1) = .done) ∧
    (op.layers ≤ 9 → args.length ≤ 12 →
      (WalkState.probe op args).after stepBudget = .done ∧
        ∀ n, stepBudget ≤ n → probeWithin n op args = probe op args) ∧
    ∀ n m, 1 ≤ n → n ≤ m →
      (probeWithin n op args).isInvocable = (probeWithin m op args).isInvocable ∧
        ∀ b, (probeWithin m op args).failure? = some b →
          ∃ a, (probeWithin n op args).failure? = some a ∧ a.frames <+: b.frames := by
  have limit : (WalkState.probe op args).after (op.stepLimit args.length) = .done :=
    after_of_stepsLeft_le (Nat.le_refl _)
  refine ⟨?_, ?_, ?_, ?_⟩
  · intro plain
    rwa [Ty.stepLimit, if_pos plain] at limit
  · intro adaptor
    rwa [Ty.stepLimit, if_neg (by omega)] at limit
  · intro shallow few
    have enough : (WalkState.probe op args).stepsLeft ≤ stepBudget := by
      change op.stepLimit args.length ≤ 48
      unfold Ty.stepLimit
      split <;> omega
    have finished := after_of_stepsLeft_le enough
    exact ⟨finished, fun n more => probeWithin_of_done more finished⟩
  · intro n m some_step more
    have verdict : (probeWithin n op args).isInvocable = (probeWithin m op args).isInvocable := by
      rw [isInvocable_probeWithin op args some_step,
        isInvocable_probeWithin op args (Nat.le_trans some_step more)]
    exact ⟨verdict, fun b failed => prefix_probeWithin some_step more failed⟩

/-- The limit is reached: a fold from a seed that fails at its last argument. -/
example : (WalkState.probe (.seeded (.primitive .max) .i32) [.i32, .bool]).after 4 ≠ .done := by
  decide

theorem fold_max_budget :
    (Ty.primitive .max).layers = 0 ∧
    (WalkState.probe (.primitive .max) [.i32, .bool]).after 1 = .done ∧
    (Ty.compress (.primitive .max)).layers = 1 ∧
    (WalkState.probe (.compress (.primitive .max)) [.i32, .bool]).after 5 = .done ∧
    (WalkState.probe (.compress (.primitive .max)) [.i32, .bool]).after stepBudget = .done ∧
    probeWithin 100 (.compress (.primitive .max)) [.i32, .bool] =
      probe (.compress (.primitive .max)) [.i32, .bool] ∧
    (probeWithin 1 (.compress (.primitive .max)) [.i32, .bool]).isInvocable =
      (probeWithin 3 (.compress (.primitive .max)) [.i32, .bool]).isInvocable ∧
    ∃ b, (probeWithin 3 (.compress (.primitive .max)) [.i32, .bool]).failure? = some b ∧
      ∃ a, (probeWithin 1 (.compress (.primitive .max)) [.i32, .bool]).failure? = some a ∧
        a.frames <+: b.frames := by
  obtain ⟨plain, -⟩ := probeWithin_budget (.primitive .max) [.i32, .bool]
  obtain ⟨-, adaptor, shallow, smaller⟩ :=
    probeWithin_budget (.compress (.primitive .max)) [.i32, .bool]
  obtain ⟨finished, larger⟩ := shallow (by decide) (by decide)
  obtain ⟨verdict, cut⟩ := smaller 1 3 (by decide) (by decide)
  have rejected : result? (.compress (.primitive .max)) [.i32, .bool] = none := by decide
  have all := frames_probeWithin (n := 3) (by decide) rejected
  obtain ⟨b, failed, -⟩ := Option.map_eq_some_iff.1 all
  exact ⟨rfl, plain rfl, rfl, adaptor (by decide), finished, larger 100 (by decide), verdict, b,
    failed, cut b failed⟩

end Callable
