import Callable.Proofs.Record
set_option autoImplicit false

/-!
The verdict of a probe. A walk may find much accepted on its way, the steps of a fold, a seed, a
decorator or a target, but it records an acceptance only in its first step and only for the question
of the probe (`accept_mark_iff`). So a trail holds one result and no failure, or failures and no
result, according to whether the call is accepted, however soon the walk is cut off
(`probeWithin_verdict`).
-/

namespace Callable

/-- What a walk of the given number of steps has recorded. -/
def trailWithin (budget : Nat) (op : Ty) (args : List Ty) : Trail :=
  Trail.ofMarks ((WalkState.probe op args).marks budget)

theorem trailWithin_of_accepted (n : Nat) {op r : Ty} {args : List Ty}
    (h : result? op args = some r) : trailWithin (n + 1) op args = ⟨some r.name, []⟩ := by
  unfold trailWithin
  rw [WalkState.marks_of_accepted n h]
  rfl

theorem trailWithin_of_rejected (n : Nat) {op : Ty} {args : List Ty} (h : result? op args = none) :
    (trailWithin (n + 1) op args).result? = none ∧ (trailWithin (n + 1) op args).failures ≠ [] := by
  unfold trailWithin
  rw [Trail.ofMarks_eq]
  constructor
  · rw [WalkState.marks_rejecting (n + 1) (s := .probe op args) h]
    rfl
  · exact WalkState.failures_of_rejected n h

/-- A trail without a result has a failure to report, so no probe falls back on the bare fact. -/
theorem joined_of_rejected (n : Nat) {op : Ty} {args : List Ty} (h : result? op args = none) :
    ∃ a, Failure.joinAll? (trailWithin (n + 1) op args).failures = some a ∧
      probeWithin (n + 1) op args = .notInvocable op args a := by
  obtain ⟨result, pushed⟩ := trailWithin_of_rejected n h
  obtain ⟨a, joined⟩ : ∃ a, Failure.joinAll? (trailWithin (n + 1) op args).failures = some a := by
    rw [← Option.ne_none_iff_exists', Ne, Failure.joinAll?_eq_none_iff]
    exact pushed
  refine ⟨a, joined, ?_⟩
  change (trailWithin (n + 1) op args).toCapability op args = _
  simp only [Trail.toCapability, result, joined, Option.getD_some, Capability.notInvocable]

/-! ### The steps of the walk -/

namespace WalkState

theorem rejecting_after (n : Nat) {s : WalkState} (h : s.Rejecting) : (s.after n).Rejecting := by
  induction n generalizing s with
  | zero => exact h
  | succ n ih =>
    obtain ⟨_, -, step⟩ := step_advance h
    exact ih step.rejecting

theorem advance_ne_accept {s : WalkState} (h : s.Rejecting) (name : String) :
    s.advance.1 ≠ some (.accept name) := by
  obtain ⟨a?, recorded, -⟩ := step_advance h
  rw [recorded]
  cases a? <;> simp

/-- No step accepts but the first one, and that one accepts only what the probe asks about. -/
theorem accept_mark_iff {k : Nat} {op : Ty} {args : List Ty} {name : String} :
    ((WalkState.probe op args).after k).advance.1 = some (.accept name) ↔
      k = 0 ∧ ∃ r, result? op args = some r ∧ name = r.name := by
  cases answer : result? op args with
  | none =>
    have never := advance_ne_accept (rejecting_after k (s := .probe op args) answer) name
    simp [never]
  | some r =>
    cases k with
    | zero => simp [after, advance, advanceBy, answer, eq_comm]
    | succ k => simp [after, advance, advanceBy, answer]

end WalkState

/-! ### The verdict -/

/-- Whatever the budget of a probe, if it allows for a step at all, the trail holds the name of the
result and nothing else if the call is accepted, and failures but no result if it is rejected; and
the answer of the probe says just that. -/
theorem probeWithin_verdict (n : Nat) (op : Ty) (args : List Ty) :
    (∀ name, trailWithin (n + 1) op args = ⟨some name, []⟩ ↔
      ∃ r, result? op args = some r ∧ name = r.name) ∧
    ((trailWithin (n + 1) op args).result? = none ∧ (trailWithin (n + 1) op args).failures ≠ [] ↔
      result? op args = none) ∧
    ((WalkState.probe op args).marks (n + 1)).filterMap Mark.result? =
      ((result? op args).map Ty.name).toList ∧
    (∀ name, (probeWithin (n + 1) op args).outcome = .invocable name ↔
      ∃ r, result? op args = some r ∧ name = r.name) ∧
    ((∃ a, Failure.joinAll? (trailWithin (n + 1) op args).failures = some a ∧
        probeWithin (n + 1) op args = .notInvocable op args a) ↔ result? op args = none) ∧
    ∀ k name, ((WalkState.probe op args).after k).advance.1 = some (.accept name) ↔
      k = 0 ∧ ∃ r, result? op args = some r ∧ name = r.name := by
  cases answer : result? op args with
  | some r =>
    have trail := trailWithin_of_accepted n answer
    have marks := WalkState.marks_of_accepted n answer
    have answered := probeWithin_of_accepted (Nat.succ_pos n) answer
    refine ⟨?_, ?_, ?_, ?_, ?_, ?_⟩
    · simp [trail, eq_comm]
    · simp [trail]
    · simp [marks, Mark.result?]
    · simp [answered, Capability.invocable, eq_comm]
    · simp [answered, Capability.invocable, Capability.notInvocable]
    · intro k name
      rw [WalkState.accept_mark_iff, answer]
  | none =>
    obtain ⟨result, pushed⟩ := trailWithin_of_rejected n answer
    have reported := joined_of_rejected n answer
    refine ⟨?_, ?_, ?_, ?_, ?_, ?_⟩
    · intro name
      constructor
      · intro trail
        rw [trail] at result
        cases result
      · rintro ⟨r, accepted, -⟩
        cases accepted
    · simp [result, pushed]
    · exact WalkState.marks_rejecting (n + 1) (s := .probe op args) answer
    · obtain ⟨a, -, answered⟩ := reported
      simp [answered, Capability.notInvocable]
    · simp [reported]
    · intro k name
      rw [WalkState.accept_mark_iff, answer]

end Callable
