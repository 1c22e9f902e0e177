import Callable.Probe.Trail
set_option autoImplicit false

/-!
What a trail amounts to. A trail may be told of acceptances and of failures in any order, and the
failures may have chains of any length. Of the acceptances the last one stands, against all failures;
without one, the answer has the frames of all failures, one chain after the other
(`ofMarks_reports`).
-/

namespace Callable

/-- Whatever is recorded in a new trail, and in whatever order, the capability is for the question
asked. Its outcome is the last accepted result if there is one. If there is none, it is the failure
whose chain has the chains of all recorded failures, in their order, or, if there are none of these,
just the frame that names the question. -/
theorem ofMarks_reports (ms : List Mark) (op : Ty) (args : List Ty) :
    let accepted := ms.filterMap Mark.result?
    let pushed := ms.filterMap Mark.failure?
    let answer := (Trail.ofMarks ms).toCapability op args
    answer.operation = op.name ∧ answer.arguments = args.map Ty.name ∧
    (∀ name, answer.outcome = .invocable name ↔ accepted.getLast? = some name) ∧
    (∀ a, answer.outcome = .notInvocable a ↔ accepted = [] ∧ a.frames =
      if pushed = [] then [⟨.operation, op.name, args.map Ty.name⟩]
      else pushed.flatMap Failure.frames) ∧
    Failure.joinAll? pushed =
      pushed.reverse.foldl (fun inner? a => some (inner?.elim a a.causedBy)) none := by
  intro accepted pushed answer
  have trail : Trail.ofMarks ms = ⟨accepted.getLast?, pushed⟩ := Trail.ofMarks_eq ms
  have joined := Failure.joinAll?_eq_foldl_reverse pushed
  cases last : accepted.getLast? with
  | some name =>
    have outcome : answer.outcome = .invocable name :=
      Trail.outcome_of_accepted op args ((congrArg Trail.result? trail).trans last)
    have some_accepted : accepted ≠ [] := by
      intro none_accepted
      rw [none_accepted] at last
      cases last
    refine ⟨rfl, rfl, ?_, ?_, joined⟩
    · simp [outcome]
    · simp [outcome, some_accepted]
  | none =>
    obtain ⟨b, outcome, chain⟩ :=
      Trail.outcome_of_rejected op args ((congrArg Trail.result? trail).trans last)
    rw [congrArg Trail.failures trail] at chain
    refine ⟨rfl, rfl, ?_, ?_, joined⟩
    · intro name
      simp only [answer, outcome]
      simp
    · intro a
      simp only [answer, outcome, Outcome.notInvocable.injEq]
      rw [← chain, List.getLast?_eq_none_iff.1 last]
      exact ⟨fun same => ⟨rfl, congrArg Failure.frames same.symm⟩,
        fun reported => (Failure.frames_injective reported.2).symm⟩

end Callable
