import Callable.Proofs.Record
set_option autoImplicit false

/-!
A walk computes the explanation. Every state of a walk has an explanation of its own, what is still
to be said from there on (`WalkState.explanation`). A step records the part of it that the next
state has no more to say (`explanation_step`), so a walk that comes to its end has said all of it
(`frames_probe_of_done`).
-/

namespace Callable

namespace WalkState

/-- What a walk from the state has to say if it is not cut off. -/
def explanation : WalkState → List Frame
  | .probe op args => if accepts op args then [] else explain op args
  | .target op args => if accepts op args then [] else explain op args
  | .nested op args => if op.explains args then explain op args else []
  | .fold f s rest => explainFold (explain f) f s rest
  | .seed f s args => if s.isClone then explainFold (explain f) f s args else [seedFrame s]
  | .decorator d t g args =>
    if TakesCall d t g args then []
    else decoratorFrame d t g args :: if accepts g args then [] else explain g args
  | .done => []

end WalkState

open WalkState

theorem explain_layer {op : Ty} {args : List Ty} {f : Frame} {s : WalkState}
    (layer : Layer op args f s) : explain op args = f :: s.explanation := by
  cases layer <;> simp only [explain, explanation]

theorem explain_plain {op : Ty} {args : List Ty} (plain : op.isAdaptor = false) :
    explain op args = ((op.reveal? args).getD (.notInvocable op args)).frames := by
  cases op with
  | compress f => cases plain
  | seeded f s => cases plain
  | decorated d t g => cases plain
  | _ => rfl

theorem explains_of_layer {op : Ty} {args : List Ty} {f : Frame} {s : WalkState}
    (layer : Layer op args f s) : op.explains args = true := by
  cases layer <;> rfl

theorem explains_of_reveal? {op : Ty} {args : List Ty} {a : Failure}
    (own : op.reveal? args = some a) : op.explains args = true := by
  simp [Ty.explains, own]

/-- Where a call is asked about, all that it has to say is to be said, but a plain operation inside
a fold is named by the frame before it. -/
theorem explanation_asked {s : WalkState} {op : Ty} {args : List Ty} (asked : s.Asks op args)
    (h : s = .nested op args → op.explains args = true) : s.explanation = explain op args := by
  cases asked with
  | probe rejected => simp [explanation, accepts, rejected]
  | target rejected => simp [explanation, accepts, rejected]
  | nested => simp [explanation, h rfl]

theorem explanation_step {s s' : WalkState} {a? : Option Failure} (step : Step s a? s') :
    s.explanation = (a?.map Failure.frames).getD [] ++ s'.explanation := by
  cases step with
  | expand asked layer =>
    rw [explanation_asked asked fun _ => explains_of_layer layer, explain_layer layer]
    rfl
  | reveal asked plain own =>
    rw [explanation_asked asked fun _ => explains_of_reveal? own, explain_plain plain, own]
    simp [explanation]
  | reject asked unrecorded plain silent =>
    rw [explanation_asked asked fun h => absurd h unrecorded, explain_plain plain, silent]
    simp [explanation]
  | leave plain silent => simp [explanation, Ty.explains, plain, silent]
  | accept h => simp [explanation, accepts, h]
  | foldEnd => rfl
  | foldStep h => simp [explanation, explainFold, h]
  | foldStop h => simp [explanation, explainFold, h]
  | copied h => simp [explanation, h]
  | uncopied h => simp [explanation, h]
  | taken h => simp [explanation, h]
  | refused h => simp [explanation, h]
  | done => rfl

theorem explanation_run (n : Nat) {s : WalkState} (h : s.Rejecting) :
    s.explanation = s.frames n ++ (s.after n).explanation := by
  induction n generalizing s with
  | zero => rfl
  | succ n ih =>
    obtain ⟨a?, -, step⟩ := step_advance h
    calc s.explanation
        = (a?.map Failure.frames).getD [] ++ s.advance.2.explanation := explanation_step step
      _ = (a?.map Failure.frames).getD [] ++
            (s.advance.2.frames n ++ (s.advance.2.after n).explanation) := by
          rw [← ih step.rejecting]
      _ = s.frames (n + 1) ++ (s.after (n + 1)).explanation := by
          rw [frames_of_step step, after_of_step step, List.append_assoc]

theorem frames_probe_of_done {n : Nat} {op : Ty} {args : List Ty}
    (rejected : result? op args = none)
    (finished : (WalkState.probe op args).after n = .done) :
    (WalkState.probe op args).frames n = explain op args := by
  have run := explanation_run n (s := .probe op args) rejected
  rw [finished] at run
  simpa [explanation, accepts, rejected] using run.symm

/-- A probe that comes to the end of its walk gives the explanation of the rejection. -/
theorem probe_explains {op : Ty} {args : List Ty} (rejected : result? op args = none)
    (finished : (WalkState.probe op args).after stepBudget = .done) :
    (probe op args).failure?.map Failure.frames = some (explain op args) := by
  unfold probe
  rw [frames_probeWithin (by decide) rejected, frames_probe_of_done rejected finished]

/-- The rejection of a fold behind a decorator behind a seed is explained down to its root. -/
theorem seeded_trace_explained :
    result? (.seeded (.decorated (.primitive .trace) .str (.compress (.primitive .max))) .i32)
        [.i32, .bool] = none ∧
      (WalkState.probe (.seeded (.decorated (.primitive .trace) .str (.compress (.primitive .max)))
        .i32) [.i32, .bool]).after stepBudget = .done ∧
      (probe (.seeded (.decorated (.primitive .trace) .str (.compress (.primitive .max))) .i32)
        [.i32, .bool]).failure?.map Failure.frames =
          some (explain (.seeded (.decorated (.primitive .trace) .str
            (.compress (.primitive .max))) .i32) [.i32, .bool]) := by
  have rejected : result? (.seeded (.decorated (.primitive .trace) .str
      (.compress (.primitive .max))) .i32) [.i32, .bool] = none := by decide
  have finished : (WalkState.probe (.seeded (.decorated (.primitive .trace) .str
      (.compress (.primitive .max))) .i32) [.i32, .bool]).after stepBudget = .done := by decide
  exact ⟨rejected, finished, probe_explains rejected finished⟩

end Callable
