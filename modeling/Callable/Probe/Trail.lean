import Callable.Capability
set_option autoImplicit false

/-!
What a walk over a composition records on its way, and the capability that the record amounts to:
the last accepted result if there is one, else the recorded failures joined in the order they came.
-/

namespace Callable

inductive Mark where
  | accept (result : String)
  | push (failure : Failure)
  deriving DecidableEq, Repr

namespace Mark

def result? : Mark → Option String
  | .accept r => some r
  | .push _ => none

def failure? : Mark → Option Failure
  | .accept _ => none
  | .push a => some a

end Mark

structure Trail where
  result? : Option String
  failures : List Failure
  deriving DecidableEq, Repr

/-- Failures joined into one, each the cause of the one before it. -/
def Failure.joinAll? : List Failure → Option Failure
  | [] => none
  | a :: as =>
    match joinAll? as with
    | none => some a
    | some b => some (a.causedBy b)

namespace Trail

def empty : Trail := ⟨none, []⟩

def record (t : Trail) : Mark → Trail
  | .accept r => { t with result? := some r }
  | .push a => { t with failures := t.failures ++ [a] }

def ofMarks (ms : List Mark) : Trail := ms.foldl record empty

/-- A trail without any mark still rejects, and then the operation gives no other reason. -/
def toCapability (t : Trail) (op : Ty) (args : List Ty) : Capability :=
  { operation := op.name
    arguments := args.map Ty.name
    outcome :=
      match t.result? with
      | some r => .invocable r
      | none => .notInvocable ((Failure.joinAll? t.failures).getD (.notInvocable op args)) }

theorem foldl_record (ms : List Mark) (t : Trail) :
    ms.foldl record t =
      ⟨(ms.filterMap Mark.result?).getLast?.or t.result?,
        t.failures ++ ms.filterMap Mark.failure?⟩ := by
  induction ms generalizing t with
  | nil => simp
  | cons m ms ih =>
    rw [List.foldl_cons, ih]
    cases m with
    | accept r =>
      simp only [record, Mark.result?, Mark.failure?, List.filterMap_cons, List.getLast?_cons]
      cases (ms.filterMap Mark.result?).getLast? <;> rfl
    | push a => simp [record, Mark.result?, Mark.failure?, List.filterMap_cons]

/-- Of the accepted results the last one stands; of the failures all of them do. -/
theorem ofMarks_eq (ms : List Mark) :
    ofMarks ms = ⟨(ms.filterMap Mark.result?).getLast?, ms.filterMap Mark.failure?⟩ := by
  unfold ofMarks
  rw [foldl_record]
  simp only [empty, Option.or_none, List.nil_append]

end Trail

theorem Failure.joinAll?_cons (a : Failure) (as : List Failure) :
    joinAll? (a :: as) = some ((joinAll? as).elim a a.causedBy) := by
  rw [joinAll?]
  cases joinAll? as <;> rfl

/-- The failures are joined from the last one back: what has been joined so far becomes the cause of
the failure before it. -/
theorem Failure.joinAll?_eq_foldl_reverse (as : List Failure) :
    joinAll? as = as.reverse.foldl (fun inner? a => some (inner?.elim a a.causedBy)) none := by
  rw [List.foldl_reverse]
  induction as with
  | nil => rfl
  | cons a as ih => rw [joinAll?_cons, List.foldr_cons, ih]

theorem Failure.frames_joinAll? (as : List Failure) :
    ((joinAll? as).map frames).getD [] = as.flatMap frames := by
  induction as with
  | nil => rfl
  | cons a as ih =>
    rw [joinAll?_cons, List.flatMap_cons, ← ih]
    cases joinAll? as <;> simp

theorem Failure.joinAll?_eq_none_iff {as : List Failure} : joinAll? as = none ↔ as = [] := by
  cases as with
  | nil => simp [joinAll?]
  | cons a as => simp [joinAll?_cons]

namespace Trail

variable {t : Trail} (op : Ty) (args : List Ty)

theorem outcome_of_accepted {name : String} (accepted : t.result? = some name) :
    (t.toCapability op args).outcome = .invocable name := by
  simp only [toCapability, accepted]

/-- Without a result, the failure of the answer has the frames of all that has been pushed. -/
theorem outcome_of_rejected (rejected : t.result? = none) :
    ∃ a, (t.toCapability op args).outcome = .notInvocable a ∧ a.frames =
      if t.failures = [] then [⟨.operation, op.name, args.map Ty.name⟩]
      else t.failures.flatMap Failure.frames := by
  refine ⟨(Failure.joinAll? t.failures).getD (.notInvocable op args), ?_, ?_⟩
  · simp only [toCapability, rejected]
  · rw [← Failure.frames_joinAll?]
    cases joined : Failure.joinAll? t.failures with
    | none => simp [Failure.joinAll?_eq_none_iff.1 joined, Failure.notInvocable]
    | some a =>
      have pushed : t.failures ≠ [] := by
        rw [Ne, ← Failure.joinAll?_eq_none_iff, joined]
        simp
      simp [pushed]

end Trail

end Callable
