import Callable.Probe.Explain
set_option autoImplicit false

/-!
What a walk records. Only the first step of a probe can accept, and then the walk is over
(`probeWithin_of_accepted`). After a rejection every mark is a failure, and the failure in the
answer has the frames of all of them in the order they came (`frames_probeWithin`). What a step of
such a walk can do is given by rules (`Step`), and its frames are read off its rule
(`frames_of_step`).
-/

namespace Callable

def Mark.frames : Mark → List Frame
  | .accept _ => []
  | .push a => a.frames

theorem Mark.flatMap_frames (ms : List Mark) :
    (ms.filterMap Mark.failure?).flatMap Failure.frames = ms.flatMap Mark.frames := by
  induction ms with
  | nil => rfl
  | cons m ms ih =>
    cases m with
    | accept r => exact ih
    | push a => simp [failure?, frames, ih]

/-- The failure of a trail without an accepted result has the frames of what was pushed. -/
theorem Trail.frames_toCapability {t : Trail} (op : Ty) (args : List Ty)
    (accepted : t.result? = none) (pushed : t.failures ≠ []) :
    (t.toCapability op args).failure?.map Failure.frames =
      some (t.failures.flatMap Failure.frames) := by
  obtain ⟨a, outcome, frames⟩ := outcome_of_rejected op args accepted
  rw [if_neg pushed] at frames
  simp only [Capability.failure?, outcome, Option.map_some, frames]

namespace WalkState

/-- The frames that one step records. -/
def stepFrames (s : WalkState) : List Frame := (s.advance.1.map Mark.frames).getD []

/-- The frames that a number of steps record. -/
def frames (n : Nat) (s : WalkState) : List Frame := (s.marks n).flatMap Mark.frames

theorem frames_succ (n : Nat) (s : WalkState) :
    s.frames (n + 1) = s.stepFrames ++ s.advance.2.frames n := by
  unfold frames stepFrames
  rw [marks, List.flatMap_append]
  cases s.advance.1 with
  | none => rfl
  | some m => simp

theorem frames_add (n m : Nat) (s : WalkState) :
    s.frames (n + m) = s.frames n ++ (s.after n).frames m := by
  unfold frames
  rw [marks_add, List.flatMap_append]

@[simp] theorem after_done (n : Nat) : WalkState.done.after n = .done := by
  induction n with
  | zero => rfl
  | succ n ih => exact ih

end WalkState

/-! ### What a step can do -/

/-- The frame of a rejected adaptor, and where the walk goes on inside it. -/
inductive Layer : Ty → List Ty → Frame → WalkState → Prop
  | missingSeed {f : Ty} : Layer (.compress f) [] ⟨.missingSeed, (Ty.compress f).name, []⟩ .done
  | compress {f x : Ty} {xs : List Ty} :
      Layer (.compress f) (x :: xs) ⟨.fold, (Ty.compress f).name, (x :: xs).map Ty.name⟩
        (.fold f x xs)
  | seeded {f s : Ty} {xs : List Ty} :
      Layer (.seeded f s) xs ⟨.fold, (Ty.seeded f s).name, xs.map Ty.name⟩ (.seed f s xs)
  | decorated {d t g : Ty} {xs : List Ty} :
      Layer (.decorated d t g) xs ⟨.decorated, (Ty.decorated d t g).name, xs.map Ty.name⟩
        (.decorator d t g xs)

theorem layer_of_expand? {op : Ty} {args : List Ty} {f : Frame} {s : WalkState}
    (h : expand? op args = some (f, s)) : Layer op args f s := by
  unfold expand? at h
  split at h <;> cases h <;> constructor

theorem expand?_eq_none_iff {op : Ty} {args : List Ty} :
    expand? op args = none ↔ op.isAdaptor = false := by
  cases op with
  | compress f => cases args <;> simp [expand?, Ty.isAdaptor]
  | _ => simp [expand?, Ty.isAdaptor]

theorem insight?_layer {op : Ty} {args : List Ty} {f : Frame} {s : WalkState}
    (layer : Layer op args f s) : insight? Ty.reveal? op args = some (.root f, s) := by
  cases layer <;> rfl

theorem insight?_plain {op : Ty} {args : List Ty} (plain : op.isAdaptor = false)
    (reveals : Reveals) :
    insight? reveals op args = (reveals op args).map fun a => (a, .done) := by
  rw [insight?, expand?_eq_none_iff.2 plain]

/-- What is known of an adaptor does not come from the table. -/
theorem plain_of_insight?_ne {reveals reveals' : Reveals} {op : Ty} {args : List Ty}
    (differ : insight? reveals op args ≠ insight? reveals' op args) :
    op.isAdaptor = false ∧ reveals op args ≠ reveals' op args := by
  unfold insight? at differ
  cases he : expand? op args with
  | some known =>
    rw [he] at differ
    exact absurd rfl differ
  | none => exact ⟨expand?_eq_none_iff.1 he, fun same => differ (by rw [he, same])⟩

namespace WalkState

/-- The state explains a rejected call. A nested call has been rejected before. -/
inductive Asks : WalkState → Ty → List Ty → Prop
  | probe {op : Ty} {args : List Ty} (h : result? op args = none) :
      Asks (.probe op args) op args
  | target {op : Ty} {args : List Ty} (h : result? op args = none) :
      Asks (.target op args) op args
  | nested {op : Ty} {args : List Ty} : Asks (.nested op args) op args

/-- What a step can do, but for the step of a probe that is accepted. -/
inductive Step : WalkState → Option Failure → WalkState → Prop
  | expand {s s' : WalkState} {op : Ty} {args : List Ty} {f : Frame} (asked : s.Asks op args)
      (layer : Layer op args f s') : Step s (some (.root f)) s'
  | reveal {s : WalkState} {op : Ty} {args : List Ty} {a : Failure} (asked : s.Asks op args)
      (plain : op.isAdaptor = false) (own : op.reveal? args = some a) : Step s (some a) .done
  | reject {s : WalkState} {op : Ty} {args : List Ty} (asked : s.Asks op args)
      (unrecorded : s ≠ .nested op args) (plain : op.isAdaptor = false)
      (silent : op.reveal? args = none) : Step s (some (.notInvocable op args)) .done
  | leave {op : Ty} {args : List Ty} (plain : op.isAdaptor = false)
      (silent : op.reveal? args = none) : Step (.nested op args) none .done
  | accept {op r : Ty} {args : List Ty} (h : result? op args = some r) :
      Step (.target op args) none .done
  | foldEnd {f s : Ty} : Step (.fold f s []) none .done
  | foldStep {f s s' x : Ty} {xs : List Ty} (h : result? f [s, x] = some s') :
      Step (.fold f s (x :: xs)) none (.fold f s' xs)
  | foldStop {f s x : Ty} {xs : List Ty} (h : result? f [s, x] = none) :
      Step (.fold f s (x :: xs)) (some (.root (foldOperationFrame f s x))) (.nested f [s, x])
  | copied {f s : Ty} {args : List Ty} (h : s.isClone = true) :
      Step (.seed f s args) none (.fold f s args)
  | uncopied {f s : Ty} {args : List Ty} (h : s.isClone = false) :
      Step (.seed f s args) (some (.root (seedFrame s))) .done
  | taken {d t g : Ty} {args : List Ty} (h : TakesCall d t g args) :
      Step (.decorator d t g args) none .done
  | refused {d t g : Ty} {args : List Ty} (h : ¬TakesCall d t g args) :
      Step (.decorator d t g args) (some (.root (decoratorFrame d t g args))) (.target g args)
  | done : Step .done none .done

/-! ### Accounts of operations -/

/-- The step looks up the account that the operation gives of its rejections: two tables that differ in
this account only lead to two steps. -/
def Consults (s : WalkState) (op : Ty) (args : List Ty) : Prop :=
  ∃ reveals reveals' : Reveals,
    (∀ op' args', reveals op' args' ≠ reveals' op' args' → op' = op ∧ args' = args) ∧
      s.advanceBy reveals ≠ s.advanceBy reveals'

/-- Where a step depends on the table, the call that it explains has been found rejected. -/
theorem asks_of_advanceBy_ne {s : WalkState} {reveals reveals' : Reveals}
    (differ : s.advanceBy reveals ≠ s.advanceBy reveals') :
    ∃ op args, s.Asks op args ∧ op.isAdaptor = false ∧ reveals op args ≠ reveals' op args := by
  cases s with
  | probe op args =>
    cases hr : result? op args with
    | some r => exact absurd (by simp only [advanceBy, hr]) differ
    | none =>
      refine ⟨op, args, .probe hr, plain_of_insight?_ne fun same => differ ?_⟩
      simp only [advanceBy, hr, rejection, same]
  | target op args =>
    cases hr : result? op args with
    | some r => exact absurd (by simp only [advanceBy, hr]) differ
    | none =>
      refine ⟨op, args, .target hr, plain_of_insight?_ne fun same => differ ?_⟩
      simp only [advanceBy, hr, rejection, same]
  | nested op args =>
    refine ⟨op, args, .nested, plain_of_insight?_ne fun same => differ ?_⟩
    simp only [advanceBy, same]
  | fold f s rest => exact absurd (by cases rest <;> rfl) differ
  | _ => exact absurd rfl differ

/-- The account of an operation is consulted just where the rejection of the operation is explained and
the operation is no adaptor. -/
theorem consults_iff {s : WalkState} {op : Ty} {args : List Ty} :
    s.Consults op args ↔ s.Asks op args ∧ op.isAdaptor = false := by
  constructor
  · rintro ⟨reveals, reveals', only, differ⟩
    obtain ⟨op', args', asked, plain, different⟩ := asks_of_advanceBy_ne differ
    obtain ⟨rfl, rfl⟩ := only op' args' different
    exact ⟨asked, plain⟩
  · rintro ⟨asked, plain⟩
    let account : Reveals := fun op' args' =>
      if op' = op ∧ args' = args then some (.new .fold "" []) else none
    have given : account op args = some (.new .fold "" []) := if_pos ⟨rfl, rfl⟩
    refine ⟨fun _ _ => none, account, ?_, ?_⟩
    · intro op' args' different
      by_cases here : op' = op ∧ args' = args
      · exact here
      · exact absurd (if_neg here).symm different
    · cases asked <;> simp [advanceBy, rejection, insight?_plain plain, Failure.notInvocable, *]

/-! ### Rules of steps -/

theorem step_rejection {s : WalkState} {op : Ty} {args : List Ty} (asked : s.Asks op args)
    (unrecorded : s ≠ .nested op args) :
    Step s (some (rejection Ty.reveal? op args).1) (rejection Ty.reveal? op args).2 := by
  unfold rejection insight?
  cases he : expand? op args with
  | some known => exact .expand asked (layer_of_expand? he)
  | none =>
    have plain := expand?_eq_none_iff.1 he
    cases hr : op.reveal? args with
    | some a => exact .reveal asked plain hr
    | none => exact .reject asked unrecorded plain hr

theorem step_nested (op : Ty) (args : List Ty) :
    ∃ a?, (WalkState.nested op args).advance.1 = a?.map .push ∧
      Step (.nested op args) a? (WalkState.nested op args).advance.2 := by
  simp only [advance, advanceBy, insight?]
  cases he : expand? op args with
  | some known => exact ⟨some _, rfl, .expand .nested (layer_of_expand? he)⟩
  | none =>
    have plain := expand?_eq_none_iff.1 he
    cases hr : op.reveal? args with
    | some a => exact ⟨some a, rfl, .reveal .nested plain hr⟩
    | none => exact ⟨none, rfl, .leave plain hr⟩

/-- The walk explains a rejection: it is not at the start of a probe that is accepted. -/
def Rejecting : WalkState → Prop
  | .probe op args => result? op args = none
  | _ => True

theorem step_advance {s : WalkState} (h : s.Rejecting) :
    ∃ a?, s.advance.1 = a?.map .push ∧ Step s a? s.advance.2 := by
  cases s with
  | probe op args =>
    have hr : result? op args = none := h
    simp only [advance, advanceBy, hr]
    exact ⟨some _, rfl, step_rejection (.probe hr) (by simp)⟩
  | target op args =>
    cases hr : result? op args with
    | some r =>
      simp only [advance, advanceBy, hr]
      exact ⟨none, rfl, .accept hr⟩
    | none =>
      simp only [advance, advanceBy, hr]
      exact ⟨some _, rfl, step_rejection (.target hr) (by simp)⟩
  | nested op args => exact step_nested op args
  | fold f s rest =>
    cases rest with
    | nil => exact ⟨none, rfl, .foldEnd⟩
    | cons x xs =>
      cases hr : result? f [s, x] with
      | some s' =>
        simp only [advance, advanceBy, hr]
        exact ⟨none, rfl, .foldStep hr⟩
      | none =>
        simp only [advance, advanceBy, hr]
        exact ⟨some _, rfl, .foldStop hr⟩
  | seed f s args =>
    by_cases copies : s.isClone = true
    · simp only [advance, advanceBy, if_pos copies]
      exact ⟨none, rfl, .copied copies⟩
    · simp only [advance, advanceBy, if_neg copies]
      exact ⟨some _, rfl, .uncopied (Bool.eq_false_iff.2 copies)⟩
  | decorator d t g args =>
    by_cases takes : decoratorAccepts d t g args = true
    · simp only [advance, advanceBy, if_pos takes]
      exact ⟨none, rfl, .taken (decoratorAccepts_iff.1 takes)⟩
    · simp only [advance, advanceBy, if_neg takes]
      exact ⟨some _, rfl, .refused fun h => takes (decoratorAccepts_iff.2 h)⟩
  | done => exact ⟨none, rfl, .done⟩

theorem Step.rejecting {s s' : WalkState} {a? : Option Failure} (h : Step s a? s') :
    s'.Rejecting := by
  cases h with
  | expand _ layer => cases layer <;> trivial
  | _ => trivial

/-- What a step does is all that it can do. -/
theorem advance_of_step {s s' : WalkState} {a? : Option Failure} (step : Step s a? s') :
    s.advance = (a?.map .push, s') := by
  cases step with
  | expand asked layer =>
    have known := insight?_layer layer
    cases asked <;> simp [advance, advanceBy, rejection, *]
  | @reveal _ op args a asked plain own =>
    have known : insight? Ty.reveal? op args = _ := insight?_plain plain _
    cases asked <;> simp [advance, advanceBy, rejection, *]
  | @reject _ op args asked unrecorded plain silent =>
    have known : insight? Ty.reveal? op args = _ := insight?_plain plain _
    cases asked with
    | probe rejected => simp [advance, advanceBy, rejection, *]
    | target rejected => simp [advance, advanceBy, rejection, *]
    | nested => exact absurd rfl unrecorded
  | leave plain silent => simp [advance, advanceBy, insight?_plain plain, silent]
  | taken takes => simp [advance, advanceBy, decoratorAccepts_iff.2 takes]
  | refused refused => simp [advance, advanceBy, mt decoratorAccepts_iff.1 refused]
  | _ => simp [advance, advanceBy, *]

theorem after_of_step {s s' : WalkState} {a? : Option Failure} (step : Step s a? s') (n : Nat) :
    s.after (n + 1) = s'.after n := by
  rw [after, advance_of_step step]

theorem frames_of_step {s s' : WalkState} {a? : Option Failure} (step : Step s a? s') (n : Nat) :
    s.frames (n + 1) = (a?.map Failure.frames).getD [] ++ s'.frames n := by
  rw [frames_succ, stepFrames, advance_of_step step]
  cases a? <;> rfl

/-- The walk of a rejected adaptor records the frame of it first. -/
theorem frames_probe_layer {op : Ty} {args : List Ty} {f : Frame} {s : WalkState}
    (layer : Layer op args f s) (rejected : result? op args = none) (n : Nat) :
    (WalkState.probe op args).frames (n + 1) = f :: s.frames n :=
  frames_of_step (.expand (.probe rejected) layer) n

/-- Nothing is accepted on the way of a rejection. -/
theorem marks_rejecting (n : Nat) {s : WalkState} (h : s.Rejecting) :
    (s.marks n).filterMap Mark.result? = [] := by
  induction n generalizing s with
  | zero => rfl
  | succ n ih =>
    obtain ⟨a?, recorded, step⟩ := step_advance h
    rw [marks, List.filterMap_append, ih step.rejecting, recorded]
    cases a? <;> rfl

theorem marks_of_accepted (n : Nat) {op r : Ty} {args : List Ty} (h : result? op args = some r) :
    (WalkState.probe op args).marks (n + 1) = [.accept r.name] := by
  simp [marks, advance, advanceBy, h]

/-- The first step of the probe of a rejected call records a failure. -/
theorem failures_of_rejected (n : Nat) {op : Ty} {args : List Ty} (h : result? op args = none) :
    ((WalkState.probe op args).marks (n + 1)).filterMap Mark.failure? ≠ [] := by
  simp [marks, advance, advanceBy, h, Mark.failure?]

end WalkState

/-! ### The answer -/

theorem probeWithin_of_accepted {n : Nat} {op r : Ty} {args : List Ty} (hn : 0 < n)
    (h : result? op args = some r) : probeWithin n op args = .invocable op args r := by
  obtain ⟨m, rfl⟩ := Nat.exists_eq_add_one.2 hn
  unfold probeWithin
  rw [WalkState.marks_of_accepted m h]
  rfl

/-- The chain of a rejection is what the steps of the walk record. -/
theorem frames_probeWithin {n : Nat} {op : Ty} {args : List Ty} (hn : 0 < n)
    (h : result? op args = none) :
    (probeWithin n op args).failure?.map Failure.frames =
      some ((WalkState.probe op args).frames n) := by
  obtain ⟨m, rfl⟩ := Nat.exists_eq_add_one.2 hn
  have accepted : ((WalkState.probe op args).marks (m + 1)).filterMap Mark.result? = [] :=
    WalkState.marks_rejecting (m + 1) h
  unfold probeWithin WalkState.frames
  rw [Trail.ofMarks_eq, accepted,
    Trail.frames_toCapability op args rfl (WalkState.failures_of_rejected m h),
    Mark.flatMap_frames]

end Callable
