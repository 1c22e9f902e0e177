import Callable.Proofs.Oblivious
import Callable.Run.History
import Callable.Session.Tracing
set_option autoImplicit false

/-!
Events bracket calls. The events of a run are those of its call tree (`tells_nest`), and in the
events of a call tree every call that has returned is closed and every call in progress is open
(`unclosed_calls`, `unclosed_progress`).
-/

namespace Callable

open Run

/-! ### Brackets -/

/-- The traced calls that are open after the events, the innermost one first. There is no answer if
an event closes anything but the innermost open call. -/
def unclosed : List (String × String) → List Event → Option (List (String × String))
  | calls, [] => some calls
  | calls, .invoking label operation :: es => unclosed ((label, operation) :: calls) es
  | [], .returned _ :: _ => none
  | (label, _) :: calls, .returned label' :: es =>
    if label = label' then unclosed calls es else none

theorem unclosed_append (calls : List (String × String)) (es es' : List Event) :
    unclosed calls (es ++ es') = (unclosed calls es).bind fun calls' => unclosed calls' es' := by
  fun_induction unclosed calls es with
  | case1 calls => rfl
  | case2 calls label operation es ih => exact ih
  | case3 label es => rfl
  | case4 label operation calls es ih => simpa [unclosed] using ih
  | case5 label operation calls label' es differ => simp [unclosed, differ]

mutual

/-- A call that has returned is closed. -/
theorem unclosed_call (calls : List (String × String)) (c : Call) :
    unclosed calls c.events = some calls := by
  cases c with
  | plain args result => rfl
  | traced label operation inner =>
    simp only [Call.events, unclosed, unclosed_append, unclosed_calls, Option.bind_some, if_pos]

theorem unclosed_calls (calls : List (String × String)) (cs : List Call) :
    unclosed calls (eventsOfCalls cs) = some calls := by
  cases cs with
  | nil => rfl
  | cons c cs =>
    simp only [eventsOfCalls, unclosed_append, unclosed_call, Option.bind_some]
    exact unclosed_calls calls cs

end

/-- The calls in progress are open. -/
theorem unclosed_progress (calls : List (String × String)) (p : Progress) :
    unclosed calls p.events = some (p.inProgress.reverse ++ calls) := by
  induction p generalizing calls with
  | stopped before => exact unclosed_calls calls before
  | inside before label operation inner ih =>
    simp only [Progress.events, unclosed_append, unclosed_calls, Option.bind_some, unclosed, ih,
      Progress.inProgress, List.reverse_cons, List.append_assoc, List.singleton_append]

theorem unclosed_history {α : Type} (h : History α) :
    unclosed [] h.events = some h.inProgress.reverse := by
  cases h with
  | returned calls a => exact unclosed_calls [] calls
  | stopped progress reason =>
    have opened := unclosed_progress [] progress
    rwa [List.append_nil] at opened

/-! ### What is told -/

def World.events (w : World) : List Event := w.log.filterMap Entry.event?

/-- The run from the world ended as the history says, and added its events. -/
inductive Told {α : Type} (w : World) : History (α × List Nat) → Except Stop α × World → Prop
  | returned {calls : List Call} {a : α} {w' : World}
      (added : w'.events = w.events ++ eventsOfCalls calls) :
      Told w (.returned calls (a, w'.counters)) (.ok a, w')
  | stopped {progress : Progress} {reason : Stop} {w' : World}
      (added : w'.events = w.events ++ progress.events) :
      Told w (.stopped progress reason) (.error reason, w')

theorem Told.ends {α : Type} {w : World} {h : History (α × List Nat)} {e : Except Stop α × World}
    (told : Told w h e) :
    e.1 = (h.map Prod.fst).outcome ∧ e.2.events = w.events ++ (h.map Prod.fst).events := by
  cases told with
  | returned added => exact ⟨rfl, added⟩
  | stopped added => exact ⟨rfl, added⟩

/-- The history tells the run from every world. -/
def Tells {α : Type} (x : Run α) (t : Telling α) : Prop :=
  ∀ w, Told w (t w.counters) (inWorld w x)

section Sequences

variable {α β : Type}

theorem Told.after {w w' : World} {calls : List Call} {h : History (α × List Nat)}
    {e : Except Stop α × World} (first : w'.events = w.events ++ eventsOfCalls calls)
    (next : Told w' h e) : Told w (h.after calls) e := by
  cases next with
  | returned added =>
    apply Told.returned
    rw [added, first, eventsOfCalls_append, List.append_assoc]
  | stopped added =>
    apply Told.stopped
    rw [added, first, Progress.events_after, List.append_assoc]

theorem tells_pure (a : α) : Tells (pure a) (pure a) := by
  intro w
  exact .returned (List.append_nil _).symm

theorem tells_stop (reason : Stop) : Tells (stop reason : Run α) (Telling.stop reason) := by
  intro w
  exact .stopped (List.append_nil _).symm

theorem Tells.bind {x : Run α} {t : Telling α} {f : α → Run β} {u : α → Telling β}
    (first : Tells x t) (next : ∀ a, Tells (f a) (u a)) : Tells (x >>= f) (t >>= u) := by
  intro w
  have told := first w
  rw [inWorld_bind]
  change Told w ((t w.counters).bind fun r => u r.1 r.2) _
  revert told
  generalize t w.counters = h
  generalize inWorld w x = e
  intro told
  cases told with
  | returned added => exact (next _ _).after added
  | stopped added => exact .stopped added

theorem tells_foldFrom {step : Value → Value → Run Value} {step' : Value → Value → Telling Value}
    (steps : ∀ s x, Tells (step s x) (step' s x)) (s : Value) (xs : List Value) :
    Tells (foldFrom step s xs) (foldFrom step' s xs) :=
  foldFrom_related tells_pure (fun _ _ _ _ first next => first.bind next) steps s xs

end Sequences

/-! ### Plain operations -/

def Silent {α : Type} (x : Run α) : Prop := ∀ w, (inWorld w x).2.events = w.events

theorem silent_write {e : Entry} (none : e.event? = none) : Silent (write e) := by
  intro w
  simp [World.events, none]

theorem Silent.bind {α β : Type} {x : Run α} {f : α → Run β} (first : Silent x)
    (next : ∀ a, Silent (f a)) : Silent (x >>= f) := by
  intro w
  have kept := first w
  rw [inWorld_bind]
  revert kept
  generalize inWorld w x = e
  intro kept
  obtain ⟨outcome, w'⟩ := e
  cases outcome with
  | error s => exact kept
  | ok a => exact (next a w').trans kept

theorem lockstep_silent : Lockstep fun x _ => Silent x where
  pure _ _ := rfl
  stop _ _ := rfl
  counters _ := rfl
  setCounter _ _ _ := rfl
  called _ _ _ := silent_write rfl
  decorating _ _ _ _ := silent_write rfl
  bind := Silent.bind

/-- A plain operation is told by how it ends and by the counters that it leaves. -/
theorem tells_plain {base : Op} (plain : base.isPlain = true) (xs : List Value) :
    Tells (base.invoke (typedSetting .trace) 0 xs) (Telling.plain base xs) := by
  intro w
  -- The history was taken with an empty log and no collector, and neither has an influence.
  have silent := lockstep_silent.invoke (typedSetting .trace) .off base (.inl plain) 0 xs w
  have alike := lockstep_alike.invoke (typedSetting .trace) .off base (.inl plain) 0 xs w
    ⟨w.counters, []⟩ rfl
  change _ = (inWorld _ (base.invoke (typedSetting .off) 0 xs)).1 ∧
    _ = (inWorld _ (base.invoke (typedSetting .off) 0 xs)).2.counters at alike
  unfold Telling.plain
  revert silent alike
  generalize inWorld w (base.invoke (typedSetting .trace) 0 xs) = e
  generalize inWorld ⟨w.counters, []⟩ (base.invoke (typedSetting .off) 0 xs) = e'
  obtain ⟨outcome, u⟩ := e
  obtain ⟨outcome', u'⟩ := e'
  rintro silent ⟨rfl, left⟩
  have added : u.events = w.events ++ [] := by rw [List.append_nil]; exact silent
  cases outcome with
  | error reason => exact .stopped added
  | ok v =>
    dsimp only at left ⊢
    rw [← left]
    exact .returned added

/-! ### Traced calls -/

def World.tell (w : World) (e : Event) : World := { w with log := w.log ++ [.event e] }

@[simp] theorem World.events_tell (w : World) (e : Event) :
    (w.tell e).events = w.events ++ [e] := by
  simp [World.events, World.tell, Entry.event?]

/-- At this level every event is kept. -/
theorem inWorld_emit_trace (w : World) (e : Event) :
    inWorld w (emit .trace e) = (.ok (), w.tell e) := by
  cases e <;> rfl

theorem tells_traced {target : List Value → Run Value} {xs : List Value} {t : Telling Value}
    (inner : Tells (target xs) t) (label operation : String) :
    Tells (Decorator.traceCall target (typedSetting .trace) label operation xs)
      (Telling.traced label operation t) := by
  intro w
  have told := inner (w.tell (.invoking label operation))
  simp only [Decorator.traceCall, typedSetting, inWorld_bind, inWorld_emit_trace]
  unfold Telling.traced
  change Told (w.tell _) (t w.counters) _ at told
  revert told
  generalize t w.counters = h
  generalize inWorld (w.tell (.invoking label operation)) (target xs) = e
  intro told
  cases told with
  | stopped added =>
    apply Told.stopped
    rw [added, World.events_tell, List.append_assoc]
    rfl
  | @returned calls v w' added =>
    have closed : (w'.tell (.returned label)).events =
        w.events ++ eventsOfCalls [.traced label operation calls] := by
      rw [World.events_tell, added, World.events_tell]
      simp [eventsOfCalls, Call.events]
    exact .returned closed

/-- A nest around a plain operation is told by its call tree. -/
theorem tells_nest {base : Op} (plain : base.isPlain = true) (layers : List OpAdaptor)
    (xs : List Value) :
    Tells ((base.nest layers).invoke (typedSetting .trace) 0 xs) (base.tell layers xs) := by
  induction layers generalizing xs with
  | nil => exact tells_plain plain xs
  | cons l ls ih =>
    have steps : ∀ s x, Tells ((base.nest ls).invoke (typedSetting .trace) 0 [s, x])
        (base.tell ls [s, x]) := fun s x => ih [s, x]
    cases l with
    | compress =>
      cases xs with
      | nil => exact tells_stop _
      | cons x xs =>
        by_cases few : xs.length < foldLimit
        · simp only [Op.nest, Op.invoke, foldSelf_cons, Op.tell, if_pos few]
          exact tells_foldFrom steps x xs
        · simp only [Op.nest, Op.invoke, foldSelf_cons, Op.tell, if_neg few]
          exact tells_stop _
    | seeded z =>
      by_cases few : xs.length ≤ foldLimit
      · simp only [Op.nest, Op.invoke, foldArgs, Op.tell, if_pos few]
        exact tells_foldFrom steps z xs
      · simp only [Op.nest, Op.invoke, foldArgs, Op.tell, if_neg few]
        exact tells_stop _
    | traced v fit =>
      by_cases few : xs.length ≤ decoratedLimit
      · rw [Op.invoke_traced .trace base ls fit 0 few]
        simp only [Op.tell, if_pos few]
        exact tells_traced (ih xs) _ _
      · simp only [Op.nest, Op.invoke, Op.tell, if_neg few]
        exact tells_stop _

/-- Events are the traversal of the call tree. A call of a nest of folds and traces around a plain
operation ends as its call tree does and logs its events. Every traced call tells of itself with its
label and the name of its target, then of what is inside, and then, if that returned, of its return.
So the events are well bracketed if the call returns, and otherwise the unclosed ones are the traced
calls that were in progress, listed here from the inside outwards. -/
theorem call_events_bracketed (base : Op) (plain : base.isPlain = true) (layers : List OpAdaptor)
    (xs : List Value) :
    let report := (base.nest layers).call (typedSetting .trace) xs
    let events := report.log.filterMap Entry.event?
    let tree := base.callTree layers xs
    report.outcome = tree.outcome ∧ events = tree.events ∧
      unclosed [] events = some tree.inProgress.reverse ∧
        ∀ v, report.outcome = .ok v → unclosed [] events = some [] := by
  intro report events tree
  obtain ⟨outcome, logged⟩ : report.outcome = tree.outcome ∧ events = tree.events := by
    have counters : (base.nest layers).start.counters = base.counters :=
      Op.counters_nest base layers
    have told := (tells_nest plain layers xs (base.nest layers).start).ends
    rw [counters] at told
    exact told
  have opened : unclosed [] events = some tree.inProgress.reverse := by
    rw [logged]
    exact unclosed_history tree
  refine ⟨outcome, logged, opened, fun v returned => ?_⟩
  rw [opened, tree.inProgress_of_outcome (outcome.symm.trans returned)]
  rfl

/-- The last sum of three is out of range, inside a fold that is traced itself. -/
theorem overflowing_sum_bracketed :
    let byte := fun (n : Int) (lo : 0 ≤ n) (hi : n ≤ 255) => Value.int ⟨.u8, n, lo, hi⟩
    let xs := [byte 200 (by decide) (by decide), byte 50 (by decide) (by decide),
      byte 10 (by decide) (by decide)]
    let layers : List OpAdaptor := [.traced (.str "fold") rfl, .compress, .traced (.str "sum") rfl]
    let sum := (Op.leaf .sum).typeName
    let fold := (Op.compress (.decorated .trace (.value (.str "sum")) (.leaf .sum))).typeName
    let report := ((Op.leaf .sum).nest layers).call (typedSetting .trace) xs
    let events := report.log.filterMap Entry.event?
    (Op.leaf .sum).isPlain = true ∧ report.outcome = .error (.overflow .add) ∧
      events = [.invoking "fold" fold, .invoking "sum" sum, .returned "sum", .invoking "sum" sum] ∧
        unclosed [] events = some [("sum", sum), ("fold", fold)] := by
  intro byte xs layers sum fold report events
  obtain ⟨outcome, logged, opened, -⟩ :=
    call_events_bracketed (.leaf .sum) rfl layers xs
  exact ⟨rfl, outcome, logged, opened⟩

end Callable
