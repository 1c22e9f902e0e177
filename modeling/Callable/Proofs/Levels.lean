import Callable.Proofs.Lockstep
import Callable.Session.Script
import Callable.Session.Tracing
set_option autoImplicit false

/-!
The level of the collector decides what is kept of a run, and nothing else. The run told to a
collector of some level is related to the run told to one that keeps every event: from the world as
the first collector shows it, it ends in the same way, in the world as the first collector shows it
(`Filters`). Sequencing keeps this relation and the two collectors are in it, so it holds of all
operations (`filters_invoke`), and it is carried from step to step through a script (`runAll?_upTo`).
-/

namespace Callable

open Run

/-! ### What a level shows -/

namespace Level

/-- Whether an entry is in the log at the level. Of events that depends on what the collector keeps,
and the other entries are always there. -/
def keepsEntry (l : Level) : Entry → Bool
  | .event e => l.keeps e
  | _ => true

theorem keeps_trace (e : Event) : Level.trace.keeps e = true := by
  cases e <;> rfl

theorem keeps_invoking_iff (l : Level) (label operation : String) :
    l.keeps (.invoking label operation) = true ↔ l = .debug ∨ l = .trace := by
  cases l <;> simp [keeps, Event.level, rank]

theorem keeps_returned_iff (l : Level) (label : String) :
    l.keeps (.returned label) = true ↔ l = .trace := by
  cases l <;> simp [keeps, Event.level, rank]

/-- The events of the entries that are kept are the events that are kept. -/
theorem events_filter (l : Level) (log : List Entry) :
    (log.filter l.keepsEntry).filterMap Entry.event? =
      (log.filterMap Entry.event?).filter l.keeps := by
  rw [List.filterMap_filter, List.filter_filterMap]
  congr 1
  funext entry
  cases entry <;> rfl

end Level

/-- The world as a collector of the level shows it. -/
def World.upTo (l : Level) (w : World) : World := { w with log := w.log.filter l.keepsEntry }

/-! ### Runs -/

/-- The run `x` is the run `y`, as a collector of the level shows it. -/
def Filters (l : Level) {α : Type} (x y : Run α) : Prop :=
  ∀ w, inWorld (w.upTo l) x = ((inWorld w y).1, (inWorld w y).2.upTo l)

section Filters

variable (l : Level)

theorem filters_write {e : Entry} (kept : l.keepsEntry e = true) : Filters l (write e) (write e) := by
  intro w
  simp [World.upTo, kept]

theorem filters_emit (e : Event) : Filters l (emit l e) (emit .trace e) := by
  intro w
  rw [inWorld_emit, inWorld_emit, if_pos (Level.keeps_trace e)]
  by_cases kept : l.keeps e = true
  · simp [World.upTo, Level.keepsEntry, kept]
  · simp [World.upTo, Level.keepsEntry, kept]

theorem Filters.bind {l : Level} {α β : Type} {x y : Run α} {f g : α → Run β}
    (first : Filters l x y) (next : ∀ a, Filters l (f a) (g a)) : Filters l (x >>= f) (y >>= g) := by
  intro w
  rw [inWorld_bind, inWorld_bind, first w]
  cases inWorld w y with
  | mk outcome w' =>
    cases outcome with
    | error e => rfl
    | ok a => exact next a w'

theorem lockstep_filters : Lockstep (Filters l) where
  pure _ _ := rfl
  stop _ _ := rfl
  counters _ := rfl
  setCounter _ _ _ := rfl
  called _ _ _ := filters_write l rfl
  decorating _ _ _ _ := filters_write l rfl
  bind := Filters.bind

/-- All that is kept of a run at a level is kept at the level of everything. -/
theorem filters_invoke (set : Setting) (op : Op) (place : Nat) (xs : List Value) :
    Filters l (op.invoke { set with level := l } place xs)
      (op.invoke { set with level := .trace } place xs) :=
  (lockstep_filters l).invoke { set with level := l } .trace op (.inr (filters_emit l)) place xs

end Filters

/-! ### Calls -/

/-- The report as a collector of the level leaves it. -/
def Report.upTo (l : Level) (r : Report) : Report := { r with log := r.log.filter l.keepsEntry }

/-- Calls start with an empty log, of which every collector shows the same. -/
theorem Filters.inWorld_start {l : Level} {x y : Run Value} (shown : Filters l x y) (op : Op) :
    inWorld op.start x = ((inWorld op.start y).1, (inWorld op.start y).2.upTo l) :=
  shown op.start

section Reports

variable (l : Level) (set : Setting) (op : Op)

theorem call_upTo (xs : List Value) :
    op.call { set with level := l } xs = (op.call { set with level := .trace } xs).upTo l := by
  simp only [Op.call, (filters_invoke l set op 0 xs).inWorld_start op]
  rfl

theorem fold_upTo (s : Value) (xs : List Value) :
    op.fold { set with level := l } s xs = (op.fold { set with level := .trace } s xs).upTo l := by
  have steps := fun s x => filters_invoke l set op 0 [s, x]
  simp only [Op.fold, Filters.inWorld_start ((lockstep_filters l).foldArgs steps s xs) op]
  rfl

theorem foldSelf_upTo (xs : List Value) :
    op.foldSelf { set with level := l } xs =
      (op.foldSelf { set with level := .trace } xs).upTo l := by
  have steps := fun s x => filters_invoke l set op 0 [s, x]
  simp only [Op.foldSelf, Filters.inWorld_start ((lockstep_filters l).foldSelf steps xs) op]
  rfl

end Reports

/-- The level of the collector has no influence on the call of an operation, whatever its traces and
folds: it ends in the same way and leaves the same operation. At each level the log is the log of the
call told to a collector that keeps everything, without the events above the level, in the same order,
also where the call stops. -/
theorem call_ignores_level (set : Setting) (op : Op) (xs : List Value) :
    let told := fun l => op.call { set with level := l } xs
    let events := fun l => (told l).log.filterMap Entry.event?
    (∀ l l', (told l).outcome = (told l').outcome ∧ (told l).op = (told l').op) ∧
    (∀ l, (told l).log = (told .trace).log.filter l.keepsEntry) ∧
    (∀ l, events l = (events .trace).filter l.keeps) ∧
    (∀ (l : Level) (label operation : String),
      l.keeps (.invoking label operation) = true ↔ l = .debug ∨ l = .trace) ∧
    ∀ (l : Level) (label : String), l.keeps (.returned label) = true ↔ l = .trace := by
  intro told events
  have shown : ∀ l, told l = (told .trace).upTo l := fun l => call_upTo l set op xs
  refine ⟨?_, ?_, ?_, Level.keeps_invoking_iff, Level.keeps_returned_iff⟩
  · intro l l'
    rw [shown l, shown l']
    exact ⟨rfl, rfl⟩
  · intro l
    rw [shown l]
    rfl
  · intro l
    have log : (told l).log = (told .trace).log.filter l.keepsEntry := by
      rw [shown l]
      rfl
    simp only [events, log, Level.events_filter]

theorem traceCall_upTo (t : TraceTarget) (label : Value) (l : Level) (xs : List Value) :
    traceCall t label l xs =
      ((traceCall t label .trace xs).1, (traceCall t label .trace xs).2.filter l.keeps) := by
  have shown : (t.op label).call (typedSetting l) xs =
      ((t.op label).call (typedSetting .trace) xs).upTo l :=
    call_upTo l (typedSetting l) (t.op label) xs
  unfold traceCall
  dsimp only
  split
  · simp only [shown, Report.upTo, Level.events_filter]
  · rfl

/-! ### Sessions -/

/-- Logs are all that is seen of the level in the answers. -/
def ScriptAnswer.upTo (l : Level) : ScriptAnswer → ScriptAnswer
  | .ran outcome log => .ran outcome (log.filter l.keepsEntry)
  | answer => answer

/-- The registers are the same after a step, whatever the collector keeps. -/
theorem run?_upTo (l : Level) (set : Setting) (rs : Registers Object) (s : ScriptStep) :
    s.run? { set with level := l } rs =
      (s.run? { set with level := .trace } rs).map fun (answer, rs') => (answer.upTo l, rs') := by
  cases s <;>
    simp only [ScriptStep.run?, call_upTo l, fold_upTo l, foldSelf_upTo l, Option.map_eq_bind,
      Option.bind_eq_bind, Option.bind_assoc] <;>
    rfl

/-- A script has the same answers. -/
theorem runAll?_upTo (l : Level) (set : Setting) (rs : Registers Object) (steps : List ScriptStep) :
    ScriptStep.runAll? { set with level := l } rs steps =
      (ScriptStep.runAll? { set with level := .trace } rs steps).map
        (List.map (ScriptAnswer.upTo l)) := by
  induction steps generalizing rs with
  | nil => rfl
  | cons s ss ih =>
    simp only [ScriptStep.runAll?, run?_upTo l, ih]
    cases ScriptStep.run? { set with level := .trace } rs s with
    | none => rfl
    | some next =>
      simp only [Option.map_some, Option.bind_eq_bind, Option.bind_some, Option.map_bind]
      cases ScriptStep.runAll? { set with level := .trace } next.2 ss <;> rfl

end Callable
