import Callable.Run.Nest
set_option autoImplicit false

/-!
Two runs side by side. A relation that sequencing keeps is kept by folds and by decorators
(`Sequential`). If it also holds between every effect and itself, it holds between two runs of one
operation, for two collectors, if it holds between what the two collectors do with an event
(`Lockstep.invoke`).
-/

namespace Callable

open Run

structure Sequential (R : ∀ {α : Type}, Run α → Run α → Prop) : Prop where
  pure {α : Type} (a : α) : R (pure a) (pure a)
  stop {α : Type} (s : Stop) : R (Run.stop s : Run α) (Run.stop s)
  bind {α β : Type} {x y : Run α} {f g : α → Run β} (first : R x y)
    (next : ∀ a, R (f a) (g a)) : R (x >>= f) (y >>= g)

namespace Sequential

variable {R : ∀ {α : Type}, Run α → Run α → Prop} (rel : Sequential R)

include rel

theorem ofExcept {α : Type} (e : Except Stop α) : R (Run.ofExcept e) (Run.ofExcept e) := by
  cases e with
  | error s => exact rel.stop s
  | ok a => exact rel.pure a

/-- What is told of the start of a decorator, if anything is. -/
theorem announce (place : Nat) (d : Decorator) (data : Datum) (xs : List Value)
    (entry : R (write (.decorating place d data xs)) (write (.decorating place d data xs))) :
    R (d.announce place data xs) (d.announce place data xs) := by
  unfold Decorator.announce
  split
  · exact rel.pure _
  · exact entry

theorem leaf (l : Leaf) (xs : List Value)
    (called : ∀ v, R (write (.called l xs v)) (write (.called l xs v))) :
    R (l.invoke xs) (l.invoke xs) :=
  (rel.bind (rel.ofExcept _)) fun v => rel.bind (called v) fun _ => rel.pure v

section Folds

variable {step step' : Value → Value → Run Value} (steps : ∀ s x, R (step s x) (step' s x))

include steps

theorem foldArgs (s : Value) (xs : List Value) :
    R (Callable.foldArgs step s xs) (Callable.foldArgs step' s xs) := by
  unfold Callable.foldArgs
  split
  · exact foldFrom_related rel.pure (fun _ _ _ _ => rel.bind) steps s xs
  · exact rel.stop _

theorem foldSelf (xs : List Value) :
    R (Callable.foldSelf step xs) (Callable.foldSelf step' xs) := by
  cases xs with
  | nil => exact rel.stop _
  | cons x xs =>
    by_cases few : xs.length < foldLimit
    · simp only [foldSelf_cons, if_pos few]
      exact foldFrom_related rel.pure (fun _ _ _ _ => rel.bind) steps x xs
    · simp only [foldSelf_cons, if_neg few]
      exact rel.stop _

end Folds

section Decorators

variable {target target' : List Value → Run Value} (same : ∀ xs, R (target xs) (target' xs))

include same

theorem combine (o : Overflow) (op : Int → Int → Int) (n : Int) (xs : List Value) :
    R (Decorator.combine target o op n xs) (Decorator.combine target' o op n xs) := by
  refine rel.bind (same xs) fun v => ?_
  split
  · exact rel.ofExcept _
  · exact rel.stop _

theorem prependTo (s : String) (xs : List Value) :
    R (Decorator.prependTo target s xs) (Decorator.prependTo target' s xs) := by
  refine rel.bind (same xs) fun v => ?_
  split
  · exact rel.pure _
  · exact rel.stop _

theorem callTwice (xs : List Value) :
    R (Decorator.callTwice target xs) (Decorator.callTwice target' xs) :=
  rel.bind (same xs) fun _ => rel.bind (same xs) fun _ => rel.pure _

/-- The calls of decorators, where those that count are in the relation. -/
theorem call (place : Nat) (d : Decorator) (data : Datum) (xs : List Value)
    (counting : ∀ n, d = .tally → data = .counter n →
      R (Decorator.countCall target place n xs) (Decorator.countCall target' place n xs)) :
    R (Decorator.call target place d data xs) (Decorator.call target' place d data xs) := by
  unfold Decorator.call
  split
  · exact same xs
  · exact counting _ rfl rfl
  · exact rel.prependTo same _ xs
  · exact rel.combine same _ _ _ xs
  · exact rel.combine same _ _ _ xs
  · exact rel.pure _
  · exact rel.callTwice same xs
  · exact same xs.reverse
  · exact same _
  · exact same _
  · exact rel.pure _
  · split
    · exact rel.pure _
    · exact same _
  · exact rel.bind (same xs) fun v => rel.pure _
  · exact rel.stop _

theorem traceCall {set set' : Setting} (events : ∀ e, R (emit set.level e) (emit set'.level e))
    (label operation : String) (xs : List Value) :
    R (Decorator.traceCall target set label operation xs)
      (Decorator.traceCall target' set' label operation xs) :=
  rel.bind (events _) fun _ => rel.bind (same xs) fun v => rel.bind (events _) fun _ => rel.pure v

theorem decorator (set : Setting) (level : Level) {d : Decorator}
    (told : d ≠ .trace ∨ ∀ e, R (emit set.level e) (emit level e)) (place : Nat)
    (operation : String) (data : Datum) (xs : List Value)
    (counting : ∀ n, d = .tally → data = .counter n →
      R (Decorator.countCall target place n xs) (Decorator.countCall target' place n xs)) :
    R (d.invoke set place operation data target xs)
      (d.invoke { set with level := level } place operation data target' xs) := by
  unfold Decorator.invoke
  dsimp only
  split
  -- Only a trace with a label emits events.
  · split
    · rcases told with plain | events
      · exact absurd rfl plain
      · exact rel.traceCall same events _ _ xs
    · exact rel.stop _
  · exact rel.stop _
  · exact rel.call same place _ _ xs counting

end Decorators

end Sequential

structure Lockstep (R : ∀ {α : Type}, Run α → Run α → Prop) : Prop extends Sequential R where
  counters : R Run.counters Run.counters
  setCounter (place n : Nat) : R (Run.setCounter place n) (Run.setCounter place n)
  called (l : Leaf) (xs : List Value) (v : Value) :
    R (write (.called l xs v)) (write (.called l xs v))
  decorating (place : Nat) (d : Decorator) (data : Datum) (xs : List Value) :
    R (write (.decorating place d data xs)) (write (.decorating place d data xs))

namespace Lockstep

variable {R : ∀ {α : Type}, Run α → Run α → Prop} (rel : Lockstep R)

include rel

section Decorators

variable {target target' : List Value → Run Value} (same : ∀ xs, R (target xs) (target' xs))

include same

theorem countCall (place n : Nat) (xs : List Value) :
    R (Decorator.countCall target place n xs) (Decorator.countCall target' place n xs) := by
  rw [Decorator.countCall_eq, Decorator.countCall_eq]
  refine rel.bind (rel.ofExcept _) fun i => rel.bind (rel.setCounter place (n + 1)) fun _ => ?_
  exact rel.bind (same xs) fun v => rel.pure _

theorem decorator (set : Setting) (level : Level) {d : Decorator}
    (told : d ≠ .trace ∨ ∀ e, R (emit set.level e) (emit level e)) (place : Nat)
    (operation : String) (data : Datum) (xs : List Value) :
    R (d.invoke set place operation data target xs)
      (d.invoke { set with level := level } place operation data target' xs) :=
  rel.toSequential.decorator same set level told place operation data xs
    fun n _ _ => rel.countCall same place n xs

end Decorators

/-- Two runs of an operation, told to two collectors. What the collectors do is of no importance if
there are no traces in the operation. -/
theorem invoke (set : Setting) (level : Level) (op : Op)
    (told : op.isPlain = true ∨ ∀ e, R (emit set.level e) (emit level e)) (place : Nat)
    (xs : List Value) :
    R (op.invoke set place xs) (op.invoke { set with level := level } place xs) := by
  induction op generalizing place xs with
  | leaf l => exact rel.leaf l xs (rel.called l xs)
  | compress f ih => exact rel.foldSelf (fun s x => ih told place [s, x]) xs
  | seeded f z ih => exact rel.foldArgs (fun s x => ih told place [s, x]) z xs
  | decorated d data f ih =>
    have inner : f.isPlain = true ∨ ∀ e, R (emit set.level e) (emit level e) :=
      told.imp_left fun plain => (Bool.and_eq_true_iff.1 plain).2
    have outer : d ≠ .trace ∨ ∀ e, R (emit set.level e) (emit level e) :=
      told.imp_left fun plain => of_decide_eq_true (Bool.and_eq_true_iff.1 plain).1
    unfold Op.invoke
    split
    · refine rel.bind rel.counters fun cs => ?_
      refine rel.bind (rel.announce place d _ xs (rel.decorating place d _ xs)) fun _ => ?_
      exact rel.decorator (fun xs => ih inner _ xs) set level outer place _ _ xs
    · exact rel.stop _

end Lockstep

end Callable
