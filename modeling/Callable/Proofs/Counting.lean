import Callable.Proofs.Lockstep
import Callable.Run.Count
set_option autoImplicit false

/-!
Runs count what they log. Whatever a run does, each counter shows at its end what it showed at the
start and the counting calls that were logged at its place in between (`counts_invoke`), and so does
each counter of an operation after a call (`counters_call`).
-/

namespace Callable

open Run

/-- Whatever the run logs, it leaves the counters as the counting calls of its log make them. -/
def Counts {α : Type} (x : Run α) : Prop :=
  ∀ w, ∃ log, (inWorld w x).2.log = w.log ++ log ∧
    (inWorld w x).2.counters = countedUp w.counters log

/-- A run that writes nothing and counts nothing. -/
theorem counts_of_inWorld {α : Type} {x : Run α} (still : ∀ w, (inWorld w x).2 = w) : Counts x := by
  intro w
  rw [still w]
  exact ⟨[], (List.append_nil _).symm, (countedUp_nil _).symm⟩

theorem counts_write {e : Entry} (quiet : ∀ place, e.countsAt place = false) :
    Counts (write e) := by
  intro w
  have none : ∀ place, runsAt place [e] = 0 := fun place => by simp [runsAt, quiet place]
  exact ⟨[e], rfl, (countedUp_eq_self none _).symm⟩

theorem counts_emit (l : Level) (e : Event) : Counts (emit l e) := by
  unfold emit
  split
  · exact counts_write fun _ => rfl
  · exact counts_of_inWorld fun _ => rfl

theorem Counts.bind {α β : Type} {x : Run α} {f : α → Run β} (first : Counts x)
    (next : ∀ a, Counts (f a)) : Counts (x >>= f) := by
  intro w
  obtain ⟨log, written, counted⟩ := first w
  rw [inWorld_bind]
  revert written counted
  cases inWorld w x with
  | mk e w' =>
    intro written counted
    cases e with
    | error s => exact ⟨log, written, counted⟩
    | ok a =>
      obtain ⟨log', written', counted'⟩ := next a w'
      refine ⟨log ++ log', ?_, ?_⟩
      · rw [written', written, List.append_assoc]
      · rw [counted', counted, countedUp_append]

theorem sequential_counts : Sequential fun x _ => Counts x where
  pure _ := counts_of_inWorld fun _ => rfl
  stop _ := counts_of_inWorld fun _ => rfl
  bind := Counts.bind

/-! ### Counting calls -/

theorem fits_count_iff (n : Nat) :
    (IntKind.u32.lo ≤ (n : Int) + 1 ∧ (n : Int) + 1 ≤ IntKind.u32.hi) ↔ n < countLimit := by
  have lo : IntKind.u32.lo = 0 := by decide
  have hi : IntKind.u32.hi = 4294967295 := by decide
  rw [lo, hi]
  unfold countLimit
  omega

/-- A counting call up to the call of its target. The log tells of the call before the counter shows
it, so that only the whole of it counts what it logs. -/
def tick (place n : Nat) (xs : List Value) : Run Integer := do
  let n := (← counters)[place]?.getD n
  write (.decorating place .tally (.counter n) xs)
  let i ← Run.ofExcept ((Integer.checked .add .u32 (n + 1)).mapError .overflow)
  setCounter place (n + 1)
  return i

theorem Decorator.call_tally (target : List Value → Run Value) (place n : Nat) (xs : List Value) :
    Decorator.call target place .tally (.counter n) xs = countCall target place n xs := by
  delta Decorator.call
  rfl

theorem invoke_tally {set : Setting} {n : Nat} {f : Op} {place : Nat} {xs : List Value}
    (few : xs.length ≤ decoratedLimit) :
    (Op.decorated .tally (.counter n) f).invoke set place xs = do
      let i ← tick place n xs
      return .pair (.int i) (← f.invoke set (place + 1) xs) := by
  have told : Decorator.tally ≠ .trace := by decide
  simp only [Op.invoke, if_pos few, Decorator.announce_of_ne told, Decorator.invoke,
    Decorator.call_tally, Decorator.countCall_eq, tick, Datum.load, Datum.counters,
    List.length_singleton, bind_assoc, pure_bind]

/-- A counter stays as it is if what it shows is written to it. -/
theorem set_getD_self (cs : List Nat) (place n : Nat) : cs.set place (cs[place]?.getD n) = cs := by
  by_cases within : place < cs.length
  · rw [List.getElem?_eq_getElem within, Option.getD_some, List.set_getElem_self]
  · exact List.set_eq_of_length_le (Nat.le_of_not_lt within)

theorem counts_tick (place n : Nat) (xs : List Value) : Counts (tick place n xs) := by
  intro w
  refine ⟨[.decorating place .tally (.counter (w.counters[place]?.getD n)) xs], ?_⟩
  rw [countedUp_tally _ _ n]
  unfold tick
  rw [inWorld_bind_of_ok (inWorld_counters w), inWorld_bind_of_ok (inWorld_write _ _)]
  by_cases below : w.counters[place]?.getD n < countLimit
  · obtain ⟨i, checked⟩ := Integer.exists_checked (o := .add) ((fits_count_iff _).2 below)
    rw [checked, countUp_one_of_lt below]
    exact ⟨rfl, rfl⟩
  · rw [Integer.checked_eq_error fun fits => below ((fits_count_iff _).1 fits),
      countUp_one_of_le (Nat.le_of_not_lt below), set_getD_self]
    exact ⟨rfl, rfl⟩

/-! ### Operations -/

/-- Only a tally of a counter counts. -/
theorem countsAt_eq_false {d : Decorator} {data : Datum}
    (other : ¬∃ n, d = .tally ∧ data = .counter n) (place p : Nat) (xs : List Value) :
    (Entry.decorating place d data xs).countsAt p = false := by
  cases data with
  | value v => cases d <;> rfl
  | counter n =>
    cases d with
    | tally => exact absurd ⟨n, rfl, rfl⟩ other
    | _ => rfl

theorem counts_decorator (set : Setting) {d : Decorator} {data : Datum}
    (other : ¬∃ n, d = .tally ∧ data = .counter n) {target : List Value → Run Value}
    (counts : ∀ xs, Counts (target xs)) (place : Nat) (operation : String) (xs : List Value) :
    Counts (d.invoke set place operation data target xs) := by
  refine @Sequential.decorator _ sequential_counts target target counts set set.level d
    (.inr (counts_emit _)) place operation data xs ?_
  exact fun n tally counter => absurd ⟨n, tally, counter⟩ other

theorem counts_invoke (set : Setting) (op : Op) (place : Nat) (xs : List Value) :
    Counts (op.invoke set place xs) := by
  induction op generalizing place xs with
  | leaf l => exact sequential_counts.leaf l xs fun v => counts_write fun _ => rfl
  | compress f ih =>
    let step := fun s x => f.invoke set place [s, x]
    exact @Sequential.foldSelf _ sequential_counts step step (fun s x => ih place [s, x]) xs
  | seeded f z ih =>
    let step := fun s x => f.invoke set place [s, x]
    exact @Sequential.foldArgs _ sequential_counts step step (fun s x => ih place [s, x]) z xs
  | decorated d data f ih =>
    by_cases few : xs.length ≤ decoratedLimit
    -- The data is read from the counters first, but only a tally of a counter writes to them.
    · by_cases counting : ∃ n, d = .tally ∧ data = .counter n
      · obtain ⟨n, rfl, rfl⟩ := counting
        rw [invoke_tally few]
        refine (counts_tick place n xs).bind fun i => ?_
        exact (ih (place + 1) xs).bind fun v => sequential_counts.pure _
      · simp only [Op.invoke, if_pos few]
        refine Counts.bind (counts_of_inWorld fun _ => rfl) fun cs => ?_
        have other : ¬∃ n, d = .tally ∧ data.load cs place = .counter n := by
          rintro ⟨n, tally, loaded⟩
          cases data with
          | value v => cases loaded
          | counter m => exact counting ⟨m, tally, rfl⟩
        refine Counts.bind ?_ fun _ => counts_decorator set other (fun xs => ih _ xs) place _ xs
        exact sequential_counts.announce place d _ xs
          (counts_write fun p => countsAt_eq_false other place p xs)
    · simp only [Op.invoke, if_neg few]
      exact sequential_counts.stop _

/-- After a call the counters of an operation show the calls of its log. -/
theorem counters_call (set : Setting) (op : Op) (xs : List Value) :
    (op.call set xs).op.counters = countedUp op.counters (op.call set xs).log := by
  obtain ⟨log, written, counted⟩ := counts_invoke set op 0 xs op.start
  let left := (inWorld op.start (op.invoke set 0 xs)).2.counters
  have all : (op.call set xs).log = log := written
  have shown : left = countedUp op.counters log := counted
  have length : left.length = op.counters.length := by rw [shown, length_countedUp]
  have fits : 0 + op.counters.length ≤ left.length := by omega
  calc (op.call set xs).op.counters
      = (left.drop 0).take op.counters.length := Op.counters_load left 0 op fits
    _ = left := by rw [List.drop_zero, ← length, List.take_length]
    _ = countedUp op.counters (op.call set xs).log := by rw [shown, all]

end Callable
