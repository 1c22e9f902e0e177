import Callable.Proofs.Counting
import Callable.Session.Ledger
import Mathlib.Data.List.Forall2
set_option autoImplicit false

/-!
Objects do not share counters. In a session from empty registers all counters show what their accounts
say (`balanced_session`): a call counts in the object that is called and nowhere else, and what is
copied, applied or moved starts from the counts that it had. What is not replaced in its register
keeps its seeds and the data of a decoration (`seeds_stay`, `decoration_stays`).
-/

namespace Callable

variable {rs rs' : Registers Object} {ledger : Ledger}

/-! ### Readings -/

def readings (as : List Account) : List Nat := as.map Account.reading

@[simp] theorem readings_append (as bs : List Account) :
    readings (as ++ bs) = readings as ++ readings bs :=
  List.map_append

@[simp] theorem readings_opened (cs : List Nat) : readings (cs.map Account.opened) = cs := by
  simp [readings, Function.comp_def]

@[simp] theorem readings_copiesOf (ledger : Ledger) (n : String) :
    readings (ledger.copiesOf n) = readings (ledger.of n) := by
  simp [readings, Ledger.copiesOf, Function.comp_def]

theorem readings_drop (as : List Account) (n : Nat) : readings (as.drop n) = (readings as).drop n :=
  List.map_drop

@[simp] theorem length_readings (as : List Account) : (readings as).length = as.length :=
  List.length_map _

theorem readings_after (as : List Account) (log : List Entry) :
    readings (as.mapIdx fun place a => a.after (runsAt place log)) =
      countedUp (readings as) log := by
  refine List.ext_getElem? fun p => ?_
  simp [readings, countedUp, Function.comp_def]

/-! ### Balanced books -/

/-- The counters in the registers show what the accounts say. -/
def Balanced (rs : Registers Object) (ledger : Ledger) : Prop :=
  ∀ n, (rs.get? n).map Object.counters = (ledger.get? n).map readings

namespace Balanced

theorem counters (books : Balanced rs ledger) {n : String} {o : Object} (held : rs.get? n = some o) :
    o.counters = readings (ledger.of n) := by
  have shown := books n
  rw [held] at shown
  obtain ⟨as, kept, same⟩ := Option.map_eq_some_iff.1 shown.symm
  rw [Ledger.of, kept]
  exact same.symm

theorem set (books : Balanced rs ledger) (n : String) {o : Object} {as : List Account}
    (shown : o.counters = readings as) : Balanced (rs.set n o) (ledger.set n as) := by
  intro m
  rw [Registers.get?_set, Registers.get?_set]
  split
  · exact congrArg some shown
  · exact books m

theorem clear (books : Balanced rs ledger) (n : String) : Balanced (rs.clear n) (ledger.clear n) := by
  intro m
  rw [Registers.get?_clear, Registers.get?_clear]
  split
  · rfl
  · exact books m

theorem store (books : Balanced rs ledger) (n? : Option String) {o : Object} {as : List Account}
    (shown : o.counters = readings as) : Balanced (rs.store n? o) (ledger.store n? as) := by
  cases n? with
  | none => exact books
  | some n => exact books.set n shown

end Balanced

theorem counters_of_eval? (books : Balanced rs ledger) {e : OpExpr} {f : Op}
    (made : e.eval? rs = some f) : f.counters = readings (e.accounts ledger) := by
  induction e generalizing f with
  | leaf l =>
    cases made
    rfl
  | compress e ih =>
    obtain ⟨g, inner, rfl⟩ := Option.map_eq_some_iff.1 made
    exact (ih inner : g.counters = _)
  | seeded e s ih =>
    obtain ⟨g, inner, rfl⟩ := Option.map_eq_some_iff.1 made
    exact (ih inner : g.counters = _)
  | decorated d t e ih =>
    obtain ⟨g, inner, rfl⟩ := Option.map_eq_some_iff.1 made
    simp only [Op.counters, OpExpr.accounts, readings_append, readings_opened, ih inner]
  | register n =>
    obtain ⟨o, held, isOp⟩ := Option.bind_eq_some_iff.1 made
    obtain rfl := Object.op?_eq_some_iff.1 isOp
    rw [OpExpr.accounts, readings_copiesOf]
    exact books.counters held

/-- What a source makes has the counters of its accounts, and the books of what is left are
balanced. -/
theorem balanced_source (books : Balanced rs ledger) {source : ObjectSource} {made : Object}
    (makes : source.Makes rs made rs') :
    made.counters = readings (source.accounts ledger made).1 ∧
      Balanced rs' (source.accounts ledger made).2 := by
  cases makes with
  | make given => exact ⟨counters_of_eval? books given, books⟩
  | decorate d => exact ⟨rfl, books⟩
  | withData held bound =>
    refine ⟨?_, books⟩
    rw [Object.counters_of_withData? bound, ObjectSource.accounts, readings_opened]
  | apply given held applied =>
    refine ⟨?_, books⟩
    rw [ObjectSource.accounts, readings_append, readings_copiesOf, ← books.counters held,
      ← counters_of_eval? books given]
    exact Object.counters_of_withTarget? applied
  | intoDecorated given held applied =>
    refine ⟨?_, books.clear _⟩
    rw [ObjectSource.accounts, readings_append, ← books.counters held,
      ← counters_of_eval? books given]
    exact Object.counters_of_withTarget? applied
  | operation held folded =>
    refine ⟨?_, books⟩
    rw [ObjectSource.accounts, readings_copiesOf, ← books.counters held]
    exact Object.counters_of_operation? folded
  | target held inside =>
    refine ⟨?_, books⟩
    -- The books have as many accounts as there are counters, so that the same ones are left out.
    rw [ObjectSource.accounts, readings_drop, readings_copiesOf, ← length_readings,
      ← books.counters held]
    exact Object.counters_of_target? inside
  | copy held =>
    refine ⟨?_, books⟩
    rw [ObjectSource.accounts, readings_copiesOf]
    exact books.counters held
  | seeded held seeded =>
    refine ⟨?_, books.clear _⟩
    rw [ObjectSource.accounts, ← books.counters held]
    exact Object.counters_of_withSeed? seeded

/-- A step keeps the books balanced. -/
theorem balanced_step {set : Setting} (books : Balanced rs ledger) {s : ScriptStep}
    {answer : ScriptAnswer} (takes : s.Takes set rs answer rs') :
    Balanced rs' (s.book ledger answer) := by
  cases takes with
  | object as? makes =>
    obtain ⟨shown, left⟩ := balanced_source books makes
    exact left.store as? shown
  | intoParts held apart => exact books.clear _
  | eq first second => exact books
  | call xs held isOp =>
    obtain rfl := Object.op?_eq_some_iff.1 isOp
    refine books.set _ ?_
    rw [readings_after, ← books.counters held]
    exact counters_call set _ xs
  | fold s xs given => exact books
  | foldSelf xs given => exact books

theorem balanced_session {set : Setting} {history : List (ScriptStep × ScriptAnswer)}
    (session : Session set rs history rs') (books : Balanced rs ledger) :
    Balanced rs' (ledger.book history) := by
  induction session generalizing ledger with
  | nil rs => exact books
  | cons s ran rest ih => exact ih (balanced_step books (ScriptStep.takes_iff.2 ran))

/-! ### What stays in its register -/

/-- A source takes nothing but what it names. -/
theorem get?_of_makes {source : ObjectSource} {made : Object} (makes : source.Makes rs made rs')
    {n : String} (stays : n ∉ source.takes) : rs'.get? n = rs.get? n := by
  cases makes with
  | intoDecorated given held applied => exact rs.get?_clear_of_ne (List.ne_of_not_mem_cons stays)
  | seeded held seeded => exact rs.get?_clear_of_ne (List.ne_of_not_mem_cons stays)
  | _ => rfl

/-- Only a call changes what stays in its register, and only an operation can be called. -/
theorem get?_of_takes {set : Setting} {s : ScriptStep} {answer : ScriptAnswer}
    (takes : s.Takes set rs answer rs') {n : String} (stays : n ∉ s.replaces) :
    rs'.get? n = rs.get? n ∨
      ∃ f xs, rs.get? n = some (.op f) ∧ rs'.get? n = some (.op (f.call set xs).op) := by
  cases takes with
  | @object source made rest as? makes =>
    have stored : n ∉ as?.toList := fun h => stays (List.mem_append_left _ h)
    have taken : n ∉ source.takes := fun h => stays (List.mem_append_right _ h)
    left
    rw [rest.get?_store_of_not_mem stored, get?_of_makes makes taken]
  | intoParts held apart => exact .inl (rs.get?_clear_of_ne (List.ne_of_not_mem_cons stays))
  | eq first second => exact .inl rfl
  | @call of o f xs held isOp =>
    by_cases here : n = of
    · obtain rfl := Object.op?_eq_some_iff.1 isOp
      subst here
      exact .inr ⟨f, xs, held, by rw [Registers.get?_set, if_pos rfl]⟩
    · exact .inl (rs.get?_set_of_ne here _)
  | fold s xs given => exact .inl rfl
  | foldSelf xs given => exact .inl rfl

section Stays

variable {set : Setting} {history : List (ScriptStep × ScriptAnswer)} {n : String}

/-- Nothing changes a decoration, neither its applications nor the calls of what they make. -/
theorem decoration_stays (session : Session set rs history rs')
    (stays : ∀ e ∈ history, n ∉ e.1.replaces) {d : Decorator} {t : Datum}
    (held : rs.get? n = some (.decoration d t)) : rs'.get? n = some (.decoration d t) := by
  induction session with
  | nil rs => exact held
  | cons s ran rest ih =>
    obtain ⟨first, later⟩ := List.forall_mem_cons.1 stays
    refine ih later ?_
    rcases get?_of_takes (ScriptStep.takes_iff.2 ran) first with same | ⟨f, xs, called, -⟩
    · rw [same, held]
    · cases held.symm.trans called

/-- Calls leave the seeds of an operation as they are. -/
theorem seeds_stay (session : Session set rs history rs')
    (stays : ∀ e ∈ history, n ∉ e.1.replaces) {f : Op} (held : rs.get? n = some (.op f)) :
    ∃ g, rs'.get? n = some (.op g) ∧ g.seeds = f.seeds := by
  induction session generalizing f with
  | nil rs => exact ⟨f, held, rfl⟩
  | cons s ran rest ih =>
    obtain ⟨first, later⟩ := List.forall_mem_cons.1 stays
    rcases get?_of_takes (ScriptStep.takes_iff.2 ran) first with same | ⟨g, xs, called, left⟩
    · exact ih later (same.trans held)
    · cases held.symm.trans called
      obtain ⟨h, now, seeds⟩ := ih later left
      exact ⟨h, now, seeds.trans (Op.seeds_load _ 0 f)⟩

end Stays

theorem exact_readings (as : List Account) : List.Forall₂ Account.Exact (readings as) as :=
  List.forall₂_map_left_iff.2 (List.forall₂_same.2 fun a _ => a.exact_reading)

/-- Objects do not share their data. After any session from empty registers each counter of each
object shows the count that it was created or copied with and the calls since then at its place in
that very object, if it has not got to the largest count. In any session a decoration that is not
replaced stays exactly as it is, and so do the seeds of an operation. -/
theorem counters_independent {set : Setting} {before after : List (ScriptStep × ScriptAnswer)}
    (first : Session set [] before rs) (later : Session set rs after rs') :
    (∀ n o, rs'.get? n = some o →
      List.Forall₂ Account.Exact o.counters ((Ledger.book [] (before ++ after)).of n)) ∧
    ∀ n, (∀ e ∈ after, n ∉ e.1.replaces) →
      (∀ d t, rs.get? n = some (.decoration d t) → rs'.get? n = some (.decoration d t)) ∧
      ∀ f, rs.get? n = some (.op f) → ∃ g, rs'.get? n = some (.op g) ∧ g.seeds = f.seeds := by
  refine ⟨?_, fun n stays => ⟨?_, ?_⟩⟩
  · intro n o held
    have books : Balanced rs' (Ledger.book [] (before ++ after)) :=
      balanced_session (first.append later) fun _ => rfl
    rw [books.counters held]
    exact exact_readings _
  · exact fun d t held => decoration_stays later stays held
  · exact fun f held => seeds_stay later stays held

theorem tallies_counted_apart :
    ∃ before after rs rs',
      Session (scriptSetting .off) [] before rs ∧ Session (scriptSetting .off) rs after rs' ∧
      after.map Prod.fst =
        [.call "first" [.bool true], .call "first" [.bool true], .call "second" [.bool true],
          .call "pairs" [.bool true, .bool true]] ∧
      (∃ o, rs'.get? "first" = some o ∧ o.counters = [2] ∧
        List.Forall₂ Account.Exact o.counters [⟨0, 2⟩]) ∧
      (∃ o, rs'.get? "second" = some o ∧ o.counters = [1] ∧
        List.Forall₂ Account.Exact o.counters [⟨0, 1⟩]) ∧
      (∃ o, rs'.get? "pairs" = some o ∧ o.counters = [9] ∧
        List.Forall₂ Account.Exact o.counters [⟨7, 2⟩]) ∧
      rs'.get? "counting" = some (.decoration .tally (.counter 0)) ∧
      ∃ g, rs'.get? "pairs" = some (.op g) ∧ g.seeds = [.bool false] := by
  let counting := Object.decoration .tally (.counter 0)
  let first := Object.op (.decorated .tally (.counter 0) (.leaf .identity))
  let pairs := Object.op (.seeded (.decorated .tally (.counter 7) (.leaf .nest)) (.bool false))
  let rs : Registers Object := [("pairs", some pairs), ("second", some first),
    ("first", some first), ("counting", some counting), ("tally", some (.decorate .tally))]
  have made : Session (scriptSetting .off) [] _ rs :=
    .cons (.object (some "tally") (.decorate .tally)) rfl <|
    .cons (.object (some "counting") (.withData "tally" (.counter 0))) rfl <|
    .cons (.object (some "first") (.apply "counting" (.leaf .identity))) rfl <|
    .cons (.object (some "second") (.apply "counting" (.leaf .identity))) rfl <|
    .cons (.object (some "pairs")
      (.make (.seeded (.decorated .tally (.counter 7) (.leaf .nest)) (.bool false)))) rfl <|
    .nil _
  have called : Session (scriptSetting .off) rs _ _ :=
    .cons (.call "first" [.bool true]) rfl <|
    .cons (.call "first" [.bool true]) rfl <|
    .cons (.call "second" [.bool true]) rfl <|
    .cons (.call "pairs" [.bool true, .bool true]) rfl <|
    .nil _
  obtain ⟨counted, stays⟩ := counters_independent made called
  refine ⟨_, _, rs, _, made, called, rfl, ⟨_, rfl, rfl, counted "first" _ rfl⟩,
    ⟨_, rfl, rfl, counted "second" _ rfl⟩, ⟨_, rfl, rfl, counted "pairs" _ rfl⟩, ?_, ?_⟩
  · exact (stays "counting" (by simp [ScriptStep.replaces])).1 _ _ rfl
  · exact (stays "pairs" (by simp [ScriptStep.replaces])).2 _ rfl

end Callable
