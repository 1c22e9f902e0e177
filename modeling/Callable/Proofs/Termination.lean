import Callable.Resolution.Result
import Mathlib.Data.Nat.Find
set_option autoImplicit false

/-!
How deep the search for an answer goes. A rule asks further questions, so rows of questions follow
from a question, each asked for the answer to the one before. A depth is enough just when no row is as
long as that (`resolve_eq_undecided_iff`). The rows from a question are shorter than its cost, hence
every search ends (`resolution_ends`), though no depth is enough for all of them (`exists_undecided`).
-/

namespace Callable

open Ty

/-! ### Questions -/

/-- The questions that a rule asks. It goes on to the next one only with an accepted result. -/
inductive Rule.Asks : Rule → Ty → List Ty → Prop
  | first (op : Ty) (xs : List Ty) (next : Ty → Rule) : Asks (.ask op xs next) op xs
  | later {op op' r : Ty} {xs args : List Ty} {next : Ty → Rule}
      (accepted : Callable.result? op xs = some r) (asked : Asks (next r) op' args) :
      Asks (.ask op xs next) op' args

/-- So many questions follow in a row from this one, each asked for the answer to the one before. -/
inductive AsksInTurn : Nat → Ty → List Ty → Prop
  | done (op : Ty) (args : List Ty) : AsksInTurn 0 op args
  | next {n : Nat} {op op' : Ty} {args args' : List Ty} (asked : (op.rule args).Asks op' args')
      (rest : AsksInTurn n op' args') : AsksInTurn (n + 1) op args

/-! ### Depths that are not enough -/

theorem verdict_of_asks {n : Nat} {rule : Rule} {op : Ty} {args : List Ty}
    (asked : rule.Asks op args) (unanswered : resolve n op args = .undecided) :
    rule.verdict (resolve n) = .undecided := by
  induction asked with
  | first op xs next => exact Verdict.andThen_eq_undecided_iff.2 (.inl unanswered)
  | @later op op' r xs args next accepted _ ih =>
    rw [Rule.verdict, Verdict.andThen_eq_undecided_iff]
    by_cases step : resolve n op xs = .undecided
    · exact .inl step
    · rw [result?_of_resolve step, accepted]
      exact .inr ⟨r, rfl, ih unanswered⟩

theorem exists_asks_of_verdict {n : Nat} {rule : Rule}
    (h : rule.verdict (resolve n) = .undecided) :
    ∃ op args, rule.Asks op args ∧ resolve n op args = .undecided := by
  induction rule with
  | reject => cases h
  | accept r => cases h
  | ask op xs next ih =>
    obtain unanswered | ⟨r, answer, rest⟩ := Verdict.andThen_eq_undecided_iff.1 h
    · exact ⟨op, xs, .first op xs next, unanswered⟩
    · obtain ⟨op', args, asked, unanswered⟩ := ih r rest
      exact ⟨op', args, .later (result?_eq_some answer) asked, unanswered⟩

theorem resolve_eq_undecided_iff {n : Nat} {op : Ty} {args : List Ty} :
    resolve n op args = .undecided ↔ AsksInTurn n op args := by
  induction n generalizing op args with
  | zero => exact ⟨fun _ => .done op args, fun _ => rfl⟩
  | succ n ih =>
    constructor
    · intro h
      obtain ⟨op', args', asked, unanswered⟩ := exists_asks_of_verdict h
      exact .next asked (ih.1 unanswered)
    · rintro (_ | ⟨asked, rest⟩)
      exact verdict_of_asks asked (ih.2 rest)

/-- No depth is enough for every question, for each fold of a fold asks one question more. -/
theorem exists_undecided (n : Nat) : ∃ op args, resolve n op args = .undecided := by
  have row : ∃ f, AsksInTurn n f [.i32, .i32] := by
    induction n with
    | zero => exact ⟨.i32, .done .i32 _⟩
    | succ n ih =>
      obtain ⟨f, row⟩ := ih
      exact ⟨.compress f, .next (.first f [.i32, .i32] _) row⟩
  obtain ⟨f, row⟩ := row
  exact ⟨f, [.i32, .i32], resolve_eq_undecided_iff.2 row⟩

/-! ### Depths that are enough -/

/-- The search for the answer to a question ends, however deep the operation and the arguments are
nested. There is a depth from which on all depths give the one answer, and below which none gives any:
it is the length that no row of questions from this one reaches, and at most the cost. -/
theorem resolution_ends (op : Ty) (args : List Ty) :
    ∃ n, n ≤ cost op args ∧ resolve n op args ≠ .undecided ∧
      (∀ k, resolve (n + k) op args = resolve n op args) ∧
      resolve n op args = .ofOption (result? op args) ∧
      (∀ m, resolve m op args = .undecided ↔ m < n) ∧
      ∀ m, AsksInTurn m op args ↔ m < n := by
  have enough : ∃ n, resolve n op args ≠ .undecided :=
    ⟨cost op args, resolve_ne_undecided (Nat.le_refl _)⟩
  have answered : resolve (Nat.find enough) op args ≠ .undecided := Nat.find_spec enough
  have stays (k : Nat) :
      resolve (Nat.find enough + k) op args = resolve (Nat.find enough) op args :=
    resolve_eq_of_le (Nat.le_add_right _ k) answered
  have undecided_iff (m : Nat) : resolve m op args = .undecided ↔ m < Nat.find enough := by
    constructor
    · intro h
      by_contra atLeast
      rw [← stays (m - Nat.find enough), Nat.add_sub_of_le (Nat.le_of_not_lt atLeast)] at answered
      exact answered h
    · intro less
      exact not_not.1 (Nat.find_min enough less)
  refine ⟨Nat.find enough, ?_, answered, stays, result?_of_resolve answered, undecided_iff, ?_⟩
  · exact Nat.find_min' enough (resolve_ne_undecided (Nat.le_refl _))
  · intro m
    rw [← resolve_eq_undecided_iff, undecided_iff]

/-- A traced maximum asks its decorator, and the decorator asks the maximum. -/
example :
    let op := Ty.decorated (.primitive .trace) .str (.primitive .max)
    resolve 2 op [.i32, .i32] = .undecided ∧ resolve 3 op [.i32, .i32] = .accepted .i32 := by
  decide

end Callable
