import Callable.Resolution.Depth
set_option autoImplicit false

/-!
The result type of an operation for a list of argument types. The depth of the search is no part of
the answer: `result?` satisfies the equation of the rules (`result?_eq`).
-/

namespace Callable

open Ty

def result? (op : Ty) (args : List Ty) : Option Ty := (resolve (cost op args) op args).result?

def accepts (op : Ty) (args : List Ty) : Bool := (result? op args).isSome

/-- The state type after a fold of the arguments from the state `s`. -/
def foldResult? (f : Ty) : Ty → List Ty → Option Ty
  | s, [] => some s
  | s, x :: xs => (result? f [s, x]).bind fun s' => foldResult? f s' xs

def Rule.result? : Rule → Option Ty
  | .reject => none
  | .accept r => some r
  | .ask op xs next => (Callable.result? op xs).bind fun r => (next r).result?

theorem Rule.result?_fold (f s : Ty) (xs : List Ty) :
    (Rule.fold f s xs).result? = foldResult? f s xs := by
  induction xs generalizing s with
  | nil => rfl
  | cons x xs ih => simp only [Rule.fold, Rule.result?, foldResult?, ih]

theorem Verdict.eq_ofOption_result? {v : Verdict} (h : v ≠ .undecided) :
    v = .ofOption v.result? := by
  cases v with
  | undecided => exact absurd rfl h
  | rejected => rfl
  | accepted r => rfl

theorem resolve_eq {n : Nat} {op : Ty} {args : List Ty} (h : cost op args ≤ n) :
    resolve n op args = .ofOption (result? op args) := by
  have decided := resolve_ne_undecided (Nat.le_refl (cost op args))
  rw [resolve_eq_of_le h decided]
  exact Verdict.eq_ofOption_result? decided

theorem result?_of_resolve {n : Nat} {op : Ty} {args : List Ty}
    (h : resolve n op args ≠ .undecided) :
    resolve n op args = .ofOption (result? op args) := by
  have bound := Nat.le_max_left n (cost op args)
  rw [← resolve_eq_of_le bound h]
  exact resolve_eq (Nat.le_max_right _ _)

theorem result?_eq_some {n : Nat} {op r : Ty} {args : List Ty}
    (h : resolve n op args = .accepted r) : result? op args = some r := by
  have decided : resolve n op args ≠ .undecided := by simp [h]
  have answer := congrArg Verdict.result? (result?_of_resolve decided)
  rw [Verdict.result?_ofOption, h] at answer
  exact answer.symm

theorem Rule.verdict_eq {n : Nat} {r : Rule} (h : r.verdict (resolve n) ≠ .undecided) :
    r.verdict (resolve n) = .ofOption r.result? := by
  induction r with
  | reject => rfl
  | accept r => rfl
  | ask op xs next ih =>
    rw [Rule.verdict, Ne, Verdict.andThen_eq_undecided_iff, not_or] at h
    obtain ⟨decided, rest⟩ := h
    simp only [Rule.verdict, Rule.result?]
    rw [result?_of_resolve decided] at rest ⊢
    cases hr : Callable.result? op xs with
    | none => rfl
    | some r => exact ih r fun hu => rest ⟨r, by rw [hr]; rfl, hu⟩

theorem result?_eq (op : Ty) (args : List Ty) : result? op args = (op.rule args).result? := by
  have decided : resolve (cost op args + 1) op args ≠ .undecided :=
    resolve_ne_undecided (Nat.le_succ _)
  have left := resolve_eq (Nat.le_succ (cost op args))
  have right : resolve (cost op args + 1) op args = .ofOption (op.rule args).result? :=
    Rule.verdict_eq decided
  rw [left] at right
  simpa using congrArg Verdict.result? right

/-- A rule that leads to a result by questions whose results have the property. -/
inductive Rule.Answers (P : Ty → List Ty → Ty → Prop) : Rule → Ty → Prop
  | accept (r : Ty) : Answers P (.accept r) r
  | ask {op r' r : Ty} {xs : List Ty} {next : Ty → Rule}
      (asked : Callable.result? op xs = some r') (inner : P op xs r')
      (rest : Answers P (next r') r) : Answers P (.ask op xs next) r

theorem Rule.answers_guard_iff {P : Ty → List Ty → Ty → Prop} {c : Bool} {r r' : Ty} :
    (Rule.guard c r').Answers P r ↔ c = true ∧ r' = r := by
  constructor
  · cases c with
    | false =>
      intro h
      cases h
    | true =>
      intro h
      cases h
      exact ⟨rfl, rfl⟩
  · rintro ⟨rfl, rfl⟩
    exact .accept r'

theorem Rule.answers_of_verdict {P : Ty → List Ty → Ty → Prop} {n : Nat} {rule : Rule} {r : Ty}
    (each : ∀ {op args r}, resolve n op args = .accepted r → P op args r)
    (h : rule.verdict (resolve n) = .accepted r) : rule.Answers P r := by
  induction rule with
  | reject => cases h
  | accept r' =>
    cases h
    exact .accept r
  | ask op xs next ih =>
    obtain ⟨r', answer, rest⟩ := Verdict.andThen_eq_accepted_iff.1 h
    exact .ask (result?_eq_some answer) (each answer) (ih r' rest)

/-- Induction on the questions that lead to a result. -/
theorem result?_induction {P : Ty → List Ty → Ty → Prop}
    (step : ∀ {op args r}, (op.rule args).Answers P r → P op args r)
    {op r : Ty} {args : List Ty} (h : result? op args = some r) : P op args r := by
  have found : resolve (cost op args) op args = .accepted r := by
    rw [resolve_eq (Nat.le_refl _), h]
    rfl
  clear h
  revert found
  generalize cost op args = n
  intro found
  induction n generalizing op args r with
  | zero => cases found
  | succ n ih => exact step (Rule.answers_of_verdict ih found)

theorem accepts_iff {op : Ty} {args : List Ty} :
    accepts op args = true ↔ ∃ r, result? op args = some r := by
  simp [accepts, Option.isSome_iff_exists]

theorem result?_eq_none_of_length {op : Ty} {args : List Ty} (h : functionLimit < args.length) :
    result? op args = none := by
  by_cases rejects : op.rule args = .reject
  · rw [result?_eq, rejects]
    rfl
  · exact absurd (rule_length_le rejects) (Nat.not_le.2 h)

/-! ### The adaptors -/

theorem result?_compress_nil (f : Ty) : result? (.compress f) [] = none := result?_eq _ _

theorem result?_compress_cons {f x : Ty} {xs : List Ty} (h : xs.length < foldLimit) :
    result? (.compress f) (x :: xs) = foldResult? f x xs := by
  rw [result?_eq]
  simp only [rule, compressRule_cons, if_pos h, Rule.result?_fold]

theorem result?_seeded {f s : Ty} {xs : List Ty} (h : xs.length ≤ foldLimit) :
    result? (.seeded f s) xs = if s.isClone then foldResult? f s xs else none := by
  rw [result?_eq]
  cases hs : s.isClone <;> simp [rule, seededRule, hs, h, Rule.result?, Rule.result?_fold]

/-- Whether a decorator takes the references of a decorated call, whatever it makes of them. -/
def decoratorAccepts (d t g : Ty) (xs : List Ty) : Bool :=
  xs.length ≤ decoratedLimit && accepts d (decoratorArgs (freshRegion (d :: t :: g :: xs)) t g xs)

theorem result?_decorated {d t g : Ty} {xs : List Ty} (h : xs.length ≤ decoratedLimit) :
    result? (.decorated d t g) xs =
      (result? d (decoratorArgs (freshRegion (d :: t :: g :: xs)) t g xs)).bind fun r =>
        if r.mentions (freshRegion (d :: t :: g :: xs)) then none else some r := by
  rw [result?_eq]
  simp only [rule, decoratedRule, if_pos h, Rule.result?]
  refine Option.bind_congr fun r _ => ?_
  cases r.mentions (freshRegion (d :: t :: g :: xs)) <;> rfl

theorem foldResult?_append (f s : Ty) (xs ys : List Ty) :
    foldResult? f s (xs ++ ys) = (foldResult? f s xs).bind fun s' => foldResult? f s' ys := by
  induction xs generalizing s with
  | nil => rfl
  | cons x xs ih =>
    simp only [List.cons_append, foldResult?]
    cases result? f [s, x] with
    | none => rfl
    | some s' => exact ih s'

/-- A fold is rejected at the first argument that its operation does not take after the state that
the arguments before it have reached. -/
theorem foldResult?_eq_none_iff {f z : Ty} {xs : List Ty} :
    foldResult? f z xs = none ↔
      ∃ done s y rest, xs = done ++ y :: rest ∧ foldResult? f z done = some s ∧
        result? f [s, y] = none := by
  constructor
  · intro rejected
    induction xs generalizing z with
    | nil => cases rejected
    | cons x xs ih =>
      cases step : result? f [z, x] with
      | none => exact ⟨[], z, x, xs, rfl, rfl, step⟩
      | some z' =>
        simp only [foldResult?, step, Option.bind_some] at rejected
        obtain ⟨done, s, y, rest, rfl, reached, stopped⟩ := ih rejected
        refine ⟨x :: done, s, y, rest, rfl, ?_, stopped⟩
        simp only [foldResult?, step, Option.bind_some, reached]
  · rintro ⟨done, s, y, rest, rfl, reached, stopped⟩
    rw [foldResult?_append, reached, Option.bind_some, foldResult?, stopped, Option.bind_none]

/-- A fold asks its operation only for a state and an argument. -/
theorem foldResult?_congr {f g : Ty} (same : ∀ s x, result? f [s, x] = result? g [s, x]) (s : Ty)
    (xs : List Ty) : foldResult? f s xs = foldResult? g s xs := by
  induction xs generalizing s with
  | nil => rfl
  | cons x xs ih =>
    simp only [foldResult?, same]
    exact Option.bind_congr fun s' _ => ih s'

end Callable
