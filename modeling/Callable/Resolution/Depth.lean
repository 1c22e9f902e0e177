import Callable.Resolution.Basic
set_option autoImplicit false

/-!
A depth that is enough. Only what stands behind a reference can be called, so the cost of a question
is the weight of the operation and what the arguments lend. Every question that a rule asks costs
less than the question that the rule answers (`rule_cheaper`), because a result lends no more than
its operation and its arguments do (`lendsOf_resolve`).
-/

namespace Callable

namespace Ty

/-- A fold counts its operation twice: once as the operation and once as what a result of it may
lend to the next step. -/
def weight : Ty → Nat
  | .ref _ t => t.weight + 1
  | .fn _ (.ref _ t) => t.weight + 1
  | .compress f => 2 * f.weight + 1
  | .seeded f s => 2 * f.weight + s.weight + 1
  | .decorated d t g => d.weight + t.weight + g.weight + 1
  | _ => 1

/-- The weight of what an argument of the type lets an operation call. -/
def lent : Ty → Nat
  | .ref _ t => t.weight
  | _ => 0

/-- What a list of arguments lends. -/
def lentAll : List Ty → Nat
  | [] => 0
  | t :: ts => t.lent + lentAll ts

@[simp] theorem lentAll_nil : lentAll [] = 0 := rfl

@[simp] theorem lentAll_cons (t : Ty) (ts : List Ty) : lentAll (t :: ts) = t.lent + lentAll ts :=
  rfl

theorem lent_lt_weight (t : Ty) : t.lent < t.weight := by
  cases t with
  | fn ps r => cases r <;> simp [lent, weight]
  | _ => simp [lent, weight]

theorem lent_lt_weight_fn (ps : List Ty) (r : Ty) : r.lent < (Ty.fn ps r).weight := by
  cases r <;> simp [lent, weight]

theorem lent_lt_of_signature? {op r : Ty} {ps : List Ty} (h : op.signature? = some (ps, r)) :
    r.lent < op.weight := by
  fun_induction signature? op with
  | case1 qs q =>
    obtain ⟨rfl, rfl⟩ := Prod.mk.inj (Option.some.inj h)
    exact lent_lt_weight_fn _ _
  | case2 =>
    obtain ⟨rfl, rfl⟩ := Prod.mk.inj (Option.some.inj h)
    simp [lent, weight]
  | case3 =>
    obtain ⟨rfl, rfl⟩ := Prod.mk.inj (Option.some.inj h)
    simp [lent, weight]
  | case4 _ t _ ih => exact Nat.lt_succ_of_lt (ih h)
  | case5 => cases h

def cost (op : Ty) (args : List Ty) : Nat := op.weight + lentAll args

theorem cost_pos (op : Ty) (args : List Ty) : 0 < cost op args :=
  Nat.lt_of_lt_of_le (Nat.lt_of_le_of_lt (Nat.zero_le _) (lent_lt_weight op)) (Nat.le_add_right _ _)

/-- What bounds the operation and what each argument lends bounds what the result lends. -/
def LendsOf (op : Ty) (args : List Ty) (r : Ty) : Prop :=
  ∀ b, op.weight ≤ b → (∀ a ∈ args, a.lent ≤ b) → r.lent ≤ b

theorem inherited_lent (b : Nat) : Inherited (·.weight ≤ b) (·.lent ≤ b) where
  atom _ := Nat.zero_le b
  tuple _ := Nat.zero_le b
  vec _ := Nat.zero_le b
  behind reference := reference

theorem rule_lends {op : Ty} {args : List Ty} {b : Nat} (hop : op.weight ≤ b)
    (h : ∀ a ∈ args, a.lent ≤ b) : (op.rule args).Keeps (·.weight ≤ b) (·.lent ≤ b) := by
  cases op with
  | primitive p => exact (inherited_lent b).ofPrimitive (primitive_rule p args) h
  | compress f =>
    unfold weight at hop
    exact keeps_compressRule (by omega) h
  | seeded f s =>
    unfold weight at hop
    have seed := lent_lt_weight s
    exact keeps_seededRule (by omega) (by omega) h
  | decorate d => exact keeps_decorateRule fun _ _ => Nat.zero_le b
  | decoration d t => exact keeps_decorationRule fun _ _ => Nat.zero_le b
  | decorated d t g =>
    unfold weight at hop
    refine keeps_decoratedRule (by omega) ?_ ?_ h
    all_goals
      intro n
      simp only [lent]
      omega
  | _ =>
    exact keeps_functionRule args fun _ _ signature =>
      Nat.le_trans (Nat.le_of_lt (lent_lt_of_signature? signature)) hop

end Ty

open Ty

theorem lendsOf_resolve {n : Nat} {op r : Ty} {args : List Ty}
    (h : resolve n op args = .accepted r) : LendsOf op args r :=
  fun _ hop hargs => resolve_keeps rule_lends hop hargs h

/-- Everything that the rule asks costs less than `n`, as long as no answer lends more than it can. -/
def Rule.Cheaper (n : Nat) : Rule → Prop
  | .reject => True
  | .accept _ => True
  | .ask op xs next => cost op xs < n ∧ ∀ r, LendsOf op xs r → (next r).Cheaper n

namespace Ty

theorem cheaper_guard {n : Nat} {c : Bool} {r : Ty} : (Rule.guard c r).Cheaper n := by
  cases c <;> trivial

/-- A state that is a result of the operation lends no more than the operation weighs and the first
state and the arguments so far lend. -/
theorem cheaper_fold {n : Nat} {f s : Ty} {xs : List Ty}
    (h : f.weight + Nat.max f.weight s.lent + lentAll xs < n) : (Rule.fold f s xs).Cheaper n := by
  induction xs generalizing s with
  | nil => trivial
  | cons x xs ih =>
    have hw : f.weight ≤ Nat.max f.weight s.lent := Nat.le_max_left _ _
    have hmax : s.lent ≤ Nat.max f.weight s.lent := Nat.le_max_right _ _
    rw [lentAll_cons] at h
    constructor
    · simp only [cost, lentAll_cons, lentAll_nil]
      omega
    · intro s' lends
      have bound : s'.lent ≤ Nat.max f.weight s.lent + x.lent := by
        refine lends _ (Nat.le_trans hw (Nat.le_add_right _ _)) ?_
        simp only [List.forall_mem_cons, List.not_mem_nil, false_implies, implies_true, and_true]
        omega
      have : Nat.max f.weight s'.lent ≤ Nat.max f.weight s.lent + x.lent :=
        Nat.max_le.2 ⟨by omega, bound⟩
      exact ih (by omega)

theorem cheaper_ofPrimitive {p : Primitive} {rule : Rule} {args : List Ty}
    (of : rule.OfPrimitive args) : rule.Cheaper (cost (.primitive p) args) := by
  cases of with
  | reject => trivial
  | accept _ => trivial
  | ask passed finished =>
    subst passed
    constructor
    · simp only [cost, lentAll_cons, lent, weight]
      omega
    · intro r _
      obtain rejects | ⟨r', accepts, -⟩ := finished r
      · rw [rejects]
        trivial
      · rw [accepts]
        trivial

theorem rule_cheaper (op : Ty) (args : List Ty) : (op.rule args).Cheaper (cost op args) := by
  cases op with
  | primitive p => exact cheaper_ofPrimitive (primitive_rule p args)
  | compress f =>
    cases args with
    | nil => trivial
    | cons x xs =>
      simp only [rule, compressRule_cons]
      split
      · apply cheaper_fold
        simp only [cost, weight, lentAll_cons, Nat.max_def]
        split <;> omega
      · trivial
  | seeded f s =>
    have seed := lent_lt_weight s
    simp only [rule, seededRule]
    split
    · apply cheaper_fold
      simp only [cost, weight, Nat.max_def]
      split <;> omega
    · trivial
  | decorate d =>
    simp only [rule]
    unfold decorateRule
    split
    · exact cheaper_guard
    · trivial
  | decoration d t =>
    simp only [rule]
    unfold decorationRule
    split
    · exact cheaper_guard
    · trivial
  | decorated d t g =>
    simp only [rule, decoratedRule]
    split
    · refine ⟨?_, fun r _ => cheaper_guard⟩
      simp only [cost, decoratorArgs, weight, lentAll_cons, lent]
      omega
    · trivial
  | _ =>
    simp only [rule, functionRule]
    split
    · trivial
    · exact cheaper_guard

end Ty

theorem Rule.Cheaper.decided {c n : Nat} {rule : Rule} (cheaper : rule.Cheaper c) (h : c ≤ n + 1)
    (answered : ∀ {op args}, cost op args ≤ n → resolve n op args ≠ .undecided) :
    rule.verdict (resolve n) ≠ .undecided := by
  induction rule with
  | reject => simp [Rule.verdict]
  | accept r => simp [Rule.verdict]
  | ask op xs next ih =>
    obtain ⟨first, rest⟩ := cheaper
    rw [Rule.verdict, Ne, Verdict.andThen_eq_undecided_iff, not_or]
    refine ⟨answered (by omega), ?_⟩
    rintro ⟨r, answer, unanswered⟩
    exact ih r (rest r (lendsOf_resolve answer)) unanswered

/-- A depth of the cost of a question answers it. -/
theorem resolve_ne_undecided {n : Nat} {op : Ty} {args : List Ty} (h : cost op args ≤ n) :
    resolve n op args ≠ .undecided := by
  induction n generalizing op args with
  | zero => exact absurd (cost_pos op args) (Nat.not_lt.2 h)
  | succ n ih => exact (rule_cheaper op args).decided h ih

end Callable
