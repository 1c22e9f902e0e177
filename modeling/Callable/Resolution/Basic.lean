import Callable.Resolution.Rule
set_option autoImplicit false

/-!
The search that decides whether an operation accepts a list of argument types, and with which
result type. The search is bounded by a depth; an answer that some depth finds is the answer of
every larger depth (`resolve_eq_of_le`).
-/

namespace Callable

inductive Verdict where
  | undecided
  | rejected
  | accepted (result : Ty)
  deriving DecidableEq, Repr

namespace Verdict

def andThen : Verdict → (Ty → Verdict) → Verdict
  | .undecided, _ => .undecided
  | .rejected, _ => .rejected
  | .accepted r, k => k r

def ofOption : Option Ty → Verdict
  | none => .rejected
  | some r => .accepted r

def result? : Verdict → Option Ty
  | .accepted r => some r
  | _ => none

@[simp] theorem ofOption_ne_undecided (o : Option Ty) : ofOption o ≠ .undecided := by
  cases o <;> simp [ofOption]

@[simp] theorem result?_ofOption (o : Option Ty) : (ofOption o).result? = o := by
  cases o <;> rfl

theorem andThen_eq_accepted_iff {v : Verdict} {k : Ty → Verdict} {r : Ty} :
    v.andThen k = .accepted r ↔ ∃ s, v = .accepted s ∧ k s = .accepted r := by
  cases v <;> simp [andThen]

theorem andThen_eq_undecided_iff {v : Verdict} {k : Ty → Verdict} :
    v.andThen k = .undecided ↔ v = .undecided ∨ ∃ s, v = .accepted s ∧ k s = .undecided := by
  cases v <;> simp [andThen]

end Verdict

/-- The verdict that a rule leads to, given the verdicts on the questions that it asks. The first
question that is not accepted decides. -/
def Rule.verdict (ask : Ty → List Ty → Verdict) : Rule → Verdict
  | .reject => .rejected
  | .accept r => .accepted r
  | .ask op xs next => (ask op xs).andThen fun r => (next r).verdict ask

def resolve : Nat → Ty → List Ty → Verdict
  | 0, _, _ => .undecided
  | n + 1, op, args => (op.rule args).verdict (resolve n)

/-- One search decides at least what another decides, and as the other does. -/
def Refines (ask ask' : Ty → List Ty → Verdict) : Prop :=
  ∀ op args, ask op args ≠ .undecided → ask' op args = ask op args

theorem Rule.verdict_refines {ask ask' : Ty → List Ty → Verdict} (h : Refines ask ask') (r : Rule)
    (hd : r.verdict ask ≠ .undecided) : r.verdict ask' = r.verdict ask := by
  induction r with
  | reject => rfl
  | accept r => rfl
  | ask op xs next ih =>
    rw [Rule.verdict, Ne, Verdict.andThen_eq_undecided_iff, not_or] at hd
    obtain ⟨decided, rest⟩ := hd
    simp only [Rule.verdict, h op xs decided]
    cases hr : ask op xs with
    | undecided => exact absurd hr decided
    | rejected => rfl
    | accepted r => exact ih r fun hu => rest ⟨r, hr, hu⟩

theorem resolve_refines_succ (n : Nat) : Refines (resolve n) (resolve (n + 1)) := by
  induction n with
  | zero => exact fun _ _ h => absurd rfl h
  | succ n ih => exact fun op args h => Rule.verdict_refines ih (op.rule args) h

theorem resolve_eq_of_le {n m : Nat} {op : Ty} {args : List Ty} (hle : n ≤ m)
    (h : resolve n op args ≠ .undecided) : resolve m op args = resolve n op args := by
  induction hle with
  | refl => rfl
  | step _ ih => rw [resolve_refines_succ _ op args (by rw [ih]; exact h), ih]

/-! ### What rules keep to -/

/-- The rule asks only about operations with the one property, and only for arguments with the other.
As long as it is answered with such types, it accepts only with such a type. -/
def Rule.Keeps (Q P : Ty → Prop) : Rule → Prop
  | .reject => True
  | .accept r => P r
  | .ask op xs next => Q op ∧ (∀ a ∈ xs, P a) ∧ ∀ r, P r → (next r).Keeps Q P

section Keeps

variable {Q P : Ty → Prop}

theorem keeps_guard {c : Bool} {r : Ty} (h : P r) : (Rule.guard c r).Keeps Q P := by
  cases c
  · trivial
  · exact h

theorem keeps_fold {f s : Ty} {xs : List Ty} (hf : Q f) (hs : P s) (h : ∀ a ∈ xs, P a) :
    (Rule.fold f s xs).Keeps Q P := by
  induction xs generalizing s with
  | nil => exact hs
  | cons x xs ih =>
    obtain ⟨hx, hxs⟩ := List.forall_mem_cons.1 h
    refine ⟨hf, ?_, fun s' hs' => ih hs' hxs⟩
    simp [hs, hx]

theorem keeps_compressRule {f : Ty} {args : List Ty} (hf : Q f) (h : ∀ a ∈ args, P a) :
    (Ty.compressRule f args).Keeps Q P := by
  cases args with
  | nil => trivial
  | cons x xs =>
    obtain ⟨hx, hxs⟩ := List.forall_mem_cons.1 h
    rw [Ty.compressRule_cons]
    split
    · exact keeps_fold hf hx hxs
    · trivial

theorem keeps_seededRule {f s : Ty} {args : List Ty} (hf : Q f) (hs : P s) (h : ∀ a ∈ args, P a) :
    (Ty.seededRule f s args).Keeps Q P := by
  unfold Ty.seededRule
  split
  · exact keeps_fold hf hs h
  · trivial

theorem keeps_decorateRule {d : Ty} {args : List Ty} (h : ∀ t ∈ args, P (.decoration d t)) :
    (Ty.decorateRule d args).Keeps Q P := by
  unfold Ty.decorateRule
  split
  · exact keeps_guard (h _ (by simp))
  · trivial

theorem keeps_decorationRule {d t : Ty} {args : List Ty} (h : ∀ g ∈ args, P (.decorated d t g)) :
    (Ty.decorationRule d t args).Keeps Q P := by
  unfold Ty.decorationRule
  split
  · exact keeps_guard (h _ (by simp))
  · trivial

theorem keeps_decoratedRule {d t g : Ty} {args : List Ty} (hd : Q d)
    (ht : ∀ n, P (.ref (.call n) t)) (hg : ∀ n, P (.ref (.call n) g)) (h : ∀ a ∈ args, P a) :
    (Ty.decoratedRule d t g args).Keeps Q P := by
  unfold Ty.decoratedRule
  split
  · refine ⟨hd, ?_, fun r hr => keeps_guard hr⟩
    simp only [Ty.decoratorArgs, List.forall_mem_cons]
    exact ⟨ht _, hg _, h⟩
  · trivial

theorem keeps_functionRule {op : Ty} (args : List Ty)
    (h : ∀ ps r, op.signature? = some (ps, r) → P r) : (Ty.functionRule op args).Keeps Q P := by
  unfold Ty.functionRule
  split
  · trivial
  · rename_i ps r signature
    exact keeps_guard (h ps r signature)

/-- Properties that go over to what is put together from types with them, and from a reference to what
stands behind it. -/
structure Inherited (Q P : Ty → Prop) : Prop where
  atom (a : Atom) : P (.atom a)
  tuple {ts : List Ty} (parts : ∀ t ∈ ts, P t) : P (.tuple ts)
  vec {t : Ty} (element : P t) : P (.vec t)
  behind {ρ : Region} {g : Ty} (reference : P (.ref ρ g)) : Q g

variable (inherited : Inherited Q P)

include inherited

theorem Inherited.madeOf {given : List Ty} {t : Ty} (made : Ty.MadeOf given t)
    (h : ∀ t ∈ given, P t) : P t := by
  induction made with
  | given among => exact h _ among
  | atom a => exact inherited.atom a
  | tuple _ ih => exact inherited.tuple ih
  | vec _ ih => exact inherited.vec ih

theorem Inherited.ofPrimitive {rule : Rule} {args : List Ty} (of : rule.OfPrimitive args)
    (h : ∀ a ∈ args, P a) : rule.Keeps Q P := by
  cases of with
  | reject => trivial
  | accept made => exact inherited.madeOf made h
  | ask passed finished =>
    subst passed
    simp only [List.forall_mem_cons] at h
    obtain ⟨-, target, rest⟩ := h
    refine ⟨inherited.behind target, rest, fun r hr => ?_⟩
    obtain rejects | ⟨r', accepts, made⟩ := finished r
    · rw [rejects]
      trivial
    · rw [accepts]
      exact inherited.madeOf made (by simpa using hr)

end Keeps

theorem Rule.Keeps.result {Q P : Ty → Prop} {ask : Ty → List Ty → Verdict} {rule : Rule} {r : Ty}
    (keeps : rule.Keeps Q P)
    (answers : ∀ {op args r}, Q op → (∀ a ∈ args, P a) → ask op args = .accepted r → P r)
    (h : rule.verdict ask = .accepted r) : P r := by
  induction rule with
  | reject => cases h
  | accept r' =>
    cases h
    exact keeps
  | ask op xs next ih =>
    obtain ⟨hop, hxs, hnext⟩ := keeps
    obtain ⟨r', answer, rest⟩ := Verdict.andThen_eq_accepted_iff.1 h
    exact ih r' (hnext r' (answers hop hxs answer)) rest

/-- What all rules keep to, the results keep to. -/
theorem resolve_keeps {Q P : Ty → Prop}
    (rules : ∀ {op args}, Q op → (∀ a ∈ args, P a) → (op.rule args).Keeps Q P) {n : Nat}
    {op r : Ty} {args : List Ty} (hop : Q op) (hargs : ∀ a ∈ args, P a)
    (h : resolve n op args = .accepted r) : P r := by
  induction n generalizing op args r with
  | zero => cases h
  | succ n ih => exact (rules hop hargs).result ih h

end Callable
