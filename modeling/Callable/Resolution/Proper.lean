import Callable.Resolution.Result
set_option autoImplicit false

/-!
References into any region. They mean something as parameters of function pointers only, and nothing
that an operation makes of proper types has one anywhere else (`isProper_of_result?`).
-/

namespace Callable

namespace Ty

theorem isProper_tuple_iff {ts : List Ty} :
    (Ty.tuple ts).isProper = true ↔ ∀ t ∈ ts, t.isProper = true := by
  simp [isProper]

theorem isProper_ref_iff {r : Region} {t : Ty} :
    (Ty.ref r t).isProper = true ↔ r ≠ .any ∧ t.isProper = true := by
  simp [isProper]

/-- A function pointer is proper by its parameters and its result. -/
theorem isProper_of_signature? {op r : Ty} {ps : List Ty} (proper : op.isProper = true)
    (h : op.signature? = some (ps, r)) : r.isProper = true := by
  fun_induction signature? op with
  | case1 qs q =>
    cases h
    exact (Bool.and_eq_true_iff.1 proper).2
  | case2 =>
    cases h
    rfl
  | case3 =>
    cases h
    rfl
  | case4 _ t _ ih => exact ih (isProper_ref_iff.1 proper).2 h
  | case5 => cases h

theorem inherited_proper : Inherited (·.isProper = true) (·.isProper = true) where
  atom _ := rfl
  tuple parts := isProper_tuple_iff.2 parts
  vec element := element
  behind reference := (isProper_ref_iff.1 reference).2

theorem rule_proper {op : Ty} {args : List Ty} (hop : op.isProper = true)
    (h : ∀ a ∈ args, a.isProper = true) :
    (op.rule args).Keeps (·.isProper = true) (·.isProper = true) := by
  cases op with
  | primitive p => exact inherited_proper.ofPrimitive (primitive_rule p args) h
  | compress f => exact keeps_compressRule hop h
  | seeded f s =>
    obtain ⟨operation, seed⟩ := Bool.and_eq_true_iff.1 hop
    exact keeps_seededRule operation seed h
  | decorate d =>
    exact keeps_decorateRule fun t among => Bool.and_eq_true_iff.2 ⟨hop, h t among⟩
  | decoration d t =>
    exact keeps_decorationRule fun g among => Bool.and_eq_true_iff.2 ⟨hop, h g among⟩
  | decorated d t g =>
    obtain ⟨decoration, target⟩ := Bool.and_eq_true_iff.1 hop
    obtain ⟨decorator, data⟩ := Bool.and_eq_true_iff.1 decoration
    refine keeps_decoratedRule decorator ?_ ?_ h
    · exact fun n => isProper_ref_iff.2 ⟨by simp, data⟩
    · exact fun n => isProper_ref_iff.2 ⟨by simp, target⟩
  | _ => exact keeps_functionRule args fun _ _ signature => isProper_of_signature? hop signature

end Ty

open Ty

theorem isProper_of_result? {op r : Ty} {args : List Ty} (hop : op.isProper = true)
    (hargs : ∀ a ∈ args, a.isProper = true) (h : result? op args = some r) : r.isProper = true := by
  have found : resolve (cost op args) op args = .accepted r := by
    rw [resolve_eq (Nat.le_refl _), h]
    rfl
  exact resolve_keeps rule_proper hop hargs found

end Callable
