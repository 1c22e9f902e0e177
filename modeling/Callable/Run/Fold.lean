set_option autoImplicit false

/-!
Folds with effects. The state goes through the steps from the left, and a step that stops ends the
fold.
-/

namespace Callable

universe u v w

variable {m : Type u → Type v} [Monad m] {σ : Type u} {α : Type w}

def foldFrom (step : σ → α → m σ) : σ → List α → m σ
  | s, [] => pure s
  | s, x :: xs => do
    let s' ← step s x
    foldFrom step s' xs

/-- Such a fold is the monadic one of lists. -/
theorem foldFrom_eq_foldlM (step : σ → α → m σ) (s : σ) (xs : List α) :
    foldFrom step s xs = xs.foldlM step s := by
  induction xs generalizing s with
  | nil => rfl
  | cons x xs ih => simp only [foldFrom, List.foldlM_cons, ih]

theorem foldFrom_append [LawfulMonad m] (step : σ → α → m σ) (s : σ) (xs ys : List α) :
    foldFrom step s (xs ++ ys) = foldFrom step s xs >>= fun s' => foldFrom step s' ys := by
  induction xs generalizing s with
  | nil => simp [foldFrom]
  | cons x xs ih => simp [foldFrom, ih]

theorem foldFrom_single [LawfulMonad m] (step : σ → α → m σ) (s : σ) (x : α) :
    foldFrom step s [x] = step s x := by
  simp only [foldFrom, bind_pure]

/-- A relation between effects that sequencing keeps is kept by folds. The steps may have effects of
two kinds. -/
theorem foldFrom_related {n : Type u → Type v} [Monad n] {R : m σ → n σ → Prop}
    (pure : ∀ s, R (pure s) (pure s))
    (bind : ∀ x y f g, R x y → (∀ s, R (f s) (g s)) → R (x >>= f) (y >>= g))
    {step : σ → α → m σ} {step' : σ → α → n σ} (steps : ∀ s x, R (step s x) (step' s x)) (s : σ)
    (xs : List α) : R (foldFrom step s xs) (foldFrom step' s xs) := by
  induction xs generalizing s with
  | nil => exact pure s
  | cons x xs ih => exact bind _ _ _ _ (steps s x) ih

end Callable
