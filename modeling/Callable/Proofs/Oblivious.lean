import Callable.Proofs.Lockstep
set_option autoImplicit false

/-!
What is logged has no influence. How a run ends, and the counters that it leaves, depend only on the
counters that it starts with, and a traced call is like one that is not (`alike_traceCall`).
-/

namespace Callable

open Run

/-- From the same counters the runs end in the same way and leave the same counters, whatever the
logs are. -/
def Alike {α : Type} (x y : Run α) : Prop :=
  ∀ w w', w.counters = w'.counters →
    (inWorld w x).1 = (inWorld w' y).1 ∧ (inWorld w x).2.counters = (inWorld w' y).2.counters

theorem alike_pure {α : Type} (a : α) : Alike (pure a) (pure a) := fun _ _ same => ⟨rfl, same⟩

theorem alike_write (e e' : Entry) : Alike (write e) (write e') := fun _ _ same => ⟨rfl, same⟩

/-- Whether the event is kept or not. -/
theorem counters_emit (w : World) (l : Level) (e : Event) :
    (inWorld w (emit l e)).2.counters = w.counters := by
  rw [inWorld_emit]
  split <;> rfl

theorem alike_emit (l l' : Level) (e : Event) : Alike (emit l e) (emit l' e) := by
  intro w w' same
  rw [counters_emit, counters_emit]
  exact ⟨by rw [inWorld_emit, inWorld_emit], same⟩

theorem alike_emit_pure (l : Level) (e : Event) : Alike (emit l e) (pure ()) := by
  intro w w' same
  rw [counters_emit]
  exact ⟨by rw [inWorld_emit, inWorld_pure], same⟩

theorem Alike.bind {α β : Type} {x y : Run α} {f g : α → Run β} (first : Alike x y)
    (next : ∀ a, Alike (f a) (g a)) : Alike (x >>= f) (y >>= g) := by
  intro w w' same
  obtain ⟨outcome, left⟩ := first w w' same
  rw [inWorld_bind, inWorld_bind]
  revert outcome left
  cases inWorld w x with
  | mk e u =>
    cases inWorld w' y with
    | mk e' u' =>
      rintro rfl left
      cases e with
      | error s => exact ⟨rfl, left⟩
      | ok a => exact next a u u' left

theorem lockstep_alike : Lockstep Alike where
  pure := alike_pure
  stop _ _ _ same := ⟨rfl, same⟩
  counters _ _ same := ⟨congrArg Except.ok same, same⟩
  setCounter place n _ _ same := ⟨rfl, congrArg (List.set · place n) same⟩
  called _ _ _ := alike_write _ _
  decorating _ _ _ _ := alike_write _ _
  bind := Alike.bind

theorem alike_traceCall {target : List Value → Run Value} {xs : List Value} {x : Run Value}
    (same : Alike (target xs) x) (set : Setting) (label operation : String) :
    Alike (Decorator.traceCall target set label operation xs) x := by
  have silent : x = pure () >>= fun _ => x >>= fun v => pure () >>= fun _ => pure v := by
    simp only [pure_bind, bind_pure]
  rw [silent]
  refine (alike_emit_pure _ _).bind fun _ => same.bind fun v => ?_
  exact (alike_emit_pure _ _).bind fun _ => alike_pure v

end Callable
