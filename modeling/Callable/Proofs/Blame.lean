import Callable.Proofs.Record
import Mathlib.Data.List.Chain
set_option autoImplicit false

/-!
Whom a chain blames. Each frame of a chain stands for a rejection (`Blame`), with the types that the
frame only names. A walk never blames what is in order (`Blame.Justified`), and it goes from each
rejection to one that lies inside it (`Blame.Leads`), from the question of the probe on. The
invariant is that the last rejection determines what the walk may be looking at
(`Blame.Pending`); it holds after any number of steps, so a walk that is cut off blames no one
wrongly either (`probeWithin_blames`).
-/

namespace Callable

/-- The frame of a rejected call that nothing more is known about yet. -/
def callFrame : Ty → List Ty → Frame
  | .compress f, [] => ⟨.missingSeed, (Ty.compress f).name, []⟩
  | .compress f, x :: xs => ⟨.fold, (Ty.compress f).name, (x :: xs).map Ty.name⟩
  | .seeded f s, xs => ⟨.fold, (Ty.seeded f s).name, xs.map Ty.name⟩
  | .decorated d t g, xs => ⟨.decorated, (Ty.decorated d t g).name, xs.map Ty.name⟩
  | op, xs => ⟨.operation, op.name, xs.map Ty.name⟩

/-- A rejection that a walk records. The frames of a `revealed` one are the operation's own. -/
inductive Blame where
  | call (op : Ty) (args : List Ty)
  | revealed (op : Ty) (args : List Ty) (failure : Failure)
  | step (f s x : Ty)
  | seed (s : Ty)
  | decorator (d t g : Ty) (args : List Ty)

namespace Blame

def frames : Blame → List Frame
  | .call op args => [callFrame op args]
  | .revealed _ _ a => a.frames
  | .step f s x => [foldOperationFrame f s x]
  | .seed s => [seedFrame s]
  | .decorator d t g args => [decoratorFrame d t g args]

/-- The rejection is a real one. -/
def Justified : Blame → Prop
  | .call op args => result? op args = none
  | .revealed op args a =>
    result? op args = none ∧ op.isAdaptor = false ∧ op.reveal? args = some a
  | .step f s x => result? f [s, x] = none
  | .seed s => s.isClone = false
  | .decorator d t g args => ¬∀ ρ, accepts d (.ref ρ t :: .ref ρ g :: args) = true

/-- The rejection is one of the given call as a whole. -/
inductive About : Blame → Ty → List Ty → Prop
  | call {op : Ty} {args : List Ty} : About (.call op args) op args
  | revealed {op : Ty} {args : List Ty} {a : Failure} : About (.revealed op args a) op args

/-- The second rejection is the one inside the first. A fold is rejected at a step whose state the
steps before it have reached. -/
inductive Leads : Blame → Blame → Prop
  | compressStep {f x s y : Ty} {done rest : List Ty} (reached : foldResult? f x done = some s) :
      Leads (.call (.compress f) (x :: (done ++ y :: rest))) (.step f s y)
  | seededStep {f z s y : Ty} {done rest : List Ty} (copied : z.isClone = true)
      (reached : foldResult? f z done = some s) :
      Leads (.call (.seeded f z) (done ++ y :: rest)) (.step f s y)
  | seed {f z : Ty} {xs : List Ty} : Leads (.call (.seeded f z) xs) (.seed z)
  | decorator {d t g : Ty} {xs : List Ty} :
      Leads (.call (.decorated d t g) xs) (.decorator d t g xs)
  | target {d t g : Ty} {xs : List Ty} {b : Blame} (about : b.About g xs) :
      Leads (.decorator d t g xs) b
  | operation {f s x : Ty} {b : Blame} (about : b.About f [s, x]) : Leads (.step f s x) b

/-- Where the walk can be while the rejection is the last one recorded. -/
inductive Pending : Blame → WalkState → Prop
  | compressFold {f x s : Ty} {done rest : List Ty} (reached : foldResult? f x done = some s) :
      Pending (.call (.compress f) (x :: (done ++ rest))) (.fold f s rest)
  | seededFold {f z s : Ty} {done rest : List Ty} (copied : z.isClone = true)
      (reached : foldResult? f z done = some s) :
      Pending (.call (.seeded f z) (done ++ rest)) (.fold f s rest)
  | seed {f z : Ty} {xs : List Ty} : Pending (.call (.seeded f z) xs) (.seed f z xs)
  | decorator {d t g : Ty} {xs : List Ty} :
      Pending (.call (.decorated d t g) xs) (.decorator d t g xs)
  | target {d t g : Ty} {xs : List Ty} : Pending (.decorator d t g xs) (.target g xs)
  | nested {f s x : Ty} (rejected : result? f [s, x] = none) :
      Pending (.step f s x) (.nested f [s, x])
  | done {b : Blame} : Pending b .done

end Blame

open WalkState Blame

theorem foldResult?_snoc {f z s s' x : Ty} {done : List Ty}
    (reached : foldResult? f z done = some s) (step : result? f [s, x] = some s') :
    foldResult? f z (done ++ [x]) = some s' := by
  rw [foldResult?_append, reached]
  simp [foldResult?, step]

theorem callFrame_layer {op : Ty} {args : List Ty} {f : Frame} {s : WalkState}
    (layer : Layer op args f s) : callFrame op args = f := by
  cases layer <;> rfl

theorem callFrame_plain {op : Ty} (args : List Ty) (plain : op.isAdaptor = false) :
    (Failure.notInvocable op args).frames = [callFrame op args] := by
  cases op with
  | compress f => cases plain
  | seeded f s => cases plain
  | decorated d t g => cases plain
  | _ => rfl

theorem pending_layer {op : Ty} {args : List Ty} {f : Frame} {s : WalkState}
    (layer : Layer op args f s) : Pending (.call op args) s := by
  cases layer with
  | missingSeed => exact .done
  | @compress f x xs =>
    have start : foldResult? f x [] = some x := rfl
    exact .compressFold start
  | seeded => exact .seed
  | decorated => exact .decorator

theorem WalkState.Asks.unique {s : WalkState} {op op' : Ty} {args args' : List Ty}
    (h : s.Asks op args) (h' : s.Asks op' args') : op = op' ∧ args = args' := by
  cases h <;> cases h' <;> exact ⟨rfl, rfl⟩

/-! ### What a step records -/

/-- A rejected call that is asked about is blamed itself, or its own account of it is. -/
theorem blame_asked {s s' : WalkState} {op : Ty} {args : List Ty} {a : Failure}
    (asked : s.Asks op args) (rejected : result? op args = none) (step : Step s (some a) s') :
    ∃ b : Blame, b.About op args ∧ b.Justified ∧ a.frames = b.frames ∧ Pending b s' := by
  cases step with
  | expand asked' layer =>
    obtain ⟨rfl, rfl⟩ := asked.unique asked'
    refine ⟨.call op args, .call, rejected, ?_, pending_layer layer⟩
    simp [Blame.frames, callFrame_layer layer]
  | reveal asked' plain own =>
    obtain ⟨rfl, rfl⟩ := asked.unique asked'
    exact ⟨.revealed op args a, .revealed, ⟨rejected, plain, own⟩, rfl, .done⟩
  | reject asked' unrecorded plain silent =>
    obtain ⟨rfl, rfl⟩ := asked.unique asked'
    exact ⟨.call op args, .call, rejected, callFrame_plain args plain, .done⟩
  | foldStop => cases asked
  | uncopied => cases asked
  | refused => cases asked

theorem not_accepts_of_not_takesCall {d t g : Ty} {args : List Ty} (h : ¬TakesCall d t g args) :
    ¬∀ ρ, accepts d (.ref ρ t :: .ref ρ g :: args) = true := by
  intro always
  apply h
  refine ⟨?_, always⟩
  obtain ⟨r, accepted⟩ := accepts_iff.1 (always .static)
  by_contra many
  have beyond : functionLimit < (Ty.ref .static t :: Ty.ref .static g :: args).length :=
    Nat.add_lt_add_right (Nat.lt_of_not_le many) 2
  rw [result?_eq_none_of_length beyond] at accepted
  cases accepted

namespace Blame

theorem Pending.silent {b : Blame} {s s' : WalkState} (pending : Pending b s)
    (step : Step s none s') : Pending b s' := by
  cases step with
  | leave => exact .done
  | accept => exact .done
  | foldEnd => exact .done
  | taken => exact .done
  | done => exact .done
  | @foldStep f s s' x xs accepted =>
    cases pending with
    | @compressFold _ z _ before _ reached =>
      have next : Pending (.call (.compress f) (z :: (before ++ [x] ++ xs))) (.fold f s' xs) :=
        .compressFold (foldResult?_snoc reached accepted)
      rwa [List.append_assoc] at next
    | @seededFold _ z _ before _ copied reached =>
      have next : Pending (.call (.seeded f z) (before ++ [x] ++ xs)) (.fold f s' xs) :=
        .seededFold copied (foldResult?_snoc reached accepted)
      rwa [List.append_assoc] at next
  | @copied f z args copies =>
    cases pending
    have start : foldResult? f z [] = some z := rfl
    exact .seededFold copies start

theorem Pending.rejecting {b : Blame} {s : WalkState} (pending : Pending b s) : s.Rejecting := by
  cases pending <;> trivial

/-- Whatever is asked about while a rejection is pending is a rejected call. -/
theorem Pending.asks {b : Blame} {s : WalkState} {op : Ty} {args : List Ty} (pending : Pending b s)
    (asked : s.Asks op args) : result? op args = none := by
  cases asked with
  | probe h => exact h
  | target h => exact h
  | nested =>
    cases pending
    assumption

theorem Pending.leads {b b' : Blame} {s : WalkState} {op : Ty} {args : List Ty}
    (pending : Pending b s) (asked : s.Asks op args) (about : b'.About op args) : Leads b b' := by
  cases asked with
  | probe => cases pending
  | target =>
    cases pending
    exact .target about
  | nested =>
    cases pending
    exact .operation about

theorem Pending.recorded {b : Blame} {s s' : WalkState} {a : Failure} (pending : Pending b s)
    (step : Step s (some a) s') :
    ∃ b', Leads b b' ∧ b'.Justified ∧ a.frames = b'.frames ∧ Pending b' s' := by
  have taken := step
  cases step with
  | foldStop h =>
    cases pending with
    | compressFold reached => exact ⟨.step _ _ _, .compressStep reached, h, rfl, .nested h⟩
    | seededFold copied reached =>
      exact ⟨.step _ _ _, .seededStep copied reached, h, rfl, .nested h⟩
  | uncopied h =>
    cases pending
    exact ⟨.seed _, .seed, h, rfl, .done⟩
  | refused h =>
    cases pending
    exact ⟨.decorator _ _ _ _, .decorator, not_accepts_of_not_takesCall h, rfl, .target⟩
  | expand asked | reveal asked | reject asked =>
    obtain ⟨b', about, ok⟩ := blame_asked asked (pending.asks asked) taken
    exact ⟨b', pending.leads asked about, ok⟩

/-! ### A run -/

/-- After any number of steps from a pending rejection one is pending. -/
theorem Pending.after {b : Blame} {s : WalkState} (n : Nat) (pending : Pending b s) :
    ∃ c, Pending c (s.after n) := by
  induction n generalizing b s with
  | zero => exact ⟨b, pending⟩
  | succ n ih =>
    obtain ⟨a?, -, step⟩ := step_advance pending.rejecting
    cases a? with
    | none => exact ih (pending.silent step)
    | some a =>
      obtain ⟨b', -, -, -, next⟩ := pending.recorded step
      exact ih next

theorem Pending.run {b : Blame} {s : WalkState} (n : Nat) (pending : Pending b s) :
    ∃ bs : List Blame, s.frames n = bs.flatMap frames ∧ (b :: bs).IsChain Leads ∧
      ∀ c ∈ bs, c.Justified := by
  induction n generalizing b s with
  | zero => exact ⟨[], rfl, .singleton b, by simp⟩
  | succ n ih =>
    obtain ⟨a?, -, step⟩ := step_advance pending.rejecting
    rw [frames_of_step step]
    cases a? with
    | none => exact ih (pending.silent step)
    | some a =>
      obtain ⟨b', leads, justified, same, next⟩ := pending.recorded step
      obtain ⟨bs, all, chain, ok⟩ := ih next
      refine ⟨b' :: bs, ?_, List.isChain_cons_cons.2 ⟨leads, chain⟩, ?_⟩
      · simp [all, same]
      · exact List.forall_mem_cons.2 ⟨justified, ok⟩

/-- The frames are those of rejections that are in order, the first one that of the call, each
other one inside the one before it. -/
def Accounts (op : Ty) (args : List Ty) (fs : List Frame) : Prop :=
  ∃ (b : Blame) (bs : List Blame), fs = (b :: bs).flatMap frames ∧ b.About op args ∧
    (b :: bs).IsChain Leads ∧ ∀ c ∈ b :: bs, c.Justified

end Blame

/-- The first step of the probe of a rejected call blames the call. -/
theorem blame_probe {op : Ty} {args : List Ty} (rejected : result? op args = none) :
    ∃ a s' b, Step (.probe op args) (some a) s' ∧ b.About op args ∧ b.Justified ∧
      a.frames = b.frames ∧ Pending b s' := by
  have step : Step (.probe op args) (some (rejection Ty.reveal? op args).1)
      (rejection Ty.reveal? op args).2 := step_rejection (.probe rejected) (by simp)
  exact ⟨_, _, (blame_asked (.probe rejected) rejected step).imp fun _ blamed => ⟨step, blamed⟩⟩

theorem accounts_probe (n : Nat) {op : Ty} {args : List Ty} (rejected : result? op args = none) :
    Accounts op args ((WalkState.probe op args).frames (n + 1)) := by
  obtain ⟨a, s', b, step, about, justified, same, pending⟩ := blame_probe rejected
  obtain ⟨bs, all, chain, ok⟩ := pending.run n
  refine ⟨b, bs, ?_, about, chain, List.forall_mem_cons.2 ⟨justified, ok⟩⟩
  rw [frames_of_step step, all, List.flatMap_cons, ← same]
  rfl

theorem asks_probe (n : Nat) {op op' : Ty} {args args' : List Ty}
    (asked : ((WalkState.probe op args).after n).Asks op' args') : result? op' args' = none := by
  cases hr : result? op args with
  | some r =>
    cases n with
    | zero =>
      cases asked
      assumption
    | succ n =>
      simp only [WalkState.after, advance, advanceBy, hr, after_done] at asked
      cases asked
  | none =>
    cases n with
    | zero =>
      cases asked
      assumption
    | succ n =>
      obtain ⟨a, s', b, step, -, -, -, pending⟩ := blame_probe hr
      obtain ⟨c, later⟩ := pending.after n
      rw [after_of_step step] at asked
      exact later.asks asked

/-- No walk blames what is in order, however early it is cut off. Where a step consults the account that
an operation gives of its rejections, and where it goes on inside an operation, the operation rejects. -/
theorem probeWithin_blames (n : Nat) (op : Ty) (args : List Ty) :
    (∀ k op' args', ((WalkState.probe op args).after k).Consults op' args' →
      result? op' args' = none) ∧
    (∀ k op' args', (WalkState.probe op args).after k = .nested op' args' →
      result? op' args' = none) ∧
    ∀ a, (probeWithin (n + 1) op args).failure? = some a → Accounts op args a.frames := by
  refine ⟨?_, ?_, ?_⟩
  · intro k op' args' consulted
    exact asks_probe k (consults_iff.1 consulted).1
  · intro k op' args' here
    have asked : ((WalkState.probe op args).after k).Asks op' args' := by
      rw [here]
      exact .nested
    exact asks_probe k asked
  · intro a failed
    cases hr : result? op args with
    | some r =>
      rw [probeWithin_of_accepted (Nat.succ_pos n) hr] at failed
      cases failed
    | none =>
      have all := frames_probeWithin (Nat.succ_pos n) hr
      rw [failed, Option.map_some, Option.some.injEq] at all
      rw [all]
      exact accounts_probe n hr

/-- In a fold of the larger of two, a number and a truth value are blamed. -/
theorem fold_max_blamed :
    (((WalkState.probe (.compress (.primitive .max)) [.i32, .bool]).after 2).Consults
        (.primitive .max) [.i32, .bool] ∧
      (WalkState.probe (.compress (.primitive .max)) [.i32, .bool]).after 2 =
        .nested (.primitive .max) [.i32, .bool] ∧
      result? (.primitive .max) [.i32, .bool] = none) ∧
    ∃ a, (probeWithin (47 + 1) (.compress (.primitive .max)) [.i32, .bool]).failure? = some a ∧
      Accounts (.compress (.primitive .max)) [.i32, .bool] a.frames := by
  obtain ⟨consulted, -, blamed⟩ := probeWithin_blames 47 (.compress (.primitive .max)) [.i32, .bool]
  constructor
  · have here : (WalkState.probe (.compress (.primitive .max)) [.i32, .bool]).after 2 =
        .nested (.primitive .max) [.i32, .bool] := by decide
    have consults : ((WalkState.probe (.compress (.primitive .max)) [.i32, .bool]).after 2).Consults
        (.primitive .max) [.i32, .bool] := by
      rw [here]
      exact consults_iff.2 ⟨.nested, rfl⟩
    exact ⟨consults, here, consulted 2 _ _ consults⟩
  · have rejected : result? (.compress (.primitive .max)) [.i32, .bool] = none := by decide
    have all := frames_probeWithin (n := 47 + 1) (by decide) rejected
    obtain ⟨a, failed, -⟩ := Option.map_eq_some_iff.1 all
    exact ⟨a, failed, blamed a failed⟩

end Callable
