import Callable.Proofs.Seeding
set_option autoImplicit false

/-!
What follows a rejected argument is never looked at. A fold is rejected at the first argument that its
operation does not take after the state that the arguments before it have reached (`RejectsAt`).
Whatever follows that argument, the fold is rejected (`RejectsAt.result?_eq_none`), and its walk
records the same frames inside the fold, step by step (`frames_fold_congr`), so that it is cut off at
the same place too.
-/

namespace Callable

open WalkState

/-- The folds that start at all: those from a seed need a copy of it. -/
def Ty.isFold : Ty → Bool
  | .compress _ => true
  | .seeded _ z => z.isClone
  | _ => false

/-- The fold takes the arguments `done`, and it does not take `y` after them. -/
inductive RejectsAt : Ty → List Ty → Ty → Prop
  | compress {f x s y : Ty} {done : List Ty} (reached : foldResult? f x done = some s)
      (stopped : result? f [s, y] = none) : RejectsAt (.compress f) (x :: done) y
  | seeded {f z s y : Ty} {done : List Ty} (copies : z.isClone = true)
      (reached : foldResult? f z done = some s) (stopped : result? f [s, y] = none) :
      RejectsAt (.seeded f z) done y

/-! ### Rejection -/

theorem RejectsAt.result?_eq_none {op y : Ty} {done : List Ty} (h : RejectsAt op done y)
    (rest : List Ty) : result? op (done ++ y :: rest) = none := by
  by_cases few : (done ++ y :: rest).length ≤ functionLimit
  · cases h with
    | @compress f x s _ done reached stopped =>
      have within : (done ++ y :: rest).length < foldLimit := few
      rw [List.cons_append, result?_compress_cons within]
      exact foldResult?_eq_none_iff.2 ⟨done, s, y, rest, rfl, reached, stopped⟩
    | seeded copies reached stopped =>
      rw [result?_seeded few, if_pos copies]
      exact foldResult?_eq_none_iff.2 ⟨done, _, y, rest, rfl, reached, stopped⟩
  · exact result?_eq_none_of_length (Nat.lt_of_not_le few)

/-- A fold that is rejected is rejected at one of its arguments. -/
theorem exists_rejectsAt {op : Ty} {args : List Ty} (folds : op.isFold = true) (some_arg : args ≠ [])
    (few : args.length ≤ foldLimit) (rejected : result? op args = none) :
    ∃ done y rest, args = done ++ y :: rest ∧ RejectsAt op done y := by
  cases op with
  | compress f =>
    cases args with
    | nil => exact absurd rfl some_arg
    | cons x xs =>
      rw [result?_compress_cons few] at rejected
      obtain ⟨done, s, y, rest, rfl, reached, stopped⟩ := foldResult?_eq_none_iff.1 rejected
      exact ⟨x :: done, y, rest, rfl, .compress reached stopped⟩
  | seeded f z =>
    have copies : z.isClone = true := folds
    rw [result?_seeded few, if_pos copies] at rejected
    obtain ⟨done, s, y, rest, rfl, reached, stopped⟩ := foldResult?_eq_none_iff.1 rejected
    exact ⟨done, y, rest, rfl, .seeded copies reached stopped⟩
  | _ => cases folds

/-! ### Walks -/

/-- Up to the step that is rejected the walk records nothing, and from there on it is at the rejected
pair, with the rest left behind. -/
theorem frames_fold_congr {f z s y : Ty} {done : List Ty} (reached : foldResult? f z done = some s)
    (stopped : result? f [s, y] = none) (rest rest' : List Ty) (n : Nat) :
    (WalkState.fold f z (done ++ y :: rest)).frames n =
      (WalkState.fold f z (done ++ y :: rest')).frames n := by
  induction n generalizing z done with
  | zero => rfl
  | succ n ih =>
    cases done with
    | nil =>
      cases reached
      rw [List.nil_append, List.nil_append, frames_of_step (.foldStop stopped),
        frames_of_step (.foldStop stopped)]
    | cons x done =>
      obtain ⟨z', step, next⟩ := Option.bind_eq_some_iff.1 reached
      rw [List.cons_append, List.cons_append, frames_of_step (.foldStep step),
        frames_of_step (.foldStep step), ih next]

/-- Only the frame of the fold itself shows what follows the rejected argument. -/
theorem RejectsAt.frames_probe {op y : Ty} {done : List Ty} (h : RejectsAt op done y) (n : Nat) :
    ∃ inner, ∀ rest, (WalkState.probe op (done ++ y :: rest)).frames (n + 1) =
      ⟨.fold, op.name, (done ++ y :: rest).map Ty.name⟩ :: inner := by
  have rejected := h.result?_eq_none
  cases h with
  | @compress f x s _ done reached stopped =>
    refine ⟨(WalkState.fold f x (done ++ [y])).frames n, fun rest => ?_⟩
    have refused : result? (.compress f) (x :: (done ++ y :: rest)) = none := rejected rest
    rw [List.cons_append, frames_probe_layer .compress refused,
      frames_fold_congr reached stopped rest []]
  | @seeded f z s _ _ copies reached stopped =>
    cases n with
    | zero => exact ⟨[], fun rest => frames_probe_layer .seeded (rejected rest) 0⟩
    | succ n =>
      refine ⟨(WalkState.fold f z (done ++ [y])).frames n, fun rest => ?_⟩
      rw [frames_probe_layer .seeded (rejected rest), frames_seed copies,
        frames_fold_congr reached stopped rest []]

theorem RejectsAt.failure?_probeWithin {op y : Ty} {done : List Ty} (h : RejectsAt op done y)
    (n : Nat) :
    ∃ inner, ∀ rest, (probeWithin (n + 1) op (done ++ y :: rest)).failure?.map Failure.frames =
      some (⟨.fold, op.name, (done ++ y :: rest).map Ty.name⟩ :: inner) := by
  obtain ⟨inner, same⟩ := h.frames_probe n
  refine ⟨inner, fun rest => ?_⟩
  rw [frames_probeWithin (Nat.succ_pos n) (h.result?_eq_none rest), same]

/-- A rejected fold is rejected at one of its arguments, and nothing after that argument is looked at:
whatever follows, the fold is rejected, and however many steps the walk may take, the chain has the
same frames after that of the fold itself. So nothing that is added to a rejected list makes the fold
accept it. -/
theorem fold_ignores_rest (op : Ty) :
    (∀ args, op.isFold = true → args ≠ [] → args.length ≤ foldLimit → result? op args = none →
      ∃ done y rest, args = done ++ y :: rest ∧ RejectsAt op done y) ∧
    (∀ done y, RejectsAt op done y →
      (∀ rest, result? op (done ++ y :: rest) = none) ∧
      ∀ n, ∃ inner, ∀ rest,
        (probeWithin (n + 1) op (done ++ y :: rest)).failure?.map Failure.frames =
          some (⟨.fold, op.name, (done ++ y :: rest).map Ty.name⟩ :: inner)) ∧
    ∀ args more, op.isFold = true → args ≠ [] → result? op args = none →
      result? op (args ++ more) = none := by
  refine ⟨fun args => exists_rejectsAt, ?_, ?_⟩
  · intro done y stops
    exact ⟨stops.result?_eq_none, stops.failure?_probeWithin⟩
  · intro args more folds some_arg rejected
    by_cases few : args.length ≤ foldLimit
    · obtain ⟨done, y, rest, rfl, stops⟩ := exists_rejectsAt folds some_arg few rejected
      rw [List.append_assoc, List.cons_append]
      exact stops.result?_eq_none (rest ++ more)
    · apply result?_eq_none_of_length
      rw [List.length_append]
      exact Nat.lt_add_right more.length (Nat.lt_of_not_le few)

/-- A traced fold inside a fold stops at the truth value, whatever comes after it. -/
theorem traced_fold_ignores_rest :
    let op := Ty.compress (.decorated (.primitive .trace) .str (.compress (.primitive .max)))
    op.isFold = true ∧ [Ty.i32, .i32, .bool, .char] ≠ [] ∧
      [Ty.i32, .i32, .bool, .char].length ≤ foldLimit ∧
      result? op [.i32, .i32, .bool, .char] = none ∧
      RejectsAt op [.i32, .i32] .bool ∧
      (∃ done y rest, [Ty.i32, .i32, .bool, .char] = done ++ y :: rest ∧ RejectsAt op done y) ∧
      result? op [.i32, .i32, .bool, .i32, .i32] = none ∧
      (∃ inner,
        (probe op [.i32, .i32, .bool, .char]).failure?.map Failure.frames =
          some (⟨.fold, op.name, ["i32", "i32", "bool", "char"]⟩ :: inner) ∧
        (probe op [.i32, .i32, .bool, .i32, .i32]).failure?.map Failure.frames =
          some (⟨.fold, op.name, ["i32", "i32", "bool", "i32", "i32"]⟩ :: inner)) ∧
      result? op ([.i32, .i32, .bool, .char] ++ [.u8]) = none := by
  intro op
  have rejected : result? op [.i32, .i32, .bool, .char] = none := by decide
  have stops : RejectsAt op [.i32, .i32] .bool := .compress (s := .i32) (by decide) (by decide)
  obtain ⟨stop, rest, longer⟩ := fold_ignores_rest op
  obtain ⟨none, chains⟩ := rest [.i32, .i32] .bool stops
  obtain ⟨inner, same⟩ := chains 47
  exact ⟨rfl, by decide, by decide, rejected, stops, stop _ rfl (by decide) (by decide) rejected,
    none [.i32, .i32], ⟨inner, same [.char], same [.i32, .i32]⟩,
    longer _ [.u8] rfl (by decide) rejected⟩

end Callable
