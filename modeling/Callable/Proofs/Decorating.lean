import Callable.Proofs.Blame
set_option autoImplicit false

/-!
What decorated calls are accepted. The call and the walk that explains its rejection ask the decorator
in almost the same way: both lend it the data and the target in every region, and the call wants one
result of all regions besides (`accepts_decorated_iff`). Where the decorator does not accept in every
region both reject, and the walk blames the decorator (`chain_of_refused`).
-/

namespace Callable

open WalkState

section

variable {d t g : Ty} {xs : List Ty}

/-- The call is accepted if the decorator accepts in every region, always with the same result. -/
theorem accepts_decorated_iff :
    accepts (.decorated d t g) xs = true ↔ TakesCall d t g xs ∧
      ∀ ρ ρ', result? d (.ref ρ t :: .ref ρ g :: xs) = result? d (.ref ρ' t :: .ref ρ' g :: xs) := by
  rw [accepts_iff]
  constructor
  · rintro ⟨r, answer⟩
    obtain ⟨few, every⟩ := result?_decorated_iff.1 answer
    exact ⟨⟨few, fun ρ => accepts_iff.2 ⟨r, every ρ⟩⟩, fun ρ ρ' => (every ρ).trans (every ρ').symm⟩
  · rintro ⟨⟨few, every⟩, same⟩
    obtain ⟨r, answer⟩ := accepts_iff.1 (every .static)
    exact ⟨r, result?_decorated_iff.2 ⟨few, fun ρ => (same ρ .static).trans answer⟩⟩

theorem result?_decorated_of_refused (refused : ¬TakesCall d t g xs) :
    result? (.decorated d t g) xs = none := by
  rw [← Option.not_isSome_iff_eq_none]
  intro accepted
  exact refused (accepts_decorated_iff.1 accepted).1

/-- The operands of the decorator are the references, and then the arguments of the call. -/
theorem decoratorFrame_eq (d t g : Ty) (xs : List Ty) :
    decoratorFrame d t g xs =
      ⟨.decoratorOperation, d.name, ("&" ++ t.name) :: ("&" ++ g.name) :: xs.map Ty.name⟩ := by
  rfl

theorem frames_decorator_refused (refused : ¬TakesCall d t g xs) (n : Nat) :
    (WalkState.decorator d t g xs).frames (n + 1) =
      decoratorFrame d t g xs :: (WalkState.target g xs).frames n :=
  frames_of_step (.refused refused) n

/-- A decorator that does not accept the call in every region is blamed in the second frame. -/
theorem chain_of_refused (refused : ¬TakesCall d t g xs) (n : Nat) :
    ∃ inner, (probeWithin (n + 2) (.decorated d t g) xs).failure?.map Failure.frames =
      some (⟨.decorated, (Ty.decorated d t g).name, xs.map Ty.name⟩ ::
        decoratorFrame d t g xs :: inner) := by
  have rejected := result?_decorated_of_refused refused
  refine ⟨(WalkState.target g xs).frames n, ?_⟩
  rw [frames_probeWithin (Nat.succ_pos _) rejected, frames_probe_layer .decorated rejected,
    frames_decorator_refused refused]

end

/-- A decorated call has the result that its decorator has in every region, so it is accepted if the
decorator accepts in every region, always with one result. Where it does not accept in every region,
the call is rejected, and the second frame of the chain names the decorator and its operands. The walk
asks the decorator with the same answer as the call, unless the decorator accepts in every region with
results that are not the same. -/
theorem decorated_as_decorator (d t g : Ty) (xs : List Ty) (few : xs.length ≤ decoratedLimit) :
    (∀ r, result? (.decorated d t g) xs = some r ↔
      ∀ ρ, result? d (.ref ρ t :: .ref ρ g :: xs) = some r) ∧
    (accepts (.decorated d t g) xs = true ↔
      (∀ ρ, accepts d (.ref ρ t :: .ref ρ g :: xs) = true) ∧ ∀ ρ ρ',
        result? d (.ref ρ t :: .ref ρ g :: xs) = result? d (.ref ρ' t :: .ref ρ' g :: xs)) ∧
    ((¬∀ ρ, accepts d (.ref ρ t :: .ref ρ g :: xs) = true) →
      result? (.decorated d t g) xs = none ∧ ∀ n, ∃ inner,
        (probeWithin (n + 2) (.decorated d t g) xs).failure?.map Failure.frames =
          some (⟨.decorated, (Ty.decorated d t g).name, xs.map Ty.name⟩ ::
            ⟨.decoratorOperation, d.name, ("&" ++ t.name) :: ("&" ++ g.name) :: xs.map Ty.name⟩ ::
              inner)) ∧
    ((¬∀ ρ, accepts d (.ref ρ t :: .ref ρ g :: xs) = true) ∨ (∀ ρ ρ',
        result? d (.ref ρ t :: .ref ρ g :: xs) = result? d (.ref ρ' t :: .ref ρ' g :: xs)) →
      decoratorAccepts d t g xs = accepts (.decorated d t g) xs) := by
  have takes : TakesCall d t g xs ↔ ∀ ρ, accepts d (.ref ρ t :: .ref ρ g :: xs) = true :=
    and_iff_right few
  refine ⟨?_, ?_, ?_, ?_⟩
  · intro r
    rw [result?_decorated_iff]
    exact and_iff_right few
  · rw [accepts_decorated_iff, takes]
  · rw [← takes]
    intro refused
    refine ⟨result?_decorated_of_refused refused, fun n => ?_⟩
    rw [← decoratorFrame_eq]
    exact chain_of_refused refused n
  · rw [← takes, Bool.eq_iff_iff, decoratorAccepts_iff, accepts_decorated_iff]
    rintro (refused | same)
    · exact ⟨fun taken => absurd taken refused, fun accepted => accepted.1⟩
    · exact ⟨fun taken => ⟨taken, same⟩, fun accepted => accepted.1⟩

/-- A traced maximum takes two numbers, in every region with the same result, and it does not take a
number and a truth value. -/
theorem traced_max_as_trace :
    let d := Ty.primitive .trace
    let g := Ty.compress (.primitive .max)
    [Ty.i32, .bool].length ≤ decoratedLimit ∧
      (¬∀ ρ, accepts d [.ref ρ .str, .ref ρ g, .i32, .bool] = true) ∧
      result? (.decorated d .str g) [.i32, .bool] = none ∧
      (∃ inner, (probe (.decorated d .str g) [.i32, .bool]).failure?.map Failure.frames =
        some (⟨.decorated, (Ty.decorated d .str g).name, ["i32", "bool"]⟩ ::
          ⟨.decoratorOperation, d.name, ["&&str", "&" ++ g.name, "i32", "bool"]⟩ :: inner)) ∧
      [Ty.i32, .i32].length ≤ decoratedLimit ∧
      (∀ ρ, result? d [.ref ρ .str, .ref ρ g, .i32, .i32] = some .i32) ∧
      decoratorAccepts d .str g [.i32, .i32] = accepts (.decorated d .str g) [.i32, .i32] := by
  intro d g
  have refused : ¬∀ ρ, accepts d [.ref ρ .str, .ref ρ g, .i32, .bool] = true :=
    fun every => absurd (every .static) (by decide)
  obtain ⟨-, -, blamed, -⟩ := decorated_as_decorator d .str g [.i32, .bool] (by decide)
  obtain ⟨law, -, -, agree⟩ := decorated_as_decorator d .str g [.i32, .i32] (by decide)
  have results : ∀ ρ, result? d [.ref ρ .str, .ref ρ g, .i32, .i32] = some .i32 :=
    (law .i32).1 (by decide)
  exact ⟨by decide, refused, (blamed refused).1, (blamed refused).2 46, by decide, results,
    agree (.inr fun ρ ρ' => (results ρ).trans (results ρ').symm)⟩

/-- A decorator that returns what it has been lent accepts in every region, but its result is another
one in each. The decorated call is rejected, and the decorator is not blamed for it. -/
theorem borrowed_result_refused :
    let lend := Ty.primitive .lend
    let call := Ty.decorated lend .i32 .i32
    ([] : List Ty).length ≤ decoratedLimit ∧
      (¬(accepts call [] = true ↔ ∀ ρ, accepts lend [.ref ρ .i32, .ref ρ .i32] = true)) ∧
      (¬(accepts call [] = false → ∃ a f, (probe call []).failure? = some a ∧
        a.frames[1]? = some f ∧ f.site = .decoratorOperation)) ∧
      decoratorAccepts lend .i32 .i32 [] ≠ accepts call [] := by
  intro lend call
  have rejected : accepts call [] = false := by decide
  have taken : decoratorAccepts lend .i32 .i32 [] = true := by decide
  refine ⟨by decide, ?_, ?_, ?_⟩
  · rintro ⟨-, law⟩
    have accepted := law (decoratorAccepts_iff.1 taken).2
    rw [rejected] at accepted
    cases accepted
  · intro blamed
    obtain ⟨a, f, failed, second, -⟩ := blamed rejected
    have all : (probe call []).failure?.map Failure.frames =
        some [⟨.decorated, call.name, []⟩] := by decide
    rw [failed] at all
    rw [Option.some.inj all] at second
    cases second
  · rw [taken, rejected]
    decide

end Callable
