import Callable.Proofs.Untraced
set_option autoImplicit false

/-!
Results outlive calls. A decorated call lends its data and its target for a region of its own, and
whichever region that is, as long as nothing else mentions it, no result mentions it either
(`result?_decorated_of_fresh`). What an enclosing call has lent and passed on is an argument like any
other, and may come back.
-/

namespace Callable

open Ty

theorem not_mem_callRegions_of_fresh {n : Nat} {us : List Ty}
    (fresh : ∀ u ∈ us, u.mentions n = false) : ¬∃ u ∈ us, n ∈ u.callRegions := by
  rintro ⟨u, hu, hn⟩
  have mentioned := mentions_iff.2 hn
  rw [fresh u hu] at mentioned
  cases mentioned

theorem fresh_decorated_iff {d t g : Ty} {xs : List Ty} {n : Nat} :
    (∀ u ∈ Ty.decorated d t g :: xs, u.mentions n = false) ↔
      ∀ u ∈ d :: t :: g :: xs, u.mentions n = false := by
  simp [mentions, callRegions, and_assoc]

/-- A result that mentions the region of the call is no result of the call, and any other one is. -/
theorem result?_decorated_of_fresh {d t g : Ty} {xs : List Ty} {n : Nat}
    (few : xs.length ≤ decoratedLimit) (fresh : ∀ u ∈ d :: t :: g :: xs, u.mentions n = false) :
    result? (.decorated d t g) xs =
      (result? d (decoratorArgs n t g xs)).filter fun r => !r.mentions n := by
  apply Option.ext
  intro r
  rw [result?_decorated_iff, Option.filter_eq_some_iff]
  constructor
  · rintro ⟨-, every⟩
    refine ⟨every (.call n), ?_⟩
    have silent : r.mentions n = false := by
      rw [Bool.eq_false_iff, Ne, mentions_iff]
      intro hn
      -- In the region of all time the call has the same result, and nothing left that mentions `n`.
      obtain ⟨u, hu, hmu⟩ := callRegions_of_result? (every .static) hn
      exact not_mem_callRegions_of_fresh fresh (mem_callRegions_borrowed (by simp) hu hmu)
    rw [silent]
    rfl
  · rintro ⟨asked, kept⟩
    refine ⟨few, fun ρ => ?_⟩
    obtain ⟨r', answer, same⟩ := result?_borrowed fresh ρ asked
    rw [answer, same (by simpa using kept)]

/-- Whatever call a result borrows from is mentioned in the operation or in an argument. So a
decorated call has the results of its decorator that do not mention the region of the call, however
that region is chosen; and what is passed through any number of decorated calls, borrowed from
an enclosing one or not, may come back as it is. -/
theorem result_outlives_call (op : Ty) (args : List Ty) :
    (∀ r, result? op args = some r →
      ∀ n ∈ r.callRegions, ∃ t ∈ op :: args, n ∈ t.callRegions) ∧
    (∀ d t g n, op = .decorated d t g → args.length ≤ decoratedLimit →
      (∀ u ∈ op :: args, u.mentions n = false) →
        result? op args = (result? d (decoratorArgs n t g args)).filter fun r => !r.mentions n) ∧
    (∀ layers : List TyAdaptor, Adaptor.untraced layers = [] → args.length ≤ decoratedLimit →
      result? (op.nest layers) args = result? op args) ∧
    ∀ (n : Nat) (t : Ty), result? (.compress op) [.ref (.call n) t] = some (.ref (.call n) t) := by
  refine ⟨?_, ?_, ?_, ?_⟩
  · intro r accepted n hn
    exact callRegions_of_result? accepted hn
  · rintro d t g n rfl few fresh
    exact result?_decorated_of_fresh few (fresh_decorated_iff.1 fresh)
  · intro layers traces few
    rw [result?_untraced op layers few, traces]
    rfl
  · intro n t
    rw [result?_compress_cons (by decide)]
    rfl

/-- The data that a call has lent comes back through a traced call inside it, but not out of the call
that has lent it. -/
theorem lent_data_outlives_trace :
    let inner := (Ty.primitive .lend).nest [.traced .str rfl]
    let lent := decoratorArgs 3 .i32 .bool []
    Adaptor.untraced [(.traced .str rfl : TyAdaptor)] = [] ∧ lent.length ≤ decoratedLimit ∧
      result? inner lent = some (.ref (.call 3) .i32) ∧
      3 ∈ (Ty.ref (.call 3) .i32).callRegions ∧ (∃ t ∈ inner :: lent, 3 ∈ t.callRegions) ∧
      (∀ u ∈ [Ty.decorated inner .i32 .bool], u.mentions 3 = false) ∧
      result? (.decorated inner .i32 .bool) [] = none ∧
      result? (.compress inner) [.ref (.call 3) .i32] = some (.ref (.call 3) .i32) := by
  intro inner lent
  obtain ⟨-, -, traced, -⟩ := result_outlives_call (.primitive .lend) lent
  have accepted : result? inner lent = some (.ref (.call 3) .i32) := by
    rw [traced [.traced .str rfl] rfl (by decide)]
    decide
  obtain ⟨borrowed, -, -, single⟩ := result_outlives_call inner lent
  obtain ⟨-, decorated, -⟩ := result_outlives_call (.decorated inner .i32 .bool) []
  have fresh : ∀ u ∈ [Ty.decorated inner .i32 .bool], u.mentions 3 = false := by decide
  have refused : result? (.decorated inner .i32 .bool) [] = none := by
    rw [decorated inner .i32 .bool 3 rfl (by decide) fresh, accepted]
    rfl
  exact ⟨rfl, by decide, accepted, by decide, borrowed _ accepted 3 (by decide), fresh, refused,
    single 3 .i32⟩

end Callable
