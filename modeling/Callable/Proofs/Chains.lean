import Callable.Failure.Chain
import Mathlib.Algebra.Group.Defs
import Mathlib.Logic.ExistsUnique
set_option autoImplicit false

/-!
Failures and lists of frames. A failure is known by the frames of its chain, every list of frames but
the empty one is that of a failure, and attaching a cause appends the two lists. So failures are the
free semigroup of frames (`causedBy_free`): a product of frames in any semigroup extends to failures
in one way.
-/

namespace Callable

namespace Failure

theorem causedBy_assoc (a b c : Failure) :
    (a.causedBy b).causedBy c = a.causedBy (b.causedBy c) := by
  apply frames_injective
  simp only [frames_causedBy, List.append_assoc]

@[simp] theorem rootCause_causedBy (a b : Failure) : (a.causedBy b).rootCause = b.rootCause := by
  induction a with
  | root f => rfl
  | outer f c ih => exact ih

theorem frames_eq_iff {a b : Failure} : a.frames = b.frames ↔ a = b :=
  ⟨frames_injective, congrArg frames⟩

theorem exists_frames_iff {fs : List Frame} : (∃ a : Failure, a.frames = fs) ↔ fs ≠ [] := by
  constructor
  · rintro ⟨a, rfl⟩
    exact a.frames_ne_nil
  · intro nonempty
    obtain ⟨f, gs, rfl⟩ := List.exists_cons_of_ne_nil nonempty
    exact ⟨ofFrames f gs, frames_ofFrames f gs⟩

/-! ### Products of frames -/

section Semigroup

variable {S : Type} [Semigroup S]

/-- The product of what stands for the frames, in the order of the chain. -/
def product (value : Frame → S) : Failure → S
  | .root f => value f
  | .outer f c => value f * c.product value

theorem product_causedBy (value : Frame → S) (a b : Failure) :
    (a.causedBy b).product value = a.product value * b.product value := by
  induction a with
  | root f => rfl
  | outer f c ih => simp only [causedBy, product, ih, mul_assoc]

/-- A map that takes causes to products is known by what it does with single frames. -/
theorem eq_product {value : Frame → S} {φ : Failure → S} (single : ∀ f, φ (.root f) = value f)
    (split : ∀ a b, φ (a.causedBy b) = φ a * φ b) (a : Failure) : φ a = a.product value := by
  induction a with
  | root f => exact single f
  | outer f c ih =>
    calc φ (.outer f c) = φ ((Failure.root f).causedBy c) := rfl
      _ = value f * c.product value := by rw [split, single, ih]

theorem existsUnique_product (value : Frame → S) :
    ∃! φ : Failure → S, (∀ f, φ (.root f) = value f) ∧
      ∀ a b, φ (a.causedBy b) = φ a * φ b := by
  refine ⟨product value, ⟨fun _ => rfl, product_causedBy value⟩, ?_⟩
  rintro φ ⟨single, split⟩
  exact funext (eq_product single split)

end Semigroup

end Failure

/-! ### Chains -/

/-- However many steps have been made, the next ones yield the frames that are left, in order, and
after the last one nothing more. -/
theorem Chain.frame_next?_drop (a : Failure) (k n : Nat) :
    ((a.chain.drop k).drop n).next?.map (fun next => next.1.frame) = (a.frames.drop k)[n]? := by
  calc ((a.chain.drop k).drop n).next?.map (fun next => next.1.frame)
      = (a.links.map Failure.frame)[k + n]? := by
        rw [Chain.drop_drop, Chain.next?_drop, Option.map_map, List.getElem?_map]
        rfl
    _ = (a.frames.drop k)[n]? := by rw [Failure.map_frame_links, List.getElem?_drop]

/-- Failures are the free semigroup of the frames that their chains yield, where the product of two
failures is the first one caused by the second. A failure has the frames of the one and then those of
the other, and the root cause of the other; within a new frame it is the cause and nothing is changed
in it; it is known by its frames, which can be any but none. The chain yields the failure first, its
cause second and its root cause last, each of them once, and nothing more ever after. -/
theorem causedBy_free (a b c : Failure) :
    (∀ k n, ((a.chain.drop k).drop n).next?.map (fun next => next.1.frame) =
      (a.frames.drop k)[n]?) ∧
    (a.causedBy b).frames = a.frames ++ b.frames ∧
    (a.causedBy b).causedBy c = a.causedBy (b.causedBy c) ∧
    a.frames <+: (a.causedBy b).frames ∧
    (a.causedBy b).rootCause = b.rootCause ∧
    (∀ f, (a.within f).cause? = some a ∧ (a.within f).frames = f :: a.frames) ∧
    (a.frames = b.frames ↔ a = b) ∧
    ((∀ k, (a.chain.drop k).next? =
        a.links[k]?.map fun d => (d, a.chain.drop (k + 1))) ∧
      a.links[0]? = some a ∧ a.links[1]? = a.cause? ∧ a.links.getLast? = some a.rootCause) ∧
    (∀ fs, (∃ d : Failure, d.frames = fs) ↔ fs ≠ []) ∧
    ∀ (S : Type) [Semigroup S] (value : Frame → S), ∃! φ : Failure → S,
      (∀ f, φ (.root f) = value f) ∧ ∀ d e, φ (d.causedBy e) = φ d * φ e := by
  refine ⟨Chain.frame_next?_drop a, Failure.frames_causedBy a b, Failure.causedBy_assoc a b c, ?_,
    Failure.rootCause_causedBy a b, ?_, Failure.frames_eq_iff, ⟨?_, ?_, ?_, ?_⟩, ?_, ?_⟩
  · rw [Failure.frames_causedBy]
    exact List.prefix_append a.frames b.frames
  · intro f
    exact ⟨rfl, Failure.frames_within a f⟩
  · intro k
    exact Chain.next?_drop k a.chain
  · rw [Failure.links_eq_cons]
    rfl
  · exact Failure.getElem?_links_one a
  · exact Failure.getLast?_links a
  · intro fs
    exact Failure.exists_frames_iff
  · intro S _ value
    exact Failure.existsUnique_product value

end Callable
