import Callable.Failure.Text
import Mathlib.Logic.Function.Iterate
set_option autoImplicit false

/-!
What a failure reads like. The display writes a line for each cause that the chain yields, and an
error leads to its source; both go the way of the frames, meet each of them once and end at the root
cause (`displays_follow_chain`).
-/

namespace Callable

namespace Failure

@[simp] theorem map_text_links (a : Failure) : a.links.map text = a.frames.map Frame.text := by
  rw [← map_frame_links, List.map_map]
  rfl

/-! ### The display -/

/-- To write lines below what is written is to join them to it. -/
theorem foldl_lines (written : String) (causes : List Failure) :
    causes.foldl (fun lines cause => lines ++ "\ncaused by: " ++ cause.text) written =
      "\ncaused by: ".intercalate (written :: causes.map text) := by
  induction causes generalizing written with
  | nil => exact String.intercalate_singleton.symm
  | cons c cs ih =>
    rw [List.foldl_cons, ih, String.intercalate_cons_append, List.map_cons,
      String.intercalate_cons_cons]

theorem full_eq_intercalate (a : Failure) :
    a.full = "\ncaused by: ".intercalate (a.frames.map Frame.text) := by
  have below : a.links = a :: (a.chain.drop 1).links := by
    rw [Chain.links_drop, links_chain, links_eq_cons a]
    rfl
  calc a.full = "\ncaused by: ".intercalate (a.text :: (a.chain.drop 1).links.map text) := by
        rw [full, Chain.fold_eq_foldl, foldl_lines]
    _ = "\ncaused by: ".intercalate (a.frames.map Frame.text) := by
        rw [← List.map_cons, ← below, map_text_links]

theorem full_causedBy (a b : Failure) :
    (a.causedBy b).full = a.full ++ "\ncaused by: " ++ b.full := by
  have lines (c : Failure) : c.frames.map Frame.text ≠ [] :=
    fun h => c.frames_ne_nil (List.map_eq_nil_iff.1 h)
  simp only [full_eq_intercalate, frames_causedBy, List.map_append]
  exact String.intercalate_append_of_ne_nil (lines a) (lines b)

/-! ### The sources -/

theorem frames_of_source?_eq_none {a : Failure} (h : a.source? = none) : a.frames = [a.frame] := by
  rw [frames_eq_frame_cons, ← source?, h]
  rfl

theorem sources_eq_tail (a : Failure) : a.sources = (a.frames.map Frame.text).tail := by
  fun_induction sources a with
  | case1 a ended =>
    rw [frames_of_source?_eq_none ended]
    rfl
  | case2 a b found _ ih =>
    rw [ih, frames_of_source? found, frames_eq_frame_cons b]
    rfl

/-- From source to source an error leads where the steps of its chain do. -/
theorem iterate_source? (n : Nat) (c : Chain) :
    (fun d => d.bind source?)^[n] c.rest = (c.drop n).rest := by
  induction n generalizing c with
  | zero => rfl
  | succ n ih =>
    calc (fun d => d.bind source?)^[n + 1] c.rest
        = (fun d => d.bind source?)^[n] c.advance.rest := rfl
      _ = (c.drop (n + 1)).rest := by rw [ih, Chain.drop_advance]

end Failure

/-- The display and the sources of a failure go along its chain. Caused by another failure it is
displayed as before, and below it as the other one is. Its display has the lines of all that the chain
yields, each once and in order; its sources have the same lines but the first. From source to source
an error leads through the chain, and from the root cause to nothing. -/
theorem displays_follow_chain (a b : Failure) :
    (a.causedBy b).full = a.full ++ "\ncaused by: " ++ b.full ∧
    (∀ n, (a.chain.drop n).next?.map Prod.fst = a.links[n]?) ∧
    a.full = "\ncaused by: ".intercalate (a.links.map Failure.text) ∧
    a.sources = (a.links.map Failure.text).tail ∧
    ∀ n, (fun d => d.bind Failure.source?)^[n] (some a) = a.links[n]? := by
  have yields (n : Nat) : (a.chain.drop n).rest = a.links[n]? := by
    rw [← Chain.head?_links, Chain.links_drop, List.head?_drop, Failure.links_chain]
  refine ⟨Failure.full_causedBy a b, ?_, ?_, ?_, ?_⟩
  · intro n
    rw [Chain.fst_next?, yields]
  · rw [Failure.map_text_links, Failure.full_eq_intercalate]
  · rw [Failure.map_text_links, Failure.sources_eq_tail]
  · intro n
    rw [← yields]
    exact Failure.iterate_source? n a.chain

end Callable
