import Callable.Failure.Basic
set_option autoImplicit false

/-!
A cursor over the chain of a failure. It yields the failure itself, then each cause in turn, and
nothing more once it has yielded the root cause.
-/

namespace Callable

namespace Failure

/-- The failure and its causes, each with all that comes after it. -/
def links : Failure → List Failure
  | .root f => [.root f]
  | .outer f c => .outer f c :: c.links

@[simp] theorem map_frame_links (a : Failure) : a.links.map frame = a.frames := by
  induction a with
  | root f => rfl
  | outer f c ih => simp [links, frame, ih]

theorem links_eq_cons (a : Failure) : a.links = a :: (a.cause?.map links).getD [] := by
  cases a <;> rfl

@[simp] theorem getLast?_links (a : Failure) : a.links.getLast? = some a.rootCause := by
  induction a with
  | root f => rfl
  | outer f c ih => simp [links, rootCause, List.getLast?_cons, ih]

@[simp] theorem getElem?_links_one (a : Failure) : a.links[1]? = a.cause? := by
  cases a with
  | root f => rfl
  | outer f c => simp [links, cause?, links_eq_cons c]

end Failure

structure Chain where
  rest : Option Failure
  deriving DecidableEq, Repr

namespace Chain

def next? (c : Chain) : Option (Failure × Chain) := c.rest.map fun a => (a, ⟨a.cause?⟩)

/-- The cursor after a step, whether or not the step yields a failure. -/
def advance (c : Chain) : Chain := ⟨c.rest.bind Failure.cause?⟩

/-- The cursor after a number of steps. An exhausted cursor stays as it is. -/
def drop : Nat → Chain → Chain
  | 0, c => c
  | _ + 1, ⟨none⟩ => ⟨none⟩
  | n + 1, ⟨some a⟩ => drop n ⟨a.cause?⟩

/-- The frames still to come. -/
def frames (c : Chain) : List Frame := (c.rest.map Failure.frames).getD []

/-- The failures still to come. -/
def links (c : Chain) : List Failure := (c.rest.map Failure.links).getD []

theorem next?_eq_some_iff {c c' : Chain} {a : Failure} :
    c.next? = some (a, c') ↔ c.rest = some a ∧ c' = c.advance := by
  cases h : c.rest <;> simp [next?, advance, h]
  rintro rfl
  constructor <;> exact fun h => h.symm

@[simp] theorem frames_advance (c : Chain) : c.advance.frames = c.frames.tail := by
  obtain ⟨_ | a⟩ := c
  · rfl
  · cases a <;> rfl

@[simp] theorem links_advance (c : Chain) : c.advance.links = c.links.tail := by
  obtain ⟨_ | a⟩ := c
  · rfl
  · cases a <;> rfl

theorem next?_eq (c : Chain) : c.next? = c.links.head?.map fun a => (a, c.advance) := by
  obtain ⟨_ | a⟩ := c
  · rfl
  · simp [next?, advance, links, Failure.links_eq_cons a]

@[simp] theorem fst_next? (c : Chain) : c.next?.map Prod.fst = c.rest := by
  obtain ⟨_ | a⟩ := c <;> rfl

@[simp] theorem head?_links (c : Chain) : c.links.head? = c.rest := by
  obtain ⟨_ | a⟩ := c
  · rfl
  · cases a <;> rfl

theorem links_of_next? {c c' : Chain} {a : Failure} (h : c.next? = some (a, c')) :
    c.links = a :: c'.links := by
  obtain ⟨yields, rfl⟩ := next?_eq_some_iff.1 h
  simp [links, yields, advance, Failure.links_eq_cons a]

theorem drop_advance (n : Nat) (c : Chain) : c.advance.drop n = c.drop (n + 1) := by
  obtain ⟨_ | a⟩ := c
  · cases n <;> rfl
  · rfl

@[simp] theorem frames_drop (n : Nat) (c : Chain) : (c.drop n).frames = c.frames.drop n := by
  induction n generalizing c with
  | zero => rfl
  | succ n ih => rw [← drop_advance, ih, frames_advance, List.drop_tail]

@[simp] theorem links_drop (n : Nat) (c : Chain) : (c.drop n).links = c.links.drop n := by
  induction n generalizing c with
  | zero => rfl
  | succ n ih => rw [← drop_advance, ih, links_advance, List.drop_tail]

@[simp] theorem drop_drop (k n : Nat) (c : Chain) : (c.drop k).drop n = c.drop (k + n) := by
  induction k generalizing c with
  | zero => rw [drop, Nat.zero_add]
  | succ k ih => rw [← drop_advance, ih, drop_advance, Nat.succ_add]

theorem advance_drop (n : Nat) (c : Chain) : (c.drop n).advance = c.drop (n + 1) := by
  rw [← drop_drop, ← drop_advance, drop]

/-- The steps yield the failures to come one by one, and nothing more after them. -/
theorem next?_drop (n : Nat) (c : Chain) :
    (c.drop n).next? = c.links[n]?.map fun a => (a, c.drop (n + 1)) := by
  rw [next?_eq, links_drop, List.head?_drop, advance_drop]

/-- Gives the failures to come to the step, one after the other. -/
def fold {σ : Type} (step : σ → Failure → σ) (s : σ) (c : Chain) : σ :=
  match yields : c.next? with
  | none => s
  | some (a, c') =>
    have : c'.links.length < c.links.length := by simp [links_of_next? yields]
    c'.fold step (step s a)
termination_by c.links.length

theorem fold_eq_foldl {σ : Type} (step : σ → Failure → σ) (s : σ) (c : Chain) :
    c.fold step s = c.links.foldl step s := by
  fun_induction fold step s c with
  | case1 s c ended =>
    have exhausted : c.rest = none := by rw [← fst_next?, ended, Option.map_none]
    rw [links, exhausted]
    rfl
  | case2 s c a c' yields _ ih =>
    rw [ih, links_of_next? yields]
    rfl

end Chain

namespace Failure

def chain (a : Failure) : Chain := ⟨some a⟩

@[simp] theorem frames_chain (a : Failure) : a.chain.frames = a.frames := rfl

@[simp] theorem links_chain (a : Failure) : a.chain.links = a.links := rfl

end Failure

end Callable
