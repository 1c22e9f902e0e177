import Callable.Run.Typing
import Callable.Run.Uniform
set_option autoImplicit false

/-!
Folds of sums and products. The arithmetic of an integer type is exact, and it is checked: a result
that is not in the range of the type stops the run. So whether a fold returns is a matter of all its
partial results, of which the first is the start and each is the exact sum or product of the start and
some of the arguments (`Arithmetic.upTo`). What is said of a fold is kept in a structure
(`ExactFold`), with one lemma for each way in which a fold goes on.
-/

namespace Callable

abbrev Inside (lo hi n : Int) : Prop := lo ≤ n ∧ n ≤ hi

/-- The values of an integer type are the integers of a range. A type of `w` bits has the range from
`0` to `2 ^ w - 1`, or, with a sign, the range from `-2 ^ (w - 1)` to `2 ^ (w - 1) - 1`. -/
abbrev Ranged (lo hi : Int) : Type := {n : Int // Inside lo hi n}

/-- The integer of the range as a value of the kind. -/
def IntKind.value (k : IntKind) (n : Ranged k.lo k.hi) : Value := .int ⟨k, n, n.2.1, n.2.2⟩

inductive Arithmetic where
  | sum | product
  deriving DecidableEq, Repr

namespace Arithmetic

def leaf : Arithmetic → Leaf
  | .sum => .sum
  | .product => .product

def overflow : Arithmetic → Overflow
  | .sum => .add
  | .product => .multiply

def exact : Arithmetic → Int → Int → Int
  | .sum, m, n => m + n
  | .product, m, n => m * n

/-- The sum or the product of a list. -/
def total : Arithmetic → List Int → Int
  | .sum, ns => ns.foldr (· + ·) 0
  | .product, ns => ns.foldr (· * ·) 1

/-- The partial result after a number of calls, which is of the start and as many arguments. -/
def upTo (a : Arithmetic) (ns : List Int) (calls : Nat) : Int := a.total (ns.take (calls + 1))

theorem total_single (a : Arithmetic) (n : Int) : a.total [n] = n := by
  cases a with
  | sum => exact Int.add_zero n
  | product => exact Int.mul_one n

/-- The first call makes the start of the rest. -/
theorem total_cons_cons (a : Arithmetic) (m n : Int) (ns : List Int) :
    a.total (m :: n :: ns) = a.total (a.exact m n :: ns) := by
  cases a with
  | sum => exact (Int.add_assoc m n _).symm
  | product => exact (Int.mul_assoc m n _).symm

@[simp] theorem upTo_zero (a : Arithmetic) (m : Int) (ns : List Int) : a.upTo (m :: ns) 0 = m :=
  a.total_single m

@[simp] theorem upTo_succ (a : Arithmetic) (m n : Int) (ns : List Int) (calls : Nat) :
    a.upTo (m :: n :: ns) (calls + 1) = a.upTo (a.exact m n :: ns) calls :=
  a.total_cons_cons m n (ns.take calls)

variable {lo hi : Int}

/-- The operation of an integer type. -/
def checked (a : Arithmetic) (m n : Ranged lo hi) : Except Overflow (Ranged lo hi) :=
  if inside : Inside lo hi (a.exact m n) then .ok ⟨a.exact m n, inside⟩ else .error a.overflow

theorem checked_of_inside {a : Arithmetic} {m n : Ranged lo hi}
    (inside : Inside lo hi (a.exact m n)) : a.checked m n = .ok ⟨a.exact m n, inside⟩ :=
  dif_pos inside

theorem checked_of_outside {a : Arithmetic} {m n : Ranged lo hi}
    (outside : ¬Inside lo hi (a.exact m n)) : a.checked m n = .error a.overflow :=
  dif_neg outside

/-- The exact result is checked by the leaf as it is in the range of the kind. -/
theorem exactly_eq_ending (a : Arithmetic) (k : IntKind) (m n : Ranged k.lo k.hi) :
    Leaf.exactly a.overflow k (a.exact m n) = ending k.value (a.checked m n) := by
  by_cases inside : Inside k.lo k.hi (a.exact m n)
  · rw [checked_of_inside inside]
    simp only [Leaf.exactly, Integer.checked, Integer.ofInt?, dif_pos inside]
    rfl
  · rw [checked_of_outside inside, Leaf.exactly, Integer.checked_eq_error inside]
    rfl

/-- The leaves do with integers of a kind what is done in its range. -/
theorem leaf_actsAs (a : Arithmetic) (k : IntKind) : a.leaf.ActsAs k.value a.checked := by
  intro m n
  rw [← exactly_eq_ending]
  cases a <;> exact if_pos rfl

end Arithmetic

/-! ### Exact folds -/

/-- What is said of how a fold ends, and of its calls, if it is over a list of integers of which the
first one is the start. -/
structure ExactFold {lo hi : Int} (a : Arithmetic) (ns : List Int)
    (ended : Except Overflow (Ranged lo hi)) (calls : List (Application (Ranged lo hi))) : Prop where
  /-- Each call is for the next argument, with the partial result so far. -/
  call : ∀ i c, calls[i]? = some c → c.state.1 = a.upTo ns i ∧ ns[i + 1]? = some c.arg.1
  /-- Where all partial results are in the range, all calls are made and the last one returns the
  result. -/
  returned : (∀ i < ns.length, Inside lo hi (a.upTo ns i)) →
    (∃ v, ended = .ok v ∧ v.1 = a.total ns) ∧ calls.length + 1 = ns.length
  /-- The call that leads to the first partial result out of the range is the last one, whatever
  arguments are left. -/
  stopped : ∀ i, i + 1 < ns.length → (∀ j ≤ i, Inside lo hi (a.upTo ns j)) →
    ¬Inside lo hi (a.upTo ns (i + 1)) → ended = .error a.overflow ∧ calls.length = i + 1
  /-- What is returned is exact. -/
  unwrapped : ∀ v, ended = .ok v → v.1 = a.total ns

namespace ExactFold

variable {lo hi : Int} {a : Arithmetic} {z x : Ranged lo hi}

theorem nil : ExactFold a [z.1] (.ok z) [] where
  call := by simp
  returned := fun _ => ⟨⟨z, rfl, (a.total_single z.1).symm⟩, rfl⟩
  stopped := by simp
  unwrapped := by
    rintro v ⟨⟩
    exact (a.total_single z.1).symm

theorem cons_of_inside {ns : List Int} {ended : Except Overflow (Ranged lo hi)}
    {calls : List (Application (Ranged lo hi))} (inside : Inside lo hi (a.exact z x))
    (rest : ExactFold a (a.exact z x :: ns) ended calls) :
    ExactFold a (z.1 :: x.1 :: ns) ended (⟨z, x, .ok ⟨a.exact z x, inside⟩⟩ :: calls) where
  call := by
    intro i c called
    cases i with
    | zero =>
      cases called
      exact ⟨(a.upTo_zero z.1 _).symm, rfl⟩
    | succ i =>
      rw [Arithmetic.upTo_succ]
      exact rest.call i c called
  returned := by
    intro all
    have later : ∀ i < (a.exact z x :: ns).length, Inside lo hi (a.upTo (a.exact z x :: ns) i) := by
      intro i below
      rw [← Arithmetic.upTo_succ]
      exact all (i + 1) (Nat.succ_lt_succ below)
    obtain ⟨result, count⟩ := rest.returned later
    rw [Arithmetic.total_cons_cons]
    exact ⟨result, congrArg Nat.succ count⟩
  stopped := by
    intro i below before out
    rw [Arithmetic.upTo_succ] at out
    cases i with
    | zero => exact absurd inside (by simpa using out)
    | succ i =>
      have earlier : ∀ j ≤ i, Inside lo hi (a.upTo (a.exact z x :: ns) j) := by
        intro j upTo
        rw [← Arithmetic.upTo_succ]
        exact before (j + 1) (Nat.succ_le_succ upTo)
      obtain ⟨outcome, count⟩ := rest.stopped i (Nat.lt_of_succ_lt_succ below) earlier out
      exact ⟨outcome, congrArg Nat.succ count⟩
  unwrapped := by
    intro v ended
    rw [Arithmetic.total_cons_cons]
    exact rest.unwrapped v ended

theorem cons_of_outside (out : ¬Inside lo hi (a.exact z x)) (ns : List Int) :
    ExactFold a (z.1 :: x.1 :: ns) (.error a.overflow) [⟨z, x, .error a.overflow⟩] where
  call := by
    intro i c called
    cases i with
    | zero =>
      cases called
      exact ⟨(a.upTo_zero z.1 _).symm, rfl⟩
    | succ i => cases called
  returned := by
    intro all
    have second := all 1 (by simp)
    exact absurd (by simpa using second) out
  stopped := by
    intro i below before last
    cases i with
    | zero => exact ⟨rfl, rfl⟩
    | succ i =>
      have second := before 1 (by omega)
      exact absurd (by simpa using second) out
  unwrapped := by
    rintro v ⟨⟩

end ExactFold

theorem exactFold_foldFrom {lo hi : Int} (a : Arithmetic) (z : Ranged lo hi)
    (xs : List (Ranged lo hi)) :
    ExactFold a ((z :: xs).map Subtype.val) (foldFrom a.checked z xs) (applications a.checked z xs) := by
  induction xs generalizing z with
  | nil => exact .nil
  | cons x xs ih =>
    simp only [List.map_cons, foldFrom]
    by_cases inside : Inside lo hi (a.exact z x)
    · have ran := Arithmetic.checked_of_inside inside
      rw [applications_of_ok ran, ran]
      exact .cons_of_inside inside (ih ⟨a.exact z x, inside⟩)
    · have ran := Arithmetic.checked_of_outside inside
      rw [applications_of_error ran, ran]
      exact .cons_of_outside inside _

/-! ### The folds of the leaves -/

/-- The fold of a sum or a product over values of an integer type, from a seed or from the first
argument, returns the exact result if all partial results are in the range of the type. Otherwise it
stops for an overflow, and its last call is the one that leads to the first partial result out of the
range. This holds of every range, and the runs of the two leaves on integers of a kind, adapted or
folded directly, do what is done in the range of the kind. -/
theorem checked_fold_exact (a : Arithmetic) :
    (∀ (lo hi : Int) (z : Ranged lo hi) (xs : List (Ranged lo hi)),
      ExactFold a ((z :: xs).map Subtype.val) (foldFrom a.checked z xs)
        (applications a.checked z xs)) ∧
    (∀ (set : Setting) (k : IntKind) (z : Ranged k.lo k.hi) (xs : List (Ranged k.lo k.hi)),
      let seen := observedAs k.value a.leaf a.checked z xs
      (xs.length ≤ foldLimit →
        (Op.seeded (.leaf a.leaf) (k.value z)).observe set 1 (xs.map k.value) = seen ∧
        (Op.leaf a.leaf).fold set (k.value z) (xs.map k.value) =
          ⟨seen.outcome, seen.log, .leaf a.leaf⟩) ∧
      ((z :: xs).length ≤ foldLimit →
        (Op.compress (.leaf a.leaf)).observe set 1 ((z :: xs).map k.value) = seen ∧
        (Op.leaf a.leaf).foldSelf set ((z :: xs).map k.value) =
          ⟨seen.outcome, seen.log, .leaf a.leaf⟩)) ∧
    a.overflow.message = match a with
      | .sum => "attempt to add with overflow"
      | .product => "attempt to multiply with overflow" := by
  refine ⟨fun lo hi z xs => exactFold_foldFrom a z xs, ?_, ?_⟩
  · intro set k z xs seen
    have acts := a.leaf_actsAs k
    constructor
    · intro few
      exact ⟨observe_seeded_leaf acts set z few, fold_leaf acts set z few⟩
    · intro few
      exact ⟨observe_compress_leaf acts set z few, foldSelf_leaf acts set z few⟩
  · cases a <;> rfl

/-- A sum that is too large after the second call is not saved by the argument after it, and a product
may be the least of its type. -/
theorem cancelled_sum_overflows :
    let k := IntKind.i8
    let z : Ranged k.lo k.hi := ⟨100, by decide⟩
    let xs : List (Ranged k.lo k.hi) := [⟨27, by decide⟩, ⟨1, by decide⟩, ⟨-1, by decide⟩]
    let ns := (z :: xs).map Subtype.val
    let seeded := (Op.seeded (.leaf .sum) (k.value z)).observe (typedSetting .off) 1 (xs.map k.value)
    let unseeded := (Op.compress (.leaf .sum)).observe (typedSetting .off) 1
      ((z :: xs).map k.value)
    let m : Ranged k.lo k.hi := ⟨-8, by decide⟩
    let n : Ranged k.lo k.hi := ⟨16, by decide⟩
    xs.length ≤ foldLimit ∧ (z :: xs).length ≤ foldLimit ∧
      (∀ j ≤ 1, Inside k.lo k.hi (Arithmetic.sum.upTo ns j)) ∧
      ¬Inside k.lo k.hi (Arithmetic.sum.upTo ns 2) ∧ Inside k.lo k.hi (Arithmetic.sum.total ns) ∧
      seeded.outcome = .error (.overflow .add) ∧ seeded.calls.length = 2 ∧
      unseeded.outcome = .error (.overflow .add) ∧ unseeded.calls.length = 2 ∧
      (∀ i < 2, Inside k.lo k.hi (Arithmetic.product.upTo [-8, 16] i)) ∧
      ∃ v, foldFrom Arithmetic.product.checked m [n] = .ok v ∧ v.1 = -128 := by
  intro k z xs ns seeded unseeded m n
  obtain ⟨sums, runs, -⟩ := checked_fold_exact .sum
  obtain ⟨products, -, -⟩ := checked_fold_exact .product
  have before : ∀ j ≤ 1, Inside k.lo k.hi (Arithmetic.sum.upTo ns j) := by decide
  have out : ¬Inside k.lo k.hi (Arithmetic.sum.upTo ns 2) := by decide
  obtain ⟨ended, count⟩ := (sums k.lo k.hi z xs).stopped 1 (by decide) before out
  obtain ⟨seededRun, unseededRun⟩ := runs (typedSetting .off) k z xs
  have seen : ∀ o, o = observedAs k.value Arithmetic.sum.leaf Arithmetic.sum.checked z xs →
      o.outcome = .error (.overflow .add) ∧ o.calls.length = 2 := by
    rintro o rfl
    exact ⟨congrArg (ending k.value) ended, (List.length_map _).trans count⟩
  obtain ⟨stops, calls⟩ := seen seeded (seededRun (by decide)).1
  obtain ⟨stops', calls'⟩ := seen unseeded (unseededRun (by decide)).1
  have small : ∀ i < 2, Inside k.lo k.hi (Arithmetic.product.upTo [-8, 16] i) := by decide
  obtain ⟨⟨v, returned, exact⟩, -⟩ := (products k.lo k.hi m [n]).returned small
  exact ⟨by decide, by decide, before, out, by decide, stops, calls, stops', calls', small, v, returned,
    exact.trans (by decide)⟩

end Callable
