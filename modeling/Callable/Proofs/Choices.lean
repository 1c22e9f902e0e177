import Callable.Run.Typing
import Callable.Run.Uniform
import Mathlib.Data.List.DropRight
set_option autoImplicit false

/-!
Which argument a fold of a maximum or a minimum picks. Some values may be in no order, not even with
themselves; the others are in a total preorder, in which two values may tie. Such a value makes a
maximum start again behind it, and a minimum takes no notice of it unless it is the first one. Of
values that tie, a maximum picks the last one and a minimum the first one (`folds_pick`).
-/

namespace Callable

section Order

variable {α : Type} (cmp : α → α → Option Ordering)

/-- The left value if it is greater, else the right one. -/
def maxBy (l r : α) : α := if cmp l r = some .gt then l else r

/-- The right value if it is less, else the left one. -/
def minBy (l r : α) : α := if cmp r l = some .lt then r else l

def AtMost (a b : α) : Prop := cmp a b = some .lt ∨ cmp a b = some .eq

def isOrdered (a : α) : Bool := (cmp a a).isSome

/-- The values are in a total preorder, but for those that are in no order with themselves: these are
in no order with any value. -/
structure PreorderedBy : Prop where
  swap : ∀ a b, cmp b a = (cmp a b).map Ordering.swap
  isSome : ∀ a b, (cmp a b).isSome = (isOrdered cmp a && isOrdered cmp b)
  trans : ∀ {a b c}, AtMost cmp a b → AtMost cmp b c → AtMost cmp a c

namespace PreorderedBy

variable {cmp} (ordered : PreorderedBy cmp)

include ordered

theorem lt_of_gt {a b : α} (gt : cmp a b = some .gt) : cmp b a = some .lt := by
  rw [ordered.swap a b, gt]
  rfl

theorem gt_of_lt {a b : α} (lt : cmp a b = some .lt) : cmp b a = some .gt := by
  rw [ordered.swap a b, lt]
  rfl

theorem atMost_of_not_gt {a b : α} (oa : isOrdered cmp a = true) (ob : isOrdered cmp b = true)
    (not_gt : cmp a b ≠ some .gt) : AtMost cmp a b := by
  have some_order : (cmp a b).isSome = true := by rw [ordered.isSome, oa, ob, Bool.and_self]
  obtain ⟨o, eq⟩ := Option.isSome_iff_exists.1 some_order
  cases o with
  | lt => exact .inl eq
  | eq => exact .inr eq
  | gt => exact absurd eq not_gt

theorem atMost_of_not_lt {a b : α} (oa : isOrdered cmp a = true) (ob : isOrdered cmp b = true)
    (not_lt : cmp b a ≠ some .lt) : AtMost cmp a b :=
  ordered.atMost_of_not_gt oa ob fun gt => not_lt (ordered.lt_of_gt gt)

theorem lt_of_lt_of_atMost {a b c : α} (lt : cmp a b = some .lt) (le : AtMost cmp b c) :
    cmp a c = some .lt := by
  rcases ordered.trans (.inl lt) le with less | tied
  · exact less
  · -- If `a` tied with `c`, then `b` would be at most `a`.
    have back : AtMost cmp c a := .inr (by rw [ordered.swap a c, tied]; rfl)
    have greater := ordered.gt_of_lt lt
    rcases ordered.trans le back with eq | eq
    · cases greater.symm.trans eq
    · cases greater.symm.trans eq

theorem eq_none_of_left {a : α} (unordered : isOrdered cmp a = false) (b : α) :
    cmp a b = none := by
  simpa [unordered] using ordered.isSome a b

theorem eq_none_of_right {b : α} (unordered : isOrdered cmp b = false) (a : α) :
    cmp a b = none := by
  simpa [unordered] using ordered.isSome a b

end PreorderedBy

/-! ### Picking from a list -/

/-- An element of the list that the elements before it and those behind it are related to. -/
def Picked (before behind : α → α → Prop) (ys : List α) (m : α) : Prop :=
  ∃ us vs, ys = us ++ m :: vs ∧ (∀ u ∈ us, before u m) ∧ ∀ v ∈ vs, behind v m

namespace Picked

variable {before behind : α → α → Prop} {ys : List α} {m x : α}

theorem single (x : α) : Picked before behind [x] x := ⟨[], [], by simp⟩

theorem mem (picked : Picked before behind ys m) : m ∈ ys := by
  obtain ⟨us, vs, rfl, -, -⟩ := picked
  simp

/-- One more element is behind the picked one. -/
theorem keep (picked : Picked before behind ys m) (rel : behind x m) :
    Picked before behind (ys ++ [x]) m := by
  obtain ⟨us, vs, rfl, first, last⟩ := picked
  refine ⟨us, vs ++ [x], by simp, first, ?_⟩
  intro v mem
  rcases List.mem_append.1 mem with mem | mem
  · exact last v mem
  · rwa [List.mem_singleton.1 mem]

/-- One more element is picked instead. -/
theorem take (picked : Picked before behind ys m)
    (rel : ∀ u, before u m ∨ u = m ∨ behind u m → before u x) :
    Picked before behind (ys ++ [x]) x := by
  obtain ⟨us, vs, rfl, first, last⟩ := picked
  refine ⟨us ++ m :: vs, [], rfl, ?_, by simp⟩
  intro u mem
  rcases List.mem_append.1 mem with mem | mem
  · exact rel u (.inl (first u mem))
  · rcases List.mem_cons.1 mem with eq | mem
    · exact rel u (.inr (.inl eq))
    · exact rel u (.inr (.inr (last u mem)))

end Picked

/-- The last of the greatest elements. -/
def LastGreatest : List α → α → Prop :=
  Picked (fun u m => AtMost cmp u m) (fun v m => cmp v m = some .lt)

/-- The first of the least elements. -/
def FirstLeast : List α → α → Prop :=
  Picked (fun u m => cmp m u = some .lt) (fun v m => AtMost cmp m v)

/-- What a maximum picks: of the elements behind the last one in no order, if there are any, the last
of the greatest. -/
def MaxPicks (ys : List α) (m : α) : Prop :=
  ∃ last, ys.getLast? = some last ∧
    if isOrdered cmp last then LastGreatest cmp (ys.rtakeWhile (isOrdered cmp)) m else m = last

/-- What a minimum picks: unless the first element is in no order, the first of the least ones among
those that are in order. -/
def MinPicks (ys : List α) (m : α) : Prop :=
  ∃ first, ys.head? = some first ∧
    if isOrdered cmp first then FirstLeast cmp (ys.filter (isOrdered cmp)) m else m = first

section Picks

variable {cmp} {ys : List α} {m : α}

theorem MaxPicks.single (x : α) : MaxPicks cmp [x] x := by
  refine ⟨x, rfl, ?_⟩
  split
  case isTrue ox =>
    have alone : [x].rtakeWhile (isOrdered cmp) = [x] := by simp [List.rtakeWhile, ox]
    rw [alone]
    exact .single x
  case isFalse => rfl

theorem MinPicks.single (x : α) : MinPicks cmp [x] x := by
  refine ⟨x, rfl, ?_⟩
  split
  case isTrue ox =>
    rw [List.filter_singleton, ox]
    exact .single x
  case isFalse => rfl

theorem MaxPicks.lastGreatest (picks : MaxPicks cmp ys m)
    (all : ∀ v ∈ ys, isOrdered cmp v = true) : LastGreatest cmp ys m := by
  obtain ⟨last, at_end, picks⟩ := picks
  rw [if_pos (all last (List.mem_of_getLast? at_end)), List.rtakeWhile_eq_self_iff.2 all] at picks
  exact picks

theorem MinPicks.firstLeast (picks : MinPicks cmp ys m)
    (all : ∀ v ∈ ys, isOrdered cmp v = true) : FirstLeast cmp ys m := by
  obtain ⟨first, at_start, picks⟩ := picks
  rw [if_pos (all first (List.mem_of_head? at_start)), List.filter_eq_self.2 all] at picks
  exact picks

end Picks

section Step

variable {cmp} (ordered : PreorderedBy cmp) {ys : List α} {m x : α}

include ordered

theorem LastGreatest.snoc_maxBy (om : isOrdered cmp m = true) (ox : isOrdered cmp x = true)
    (picked : LastGreatest cmp ys m) : LastGreatest cmp (ys ++ [x]) (maxBy cmp m x) := by
  unfold maxBy
  split
  case isTrue gt => exact picked.keep (ordered.lt_of_gt gt)
  case isFalse not_gt =>
    have le : AtMost cmp m x := ordered.atMost_of_not_gt om ox not_gt
    refine picked.take ?_
    rintro u (below | rfl | less)
    · exact ordered.trans below le
    · exact le
    · exact ordered.trans (.inl less) le

theorem FirstLeast.snoc_minBy (om : isOrdered cmp m = true) (ox : isOrdered cmp x = true)
    (picked : FirstLeast cmp ys m) : FirstLeast cmp (ys ++ [x]) (minBy cmp m x) := by
  unfold minBy
  split
  case isTrue lt =>
    refine picked.take ?_
    rintro u (less | rfl | above)
    · exact ordered.lt_of_lt_of_atMost lt (.inl less)
    · exact lt
    · exact ordered.lt_of_lt_of_atMost lt above
  case isFalse not_lt => exact picked.keep (ordered.atMost_of_not_lt om ox not_lt)

theorem maxBy_of_unordered (unordered : isOrdered cmp m = false ∨ isOrdered cmp x = false) :
    maxBy cmp m x = x := by
  apply if_neg
  rcases unordered with um | ux
  · simp [ordered.eq_none_of_left um x]
  · simp [ordered.eq_none_of_right ux m]

theorem minBy_of_unordered (unordered : isOrdered cmp m = false ∨ isOrdered cmp x = false) :
    minBy cmp m x = m := by
  apply if_neg
  rcases unordered with um | ux
  · simp [ordered.eq_none_of_right um x]
  · simp [ordered.eq_none_of_left ux m]

theorem MaxPicks.snoc (picks : MaxPicks cmp ys m) :
    MaxPicks cmp (ys ++ [x]) (maxBy cmp m x) := by
  obtain ⟨last, at_end, picks⟩ := picks
  refine ⟨x, List.getLast?_concat, ?_⟩
  cases ox : isOrdered cmp x with
  | false => exact maxBy_of_unordered ordered (.inr ox)
  | true =>
    rw [if_pos rfl, List.rtakeWhile_concat_pos _ _ _ ox]
    cases ol : isOrdered cmp last with
    | false =>
      -- The maximum starts again: no elements are in order at the end of the list.
      obtain rfl : m = last := by simpa [ol] using picks
      have none_left : ys.rtakeWhile (isOrdered cmp) = [] := by
        rw [List.rtakeWhile_eq_nil_iff]
        intro nonempty
        rw [List.getLast?_eq_some_getLast nonempty, Option.some.injEq] at at_end
        simp [at_end, ol]
      rw [none_left, maxBy_of_unordered ordered (.inl ol)]
      exact .single x
    | true =>
      have picked : LastGreatest cmp (ys.rtakeWhile (isOrdered cmp)) m := by
        simpa only [ol, if_true] using picks
      exact LastGreatest.snoc_maxBy ordered (List.mem_rtakeWhile_imp picked.mem) ox picked

theorem MinPicks.snoc (picks : MinPicks cmp ys m) :
    MinPicks cmp (ys ++ [x]) (minBy cmp m x) := by
  obtain ⟨first, at_start, picks⟩ := picks
  refine ⟨first, by rw [List.head?_append, at_start, Option.some_or], ?_⟩
  cases os : isOrdered cmp first with
  | false =>
    obtain rfl : m = first := by simpa [os] using picks
    exact minBy_of_unordered ordered (.inl os)
  | true =>
    have picked : FirstLeast cmp (ys.filter (isOrdered cmp)) m := by
      simpa only [os, if_true] using picks
    rw [if_pos rfl, List.filter_append]
    cases ox : isOrdered cmp x with
    | false =>
      rw [List.filter_singleton, ox, minBy_of_unordered ordered (.inr ox)]
      simpa using picked
    | true =>
      rw [List.filter_singleton, ox]
      exact FirstLeast.snoc_minBy ordered (List.mem_filter.1 picked.mem).2 ox picked

end Step

/-! ### Folds -/

/-- What holds of a list and what is picked from it is kept by a fold over more elements, if each step
keeps it. -/
theorem exists_foldFrom_eq_ok {holds : List α → α → Prop} {op : α → α → α}
    (step : ∀ ys m x, holds ys m → holds (ys ++ [x]) (op m x)) {ys : List α} {m : α}
    (now : holds ys m) (xs : List α) :
    ∃ r, (foldFrom (fun m x => .ok (op m x)) m xs : Except Overflow α) = .ok r ∧
      holds (ys ++ xs) r := by
  induction xs generalizing ys m with
  | nil => exact ⟨m, rfl, by rwa [List.append_nil]⟩
  | cons x xs ih =>
    obtain ⟨r, returned, after⟩ := ih (step ys m x now)
    exact ⟨r, returned, by rwa [List.append_assoc] at after⟩

variable {cmp} (ordered : PreorderedBy cmp) (x : α) (xs : List α)

include ordered

theorem MaxPicks.exists_foldFrom : ∃ greatest,
    (foldFrom (fun l r => .ok (maxBy cmp l r)) x xs : Except Overflow α) = .ok greatest ∧
      MaxPicks cmp (x :: xs) greatest := by
  have step : ∀ ys m x, MaxPicks cmp ys m → MaxPicks cmp (ys ++ [x]) (maxBy cmp m x) :=
    fun _ _ _ => MaxPicks.snoc ordered
  exact exists_foldFrom_eq_ok step (.single x) xs

theorem MinPicks.exists_foldFrom : ∃ least,
    (foldFrom (fun l r => .ok (minBy cmp l r)) x xs : Except Overflow α) = .ok least ∧
      MinPicks cmp (x :: xs) least := by
  have step : ∀ ys m x, MinPicks cmp ys m → MinPicks cmp (ys ++ [x]) (minBy cmp m x) :=
    fun _ _ _ => MinPicks.snoc ordered
  exact exists_foldFrom_eq_ok step (.single x) xs

end Order

/-! ### Values -/

section Values

variable {α : Type} {val : α → Value} {cmp : α → α → Option Ordering}

variable (val cmp) in
/-- The values of the type are of one kind, and compare as its elements do. -/
def ComparesAs : Prop :=
  ∀ a b, (val a).comparable (val b) = true ∧ (val a).compare? (val b) = cmp a b

theorem max_actsAs (compares : ComparesAs val cmp) :
    Leaf.max.ActsAs val fun l r => .ok (maxBy cmp l r) := by
  intro l r
  calc Leaf.max.apply [val l, val r] = .ok ((val l).max (val r)) := if_pos (compares l r).1
    _ = ending val (.ok (maxBy cmp l r)) := by
      simp only [Value.max, (compares l r).2, maxBy, ending, apply_ite val]

theorem min_actsAs (compares : ComparesAs val cmp) :
    Leaf.min.ActsAs val fun l r => .ok (minBy cmp l r) := by
  intro l r
  calc Leaf.min.apply [val l, val r] = .ok ((val l).min (val r)) := if_pos (compares l r).1
    _ = ending val (.ok (minBy cmp l r)) := by
      simp only [Value.min, (compares r l).2, minBy, ending, apply_ite val]

end Values

namespace Value

/-- Values without parts that are values. -/
def isScalar : Value → Bool
  | .pair _ _ | .list _ => false
  | _ => true

def isNaN : Value → Bool
  | .float x => x.isNaN
  | _ => false

def number : Value → Int
  | .int n => n.val
  | .float x => x.key
  | .bool b => b.toNat
  | .char c => c.toNat
  | .keyed k _ => k.val
  | _ => 0

def chars : Value → String
  | .str s | .string s => s
  | _ => ""

abbrev scalarOrder : Value → Value → Ordering := compareLex (compareOn number) (compareOn chars)

theorem compare_natCast (m n : Nat) : compare (m : Int) n = compare m n := by
  simp only [compare, compareOfLessAndEq, Int.ofNat_lt, Int.ofNat_inj]

theorem compare?_of_comparable {a b : Value} (scalar : a.isScalar = true)
    (comparable : a.comparable b = true) :
    a.compare? b = if a.isNaN || b.isNaN then none else some (scalarOrder a b) := by
  cases a <;> cases b <;>
    simp_all [Value.comparable, compare?, isScalar, isNaN, scalarOrder, compareLex, compareOn,
      number, chars, Binary.compare?, compare_natCast]

theorem isScalar_of_comparable {a b : Value} (scalar : a.isScalar = true)
    (comparable : a.comparable b = true) : b.isScalar = true := by
  cases a <;> cases b <;> simp_all [Value.comparable, isScalar]

theorem comparable_of_comparable {a b c : Value} (scalar : a.isScalar = true)
    (left : a.comparable b = true) (right : a.comparable c = true) : b.comparable c = true := by
  cases a <;> cases b <;> simp only [Value.comparable, Bool.false_eq_true] at left <;>
    cases c <;> simp_all [Value.comparable, isScalar]

/-- The values of the kind of a given one. -/
abbrev OfKind (a : Value) : Type := {b : Value // a.comparable b = true}

end Value

/-- What compares as in another order is in a preorder, but for what does not compare at all. -/
theorem preorderedBy_of_compare {α : Type} {cmp : α → α → Option Ordering}
    (order : α → α → Ordering) [Std.TransCmp order] (isNaN : α → Bool)
    (compared : ∀ a b, cmp a b = if isNaN a || isNaN b then none else some (order a b)) :
    PreorderedBy cmp := by
  have atMost_iff : ∀ a b, AtMost cmp a b ↔
      isNaN a = false ∧ isNaN b = false ∧ (order a b).isLE = true := by
    intro a b
    rw [AtMost, compared, Ordering.isLE_iff_eq_lt_or_eq_eq]
    cases isNaN a <;> cases isNaN b <;> simp
  refine ⟨?_, ?_, ?_⟩
  · intro a b
    have swapped : order b a = (order a b).swap := Std.OrientedCmp.eq_swap
    rw [compared, compared, Bool.or_comm, swapped]
    split <;> rfl
  · intro a b
    simp only [isOrdered, compared]
    cases isNaN a <;> cases isNaN b <;> rfl
  · intro a b c
    simp only [atMost_iff]
    rintro ⟨na, -, ab⟩ ⟨-, nc, bc⟩
    exact ⟨na, nc, Std.TransCmp.isLE_trans ab bc⟩

namespace Value

theorem comparesAs_ofKind {v : Value} (scalar : v.isScalar = true) :
    ComparesAs Subtype.val fun a b : OfKind v => a.1.compare? b.1 :=
  fun a b => ⟨comparable_of_comparable scalar a.2 b.2, rfl⟩

/-- The values of a kind are in a preorder, but for those that are no number, if they have no parts
that are values. -/
theorem preorderedBy_ofKind {v : Value} (scalar : v.isScalar = true) :
    PreorderedBy fun a b : OfKind v => a.1.compare? b.1 := by
  let order : OfKind v → OfKind v → Ordering :=
    compareLex (compareOn fun a => a.1.number) (compareOn fun a => a.1.chars)
  apply preorderedBy_of_compare order fun a => a.1.isNaN
  intro a b
  exact compare?_of_comparable (isScalar_of_comparable scalar a.2) (comparesAs_ofKind scalar a b).1

end Value

/-! ### The folds of the leaves -/

/-- A fold over values in a preorder picks one of them. The maximum is the last argument if that one
is in no order, and otherwise the last of the greatest among those behind the last one in no order.
The minimum is the first argument if that one is in no order, and otherwise the first of the least
among those in order. So where all are in order, the maximum is the last of the greatest and the
minimum the first of the least. The runs of the two leaves on values that compare in this way return
what is picked. -/
theorem folds_pick {α : Type} {cmp : α → α → Option Ordering} (ordered : PreorderedBy cmp)
    (x : α) (xs : List α) :
    ∃ greatest least,
      (foldFrom (fun l r => .ok (maxBy cmp l r)) x xs : Except Overflow α) = .ok greatest ∧
      (foldFrom (fun l r => .ok (minBy cmp l r)) x xs : Except Overflow α) = .ok least ∧
      MaxPicks cmp (x :: xs) greatest ∧ MinPicks cmp (x :: xs) least ∧
      ((∀ v ∈ x :: xs, isOrdered cmp v = true) →
        LastGreatest cmp (x :: xs) greatest ∧ FirstLeast cmp (x :: xs) least) ∧
      ∀ (set : Setting) (val : α → Value), ComparesAs val cmp →
        (x :: xs).length ≤ foldLimit →
          ((Op.compress (.leaf .max)).call set ((x :: xs).map val)).outcome = .ok (val greatest) ∧
          ((Op.compress (.leaf .min)).call set ((x :: xs).map val)).outcome = .ok (val least) := by
  obtain ⟨greatest, maxRun, picks⟩ := MaxPicks.exists_foldFrom ordered x xs
  obtain ⟨least, minRun, picks'⟩ := MinPicks.exists_foldFrom ordered x xs
  refine ⟨greatest, least, maxRun, minRun, picks, picks', ?_, ?_⟩
  · intro all
    exact ⟨picks.lastGreatest all, picks'.firstLeast all⟩
  · intro set val compares few
    have maxSeen := observe_compress_leaf (max_actsAs compares) set x few
    have minSeen := observe_compress_leaf (min_actsAs compares) set x few
    constructor
    · calc ((Op.compress (.leaf .max)).call set ((x :: xs).map val)).outcome
          = ending val (foldFrom (fun l r => .ok (maxBy cmp l r)) x xs) :=
            congrArg Observation.outcome maxSeen
        _ = .ok (val greatest) := by rw [maxRun]; rfl
    · calc ((Op.compress (.leaf .min)).call set ((x :: xs).map val)).outcome
          = ending val (foldFrom (fun l r => .ok (minBy cmp l r)) x xs) :=
            congrArg Observation.outcome minSeen
        _ = .ok (val least) := by rw [minRun]; rfl

/-- Of two zeros behind what is no number, the maximum is the second one, however great the number in
front is, and the minimum is the first one. Records with one key tie as the zeros do. -/
theorem zeros_and_records_tie :
    let float (n : Nat) (lt : n < Nat.pow 2 64) : Value := .float ⟨.double, n, lt⟩
    let one := float 0x3FF0000000000000 (by decide)
    let nan := float 0x7FF8000000000000 (by decide)
    let zero := float 0 (by decide)
    let negated := float 0x8000000000000000 (by decide)
    let numbers := [one, nan, zero, negated]
    let record (label : String) : Value := .keyed ⟨.i32, 1, by decide, by decide⟩ label
    let left : (record "left").OfKind := ⟨record "left", rfl⟩
    let right : (record "left").OfKind := ⟨record "right", rfl⟩
    let byKey (a b : (record "left").OfKind) := a.1.compare? b.1
    one.isScalar = true ∧ numbers.length ≤ foldLimit ∧
      ((Op.compress (.leaf .max)).call (typedSetting .off) numbers).outcome = .ok negated ∧
      ((Op.compress (.leaf .min)).call (typedSetting .off) numbers).outcome = .ok zero ∧
      PreorderedBy byKey ∧ (∀ r ∈ [left, right], isOrdered byKey r = true) ∧
      LastGreatest byKey [left, right] right ∧ FirstLeast byKey [left, right] left := by
  intro float one nan zero negated numbers record left right byKey
  have scalar : one.isScalar = true := rfl
  obtain ⟨greatest, least, maxRun, minRun, -, -, -, runs⟩ :=
    folds_pick (Value.preorderedBy_ofKind scalar) ⟨one, rfl⟩
      [⟨nan, rfl⟩, ⟨zero, rfl⟩, ⟨negated, rfl⟩]
  cases maxRun
  cases minRun
  obtain ⟨maxCall, minCall⟩ :=
    runs (typedSetting .off) Subtype.val (Value.comparesAs_ofKind scalar) (by decide)
  have ordered : PreorderedBy byKey := Value.preorderedBy_ofKind rfl
  have all : ∀ r ∈ [left, right], isOrdered byKey r = true := by
    intro r mem
    rcases List.mem_pair.1 mem with rfl | rfl <;> rfl
  obtain ⟨greatest, least, maxRun, minRun, -, -, picks, -⟩ := folds_pick ordered left [right]
  cases maxRun
  cases minRun
  exact ⟨rfl, by decide, maxCall, minCall, ordered, all, picks all⟩

end Callable
