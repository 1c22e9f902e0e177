import Callable.Proofs.Values
import Callable.Resolution.Result
set_option autoImplicit false

/-!
Leaves and their types. A leaf does with values what its type does with their types
(`agrees_apply`): it returns a value of the result type if the type accepts, unless an integer
overflows, and no value if it does not.
-/

namespace Callable

/-- How a run may end if its type has the given result. An overflow can come first in any case. -/
inductive Agrees : Except Stop Value → Option Ty → Prop
  | value {v : Value} {r : Ty} (typed : v.HasType r) : Agrees (.ok v) (some r)
  | overflow {o : Overflow} {r? : Option Ty} : Agrees (.error (.overflow o)) r?
  | rejected : Agrees (.error .notInvocable) none

theorem Rule.result?_guard (b : Bool) (r : Ty) :
    (Rule.guard b r).result? = if b then some r else none := by
  cases b <;> rfl

theorem Rule.result?_ofOption (r? : Option Ty) : (Rule.ofOption r?).result? = r? := by
  cases r? <;> rfl

theorem agrees_exactly {o : Overflow} {k : IntKind} {a : Atom} (n : Int)
    (kind : k.atom? = some a) : Agrees (Leaf.exactly o k n) (some (.atom a)) := by
  unfold Leaf.exactly Integer.checked
  cases hi : Integer.ofInt? k n with
  | none => exact .overflow
  | some i =>
    obtain ⟨rfl, -⟩ := Integer.ofInt?_eq_some_iff.1 hi
    exact .value (.int kind)

/-- The choice of one of two values that can be compared. -/
theorem agrees_choice {v w : Value} {t u : Ty} {choice : Value} (hv : v.HasType t)
    (hw : w.HasType u) (chosen : choice = v ∨ choice = w) :
    Agrees (if v.comparable w then .ok choice else .error .notInvocable)
      (if t.alike u && t.isOrdered then some t else none) := by
  obtain ⟨-, ordered⟩ := hv.isClone_isOrdered
  rw [hv.alike_eq hw]
  by_cases same : t = u
  · subst same
    have typed : choice.HasType t := by
      rcases chosen with rfl | rfl
      · exact hv
      · exact hw
    simpa [hv.comparable hw, ordered] using Agrees.value typed
  · have apart : v.comparable w = false :=
      Bool.eq_false_iff.2 fun h => same (hv.eq_of_comparable hw h)
    simpa [apart, same] using Agrees.rejected

theorem max_eq_or (v w : Value) : v.max w = v ∨ v.max w = w := by
  unfold Value.max
  split <;> simp

theorem min_eq_or (v w : Value) : v.min w = v ∨ v.min w = w := by
  unfold Value.min
  split <;> simp

theorem agrees_max {v w : Value} {t u : Ty} (hv : v.HasType t) (hw : w.HasType u) :
    Agrees (Leaf.max.apply [v, w]) (result? (.primitive .max) [t, u]) := by
  rw [result?_eq]
  simp only [Ty.rule, Primitive.rule, Rule.result?_guard, Leaf.apply]
  exact agrees_choice hv hw (max_eq_or v w)

theorem agrees_min {v w : Value} {t u : Ty} (hv : v.HasType t) (hw : w.HasType u) :
    Agrees (Leaf.min.apply [v, w]) (result? (.primitive .min) [t, u]) := by
  rw [result?_eq]
  simp only [Ty.rule, Primitive.rule, Rule.result?_guard, Leaf.apply]
  exact agrees_choice hv hw (min_eq_or v w)

theorem operand?_of_isInteger {a : Atom} (h : a.isInteger = true) :
    (Ty.atom a).operand? = some a := by
  cases a <;> first | rfl | cases h

theorem operand?_of_precision {p : Precision} {a : Atom} (h : p.atom = a) :
    (Ty.atom a).operand? = some a := by
  cases p <;> cases h <;> rfl

/-- No value is a reference to a number. -/
theorem eq_atom_of_operand? {v : Value} {t : Ty} {a : Atom} (hv : v.HasType t)
    (h : t.operand? = some a) : t = .atom a := by
  cases hv with
  | int kind =>
    rw [operand?_of_isInteger (Value.isInteger_of_atom? kind)] at h
    cases h
    rfl
  | float precision =>
    rw [operand?_of_precision precision] at h
    cases h
    rfl
  | _ => cases h

theorem arithmetic?_self {a : Atom} (h : (Ty.atom a).operand? = some a) :
    Primitive.arithmetic? (.atom a) (.atom a) = some (.atom a) := by
  simp [Primitive.arithmetic?, h]

theorem arithmetic?_of_operand?_eq_none {t : Ty} (u : Ty) (h : t.operand? = none) :
    Primitive.arithmetic? t u = none := by
  simp [Primitive.arithmetic?, h]

theorem arithmetic?_of_ne {v w : Value} {t u : Ty} (hv : v.HasType t) (hw : w.HasType u)
    (apart : t ≠ u) : Primitive.arithmetic? t u = none := by
  unfold Primitive.arithmetic?
  split
  · rename_i a b ha hb
    apply if_neg
    rintro rfl
    exact apart ((eq_atom_of_operand? hv ha).trans (eq_atom_of_operand? hw hb).symm)
  · rfl

theorem arithmetic_of_not_comparable (o : Overflow) (exact : Int → Int → Int)
    (rounded : Binary → Binary → Binary) {v w : Value} (h : v.comparable w = false) :
    Leaf.arithmetic o exact rounded v w = .error .notInvocable := by
  unfold Leaf.arithmetic
  split
  · exact if_neg (of_decide_eq_false h)
  · exact if_neg (of_decide_eq_false h)
  · rfl

theorem agrees_arithmetic {v w : Value} {t u : Ty} (o : Overflow) (exact : Int → Int → Int)
    {rounded : Binary → Binary → Binary} (keeps : ∀ x y, (rounded x y).precision = x.precision)
    (hv : v.HasType t) (hw : w.HasType u) :
    Agrees (Leaf.arithmetic o exact rounded v w) (Primitive.arithmetic? t u) := by
  by_cases same : t = u
  · subst same
    have alike := hv.comparable hw
    cases hv with
    | int kind =>
      rw [arithmetic?_self (operand?_of_isInteger (Value.isInteger_of_atom? kind))]
      cases w with
      | int n =>
        simp only [Leaf.arithmetic, if_pos (of_decide_eq_true alike)]
        exact agrees_exactly _ kind
      | _ => cases alike
    | @float x a precision =>
      rw [arithmetic?_self (operand?_of_precision precision)]
      cases w with
      | float y =>
        have typed : (rounded x y).precision.atom = a := by rw [keeps, precision]
        simp only [Leaf.arithmetic, if_pos (of_decide_eq_true alike)]
        exact .value (.float typed)
      | _ => cases alike
    | _ =>
      rw [arithmetic?_of_operand?_eq_none _ rfl]
      exact .rejected
  · have apart : v.comparable w = false :=
      Bool.eq_false_iff.2 fun h => same (hv.eq_of_comparable hw h)
    rw [arithmetic_of_not_comparable _ _ _ apart, arithmetic?_of_ne hv hw same]
    exact .rejected

theorem add_of_ne {v w : Value} (h : ∀ s s', v = .string s → w ≠ .str s') :
    Leaf.add v w = Leaf.arithmetic .add (· + ·) .add v w := by
  cases v with
  | string s =>
    cases w with
    | str s' => exact absurd rfl (h s s' rfl)
    | _ => rfl
  | _ => rfl

theorem agrees_sum {v w : Value} {t u : Ty} (hv : v.HasType t) (hw : w.HasType u) :
    Agrees (Leaf.sum.apply [v, w]) (result? (.primitive .sum) [t, u]) := by
  rw [result?_eq]
  simp only [Ty.rule, Primitive.rule, Leaf.apply, hw.isText_iff]
  by_cases texts : t = .string ∧ u = .str
  · rw [if_pos texts]
    obtain ⟨rfl, rfl⟩ := texts
    have left := hv.comparable (.string (s := ""))
    have right := hw.comparable (.str (s := ""))
    cases v with
    | string s =>
      cases w with
      | str s' => exact .value .string
      | _ => cases right
    | _ => cases left
  · rw [if_neg texts, Rule.result?_ofOption, add_of_ne]
    · exact agrees_arithmetic .add (· + ·) Binary.precision_add hv hw
    · rintro s s' rfl rfl
      cases hv
      cases hw
      exact texts ⟨rfl, rfl⟩

theorem agrees_product {v w : Value} {t u : Ty} (hv : v.HasType t) (hw : w.HasType u) :
    Agrees (Leaf.product.apply [v, w]) (result? (.primitive .product) [t, u]) := by
  rw [result?_eq]
  simp only [Ty.rule, Primitive.rule, Rule.result?_ofOption, Leaf.apply]
  exact agrees_arithmetic .multiply (· * ·) Binary.precision_mul hv hw

theorem longs?_cons_of_long {v : Value} (vs : List Value) (h : v.HasType (.atom .i64)) :
    ∃ n, Leaf.longs? (v :: vs) = (Leaf.longs? vs).map (n :: ·) := by
  cases h with
  | @int i a kind =>
    have long : i.kind = .i64 := Value.atom?_injective kind rfl
    obtain ⟨k, n, lo, hi⟩ := i
    cases long
    exact ⟨n, rfl⟩
  | float precision => rcases Value.precision_cases precision with ⟨-, he⟩ | ⟨-, he⟩ <;> cases he

theorem longs?_cons_of_ne {v : Value} {t : Ty} (vs : List Value) (h : v.HasType t)
    (other : t ≠ .atom .i64) : Leaf.longs? (v :: vs) = none := by
  unfold Leaf.longs?
  split
  · rename_i nil
    cases nil
  · rename_i long
    cases long
    cases h with
    | int kind =>
      cases kind
      exact absurd rfl other
  · rfl

/-- As many integers of 64 signed bits as the function takes are what its parameters ask for. -/
theorem suitAll_replicate_iff {xs : List Value} {ts : List Ty} {n : Nat} (h : HaveTypes xs ts) :
    Ty.suitAll (List.replicate n (.atom .i64)) ts = true ↔
      (Leaf.longs? xs).map List.length = some n := by
  induction h generalizing n with
  | nil => cases n <;> simp [Ty.suitAll, Leaf.longs?]
  | @cons v t vs ts head tail ih =>
    by_cases long : t = .atom .i64
    · subst long
      obtain ⟨m, first⟩ := longs?_cons_of_long vs head
      rw [first]
      cases n with
      | zero => cases Leaf.longs? vs <;> simp [Ty.suitAll]
      | succ n =>
        have rest := ih (n := n)
        have suited : (Ty.atom .i64).suits (.atom .i64) = true := rfl
        cases hl : Leaf.longs? vs <;>
          simpa [hl, List.replicate_succ, Ty.suitAll, suited] using rest
    · rw [longs?_cons_of_ne vs head long]
      have differs : Ty.atom .i64 ≠ t := fun same => long same.symm
      have unsuited : (Ty.atom .i64).suits t = false := by
        simp [Ty.suits, Ty.alike, head.normal_eq, Ty.normal, differs]
      cases n <;> simp [List.replicate_succ, Ty.suitAll, unsuited]

theorem suitAll_length {ps ts : List Ty} (h : Ty.suitAll ps ts = true) :
    ts.length = ps.length := by
  induction ps generalizing ts with
  | nil =>
    cases ts with
    | nil => rfl
    | cons t ts => cases h
  | cons p ps ih =>
    cases ts with
    | nil => cases h
    | cons t ts =>
      obtain ⟨-, rest⟩ := Bool.and_eq_true_iff.1 h
      simp [ih rest]

theorem kind_foldl_mixIn (ns : List Int) {s : Integer} (h : s.kind = .i64) :
    (ns.foldl (fun s x => Leaf.mixIn s.val x) s).kind = .i64 := by
  induction ns generalizing s with
  | nil => exact h
  | cons n ns ih => exact ih rfl

theorem agrees_mix {n : Nat} {xs : List Value} {ts : List Ty} (few : n ≤ functionLimit)
    (h : HaveTypes xs ts) :
    Agrees ((Leaf.mix n).apply xs)
      (result? (.fn (List.replicate n (.atom .i64)) (.atom .i64)) ts) := by
  have question : result? (.fn (List.replicate n (.atom .i64)) (.atom .i64)) ts =
      if Ty.suitAll (List.replicate n (.atom .i64)) ts then some (.atom .i64) else none := by
    rw [result?_eq]
    simp only [Ty.rule, Ty.functionRule, Ty.signature?, Rule.result?_guard]
    cases hs : Ty.suitAll (List.replicate n (.atom .i64)) ts with
    | false => simp
    | true =>
      have length := suitAll_length hs
      rw [List.length_replicate] at length
      simp [length, few]
  have suits := suitAll_replicate_iff (n := n) h
  rw [question]
  simp only [Leaf.apply]
  cases hl : Leaf.longs? xs with
  | none =>
    rw [hl] at suits
    have refused : ¬Ty.suitAll (List.replicate n (.atom .i64)) ts = true := by
      rw [suits]
      simp
    rw [if_neg refused]
    exact .rejected
  | some ns =>
    rw [hl, Option.map_some, Option.some.injEq] at suits
    simp only [suits]
    by_cases length : ns.length = n
    · have kind := kind_foldl_mixIn ns (s := .wrap64 7) rfl
      rw [if_pos length, if_pos length]
      exact .value (.int (congrArg IntKind.atom? kind))
    · rw [if_neg length, if_neg length]
      exact .rejected

/-- A leaf does with values what its type does with their types. -/
theorem agrees_apply {l : Leaf} {t : Ty} {xs : List Value} {ts : List Ty} (typed : l.ty? = some t)
    (args : HaveTypes xs ts) : Agrees (l.apply xs) (result? t ts) := by
  cases l with
  | mix n =>
    simp only [Leaf.ty?] at typed
    split at typed
    · rename_i few
      cases typed
      exact agrees_mix few args
    · cases typed
  | max | min | sum | product =>
    cases typed
    rcases args with _ | ⟨first, _ | ⟨second, _ | ⟨third, more⟩⟩⟩
    · rw [result?_eq]
      exact .rejected
    · rw [result?_eq]
      exact .rejected
    · first
        | exact agrees_max first second
        | exact agrees_min first second
        | exact agrees_sum first second
        | exact agrees_product first second
    · rw [result?_eq]
      exact .rejected
  | _ => cases typed

end Callable
