import Callable.Run.Typing
import Mathlib.Data.List.Forall2
set_option autoImplicit false

/-!
Values and their types. A value of a type can be copied, it is compared with just the values of its
type, and it has a display if its type has one.
-/

namespace Callable

namespace Value

/-- What it is for a value to have a type. -/
inductive HasType : Value → Ty → Prop
  | int {n : Integer} {a : Atom} (kind : n.kind.atom? = some a) : HasType (.int n) (.atom a)
  | float {x : Binary} {a : Atom} (precision : x.precision.atom = a) : HasType (.float x) (.atom a)
  | bool {b : Bool} : HasType (.bool b) .bool
  | char {c : Char} : HasType (.char c) .char
  | str {s : String} : HasType (.str s) .str
  | string {s : String} : HasType (.string s) .string
  | unit : HasType .unit .unit
  | pair {v w : Value} {a b : Ty} (first : HasType v a) (second : HasType w b) :
      HasType (.pair v w) (.tuple [a, b])

theorem hasType_of_ty? {v : Value} {t : Ty} (h : v.ty? = some t) : v.HasType t := by
  revert h
  fun_induction Value.ty? v generalizing t with
  | case1 n =>
    intro h
    obtain ⟨a, kind, rfl⟩ := Option.map_eq_some_iff.1 h
    exact .int kind
  | case8 v w ihv ihw =>
    intro h
    simp only [Option.bind_eq_bind, Option.bind_eq_some_iff] at h
    obtain ⟨a, first, b, second, same⟩ := h
    cases same
    exact .pair (ihv first) (ihw second)
  | case9 | case10 => exact fun h => nomatch h
  | case2 x =>
    rintro ⟨⟩
    exact .float rfl
  | _ =>
    rintro ⟨⟩
    constructor

theorem HasType.ty? {v : Value} {t : Ty} (h : v.HasType t) : v.ty? = some t := by
  induction h with
  | int kind => simp [Value.ty?, kind]
  | float precision => simp [Value.ty?, precision]
  | pair first second ihv ihw => simp [Value.ty?, ihv, ihw]
  | _ => rfl

theorem isInteger_of_atom? {k : IntKind} {a : Atom} (h : k.atom? = some a) :
    a.isInteger = true := by
  cases k <;> cases h <;> rfl

theorem atom?_injective {k k' : IntKind} {a : Atom} (h : k.atom? = some a)
    (h' : k'.atom? = some a) : k = k' := by
  cases k <;> cases h <;> cases k' <;> cases h' <;> rfl

theorem precision_cases {p : Precision} {a : Atom} (h : p.atom = a) :
    p = .single ∧ a = .f32 ∨ p = .double ∧ a = .f64 := by
  cases p with
  | single => exact .inl ⟨rfl, h.symm⟩
  | double => exact .inr ⟨rfl, h.symm⟩

theorem isPlain_of_isInteger {a : Atom} (h : a.isInteger = true) : a.isPlain = true := by
  cases a <;> first | rfl | cases h

/-- A value can be copied, and it has an order with the values of its type. -/
theorem HasType.isClone_isOrdered {v : Value} {t : Ty} (h : v.HasType t) :
    t.isClone = true ∧ t.isOrdered = true := by
  induction h with
  | int kind =>
    have plain := isPlain_of_isInteger (isInteger_of_atom? kind)
    exact ⟨plain, plain⟩
  | float precision =>
    rcases precision_cases precision with ⟨-, rfl⟩ | ⟨-, rfl⟩ <;> exact ⟨rfl, rfl⟩
  | pair first second ihv ihw => simp [Ty.isClone, Ty.isOrdered, Ty.orderLimit, ihv, ihw]
  | _ => exact ⟨rfl, rfl⟩

/-- The types of values are spelled in one way only. -/
theorem HasType.normal_eq {v : Value} {t : Ty} (h : v.HasType t) : t.normal = t := by
  induction h with
  | pair first second ihv ihw => simp [Ty.normal, ihv, ihw]
  | _ => rfl

theorem HasType.alike_eq {v w : Value} {t u : Ty} (hv : v.HasType t) (hw : w.HasType u) :
    t.alike u = decide (t = u) := by
  unfold Ty.alike
  rw [hv.normal_eq, hw.normal_eq]

theorem HasType.isText_iff {v : Value} {t : Ty} (h : v.HasType t) : t.isText = true ↔ t = .str := by
  cases h with
  | @int _ a _ => cases a <;> simp [Ty.isText]
  | @float _ a _ => cases a <;> simp [Ty.isText]
  | _ => simp [Ty.isText]

theorem HasType.isSome_display? {v : Value} {t : Ty} (h : v.HasType t) :
    v.display?.isSome = t.isDisplay := by
  cases h with
  | @int n a kind =>
    have integer := isInteger_of_atom? kind
    cases a <;> first | rfl | cases integer
  | float precision => rcases precision_cases precision with ⟨-, rfl⟩ | ⟨-, rfl⟩ <;> rfl
  | _ => rfl

theorem HasType.comparable {v w : Value} {t : Ty} (hv : v.HasType t) (hw : w.HasType t) :
    v.comparable w = true := by
  induction hv generalizing w with
  | int kind =>
    cases hw with
    | int kind' => simpa [Value.comparable] using atom?_injective kind kind'
    | float precision =>
      have integer := isInteger_of_atom? kind
      rcases precision_cases precision with ⟨-, rfl⟩ | ⟨-, rfl⟩ <;> cases integer
    | _ => cases isInteger_of_atom? kind
  | float precision =>
    rcases precision_cases precision with ⟨hp, rfl⟩ | ⟨hp, rfl⟩ <;> cases hw with
    | int kind => cases isInteger_of_atom? kind
    | float precision' =>
      rcases precision_cases precision' with ⟨hq, he⟩ | ⟨hq, he⟩ <;> cases he
      simp [Value.comparable, hp, hq]
  | pair first second ihv ihw =>
    cases hw with
    | pair first' second' => simp [Value.comparable, ihv first', ihw second']
  | unit =>
    cases hw
    rfl
  | _ =>
    cases hw with
    | int kind => cases isInteger_of_atom? kind
    | float precision => rcases precision_cases precision with ⟨-, he⟩ | ⟨-, he⟩ <;> cases he
    | _ => rfl

/-- Values that can be compared are of one type. -/
theorem HasType.eq_of_comparable {v w : Value} {t u : Ty} (hv : v.HasType t) (hw : w.HasType u)
    (h : v.comparable w = true) : t = u := by
  induction hv generalizing w u with
  | int kind =>
    cases hw with
    | int kind' =>
      have same := of_decide_eq_true h
      rw [same, kind'] at kind
      cases kind
      rfl
    | _ => cases h
  | float precision =>
    cases hw with
    | float precision' =>
      have same := of_decide_eq_true h
      rw [← precision, ← precision', same]
    | _ => cases h
  | pair first second ihv ihw =>
    cases hw with
    | pair first' second' =>
      obtain ⟨left, right⟩ := Bool.and_eq_true_iff.1 h
      rw [ihv first' left, ihw second' right]
    | _ => cases h
  | _ => cases hw <;> first | rfl | cases h

end Value

/-- The values have the types, one by one. -/
def HaveTypes : List Value → List Ty → Prop := List.Forall₂ Value.HasType

theorem HaveTypes.length_eq {xs : List Value} {ts : List Ty} (h : HaveTypes xs ts) :
    xs.length = ts.length :=
  List.Forall₂.length_eq h

theorem haveTypes_of_mapM {xs : List Value} {ts : List Ty} (h : xs.mapM Value.ty? = some ts) :
    HaveTypes xs ts := by
  induction xs generalizing ts with
  | nil =>
    cases h
    exact .nil
  | cons x xs ih =>
    simp only [List.mapM_cons, Option.bind_eq_bind, Option.bind_eq_some_iff] at h
    obtain ⟨t, head, ts', tail, same⟩ := h
    cases same
    exact .cons (Value.hasType_of_ty? head) (ih tail)

end Callable
