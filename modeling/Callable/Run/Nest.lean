import Callable.Run.Invoke
import Callable.Run.Typing
set_option autoImplicit false

/-!
Operations with any number of folds and traces around them. The layers are listed from the outside
inwards. A nest without its traces has the same folds, in the same order.
-/

namespace Callable

/-- What can be put around an operation. Only what is fit to be a label is one. -/
inductive Adaptor {α : Type} (isLabel : α → Prop) where
  | compress
  | seeded (seed : α)
  | traced (label : α) (fit : isLabel label)

/-- The layers that are no traces. -/
def Adaptor.untraced {α : Type} {isLabel : α → Prop} :
    List (Adaptor isLabel) → List (Adaptor isLabel)
  | [] => []
  | .compress :: ls => .compress :: untraced ls
  | .seeded s :: ls => .seeded s :: untraced ls
  | .traced _ _ :: ls => untraced ls

/-- A layer of a type, with the types of its seed and its label. -/
abbrev TyAdaptor := Adaptor fun t : Ty => t.isDisplay = true

/-- A layer of an operation. -/
abbrev OpAdaptor := Adaptor fun v : Value => v.display?.isSome = true

def Ty.nest (base : Ty) : List TyAdaptor → Ty
  | [] => base
  | .compress :: ls => .compress (base.nest ls)
  | .seeded s :: ls => .seeded (base.nest ls) s
  | .traced t _ :: ls => .decorated (.primitive .trace) t (base.nest ls)

namespace Op

/-- Whether there are no traces in the operation. -/
def isPlain : Op → Bool
  | .leaf _ => true
  | .compress f => f.isPlain
  | .seeded f _ => f.isPlain
  | .decorated d _ f => d ≠ .trace && f.isPlain

def nest (base : Op) : List OpAdaptor → Op
  | [] => base
  | .compress :: ls => .compress (base.nest ls)
  | .seeded s :: ls => .seeded (base.nest ls) s
  | .traced v _ :: ls => .decorated .trace (.value v) (base.nest ls)

/-- Labels and seeds count nothing. -/
@[simp] theorem counters_nest (base : Op) (layers : List OpAdaptor) :
    (base.nest layers).counters = base.counters := by
  induction layers with
  | nil => rfl
  | cons l ls ih => cases l <;> exact ih

@[simp] theorem load_nest (cs : List Nat) (place : Nat) (base : Op) (layers : List OpAdaptor) :
    (base.nest layers).load cs place = (base.load cs place).nest layers := by
  induction layers with
  | nil => rfl
  | cons l ls ih =>
    cases l <;> simp only [nest, load, Datum.load, Datum.counters, List.length_nil, Nat.add_zero, ih]

/-- A traced operation calls what is inside, between its two events. -/
theorem invoke_traced (level : Level) (base : Op) (ls : List OpAdaptor) {v : Value}
    (fit : v.display?.isSome = true) (place : Nat) {xs : List Value}
    (few : xs.length ≤ decoratedLimit) :
    (base.nest (.traced v fit :: ls)).invoke (typedSetting level) place xs =
      Decorator.traceCall ((base.nest ls).invoke (typedSetting level) place) (typedSetting level)
        (v.display?.get fit) (base.nest ls).typeName xs := by
  obtain ⟨text, shown⟩ := Option.isSome_iff_exists.1 fit
  simp only [nest, invoke, if_pos few, Datum.load, Decorator.invoke, typedSetting, shown,
    Option.get_some]
  rfl

end Op

end Callable
