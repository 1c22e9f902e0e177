import Callable.Ty.Property
set_option autoImplicit false

/-!
What each operation asks of its argument types before it accepts them. A rule answers at once, or asks
about another operation and goes on with the result type of that; it never answers by calling itself,
so all recursion is in the resolution of rules.
-/

namespace Callable

/-- The most arguments that a function takes. -/
abbrev functionLimit : Nat := 12

/-- The most arguments that a fold takes. -/
abbrev foldLimit : Nat := 12

/-- The most arguments that a decorated callable passes on, besides its data and its target. -/
abbrev decoratedLimit : Nat := 10

/-- What is not accepted when it is asked about is rejected. -/
inductive Rule where
  | reject
  | accept (result : Ty)
  | ask (op : Ty) (args : List Ty) (next : Ty → Rule)

namespace Rule

def ofOption : Option Ty → Rule
  | none => .reject
  | some r => .accept r

/-- Accepts with the given result where the condition holds. -/
def guard (b : Bool) (r : Ty) : Rule := if b then .accept r else .reject

/-- Asks the target of a decorator. A target that has no size cannot stand behind the reference. -/
def target (g : Ty) (args : List Ty) (next : Ty → Rule) : Rule :=
  if g.isSized then .ask g args next else .reject

/-- A fold asks its operation for each step, with the state type that the step before has led to. -/
def fold (f : Ty) : Ty → List Ty → Rule
  | s, [] => .accept s
  | s, x :: xs => .ask f [s, x] fun s' => fold f s' xs

end Rule

namespace Primitive

/-- The numbers of one kind, each as such or behind one reference. -/
def arithmetic? (l r : Ty) : Option Ty :=
  match l.operand?, r.operand? with
  | some a, some b => if a = b then some (.atom a) else none
  | _, _ => none

/-- An operation with a result of its own for each of a few argument lists. -/
def polyResult? : List Ty → Option Ty
  | [] => some .u8
  | [.atom .i32] => some .bool
  | [.atom .i32, .atom .bool] => some .bool
  | [.atom .bool, .atom .i32] => some .i32
  | [.atom .bool, .atom .bool] => some .char
  | [.atom .char, .atom .bool] => some .string
  | [.atom .string, .atom .bool] => some .unit
  | [.tuple [], .atom .i32] => some .i32
  | _ => none

def rule : Primitive → List Ty → Rule
  | .max, [l, r] => .guard (l.alike r && l.isOrdered) l
  | .min, [l, r] => .guard (l.alike r && l.isOrdered) l
  | .sum, [l, r] => if l = .string ∧ r.isText then .accept .string else .ofOption (arithmetic? l r)
  | .product, [l, r] => .ofOption (arithmetic? l r)
  | .trace, .ref _ t :: .ref _ g :: xs =>
    if t.isDisplay && xs.length ≤ decoratedLimit then .target g xs .accept else .reject
  | .nest, [s, x] => .accept (.tuple [s, x])
  | .push, [s, x] => .guard (s = .unit || s.alike (.vec x)) (.vec x)
  | .twice, [x] => .guard x.isClone (.tuple [x, x])
  | .poly, xs => .ofOption (polyResult? xs)
  | .forward, [.ref _ t, .ref _ g, x, y] =>
    if t.isText then .target g [x, y] .accept else .reject
  | .prepend, [.ref _ t, .ref _ g, x] =>
    if t.isText then .target g [x] fun r => .guard (r = .string) r else .reject
  | .tally, [.ref _ (.atom .cell), .ref _ g, x] =>
    .target g [x] fun r => .accept (.tuple [.u32, r])
  | .relay, .ref _ t :: .ref _ g :: xs =>
    if t.isSized && xs.length ≤ decoratedLimit then .target g xs .accept else .reject
  | .lend, [.ref r t, .ref r' g] => .guard (r = r' && t.isSized && g.isSized) (.ref r t)
  | .picky, [.atom .i32, .atom .i32] => .accept .i32
  | .moody, [.ref _ t, .ref _ g, .atom .i32] => .guard (t.isText && g.isSized) .i32
  | _, _ => .reject

end Primitive

namespace Ty

/-- Whether a list of arguments suits a list of parameters. -/
def suitAll : List Ty → List Ty → Bool
  | [], [] => true
  | p :: ps, a :: as => p.suits a && suitAll ps as
  | _, _ => false

/-- What is passed to the decorator of a decorated callable: the data and the target, each behind a
reference that lasts for the call, and then the arguments. -/
def decoratorArgs (n : Nat) (t g : Ty) (xs : List Ty) : List Ty :=
  .ref (.call n) t :: .ref (.call n) g :: xs

/-- A fold that starts from its first argument. One argument is the result as it is, and of two or
more the first two lead to the state from which the others are folded. -/
def compressRule (f : Ty) : List Ty → Rule
  | [] => .reject
  | [x] => .accept x
  | x :: y :: xs =>
    if xs.length + 2 ≤ foldLimit then .ask f [x, y] fun s => .fold f s xs else .reject

/-- A fold that starts from a copy of its seed. -/
def seededRule (f s : Ty) (xs : List Ty) : Rule :=
  if s.isClone && xs.length ≤ foldLimit then .fold f s xs else .reject

def decorateRule (d : Ty) : List Ty → Rule
  | [t] => .guard d.isClone (.decoration d t)
  | _ => .reject

def decorationRule (d t : Ty) : List Ty → Rule
  | [g] => .guard (d.isClone && t.isClone) (.decorated d t g)
  | _ => .reject

/-- A decorated callable introduces a region that nothing else mentions, and the result of its
decorator must not mention it either. -/
def decoratedRule (d t g : Ty) (xs : List Ty) : Rule :=
  if xs.length ≤ decoratedLimit then
    let n := freshRegion (d :: t :: g :: xs)
    .ask d (decoratorArgs n t g xs) fun r => .guard (!r.mentions n) r
  else .reject

def functionRule (op : Ty) (xs : List Ty) : Rule :=
  match op.signature? with
  | none => .reject
  | some (ps, r) => .guard (xs.length ≤ functionLimit && suitAll ps xs) r

/-- Such a fold is the fold of the further arguments from the first one. -/
theorem compressRule_cons (f x : Ty) (xs : List Ty) :
    compressRule f (x :: xs) = if xs.length < foldLimit then .fold f x xs else .reject := by
  cases xs <;> rfl

def rule : Ty → List Ty → Rule
  | .primitive p => p.rule
  | .compress f => compressRule f
  | .seeded f s => seededRule f s
  | .decorate d => decorateRule d
  | .decoration d t => decorationRule d t
  | .decorated d t g => decoratedRule d t g
  | op => functionRule op

/-! ### Primitive operations -/

/-- The types that can be put together from the given ones. -/
inductive MadeOf (given : List Ty) : Ty → Prop
  | given {t : Ty} (among : t ∈ given) : MadeOf given t
  | atom (a : Atom) : MadeOf given (.atom a)
  | tuple {ts : List Ty} (parts : ∀ t ∈ ts, MadeOf given t) : MadeOf given (.tuple ts)
  | vec {t : Ty} (element : MadeOf given t) : MadeOf given (.vec t)

theorem madeOf_pair {given : List Ty} {t u : Ty} (first : MadeOf given t)
    (second : MadeOf given u) : MadeOf given (.tuple [t, u]) :=
  .tuple <| by simp [first, second]

end Ty

/-- What the rule of an operation without parts can be. It accepts with what is made of its arguments,
and it asks about nothing but what stands behind its second argument, and only once. -/
inductive Rule.OfPrimitive (args : List Ty) : Rule → Prop
  | reject : OfPrimitive args .reject
  | accept {r : Ty} (made : Ty.MadeOf args r) : OfPrimitive args (.accept r)
  | ask {t g : Ty} {region : Region} {xs : List Ty} {next : Ty → Rule}
      (passed : args = t :: .ref region g :: xs)
      (finished : ∀ r, next r = .reject ∨ ∃ r', next r = .accept r' ∧ Ty.MadeOf [r] r') :
      OfPrimitive args (.ask g xs next)

namespace Ty

theorem arithmetic?_madeOf {l r t : Ty} {given : List Ty} (h : Primitive.arithmetic? l r = some t) :
    MadeOf given t := by
  unfold Primitive.arithmetic? at h
  split at h
  · split at h
    · cases h
      exact .atom _
    · cases h
  · cases h

theorem polyResult?_madeOf {xs given : List Ty} {t : Ty} (h : Primitive.polyResult? xs = some t) :
    MadeOf given t := by
  unfold Primitive.polyResult? at h
  split at h <;> cases h
  case h_7 => exact .tuple (by simp)
  all_goals exact .atom _

section OfPrimitive

variable {args : List Ty}

theorem ofPrimitive_guard {c : Bool} {r : Ty} (made : MadeOf args r) :
    (Rule.guard c r).OfPrimitive args := by
  cases c
  · exact .reject
  · exact .accept made

theorem ofPrimitive_ofOption {o : Option Ty} (made : ∀ r, o = some r → MadeOf args r) :
    (Rule.ofOption o).OfPrimitive args := by
  cases o with
  | none => exact .reject
  | some r => exact .accept (made r rfl)

theorem ofPrimitive_target {region : Region} {t g : Ty} {xs : List Ty} {next : Ty → Rule}
    (finished : ∀ r, next r = .reject ∨ ∃ r', next r = .accept r' ∧ MadeOf [r] r') :
    (Rule.target g xs next).OfPrimitive (t :: .ref region g :: xs) := by
  unfold Rule.target
  split
  · exact .ask rfl finished
  · exact .reject

theorem ofPrimitive_target_accept {region : Region} {t g : Ty} {xs : List Ty} :
    (Rule.target g xs .accept).OfPrimitive (t :: .ref region g :: xs) :=
  ofPrimitive_target fun r => .inr ⟨r, rfl, .given (by simp)⟩

end OfPrimitive

theorem primitive_rule (p : Primitive) (args : List Ty) : (p.rule args).OfPrimitive args := by
  unfold Primitive.rule
  split
  · exact ofPrimitive_guard (.given (by simp))
  · exact ofPrimitive_guard (.given (by simp))
  · split
    · exact .accept (.atom _)
    · exact ofPrimitive_ofOption fun _ => arithmetic?_madeOf
  · exact ofPrimitive_ofOption fun _ => arithmetic?_madeOf
  · split
    · exact ofPrimitive_target_accept
    · exact .reject
  · exact .accept (madeOf_pair (.given (by simp)) (.given (by simp)))
  · exact ofPrimitive_guard (.vec (.given (by simp)))
  · exact ofPrimitive_guard (madeOf_pair (.given (by simp)) (.given (by simp)))
  · exact ofPrimitive_ofOption fun _ => polyResult?_madeOf
  · split
    · exact ofPrimitive_target_accept
    · exact .reject
  · split
    · apply ofPrimitive_target
      intro r
      by_cases text : r = .string
      · exact .inr ⟨r, if_pos (decide_eq_true text), .given (by simp)⟩
      · exact .inl (if_neg (by simpa using text))
    · exact .reject
  · apply ofPrimitive_target
    exact fun r => .inr ⟨_, rfl, madeOf_pair (.atom _) (.given (by simp))⟩
  · split
    · exact ofPrimitive_target_accept
    · exact .reject
  · exact ofPrimitive_guard (.given (by simp))
  · exact .accept (.atom _)
  · exact ofPrimitive_guard (.atom _)
  · exact .reject

/-! ### Too many arguments -/

theorem polyResult?_length_le {xs : List Ty} {r : Ty} (h : Primitive.polyResult? xs = some r) :
    xs.length ≤ functionLimit := by
  unfold Primitive.polyResult? at h
  split at h
  case h_9 => cases h
  all_goals exact Nat.le_of_ble_eq_true rfl

theorem primitive_length_le {p : Primitive} {args : List Ty} (h : p.rule args ≠ .reject) :
    args.length ≤ functionLimit := by
  revert h
  fun_cases Primitive.rule p args with
  | case6 r t r' g xs passed =>
    obtain ⟨-, few⟩ := Bool.and_eq_true_iff.1 passed
    exact fun _ => Nat.add_le_add_right (of_decide_eq_true few) 2
  | case7 => exact fun h => absurd rfl h
  | case11 =>
    intro h
    cases hr : Primitive.polyResult? args with
    | none => exact absurd (by rw [hr]; rfl) h
    | some r => exact polyResult?_length_le hr
  | case17 r t r' g xs passed =>
    obtain ⟨-, few⟩ := Bool.and_eq_true_iff.1 passed
    exact fun _ => Nat.add_le_add_right (of_decide_eq_true few) 2
  | case18 => exact fun h => absurd rfl h
  | case22 => exact fun h => absurd rfl h
  | _ => exact fun _ => Nat.le_of_ble_eq_true rfl

theorem functionRule_length_le (op : Ty) {args : List Ty} (h : functionRule op args ≠ .reject) :
    args.length ≤ functionLimit := by
  unfold functionRule at h
  split at h
  · exact absurd rfl h
  · by_cases few : args.length ≤ functionLimit
    · exact few
    · simp [few, Rule.guard] at h

theorem compressRule_length_le {f : Ty} {args : List Ty} (h : compressRule f args ≠ .reject) :
    args.length ≤ functionLimit := by
  cases args with
  | nil => exact absurd rfl h
  | cons x xs =>
    rw [compressRule_cons] at h
    by_cases few : xs.length < foldLimit
    · exact few
    · exact absurd (if_neg few) h

theorem seededRule_length_le {f s : Ty} {args : List Ty} (h : seededRule f s args ≠ .reject) :
    args.length ≤ functionLimit := by
  unfold seededRule at h
  split at h
  · rename_i passed
    exact of_decide_eq_true (Bool.and_eq_true_iff.1 passed).2
  · exact absurd rfl h

theorem decoratedRule_length_le {d t g : Ty} {args : List Ty}
    (h : decoratedRule d t g args ≠ .reject) : args.length ≤ functionLimit := by
  unfold decoratedRule at h
  split at h
  · rename_i few
    exact Nat.le_trans few (by decide)
  · exact absurd rfl h

/-- Nothing takes more arguments than a function does. -/
theorem rule_length_le {op : Ty} {args : List Ty} (h : op.rule args ≠ .reject) :
    args.length ≤ functionLimit := by
  cases op with
  | primitive p => exact primitive_length_le h
  | compress f => exact compressRule_length_le h
  | seeded f s => exact seededRule_length_le h
  | decorate d =>
    change decorateRule d args ≠ .reject at h
    unfold decorateRule at h
    split at h
    · exact Nat.le_of_ble_eq_true rfl
    · exact absurd rfl h
  | decoration d t =>
    change decorationRule d t args ≠ .reject at h
    unfold decorationRule at h
    split at h
    · exact Nat.le_of_ble_eq_true rfl
    · exact absurd rfl h
  | decorated d t g => exact decoratedRule_length_le h
  | atom a => exact functionRule_length_le (.atom a) h
  | ref r t => exact functionRule_length_le (.ref r t) h
  | tuple ts => exact functionRule_length_le (.tuple ts) h
  | vec t => exact functionRule_length_le (.vec t) h
  | option t => exact functionRule_length_le (.option t) h
  | fn ps r => exact functionRule_length_le (.fn ps r) h

end Ty

end Callable
