import Callable.Ty.Basic
import Callable.Value.Decimal
import Callable.Value.Integer
set_option autoImplicit false

/-!
The values that operations are run on. Every value knows its kind, and a text that is borrowed and a
text that is owned are of two kinds.
-/

namespace Callable

/-- A `keyed` value is ordered by its key alone. -/
inductive Value where
  | int (n : Integer)
  | float (x : Binary)
  | bool (b : Bool)
  | char (c : Char)
  | str (s : String)
  | string (s : String)
  | keyed (key : Integer) (label : String)
  | unit
  | pair (first second : Value)
  | list (vs : List Value)
  deriving Repr

namespace Value

mutual

/-- Equality as the values themselves have it: no equality with what is no number, and one zero. -/
def same : Value → Value → Bool
  | .int m, .int n => m = n
  | .float x, .float y => x.precision = y.precision && x.compare? y = some .eq
  | .bool a, .bool b => a = b
  | .char c, .char d => c = d
  | .str s, .str t => s = t
  | .string s, .string t => s = t
  | .keyed k l, .keyed k' l' => k = k' && l = l'
  | .unit, .unit => true
  | .pair a b, .pair c d => same a c && same b d
  | .list vs, .list ws => sameList vs ws
  | _, _ => false

def sameList : List Value → List Value → Bool
  | [], [] => true
  | v :: vs, w :: ws => same v w && sameList vs ws
  | _, _ => false

end

/-- The text of a value, for the kinds that are rendered. -/
def text? : Value → Option String
  | .int n => some n.text
  | .bool b => some (if b then "true" else "false")
  | .char c => some c.toString
  | .str s => some s
  | .string s => some s
  | _ => none

/-- The display of a value, for the kinds that have one. -/
def display? : Value → Option String
  | .float x => some x.display
  | v => v.text?

end Value

def IntKind.atom? : IntKind → Option Atom
  | .i8 => some .i8
  | .u8 => some .u8
  | .i32 => some .i32
  | .u32 => some .u32
  | .i64 => some .i64
  | .u64 => some .u64
  | .i128 | .u128 => none

def Precision.atom : Precision → Atom
  | .single => .f32
  | .double => .f64

/-- The type of a value, for the kinds that have one among the types. -/
def Value.ty? : Value → Option Ty
  | .int n => n.kind.atom?.map .atom
  | .float x => some (.atom x.precision.atom)
  | .bool _ => some .bool
  | .char _ => some .char
  | .str _ => some .str
  | .string _ => some .string
  | .unit => some .unit
  | .pair a b => do return .tuple [← a.ty?, ← b.ty?]
  | .keyed _ _ | .list _ => none

end Callable
