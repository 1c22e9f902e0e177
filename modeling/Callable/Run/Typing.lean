import Callable.Resolution.Rule
import Callable.Run.Decorator
import Callable.Ty.Name
set_option autoImplicit false

/-!
The types of operations, for those that have one among the types.
-/

namespace Callable

def Leaf.ty? : Leaf → Option Ty
  | .max => some (.primitive .max)
  | .min => some (.primitive .min)
  | .sum => some (.primitive .sum)
  | .product => some (.primitive .product)
  | .mix n =>
    if n ≤ functionLimit then some (.fn (List.replicate n (.atom .i64)) (.atom .i64)) else none
  | _ => none

namespace Op

def ty? : Op → Option Ty
  | .leaf l => l.ty?
  | .compress f => f.ty?.map .compress
  | .seeded f s => do return .seeded (← f.ty?) (← s.ty?)
  | .decorated .trace (.value v) f => do return .decorated (.primitive .trace) (← v.ty?) (← f.ty?)
  | .decorated _ _ _ => none

/-- The one name of all operations where their types are not told apart. -/
def untypedName : String := "oracle::dynamic::Op"

def typeName (op : Op) : String :=
  match op.ty? with
  | some t => t.name
  | none => untypedName

end Op

/-- The setting of operations of known types: they go by their types, and every value with a display
can be a label. -/
def typedSetting (level : Level) : Setting := ⟨level, Op.typeName, Value.display?⟩

end Callable
