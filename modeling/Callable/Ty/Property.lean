import Callable.Ty.Basic
set_option autoImplicit false

/-!
What a type can do: whether its values can be copied, compared, displayed, added, held by value,
or called as a function.
-/

namespace Callable

namespace Atom

def isInteger : Atom → Bool
  | .i8 | .u8 | .u16 | .u32 | .i32 | .i64 | .u64 => true
  | _ => false

def isNumber : Atom → Bool
  | .f32 | .f64 => true
  | a => a.isInteger

def isSized : Atom → Bool
  | .rawStr | .rawFn | .rawVoice => false
  | _ => true

/-- The values that can be copied are also the ones that have an order. -/
def isPlain : Atom → Bool
  | .token | .boxedFn => false
  | a => a.isSized

def isDisplay : Atom → Bool
  | .bool | .char | .str | .string => true
  | a => a.isNumber

end Atom

namespace Primitive

def isClone : Primitive → Bool
  | .moody => false
  | _ => true

def isOrdered : Primitive → Bool
  | .max | .min | .sum | .product => true
  | _ => false

end Primitive

namespace Ty

def isSized : Ty → Bool
  | .atom a => a.isSized
  | _ => true

/-- Whether a type is that of a borrowed text, in either of its spellings. -/
def isText : Ty → Bool
  | .atom .str => true
  | .ref _ (.atom .rawStr) => true
  | _ => false

mutual

/-- A reference and a function pointer can be copied whatever they lead to. -/
def isClone : Ty → Bool
  | .atom a => a.isPlain
  | .primitive p => p.isClone
  | .ref _ _ => true
  | .tuple ts => areClone ts
  | .vec t => isClone t
  | .option t => isClone t
  | .fn _ _ => true
  | .compress f => isClone f
  | .seeded f s => isClone f && isClone s
  | .decorate d => isClone d
  | .decoration d t => isClone d && isClone t
  | .decorated d t g => isClone d && isClone t && isClone g

def areClone : List Ty → Bool
  | [] => true
  | t :: ts => isClone t && areClone ts

end

@[simp] theorem areClone_eq_all (ts : List Ty) : areClone ts = ts.all isClone := by
  induction ts <;> simp_all [areClone]

/-- The most parts of a tuple that has an order. -/
abbrev orderLimit : Nat := 12

mutual

/-- Whether two values of the type can be compared, though not any two of them need be in order. -/
def isOrdered : Ty → Bool
  | .atom a => a.isPlain
  | .primitive p => p.isOrdered
  | .ref r t => (Ty.ref r t).isText || isOrdered t
  | .tuple ts => ts.length ≤ orderLimit && areOrdered ts
  | .vec t => isOrdered t
  | .option t => isOrdered t
  | .fn _ _ => true
  | .compress _ => false
  | .seeded _ _ => false
  | .decorate _ => false
  | .decoration _ _ => false
  | .decorated _ _ _ => false

def areOrdered : List Ty → Bool
  | [] => true
  | t :: ts => isOrdered t && areOrdered ts

end

@[simp] theorem areOrdered_eq_all (ts : List Ty) : areOrdered ts = ts.all isOrdered := by
  induction ts <;> simp_all [areOrdered]

def isDisplay : Ty → Bool
  | .atom a => a.isDisplay
  | .ref r t => (Ty.ref r t).isText || t.isDisplay
  | _ => false

/-- The number type of an operand, which may stand behind one reference. -/
def operand? : Ty → Option Atom
  | .atom a => if a.isNumber then some a else none
  | .ref _ (.atom a) => if a.isNumber then some a else none
  | _ => none

/-- The parameters and the result of a function, found behind any number of references. A function
without a size can be called only behind one. -/
def signature? : Ty → Option (List Ty × Ty)
  | .fn ps r => some (ps, r)
  | .atom .boxedFn => some ([.i32], .i32)
  | .ref _ (.atom .rawFn) => some ([.i32], .i32)
  | .ref _ t => t.signature?
  | _ => none

/-- Whether an argument type suits a parameter: the two are the same but for a parameter's reference
into any region. -/
def suits : Ty → Ty → Bool
  | .ref .any (.atom .rawStr), a => a.isText
  | .ref .any p, .ref _ a => p.alike a
  | p, a => p.alike a

mutual

/-- Whether references into any region stand only where they mean something: as parameters of function
pointers. -/
def isProper : Ty → Bool
  | .atom _ => true
  | .primitive _ => true
  | .ref r t => r ≠ .any && isProper t
  | .tuple ts => areProper ts
  | .vec t => isProper t
  | .option t => isProper t
  | .fn ps r => areParameters ps && isProper r
  | .compress f => isProper f
  | .seeded f s => isProper f && isProper s
  | .decorate d => isProper d
  | .decoration d t => isProper d && isProper t
  | .decorated d t g => isProper d && isProper t && isProper g

def areProper : List Ty → Bool
  | [] => true
  | t :: ts => isProper t && areProper ts

def areParameters : List Ty → Bool
  | [] => true
  | .ref _ t :: ps => isProper t && areParameters ps
  | p :: ps => isProper p && areParameters ps

end

@[simp] theorem areProper_eq_all (ts : List Ty) : areProper ts = ts.all isProper := by
  induction ts <;> simp_all [areProper]

end Ty

end Callable
