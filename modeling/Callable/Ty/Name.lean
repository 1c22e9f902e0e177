import Callable.Ty.Basic
set_option autoImplicit false

/-!
The printed names of types. A name is built from the names of the parts and shows no region but the
region of a parameter that takes any.
-/

namespace Callable

def Atom.name : Atom → String
  | .i8 => "i8"
  | .u8 => "u8"
  | .u16 => "u16"
  | .u32 => "u32"
  | .i32 => "i32"
  | .i64 => "i64"
  | .u64 => "u64"
  | .f32 => "f32"
  | .f64 => "f64"
  | .bool => "bool"
  | .char => "char"
  | .str => "&str"
  | .string => "alloc::string::String"
  | .cell => "core::cell::Cell<u32>"
  | .token => "oracle::ops::Token"
  | .rawStr => "str"
  | .boxedFn => "alloc::boxed::Box<dyn core::ops::function::Fn(i32) -> i32>"
  | .rawFn => "dyn core::ops::function::Fn(i32) -> i32"
  | .rawVoice => "dyn oracle::ops::Voice"

def Primitive.name : Primitive → String
  | .max => "lambars_adaptors::operation::Max"
  | .min => "lambars_adaptors::operation::Min"
  | .sum => "lambars_adaptors::operation::Sum"
  | .product => "lambars_adaptors::operation::Product"
  | .trace => "lambars_adaptors::decorate::trace::Trace"
  | .nest => "oracle::ops::Nest"
  | .push => "oracle::ops::Push"
  | .twice => "oracle::ops::Twice"
  | .poly => "oracle::ops::Poly"
  | .forward => "oracle::ops::Forward"
  | .prepend => "oracle::ops::Prefix"
  | .tally => "oracle::ops::Tally"
  | .relay => "oracle::ops::Relay"
  | .lend => "oracle::ops::Lend"
  | .parser => "oracle::ops::Parser"
  | .picky => "oracle::ops::Picky"
  | .moody => "oracle::ops::Moody"

def Region.mark : Region → String
  | .any => "&'_ "
  | .static => "&"
  | .call _ => "&"

/-- A list of one name in parentheses keeps a comma, so that it is no grouping. -/
def tupleName : List String → String
  | [] => "()"
  | [a] => "(" ++ a ++ ",)"
  | as => "(" ++ ", ".intercalate as ++ ")"

namespace Ty

mutual

def name : Ty → String
  | .atom a => a.name
  | .primitive p => p.name
  | .ref r t => r.mark ++ name t
  | .tuple ts => tupleName (names ts)
  | .vec t => "alloc::vec::Vec<" ++ name t ++ ">"
  | .option t => "core::option::Option<" ++ name t ++ ">"
  | .fn ps r =>
    "fn(" ++ ", ".intercalate (names ps) ++ ")" ++ if r = .unit then "" else " -> " ++ name r
  | .compress f => "lambars_adaptors::compress::Compress<" ++ name f ++ ">"
  | .seeded f s =>
    "lambars_adaptors::compress::SeededCompress<" ++ name f ++ ", " ++ name s ++ ">"
  | .decorate d => "lambars_adaptors::decorate::Decorate<" ++ name d ++ ">"
  | .decoration d t =>
    "lambars_adaptors::decorate::Decoration<" ++ name d ++ ", " ++ name t ++ ">"
  | .decorated d t g =>
    "lambars_adaptors::decorate::Decorated<" ++ name d ++ ", " ++ name t ++ ", " ++ name g ++ ">"

def names : List Ty → List String
  | [] => []
  | t :: ts => name t :: names ts

end

@[simp] theorem names_eq_map (ts : List Ty) : names ts = ts.map name := by
  induction ts <;> simp_all [names]

end Ty

end Callable
