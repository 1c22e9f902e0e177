import Callable.Failure.Basic
import Callable.Ty.Property
set_option autoImplicit false

/-!
Operations that explain some of their rejections themselves. Such an explanation stands in place of
the frame that would name the operation; it may have several frames, and it is consulted only where
the operation rejects.
-/

namespace Callable

def Primitive.reveal? : Primitive → List Ty → Option Failure
  | .parser, [.atom .u8] =>
    some (.ofFrames ⟨.operation, "Parser", ["u8"]⟩ [⟨.operation, "from_utf8", ["u8"]⟩])
  | .parser, [.atom .u8, .atom .u8] =>
    some (.ofFrames ⟨.missingSeed, "Parser", ["u8", "u8"]⟩ [⟨.seedNotClone, "bytes", []⟩])
  | .picky, [.atom .i32, .atom .i32] => some (.new .operation "unused" [])
  | .picky, [.atom .i32, .atom .bool] =>
    some (.ofFrames ⟨.fold, "Picky", ["i32", "bool"]⟩
      [⟨.decoratorOperation, "no flags", ["bool"]⟩, ⟨.decorated, "really", []⟩])
  | .moody, [.ref _ t, .ref _ _, .atom .bool] =>
    if t.isText then some (.new .decoratorOperation "Moody" ["mood"]) else none
  | .moody, [.atom .bool] => some (.new .operation "Moody" ["bool"])
  | _, _ => none

def Ty.reveal? : Ty → List Ty → Option Failure
  | .primitive p, args => p.reveal? args
  | .atom .rawVoice, [.atom .u8] => some (.new .operation "voice" ["u8"])
  | _, _ => none

end Callable
