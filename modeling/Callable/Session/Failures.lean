import Callable.Failure.Chain
import Callable.Failure.Text
import Callable.Probe.Walk
import Callable.Session.Registers
set_option autoImplicit false

/-!
Sessions that build failures in registers and look at them. A step that reads an empty register, or
asks for the failure of a call that does not fail, makes the whole session unreadable.
-/

namespace Callable

/-- Where a step gets a failure from. -/
inductive FailureSource where
  | new (frame : Frame)
  | causedBy (of cause : String)
  | within (of : String) (frame : Frame)
  | notInvocable (op : Ty) (args : List Ty)
  | probe (op : Ty) (args : List Ty)
  | cause (of : String)
  | rootCause (of : String)
  | show (of : String)

inductive FailureStep where
  | make (as? : Option String) (source : FailureSource)
  | eq (left right : String)
  | chain (of : String) (skip : Nat)
  | sources (of : String)

inductive FailureAnswer where
  | failure (a : Failure)
  | nothing
  | equal (b : Bool)
  | rest (frames : List Frame)
  | sources (lines : List String)

namespace FailureSource

/-- The failure of a source. Only the cause of a failure that has none is missing without harm. -/
def eval? (rs : Registers Failure) : FailureSource → Option (Option Failure)
  | .new f => some (some (.root f))
  | .causedBy of n => do
    let a ← rs.get? of
    let b ← rs.get? n
    return some (a.causedBy b)
  | .within of f => (rs.get? of).map fun a => some (a.within f)
  | .notInvocable op args => some (some (.notInvocable op args))
  | .probe op args => (Callable.probe op args).failure?.map some
  | .cause of => (rs.get? of).map Failure.cause?
  | .rootCause of => (rs.get? of).map fun a => some a.rootCause
  | .show of => (rs.get? of).map some

end FailureSource

namespace FailureStep

def run? (rs : Registers Failure) : FailureStep → Option (FailureAnswer × Registers Failure)
  | .make as? source => do
    match ← source.eval? rs with
    | none => return (.nothing, rs)
    | some a => return (.failure a, rs.store as? a)
  | .eq left right => do
    let a ← rs.get? left
    let b ← rs.get? right
    return (.equal (a = b), rs)
  | .chain of skip => do
    let a ← rs.get? of
    return (.rest (a.chain.drop skip).frames, rs)
  | .sources of => do
    let a ← rs.get? of
    return (.sources a.sources, rs)

def runAll? : Registers Failure → List FailureStep → Option (List FailureAnswer)
  | _, [] => some []
  | rs, s :: ss => do
    let (answer, rs) ← s.run? rs
    let answers ← runAll? rs ss
    return answer :: answers

end FailureStep

end Callable
