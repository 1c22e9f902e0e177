import Callable.Failure.Text
import Callable.Ty.Name
set_option autoImplicit false

/-!
The answer to the question whether an operation accepts a list of argument types.
-/

namespace Callable

/-- The failure of an operation that gives no other reason. -/
def Failure.notInvocable (op : Ty) (args : List Ty) : Failure :=
  .new .operation op.name (args.map Ty.name)

inductive Outcome where
  | invocable (result : String)
  | notInvocable (failure : Failure)
  deriving DecidableEq, Repr

structure Capability where
  operation : String
  arguments : List String
  outcome : Outcome
  deriving DecidableEq, Repr

namespace Capability

def invocable (op : Ty) (args : List Ty) (result : Ty) : Capability :=
  ⟨op.name, args.map Ty.name, .invocable result.name⟩

/-- A rejection on the caller's word, with a failure of the caller's choice. -/
def notInvocable (op : Ty) (args : List Ty) (failure : Failure) : Capability :=
  ⟨op.name, args.map Ty.name, .notInvocable failure⟩

def resultType? (c : Capability) : Option String :=
  match c.outcome with
  | .invocable r => some r
  | .notInvocable _ => none

def failure? (c : Capability) : Option Failure :=
  match c.outcome with
  | .invocable _ => none
  | .notInvocable a => some a

def isInvocable (c : Capability) : Bool := c.resultType?.isSome

def toExcept (c : Capability) : Except Failure String :=
  match c.outcome with
  | .invocable r => .ok r
  | .notInvocable a => .error a

end Capability

end Callable
