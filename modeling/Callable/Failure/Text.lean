import Callable.Failure.Chain
import Callable.Ty.Name
set_option autoImplicit false

/-!
The words of a failure. A frame is one line; `full` writes every frame of the chain, `sources` the
lines of the causes alone.
-/

namespace Callable

def Site.text : Site → String
  | .operation => "operation"
  | .fold => "fold"
  | .foldOperation => "fold operation"
  | .missingSeed => "self-seeding fold"
  | .seedNotClone => "fold seed"
  | .decorated => "decorated callable"
  | .decoratorOperation => "decorator operation"

namespace Frame

/-- What is said of the component. A fold without arguments and a seed that cannot be copied are
rejected whatever the arguments are, so theirs are not shown. -/
def complaint (f : Frame) : String :=
  match f.site with
  | .missingSeed => "needs at least one argument"
  | .seedNotClone => "does not implement `Clone`"
  | .fold | .foldOperation => "cannot reduce `" ++ tupleName f.arguments ++ "`"
  | .operation | .decorated | .decoratorOperation =>
    "is not invocable with `" ++ tupleName f.arguments ++ "`"

def text (f : Frame) : String := f.site.text ++ " `" ++ f.operation ++ "` " ++ f.complaint

end Frame

namespace Failure

def text (a : Failure) : String := a.frame.text

/-- The line of the failure, and below it a line for each cause that the chain yields. -/
def full (a : Failure) : String :=
  (a.chain.drop 1).fold (fun lines cause => lines ++ "\ncaused by: " ++ cause.text) a.text

/-- What an error was caused by, as an error of its own. -/
def source? (a : Failure) : Option Failure := a.cause?

theorem frames_of_source? {a b : Failure} (h : a.source? = some b) :
    a.frames = a.frame :: b.frames := by
  rw [frames_eq_frame_cons, ← source?, h]
  rfl

/-- The lines met on the way from a failure to its root cause, its own excluded. -/
def sources (a : Failure) : List String :=
  match found : a.source? with
  | none => []
  | some b =>
    have : b.frames.length < a.frames.length := by simp [frames_of_source? found]
    b.text :: b.sources
termination_by a.frames.length

end Failure

end Callable
