set_option autoImplicit false

/-!
Failures: who rejected a call, and because of which inner rejection. A failure is a chain of frames
from the outermost rejected call to the root cause, and `causedBy` appends one chain to another
(`frames_causedBy`).
-/

namespace Callable

/-- The part that a rejected component plays in a composition. -/
inductive Site where
  | operation | fold | foldOperation | missingSeed | seedNotClone | decorated | decoratorOperation
  deriving DecidableEq, Repr, Inhabited

/-- One rejection: the component and the argument types that it was offered, by name. -/
structure Frame where
  site : Site
  operation : String
  arguments : List String
  deriving DecidableEq, Repr, Inhabited

inductive Failure where
  | root (frame : Frame)
  | outer (frame : Frame) (cause : Failure)
  deriving DecidableEq, Repr, Inhabited

namespace Failure

abbrev new (site : Site) (operation : String) (arguments : List String) : Failure :=
  .root ⟨site, operation, arguments⟩

def frame : Failure → Frame
  | .root f => f
  | .outer f _ => f

def cause? : Failure → Option Failure
  | .root _ => none
  | .outer _ c => some c

def rootCause : Failure → Failure
  | .root f => .root f
  | .outer _ c => c.rootCause

/-- Puts a cause below the root cause, so that no frame of either failure is lost. -/
def causedBy : Failure → Failure → Failure
  | .root f, cause => .outer f cause
  | .outer f c, cause => .outer f (c.causedBy cause)

/-- The failure as the cause of a rejection further out. -/
def within (inner : Failure) (frame : Frame) : Failure := (Failure.root frame).causedBy inner

/-- The frames of the chain, outermost first. -/
def frames : Failure → List Frame
  | .root f => [f]
  | .outer f c => f :: c.frames

@[simp] theorem frames_root (f : Frame) : (Failure.root f).frames = [f] := rfl

@[simp] theorem frames_outer (f : Frame) (c : Failure) :
    (Failure.outer f c).frames = f :: c.frames := rfl

theorem frames_ne_nil (a : Failure) : a.frames ≠ [] := by cases a <;> simp

theorem frames_eq_frame_cons (a : Failure) :
    a.frames = a.frame :: (a.cause?.map frames).getD [] := by
  cases a <;> rfl

@[simp] theorem frames_causedBy (a b : Failure) : (a.causedBy b).frames = a.frames ++ b.frames := by
  induction a with
  | root f => rfl
  | outer f c ih => simp [causedBy, ih]

@[simp] theorem frames_within (a : Failure) (f : Frame) : (a.within f).frames = f :: a.frames := by
  simp [within]

theorem frames_injective {a b : Failure} (h : a.frames = b.frames) : a = b := by
  induction a generalizing b with
  | root f =>
    cases b with
    | root g => simpa using h
    | outer g d => exact absurd (List.cons.inj h).2.symm (frames_ne_nil d)
  | outer f c ih =>
    cases b with
    | root g => exact absurd (List.cons.inj h).2 (frames_ne_nil c)
    | outer g d =>
      simp only [frames_outer, List.cons.injEq] at h
      rw [h.1, ih h.2]

/-- The failure with the given frames. -/
def ofFrames (f : Frame) : List Frame → Failure
  | [] => .root f
  | g :: gs => .outer f (ofFrames g gs)

@[simp] theorem frames_ofFrames (f : Frame) (fs : List Frame) :
    (ofFrames f fs).frames = f :: fs := by
  induction fs generalizing f with
  | nil => rfl
  | cons g gs ih => simp [ofFrames, ih]

theorem getLast?_frames (a : Failure) : a.frames.getLast? = some a.rootCause.frame := by
  induction a with
  | root f => rfl
  | outer f c ih => rw [frames_outer, List.getLast?_cons, ih, Option.getD_some, rootCause]

end Failure

end Callable
