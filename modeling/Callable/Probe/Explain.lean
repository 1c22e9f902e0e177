import Callable.Probe.Walk
import Callable.Resolution.Region
set_option autoImplicit false

/-!
The explanation of a rejection by recursion on the operation: the frames of the rejected layers from
the outermost adaptor to the innermost call that is rejected.
-/

namespace Callable

namespace Ty

/-- Whether the operation is explained by what is inside it. -/
def isAdaptor : Ty → Bool
  | .compress _ | .seeded _ _ | .decorated _ _ _ => true
  | _ => false

/-- Whether a rejected call inside a fold has more to say than that it is rejected. -/
def explains (op : Ty) (args : List Ty) : Bool := op.isAdaptor || (op.reveal? args).isSome

end Ty

/-- The explanation of a fold: that of its first step that is rejected. -/
def explainFold (inner : List Ty → List Frame) (f : Ty) : Ty → List Ty → List Frame
  | _, [] => []
  | s, x :: xs =>
    match result? f [s, x] with
    | some s' => explainFold inner f s' xs
    | none => foldOperationFrame f s x :: if f.explains [s, x] then inner [s, x] else []

def explain : Ty → List Ty → List Frame
  | .compress f, [] => [⟨.missingSeed, (Ty.compress f).name, []⟩]
  | .compress f, x :: xs =>
    ⟨.fold, (Ty.compress f).name, (x :: xs).map Ty.name⟩ :: explainFold (explain f) f x xs
  | .seeded f s, xs =>
    ⟨.fold, (Ty.seeded f s).name, xs.map Ty.name⟩ ::
      if s.isClone then explainFold (explain f) f s xs else [seedFrame s]
  | .decorated d t g, xs =>
    ⟨.decorated, (Ty.decorated d t g).name, xs.map Ty.name⟩ ::
      if TakesCall d t g xs then []
      else decoratorFrame d t g xs :: if accepts g xs then [] else explain g xs
  | op, args => ((op.reveal? args).getD (.notInvocable op args)).frames

end Callable
