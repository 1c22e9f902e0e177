import Callable.Resolution.Result
import Callable.Run.Invoke
import Callable.Run.Typing
set_option autoImplicit false

/-!
Calls of traced operations of known types. A call whose arguments the type does not accept is not
started.
-/

namespace Callable

/-- What is traced, and where the label goes: around the target, or for `foldOfTracedSum` around the
operation inside the fold. -/
inductive TraceTarget where
  | mix (arity : Nat)
  | sum | product | compressMax | compressMin | seededSum | tracedSum | foldOfTracedSum
  | tracedFoldOfTracedProduct

def traced (label : Value) (f : Op) : Op := .decorated .trace (.value label) f

namespace TraceTarget

def op (label : Value) : TraceTarget → Op
  | .mix n => traced label (.leaf (.mix n))
  | .sum => traced label (.leaf .sum)
  | .product => traced label (.leaf .product)
  | .compressMax => traced label (.compress (.leaf .max))
  | .compressMin => traced label (.compress (.leaf .min))
  | .seededSum => traced label (.seeded (.leaf .sum) (.int (.wrap64 100)))
  | .tracedSum => traced label (traced (.str "inner") (.leaf .sum))
  | .foldOfTracedSum => .compress (traced label (.leaf .sum))
  | .tracedFoldOfTracedProduct =>
    traced label (.seeded (traced (.char '*') (.leaf .product)) (.int (.wrap64 1)))

end TraceTarget

def Entry.event? : Entry → Option Event
  | .event e => some e
  | _ => none

/-- How the call ended, and its events. -/
def traceCall (t : TraceTarget) (label : Value) (level : Level) (xs : List Value) :
    Except Stop Value × List Event :=
  let op := t.op label
  let accepted := do
    let ty ← op.ty?
    let tys ← xs.mapM Value.ty?
    result? ty tys
  if accepted.isSome && xs.length ≤ decoratedLimit then
    let report := op.call (typedSetting level) xs
    (report.outcome, report.log.filterMap Entry.event?)
  else (.error .notInvocable, [])

end Callable
