import Callable.Run.Invoke
import Callable.Run.Typing
import Callable.Session.Registers
set_option autoImplicit false

/-!
Scripts that build operations, take them apart, compare them and run them. A step that names a
register without a fitting object makes the whole script unreadable; a run that ends without a value
does not, and the script goes on with the next step.
-/

namespace Callable

/-- An operation as written in a script, where a register stands for a copy of what is in it. -/
inductive OpExpr where
  | leaf (l : Leaf)
  | compress (f : OpExpr)
  | seeded (f : OpExpr) (seed : Value)
  | decorated (d : Decorator) (data : Datum) (target : OpExpr)
  | register (name : String)

/-- What a register holds: an operation, or a decoration that waits for its data or its target. -/
inductive Object where
  | op (f : Op)
  | decorate (d : Decorator)
  | decoration (d : Decorator) (data : Datum)

inductive Part where
  | op (f : Op)
  | value (v : Value)
  | decorator (d : Decorator)
  | data (t : Datum)

namespace Object

def op? : Object → Option Op
  | .op f => some f
  | _ => none

def same : Object → Object → Bool
  | .op f, .op g => f.same g
  | .decorate d, .decorate d' => d = d'
  | .decoration d t, .decoration d' t' => d = d' && t.same t'
  | _, _ => false

/-- The operation of a fold. -/
def operation? : Object → Option Op
  | .op (.compress f) => some f
  | .op (.seeded f _) => some f
  | _ => none

def target? : Object → Option Op
  | .op (.decorated _ _ f) => some f
  | _ => none

def withSeed? (s : Value) : Object → Option Op
  | .op (.compress f) => some (.seeded f s)
  | _ => none

def withData? (t : Datum) : Object → Option Object
  | .decorate d => some (.decoration d t)
  | _ => none

def withTarget? (f : Op) : Object → Option Op
  | .decoration d t => some (.decorated d t f)
  | _ => none

def parts? : Object → Option (List Part)
  | .op (.compress f) => some [.op f]
  | .op (.seeded f s) => some [.op f, .value s]
  | .op (.decorated .trace _ _) => none
  | .op (.decorated d t f) => some [.decorator d, .data t, .op f]
  | .op (.leaf _) => none
  | .decorate d => some [.decorator d]
  | .decoration d t => some [.decorator d, .data t]

theorem op?_eq_some_iff {o : Object} {f : Op} : o.op? = some f ↔ o = .op f := by
  cases o <;> simp [op?]

theorem withSeed?_eq_some_iff {s : Value} {o : Object} {g : Op} :
    o.withSeed? s = some g ↔ ∃ f, o = .op (.compress f) ∧ g = .seeded f s := by
  unfold withSeed?
  constructor
  · intro h
    split at h
    · cases h
      exact ⟨_, rfl, rfl⟩
    · cases h
  · rintro ⟨f, rfl, rfl⟩
    rfl

theorem withTarget?_eq_some_iff {f g : Op} {o : Object} :
    o.withTarget? f = some g ↔ ∃ d t, o = .decoration d t ∧ g = .decorated d t f := by
  unfold withTarget?
  constructor
  · intro h
    split at h
    · cases h
      exact ⟨_, _, rfl, rfl⟩
    · cases h
  · rintro ⟨d, t, rfl, rfl⟩
    rfl

end Object

/-- Where a step gets the object from that it answers and stores. A source that consumes leaves its
register empty. -/
inductive ObjectSource where
  | make (f : OpExpr)
  | decorate (d : Decorator)
  | withData (of : String) (t : Datum)
  | apply (of : String) (target : OpExpr)
  | intoDecorated (of : String) (target : OpExpr)
  | operation (of : String)
  | target (of : String)
  | copy (of : String)
  | seeded (of : String) (s : Value)

inductive ScriptStep where
  | object (as? : Option String) (source : ObjectSource)
  | intoParts (of : String)
  | eq (left right : String)
  | call (of : String) (xs : List Value)
  | fold (f : OpExpr) (s : Value) (xs : List Value)
  | foldSelf (f : OpExpr) (xs : List Value)

inductive ScriptAnswer where
  | object (o : Object)
  | parts (ps : List Part)
  | equal (b : Bool)
  | ran (outcome : Except Stop Value) (log : List Entry)

namespace OpExpr

def eval? (rs : Registers Object) : OpExpr → Option Op
  | .leaf l => some (.leaf l)
  | .compress f => (f.eval? rs).map .compress
  | .seeded f s => (f.eval? rs).map fun f => .seeded f s
  | .decorated d t f => (f.eval? rs).map fun f => .decorated d t f
  | .register n => (rs.get? n).bind Object.op?

end OpExpr

namespace ObjectSource

def eval? (rs : Registers Object) : ObjectSource → Option (Object × Registers Object)
  | .make f => do return (.op (← f.eval? rs), rs)
  | .decorate d => some (.decorate d, rs)
  | .withData of t => do return (← (← rs.get? of).withData? t, rs)
  | .apply of f => do
    let f ← f.eval? rs
    return (.op (← (← rs.get? of).withTarget? f), rs)
  | .intoDecorated of f => do
    let f ← f.eval? rs
    return (.op (← (← rs.get? of).withTarget? f), rs.clear of)
  | .operation of => do return (.op (← (← rs.get? of).operation?), rs)
  | .target of => do return (.op (← (← rs.get? of).target?), rs)
  | .copy of => do return (← rs.get? of, rs)
  | .seeded of s => do return (.op (← (← rs.get? of).withSeed? s), rs.clear of)

end ObjectSource

namespace ScriptStep

def run? (set : Setting) (rs : Registers Object) :
    ScriptStep → Option (ScriptAnswer × Registers Object)
  | .object as? source => do
    let (o, rs) ← source.eval? rs
    return (.object o, rs.store as? o)
  | .intoParts of => do
    let ps ← (← rs.get? of).parts?
    return (.parts ps, rs.clear of)
  | .eq left right => do
    let a ← rs.get? left
    let b ← rs.get? right
    return (.equal (a.same b), rs)
  | .call of xs => do
    let f ← (← rs.get? of).op?
    let report := f.call set xs
    return (.ran report.outcome report.log, rs.set of (.op report.op))
  | .fold f s xs => do
    let report := (← f.eval? rs).fold set s xs
    return (.ran report.outcome report.log, rs)
  | .foldSelf f xs => do
    let report := (← f.eval? rs).foldSelf set xs
    return (.ran report.outcome report.log, rs)

def runAll? (set : Setting) : Registers Object → List ScriptStep → Option (List ScriptAnswer)
  | _, [] => some []
  | rs, s :: ss => do
    let (answer, rs) ← s.run? set rs
    let answers ← runAll? set rs ss
    return answer :: answers

end ScriptStep

/-- The operations of a script all go by one name in events, and a label is what can be rendered. -/
def scriptSetting (level : Level) : Setting := ⟨level, fun _ => Op.untypedName, Value.text?⟩

end Callable
