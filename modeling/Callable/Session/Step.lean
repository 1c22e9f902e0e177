import Callable.Session.Script
set_option autoImplicit false

/-!
What the steps of a script do, as relations with one rule for each source and each step, and sessions
of any number of steps.
-/

namespace Callable

variable {rs rs' rs'' : Registers Object}

/-- What a source makes from the registers, and the registers without what it takes away. -/
inductive ObjectSource.Makes (rs : Registers Object) :
    ObjectSource → Object → Registers Object → Prop where
  | make {e : OpExpr} {f : Op} (given : e.eval? rs = some f) : Makes rs (.make e) (.op f) rs
  | decorate (d : Decorator) : Makes rs (.decorate d) (.decorate d) rs
  | withData {of : String} {t : Datum} {o made : Object} (held : rs.get? of = some o)
      (bound : o.withData? t = some made) : Makes rs (.withData of t) made rs
  | apply {of : String} {e : OpExpr} {f g : Op} {o : Object} (given : e.eval? rs = some f)
      (held : rs.get? of = some o) (applied : o.withTarget? f = some g) :
      Makes rs (.apply of e) (.op g) rs
  | intoDecorated {of : String} {e : OpExpr} {f g : Op} {o : Object} (given : e.eval? rs = some f)
      (held : rs.get? of = some o) (applied : o.withTarget? f = some g) :
      Makes rs (.intoDecorated of e) (.op g) (rs.clear of)
  | operation {of : String} {o : Object} {f : Op} (held : rs.get? of = some o)
      (folded : o.operation? = some f) : Makes rs (.operation of) (.op f) rs
  | target {of : String} {o : Object} {f : Op} (held : rs.get? of = some o)
      (inside : o.target? = some f) : Makes rs (.target of) (.op f) rs
  | copy {of : String} {o : Object} (held : rs.get? of = some o) : Makes rs (.copy of) o rs
  | seeded {of : String} {s : Value} {o : Object} {f : Op} (held : rs.get? of = some o)
      (seeded : o.withSeed? s = some f) : Makes rs (.seeded of s) (.op f) (rs.clear of)

theorem ObjectSource.makes_iff {source : ObjectSource} {made : Object} :
    source.Makes rs made rs' ↔ source.eval? rs = some (made, rs') := by
  constructor
  · intro h
    cases h <;> simp [eval?, *]
  · intro h
    cases source <;>
      simp only [eval?, Option.bind_eq_bind, Option.bind_eq_some_iff] at h
    case make e =>
      obtain ⟨f, given, same⟩ := h
      cases same
      exact .make given
    case decorate d =>
      cases h
      exact .decorate d
    case withData of t =>
      obtain ⟨o, held, o', bound, same⟩ := h
      cases same
      exact .withData held bound
    case apply of e =>
      obtain ⟨f, given, o, held, g, applied, same⟩ := h
      cases same
      exact .apply given held applied
    case intoDecorated of e =>
      obtain ⟨f, given, o, held, g, applied, same⟩ := h
      cases same
      exact .intoDecorated given held applied
    case operation of =>
      obtain ⟨o, held, f, folded, same⟩ := h
      cases same
      exact .operation held folded
    case target of =>
      obtain ⟨o, held, f, inside, same⟩ := h
      cases same
      exact .target held inside
    case copy of =>
      obtain ⟨o, held, same⟩ := h
      cases same
      exact .copy held
    case seeded of s =>
      obtain ⟨o, held, f, seeded, same⟩ := h
      cases same
      exact .seeded held seeded

/-- What a step answers, and what it leaves in the registers. -/
inductive ScriptStep.Takes (set : Setting) (rs : Registers Object) :
    ScriptStep → ScriptAnswer → Registers Object → Prop where
  | object {source : ObjectSource} {made : Object} {rest : Registers Object} (as? : Option String)
      (makes : source.Makes rs made rest) :
      Takes set rs (.object as? source) (.object made) (rest.store as? made)
  | intoParts {of : String} {o : Object} {ps : List Part} (held : rs.get? of = some o)
      (apart : o.parts? = some ps) : Takes set rs (.intoParts of) (.parts ps) (rs.clear of)
  | eq {left right : String} {a b : Object} (first : rs.get? left = some a)
      (second : rs.get? right = some b) : Takes set rs (.eq left right) (.equal (a.same b)) rs
  | call {of : String} {o : Object} {f : Op} (xs : List Value) (held : rs.get? of = some o)
      (isOp : o.op? = some f) :
      Takes set rs (.call of xs) (.ran (f.call set xs).outcome (f.call set xs).log)
        (rs.set of (.op (f.call set xs).op))
  | fold {e : OpExpr} {f : Op} (s : Value) (xs : List Value) (given : e.eval? rs = some f) :
      Takes set rs (.fold e s xs) (.ran (f.fold set s xs).outcome (f.fold set s xs).log) rs
  | foldSelf {e : OpExpr} {f : Op} (xs : List Value) (given : e.eval? rs = some f) :
      Takes set rs (.foldSelf e xs) (.ran (f.foldSelf set xs).outcome (f.foldSelf set xs).log) rs

theorem ScriptStep.takes_iff {set : Setting} {s : ScriptStep} {answer : ScriptAnswer} :
    s.Takes set rs answer rs' ↔ s.run? set rs = some (answer, rs') := by
  constructor
  · intro h
    cases h with
    | object as? makes => simp [run?, ObjectSource.makes_iff.1 makes]
    | _ => simp [run?, *]
  · intro h
    cases s <;>
      simp only [run?, Option.bind_eq_bind, Option.bind_eq_some_iff] at h
    case object as? source =>
      obtain ⟨⟨made, rest⟩, found, same⟩ := h
      cases same
      exact .object as? (ObjectSource.makes_iff.2 found)
    case intoParts of =>
      obtain ⟨o, held, ps, apart, same⟩ := h
      cases same
      exact .intoParts held apart
    case eq left right =>
      obtain ⟨a, first, b, second, same⟩ := h
      cases same
      exact .eq first second
    case call of xs =>
      obtain ⟨o, held, f, isOp, same⟩ := h
      cases same
      exact .call xs held isOp
    case fold e s xs =>
      obtain ⟨f, given, same⟩ := h
      cases same
      exact .fold s xs given
    case foldSelf e xs =>
      obtain ⟨f, given, same⟩ := h
      cases same
      exact .foldSelf xs given

def ObjectSource.takes : ObjectSource → List String
  | .intoDecorated of _ => [of]
  | .seeded of _ => [of]
  | _ => []

/-- The registers whose objects a step takes away or replaces by other ones. -/
def ScriptStep.replaces : ScriptStep → List String
  | .object as? source => as?.toList ++ source.takes
  | .intoParts of => [of]
  | _ => []

/-! ### Sessions -/

/-- The steps that were taken, with their answers, between two states of the registers. -/
inductive Session (set : Setting) :
    Registers Object → List (ScriptStep × ScriptAnswer) → Registers Object → Prop where
  | nil (rs : Registers Object) : Session set rs [] rs
  | cons (s : ScriptStep) {answer : ScriptAnswer} {history : List (ScriptStep × ScriptAnswer)}
      {rs rs' rs'' : Registers Object} (ran : s.run? set rs = some (answer, rs'))
      (rest : Session set rs' history rs'') : Session set rs ((s, answer) :: history) rs''

variable {set : Setting}

theorem Session.append {before after : List (ScriptStep × ScriptAnswer)}
    (first : Session set rs before rs') (second : Session set rs' after rs'') :
    Session set rs (before ++ after) rs'' := by
  induction first with
  | nil rs => exact second
  | cons s ran rest ih => exact .cons s ran (ih second)

/-- A script is answered if and only if there is a session of its steps with these answers. -/
theorem runAll?_eq_some_iff {steps : List ScriptStep} {answers : List ScriptAnswer} :
    ScriptStep.runAll? set rs steps = some answers ↔
      ∃ history rs', Session set rs history rs' ∧ history.map Prod.fst = steps ∧
        history.map Prod.snd = answers := by
  induction steps generalizing rs answers with
  | nil =>
    constructor
    · intro h
      cases h
      exact ⟨[], rs, .nil rs, rfl, rfl⟩
    · rintro ⟨history, rs', session, none, rfl⟩
      rw [List.map_eq_nil_iff.1 none]
      rfl
  | cons s ss ih =>
    simp only [ScriptStep.runAll?, Option.bind_eq_bind, Option.bind_eq_some_iff]
    constructor
    · rintro ⟨⟨answer, rs'⟩, ran, rest, later, same⟩
      cases same
      obtain ⟨history, rs'', session, rfl, rfl⟩ := ih.1 later
      exact ⟨_ :: history, rs'', .cons s ran session, rfl, rfl⟩
    · rintro ⟨history, rs'', session, steps, rfl⟩
      cases session with
      | nil => cases steps
      | cons s' ran rest =>
        cases steps
        exact ⟨_, ran, _, ih.2 ⟨_, _, rest, rfl, rfl⟩, rfl⟩

end Callable
