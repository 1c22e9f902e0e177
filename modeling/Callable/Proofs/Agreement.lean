import Callable.Proofs.Leaves
import Callable.Proofs.Record
import Callable.Resolution.Region
import Callable.Run.Invoke
set_option autoImplicit false

/-!
Types and runs agree. A run of an operation of a known type on values of known types ends as the
type says for their types (`agrees_invoke`): the leaves do, and folds and decorators keep it so,
whatever the state of a fold has become on the way.
-/

namespace Callable

open Run

theorem Agrees.bind {w : World} {x : Run Value} {f : Value → Run Value} {r? : Option Ty}
    {g : Ty → Option Ty} (first : Agrees (inWorld w x).1 r?)
    (next : ∀ w' v r, v.HasType r → Agrees (inWorld w' (f v)).1 (g r)) :
    Agrees (inWorld w (x >>= f)).1 (r?.bind g) := by
  rw [inWorld_bind]
  revert first
  cases inWorld w x with
  | mk outcome w' =>
    intro first
    cases first with
    | value typed => exact next w' _ _ typed
    | overflow => exact .overflow
    | rejected => exact .rejected

/-! ### Folds -/

/-- Each step agrees, whatever the state and the argument are. -/
def StepsAgree (step : Value → Value → Run Value) (f : Ty) : Prop :=
  ∀ w v x t u, v.HasType t → x.HasType u → Agrees (inWorld w (step v x)).1 (result? f [t, u])

section Fold

variable {step : Value → Value → Run Value} {f : Ty} {xs : List Value} {ts : List Ty} (w : World)

theorem agrees_foldFrom {s : Value} {z : Ty} (steps : StepsAgree step f) (state : s.HasType z)
    (args : HaveTypes xs ts) : Agrees (inWorld w (foldFrom step s xs)).1 (foldResult? f z ts) := by
  induction args generalizing w s z with
  | nil => exact .value state
  | cons head tail ih =>
    have first := steps w s _ z _ state head
    exact first.bind fun w' s' z' state' => ih w' state'

theorem agrees_compress (steps : StepsAgree step f) (args : HaveTypes xs ts) :
    Agrees (inWorld w (foldSelf step xs)).1 (result? (.compress f) ts) := by
  cases args with
  | nil =>
    rw [result?_compress_nil]
    exact .rejected
  | @cons x t xs ts head tail =>
    have length := HaveTypes.length_eq tail
    by_cases few : xs.length < foldLimit
    · rw [result?_compress_cons (by rwa [← length])]
      simp only [foldSelf_cons, if_pos few]
      exact agrees_foldFrom w steps head tail
    · have many : functionLimit < (t :: ts).length := by
        rw [List.length_cons, ← length]
        exact Nat.lt_succ_of_le (Nat.le_of_not_lt few)
      rw [result?_eq_none_of_length many]
      simp only [foldSelf_cons, if_neg few]
      exact .rejected

theorem agrees_seeded {s : Value} {z : Ty} (steps : StepsAgree step f) (seed : s.HasType z)
    (args : HaveTypes xs ts) :
    Agrees (inWorld w (foldArgs step s xs)).1 (result? (.seeded f z) ts) := by
  have length := args.length_eq
  obtain ⟨copies, -⟩ := seed.isClone_isOrdered
  unfold foldArgs
  by_cases few : xs.length ≤ foldLimit
  · rw [if_pos few, result?_seeded (by rwa [← length]), if_pos copies]
    exact agrees_foldFrom w steps seed args
  · have many : functionLimit < ts.length := by
      rw [← length]
      exact Nat.lt_of_not_le few
    rw [if_neg few, result?_eq_none_of_length many]
    exact .rejected

end Fold

/-! ### Traced operations -/

/-- Events are no part of how a run ends. -/
theorem exists_inWorld_traceCall (set : Setting) (label operation : String)
    (target : List Value → Run Value) (xs : List Value) (w : World) :
    ∃ w', (inWorld w (Decorator.traceCall target set label operation xs)).1 =
      (inWorld w' (target xs)).1 := by
  unfold Decorator.traceCall
  simp only [inWorld_bind, inWorld_emit]
  generalize (if set.level.keeps (.invoking label operation) then _ else w) = started
  refine ⟨started, ?_⟩
  cases inWorld started (target xs) with
  | mk outcome w' =>
    cases outcome with
    | error s => rfl
    | ok v => rfl

theorem agrees_traced {set : Setting} {place : Nat} {operation : String} {label : Value}
    {target : List Value → Run Value} {t g : Ty} {xs : List Value} {ts : List Ty}
    (labels : set.label? label = label.display?) (typed : label.HasType t)
    (length : xs.length = ts.length) (few : xs.length ≤ decoratedLimit)
    (inner : ∀ w, Agrees (inWorld w (target xs)).1 (result? g ts)) (w : World) :
    Agrees (inWorld w (Decorator.invoke set place operation .trace (.value label) target xs)).1
      (result? (.decorated (.primitive .trace) t g) ts) := by
  rw [result?_traced (by rwa [← length]), ← typed.isSome_display?]
  simp only [Decorator.invoke, labels]
  cases label.display? with
  | none => exact .rejected
  | some text =>
    obtain ⟨w', same⟩ := exists_inWorld_traceCall set text operation target xs w
    rw [same]
    exact inner w'

/-! ### Operations -/

theorem ty?_decorated {d : Decorator} {data : Datum} {f : Op} {t : Ty}
    (h : (Op.decorated d data f).ty? = some t) :
    ∃ v a g, d = .trace ∧ data = .value v ∧ v.ty? = some a ∧ f.ty? = some g ∧
      t = .decorated (.primitive .trace) a g := by
  cases data with
  | counter n => cases d <;> cases h
  | value v =>
    cases d with
    | trace =>
      simp only [Op.ty?, Option.bind_eq_bind, Option.bind_eq_some_iff] at h
      obtain ⟨a, label, g, target, same⟩ := h
      cases same
      exact ⟨v, a, g, rfl, rfl, label, target, rfl⟩
    | _ => cases h

/-- The run of an operation ends as its type says, in any world and wherever its counters are. -/
theorem agrees_invoke {op : Op} {t : Ty} {xs : List Value} {ts : List Ty} (level : Level)
    (place : Nat) (w : World) (typed : op.ty? = some t) (args : HaveTypes xs ts) :
    Agrees (inWorld w (op.invoke (typedSetting level) place xs)).1 (result? t ts) := by
  induction op generalizing t xs ts place w with
  | leaf l =>
    have ended := agrees_apply typed args
    simp only [Op.invoke, Leaf.invoke, inWorld_bind, inWorld_ofExcept]
    revert ended
    cases l.apply xs with
    | error s => exact id
    | ok v => exact id
  | compress f ih =>
    obtain ⟨f', inner, rfl⟩ := Option.map_eq_some_iff.1 typed
    apply agrees_compress w _ args
    intro w v x t u state arg
    exact ih place w inner (.cons state (.cons arg .nil))
  | seeded f s ih =>
    simp only [Op.ty?, Option.bind_eq_bind, Option.bind_eq_some_iff] at typed
    obtain ⟨f', inner, z, seed, same⟩ := typed
    cases same
    apply agrees_seeded w _ (Value.hasType_of_ty? seed) args
    intro w v x t u state arg
    exact ih place w inner (.cons state (.cons arg .nil))
  | decorated d data f ih =>
    obtain ⟨v, a, g, rfl, rfl, label, target, rfl⟩ := ty?_decorated typed
    have length := args.length_eq
    simp only [Op.invoke]
    by_cases few : xs.length ≤ decoratedLimit
    · simp only [if_pos few, inWorld_bind, inWorld_counters]
      exact agrees_traced rfl (Value.hasType_of_ty? label) length few
        (fun w => ih _ w target args) w
    · have rejects : result? (.decorated (.primitive .trace) a g) ts = none := by
        rw [result?_eq]
        simp only [Ty.rule, Ty.decoratedRule, if_neg (length ▸ few), Rule.result?]
      rw [if_neg few, rejects]
      exact .rejected

/-- Type-level acceptance and runs agree: a run of an accepted call gives a value of the result type
or stops for an integer that is out of range, and a call that gives a value at all is accepted with
the type of the value, which is the one that a probe reports. -/
theorem call_agrees (level : Level) {op : Op} {t : Ty} {xs : List Value} {ts : List Ty}
    (typed : op.ty? = some t) (args : xs.mapM Value.ty? = some ts) :
    (∀ r, result? t ts = some r →
      (∃ v, (op.call (typedSetting level) xs).outcome = .ok v ∧ v.ty? = some r) ∨
        ∃ o, (op.call (typedSetting level) xs).outcome = .error (.overflow o)) ∧
    ∀ v, (op.call (typedSetting level) xs).outcome = .ok v →
      ∃ r, v.ty? = some r ∧ result? t ts = some r ∧ probe t ts = .invocable t ts r := by
  have ended : Agrees (op.call (typedSetting level) xs).outcome (result? t ts) :=
    agrees_invoke level 0 op.start typed (haveTypes_of_mapM args)
  revert ended
  generalize (op.call (typedSetting level) xs).outcome = outcome
  intro ended
  constructor
  · intro r accepted
    rw [accepted] at ended
    cases ended with
    | value hv => exact .inl ⟨_, rfl, hv.ty?⟩
    | overflow => exact .inr ⟨_, rfl⟩
  · rintro v rfl
    revert ended
    cases answer : result? t ts with
    | none => exact fun ended => nomatch ended
    | some r =>
      intro ended
      cases ended with
      | value hv => exact ⟨r, hv.ty?, rfl, probeWithin_of_accepted (by decide) answer⟩

theorem traced_max_agrees :
    (Op.decorated .trace (.value (.char 'm')) (.leaf .max)).ty? =
      some (.decorated (.primitive .trace) .char (.primitive .max)) ∧
    [Value.bool true, .bool false].mapM Value.ty? = some [.bool, .bool] ∧
    result? (.decorated (.primitive .trace) .char (.primitive .max)) [.bool, .bool] = some .bool ∧
    ((Op.decorated .trace (.value (.char 'm')) (.leaf .max)).call (typedSetting .off)
      [.bool true, .bool false]).outcome = .ok (.bool true) ∧
    ((∃ v, ((Op.decorated .trace (.value (.char 'm')) (.leaf .max)).call (typedSetting .off)
        [.bool true, .bool false]).outcome = .ok v ∧ v.ty? = some .bool) ∨
      ∃ o, ((Op.decorated .trace (.value (.char 'm')) (.leaf .max)).call (typedSetting .off)
        [.bool true, .bool false]).outcome = .error (.overflow o)) ∧
    ∃ r, (Value.bool true).ty? = some r ∧
      probe (.decorated (.primitive .trace) .char (.primitive .max)) [.bool, .bool] =
        .invocable (.decorated (.primitive .trace) .char (.primitive .max)) [.bool, .bool] r := by
  have typed : (Op.decorated .trace (.value (.char 'm')) (.leaf .max)).ty? =
      some (.decorated (.primitive .trace) .char (.primitive .max)) := rfl
  have args : [Value.bool true, .bool false].mapM Value.ty? = some [.bool, .bool] := rfl
  have accepted : result? (.decorated (.primitive .trace) .char (.primitive .max))
      [.bool, .bool] = some .bool := by decide
  have ended : ((Op.decorated .trace (.value (.char 'm')) (.leaf .max)).call (typedSetting .off)
      [.bool true, .bool false]).outcome = .ok (.bool true) := rfl
  obtain ⟨forward, backward⟩ := call_agrees .off typed args
  obtain ⟨r, result, -, reported⟩ := backward _ ended
  exact ⟨typed, args, accepted, ended, forward _ accepted, r, result, reported⟩

end Callable
