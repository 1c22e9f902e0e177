import Callable.Proofs.Oblivious
import Callable.Proofs.Values
import Callable.Resolution.Region
import Callable.Run.Nest
set_option autoImplicit false

/-!
Traces can be left out. A nest of folds and traces accepts the same arguments with the same results
as the nest without its traces (`result?_untraced`), and its runs end as those of the nest without
its traces (`alike_untraced`).
-/

namespace Callable

open Adaptor

/-! ### Types -/

theorem result?_untraced (base : Ty) (layers : List TyAdaptor) {ts : List Ty}
    (few : ts.length ≤ decoratedLimit) :
    result? (base.nest layers) ts = result? (base.nest (untraced layers)) ts := by
  have pair : 2 ≤ decoratedLimit := by decide
  induction layers generalizing ts with
  | nil => rfl
  | cons l ls ih =>
    have steps : ∀ s x, result? (base.nest ls) [s, x] = result? (base.nest (untraced ls)) [s, x] :=
      fun s x => ih pair
    cases l with
    | compress =>
      cases ts with
      | nil => simp only [Ty.nest, untraced, result?_compress_nil]
      | cons t ts =>
        have within : ts.length < foldLimit := Nat.lt_of_lt_of_le few (by decide)
        simp only [Ty.nest, untraced, result?_compress_cons within]
        exact foldResult?_congr steps t ts
    | seeded z =>
      have within : ts.length ≤ foldLimit := Nat.le_trans few (by decide)
      simp only [Ty.nest, untraced, result?_seeded within, foldResult?_congr steps]
    | traced t fit =>
      simp only [Ty.nest, untraced, result?_traced few, if_pos fit]
      exact ih few

/-- If the nest has a type, its type is a nest too, and the operation without its traces has the type
without its traces. -/
theorem ty?_nest {base : Op} {layers : List OpAdaptor} {t : Ty}
    (typed : (base.nest layers).ty? = some t) :
    ∃ (b : Ty) (ls : List TyAdaptor), base.ty? = some b ∧ t = b.nest ls ∧
      (base.nest (untraced layers)).ty? = some (b.nest (untraced ls)) := by
  induction layers generalizing t with
  | nil => exact ⟨t, [], typed, rfl, typed⟩
  | cons l ls ih =>
    cases l with
    | compress =>
      obtain ⟨f, inner, rfl⟩ := Option.map_eq_some_iff.1 typed
      obtain ⟨b, ts, bare, rfl, without⟩ := ih inner
      exact ⟨b, .compress :: ts, bare, rfl, Option.map_eq_some_iff.2 ⟨_, without, rfl⟩⟩
    | seeded z =>
      simp only [Op.nest, Op.ty?, Option.bind_eq_bind, Option.bind_eq_some_iff] at typed
      obtain ⟨f, inner, s, seed, same⟩ := typed
      cases same
      obtain ⟨b, ts, bare, rfl, without⟩ := ih inner
      refine ⟨b, .seeded s :: ts, bare, rfl, ?_⟩
      simp only [untraced, Op.nest, Op.ty?, without, seed]
      rfl
    | traced v fit =>
      simp only [Op.nest, Op.ty?, Option.bind_eq_bind, Option.bind_eq_some_iff] at typed
      obtain ⟨a, label, g, inner, same⟩ := typed
      cases same
      obtain ⟨b, ts, bare, rfl, without⟩ := ih inner
      have display : a.isDisplay = true := (Value.hasType_of_ty? label).isSome_display? ▸ fit
      exact ⟨b, .traced a display :: ts, bare, rfl, without⟩

/-! ### Runs -/

theorem alike_untraced (level : Level) (base : Op) (layers : List OpAdaptor) (place : Nat)
    {xs : List Value} (few : xs.length ≤ decoratedLimit) :
    Alike ((base.nest layers).invoke (typedSetting level) place xs)
      ((base.nest (untraced layers)).invoke (typedSetting level) place xs) := by
  have pair : 2 ≤ decoratedLimit := by decide
  induction layers generalizing xs with
  | nil =>
    -- The operation inside is the same, but what was logged before it may differ.
    have events := alike_emit level level
    exact lockstep_alike.invoke (typedSetting level) level base (.inr events) place xs
  | cons l ls ih =>
    have steps : ∀ s x, Alike ((base.nest ls).invoke (typedSetting level) place [s, x])
        ((base.nest (untraced ls)).invoke (typedSetting level) place [s, x]) :=
      fun s x => ih pair
    cases l with
    | compress => exact lockstep_alike.foldSelf steps xs
    | seeded z => exact lockstep_alike.foldArgs steps z xs
    | traced v fit =>
      rw [Op.invoke_traced level base ls fit place few]
      exact alike_traceCall (ih few) _ _ _

/-- Traces can be erased. With and without them a nest takes the same lists of arguments that a traced
call can have, with the same result types, and a call of the one ends as the same call of the other,
in a value or not, whatever the collector keeps. An operation of a known type still has one without
its traces. -/
theorem untraced_agrees :
    (∀ (base : Ty) (layers : List TyAdaptor) (ts : List Ty), ts.length ≤ decoratedLimit →
      result? (base.nest layers) ts = result? (base.nest (untraced layers)) ts) ∧
    ∀ (base : Op) (layers : List OpAdaptor),
      (∀ t, (base.nest layers).ty? = some t →
        ∃ t', (base.nest (untraced layers)).ty? = some t' ∧
          ∀ ts, ts.length ≤ decoratedLimit → result? t ts = result? t' ts) ∧
      ∀ (level : Level) (xs : List Value), xs.length ≤ decoratedLimit →
        ((base.nest layers).call (typedSetting level) xs).outcome =
          ((base.nest (untraced layers)).call (typedSetting level) xs).outcome := by
  refine ⟨fun base layers ts few => result?_untraced base layers few, fun base layers => ⟨?_, ?_⟩⟩
  · intro t typed
    obtain ⟨b, ls, -, rfl, without⟩ := ty?_nest typed
    exact ⟨_, without, fun ts few => result?_untraced b ls few⟩
  · intro level xs few
    have counters : (base.nest layers).start.counters =
        (base.nest (untraced layers)).start.counters := by
      simp only [Op.start, Op.counters_nest]
    exact (alike_untraced level base layers 0 few _ _ counters).1

theorem fold_of_traced_max_untraced :
    [Ty.bool, .bool, .bool].length ≤ decoratedLimit ∧
    result? (Ty.nest (.primitive .max) [.traced .str rfl, .compress, .traced .char rfl])
      [.bool, .bool, .bool] = some .bool ∧
    result? (Ty.nest (.primitive .max) [.traced .str rfl, .compress, .traced .char rfl])
      [.bool, .bool, .bool] =
        result? (.compress (.primitive .max)) [.bool, .bool, .bool] ∧
    ((Op.nest (.leaf .max) [.traced (.str "a") rfl, .compress, .traced (.char 'b') rfl]).call
      (typedSetting .trace) [.bool false, .bool true, .bool false]).outcome = .ok (.bool true) ∧
    ((Op.nest (.leaf .max) [.traced (.str "a") rfl, .compress, .traced (.char 'b') rfl]).call
      (typedSetting .trace) [.bool false, .bool true, .bool false]).outcome =
        ((Op.compress (.leaf .max)).call (typedSetting .trace)
          [.bool false, .bool true, .bool false]).outcome := by
  obtain ⟨types, runs⟩ := untraced_agrees
  refine ⟨by decide, by decide, ?_, rfl, ?_⟩
  · exact types (.primitive .max) [.traced .str rfl, .compress, .traced .char rfl]
      [.bool, .bool, .bool] (by decide)
  · exact (runs (.leaf .max) [.traced (.str "a") rfl, .compress, .traced (.char 'b') rfl]).2 .trace
      [.bool false, .bool true, .bool false] (by decide)

end Callable
