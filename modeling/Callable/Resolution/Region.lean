import Callable.Resolution.Result
import Callable.Ty.Region
set_option autoImplicit false

/-!
Answers do not depend on which regions the calls have. What is accepted stays accepted when other
regions take the place of those of calls (`result?_subst`), and a result mentions no call but those
that its operation and its arguments mention (`callRegions_of_result?`). So the one region that
`decoratedRule` introduces speaks for all regions (`result?_decorated_iff`).
-/

namespace Callable

open Ty

/-- The second rule answers with other regions whatever the first one answers. -/
inductive Rule.Mirrors (σ : Nat → Region) : Rule → Rule → Prop
  | reject (rule : Rule) : Mirrors σ .reject rule
  | accept (r : Ty) : Mirrors σ (.accept r) (.accept (r.subst σ))
  | ask {op : Ty} {xs : List Ty} {next next' : Ty → Rule}
      (after : ∀ r, Mirrors σ (next r) (next' (r.subst σ))) :
      Mirrors σ (.ask op xs next) (.ask (op.subst σ) (xs.map (subst σ)) next')

namespace Ty

variable {σ : Nat → Region}

theorem suitAll_subst {ps as : List Ty} (h : suitAll ps as = true) :
    suitAll (ps.map (subst σ)) (as.map (subst σ)) = true := by
  fun_induction suitAll ps as with
  | case1 => rfl
  | case2 p ps a as ih =>
    obtain ⟨head, tail⟩ := Bool.and_eq_true_iff.1 h
    exact Bool.and_eq_true_iff.2 ⟨suits_subst head, ih tail⟩
  | case3 => cases h

theorem mirrors_guard {b b' : Bool} {r : Ty} (h : b = true → b' = true) :
    Rule.Mirrors σ (.guard b r) (.guard b' (r.subst σ)) := by
  cases b with
  | false => exact .reject _
  | true =>
    rw [h rfl]
    exact .accept r

theorem mirrors_ofOption {o o' : Option Ty} (h : ∀ r, o = some r → o' = some (r.subst σ)) :
    Rule.Mirrors σ (.ofOption o) (.ofOption o') := by
  cases o with
  | none => exact .reject _
  | some r =>
    rw [h r rfl]
    exact .accept r

theorem mirrors_target {g : Ty} {xs : List Ty} {next next' : Ty → Rule}
    (after : ∀ r, Rule.Mirrors σ (next r) (next' (r.subst σ))) :
    Rule.Mirrors σ (.target g xs next) (.target (g.subst σ) (xs.map (subst σ)) next') := by
  unfold Rule.target
  rw [isSized_subst]
  split
  · exact .ask after
  · exact .reject _

theorem mirrors_fold (f s : Ty) (xs : List Ty) :
    Rule.Mirrors σ (.fold f s xs) (.fold (f.subst σ) (s.subst σ) (xs.map (subst σ))) := by
  induction xs generalizing s with
  | nil => exact .accept s
  | cons x xs ih => exact .ask ih

theorem arithmetic?_subst {l r t : Ty} (h : Primitive.arithmetic? l r = some t) :
    Primitive.arithmetic? (l.subst σ) (r.subst σ) = some (t.subst σ) := by
  unfold Primitive.arithmetic? at h ⊢
  simp only [operand?_subst]
  split at h
  · split at h
    · cases h
      simp_all [subst]
    · cases h
  · cases h

theorem polyResult?_subst {xs : List Ty} {t : Ty} (h : Primitive.polyResult? xs = some t) :
    Primitive.polyResult? (xs.map (subst σ)) = some (t.subst σ) := by
  unfold Primitive.polyResult? at h
  split at h <;> cases h <;> rfl

theorem primitive_mirrors (p : Primitive) (args : List Ty) :
    Rule.Mirrors σ (p.rule args) (p.rule (args.map (subst σ))) := by
  fun_cases Primitive.rule p args with
  | case1 l r =>
    apply mirrors_guard
    intro h
    obtain ⟨same, ordered⟩ := Bool.and_eq_true_iff.1 h
    simp [alike_subst same, ordered]
  | case2 l r =>
    apply mirrors_guard
    intro h
    obtain ⟨same, ordered⟩ := Bool.and_eq_true_iff.1 h
    simp [alike_subst same, ordered]
  | case3 l r texts =>
    obtain ⟨rfl, right⟩ := texts
    have appended : Ty.string.subst σ = .string ∧ (r.subst σ).isText = true :=
      ⟨rfl, by rwa [isText_subst]⟩
    simp only [List.map_cons, List.map_nil, Primitive.rule, if_pos appended]
    exact .accept .string
  | case4 l r h =>
    have numbers : ¬(l.subst σ = .string ∧ (r.subst σ).isText = true) := by
      rintro ⟨hl, hr⟩
      exact h ⟨subst_eq_atom hl, by rwa [isText_subst] at hr⟩
    simp only [List.map_cons, List.map_nil, Primitive.rule, if_neg numbers]
    exact mirrors_ofOption fun _ => arithmetic?_subst
  | case5 l r => exact mirrors_ofOption fun _ => arithmetic?_subst
  | case6 r t r' g xs h =>
    have shown : ((t.subst σ).isDisplay && decide ((xs.map (subst σ)).length ≤ decoratedLimit)) =
        true := by simpa using h
    simp only [List.map_cons, subst, Primitive.rule, if_pos shown]
    exact mirrors_target .accept
  | case7 => exact .reject _
  | case8 s x => exact .accept _
  | case9 s x =>
    apply mirrors_guard
    intro h
    rcases Bool.or_eq_true_iff.1 h with first | same
    · rw [of_decide_eq_true first]
      rfl
    · exact Bool.or_eq_true_iff.2 (.inr (alike_subst same))
  | case10 x => exact mirrors_guard fun h => by simpa using h
  | case11 => exact mirrors_ofOption fun _ => polyResult?_subst
  | case12 r t r' g x y text =>
    simp only [List.map_cons, List.map_nil, subst, Primitive.rule, isText_subst, if_pos text]
    exact mirrors_target .accept
  | case13 => exact .reject _
  | case14 r t r' g x text =>
    simp only [List.map_cons, List.map_nil, subst, Primitive.rule, isText_subst, if_pos text]
    refine mirrors_target fun r => mirrors_guard fun h => ?_
    rw [of_decide_eq_true h]
    rfl
  | case15 => exact .reject _
  | case16 r r' g x => exact mirrors_target fun r => .accept _
  | case17 r t r' g xs h =>
    have sized : ((t.subst σ).isSized && decide ((xs.map (subst σ)).length ≤ decoratedLimit)) =
        true := by simpa using h
    simp only [List.map_cons, subst, Primitive.rule, if_pos sized]
    exact mirrors_target .accept
  | case18 => exact .reject _
  | case19 r t r' g =>
    apply mirrors_guard
    intro h
    obtain ⟨⟨rfl, data⟩, target⟩ : (r = r' ∧ t.isSized = true) ∧ g.isSized = true := by
      simpa using h
    simp [data, target]
  | case20 => exact .accept _
  | case21 r t r' g => exact mirrors_guard fun h => by simpa using h
  | case22 => exact .reject _

theorem compressRule_mirrors (f : Ty) (args : List Ty) :
    Rule.Mirrors σ (compressRule f args) (compressRule (f.subst σ) (args.map (subst σ))) := by
  cases args with
  | nil => exact .reject _
  | cons x xs =>
    simp only [compressRule_cons, List.map_cons, List.length_map]
    split
    · exact mirrors_fold f x xs
    · exact .reject _

theorem seededRule_mirrors (f s : Ty) (args : List Ty) :
    Rule.Mirrors σ (seededRule f s args)
      (seededRule (f.subst σ) (s.subst σ) (args.map (subst σ))) := by
  simp only [seededRule, isClone_subst, List.length_map]
  split
  · exact mirrors_fold f s args
  · exact .reject _

theorem decorateRule_mirrors (d : Ty) (args : List Ty) :
    Rule.Mirrors σ (decorateRule d args) (decorateRule (d.subst σ) (args.map (subst σ))) := by
  unfold decorateRule
  split
  · exact mirrors_guard fun h => by simpa using h
  · exact .reject _

theorem decorationRule_mirrors (d t : Ty) (args : List Ty) :
    Rule.Mirrors σ (decorationRule d t args)
      (decorationRule (d.subst σ) (t.subst σ) (args.map (subst σ))) := by
  unfold decorationRule
  split
  · exact mirrors_guard fun h => by simpa using h
  · exact .reject _

theorem functionRule_mirrors (op : Ty) (args : List Ty) :
    Rule.Mirrors σ (functionRule op args) (functionRule (op.subst σ) (args.map (subst σ))) := by
  unfold functionRule
  cases h : op.signature? with
  | none => exact .reject _
  | some signature =>
    obtain ⟨ps, r⟩ := signature
    rw [signature?_subst h]
    apply mirrors_guard
    intro suited
    obtain ⟨few, fits⟩ := Bool.and_eq_true_iff.1 suited
    exact Bool.and_eq_true_iff.2 ⟨by simpa using few, suitAll_subst fits⟩

/-- A decorated call introduces a region of its own, so its rule is no mirror. -/
theorem rule_mirrors {op : Ty} (args : List Ty) (h : ∀ d t g, op ≠ .decorated d t g) :
    Rule.Mirrors σ (op.rule args) ((op.subst σ).rule (args.map (subst σ))) := by
  cases op with
  | primitive p => exact primitive_mirrors p args
  | compress f => exact compressRule_mirrors f args
  | seeded f s => exact seededRule_mirrors f s args
  | decorate d => exact decorateRule_mirrors d args
  | decoration d t => exact decorationRule_mirrors d t args
  | decorated d t g => exact absurd rfl (h d t g)
  | atom a => exact functionRule_mirrors (.atom a) args
  | ref r t => exact functionRule_mirrors (.ref r t) args
  | tuple ts => exact functionRule_mirrors (.tuple ts) args
  | vec t => exact functionRule_mirrors (.vec t) args
  | option t => exact functionRule_mirrors (.option t) args
  | fn ps r => exact functionRule_mirrors (.fn ps r) args

end Ty

/-! ### Results -/

/-- The result of a question does not depend on which regions the calls in it have. -/
def Uniform (op : Ty) (args : List Ty) (r : Ty) : Prop :=
  ∀ σ : Nat → Region, result? (op.subst σ) (args.map (subst σ)) = some (r.subst σ)

/-- A result that mentioned a call of its own would change with the region of that call. -/
theorem Uniform.callRegions {op r : Ty} {args : List Ty} (uniform : Uniform op args r)
    (h : result? op args = some r) {n : Nat} (hn : n ∈ r.callRegions) :
    ∃ t ∈ op :: args, n ∈ t.callRegions := by
  classical
  let σ : Nat → Region := fun k => if ∃ t ∈ op :: args, k ∈ t.callRegions then .call k else .static
  have kept : ∀ t ∈ op :: args, t.subst σ = t := by
    intro t ht
    calc t.subst σ = t.subst .call := subst_congr t fun k hk => if_pos ⟨t, ht, hk⟩
      _ = t := subst_call t
  have same : r.subst σ = r := by
    have moved := uniform σ
    have keptArgs : args.map (subst σ) = args := by
      have each : ∀ a ∈ args, a.subst σ = a := fun a ha => kept a (List.mem_cons_of_mem _ ha)
      simpa using List.map_congr_left each
    rw [kept op List.mem_cons_self, keptArgs, h] at moved
    exact (Option.some.inj moved).symm
  rw [← same, mem_callRegions_subst] at hn
  obtain ⟨m, -, hm⟩ := hn
  by_cases known : ∃ t ∈ op :: args, m ∈ t.callRegions
  · have equal : Region.call m = .call n := by simpa only [σ, if_pos known] using hm
    cases equal
    exact known
  · simp only [σ, if_neg known] at hm
    cases hm

/-- What is mentioned in the question to the decorator, apart from the region of the call itself. -/
theorem mem_callRegions_borrowed {d t g u : Ty} {xs : List Ty} {ρ : Region} {m : Nat}
    (hm : ρ ≠ .call m) (hu : u ∈ d :: .ref ρ t :: .ref ρ g :: xs) (h : m ∈ u.callRegions) :
    ∃ v ∈ d :: t :: g :: xs, m ∈ v.callRegions := by
  simp only [List.mem_cons] at hu
  rcases hu with rfl | rfl | rfl | hu
  · exact ⟨u, by simp, h⟩
  · exact ⟨t, by simp, by simpa [callRegions_ref, Region.mem_calls, hm] using h⟩
  · exact ⟨g, by simp, by simpa [callRegions_ref, Region.mem_calls, hm] using h⟩
  · exact ⟨u, by simp [hu], h⟩

theorem uniform_decorated {d t g r : Ty} {xs : List Ty} (few : xs.length ≤ decoratedLimit)
    (inner : result? d (decoratorArgs (freshRegion (d :: t :: g :: xs)) t g xs) = some r)
    (uniform : Uniform d (decoratorArgs (freshRegion (d :: t :: g :: xs)) t g xs) r)
    (silent : r.mentions (freshRegion (d :: t :: g :: xs)) = false) :
    Uniform (.decorated d t g) xs r := by
  intro σ
  generalize hn : freshRegion (d :: t :: g :: xs) = n at inner uniform silent
  let n' := freshRegion (d.subst σ :: t.subst σ :: g.subst σ :: xs.map (subst σ))
  let τ : Nat → Region := fun k => if k = n then .call n' else σ k
  have agree : ∀ u ∈ d :: t :: g :: xs, u.subst τ = u.subst σ := by
    intro u hu
    subst hn
    exact subst_of_not_mentions (not_mentions_freshRegion hu) σ _
  have agreeResult : r.subst τ = r.subst σ := subst_of_not_mentions silent σ _
  have agreeArgs : xs.map (subst τ) = xs.map (subst σ) :=
    List.map_congr_left fun u hu => agree u (by simp [hu])
  have moved : result? (d.subst σ)
      (decoratorArgs n' (t.subst σ) (g.subst σ) (xs.map (subst σ))) = some (r.subst σ) := by
    have answer := uniform τ
    simp only [decoratorArgs, List.map_cons, subst, Region.subst, agreeResult, agreeArgs,
      agree d (by simp), agree t (by simp), agree g (by simp), τ, if_pos] at answer
    exact answer
  have silentMoved : (r.subst σ).mentions n' = false := by
    rw [Bool.eq_false_iff, Ne, mentions_iff, mem_callRegions_subst]
    rintro ⟨m, hm, hσ⟩
    obtain ⟨u, hu, hmu⟩ := uniform.callRegions inner hm
    have other : Region.call n ≠ .call m := by
      rintro ⟨⟩
      rw [← mentions_iff, silent] at hm
      cases hm
    obtain ⟨v, hv, hmv⟩ := mem_callRegions_borrowed other hu hmu
    have above : n' ∈ (v.subst σ).callRegions := mem_callRegions_subst.2 ⟨m, hmv, hσ⟩
    have below : n' < n' := lt_freshRegion (List.mem_map_of_mem (f := subst σ) hv) above
    exact Nat.lt_irrefl _ below
  have few' : (xs.map (subst σ)).length ≤ decoratedLimit := by simpa using few
  simp only [subst, result?_decorated few', n'] at moved silentMoved ⊢
  simp only [moved, silentMoved, Option.bind_some, Bool.false_eq_true, if_false]

theorem Rule.Mirrors.answers {σ : Nat → Region} {rule rule' : Rule} {r : Ty}
    (mirrors : Rule.Mirrors σ rule rule') (h : rule.Answers Uniform r) :
    rule'.result? = some (r.subst σ) := by
  induction h generalizing rule' with
  | accept r =>
    cases mirrors
    rfl
  | ask _ inner _ ih =>
    cases mirrors with
    | ask after =>
      simp only [Rule.result?, inner σ, Option.bind_some]
      exact ih (after _)

/-- What is accepted is accepted in other regions too, with the same result but for its regions. -/
theorem result?_subst {op r : Ty} {args : List Ty} (h : result? op args = some r) :
    Uniform op args r := by
  refine result?_induction (fun {op args r} answers => ?_) h
  by_cases decorated : ∃ d t g, op = .decorated d t g
  · obtain ⟨d, t, g, rfl⟩ := decorated
    simp only [Ty.rule, decoratedRule] at answers
    split at answers
    · rename_i few
      cases answers with
      | ask asked inner rest =>
        obtain ⟨silent, rfl⟩ := Rule.answers_guard_iff.1 rest
        exact uniform_decorated few asked inner (by simpa using silent)
    · cases answers
  · intro σ
    rw [result?_eq]
    exact (rule_mirrors args fun d t g he => decorated ⟨d, t, g, he⟩).answers answers

/-- A result mentions only calls that its operation or one of its arguments mentions. -/
theorem callRegions_of_result? {op r : Ty} {args : List Ty} (h : result? op args = some r)
    {n : Nat} (hn : n ∈ r.callRegions) : ∃ t ∈ op :: args, n ∈ t.callRegions :=
  (result?_subst h).callRegions h hn

/-! ### Decorated calls -/

/-- The question to the decorator in a region that nothing else mentions, asked for references that
are valid in any given region. -/
theorem result?_borrowed {d t g r : Ty} {xs : List Ty} {n : Nat}
    (fresh : ∀ u ∈ d :: t :: g :: xs, u.mentions n = false) (ρ : Region)
    (h : result? d (decoratorArgs n t g xs) = some r) :
    ∃ r', result? d (.ref ρ t :: .ref ρ g :: xs) = some r' ∧ (r.mentions n = false → r' = r) := by
  let σ : Nat → Region := fun k => if k = n then ρ else .call k
  have kept : ∀ u ∈ d :: t :: g :: xs, u.subst σ = u := by
    intro u hu
    have agree : u.subst σ = u.subst .call := subst_of_not_mentions (fresh u hu) .call ρ
    rw [agree, subst_call]
  have keptArgs : xs.map (subst σ) = xs := by
    have each : ∀ u ∈ xs, u.subst σ = u := fun u hu => kept u (by simp [hu])
    simpa using List.map_congr_left each
  have moved := result?_subst h σ
  simp only [decoratorArgs, List.map_cons, subst, Region.subst, keptArgs,
    kept d (by simp), kept t (by simp), kept g (by simp), σ, if_pos] at moved
  refine ⟨_, moved, fun silent => ?_⟩
  have agree : r.subst σ = r.subst .call := subst_of_not_mentions silent .call ρ
  rw [agree, subst_call]

/-- A decorated callable accepts what its decorator accepts in every region with one result. -/
theorem result?_decorated_iff {d t g r : Ty} {xs : List Ty} :
    result? (.decorated d t g) xs = some r ↔
      xs.length ≤ decoratedLimit ∧ ∀ ρ, result? d (.ref ρ t :: .ref ρ g :: xs) = some r := by
  constructor
  · intro h
    by_cases few : xs.length ≤ decoratedLimit
    · refine ⟨few, fun ρ => ?_⟩
      rw [result?_decorated few, Option.bind_eq_some_iff] at h
      obtain ⟨r', asked, finished⟩ := h
      split at finished
      · cases finished
      · rename_i silent
        cases finished
        obtain ⟨r', answer, same⟩ :=
          result?_borrowed (fun u hu => not_mentions_freshRegion hu) ρ asked
        rw [answer, same (Bool.eq_false_iff.2 silent)]
    · rw [result?_eq] at h
      simp [Ty.rule, decoratedRule, if_neg few, Rule.result?] at h
  · rintro ⟨few, every⟩
    have asked := every (.call (freshRegion (d :: t :: g :: xs)))
    have silent : r.mentions (freshRegion (d :: t :: g :: xs)) = false := by
      rw [Bool.eq_false_iff, Ne, mentions_iff]
      intro hn
      obtain ⟨u, hu, hmu⟩ := callRegions_of_result? (every .static) hn
      obtain ⟨v, hv, hmv⟩ := mem_callRegions_borrowed (by simp) hu hmu
      exact Nat.lt_irrefl _ (lt_freshRegion hv hmv)
    rw [result?_decorated few, decoratorArgs, asked]
    simp [silent]

/-- A decorator takes a decorated call if it accepts the references to the data and the target in
every region, whatever it makes of them. -/
def TakesCall (d t g : Ty) (xs : List Ty) : Prop :=
  xs.length ≤ decoratedLimit ∧ ∀ ρ, accepts d (.ref ρ t :: .ref ρ g :: xs) = true

theorem decoratorAccepts_iff {d t g : Ty} {xs : List Ty} :
    decoratorAccepts d t g xs = true ↔ TakesCall d t g xs := by
  simp only [decoratorAccepts, TakesCall, Bool.and_eq_true, decide_eq_true_eq]
  refine and_congr_right fun _ => ⟨fun h ρ => ?_, fun every => every _⟩
  obtain ⟨r, asked⟩ := accepts_iff.1 h
  obtain ⟨r', answer, -⟩ := result?_borrowed (fun u hu => not_mentions_freshRegion hu) ρ asked
  exact accepts_iff.2 ⟨r', answer⟩

instance (d t g : Ty) (xs : List Ty) : Decidable (TakesCall d t g xs) :=
  decidable_of_iff _ decoratorAccepts_iff

/-! ### Traced operations -/

/-- What has no size is no operation. -/
theorem result?_of_unsized {g : Ty} (xs : List Ty) (h : g.isSized = false) :
    result? g xs = none := by
  rw [result?_eq]
  cases g with
  | atom a => cases a <;> first | rfl | cases h
  | _ => cases h

theorem result?_trace (ρ : Region) {t g : Ty} {xs : List Ty} (few : xs.length ≤ decoratedLimit) :
    result? (.primitive .trace) (.ref ρ t :: .ref ρ g :: xs) =
      if t.isDisplay then result? g xs else none := by
  rw [result?_eq]
  simp only [Ty.rule, Primitive.rule]
  cases ht : t.isDisplay with
  | false => rfl
  | true =>
    cases sized : g.isSized with
    | true => simp [few, Rule.target, sized, Rule.result?]
    | false => simp [few, Rule.target, sized, Rule.result?, result?_of_unsized xs sized]

/-- A traced operation accepts what its target accepts if the label has a display. -/
theorem result?_traced {t g : Ty} {xs : List Ty} (few : xs.length ≤ decoratedLimit) :
    result? (.decorated (.primitive .trace) t g) xs =
      if t.isDisplay then result? g xs else none := by
  apply Option.ext
  intro r
  rw [result?_decorated_iff]
  constructor
  · rintro ⟨-, every⟩
    rw [← every .static, result?_trace .static few]
  · intro answer
    refine ⟨few, fun ρ => ?_⟩
    rw [result?_trace ρ few, answer]

end Callable
