import Callable.Proofs.Blame
import Callable.Proofs.Explanation
set_option autoImplicit false

/-!
Where a chain ends. An explanation goes from the rejected call down through rejections inside it
(`Blame.Descends`), and it ends where nothing inside is left to explain (`Blame.Innermost`), but for
two cases: what a decorator operation has inside is never looked at, and neither is a decorated call
that its decorator takes. So the root cause of a walk that comes to its end is an innermost rejection
or that of a decorator operation (`probe_root_cause`); the budget and decorators that are adaptors
themselves leave it further out (`root_cause_not_innermost`).
-/

namespace Callable

open WalkState

namespace Blame

/-- A rejection without a rejected call inside it: no seed, a seed that cannot be copied, an
operation's own account, or the rejection of an operation that is no adaptor. -/
inductive Innermost : Blame → Prop
  | missingSeed {f : Ty} : Innermost (.call (.compress f) [])
  | seed {z : Ty} : Innermost (.seed z)
  | revealed {op : Ty} {args : List Ty} {a : Failure} : Innermost (.revealed op args a)
  | call {op : Ty} {args : List Ty} (plain : op.isAdaptor = false) : Innermost (.call op args)
  | step {f s x : Ty} (plain : f.isAdaptor = false) : Innermost (.step f s x)
  | decorator {d t g : Ty} {xs : List Ty} (plain : d.isAdaptor = false) :
      Innermost (.decorator d t g xs)

/-- From the first rejection each one leads to the next, which is as real, down to the last one, and
these are their frames. -/
inductive Descends : Blame → List Frame → Blame → Prop
  | last {b : Blame} (real : b.Justified) : Descends b b.frames b
  | inner {b b' c : Blame} {fs : List Frame} (real : b.Justified) (leads : Leads b b')
      (rest : Descends b' fs c) : Descends b (b.frames ++ fs) c

theorem frames_ne_nil (b : Blame) : b.frames ≠ [] := by
  cases b with
  | revealed op args a => exact a.frames_ne_nil
  | _ => exact List.cons_ne_nil _ _

theorem Descends.ne_nil {b c : Blame} {fs : List Frame} (h : Descends b fs c) : fs ≠ [] := by
  cases h with
  | last => exact frames_ne_nil _
  | inner => exact List.append_ne_nil_of_left_ne_nil (frames_ne_nil _) _

theorem Descends.getLast? {b c : Blame} {fs : List Frame} (h : Descends b fs c) :
    fs.getLast? = c.frames.getLast? := by
  induction h with
  | last => rfl
  | inner _ _ rest ih => rw [List.getLast?_append_of_ne_nil _ rest.ne_nil, ih]

theorem Descends.first_real {b c : Blame} {fs : List Frame} (h : Descends b fs c) :
    b.Justified := by
  cases h with
  | last real => exact real
  | inner real => exact real

theorem Descends.real {b c : Blame} {fs : List Frame} (h : Descends b fs c) : c.Justified := by
  induction h with
  | last real => exact real
  | inner _ _ _ ih => exact ih

/-- The root cause of a failure is in the account of its last rejection. -/
theorem Descends.rootCause {b c : Blame} {a : Failure} (h : Descends b a.frames c) :
    c.frames.getLast? = some a.rootCause.frame := by
  rw [← h.getLast?, a.getLast?_frames]

/-- A chain that has more frames than those of its first rejection goes on with the next one. -/
theorem Descends.next {b c : Blame} {fs : List Frame} (h : Descends b fs c) (n : Nat)
    (length : fs.length = b.frames.length + (n + 1)) :
    ∃ b' fs', fs'.length = n + 1 ∧ Leads b b' ∧ Descends b' fs' c := by
  cases h with
  | last => omega
  | inner _ leads rest =>
    rw [List.length_append] at length
    exact ⟨_, _, Nat.add_left_cancel length, leads, rest⟩

/-- A chain that has no more frames than those of its first rejection ends with it. -/
theorem Descends.eq_of_length {b c : Blame} {fs : List Frame} (h : Descends b fs c)
    (all : fs.length = b.frames.length) : c = b := by
  cases h with
  | last => rfl
  | inner _ _ rest =>
    have beyond := List.length_pos_of_ne_nil rest.ne_nil
    rw [List.length_append] at all
    omega

/-- The account of an adaptor is not its own. -/
theorem Descends.eq_call {b c : Blame} {fs : List Frame} {op : Ty} {args : List Ty}
    (h : Descends b fs c) (about : b.About op args) (adaptor : op.isAdaptor = true) :
    b = .call op args := by
  cases about with
  | call => rfl
  | revealed =>
    have plain := h.first_real.2.1
    rw [adaptor] at plain
    cases plain

/-- A rejection that ends an explanation. -/
inductive Final : Blame → Prop
  | innermost {b : Blame} (h : b.Innermost) : Final b
  | decorator {d t g : Ty} {xs : List Ty} (fits : accepts g xs = true) :
      Final (.decorator d t g xs)
  | taken {d t g : Ty} {xs : List Ty} (h : TakesCall d t g xs) : Final (.call (.decorated d t g) xs)

/-! ### What the rejection of two arguments leads to -/

theorem about_of_leads_step {f s x : Ty} {b : Blame} (leads : Leads (.step f s x) b) :
    b.About f [s, x] := by
  cases leads
  assumption

theorem about_of_leads_decorator {d t g : Ty} {xs : List Ty} {b : Blame}
    (leads : Leads (.decorator d t g xs) b) : b.About g xs := by
  cases leads
  assumption

/-- A fold of two arguments is rejected for the one step that it has. -/
theorem eq_step_of_leads_compress {f x y : Ty} {b : Blame}
    (leads : Leads (.call (.compress f) [x, y]) b) : b = .step f x y := by
  generalize list : [x, y] = xs at leads
  cases leads with
  | @compressStep _ _ _ _ done _ reached =>
    match done, list with
    | [], same =>
      cases reached
      cases same
      rfl
    | _ :: done, same => simp at same

/-- A fold of two arguments from a seed that takes the first one is rejected for the second. -/
theorem eq_step_of_leads_seeded {f z s x y : Ty} {b : Blame}
    (leads : Leads (.call (.seeded f z) [x, y]) b) (real : b.Justified) (copies : z.isClone = true)
    (first : result? f [z, x] = some s) : b = .step f s y := by
  generalize list : [x, y] = xs at leads
  cases leads with
  | seed =>
    have uncopied : z.isClone = false := real
    rw [copies] at uncopied
    cases uncopied
  | @seededStep _ _ _ _ done _ _ reached =>
    match done, list with
    | [], same =>
      cases reached
      cases same
      have stopped : result? f [z, x] = none := real
      rw [first] at stopped
      cases stopped
    | [_], same =>
      cases same
      simp only [foldResult?, first, Option.bind_some, Option.some.injEq] at reached
      rw [reached]
    | _ :: _ :: done, same => simp at same

end Blame

open Blame

/-! ### Explanations -/

/-- The steps that are taken need no explanation. -/
theorem explainFold_append (inner : List Ty → List Frame) {f z s : Ty} {done : List Ty}
    (reached : foldResult? f z done = some s) (xs : List Ty) :
    explainFold inner f z (done ++ xs) = explainFold inner f s xs := by
  induction done generalizing z with
  | nil =>
    cases reached
    rfl
  | cons x done ih =>
    obtain ⟨z', step, next⟩ := Option.bind_eq_some_iff.1 reached
    simp only [List.cons_append, explainFold, step, ih next]

/-- A fold is rejected at the first step that is, whatever is explained inside a step. -/
theorem explainFold_of_rejected (inner : List Ty → List Frame) {f z : Ty} {xs : List Ty}
    (rejected : foldResult? f z xs = none) :
    ∃ done s y rest, xs = done ++ y :: rest ∧ foldResult? f z done = some s ∧
      result? f [s, y] = none ∧
        explainFold inner f z xs =
          foldOperationFrame f s y :: if f.explains [s, y] then inner [s, y] else [] := by
  obtain ⟨done, s, y, rest, rfl, reached, stopped⟩ := foldResult?_eq_none_iff.1 rejected
  refine ⟨done, s, y, rest, rfl, reached, stopped, ?_⟩
  rw [explainFold_append inner reached]
  simp only [explainFold, stopped]

/-- The rejection of a call is explained from the call down to where an explanation ends. -/
def Explained (op : Ty) (args : List Ty) : Prop :=
  ∃ b c, b.About op args ∧ Descends b (explain op args) c ∧ c.Final

/-- What a fold says of a rejected step and of what is inside it. -/
theorem descends_step {f s y : Ty} (stopped : result? f [s, y] = none)
    (inner : Explained f [s, y]) :
    ∃ c, Descends (.step f s y)
      (foldOperationFrame f s y :: if f.explains [s, y] then explain f [s, y] else []) c ∧
        c.Final := by
  by_cases more : f.explains [s, y] = true
  · obtain ⟨b, c, about, descends, final⟩ := inner
    rw [if_pos more]
    exact ⟨c, .inner stopped (.operation about) descends, final⟩
  · have plain : f.isAdaptor = false := by
      rw [Bool.eq_false_iff]
      intro adaptor
      exact more (by simp [Ty.explains, adaptor])
    rw [if_neg more]
    exact ⟨.step f s y, .last stopped, .innermost (.step plain)⟩

theorem explained_plain {op : Ty} {args : List Ty} (plain : op.isAdaptor = false)
    (rejected : result? op args = none) : Explained op args := by
  unfold Explained
  rw [explain_plain plain]
  cases own : op.reveal? args with
  | some a =>
    have real : (Blame.revealed op args a).Justified := ⟨rejected, plain, own⟩
    exact ⟨.revealed op args a, _, .revealed, .last real, .innermost .revealed⟩
  | none =>
    have real : (Blame.call op args).Justified := rejected
    refine ⟨.call op args, .call op args, .call, ?_, .innermost (.call plain)⟩
    rw [Option.getD_none, callFrame_plain args plain]
    exact .last real

theorem explained_compress {f : Ty} {args : List Ty} (few : args.length ≤ foldLimit)
    (rejected : result? (.compress f) args = none)
    (inner : ∀ s x, result? f [s, x] = none → Explained f [s, x]) :
    Explained (.compress f) args := by
  have real : (Blame.call (.compress f) args).Justified := rejected
  cases args with
  | nil => exact ⟨.call (.compress f) [], _, .call, .last real, .innermost .missingSeed⟩
  | cons x xs =>
    rw [result?_compress_cons few] at rejected
    obtain ⟨done, s, y, rest, rfl, reached, stopped, steps⟩ :=
      explainFold_of_rejected (explain f) rejected
    obtain ⟨c, descends, final⟩ := descends_step stopped (inner s y stopped)
    refine ⟨.call (.compress f) _, c, .call, ?_, final⟩
    rw [explain, steps]
    exact .inner real (.compressStep reached) descends

theorem explained_seeded {f z : Ty} {args : List Ty} (few : args.length ≤ foldLimit)
    (rejected : result? (.seeded f z) args = none)
    (inner : ∀ s x, result? f [s, x] = none → Explained f [s, x]) :
    Explained (.seeded f z) args := by
  have real : (Blame.call (.seeded f z) args).Justified := rejected
  rw [result?_seeded few] at rejected
  unfold Explained
  rw [explain]
  by_cases copies : z.isClone = true
  · rw [if_pos copies] at rejected ⊢
    obtain ⟨done, s, y, rest, rfl, reached, stopped, steps⟩ :=
      explainFold_of_rejected (explain f) rejected
    obtain ⟨c, descends, final⟩ := descends_step stopped (inner s y stopped)
    refine ⟨.call (.seeded f z) _, c, .call, ?_, final⟩
    rw [steps]
    exact .inner real (.seededStep copies reached) descends
  · rw [if_neg copies]
    have uncopied : (Blame.seed z).Justified := Bool.eq_false_iff.2 copies
    exact ⟨.call (.seeded f z) args, .seed z, .call, .inner real .seed (.last uncopied),
      .innermost .seed⟩

theorem explained_decorated {d t g : Ty} {args : List Ty}
    (rejected : result? (.decorated d t g) args = none)
    (inner : result? g args = none → Explained g args) : Explained (.decorated d t g) args := by
  have real : (Blame.call (.decorated d t g) args).Justified := rejected
  unfold Explained
  rw [explain]
  by_cases takes : TakesCall d t g args
  · rw [if_pos takes]
    exact ⟨.call (.decorated d t g) args, _, .call, .last real, .taken takes⟩
  · have refused : (Blame.decorator d t g args).Justified := not_accepts_of_not_takesCall takes
    rw [if_neg takes]
    by_cases fits : accepts g args = true
    · rw [if_pos fits]
      exact ⟨.call (.decorated d t g) args, .decorator d t g args, .call,
        .inner real .decorator (.last refused), .decorator fits⟩
    · have stopped : result? g args = none := by simpa [accepts] using fits
      obtain ⟨b, c, about, descends, final⟩ := inner stopped
      rw [if_neg fits]
      exact ⟨.call (.decorated d t g) args, c, .call,
        .inner real .decorator (.inner refused (.target about) descends), final⟩

/-- By induction on the operation: a step of a fold has two arguments, a target those of the call. -/
theorem explained {op : Ty} {args : List Ty} (few : args.length ≤ functionLimit)
    (rejected : result? op args = none) : Explained op args := by
  have two : ∀ s x : Ty, [s, x].length ≤ functionLimit := fun _ _ => Nat.le_of_ble_eq_true rfl
  cases op with
  | compress f =>
    exact explained_compress few rejected fun s x stopped => explained (two s x) stopped
  | seeded f z =>
    exact explained_seeded few rejected fun s x stopped => explained (two s x) stopped
  | decorated d t g => exact explained_decorated rejected fun stopped => explained few stopped
  | _ => exact explained_plain rfl rejected
termination_by structural op

/-! ### Probes -/

/-- The failure of the probe descends from the call to an innermost rejection. -/
def ReachesRoot (op : Ty) (args : List Ty) : Prop :=
  ∃ a b c, (probe op args).failure? = some a ∧ b.About op args ∧ Descends b a.frames c ∧
    c.Innermost

/-- No account that an operation gives of its rejections itself ends at a fold. This is a fact of the
table of these accounts, one row after the other, and of nothing else. -/
theorem reveal?_rootCause_ne_fold {op : Ty} {args : List Ty} {a : Failure}
    (own : op.reveal? args = some a) : a.rootCause.frame.site ≠ .fold := by
  unfold Ty.reveal? at own
  split at own
  · unfold Primitive.reveal? at own
    split at own
    case h_5 =>
      split at own
      · cases own
        decide
      · cases own
    all_goals cases own <;> decide
  · cases own
    decide
  · cases own

/-- An innermost rejection does not end with the frame of a fold. -/
theorem Blame.Innermost.site_ne_fold {c : Blame} {f : Frame} (h : c.Innermost) (real : c.Justified)
    (last : c.frames.getLast? = some f) : f.site ≠ .fold := by
  cases h with
  | revealed =>
    rw [(Descends.last real).rootCause] at last
    cases last
    exact reveal?_rootCause_ne_fold real.2.2
  | @call op args plain =>
    rw [Blame.frames, ← callFrame_plain args plain] at last
    cases last
    exact Site.noConfusion
  | _ =>
    cases last
    exact Site.noConfusion

/-- A decorated call that is explained in two frames is explained by its decorator. -/
theorem eq_decorator_of_length {d t g : Ty} {xs : List Ty} {b c : Blame} {fs : List Frame}
    (about : b.About (.decorated d t g) xs) (descends : Descends b fs c) (two : fs.length = 2) :
    c = .decorator d t g xs := by
  obtain rfl := descends.eq_call about rfl
  obtain ⟨b', fs', one, leads, rest⟩ := descends.next 0 two
  cases leads
  exact rest.eq_of_length one

theorem frames_of_failure? {op : Ty} {args : List Ty} {a : Failure} (rejected : result? op args = none)
    (failed : (probe op args).failure? = some a) :
    a.frames = (WalkState.probe op args).frames stepBudget := by
  have all := frames_probeWithin (n := stepBudget) (by decide) rejected
  change (probe op args).failure?.map _ = _ at all
  rw [failed, Option.map_some, Option.some.injEq] at all
  exact all

theorem rootCause_probe {op : Ty} {args : List Ty} (rejected : result? op args = none) :
    (probe op args).failure?.map (fun a => a.rootCause.frame) =
      ((WalkState.probe op args).frames stepBudget).getLast? := by
  obtain ⟨a, failed, -⟩ :=
    Option.map_eq_some_iff.1 (frames_probeWithin (n := stepBudget) (by decide) rejected)
  rw [← frames_of_failure? rejected failed, a.getLast?_frames, probe, failed, Option.map_some]

/-- The law that the root cause is an innermost rejection fails where a walk is cut off and where a
decorator is an adaptor: the walk of a deep nest ends at a fold, and what a fold that decorates
another one has inside is not explained. -/
theorem root_cause_not_innermost :
    (result? ((List.replicate 15 Ty.u8).foldl .seeded (.primitive .max)) [.bool] = none ∧
      (probe ((List.replicate 15 Ty.u8).foldl .seeded (.primitive .max)) [.bool]).failure?.map
          (fun a => a.rootCause.frame) =
        some ⟨.fold, Ty.name ((List.replicate 3 Ty.u8).foldl .seeded (.primitive .max)),
          [Ty.u8.name, Ty.bool.name]⟩ ∧
      ¬ReachesRoot ((List.replicate 15 Ty.u8).foldl .seeded (.primitive .max)) [.bool]) ∧
    result? (.decorated (.compress (.primitive .sum)) .str (.compress (.primitive .max)))
        [.i32] = none ∧
      (probe (.decorated (.compress (.primitive .sum)) .str (.compress (.primitive .max)))
          [.i32]).failure?.map (fun a => a.rootCause.frame) =
        some ⟨.decoratorOperation, Ty.name (.compress (.primitive .sum)),
          (Ty.decoratorArgs 0 .str (.compress (.primitive .max)) [.i32]).map Ty.name⟩ ∧
      ¬ReachesRoot (.decorated (.compress (.primitive .sum)) .str (.compress (.primitive .max)))
        [.i32] := by
  have deep : result? ((List.replicate 15 Ty.u8).foldl .seeded (.primitive .max)) [.bool] =
      none := by decide +kernel
  have cut : (probe ((List.replicate 15 Ty.u8).foldl .seeded (.primitive .max))
      [.bool]).failure?.map (fun a => a.rootCause.frame) =
        some ⟨.fold, Ty.name ((List.replicate 3 Ty.u8).foldl .seeded (.primitive .max)),
          [Ty.u8.name, Ty.bool.name]⟩ := by
    rw [rootCause_probe deep]
    decide +kernel
  have decorating : result? (.decorated (.compress (.primitive .sum)) .str
      (.compress (.primitive .max))) [.i32] = none := by decide
  refine ⟨⟨deep, cut, ?_⟩, decorating, ?_, ?_⟩
  · rintro ⟨a, b, c, failed, about, descends, innermost⟩
    rw [failed, Option.map_some, Option.some.injEq] at cut
    exact innermost.site_ne_fold descends.real descends.rootCause (congrArg Frame.site cut)
  · rw [rootCause_probe decorating]
    decide +kernel
  · rintro ⟨a, b, c, failed, about, descends, innermost⟩
    have two : a.frames.length = 2 := by
      rw [frames_of_failure? decorating failed]
      decide +kernel
    rw [eq_decorator_of_length about descends two] at innermost
    cases innermost with
    | decorator plain => cases plain

/-- A probe that comes to the end of its walk descends from the rejected call, through rejections
each inside the one before it, to an innermost rejection or to that of a decorator operation whose
target accepts the arguments, unless it ends at a decorated call that its decorator takes. -/
theorem probe_root_cause {op : Ty} {args : List Ty} (few : args.length ≤ functionLimit)
    (rejected : result? op args = none)
    (finished : (WalkState.probe op args).after stepBudget = .done) :
    ∃ a b c, (probe op args).failure? = some a ∧ b.About op args ∧ Descends b a.frames c ∧
      c.frames.getLast? = some a.rootCause.frame ∧
      ((∀ d t g xs, c = .call (.decorated d t g) xs → ¬TakesCall d t g xs) →
        c.Innermost ∨ ∃ d t g xs, c = .decorator d t g xs ∧ accepts g xs = true) := by
  obtain ⟨b, c, about, descends, final⟩ := explained few rejected
  have all := frames_probeWithin (n := stepBudget) (by decide) rejected
  rw [frames_probe_of_done rejected finished] at all
  obtain ⟨a, failed, frames⟩ := Option.map_eq_some_iff.1 all
  rw [← frames] at descends
  refine ⟨a, b, c, failed, about, descends, descends.rootCause, ?_⟩
  intro untaken
  cases final with
  | innermost h => exact .inl h
  | decorator fits => exact .inr ⟨_, _, _, _, rfl, fits⟩
  | taken takes => exact absurd takes (untaken _ _ _ _ rfl)

/-- A traced fold inside a fold from a seed is explained down to the comparison that is rejected. -/
theorem traced_max_root_cause :
    [Ty.i32, .bool].length ≤ functionLimit ∧
    result? (.seeded (.decorated (.primitive .trace) .str (.compress (.primitive .max))) .i32)
      [.i32, .bool] = none ∧
    (WalkState.probe (.seeded (.decorated (.primitive .trace) .str (.compress (.primitive .max)))
      .i32) [.i32, .bool]).after stepBudget = .done ∧
    ∃ a b c, (probe (.seeded (.decorated (.primitive .trace) .str (.compress (.primitive .max)))
        .i32) [.i32, .bool]).failure? = some a ∧
      b.About (.seeded (.decorated (.primitive .trace) .str (.compress (.primitive .max))) .i32)
        [.i32, .bool] ∧
      Descends b a.frames c ∧ c.frames.getLast? = some a.rootCause.frame ∧
      c = .step (.primitive .max) .i32 .bool ∧
      (∀ d t g xs, c = .call (.decorated d t g) xs → ¬TakesCall d t g xs) ∧ c.Innermost := by
  have few : [Ty.i32, .bool].length ≤ functionLimit := by decide
  have rejected : result? (.seeded (.decorated (.primitive .trace) .str
      (.compress (.primitive .max))) .i32) [.i32, .bool] = none := by decide
  have finished : (WalkState.probe (.seeded (.decorated (.primitive .trace) .str
      (.compress (.primitive .max))) .i32) [.i32, .bool]).after stepBudget = .done := by decide
  obtain ⟨a, b, c, failed, about, descends, last, ends⟩ := probe_root_cause few rejected finished
  have six : a.frames.length = 6 := by
    rw [frames_of_failure? rejected failed]
    decide +kernel
  have root : c = .step (.primitive .max) .i32 .bool := by
    obtain rfl := descends.eq_call about rfl
    obtain ⟨b₁, fs₁, five, leads, rest₁⟩ := descends.next 4 six
    obtain rfl := eq_step_of_leads_seeded leads rest₁.first_real rfl
      (by decide : _ = some Ty.i32)
    obtain ⟨b₂, fs₂, four, leads, rest₂⟩ := rest₁.next 3 five
    obtain rfl := rest₂.eq_call (about_of_leads_step leads) rfl
    obtain ⟨b₃, fs₃, three, leads, rest₃⟩ := rest₂.next 2 four
    cases leads
    obtain ⟨b₄, fs₄, two, leads, rest₄⟩ := rest₃.next 1 three
    obtain rfl := rest₄.eq_call (about_of_leads_decorator leads) rfl
    obtain ⟨b₅, fs₅, one, leads, rest₅⟩ := rest₄.next 0 two
    obtain rfl := eq_step_of_leads_compress leads
    exact rest₅.eq_of_length one
  have untaken : ∀ d t g xs, c = .call (.decorated d t g) xs → ¬TakesCall d t g xs := by
    rintro d t g xs rfl
    cases root
  have innermost : c.Innermost := by
    obtain innermost | ⟨d, t, g, xs, rfl, -⟩ := ends untaken
    · exact innermost
    · cases root
  exact ⟨few, rejected, finished, a, b, c, failed, about, descends, last, root, untaken,
    innermost⟩

end Callable
