import Callable.Ty.Property
set_option autoImplicit false

/-!
Types with other regions in place of those of calls. What a type can do does not depend on regions.
-/

namespace Callable

def Region.subst (σ : Nat → Region) : Region → Region
  | .call n => σ n
  | r => r

/-- The call that a region belongs to, if it belongs to one. -/
def Region.calls : Region → List Nat
  | .call n => [n]
  | _ => []

theorem Region.mem_calls {n : Nat} {r : Region} : n ∈ r.calls ↔ r = .call n := by
  cases r <;> simp [calls, eq_comm]

namespace Ty

theorem callRegions_ref (r : Region) (t : Ty) :
    (Ty.ref r t).callRegions = r.calls ++ t.callRegions := by
  cases r <;> rfl

mutual

/-- The type with other regions in place of those of calls. -/
def subst (σ : Nat → Region) : Ty → Ty
  | .atom a => .atom a
  | .primitive p => .primitive p
  | .ref r t => .ref (r.subst σ) (subst σ t)
  | .tuple ts => .tuple (substList σ ts)
  | .vec t => .vec (subst σ t)
  | .option t => .option (subst σ t)
  | .fn ps r => .fn (substList σ ps) (subst σ r)
  | .compress f => .compress (subst σ f)
  | .seeded f s => .seeded (subst σ f) (subst σ s)
  | .decorate d => .decorate (subst σ d)
  | .decoration d t => .decoration (subst σ d) (subst σ t)
  | .decorated d t g => .decorated (subst σ d) (subst σ t) (subst σ g)

def substList (σ : Nat → Region) : List Ty → List Ty
  | [] => []
  | t :: ts => subst σ t :: substList σ ts

end

variable {σ τ : Nat → Region}

@[simp] theorem substList_eq_map (ts : List Ty) : substList σ ts = ts.map (subst σ) := by
  induction ts <;> simp_all [substList]

mutual

theorem subst_congr (t : Ty) (agree : ∀ n ∈ t.callRegions, σ n = τ n) :
    t.subst σ = t.subst τ := by
  cases t with
  | atom a => rfl
  | primitive p => rfl
  | ref r t =>
    cases r with
    | static => exact congrArg _ (subst_congr t agree)
    | any => exact congrArg _ (subst_congr t agree)
    | call n =>
      obtain ⟨head, tail⟩ := List.forall_mem_cons.1 agree
      simp only [subst, Region.subst, head, subst_congr t tail]
  | tuple ts => exact congrArg _ (substList_congr ts agree)
  | vec t => exact congrArg _ (subst_congr t agree)
  | option t => exact congrArg _ (subst_congr t agree)
  | fn ps r =>
    obtain ⟨params, result⟩ := List.forall_mem_append.1 agree
    simp only [subst, substList_congr ps params, subst_congr r result]
  | compress f => exact congrArg _ (subst_congr f agree)
  | seeded f s =>
    obtain ⟨operation, seed⟩ := List.forall_mem_append.1 agree
    simp only [subst, subst_congr f operation, subst_congr s seed]
  | decorate d => exact congrArg _ (subst_congr d agree)
  | decoration d t =>
    obtain ⟨decorator, data⟩ := List.forall_mem_append.1 agree
    simp only [subst, subst_congr d decorator, subst_congr t data]
  | decorated d t g =>
    obtain ⟨decoration, target⟩ := List.forall_mem_append.1 agree
    obtain ⟨decorator, data⟩ := List.forall_mem_append.1 decoration
    simp only [subst, subst_congr d decorator, subst_congr t data, subst_congr g target]

theorem substList_congr (ts : List Ty) (agree : ∀ n ∈ callRegionsList ts, σ n = τ n) :
    substList σ ts = substList τ ts := by
  cases ts with
  | nil => rfl
  | cons t ts =>
    obtain ⟨head, tail⟩ := List.forall_mem_append.1 agree
    simp only [substList, subst_congr t head, substList_congr ts tail]

end

mutual

@[simp] theorem subst_call (t : Ty) : t.subst .call = t := by
  cases t with
  | ref r t => cases r <;> simp [subst, Region.subst, subst_call t]
  | tuple ts => simpa [subst] using substList_call ts
  | vec t => simp [subst, subst_call t]
  | option t => simp [subst, subst_call t]
  | fn ps r => simpa [subst, subst_call r] using substList_call ps
  | compress f => simp [subst, subst_call f]
  | seeded f s => simp [subst, subst_call f, subst_call s]
  | decorate d => simp [subst, subst_call d]
  | decoration d t => simp [subst, subst_call d, subst_call t]
  | decorated d t g => simp [subst, subst_call d, subst_call t, subst_call g]
  | _ => rfl

theorem substList_call (ts : List Ty) : ts.map (subst .call) = ts := by
  cases ts with
  | nil => rfl
  | cons t ts => simp [subst_call t, substList_call ts]

end

/-- The region of a call that the type does not mention can be any. -/
theorem subst_of_not_mentions {t : Ty} {n : Nat} (h : t.mentions n = false) (σ : Nat → Region)
    (ρ : Region) : t.subst (fun k => if k = n then ρ else σ k) = t.subst σ := by
  apply subst_congr
  intro k hk
  apply if_neg
  rintro rfl
  rw [← mentions_iff, h] at hk
  cases hk

mutual

theorem callRegions_subst (t : Ty) :
    (t.subst σ).callRegions = t.callRegions.flatMap fun n => (σ n).calls := by
  cases t with
  | ref r t =>
    cases r with
    | static => exact callRegions_subst t
    | any => exact callRegions_subst t
    | call n =>
      simp only [subst, Region.subst, callRegions_ref, callRegions_subst t, Region.calls,
        List.singleton_append, List.flatMap_cons]
  | tuple ts => exact callRegionsList_subst ts
  | vec t => exact callRegions_subst t
  | option t => exact callRegions_subst t
  | fn ps r =>
    simp only [subst, callRegions, callRegionsList_subst ps, callRegions_subst r,
      List.flatMap_append]
  | compress f => exact callRegions_subst f
  | seeded f s =>
    simp only [subst, callRegions, callRegions_subst f, callRegions_subst s, List.flatMap_append]
  | decorate d => exact callRegions_subst d
  | decoration d t =>
    simp only [subst, callRegions, callRegions_subst d, callRegions_subst t, List.flatMap_append]
  | decorated d t g =>
    simp only [subst, callRegions, callRegions_subst d, callRegions_subst t, callRegions_subst g,
      List.flatMap_append]
  | _ => rfl

theorem callRegionsList_subst (ts : List Ty) :
    callRegionsList (substList σ ts) = (callRegionsList ts).flatMap fun n => (σ n).calls := by
  cases ts with
  | nil => rfl
  | cons t ts =>
    simp only [substList, callRegionsList, callRegions_subst t, callRegionsList_subst ts,
      List.flatMap_append]

end

theorem mem_callRegions_subst {n : Nat} {t : Ty} :
    n ∈ (t.subst σ).callRegions ↔ ∃ m ∈ t.callRegions, σ m = .call n := by
  simp only [callRegions_subst, List.mem_flatMap, Region.mem_calls]

theorem subst_eq_atom {t : Ty} {a : Atom} (h : t.subst σ = .atom a) : t = .atom a := by
  cases t with
  | atom b => exact h
  | _ => cases h

theorem subst_eq_atom_iff {t : Ty} {a : Atom} : t.subst σ = .atom a ↔ t = .atom a :=
  ⟨subst_eq_atom, fun h => by rw [h]; rfl⟩

/-! ### Spelling -/

mutual

/-- In other regions too, a type is the same as in its own normal spelling. -/
theorem normal_subst_normal (t : Ty) : (t.normal.subst σ).normal = (t.subst σ).normal := by
  cases t with
  | ref r t =>
    rw [normal_ref]
    split
    · rename_i lasting
      obtain ⟨rfl, rfl⟩ := lasting
      rfl
    · simp only [subst, normal_ref, subst_eq_atom_iff, normal_eq_rawStr_iff, normal_subst_normal t]
  | tuple ts => exact congrArg Ty.tuple (normal_subst_normalList ts)
  | vec t => exact congrArg Ty.vec (normal_subst_normal t)
  | option t => exact congrArg Ty.option (normal_subst_normal t)
  | fn ps r => simp only [normal, subst, normal_subst_normalList ps, normal_subst_normal r]
  | compress f => exact congrArg Ty.compress (normal_subst_normal f)
  | seeded f s => simp only [normal, subst, normal_subst_normal f, normal_subst_normal s]
  | decorate d => exact congrArg Ty.decorate (normal_subst_normal d)
  | decoration d t => simp only [normal, subst, normal_subst_normal d, normal_subst_normal t]
  | decorated d t g =>
    simp only [normal, subst, normal_subst_normal d, normal_subst_normal t, normal_subst_normal g]
  | _ => rfl

theorem normal_subst_normalList (ts : List Ty) :
    normalList (substList σ (normalList ts)) = normalList (substList σ ts) := by
  cases ts with
  | nil => rfl
  | cons t ts =>
    simp only [normalList, substList, normal_subst_normal t, normal_subst_normalList ts]

end

theorem alike_subst {a b : Ty} (h : a.alike b = true) : (a.subst σ).alike (b.subst σ) = true := by
  rw [alike_iff] at h ⊢
  rw [← normal_subst_normal a, h, normal_subst_normal b]

/-! ### What a type can do does not depend on regions -/

@[simp] theorem isSized_subst (t : Ty) : (t.subst σ).isSized = t.isSized := by
  cases t <;> rfl

mutual

@[simp] theorem isClone_subst (t : Ty) : (t.subst σ).isClone = t.isClone := by
  cases t with
  | tuple ts => exact areClone_subst ts
  | vec t => exact isClone_subst t
  | option t => exact isClone_subst t
  | compress f => exact isClone_subst f
  | seeded f s => simp only [subst, isClone, isClone_subst f, isClone_subst s]
  | decorate d => exact isClone_subst d
  | decoration d t => simp only [subst, isClone, isClone_subst d, isClone_subst t]
  | decorated d t g =>
    simp only [subst, isClone, isClone_subst d, isClone_subst t, isClone_subst g]
  | _ => rfl

theorem areClone_subst (ts : List Ty) : areClone (substList σ ts) = areClone ts := by
  cases ts with
  | nil => rfl
  | cons t ts => simp only [substList, areClone, isClone_subst t, areClone_subst ts]

end

theorem isText_ref (r : Region) (t : Ty) : (Ty.ref r t).isText = decide (t = .atom .rawStr) := by
  cases t with
  | atom a => cases a <;> rfl
  | _ => rfl

@[simp] theorem isText_subst (t : Ty) : (t.subst σ).isText = t.isText := by
  cases t with
  | ref r t => simp only [subst, isText_ref, subst_eq_atom_iff]
  | _ => rfl

theorem isText_normal (t : Ty) : t.normal.isText = t.isText := by
  cases t with
  | ref r t =>
    rw [normal_ref]
    split
    · rename_i lasting
      rw [isText_ref, lasting.2]
      rfl
    · simp only [isText_ref, normal_eq_rawStr_iff]
  | _ => rfl

mutual

@[simp] theorem isOrdered_subst (t : Ty) : (t.subst σ).isOrdered = t.isOrdered := by
  cases t with
  | ref r t => simp only [subst, isOrdered, isText_ref, subst_eq_atom_iff, isOrdered_subst t]
  | tuple ts =>
    have length : (substList σ ts).length = ts.length := by simp
    simp only [subst, isOrdered, areOrdered_subst ts, length]
  | vec t => exact isOrdered_subst t
  | option t => exact isOrdered_subst t
  | _ => rfl

theorem areOrdered_subst (ts : List Ty) : areOrdered (substList σ ts) = areOrdered ts := by
  cases ts with
  | nil => rfl
  | cons t ts => simp only [substList, areOrdered, isOrdered_subst t, areOrdered_subst ts]

end

@[simp] theorem isDisplay_subst (t : Ty) : (t.subst σ).isDisplay = t.isDisplay := by
  cases t with
  | ref r t => simp only [subst, isDisplay, isText_ref, subst_eq_atom_iff, isDisplay_subst t]
  | _ => rfl

@[simp] theorem operand?_subst (t : Ty) : (t.subst σ).operand? = t.operand? := by
  cases t with
  | ref r t => cases t <;> rfl
  | _ => rfl

theorem signature?_ref {r : Region} {t : Ty} (h : t ≠ .atom .rawFn) :
    (Ty.ref r t).signature? = t.signature? := by
  cases t with
  | atom a =>
    cases a with
    | rawFn => exact absurd rfl h
    | _ => rfl
  | _ => rfl

theorem signature?_subst {op r : Ty} {ps : List Ty} (h : op.signature? = some (ps, r)) :
    (op.subst σ).signature? = some (ps.map (subst σ), r.subst σ) := by
  cases op with
  | fn qs q =>
    cases h
    simp [subst, signature?]
  | atom a =>
    cases a with
    | boxedFn =>
      cases h
      rfl
    | _ => cases h
  | ref region t =>
    by_cases pointer : t = .atom .rawFn
    · subst pointer
      cases h
      rfl
    · rw [signature?_ref pointer] at h
      have inner := @signature?_subst t r ps h
      rwa [subst, signature?_ref fun moved => pointer (subst_eq_atom moved)]
  | _ => cases h

theorem isText_of_alike {a b : Ty} (h : a.alike b = true) : a.isText = b.isText := by
  rw [← isText_normal a, alike_iff.1 h, isText_normal b]

theorem alike_ref {r r' : Region} {p a : Ty} (h : (Ty.ref r p).alike (.ref r' a) = true) :
    p.alike a = true := by
  rw [alike_iff, normal_ref, normal_ref] at h
  split at h <;> split at h
  · rename_i lasting lasting'
    rw [lasting.2, lasting'.2]
    rfl
  · cases h
  · cases h
  · exact alike_iff.2 (Ty.ref.inj h).2

/-- A reference into any region takes every reference to the same type. -/
theorem suits_any {p a : Ty} (r : Region) (h : p.alike a = true) :
    (Ty.ref .any p).suits (.ref r a) = true := by
  by_cases text : p = .atom .rawStr
  · subst text
    have : a = .atom .rawStr := normal_eq_rawStr_iff.1 (alike_iff.1 h).symm
    rw [this]
    rfl
  · simp only [suits, h]

/-- An argument of the type of the parameter suits it. -/
theorem suits_of_alike {p a : Ty} (h : p.alike a = true) : p.suits a = true := by
  unfold suits
  split
  · rw [← isText_of_alike h]
    rfl
  · exact alike_ref h
  · exact h

theorem suits_subst {p a : Ty} (h : p.suits a = true) :
    (p.subst σ).suits (a.subst σ) = true := by
  unfold suits at h
  split at h
  · simpa [subst, Region.subst, suits] using h
  · exact suits_any _ (alike_subst h)
  · exact suits_of_alike (alike_subst h)

end Ty

end Callable
