set_option autoImplicit false

/-!
The types that an operation or an argument can have. References carry the region they are valid
in: most are valid for ever, a decorated call introduces a region of its own, and a parameter of a
function pointer may ask for any region.
-/

namespace Callable

/-- Where a reference is valid. A reference into `any` region is a parameter of a function pointer, and
stands nowhere else in a proper type (`Ty.isProper`). -/
inductive Region where
  | static
  | any
  | call (n : Nat)
  deriving DecidableEq, Repr, Inhabited

/-- The types without parts that are not operations of this library. -/
inductive Atom where
  | i8 | u8 | u16 | u32 | i32 | i64 | u64 | f32 | f64 | bool | char
  | str | string | cell | token | rawStr | boxedFn | rawFn | rawVoice
  deriving DecidableEq, Repr, Inhabited

/-- The operations without parts. -/
inductive Primitive where
  | max | min | sum | product | trace
  | nest | push | twice | poly | forward | prepend | tally | relay | lend | parser | picky | moody
  deriving DecidableEq, Repr, Inhabited

/-- A `str` is a reference and sized; only `rawStr`, `rawFn` and `rawVoice` are not sized. -/
inductive Ty where
  | atom (a : Atom)
  | primitive (p : Primitive)
  | ref (r : Region) (t : Ty)
  | tuple (ts : List Ty)
  | vec (t : Ty)
  | option (t : Ty)
  | fn (params : List Ty) (result : Ty)
  | compress (f : Ty)
  | seeded (f seed : Ty)
  | decorate (d : Ty)
  | decoration (d data : Ty)
  | decorated (d data target : Ty)
  deriving Repr, Inhabited

namespace Ty

@[match_pattern] abbrev unit : Ty := .tuple []
@[match_pattern] abbrev bool : Ty := .atom .bool
@[match_pattern] abbrev char : Ty := .atom .char
@[match_pattern] abbrev u8 : Ty := .atom .u8
@[match_pattern] abbrev u32 : Ty := .atom .u32
@[match_pattern] abbrev i32 : Ty := .atom .i32
@[match_pattern] abbrev str : Ty := .atom .str
@[match_pattern] abbrev string : Ty := .atom .string

/-! ### Equality -/

mutual

def same : Ty → Ty → Bool
  | .atom a, .atom b => a == b
  | .primitive p, .primitive q => p == q
  | .ref r t, .ref r' t' => r == r' && same t t'
  | .tuple ts, .tuple ts' => sameList ts ts'
  | .vec t, .vec t' => same t t'
  | .option t, .option t' => same t t'
  | .fn ps r, .fn ps' r' => sameList ps ps' && same r r'
  | .compress f, .compress f' => same f f'
  | .seeded f s, .seeded f' s' => same f f' && same s s'
  | .decorate d, .decorate d' => same d d'
  | .decoration d t, .decoration d' t' => same d d' && same t t'
  | .decorated d t g, .decorated d' t' g' => same d d' && same t t' && same g g'
  | _, _ => false

def sameList : List Ty → List Ty → Bool
  | [], [] => true
  | t :: ts, t' :: ts' => same t t' && sameList ts ts'
  | _, _ => false

end

mutual

theorem same_iff (a b : Ty) : same a b = true ↔ a = b := by
  cases a <;> cases b <;>
    simp [same, same_iff _ _, sameList_iff _ _, and_assoc]

theorem sameList_iff (as bs : List Ty) : sameList as bs = true ↔ as = bs := by
  cases as <;> cases bs <;> simp [sameList, same_iff _ _, sameList_iff _ _]

end

instance : DecidableEq Ty := fun a b => decidable_of_iff _ (same_iff a b)

/-! ### Spelling -/

mutual

/-- The type as it is spelled where it is compared. A text borrowed for ever can be written as a
reference to the text itself as well as `str`, and both are one type. -/
def normal : Ty → Ty
  | .atom a => .atom a
  | .primitive p => .primitive p
  | .ref r t => if r = .static ∧ t = .atom .rawStr then .str else .ref r (normal t)
  | .tuple ts => .tuple (normalList ts)
  | .vec t => .vec (normal t)
  | .option t => .option (normal t)
  | .fn ps r => .fn (normalList ps) (normal r)
  | .compress f => .compress (normal f)
  | .seeded f s => .seeded (normal f) (normal s)
  | .decorate d => .decorate (normal d)
  | .decoration d t => .decoration (normal d) (normal t)
  | .decorated d t g => .decorated (normal d) (normal t) (normal g)

def normalList : List Ty → List Ty
  | [] => []
  | t :: ts => normal t :: normalList ts

end

@[simp] theorem normalList_eq_map (ts : List Ty) : normalList ts = ts.map normal := by
  induction ts <;> simp_all [normalList]

theorem normal_ref (r : Region) (t : Ty) :
    (Ty.ref r t).normal = if r = .static ∧ t = .atom .rawStr then .str else .ref r t.normal := rfl

theorem normal_eq_rawStr_iff {t : Ty} : t.normal = .atom .rawStr ↔ t = .atom .rawStr := by
  cases t with
  | ref r t =>
    rw [normal_ref]
    split <;> simp
  | _ => simp [normal]

/-- Whether two types are the same, however they are spelled. -/
def alike (a b : Ty) : Bool := a.normal = b.normal

theorem alike_iff {a b : Ty} : a.alike b = true ↔ a.normal = b.normal := decide_eq_true_iff

/-! ### Regions -/

mutual

/-- The call regions that a type mentions. -/
def callRegions : Ty → List Nat
  | .atom _ => []
  | .primitive _ => []
  | .ref (.call n) t => n :: callRegions t
  | .ref .static t => callRegions t
  | .ref .any t => callRegions t
  | .tuple ts => callRegionsList ts
  | .vec t => callRegions t
  | .option t => callRegions t
  | .fn ps r => callRegionsList ps ++ callRegions r
  | .compress f => callRegions f
  | .seeded f s => callRegions f ++ callRegions s
  | .decorate d => callRegions d
  | .decoration d t => callRegions d ++ callRegions t
  | .decorated d t g => callRegions d ++ callRegions t ++ callRegions g

def callRegionsList : List Ty → List Nat
  | [] => []
  | t :: ts => callRegions t ++ callRegionsList ts

end

/-- Whether a type mentions the region of the call `n`. -/
def mentions (n : Nat) (t : Ty) : Bool := t.callRegions.contains n

theorem mentions_iff {n : Nat} {t : Ty} : t.mentions n = true ↔ n ∈ t.callRegions := by
  simp [mentions]

/-- A call region that none of the types mentions: one above the largest that they do mention. -/
def freshRegion (ts : List Ty) : Nat :=
  (ts.flatMap callRegions).foldr (fun n m => Nat.max (n + 1) m) 0

theorem lt_foldr_max_succ {n : Nat} {ns : List Nat} (h : n ∈ ns) :
    n < ns.foldr (fun n m => Nat.max (n + 1) m) 0 := by
  induction ns with
  | nil => simp at h
  | cons m ns ih =>
    simp only [List.foldr_cons]
    rcases List.mem_cons.1 h with rfl | h
    · exact Nat.lt_of_lt_of_le (Nat.lt_succ_self n) (Nat.le_max_left _ _)
    · exact Nat.lt_of_lt_of_le (ih h) (Nat.le_max_right _ _)

theorem lt_freshRegion {n : Nat} {t : Ty} {ts : List Ty} (ht : t ∈ ts) (hn : n ∈ t.callRegions) :
    n < freshRegion ts :=
  lt_foldr_max_succ (List.mem_flatMap.2 ⟨t, ht, hn⟩)

theorem not_mentions_freshRegion {t : Ty} {ts : List Ty} (ht : t ∈ ts) :
    t.mentions (freshRegion ts) = false := by
  rw [Bool.eq_false_iff, Ne, mentions_iff]
  exact fun h => Nat.lt_irrefl _ (lt_freshRegion ht h)

end Ty

end Callable
