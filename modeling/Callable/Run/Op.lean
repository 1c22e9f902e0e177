import Callable.Run.Leaf
set_option autoImplicit false

/-!
Operations as values: leaves, folds of an operation, and decorated operations. A decoration holds
data, and data that is a counter can change while the operation runs. The counters of an operation
are listed from the outside inwards, and the place of a counter is its position in that list.
-/

namespace Callable

inductive Decorator where
  | relay | tally | prepend | scale | offset | ignore | twice | swap | curry | dropFirst | inspect
  | lookup | wrap | trace
  deriving DecidableEq, Repr

inductive Datum where
  | value (v : Value)
  | counter (n : Nat)
  deriving Repr

inductive Op where
  | leaf (l : Leaf)
  | compress (f : Op)
  | seeded (f : Op) (seed : Value)
  | decorated (d : Decorator) (data : Datum) (target : Op)
  deriving Repr

namespace Decorator

def name : Decorator → String
  | .relay => "relay"
  | .tally => "tally"
  | .prepend => "prefix"
  | .scale => "scale"
  | .offset => "offset"
  | .ignore => "ignore"
  | .twice => "twice"
  | .swap => "swap"
  | .curry => "curry"
  | .dropFirst => "drop_first"
  | .inspect => "inspect"
  | .lookup => "lookup"
  | .wrap => "wrap"
  | .trace => "trace"

end Decorator

namespace Datum

def same : Datum → Datum → Bool
  | .value v, .value w => v.same w
  | .counter n, .counter m => n = m
  | _, _ => false

def counters : Datum → List Nat
  | .value _ => []
  | .counter n => [n]

/-- The data with its counter, if it has one, set to what stands at the place. -/
def load (cs : List Nat) (place : Nat) : Datum → Datum
  | .value v => .value v
  | .counter n => .counter (cs[place]?.getD n)

end Datum

namespace Op

def same : Op → Op → Bool
  | .leaf l, .leaf l' => l = l'
  | .compress f, .compress f' => same f f'
  | .seeded f s, .seeded f' s' => same f f' && s.same s'
  | .decorated d t f, .decorated d' t' f' => d = d' && t.same t' && same f f'
  | _, _ => false

def counters : Op → List Nat
  | .leaf _ => []
  | .compress f => f.counters
  | .seeded f _ => f.counters
  | .decorated _ data f => data.counters ++ f.counters

/-- The operation with the counters that stand from the place on. -/
def load (cs : List Nat) : Nat → Op → Op
  | _, .leaf l => .leaf l
  | p, .compress f => .compress (f.load cs p)
  | p, .seeded f s => .seeded (f.load cs p) s
  | p, .decorated d data f => .decorated d (data.load cs p) (f.load cs (p + data.counters.length))

/-- The seeds of the folds, from the outside inwards. -/
def seeds : Op → List Value
  | .leaf _ => []
  | .compress f => f.seeds
  | .seeded f s => s :: f.seeds
  | .decorated _ _ f => f.seeds

@[simp] theorem seeds_load (cs : List Nat) (p : Nat) (f : Op) : (f.load cs p).seeds = f.seeds := by
  induction f generalizing p with
  | leaf l => rfl
  | compress f ih => exact ih p
  | seeded f s ih => exact congrArg (s :: ·) (ih p)
  | decorated d data f ih => exact ih _

theorem counters_load (cs : List Nat) (p : Nat) (f : Op) (h : p + f.counters.length ≤ cs.length) :
    (f.load cs p).counters = (cs.drop p).take f.counters.length := by
  induction f generalizing p with
  | leaf l => simp [load, counters]
  | compress f ih => exact ih p h
  | seeded f s ih => exact ih p h
  | decorated d data f ih =>
    simp only [counters, List.length_append] at h
    have inner := ih (p + data.counters.length) (by omega)
    cases data with
    | value v => simpa [load, counters, Datum.load, Datum.counters] using inner
    | counter n =>
      simp only [Datum.counters, List.length_singleton] at h inner
      have hp : p < cs.length := by omega
      simp only [load, counters, Datum.load, Datum.counters, List.length_singleton, inner,
        List.getElem?_eq_getElem hp, Option.getD_some, List.length_append]
      rw [List.drop_eq_getElem_cons hp, Nat.add_comm 1, List.take_succ_cons]
      rfl

end Op

end Callable
