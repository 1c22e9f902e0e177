import Callable.Run.Count
import Callable.Session.Step
set_option autoImplicit false

/-!
The books of a session. Each counter of each object has an account of the count that it was created
or copied with and of the counting calls that have started at its place in that very object since
then. A copy gets accounts of its own, and what is moved takes its accounts along. The books are kept
from the steps of the session and the logs of its calls alone.
-/

namespace Callable

structure Account where
  start : Nat
  runs : Nat

namespace Account

def opened (n : Nat) : Account := ⟨n, 0⟩

/-- What the counter shows. -/
def reading (a : Account) : Nat := countUp a.start a.runs

/-- The account of a copy of the counter. -/
def copy (a : Account) : Account := opened a.reading

def after (a : Account) (calls : Nat) : Account := { a with runs := a.runs + calls }

/-- The counter shows its start and all its calls, if it has not got to the largest count. -/
def Exact (n : Nat) (a : Account) : Prop := n < countLimit → n = a.start + a.runs

theorem exact_reading (a : Account) : Exact a.reading a := eq_add_of_countUp_lt

@[simp] theorem reading_opened (n : Nat) : (opened n).reading = n := countUp_zero n

@[simp] theorem reading_copy (a : Account) : a.copy.reading = a.reading := reading_opened _

@[simp] theorem reading_after (a : Account) (calls : Nat) :
    (a.after calls).reading = countUp a.reading calls :=
  (countUp_countUp _ _ _).symm

end Account

/-- The accounts of what is in the registers, one for each counter from the outside inwards. -/
abbrev Ledger := Registers (List Account)

namespace Ledger

def of (ledger : Ledger) (n : String) : List Account := (ledger.get? n).getD []

def copiesOf (ledger : Ledger) (n : String) : List Account := (ledger.of n).map Account.copy

end Ledger

namespace Object

def counters : Object → List Nat
  | .op f => f.counters
  | .decorate _ => []
  | .decoration _ t => t.counters

theorem counters_of_withData? {t : Datum} {o made : Object} (bound : o.withData? t = some made) :
    made.counters = t.counters := by
  cases o <;> cases bound
  rfl

theorem counters_of_withTarget? {f g : Op} {o : Object} (applied : o.withTarget? f = some g) :
    g.counters = o.counters ++ f.counters := by
  obtain ⟨d, t, rfl, rfl⟩ := withTarget?_eq_some_iff.1 applied
  rfl

theorem counters_of_withSeed? {s : Value} {g : Op} {o : Object} (seeded : o.withSeed? s = some g) :
    g.counters = o.counters := by
  obtain ⟨f, rfl, rfl⟩ := withSeed?_eq_some_iff.1 seeded
  rfl

theorem counters_of_operation? {o : Object} {g : Op} (folded : o.operation? = some g) :
    g.counters = o.counters := by
  unfold operation? at folded
  split at folded <;> cases folded <;> rfl

/-- The counters of a target come last. -/
theorem counters_of_target? {o : Object} {g : Op} (inside : o.target? = some g) :
    g.counters = o.counters.drop (o.counters.length - g.counters.length) := by
  unfold target? at inside
  split at inside <;> cases inside
  simp [counters, Op.counters]

end Object

def OpExpr.accounts (ledger : Ledger) : OpExpr → List Account
  | .leaf _ => []
  | .compress f => f.accounts ledger
  | .seeded f _ => f.accounts ledger
  | .decorated _ t f => t.counters.map .opened ++ f.accounts ledger
  | .register n => ledger.copiesOf n

/-- The accounts of what a source makes, and what is left in the books. The last accounts of a
decorated operation are those of its target. -/
def ObjectSource.accounts (ledger : Ledger) (made : Object) : ObjectSource → List Account × Ledger
  | .make f => (f.accounts ledger, ledger)
  | .decorate _ => ([], ledger)
  | .withData _ t => (t.counters.map .opened, ledger)
  | .apply of f => (ledger.copiesOf of ++ f.accounts ledger, ledger)
  | .intoDecorated of f => (ledger.of of ++ f.accounts ledger, ledger.clear of)
  | .operation of => (ledger.copiesOf of, ledger)
  | .target of =>
    ((ledger.copiesOf of).drop ((ledger.of of).length - made.counters.length), ledger)
  | .copy of => (ledger.copiesOf of, ledger)
  | .seeded of _ => (ledger.of of, ledger.clear of)

/-- The books after a step. -/
def ScriptStep.book (ledger : Ledger) : ScriptStep → ScriptAnswer → Ledger
  | .object as? source, .object made =>
    let (accounts, ledger) := source.accounts ledger made
    ledger.store as? accounts
  | .intoParts of, _ => ledger.clear of
  | .call of _, .ran _ log =>
    ledger.set of ((ledger.of of).mapIdx fun place a => a.after (runsAt place log))
  | _, _ => ledger

/-- The books after some steps. -/
def Ledger.book (ledger : Ledger) (history : List (ScriptStep × ScriptAnswer)) : Ledger :=
  history.foldl (fun ledger e => e.1.book ledger e.2) ledger

end Callable
