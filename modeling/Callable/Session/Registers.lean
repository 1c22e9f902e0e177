set_option autoImplicit false

/-!
Named registers. The latest entry of a name hides the earlier ones.
-/

namespace Callable

abbrev Registers (α : Type) := List (String × Option α)

namespace Registers

variable {α : Type}

def get? : Registers α → String → Option α
  | [], _ => none
  | (m, v) :: rs, n => if m = n then v else get? rs n

def set (rs : Registers α) (n : String) (v : α) : Registers α := (n, some v) :: rs

def clear (rs : Registers α) (n : String) : Registers α := (n, none) :: rs

/-- Writes to a register only where one is named. -/
def store (rs : Registers α) (n? : Option String) (v : α) : Registers α :=
  match n? with
  | none => rs
  | some n => rs.set n v

@[simp] theorem get?_set (rs : Registers α) (n m : String) (v : α) :
    (rs.set n v).get? m = if n = m then some v else rs.get? m := rfl

@[simp] theorem get?_clear (rs : Registers α) (n m : String) :
    (rs.clear n).get? m = if n = m then none else rs.get? m := rfl

theorem get?_set_of_ne (rs : Registers α) {n m : String} (other : m ≠ n) (v : α) :
    (rs.set n v).get? m = rs.get? m := by
  rw [get?_set, if_neg other.symm]

theorem get?_clear_of_ne (rs : Registers α) {n m : String} (other : m ≠ n) :
    (rs.clear n).get? m = rs.get? m := by
  rw [get?_clear, if_neg other.symm]

theorem get?_store_of_not_mem (rs : Registers α) {n? : Option String} {m : String}
    (other : m ∉ n?.toList) (v : α) : (rs.store n? v).get? m = rs.get? m := by
  cases n? with
  | none => rfl
  | some n => exact rs.get?_set_of_ne (List.ne_of_not_mem_cons other) v

end Registers

end Callable
