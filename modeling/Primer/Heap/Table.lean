/-
  Primer/Heap/Table.lean
  ======================
  **Tables: keys with values, in the order in which the keys were first set.**
-/

namespace Primer

/-- A table; a key stands in it at most once when it was built by `set`. -/
abbrev Table (κ α : Type) := List (κ × α)

namespace Table

variable {κ α : Type} [DecidableEq κ]

/-- The value of a key. -/
def get? (k : κ) : Table κ α → Option α
  | [] => none
  | (j, a) :: t => if j = k then some a else get? k t

/-- Gives a key a value, in its old place or else in the last. -/
def set (k : κ) (a : α) : Table κ α → Table κ α
  | [] => [(k, a)]
  | (j, b) :: t => if j = k then (k, a) :: t else (j, b) :: set k a t

def keys (t : Table κ α) : List κ := t.map Prod.fst

@[simp] theorem get?_set_self (k : κ) (a : α) (t : Table κ α) : get? k (set k a t) = some a := by
  induction t with
  | nil => simp [set, get?]
  | cons p t ih =>
    obtain ⟨j, b⟩ := p
    by_cases h : j = k <;> simp [set, get?, h, ih]

theorem get?_set_of_ne {j k : κ} (h : j ≠ k) (a : α) (t : Table κ α) :
    get? j (set k a t) = get? j t := by
  induction t with
  | nil => simp [set, get?, Ne.symm h]
  | cons p t ih =>
    obtain ⟨i, b⟩ := p
    by_cases hi : i = k
    · subst hi
      simp [set, get?, Ne.symm h]
    · simp [set, get?, hi, ih]

end Table

end Primer
