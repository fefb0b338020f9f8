import Mathlib.Logic.Function.Basic

/-!
Tables: finite maps seen as partial functions.
`insert` is the insertion that leaves a key alone that is already there; `assign`
writes in any case; `refresh` passes over all entries and keeps what its function
returns.
-/
namespace Sponge

abbrev Table (κ β : Type*) := κ → Option β

namespace Table

variable {κ β : Type*} [DecidableEq κ]

def empty : Table κ β := fun _ => none

def assign (t : Table κ β) (k : κ) (v : β) : Table κ β := Function.update t k (some v)

def erase (t : Table κ β) (k : κ) : Table κ β := Function.update t k none

def insert (t : Table κ β) (k : κ) (v : β) : Table κ β :=
  match t k with
  | some _ => t
  | none => t.assign k v

def refresh (t : Table κ β) (f : β → Option β) : Table κ β := fun k => (t k).bind f

@[simp] theorem assign_self (t : Table κ β) (k : κ) (v : β) : t.assign k v k = some v := by
  simp [assign]

theorem assign_of_ne (t : Table κ β) {k k' : κ} (h : k' ≠ k) (v : β) :
    t.assign k v k' = t k' := by
  simp [assign, h]

theorem insert_of_mem {t : Table κ β} {k : κ} {w : β} (h : t k = some w) (v : β) :
    t.insert k v = t := by
  rw [insert, h]

theorem insert_of_not_mem {t : Table κ β} {k : κ} (h : t k = none) (v : β) :
    t.insert k v = t.assign k v := by
  rw [insert, h]

theorem insert_self (t : Table κ β) (k : κ) (v : β) :
    t.insert k v k = some ((t k).getD v) := by
  cases h : t k with
  | none => rw [insert_of_not_mem h, assign_self, Option.getD_none]
  | some w => rw [insert_of_mem h, h, Option.getD_some]

theorem insert_of_ne (t : Table κ β) {k k' : κ} (h : k' ≠ k) (v : β) :
    t.insert k v k' = t k' := by
  cases hk : t k with
  | none => rw [insert_of_not_mem hk, assign_of_ne t h]
  | some w => rw [insert_of_mem hk]

theorem erase_of_ne (t : Table κ β) {k k' : κ} (h : k' ≠ k) : t.erase k k' = t k' := by
  simp [erase, h]

/-- An inserted table holds the new pair and what it held before, nothing else. -/
theorem of_insert {t : Table κ β} {k k' : κ} {v w : β} (h : t.insert k v k' = some w) :
    t k' = some w ∨ k' = k ∧ t k = none ∧ w = v := by
  by_cases hk : k' = k
  · subst hk
    rw [insert_self] at h
    cases ht : t k' with
    | none =>
      rw [ht] at h
      exact Or.inr ⟨rfl, rfl, (Option.some.inj h).symm⟩
    | some u =>
      rw [ht] at h
      exact Or.inl h
  · rw [insert_of_ne t hk] at h
    exact Or.inl h

end Table

end Sponge
