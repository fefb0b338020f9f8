import Mathlib.Data.List.Basic

/-!
Lists of consecutive nonempty ranges of natural numbers.
Each element has a position and a length; the list tiles the interval from a to b
when the first range starts at a, each next one where the one before stops, and
the last one stops at b.
-/
namespace Sponge.Tiling

variable {α : Type*} (pos len : α → ℕ)

def Tiles : ℕ → List α → ℕ → Prop
  | a, [], b => a = b
  | a, x :: xs, b => pos x = a ∧ 0 < len x ∧ Tiles (a + len x) xs b

variable {pos len}

namespace Tiles

theorem le {a b : ℕ} {xs : List α} (h : Tiles pos len a xs b) : a ≤ b := by
  induction xs generalizing a with
  | nil => exact Nat.le_of_eq h
  | cons x xs ih =>
    have hrest := ih h.2.2
    omega

theorem append {a b c : ℕ} {xs ys : List α} (h : Tiles pos len a xs b)
    (h' : Tiles pos len b ys c) : Tiles pos len a (xs ++ ys) c := by
  induction xs generalizing a with
  | nil =>
    cases h
    exact h'
  | cons x xs ih => exact ⟨h.1, h.2.1, ih h.2.2⟩

theorem snoc {a b : ℕ} {xs : List α} (h : Tiles pos len a xs b) {x : α} (hx : pos x = b)
    (hlen : 0 < len x) : Tiles pos len a (xs ++ [x]) (b + len x) :=
  h.append ⟨hx, hlen, rfl⟩

theorem bounds {a b : ℕ} {xs : List α} (h : Tiles pos len a xs b) {x : α} (hx : x ∈ xs) :
    a ≤ pos x ∧ pos x + len x ≤ b := by
  induction xs generalizing a with
  | nil => simp at hx
  | cons y ys ih =>
    obtain ⟨hpos, hlen, hrest⟩ := h
    rcases List.mem_cons.mp hx with rfl | hmem
    · have hle := hrest.le
      omega
    · have hb := ih hrest hmem
      omega

theorem length_pos {a b : ℕ} {xs : List α} (h : Tiles pos len a xs b) {x : α} (hx : x ∈ xs) :
    0 < len x := by
  induction xs generalizing a with
  | nil => simp at hx
  | cons y ys ih =>
    rcases List.mem_cons.mp hx with rfl | hmem
    · exact h.2.1
    · exact ih h.2.2 hmem

/-- Every number of the interval lies in one of the ranges. -/
theorem covers {a b : ℕ} {xs : List α} (h : Tiles pos len a xs b) {p : ℕ} (ha : a ≤ p)
    (hb : p < b) : ∃ x ∈ xs, pos x ≤ p ∧ p < pos x + len x := by
  induction xs generalizing a with
  | nil =>
    have heq : a = b := h
    omega
  | cons y ys ih =>
    obtain ⟨hpos, hlen, hrest⟩ := h
    by_cases hp : p < a + len y
    · exact ⟨y, List.mem_cons_self .., by omega, by omega⟩
    · obtain ⟨x, hx, hin⟩ := ih hrest (by omega)
      exact ⟨x, List.mem_cons_of_mem _ hx, hin⟩

end Tiles

end Sponge.Tiling
