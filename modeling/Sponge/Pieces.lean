import Mathlib.Algebra.Order.Ring.Nat
import Mathlib.Data.List.Basic

/-!
Strings kept in pieces, over arbitrary elements and arbitrary pieces.
A piece stands for a list of elements. Removing a number of elements from the front drops
whole pieces as long as they fit into the number, and cuts the piece in which it ends. A
number that is too large uses up all pieces before it is found out.
-/
namespace Sponge.Pieces

variable {α β ε : Type*}

/-- The elements that the pieces stand for together. -/
def joined (text : β → List α) (pieces : List β) : List α := (pieces.map text).flatten

/-- Removes n elements from the front, and leaves the pieces as they are when it stops. -/
def removeFront (size : β → ℕ) (cut : β → ℕ → Except ε β) (past : ε) :
    ℕ → List β → Except ε Unit × List β
  | 0, pieces => (.ok (), pieces)
  | _ + 1, [] => (.error past, [])
  | n + 1, front :: rest =>
    if n + 1 < size front then
      match cut front (n + 1) with
      | .ok front' => (.ok (), front' :: rest)
      | .error e => (.error e, front :: rest)
    else removeFront size cut past (n + 1 - size front) rest

/-- A piece knows its size, and cutting it within its size cuts the text. -/
structure Cuts (text : β → List α) (size : β → ℕ) (cut : β → ℕ → Except ε β) : Prop where
  size_eq : ∀ piece, size piece = (text piece).length
  cut_eq : ∀ piece n, n < size piece →
    ∃ piece', cut piece n = .ok piece' ∧ text piece' = (text piece).drop n

variable {text : β → List α} {size : β → ℕ} {cut : β → ℕ → Except ε β}

@[simp] theorem joined_cons (piece : β) (pieces : List β) :
    joined text (piece :: pieces) = text piece ++ joined text pieces := rfl

@[simp] theorem joined_append (pieces pieces' : List β) :
    joined text (pieces ++ pieces') = joined text pieces ++ joined text pieces' := by
  simp [joined]

namespace Cuts

theorem sum_sizes (h : Cuts text size cut) (pieces : List β) :
    (pieces.map size).sum = (joined text pieces).length := by
  rw [joined, List.length_flatten, List.map_map]
  congr 1
  apply List.map_congr_left
  intro piece _
  exact h.size_eq piece

/-- Within the string, removing from the pieces is removing from the string. -/
theorem removeFront_of_le (h : Cuts text size cut) (past : ε) {n : ℕ} {pieces : List β}
    (hn : n ≤ (joined text pieces).length) :
    ∃ pieces', removeFront size cut past n pieces = (.ok (), pieces') ∧
      joined text pieces' = (joined text pieces).drop n := by
  induction pieces generalizing n with
  | nil =>
    obtain rfl : n = 0 := Nat.le_zero.mp hn
    exact ⟨[], rfl, rfl⟩
  | cons front rest ih =>
    cases n with
    | zero => exact ⟨front :: rest, rfl, rfl⟩
    | succ n =>
      have hsize := h.size_eq front
      rw [joined_cons, List.length_append] at hn
      by_cases hfront : n + 1 < size front
      · obtain ⟨front', hcut, htext⟩ := h.cut_eq front (n + 1) hfront
        refine ⟨front' :: rest, ?_, ?_⟩
        · simp only [removeFront, if_pos hfront, hcut]
        · rw [joined_cons, joined_cons, htext, List.drop_append_of_le_length (by omega)]
      · have hgone : (text front).drop (n + 1) = [] := List.drop_of_length_le (by omega)
        obtain ⟨rest', hremoved, htext⟩ := ih (n := n + 1 - size front) (by omega)
        refine ⟨rest', ?_, ?_⟩
        · simp only [removeFront, if_neg hfront, hremoved]
        · rw [htext, joined_cons, List.drop_append, hgone, List.nil_append, hsize]

/-- Past the string all pieces are gone when the error is raised. -/
theorem removeFront_of_lt (h : Cuts text size cut) (past : ε) {n : ℕ} {pieces : List β}
    (hn : (joined text pieces).length < n) :
    removeFront size cut past n pieces = (.error past, []) := by
  induction pieces generalizing n with
  | nil =>
    cases n with
    | zero => exact absurd hn (Nat.not_lt_zero _)
    | succ n => rfl
  | cons front rest ih =>
    have hsize := h.size_eq front
    rw [joined_cons, List.length_append] at hn
    cases n with
    | zero => exact absurd hn (Nat.not_lt_zero _)
    | succ n =>
      have hfront : ¬ n + 1 < size front := by omega
      rw [removeFront, if_neg hfront]
      exact ih (by omega)

end Cuts

end Sponge.Pieces
