import Mathlib.Data.List.Basic

/-!
Excerpts of a list: a list of elements found at a given position of a longer one.
An empty excerpt fits any position. Excerpts join at a common border, survive
cutting at either end, and stay excerpts when the long list grows.
A list can also be put together from two others that each keep their order.
-/
namespace Sponge.Excerpts

variable {α : Type*}

/-- The list d stands in S from position i on. -/
def IsExcerpt (S : List α) (i : ℕ) (d : List α) : Prop := d <+: S.drop i

instance [DecidableEq α] (S : List α) (i : ℕ) (d : List α) : Decidable (IsExcerpt S i d) :=
  inferInstanceAs (Decidable (d <+: S.drop i))

namespace IsExcerpt

variable {S T d e : List α} {i n : ℕ}

theorem nil (S : List α) (i : ℕ) : IsExcerpt S i [] := List.nil_prefix

theorem stop_le (h : IsExcerpt S i d) (hd : d ≠ []) : i + d.length ≤ S.length := by
  have hlen := List.IsPrefix.length_le h
  have hpos : 0 < d.length := List.length_pos_iff.mpr hd
  simp only [List.length_drop] at hlen
  omega

theorem lt_length (h : IsExcerpt S i d) {k : ℕ} (hik : i ≤ k) (hk : k < i + d.length) :
    k < S.length := by
  have hd : d ≠ [] := by
    intro hnil
    rw [hnil, List.length_nil] at hk
    omega
  exact Nat.lt_of_lt_of_le hk (h.stop_le hd)

theorem grow (h : IsExcerpt S i d) (hST : S <+: T) : IsExcerpt T i d := by
  obtain ⟨t, rfl⟩ := hST
  by_cases hd : d = []
  · subst d
    exact nil _ _
  · have hle := h.stop_le hd
    unfold IsExcerpt
    rw [List.drop_append_of_le_length (by omega)]
    exact h.trans (List.prefix_append _ _)

theorem take (h : IsExcerpt S i d) (n : ℕ) : IsExcerpt S i (d.take n) :=
  (List.take_prefix n d).trans h

theorem drop (h : IsExcerpt S i d) (n : ℕ) : IsExcerpt S (i + n) (d.drop n) := by
  obtain ⟨t, ht⟩ := h
  refine ⟨t.drop (n - d.length), ?_⟩
  rw [← List.drop_drop, ← ht, List.drop_append]

theorem append (hd : IsExcerpt S i d) (he : IsExcerpt S (i + d.length) e) :
    IsExcerpt S i (d ++ e) := by
  obtain ⟨t, ht⟩ := hd
  unfold IsExcerpt at he ⊢
  rw [← List.drop_drop, ← ht, List.drop_left] at he
  rw [← ht]
  exact (List.prefix_append_right_inj d).mpr he

theorem getElem? (h : IsExcerpt S i d) {k : ℕ} (hk : k < d.length) : d[k]? = S[i + k]? := by
  obtain ⟨t, ht⟩ := h
  rw [← List.getElem?_drop, ← ht, List.getElem?_append_left hk]

/-- An excerpt that starts where a prefix ends extends the prefix. -/
theorem take_append (h : IsExcerpt S n d) :
    S.take n ++ d = S.take (n + d.length) := by
  obtain ⟨t, ht⟩ := h
  rw [List.take_add, ← ht, List.take_left]

end IsExcerpt

/-- The third list has the elements of the first two, each list in its own order. -/
inductive Interleaved : List α → List α → List α → Prop
  | nil : Interleaved [] [] []
  | left (x : α) {xs ys zs : List α} :
      Interleaved xs ys zs → Interleaved (x :: xs) ys (x :: zs)
  | right (y : α) {xs ys zs : List α} :
      Interleaved xs ys zs → Interleaved xs (y :: ys) (y :: zs)

namespace Interleaved

variable {xs ys zs xs' ys' zs' : List α}

theorem nil_right (xs : List α) : Interleaved xs [] xs := by
  induction xs with
  | nil => exact nil
  | cons x xs ih => exact ih.left x

theorem nil_left (ys : List α) : Interleaved [] ys ys := by
  induction ys with
  | nil => exact nil
  | cons y ys ih => exact ih.right y

theorem append (h : Interleaved xs ys zs) (h' : Interleaved xs' ys' zs') :
    Interleaved (xs ++ xs') (ys ++ ys') (zs ++ zs') := by
  induction h with
  | nil => exact h'
  | left x _ ih => exact ih.left x
  | right y _ ih => exact ih.right y

/-- The one list first, then the other. -/
theorem in_turn (xs ys : List α) : Interleaved xs ys (xs ++ ys) := by
  have h := (nil_right xs).append (nil_left ys)
  rwa [List.append_nil, List.nil_append] at h

end Interleaved

end Sponge.Excerpts
