import Mathlib.Data.List.Rotate
import Mathlib.Data.Nat.ModEq

/-!
Circular buffers over an arbitrary type.
The queue held in a buffer from slot d on is the first n elements of the buffer
rotated by d. Appending writes the slot after the last one, popping moves d, and
a read of the queue is one or two contiguous slices of the buffer.
-/
namespace Sponge.Circular

variable {α : Type*}

/-- The n elements stored from slot d on, wrapping at the end. -/
def queue (buf : List α) (d n : ℕ) : List α := (buf.rotate d).take n

theorem queue_length {buf : List α} {d n : ℕ} (h : n ≤ buf.length) :
    (queue buf d n).length = n := by
  simp [queue, h]

theorem rotate_set {buf : List α} {d k : ℕ} (hk : k < buf.length) (b : α) :
    (buf.set ((d + k) % buf.length) b).rotate d = (buf.rotate d).set k b := by
  apply List.ext_getElem
  · simp
  · intro i h1 h2
    have hi : i < buf.length := by simpa using h2
    have hslot : (d + k) % buf.length = (i + d) % buf.length ↔ k = i := by
      constructor
      · intro h
        have hmod : Nat.ModEq buf.length k i := by
          apply Nat.ModEq.add_left_cancel' d
          change (d + k) % buf.length = (d + i) % buf.length
          rw [h, Nat.add_comm i d]
        rw [Nat.ModEq, Nat.mod_eq_of_lt hk, Nat.mod_eq_of_lt hi] at hmod
        exact hmod
      · intro h
        rw [h, Nat.add_comm]
    rw [List.getElem_rotate, List.getElem_set, List.getElem_set, List.getElem_rotate]
    simp only [List.length_set, hslot]

/-- Writing the slot after the queue appends to it. -/
theorem queue_snoc {buf : List α} {d n : ℕ} (hn : n < buf.length) (b : α) :
    queue (buf.set ((d + n) % buf.length) b) d (n + 1) = queue buf d n ++ [b] := by
  have hlen : n < ((buf.rotate d).set n b).length := by simpa using hn
  unfold queue
  rw [rotate_set hn, List.take_succ_eq_append_getElem hlen, List.getElem_set_self]
  congr 1
  rw [List.take_set_of_le (Nat.le_refl n)]

/-- Moving the first slot forward drops the front of the queue. -/
theorem queue_drop {buf : List α} {d n k : ℕ} (hk : k ≤ n) (hn : n ≤ buf.length) :
    queue buf ((d + k) % buf.length) (n - k) = (queue buf d n).drop k := by
  have hkl : k ≤ (buf.rotate d).length := by
    rw [List.length_rotate]
    exact Nat.le_trans hk hn
  unfold queue
  rw [List.rotate_mod, ← List.rotate_rotate, List.rotate_eq_drop_append_take hkl,
    List.take_append_of_le_length, List.drop_take]
  simp only [List.length_drop, List.length_rotate]
  omega

/-- The queue does not reach the end of the buffer: one slice. -/
theorem take_queue_contiguous {buf : List α} {d n k : ℕ} (hk : k ≤ n)
    (h : d + k ≤ buf.length) : (queue buf d n).take k = (buf.drop d).take k := by
  have hd : d ≤ buf.length := by omega
  unfold queue
  rw [List.take_take, Nat.min_eq_left hk, List.rotate_eq_drop_append_take hd,
    List.take_append_of_le_length]
  simp only [List.length_drop]
  omega

/-- The queue passes the end of the buffer: two slices. -/
theorem take_queue_wrapped {buf : List α} {d n k : ℕ} (hk : k ≤ n) (hn : n ≤ buf.length)
    (hd : d < buf.length) (h : buf.length < d + k) :
    (queue buf d n).take k = buf.drop d ++ buf.take ((d + k) % buf.length) := by
  have hmod : (d + k) % buf.length = d + k - buf.length := by
    rw [Nat.mod_eq_sub_mod (by omega), Nat.mod_eq_of_lt (by omega)]
  unfold queue
  rw [List.take_take, Nat.min_eq_left hk, List.rotate_eq_drop_append_take (by omega),
    List.take_append, List.take_of_length_le (by simp only [List.length_drop]; omega),
    List.take_take, hmod]
  congr 2
  simp only [List.length_drop]
  omega

end Sponge.Circular
