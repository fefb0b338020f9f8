import Mathlib.Algebra.Group.Int.Defs
import Mathlib.Tactic.SplitIfs
import Sponge.Words

/-!
Sequence numbers on the wire are 32-bit and wrap around; sequence numbers inside
an endpoint are absolute. `wrap` takes an absolute number to the wire and `unwrap`
picks, among the absolute numbers that wrap to the given one, one closest to a
checkpoint. Less than half the modulus away from the checkpoint nothing is lost.
-/
namespace Sponge

open Words

structure WrappingInt32 where
  rawValue : UInt32
  deriving DecidableEq, Repr, Inhabited

namespace WrappingInt32

/-- `operator-` on two wrapping integers: the offset as a signed 32-bit number. -/
def sub (a b : WrappingInt32) : ℤ := (a.rawValue - b.rawValue).toBitVec.toInt

end WrappingInt32

open WrappingInt32

def wrap (n : ℕ) (isn : WrappingInt32) : WrappingInt32 :=
  ⟨UInt32.ofNat ((n + isn.rawValue.toNat) % 2 ^ 32)⟩

def diff (a b : ℕ) : ℕ := if a < b then b - a else a - b

/-- `abs_n`: the offset of n from isn, converted to an unsigned 32-bit number. -/
def absOffset (n isn : WrappingInt32) : ℕ :=
  ((if isn.rawValue ≤ n.rawValue then sub n isn else 2 ^ 32 - sub isn n) % 2 ^ 32).toNat

def unwrap (n isn : WrappingInt32) (checkpoint : ℕ) : ℕ :=
  let absN := absOffset n isn
  let nWraps := checkpoint / 2 ^ 32
  let a := wrapAdd 64 absN (nWraps * 2 ^ 32)
  -- one of a and b is above the checkpoint, the other below
  let nWraps' := if a < checkpoint then wrapAdd 64 nWraps 1 else wrapSub 64 nWraps 1
  let b := wrapAdd 64 absN (nWraps' * 2 ^ 32)
  if diff checkpoint a > diff checkpoint b then b else a

theorem wrap_toNat (v : ℕ) (isn : WrappingInt32) :
    (wrap v isn).rawValue.toNat = (v + isn.rawValue.toNat) % 2 ^ 32 := by
  simp [wrap]

@[simp] theorem wrap_zero (isn : WrappingInt32) : wrap 0 isn = isn := by
  have h := isn.rawValue.toNat_lt
  have hraw : (wrap 0 isn).rawValue = isn.rawValue := by
    apply UInt32.toNat_inj.mp
    rw [wrap_toNat, Nat.zero_add, Nat.mod_eq_of_lt h]
  cases isn with
  | mk raw => exact congrArg WrappingInt32.mk hraw

theorem wrap_wrap (m n : ℕ) (isn : WrappingInt32) : wrap m (wrap n isn) = wrap (n + m) isn := by
  have hraw : (wrap m (wrap n isn)).rawValue = (wrap (n + m) isn).rawValue := by
    apply UInt32.toNat_inj.mp
    simp only [wrap_toNat]
    omega
  exact congrArg WrappingInt32.mk hraw

theorem sub_emod (a b : WrappingInt32) :
    sub a b % 2 ^ 32 = ((a.rawValue.toNat : ℤ) - b.rawValue.toNat) % 2 ^ 32 := by
  have ha := a.rawValue.toNat_lt
  have hb := b.rawValue.toNat_lt
  simp only [sub, BitVec.toInt_eq_toNat_cond, UInt32.toNat_toBitVec, UInt32.toNat_sub]
  split <;> omega

theorem absOffset_eq (n isn : WrappingInt32) :
    absOffset n isn = (n.rawValue.toNat + (2 ^ 32 - isn.rawValue.toNat)) % 2 ^ 32 := by
  have hn := n.rawValue.toNat_lt
  have hisn := isn.rawValue.toNat_lt
  have h1 := sub_emod n isn
  have h2 := sub_emod isn n
  unfold absOffset
  split <;> omega

theorem absOffset_wrap (v : ℕ) (isn : WrappingInt32) :
    absOffset (wrap v isn) isn = v % 2 ^ 32 := by
  have hisn := isn.rawValue.toNat_lt
  rw [absOffset_eq, wrap_toNat]
  omega

/-- The numbers that wrap to n are those with its offset from isn. -/
theorem wrap_eq_iff {v : ℕ} {n isn : WrappingInt32} :
    wrap v isn = n ↔ v % 2 ^ 32 = absOffset n isn := by
  constructor
  · intro h
    rw [← h, absOffset_wrap]
  · intro h
    have hn := n.rawValue.toNat_lt
    have hisn := isn.rawValue.toNat_lt
    have hraw : (wrap v isn).rawValue = n.rawValue := by
      apply UInt32.toNat_inj.mp
      rw [absOffset_eq] at h
      rw [wrap_toNat]
      omega
    exact congrArg WrappingInt32.mk hraw

theorem absOffset_lt (n isn : WrappingInt32) : absOffset n isn < 2 ^ 32 := by
  rw [absOffset_eq]
  exact Nat.mod_lt _ (by decide)

section Unwrap

variable {n isn : WrappingInt32} {checkpoint : ℕ}

/-- The first candidate lies in the block of the checkpoint. -/
theorem first_candidate (n isn : WrappingInt32) (hc : checkpoint < 2 ^ 64) :
    wrapAdd 64 (absOffset n isn) (checkpoint / 2 ^ 32 * 2 ^ 32) =
      absOffset n isn + checkpoint / 2 ^ 32 * 2 ^ 32 := by
  have hw := absOffset_lt n isn
  exact wrapAdd_of_lt (by omega)

/-- The second candidate lies one block above, or at the upper end of the range in the
lowest block, where it is further away than the first. -/
theorem second_candidate_above (n isn : WrappingInt32) (hc : checkpoint < 2 ^ 64) :
    wrapAdd 64 (absOffset n isn) (wrapAdd 64 (checkpoint / 2 ^ 32) 1 * 2 ^ 32) =
      if checkpoint / 2 ^ 32 + 1 < 2 ^ 32 then
        absOffset n isn + checkpoint / 2 ^ 32 * 2 ^ 32 + 2 ^ 32
      else absOffset n isn := by
  have hw := absOffset_lt n isn
  rw [wrapAdd_of_lt (show checkpoint / 2 ^ 32 + 1 < 2 ^ 64 by omega)]
  unfold wrapAdd
  split <;> omega

/-- The second candidate lies one block below, or, past zero, in the highest block. -/
theorem second_candidate_below (n isn : WrappingInt32) (hc : checkpoint < 2 ^ 64) :
    wrapAdd 64 (absOffset n isn) (wrapSub 64 (checkpoint / 2 ^ 32) 1 * 2 ^ 32) =
      if 1 ≤ checkpoint / 2 ^ 32 then
        absOffset n isn + checkpoint / 2 ^ 32 * 2 ^ 32 - 2 ^ 32
      else absOffset n isn + (2 ^ 64 - 2 ^ 32) := by
  have hw := absOffset_lt n isn
  unfold wrapAdd wrapSub
  split <;> omega

/-- Both candidates have the right offset, so the result has it in any case. -/
theorem unwrap_mod (n isn : WrappingInt32) (hc : checkpoint < 2 ^ 64) :
    unwrap n isn checkpoint < 2 ^ 64 ∧ unwrap n isn checkpoint % 2 ^ 32 = absOffset n isn := by
  have hw := absOffset_lt n isn
  simp only [unwrap, first_candidate n isn hc]
  by_cases hbelow : absOffset n isn + checkpoint / 2 ^ 32 * 2 ^ 32 < checkpoint
  · rw [if_pos hbelow, second_candidate_above n isn hc]
    split <;> split <;> omega
  · rw [if_neg hbelow, second_candidate_below n isn hc]
    split <;> split <;> omega

theorem wrap_unwrap (n isn : WrappingInt32) (hc : checkpoint < 2 ^ 64) :
    wrap (unwrap n isn checkpoint) isn = n :=
  wrap_eq_iff.mpr (unwrap_mod n isn hc).2

/-- No 64-bit number that wraps to n is closer to the checkpoint. -/
theorem unwrap_nearest (hc : checkpoint < 2 ^ 64) {r : ℕ} (hr : r < 2 ^ 64)
    (hwrap : wrap r isn = n) :
    ((unwrap n isn checkpoint : ℤ) - checkpoint).natAbs ≤ ((r : ℤ) - checkpoint).natAbs := by
  have hw := absOffset_lt n isn
  have hmod := wrap_eq_iff.mp hwrap
  simp only [unwrap, first_candidate n isn hc]
  by_cases hbelow : absOffset n isn + checkpoint / 2 ^ 32 * 2 ^ 32 < checkpoint
  · rw [if_pos hbelow, second_candidate_above n isn hc]
    unfold diff
    split_ifs <;> omega
  · rw [if_neg hbelow, second_candidate_below n isn hc]
    unfold diff
    split_ifs <;> omega

/-- Less than 2^31 away from the checkpoint, unwrapping undoes wrapping. -/
theorem unwrap_wrap (isn : WrappingInt32) {v checkpoint : ℕ}
    (hv : v < 2 ^ 64) (hc : checkpoint < 2 ^ 64)
    (hlo : checkpoint < v + 2 ^ 31) (hhi : v < checkpoint + 2 ^ 31) :
    unwrap (wrap v isn) isn checkpoint = v := by
  have hnear := unwrap_nearest (n := wrap v isn) hc hv rfl
  obtain ⟨-, hmod⟩ := unwrap_mod (wrap v isn) isn hc
  rw [absOffset_wrap] at hmod
  omega

/-- `unwrap` is exact over the whole 64-bit range. -/
theorem unwrap_exact (n isn : WrappingInt32) (hc : checkpoint < 2 ^ 64) :
    unwrap n isn checkpoint < 2 ^ 64 ∧ wrap (unwrap n isn checkpoint) isn = n ∧
      (∀ r : ℕ, r < 2 ^ 64 → wrap r isn = n →
        ((unwrap n isn checkpoint : ℤ) - checkpoint).natAbs ≤ ((r : ℤ) - checkpoint).natAbs) ∧
      ∀ v : ℕ, v < 2 ^ 64 → ((v : ℤ) - checkpoint).natAbs < 2 ^ 31 →
        unwrap (wrap v isn) isn checkpoint = v := by
  refine ⟨(unwrap_mod n isn hc).1, wrap_unwrap n isn hc, ?_, ?_⟩
  · intro r hr hwrap
    exact unwrap_nearest hc hr hwrap
  · intro v hv hclose
    exact unwrap_wrap isn hv hc (by omega) (by omega)

theorem unwrap_exact_at_top :
    unwrap ⟨5⟩ ⟨7⟩ (2 ^ 64 - 1) < 2 ^ 64 ∧ wrap (unwrap ⟨5⟩ ⟨7⟩ (2 ^ 64 - 1)) ⟨7⟩ = ⟨5⟩ ∧
      (∀ r : ℕ, r < 2 ^ 64 → wrap r ⟨7⟩ = ⟨5⟩ →
        ((unwrap ⟨5⟩ ⟨7⟩ (2 ^ 64 - 1) : ℤ) - (2 ^ 64 - 1 : ℕ)).natAbs ≤
          ((r : ℤ) - (2 ^ 64 - 1 : ℕ)).natAbs) ∧
      ∀ v : ℕ, v < 2 ^ 64 → ((v : ℤ) - (2 ^ 64 - 1 : ℕ)).natAbs < 2 ^ 31 →
        unwrap (wrap v ⟨7⟩) ⟨7⟩ (2 ^ 64 - 1) = v :=
  unwrap_exact ⟨5⟩ ⟨7⟩ (by decide)

end Unwrap

end Sponge
