import Mathlib.Algebra.Group.Nat.Defs

/-!
Unsigned machine arithmetic on natural numbers.
A word of width w is a natural number below 2^w. Sizes and positions are plain
naturals in this development; these two operations are used where the wrap can
really happen: a difference that may be negative, or a sum with a number that
comes from a caller or from the wire.
-/
namespace Sponge.Words

/-- Unsigned addition of width w. -/
def wrapAdd (w a b : ℕ) : ℕ := (a + b) % 2 ^ w

/-- Unsigned subtraction of width w. -/
def wrapSub (w a b : ℕ) : ℕ := if b ≤ a then a - b else 2 ^ w - (b - a)

theorem wrapAdd_of_lt {w a b : ℕ} (h : a + b < 2 ^ w) : wrapAdd w a b = a + b :=
  Nat.mod_eq_of_lt h

theorem wrapAdd_le (w a b : ℕ) : wrapAdd w a b ≤ a + b := Nat.mod_le _ _

@[simp] theorem wrapSub_zero (w a : ℕ) : wrapSub w a 0 = a := by
  simp [wrapSub]

theorem wrapSub_of_le {w a b : ℕ} (h : b ≤ a) : wrapSub w a b = a - b := by
  simp [wrapSub, h]

/-- What holds of the numbers up to a bound, one by one, holds of all bytes up to it. -/
@[elab_as_elim] theorem byte_le_cases {motive : UInt8 → Prop} {bound x : UInt8} (hx : x ≤ bound)
    (h : ∀ n < bound.toNat + 1, motive (UInt8.ofNat n)) : motive x := by
  have hat := h x.toNat (Nat.lt_succ_of_le (UInt8.le_iff_toNat_le.mp hx))
  rwa [UInt8.ofNat_toNat] at hat

end Sponge.Words
