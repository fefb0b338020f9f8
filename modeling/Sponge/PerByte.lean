import Mathlib.Data.Finset.Card
import Mathlib.Data.Nat.Find
import Mathlib.Data.Set.Finite.Basic
import Mathlib.Order.Interval.Finset.Nat

/-!
The naive reassembler: a finite set of received positions.
It knows positions only, not bytes. A push adds the positions of the excerpt that
lie in the window, which starts at the least position not received and ends at
`capacity` positions past what has been read.
-/
namespace Sponge

/-- The least natural number outside a finite set. -/
def leastMissing (kept : Finset ℕ) : ℕ := Nat.find (Infinite.exists_notMem_finset kept)

theorem leastMissing_eq {kept : Finset ℕ} {n : ℕ} (hall : ∀ p, p < n → p ∈ kept)
    (hn : n ∉ kept) : leastMissing kept = n := by
  apply (Nat.find_eq_iff _).mpr
  refine ⟨hn, ?_⟩
  intro p hp hnot
  exact hnot (hall p hp)

structure PerByte where
  capacity : ℕ
  kept : Finset ℕ
  bytesRead : ℕ
  eofSeen : Bool

namespace PerByte

def new (capacity : ℕ) : PerByte := ⟨capacity, ∅, 0, false⟩

def firstMissing (m : PerByte) : ℕ := leastMissing m.kept

/-- Positions received beyond the first missing one. -/
def waiting (m : PerByte) : ℕ := (m.kept.filter (fun p => m.firstMissing < p)).card

/-- The whole stream of the given length has been received, its end included. -/
def Ended (m : PerByte) (total : ℕ) : Prop := m.eofSeen = true ∧ m.firstMissing = total

def push (m : PerByte) (index len : ℕ) (eof : Bool) : PerByte :=
  { m with
    kept := m.kept ∪ (Finset.Ico index (index + len)).filter
      (fun p => m.firstMissing ≤ p ∧ p < m.bytesRead + m.capacity)
    eofSeen := m.eofSeen || eof }

/-- The reader asks for n bytes and gets at most what has been assembled. -/
def consume (m : PerByte) (n : ℕ) : PerByte :=
  { m with bytesRead := m.bytesRead + min n (m.firstMissing - m.bytesRead) }

end PerByte

end Sponge
