import Mathlib.Data.List.Basic
import Mathlib.Data.Nat.Notation

/-!
Longest match. The search visits the ranks from the greatest down and takes at each
of them the first entry that fits; what it finds is the first of the best entries.
For words of bits, to agree on the leading n bits is to be equal under the mask that
keeps them.
-/
namespace Sponge.LongestMatch

section Search

variable {α κ : Type*} {rank : α → κ} {p : α → Prop} {xs : List α} {x : α}

/-- Of the entries with p, x has the greatest rank, and none before it has the same rank. -/
structure FirstBest [LE κ] (rank : α → κ) (p : α → Prop) (xs : List α) (x : α) : Prop where
  holds : p x
  best : ∀ y ∈ xs, p y → rank y ≤ rank x
  first : ∃ before after, xs = before ++ x :: after ∧ ∀ y ∈ before, p y → rank y ≠ rank x

variable [DecidableEq κ] [DecidablePred p]

/-- The first entry of the given rank with p. -/
def findAt (rank : α → κ) (p : α → Prop) [DecidablePred p] (xs : List α) (k : κ) : Option α :=
  xs.find? fun x => decide (rank x = k ∧ p x)

def search (rank : α → κ) (p : α → Prop) [DecidablePred p] (ranks : List κ) (xs : List α) :
    Option α :=
  ranks.findSome? (findAt rank p xs)

theorem findAt_eq_some {k : κ} (h : findAt rank p xs k = some x) :
    rank x = k ∧ p x ∧
      ∃ before after, xs = before ++ x :: after ∧ ∀ y ∈ before, p y → rank y ≠ rank x := by
  obtain ⟨hx, before, after, hxs, hbefore⟩ := List.find?_eq_some_iff_append.mp h
  obtain ⟨hrank, hp⟩ := of_decide_eq_true hx
  refine ⟨hrank, hp, before, after, hxs, ?_⟩
  intro y hy hpy hsame
  have hnot := hbefore y hy
  simp [hsame, hrank, hpy] at hnot

theorem findAt_eq_none {k : κ} (h : findAt rank p xs k = none) {y : α} (hy : y ∈ xs) (hp : p y) :
    rank y ≠ k := by
  intro hrank
  exact List.find?_eq_none.mp h y hy (decide_eq_true ⟨hrank, hp⟩)

variable [LE κ] [LT κ] [Std.IsPreorder κ] [Std.LawfulOrderLT κ] {ranks : List κ}

/-- An entry of a greater rank would have been found before. -/
theorem firstBest_of_search (hsorted : ranks.Pairwise (· > ·)) (hall : ∀ y ∈ xs, rank y ∈ ranks)
    (h : search rank p ranks xs = some x) : FirstBest rank p xs x := by
  obtain ⟨greater, k, less, hranks, hfound, hgreater⟩ := List.findSome?_eq_some_iff.mp h
  obtain ⟨hrank, hp, hfirst⟩ := findAt_eq_some hfound
  refine ⟨hp, ?_, hfirst⟩
  intro y hy hpy
  have hmem := hall y hy
  rw [hranks] at hmem hsorted
  rw [hrank]
  rcases List.mem_append.mp hmem with hbefore | hafter
  · exact absurd rfl (findAt_eq_none (hgreater _ hbefore) hy hpy)
  · rcases List.mem_cons.mp hafter with hsame | hless
    · rw [hsame]
      exact Std.le_refl k
    · have htail := List.pairwise_cons.mp (List.pairwise_append.mp hsorted).2.1
      exact Std.le_of_lt (htail.1 _ hless)

omit [LE κ] [LT κ] [Std.IsPreorder κ] [Std.LawfulOrderLT κ] in
theorem search_eq_none_iff (hall : ∀ y ∈ xs, rank y ∈ ranks) :
    search rank p ranks xs = none ↔ ∀ y ∈ xs, ¬ p y := by
  constructor
  · intro h y hy hp
    exact findAt_eq_none (List.findSome?_eq_none_iff.mp h _ (hall y hy)) hy hp rfl
  · intro h
    apply List.findSome?_eq_none_iff.mpr
    intro k _
    apply List.find?_eq_none.mpr
    intro y hy hmatch
    exact h y hy (of_decide_eq_true hmatch).2

end Search

section Masks

variable {w n : ℕ}

/-- The leading n bits of x and y are the same. -/
def Agree (n : ℕ) (x y : BitVec w) : Prop := ∀ i < n, x.getMsbD i = y.getMsbD i

instance (n : ℕ) (x y : BitVec w) : Decidable (Agree n x y) :=
  inferInstanceAs (Decidable (∀ i < n, x.getMsbD i = y.getMsbD i))

/-- The mask that keeps the leading n bits. -/
def highBits (w n : ℕ) : BitVec w := BitVec.allOnes w <<< (w - n)

theorem getMsbD_and_highBits (h : n ≤ w) (x : BitVec w) (i : ℕ) :
    (x &&& highBits w n).getMsbD i = (x.getMsbD i && decide (i < n)) := by
  have hbit : i + (w - n) < w ↔ i < n := by omega
  rw [BitVec.getMsbD_and, highBits, BitVec.getMsbD_shiftLeft, BitVec.getMsbD_allOnes,
    decide_eq_decide.mpr hbit]

theorem and_highBits_eq_iff (h : n ≤ w) (x y : BitVec w) :
    x &&& highBits w n = y &&& highBits w n ↔ Agree n x y := by
  constructor
  · intro heq i hi
    have hbit := congrArg (fun z => z.getMsbD i) heq
    simpa [getMsbD_and_highBits h, hi] using hbit
  · intro hagree
    apply BitVec.eq_of_getMsbD_eq
    intro i _
    rw [getMsbD_and_highBits h, getMsbD_and_highBits h]
    by_cases hi : i < n
    · rw [hagree i hi]
    · simp [hi]

end Masks

end Sponge.LongestMatch
