import Mathlib.Order.Interval.Finset.Nat
import Mathlib.Tactic.SplitIfs
import Sponge.Excerpts
import Sponge.StreamReassembler

/-!
What `merge` does to a list of chunks that do not touch each other.
Two chunks touch when their closed intervals meet. Either one stored chunk
contains the new one, and nothing changes, or every stored chunk that touches the
new one is taken out of the list and joined to it. The bounds of the new chunk
stay the original ones during the loop; that is right because at most one stored
chunk can reach over each end.
-/
namespace Sponge.ChunkMerge

open Words Excerpts StreamReassembler

/-- The closed intervals of the two chunks are disjoint. -/
def Apart (c d : Chunk) : Prop := c.stop < d.index ∨ d.stop < c.index

instance : Std.Symm Apart := ⟨fun _ _ h => Or.symm h⟩

/-- The chunk meets the closed interval from lo to hi. -/
def Touches (lo hi : ℕ) (c : Chunk) : Prop := lo ≤ c.stop ∧ c.index ≤ hi

instance (lo hi : ℕ) : DecidablePred (Touches lo hi) :=
  fun c => inferInstanceAs (Decidable (lo ≤ c.stop ∧ c.index ≤ hi))

/-- The chunk contains the interval from lo to hi. -/
def Contains (lo hi : ℕ) (c : Chunk) : Prop := c.index ≤ lo ∧ hi ≤ c.stop

/-- The bytes held in a list of chunks. -/
def byteCount : List Chunk → ℕ
  | [] => 0
  | c :: cs => c.data.length + byteCount cs

theorem byteCount_append (cs ds : List Chunk) :
    byteCount (cs ++ ds) = byteCount cs + byteCount ds := by
  induction cs with
  | nil => simp [byteCount]
  | cons c cs ih =>
    simp only [List.cons_append, byteCount, ih]
    omega

/-- The stored chunks that `merge` leaves in the list. -/
def untouched (lo hi : ℕ) (cs : List Chunk) : List Chunk :=
  cs.filter (fun c => ¬ Touches lo hi c)

theorem untouched_cons_of_touches {lo hi : ℕ} {c : Chunk} (h : Touches lo hi c)
    (cs : List Chunk) : untouched lo hi (c :: cs) = untouched lo hi cs := by
  simp [untouched, h]

theorem untouched_cons_of_not {lo hi : ℕ} {c : Chunk} (h : ¬ Touches lo hi c)
    (cs : List Chunk) : untouched lo hi (c :: cs) = c :: untouched lo hi cs := by
  simp [untouched, h]

theorem mem_untouched {lo hi : ℕ} {cs : List Chunk} {c : Chunk} :
    c ∈ untouched lo hi cs ↔ c ∈ cs ∧ ¬ Touches lo hi c := by
  simp [untouched]

/-- The chunk m is acc joined with the chunks of cs that touch the new chunk. -/
structure Absorbs (lo hi : ℕ) (cs : List Chunk) (acc m : Chunk) : Prop where
  index_eq : m.index = acc.index ∨ ∃ c ∈ cs, Touches lo hi c ∧ m.index = c.index
  stop_eq : m.stop = acc.stop ∨ ∃ c ∈ cs, Touches lo hi c ∧ m.stop = c.stop
  index_le : m.index ≤ acc.index
  le_stop : acc.stop ≤ m.stop
  covers : ∀ p, (m.index ≤ p ∧ p < m.stop) ↔
    (acc.index ≤ p ∧ p < acc.stop) ∨ ∃ c ∈ cs, Touches lo hi c ∧ c.index ≤ p ∧ p < c.stop
  excerpt : ∀ S, IsExcerpt S acc.index acc.data → (∀ c ∈ cs, IsExcerpt S c.index c.data) →
    IsExcerpt S m.index m.data

theorem Absorbs.nil (lo hi : ℕ) (acc : Chunk) : Absorbs lo hi [] acc acc where
  index_eq := Or.inl rfl
  stop_eq := Or.inl rfl
  index_le := Nat.le_refl _
  le_stop := Nat.le_refl _
  covers p := by simp
  excerpt S h _ := h

theorem Absorbs.skip {lo hi : ℕ} {cur : Chunk} {cs : List Chunk} {acc m : Chunk}
    (hcur : ¬ Touches lo hi cur) (h : Absorbs lo hi cs acc m) :
    Absorbs lo hi (cur :: cs) acc m where
  index_eq := by simpa [hcur] using h.index_eq
  stop_eq := by simpa [hcur] using h.stop_eq
  index_le := h.index_le
  le_stop := h.le_stop
  covers p := by simpa [hcur] using h.covers p
  excerpt S hacc hcs := h.excerpt S hacc (fun c hc => hcs c (List.mem_cons_of_mem _ hc))

/-- The chunk acc' is acc and cur in one. -/
structure Joins (acc cur acc' : Chunk) : Prop where
  index_eq : acc'.index = min acc.index cur.index
  stop_eq : acc'.stop = max acc.stop cur.stop
  excerpt : ∀ S, IsExcerpt S acc.index acc.data → IsExcerpt S cur.index cur.data →
    IsExcerpt S acc'.index acc'.data

theorem joins_inside {acc cur : Chunk} (hindex : acc.index ≤ cur.index)
    (hstop : cur.stop ≤ acc.stop) : Joins acc cur acc where
  index_eq := (Nat.min_eq_left hindex).symm
  stop_eq := (Nat.max_eq_left hstop).symm
  excerpt _ hacc _ := hacc

/-- The front of cur that stands before acc is put before it. -/
theorem joins_left {acc cur : Chunk} (hindex : cur.index ≤ acc.index)
    (hmeet : acc.index ≤ cur.stop) (hstop : cur.stop ≤ acc.stop) :
    Joins acc cur ⟨cur.data.take (acc.index - cur.index) ++ acc.data, cur.index⟩ := by
  have hstopcur : cur.stop = cur.index + cur.data.length := rfl
  have hstopacc : acc.stop = acc.index + acc.data.length := rfl
  have hlen : (cur.data.take (acc.index - cur.index)).length = acc.index - cur.index := by
    rw [List.length_take]
    omega
  refine ⟨(Nat.min_eq_right hindex).symm, ?_, ?_⟩
  · rw [Nat.max_eq_left hstop]
    simp only [Chunk.stop, List.length_append, hlen]
    omega
  · intro S hacc hcur
    apply (hcur.take (acc.index - cur.index)).append
    rw [hlen, Nat.add_sub_cancel' hindex]
    exact hacc

/-- The back of cur that stands behind acc is put behind it. -/
theorem joins_right {acc cur : Chunk} (hindex : acc.index ≤ cur.index)
    (hmeet : cur.index ≤ acc.stop) (hstop : acc.stop ≤ cur.stop) :
    Joins acc cur ⟨acc.data ++ cur.data.drop (acc.stop - cur.index), acc.index⟩ := by
  have hstopcur : cur.stop = cur.index + cur.data.length := rfl
  have hstopacc : acc.stop = acc.index + acc.data.length := rfl
  refine ⟨(Nat.min_eq_left hindex).symm, ?_, ?_⟩
  · rw [Nat.max_eq_right hstop]
    simp only [Chunk.stop, List.length_append, List.length_drop]
    omega
  · intro S hacc hcur
    apply hacc.append
    rw [← hstopacc]
    have hback := hcur.drop (acc.stop - cur.index)
    rwa [Nat.add_sub_cancel' hmeet] at hback

/-- One step of the loop: cur is joined to acc, giving acc'. -/
theorem Absorbs.join {lo hi : ℕ} {cur : Chunk} {cs : List Chunk} {acc acc' m : Chunk}
    (hcur : Touches lo hi cur) (hlo : acc.index ≤ lo) (hhi : hi ≤ acc.stop)
    (hjoins : Joins acc cur acc') (h : Absorbs lo hi cs acc' m) :
    Absorbs lo hi (cur :: cs) acc m where
  index_eq := by
    have hindex := hjoins.index_eq
    rcases h.index_eq with heq | ⟨c, hc, ht, heq⟩
    · rcases Nat.le_total acc.index cur.index with hle | hge
      · exact Or.inl (by omega)
      · exact Or.inr ⟨cur, List.mem_cons_self .., hcur, by omega⟩
    · exact Or.inr ⟨c, List.mem_cons_of_mem _ hc, ht, heq⟩
  stop_eq := by
    have hstop := hjoins.stop_eq
    rcases h.stop_eq with heq | ⟨c, hc, ht, heq⟩
    · rcases Nat.le_total cur.stop acc.stop with hle | hge
      · exact Or.inl (by omega)
      · exact Or.inr ⟨cur, List.mem_cons_self .., hcur, by omega⟩
    · exact Or.inr ⟨c, List.mem_cons_of_mem _ hc, ht, heq⟩
  index_le := by
    have hle := h.index_le
    rw [hjoins.index_eq] at hle
    exact Nat.le_trans hle (Nat.min_le_left _ _)
  le_stop := by
    have hle := h.le_stop
    rw [hjoins.stop_eq] at hle
    exact Nat.le_trans (Nat.le_max_left _ _) hle
  covers p := by
    obtain ⟨hlow, hhigh⟩ := hcur
    have hindex := hjoins.index_eq
    have hstop := hjoins.stop_eq
    have hjoin : (acc'.index ≤ p ∧ p < acc'.stop) ↔
        (acc.index ≤ p ∧ p < acc.stop) ∨ (cur.index ≤ p ∧ p < cur.stop) := by
      omega
    rw [h.covers, hjoin, or_assoc]
    simp only [List.mem_cons, exists_eq_or_imp]
    have htouch : Touches lo hi cur := ⟨hlow, hhigh⟩
    simp [htouch]
  excerpt S hacc hcs :=
    h.excerpt S (hjoins.excerpt S hacc (hcs cur (List.mem_cons_self ..)))
      (fun c hc => hcs c (List.mem_cons_of_mem _ hc))

theorem mergeLoop_untouched {lo hi : ℕ} (hlohi : lo ≤ hi) {cur : Chunk}
    (htouch : ¬ Touches lo hi cur) (rest : List Chunk) (acc : Chunk) (n : ℕ) :
    mergeLoop lo hi (cur :: rest) acc n =
      { mergeLoop lo hi rest acc n with chunks := cur :: (mergeLoop lo hi rest acc n).chunks } := by
  have hle : cur.index ≤ cur.stop := Nat.le_add_right _ _
  unfold Touches at htouch
  simp only [mergeLoop]
  rw [if_neg (by omega), if_neg (by omega), if_neg (by omega), if_neg (by omega)]

/-- A chunk that contains the new one is the only one the new one touches. -/
theorem not_touches_of_contains {lo hi : ℕ} {c d : Chunk}
    (hc : Contains lo hi c) (hapart : Apart d c) : ¬ Touches lo hi d := by
  rintro ⟨h1, h2⟩
  obtain ⟨h3, h4⟩ := hc
  unfold Apart at hapart
  omega

/-- The early exit leaves everything as it was. -/
theorem mergeLoop_contained {lo hi : ℕ} (hlohi : lo ≤ hi) (cs : List Chunk) (acc : Chunk) (n : ℕ)
    (hpair : cs.Pairwise Apart) (hcontains : ∃ c ∈ cs, Contains lo hi c) :
    mergeLoop lo hi cs acc n = ⟨false, cs, acc, n⟩ := by
  induction cs with
  | nil =>
    obtain ⟨c, hc, -⟩ := hcontains
    simp at hc
  | cons cur rest ih =>
    obtain ⟨hhead, htail⟩ := List.pairwise_cons.mp hpair
    by_cases hcur : Contains lo hi cur
    · exact if_pos hcur
    · obtain ⟨c, hc, hcon⟩ := hcontains
      have hrest : c ∈ rest := by
        rcases List.mem_cons.mp hc with rfl | h
        · exact absurd hcon hcur
        · exact h
      have hnot := not_touches_of_contains hcon (hhead c hrest)
      rw [mergeLoop_untouched hlohi hnot, ih htail ⟨c, hrest, hcon⟩]

/-- The acc chunk of the loop: it covers the new chunk, and at each end either it
is still the original one or no chunk that is left reaches over that end. -/
structure LoopInv (lo hi : ℕ) (cs : List Chunk) (acc : Chunk) : Prop where
  index_le : acc.index ≤ lo
  le_stop : hi ≤ acc.stop
  left : acc.index = lo ∨ ∀ c ∈ cs, ¬ (c.index ≤ lo ∧ lo ≤ c.stop)
  right : acc.stop = hi ∨ ∀ c ∈ cs, ¬ (c.index ≤ hi ∧ hi ≤ c.stop)

theorem LoopInv.tail {lo hi : ℕ} {cur : Chunk} {cs : List Chunk} {acc : Chunk}
    (h : LoopInv lo hi (cur :: cs) acc) : LoopInv lo hi cs acc where
  index_le := h.index_le
  le_stop := h.le_stop
  left := h.left.imp_right (fun hall c hc => hall c (List.mem_cons_of_mem _ hc))
  right := h.right.imp_right (fun hall c hc => hall c (List.mem_cons_of_mem _ hc))

/-- A chunk cur that reaches over the left end is the only one to do so. -/
theorem LoopInv.joinLeft {lo hi : ℕ} {cur : Chunk} {cs : List Chunk} {acc acc' : Chunk}
    (h : LoopInv lo hi (cur :: cs) acc) (hapart : ∀ c ∈ cs, Apart cur c)
    (hcur : cur.index ≤ lo ∧ lo ≤ cur.stop) (hindex : acc'.index = cur.index)
    (hstop : acc'.stop = acc.stop) : LoopInv lo hi cs acc' where
  index_le := by
    rw [hindex]
    exact hcur.1
  le_stop := by
    rw [hstop]
    exact h.le_stop
  left := by
    right
    intro c hc hover
    have hap := hapart c hc
    unfold Apart at hap
    omega
  right := by
    rw [hstop]
    exact h.tail.right

theorem LoopInv.joinRight {lo hi : ℕ} {cur : Chunk} {cs : List Chunk} {acc acc' : Chunk}
    (h : LoopInv lo hi (cur :: cs) acc) (hapart : ∀ c ∈ cs, Apart cur c)
    (hcur : cur.index ≤ hi ∧ hi ≤ cur.stop) (hindex : acc'.index = acc.index)
    (hstop : acc'.stop = cur.stop) : LoopInv lo hi cs acc' where
  index_le := by
    rw [hindex]
    exact h.index_le
  le_stop := by
    rw [hstop]
    exact hcur.2
  left := by
    rw [hindex]
    exact h.tail.left
  right := by
    right
    intro c hc hover
    have hap := hapart c hc
    unfold Apart at hap
    omega

/-- One round of the loop at a chunk that touches the new one: the chunk leaves the list and
joins acc. The loop cuts at lo and hi, which are still the ends of acc on the side it cuts. -/
theorem mergeLoop_touched {lo hi : ℕ} {cur : Chunk} {rest : List Chunk} {acc : Chunk}
    (hapart : ∀ c ∈ rest, Apart cur c) (hnot : ¬ Contains lo hi cur) (htouch : Touches lo hi cur)
    (hinv : LoopInv lo hi (cur :: rest) acc) (n : ℕ) :
    ∃ acc', Joins acc cur acc' ∧ LoopInv lo hi rest acc' ∧
      mergeLoop lo hi (cur :: rest) acc n =
        mergeLoop lo hi rest acc' (wrapSub 64 n cur.data.length) := by
  obtain ⟨hlow, hhigh⟩ := htouch
  have hbelow := hinv.index_le
  have habove := hinv.le_stop
  unfold Contains at hnot
  by_cases hinside : lo ≤ cur.index ∧ cur.stop ≤ hi
  · refine ⟨acc, joins_inside (by omega) (by omega), hinv.tail, ?_⟩
    rw [mergeLoop, if_neg hnot, if_pos hinside]
  by_cases hleft : cur.index ≤ lo ∧ lo ≤ cur.stop
  · have hindex : acc.index = lo := by
      rcases hinv.left with h | h
      · exact h
      · exact absurd hleft (h cur (List.mem_cons_self ..))
    have hjoins : Joins acc cur _ := joins_left (by omega) (by omega) (by omega)
    refine ⟨_, hjoins, hinv.joinLeft hapart hleft rfl ?_, ?_⟩
    · rw [hjoins.stop_eq]
      omega
    · rw [mergeLoop, if_neg hnot, if_neg hinside, if_pos hleft, hindex]
  · have hright : lo ≤ cur.index ∧ cur.index ≤ hi := by omega
    have hstop : acc.stop = hi := by
      rcases hinv.right with h | h
      · exact h
      · exact absurd ⟨hhigh, by omega⟩ (h cur (List.mem_cons_self ..))
    have hjoins : Joins acc cur _ := joins_right (by omega) (by omega) (by omega)
    refine ⟨_, hjoins, hinv.joinRight hapart ⟨hhigh, by omega⟩ rfl ?_, ?_⟩
    · rw [hjoins.stop_eq]
      omega
    · rw [mergeLoop, if_neg hnot, if_neg hinside, if_neg hleft, if_pos hright, hstop]

/-- Without a containing chunk, the loop absorbs what touches and keeps the rest. -/
theorem mergeLoop_absorbs {lo hi : ℕ} (hlohi : lo ≤ hi) (cs : List Chunk) (acc : Chunk) (k : ℕ)
    (hpair : cs.Pairwise Apart) (hnone : ∀ c ∈ cs, ¬ Contains lo hi c)
    (hinv : LoopInv lo hi cs acc) :
    ∃ m, mergeLoop lo hi cs acc (k + byteCount cs) =
        ⟨true, untouched lo hi cs, m, k + byteCount (untouched lo hi cs)⟩ ∧
      Absorbs lo hi cs acc m := by
  induction cs generalizing acc k with
  | nil => exact ⟨acc, rfl, Absorbs.nil lo hi acc⟩
  | cons cur rest ih =>
    obtain ⟨hhead, htail⟩ := List.pairwise_cons.mp hpair
    have hrest : ∀ c ∈ rest, ¬ Contains lo hi c :=
      fun c hc => hnone c (List.mem_cons_of_mem _ hc)
    by_cases htouch : Touches lo hi cur
    · have hsub : wrapSub 64 (k + byteCount (cur :: rest)) cur.data.length =
          k + byteCount rest := by
        simp only [byteCount]
        rw [wrapSub_of_le (by omega)]
        omega
      obtain ⟨acc', hjoins, hinv', hloop⟩ := mergeLoop_touched hhead
        (hnone cur (List.mem_cons_self ..)) htouch hinv (k + byteCount (cur :: rest))
      obtain ⟨m, hm, habs⟩ := ih acc' k htail hrest hinv'
      refine ⟨m, ?_, habs.join htouch hinv.index_le hinv.le_stop hjoins⟩
      rw [untouched_cons_of_touches htouch, hloop, hsub, hm]
    · obtain ⟨m, hm, habs⟩ := ih acc (k + cur.data.length) htail hrest hinv.tail
      refine ⟨m, ?_, habs.skip htouch⟩
      rw [untouched_cons_of_not htouch, mergeLoop_untouched hlohi htouch]
      simp only [byteCount]
      rw [← Nat.add_assoc k, hm]
      simp only [Nat.add_assoc]

/-- An empty chunk in front of all others touches none of them. -/
theorem merge_empty {cs : List Chunk} {lo : ℕ} (h : ∀ c ∈ cs, lo < c.index) (n : ℕ) :
    merge cs ⟨[], lo⟩ n = ⟨true, cs, ⟨[], lo⟩, n⟩ := by
  change mergeLoop lo lo cs ⟨[], lo⟩ n = _
  induction cs with
  | nil => rfl
  | cons cur rest ih =>
    obtain ⟨hcur, hrest⟩ := List.forall_mem_cons.mp h
    have hnot : ¬ Touches lo lo cur := fun ht => Nat.not_le.mpr hcur ht.2
    rw [mergeLoop_untouched (Nat.le_refl lo) hnot, ih hrest]

theorem merge_contained {cs : List Chunk} {c : Chunk} {n : ℕ} (hpair : cs.Pairwise Apart)
    (hcontains : ∃ d ∈ cs, Contains c.index c.stop d) : merge cs c n = ⟨false, cs, c, n⟩ :=
  mergeLoop_contained (Nat.le_add_right _ _) cs c n hpair hcontains

theorem merge_absorbs {cs : List Chunk} {c : Chunk} (hpair : cs.Pairwise Apart)
    (hnone : ∀ d ∈ cs, ¬ Contains c.index c.stop d) :
    ∃ m, merge cs c (byteCount cs) =
        ⟨true, untouched c.index c.stop cs, m, byteCount (untouched c.index c.stop cs)⟩ ∧
      Absorbs c.index c.stop cs c m := by
  have h := mergeLoop_absorbs (show c.index ≤ c.stop from Nat.le_add_right _ _) cs c 0 hpair hnone
    ⟨Nat.le_refl _, Nat.le_refl _, Or.inl rfl, Or.inl rfl⟩
  simp only [Nat.zero_add] at h
  exact h

/-- What is left in the list does not touch the joined chunk. -/
theorem Absorbs.apart {lo hi : ℕ} {cs : List Chunk} {acc m d : Chunk}
    (h : Absorbs lo hi cs acc m) (hacc : acc.index = lo ∧ acc.stop = hi)
    (hpair : ∀ c ∈ cs, Touches lo hi c → Apart d c) (hd : ¬ Touches lo hi d) : Apart d m := by
  have hle : d.index ≤ d.stop := Nat.le_add_right _ _
  unfold Touches at hd
  unfold Apart
  rcases Nat.lt_or_ge d.stop lo with hleft | hright
  · left
    rcases h.index_eq with heq | ⟨c, hc, ht, heq⟩
    · omega
    · have hap := hpair c hc ht
      unfold Apart at hap
      unfold Touches at ht
      omega
  · right
    rcases h.stop_eq with heq | ⟨c, hc, ht, heq⟩
    · omega
    · have hap := hpair c hc ht
      unfold Apart at hap
      unfold Touches at ht
      omega

end Sponge.ChunkMerge
