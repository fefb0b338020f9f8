import Sponge.ChunkMerge

/-!
Invariants of the reassembler and what one `pushSubstring` does to them.
`Rep` is the representation invariant and holds for arbitrary, even contradictory,
substrings. `Held` is the set of positions the reassembler has: a push adds those in
the window. `Content S` says that the output and every waiting chunk are excerpts of
the stream S.
-/
namespace Sponge.Reassembly

open Words Excerpts StreamReassembler ChunkMerge

structure Rep (r : StreamReassembler) : Prop where
  output_valid : r.output.Valid
  capacity_eq : r.output.maxCapacity = r.capacity
  first_eq : r.firstUnasmb = r.output.bytesWritten
  apart : r.unasmb.Pairwise Apart
  first_lt : ∀ c ∈ r.unasmb, r.firstUnasmb < c.index
  stop_le : ∀ c ∈ r.unasmb, c.stop ≤ r.output.bytesRead + r.capacity
  count_eq : r.nUnasmbBytes = byteCount r.unasmb

theorem new_rep (capacity : ℕ) : Rep (new capacity) where
  output_valid := ByteStream.new_valid capacity
  capacity_eq := rfl
  first_eq := rfl
  apart := List.Pairwise.nil
  first_lt c hc := by simp [new] at hc
  stop_le c hc := by simp [new] at hc
  count_eq := rfl

/-- The reassembler has the byte at position p, written out or waiting. -/
def Held (r : StreamReassembler) (p : ℕ) : Prop :=
  p < r.firstUnasmb ∨ ∃ c ∈ r.unasmb, c.index ≤ p ∧ p < c.stop

/-- Output and waiting chunks are excerpts of S at their positions. -/
structure Content (S : List UInt8) (r : StreamReassembler) : Prop where
  first_le : r.firstUnasmb ≤ S.length
  output_eq : r.output.buffered = (S.take r.firstUnasmb).drop r.output.bytesRead
  excerpts : ∀ c ∈ r.unasmb, IsExcerpt S c.index c.data

theorem Rep.firstUnacceptable_eq {r : StreamReassembler} (h : Rep r) :
    r.firstUnacceptable = r.output.bytesRead + r.capacity := by
  have hw := h.output_valid.written_eq
  have hf := h.first_eq
  unfold firstUnacceptable
  rw [wrapSub_of_le] <;>
    simp only [ByteStream.bufferSize, ByteStream.bytesWritten, ByteStream.bytesRead] at * <;>
    omega

theorem Rep.first_le {r : StreamReassembler} (h : Rep r) :
    r.firstUnasmb ≤ r.output.bytesRead + r.capacity := by
  have hw := h.output_valid.written_eq
  have hs := h.output_valid.size_le
  have hc := h.capacity_eq
  have hf := h.first_eq
  simp only [ByteStream.bytesWritten, ByteStream.bytesRead] at *
  omega

/-- What a push of a chunk inside the window may do to the reassembler, the test for
the end of the stream left aside. -/
structure Stored (r : StreamReassembler) (c : Chunk) (r' : StreamReassembler) : Prop where
  rep : Rep r'
  held_iff : ∀ p, Held r' p ↔ Held r p ∨ (c.index ≤ p ∧ p < c.stop)
  capacity_eq : r'.capacity = r.capacity
  bytesRead_eq : r'.output.bytesRead = r.output.bytesRead
  eofSet_eq : r'.eofSet = r.eofSet
  lastByte_eq : r'.lastByte = r.lastByte
  ended_eq : r'.output.inputEnded = r.output.inputEnded
  first_le : r.firstUnasmb ≤ r'.firstUnasmb
  content : ∀ S, Content S r → IsExcerpt S c.index c.data → Content S r'

theorem stored_nil {r : StreamReassembler} (h : Rep r) (i : ℕ) : Stored r ⟨[], i⟩ r where
  rep := h
  held_iff p := by
    constructor
    · exact Or.inl
    · rintro (hp | ⟨hlow, hhigh⟩)
      · exact hp
      · exact absurd hhigh (Nat.not_lt.mpr hlow)
  capacity_eq := rfl
  bytesRead_eq := rfl
  eofSet_eq := rfl
  lastByte_eq := rfl
  ended_eq := rfl
  first_le := Nat.le_refl _
  content _ hcontent _ := hcontent

/-- A chunk that some stored chunk contains brings nothing new. -/
theorem stored_of_contains {r : StreamReassembler} (h : Rep r) {c : Chunk}
    (hcontains : ∃ d ∈ r.unasmb, Contains c.index c.stop d) : Stored r c r where
  rep := h
  held_iff p := by
    constructor
    · exact Or.inl
    · rintro (hp | hp)
      · exact hp
      · obtain ⟨d, hd, h1, h2⟩ := hcontains
        exact Or.inr ⟨d, hd, by omega, by omega⟩
  capacity_eq := rfl
  bytesRead_eq := rfl
  eofSet_eq := rfl
  lastByte_eq := rfl
  ended_eq := rfl
  first_le := Nat.le_refl _
  content S hS _ := hS

/-- The positions of the list after a merge, together with the joined chunk. -/
theorem held_after_merge {cs : List Chunk} {c m : Chunk}
    (habs : Absorbs c.index c.stop cs c m) (p : ℕ) :
    ((∃ d ∈ untouched c.index c.stop cs, d.index ≤ p ∧ p < d.stop) ∨ (m.index ≤ p ∧ p < m.stop)) ↔
      (∃ d ∈ cs, d.index ≤ p ∧ p < d.stop) ∨ (c.index ≤ p ∧ p < c.stop) := by
  rw [habs.covers]
  constructor
  · rintro (⟨d, hd, hp⟩ | hp | ⟨d, hd, -, hp⟩)
    · exact Or.inl ⟨d, (mem_untouched.mp hd).1, hp⟩
    · exact Or.inr hp
    · exact Or.inl ⟨d, hd, hp⟩
  · rintro (⟨d, hd, hp⟩ | hp)
    · by_cases ht : Touches c.index c.stop d
      · exact Or.inr (Or.inr ⟨d, hd, ht, hp⟩)
      · exact Or.inl ⟨d, mem_untouched.mpr ⟨hd, ht⟩, hp⟩
    · exact Or.inr (Or.inl hp)

section Absorb

variable {r : StreamReassembler} {c m : Chunk}

/-- The reassembler right after `merge` has taken the touching chunks out. -/
def afterMerge (r : StreamReassembler) (c : Chunk) : StreamReassembler :=
  { r with
    unasmb := untouched c.index c.stop r.unasmb
    nUnasmbBytes := byteCount (untouched c.index c.stop r.unasmb) }

theorem untouched_apart (h : Rep r) (habs : Absorbs c.index c.stop r.unasmb c m) :
    ∀ d ∈ untouched c.index c.stop r.unasmb, Apart d m := by
  intro d hd
  obtain ⟨hmem, hnot⟩ := mem_untouched.mp hd
  refine habs.apart ⟨rfl, rfl⟩ ?_ hnot
  intro e he ht
  have hne : d ≠ e := by
    rintro rfl
    exact hnot ht
  exact h.apart.forall hmem he hne

theorem first_le_index (h : Rep r) (hfirst : r.firstUnasmb ≤ c.index)
    (habs : Absorbs c.index c.stop r.unasmb c m) : r.firstUnasmb ≤ m.index := by
  rcases habs.index_eq with heq | ⟨d, hd, -, heq⟩
  · omega
  · have := h.first_lt d hd
    omega

theorem stop_le_window (h : Rep r) (hstop : c.stop ≤ r.output.bytesRead + r.capacity)
    (habs : Absorbs c.index c.stop r.unasmb c m) :
    m.stop ≤ r.output.bytesRead + r.capacity := by
  rcases habs.stop_eq with heq | ⟨d, hd, -, heq⟩
  · omega
  · have := h.stop_le d hd
    omega

/-- A chunk in the window that starts where the output ends finds room in it. -/
theorem write_fits (h : Rep r) (hstop : m.stop ≤ r.output.bytesRead + r.capacity)
    (hm : m.index = r.firstUnasmb) : (r.output.write m.data).1 = m.data.length := by
  have hwritten := h.output_valid.written_eq
  have hsize := h.output_valid.size_le
  have hfirst := h.first_eq
  have hcap := h.capacity_eq
  have hmstop : m.stop = m.index + m.data.length := rfl
  simp only [ByteStream.write, h.output_valid.remainingCapacity_eq]
  simp only [ByteStream.bytesWritten, ByteStream.bytesRead] at *
  omega

theorem buffered_write (h : Rep r) {S data : List UInt8} (hS : Content S r)
    (hfits : (r.output.write data).1 = data.length) (hexc : IsExcerpt S r.firstUnasmb data) :
    (r.output.write data).2.buffered =
      (S.take (r.firstUnasmb + data.length)).drop r.output.bytesRead := by
  have hwritten := h.output_valid.written_eq
  have hfirst := h.first_eq
  have hread : r.output.bytesRead ≤ (S.take r.firstUnasmb).length := by
    rw [List.length_take, Nat.min_eq_left hS.first_le]
    simp only [ByteStream.bytesWritten, ByteStream.bytesRead] at *
    omega
  rw [h.output_valid.write_buffered, hfits, List.take_length, hS.output_eq, ← hexc.take_append,
    List.drop_append_of_le_length hread]

/-- The joined chunk starts where the output ends: it is written out whole. -/
theorem stored_write (h : Rep r) (hstop : c.stop ≤ r.output.bytesRead + r.capacity)
    (habs : Absorbs c.index c.stop r.unasmb c m) (hm : m.index = r.firstUnasmb) :
    Stored r c ((afterMerge r c).place m) := by
  have hplace : (afterMerge r c).place m =
      { afterMerge r c with
        output := (r.output.write m.data).2
        firstUnasmb := r.firstUnasmb + m.data.length } := if_pos hm
  have hfits := write_fits h (stop_le_window h hstop habs) hm
  have hmstop : m.stop = m.index + m.data.length := rfl
  rw [hplace]
  refine ⟨⟨h.output_valid.write_valid _, h.capacity_eq, ?_, ?_, ?_, ?_, rfl⟩, ?_, rfl, rfl, rfl,
    rfl, rfl, Nat.le_add_right _ _, ?_⟩
  · change _ = r.output.nBytesWritten + (r.output.write m.data).1
    rw [hfits]
    exact congrArg (· + m.data.length) h.first_eq
  · exact h.apart.filter _
  · intro d hd
    have hlt := h.first_lt d (mem_untouched.mp hd).1
    have hle : d.index ≤ d.stop := Nat.le_add_right _ _
    have hap := untouched_apart h habs d hd
    unfold Apart at hap
    change r.firstUnasmb + m.data.length < d.index
    omega
  · intro d hd
    exact h.stop_le d (mem_untouched.mp hd).1
  · intro p
    have hh := held_after_merge habs p
    change p < r.firstUnasmb + m.data.length ∨ _ ↔ (p < r.firstUnasmb ∨ _) ∨ _
    rw [or_assoc, ← hh]
    have hsplit : p < r.firstUnasmb + m.data.length ↔
        p < r.firstUnasmb ∨ (m.index ≤ p ∧ p < m.stop) := by omega
    rw [hsplit, or_assoc, or_comm (b := (m.index ≤ p ∧ p < m.stop))]
    rfl
  · intro S hS hexc
    have hmexc : IsExcerpt S r.firstUnasmb m.data := by
      rw [← hm]
      exact habs.excerpt S hexc hS.excerpts
    refine ⟨?_, buffered_write h hS hfits hmexc, ?_⟩
    · change r.firstUnasmb + m.data.length ≤ S.length
      by_cases hd : m.data = []
      · rw [hd]
        exact hS.first_le
      · exact hmexc.stop_le hd
    · intro d hd
      exact hS.excerpts d (mem_untouched.mp hd).1

/-- The joined chunk starts later: it waits at the end of the list. -/
theorem stored_wait (h : Rep r) (hfirst : r.firstUnasmb ≤ c.index)
    (hstop : c.stop ≤ r.output.bytesRead + r.capacity)
    (habs : Absorbs c.index c.stop r.unasmb c m) (hm : m.index ≠ r.firstUnasmb) :
    Stored r c ((afterMerge r c).place m) := by
  have hplace : (afterMerge r c).place m =
      { afterMerge r c with
        nUnasmbBytes := byteCount (untouched c.index c.stop r.unasmb) + m.data.length
        unasmb := untouched c.index c.stop r.unasmb ++ [m] } := if_neg hm
  have hlow := first_le_index h hfirst habs
  rw [hplace]
  refine ⟨⟨h.output_valid, h.capacity_eq, h.first_eq, ?_, ?_, ?_, ?_⟩, ?_, rfl, rfl, rfl, rfl, rfl,
    Nat.le_refl _, ?_⟩
  · refine List.pairwise_append.mpr ⟨h.apart.filter _, List.pairwise_singleton _ _, ?_⟩
    intro d hd e he
    rw [List.mem_singleton.mp he]
    exact untouched_apart h habs d hd
  · intro d hd
    rcases List.mem_append.mp hd with hd | hd
    · exact h.first_lt d (mem_untouched.mp hd).1
    · rw [List.mem_singleton.mp hd]
      change r.firstUnasmb < m.index
      omega
  · intro d hd
    rcases List.mem_append.mp hd with hd | hd
    · exact h.stop_le d (mem_untouched.mp hd).1
    · rw [List.mem_singleton.mp hd]
      change m.stop ≤ r.output.bytesRead + r.capacity
      exact stop_le_window h hstop habs
  · simp [byteCount_append, byteCount]
  · intro p
    have hh := held_after_merge habs p
    change p < r.firstUnasmb ∨ _ ↔ (p < r.firstUnasmb ∨ _) ∨ _
    rw [or_assoc, ← hh]
    simp only [List.mem_append, List.mem_singleton, or_and_right, exists_or, exists_eq_left]
  · intro S hS hexc
    refine ⟨hS.first_le, hS.output_eq, ?_⟩
    intro d hd
    rcases List.mem_append.mp hd with hd | hd
    · exact hS.excerpts d (mem_untouched.mp hd).1
    · rw [List.mem_singleton.mp hd]
      exact habs.excerpt S hexc hS.excerpts

/-- Merging and placing a chunk that no stored chunk contains. -/
theorem stored_place (h : Rep r) (hfirst : r.firstUnasmb ≤ c.index)
    (hstop : c.stop ≤ r.output.bytesRead + r.capacity)
    (habs : Absorbs c.index c.stop r.unasmb c m) : Stored r c ((afterMerge r c).place m) := by
  by_cases hm : m.index = r.firstUnasmb
  · exact stored_write h hstop habs hm
  · exact stored_wait h hfirst hstop habs hm

end Absorb

/-- The trimmed chunk is the part of the substring inside the window. -/
structure Trimmed (r : StreamReassembler) (data : List UInt8) (index : ℕ) (c : Chunk) : Prop where
  first_le : r.firstUnasmb ≤ c.index
  stop_le : c.stop ≤ r.output.bytesRead + r.capacity
  mem_iff : ∀ p, (c.index ≤ p ∧ p < c.stop) ↔
    r.firstUnasmb ≤ p ∧ p < r.output.bytesRead + r.capacity ∧ index ≤ p ∧ p < index + data.length
  index_eq : index ≤ r.firstUnasmb → c.index = r.firstUnasmb
  excerpt : ∀ S, IsExcerpt S index data → IsExcerpt S c.index c.data

theorem Rep.trimmed {r : StreamReassembler} (h : Rep r) (data : List UInt8) {index : ℕ}
    (hindex : index < r.firstUnacceptable) : Trimmed r data index (r.trimToWindow data index) := by
  have hle := h.first_le
  rw [h.firstUnacceptable_eq] at hindex
  -- the back is chopped first: d is what is left of the substring
  obtain ⟨d, hd, hlen, hexc⟩ : ∃ d : List UInt8,
      (if index + data.length > r.firstUnacceptable then
        data.take (r.firstUnacceptable - index) else data) = d ∧
      d.length = min data.length (r.output.bytesRead + r.capacity - index) ∧
      ∀ S, IsExcerpt S index data → IsExcerpt S index d := by
    refine ⟨_, rfl, ?_, ?_⟩
    · rw [h.firstUnacceptable_eq]
      split
      · rw [List.length_take]
        omega
      · omega
    · intro S hS
      split
      · exact hS.take _
      · exact hS
  unfold trimToWindow
  rw [hd]
  by_cases hfront : index < r.firstUnasmb
  · rw [if_pos hfront]
    have hstop : (⟨d.drop (r.firstUnasmb - index), r.firstUnasmb⟩ : Chunk).stop =
        r.firstUnasmb + (d.length - (r.firstUnasmb - index)) := by
      simp [Chunk.stop]
    refine ⟨Nat.le_refl _, ?_, ?_, fun _ => rfl, ?_⟩
    · rw [hstop]
      omega
    · intro p
      rw [hstop]
      change r.firstUnasmb ≤ p ∧ _ ↔ _
      omega
    · intro S hS
      have hdrop := (hexc S hS).drop (r.firstUnasmb - index)
      rwa [show index + (r.firstUnasmb - index) = r.firstUnasmb by omega] at hdrop
  · rw [if_neg hfront]
    have hstop : (⟨d, index⟩ : Chunk).stop = index + d.length := rfl
    refine ⟨by change r.firstUnasmb ≤ index; omega, ?_, ?_, ?_, hexc⟩
    · rw [hstop]
      omega
    · intro p
      rw [hstop]
      change index ≤ p ∧ _ ↔ _
      omega
    · intro hback
      change index = _
      omega

section Push

variable {r : StreamReassembler} (data : List UInt8) (index : ℕ) (eof : Bool)

theorem Rep.markEof (h : Rep r) :
    Rep (r.markEof data index eof) := by
  cases eof with
  | false => exact h
  | true => exact ⟨h.output_valid, h.capacity_eq, h.first_eq, h.apart, h.first_lt, h.stop_le,
      h.count_eq⟩

theorem Rep.endOutput (h : Rep r) : Rep { r with output := r.output.endInput } where
  output_valid := ⟨h.output_valid.buffer_length, h.output_valid.size_le, h.output_valid.begin_lt,
    h.output_valid.begin_zero, h.output_valid.written_eq⟩
  capacity_eq := h.capacity_eq
  first_eq := h.first_eq
  apart := h.apart
  first_lt := h.first_lt
  stop_le := h.stop_le
  count_eq := h.count_eq

theorem Rep.checkEof (h : Rep r) : Rep r.checkEof := by
  unfold StreamReassembler.checkEof
  split
  · exact h.endOutput
  · exact h

theorem markEof_eq : ∃ e l, r.markEof data index eof = { r with eofSet := e, lastByte := l } := by
  cases eof with
  | false => exact ⟨_, _, rfl⟩
  | true => exact ⟨_, _, rfl⟩

/-- The ways through a push to an open reassembler: the substring is joined with what it
touches and placed, a chunk contains it, or it lies outside of the window. -/
theorem push_moves (h : Rep r) (hopen : r.output.inputEnded = false) :
    (∃ m, (r.markEof data index eof).inWindow data index ∧
      (∀ d ∈ r.unasmb, ¬ Contains ((r.markEof data index eof).trimToWindow data index).index
        ((r.markEof data index eof).trimToWindow data index).stop d) ∧
      Absorbs ((r.markEof data index eof).trimToWindow data index).index
        ((r.markEof data index eof).trimToWindow data index).stop (r.markEof data index eof).unasmb
        ((r.markEof data index eof).trimToWindow data index) m ∧
      r.pushSubstring data index eof = ((afterMerge (r.markEof data index eof)
        ((r.markEof data index eof).trimToWindow data index)).place m).checkEof) ∨
    ((r.markEof data index eof).inWindow data index ∧
      (∃ d ∈ r.unasmb, Contains ((r.markEof data index eof).trimToWindow data index).index
        ((r.markEof data index eof).trimToWindow data index).stop d) ∧
      r.pushSubstring data index eof = r.markEof data index eof) ∨
    (¬ (r.markEof data index eof).inWindow data index ∧
      r.pushSubstring data index eof = (r.markEof data index eof).checkEof) := by
  have hrep := h.markEof data index eof
  have hlist : (r.markEof data index eof).unasmb = r.unasmb := by
    cases eof <;> rfl
  rw [← hlist]
  simp only [pushSubstring, hopen]
  generalize r.markEof data index eof = q at *
  by_cases hwin : q.inWindow data index
  · by_cases hcon : ∃ d ∈ q.unasmb,
        Contains (q.trimToWindow data index).index (q.trimToWindow data index).stop d
    · right
      left
      refine ⟨hwin, hcon, ?_⟩
      rw [if_neg Bool.false_ne_true, if_pos hwin, merge_contained hrep.apart hcon]
      rfl
    · left
      have hnone : ∀ d ∈ q.unasmb,
          ¬ Contains (q.trimToWindow data index).index (q.trimToWindow data index).stop d :=
        fun d hd hc => hcon ⟨d, hd, hc⟩
      obtain ⟨m, hm, habs⟩ := merge_absorbs hrep.apart hnone
      refine ⟨m, hwin, hnone, habs, ?_⟩
      rw [if_neg Bool.false_ne_true, if_pos hwin, hrep.count_eq, hm]
      rfl
  · right
    right
    exact ⟨hwin, by rw [if_neg Bool.false_ne_true, if_neg hwin]⟩

/-- All that a push to an open reassembler can do. -/
theorem push_cases (h : Rep r) (hopen : r.output.inputEnded = false) :
    (∃ r', (r.markEof data index eof).inWindow data index ∧
      Stored (r.markEof data index eof) ((r.markEof data index eof).trimToWindow data index) r' ∧
      r.pushSubstring data index eof = r'.checkEof) ∨
    ((r.markEof data index eof).inWindow data index ∧
      (∃ d ∈ r.unasmb, Contains ((r.markEof data index eof).trimToWindow data index).index
        ((r.markEof data index eof).trimToWindow data index).stop d) ∧
      r.pushSubstring data index eof = r.markEof data index eof) ∨
    (¬ (r.markEof data index eof).inWindow data index ∧
      r.pushSubstring data index eof = (r.markEof data index eof).checkEof) := by
  have hrep := h.markEof data index eof
  refine (push_moves data index eof h hopen).imp_left ?_
  rintro ⟨m, hwin, -, habs, heq⟩
  have htrim := hrep.trimmed data hwin.2
  exact ⟨_, hwin, stored_place hrep htrim.first_le htrim.stop_le habs, heq⟩

/-- The representation invariant survives every substring. -/
theorem Rep.push (h : Rep r) :
    Rep (r.pushSubstring data index eof) := by
  cases hopen : r.output.inputEnded with
  | true =>
    unfold pushSubstring
    rw [if_pos hopen]
    exact h
  | false =>
    rcases push_cases data index eof h hopen with
      ⟨r', -, hst, heq⟩ | ⟨-, -, heq⟩ | ⟨-, heq⟩
    · rw [heq]
      exact hst.rep.checkEof
    · rw [heq]
      exact h.markEof data index eof
    · rw [heq]
      exact (h.markEof data index eof).checkEof

/-- The moves a push is made of. -/
theorem pushSubstring_rule {P : StreamReassembler → Prop} (h : P r)
    (hmark : ∀ q, P q → P (q.markEof data index eof))
    (hmerge : ∀ q chunks n, P q → P { q with unasmb := chunks, nUnasmbBytes := n })
    (hplace : ∀ q c, P q → P (q.place c)) (hcheck : ∀ q, P q → P q.checkEof) :
    P (r.pushSubstring data index eof) := by
  unfold pushSubstring
  dsimp only
  split
  · exact h
  · split
    · split
      · exact hmerge _ _ _ (hmark r h)
      · exact hcheck _ (hplace _ _ (hmerge _ _ _ (hmark r h)))
    · exact hcheck _ (hmark r h)

/-- All that a push does to the output: it writes and it ends the input. -/
theorem pushSubstring_output_rule {P : ByteStream → Prop} (h : P r.output)
    (hwrite : ∀ out bytes, P out → P (out.write bytes).2) (hend : ∀ out, P out → P out.endInput) :
    P (r.pushSubstring data index eof).output := by
  refine pushSubstring_rule data index eof (P := fun q => P q.output) h ?_ ?_ ?_ ?_
  · intro q hq
    unfold StreamReassembler.markEof
    split <;> exact hq
  · intro q chunks n hq
    exact hq
  · intro q c hq
    unfold StreamReassembler.place
    split
    · exact hwrite _ _ hq
    · exact hq
  · intro q hq
    unfold StreamReassembler.checkEof
    split
    · exact hend _ hq
    · exact hq

theorem place_eofSet (q : StreamReassembler) (c : Chunk) : (q.place c).eofSet = q.eofSet := by
  unfold StreamReassembler.place
  split <;> rfl

/-- Only a substring marked as the last one tells where the stream ends. -/
theorem pushSubstring_eofSet (h : (r.pushSubstring data index eof).eofSet = true) :
    r.eofSet = true ∨ eof = true := by
  refine pushSubstring_rule data index eof
    (P := fun q => q.eofSet = true → r.eofSet = true ∨ eof = true) Or.inl ?_ ?_ ?_ ?_ h
  · intro q hq
    unfold StreamReassembler.markEof
    split
    · intro _
      exact Or.inr ‹_›
    · exact hq
  · intro q chunks n hq
    exact hq
  · intro q c hq
    rw [place_eofSet]
    exact hq
  · intro q hq
    unfold StreamReassembler.checkEof
    split <;> exact hq

/-- The output ends only when it is known where. -/
theorem pushSubstring_ended (h : r.output.inputEnded = true → r.eofSet = true) :
    (r.pushSubstring data index eof).output.inputEnded = true →
      (r.pushSubstring data index eof).eofSet = true := by
  refine pushSubstring_rule data index eof
    (P := fun q => q.output.inputEnded = true → q.eofSet = true) h ?_ ?_ ?_ ?_
  · intro q hq
    unfold StreamReassembler.markEof
    split
    · intro _
      rfl
    · exact hq
  · intro q chunks n hq
    exact hq
  · intro q c hq
    rw [place_eofSet]
    unfold StreamReassembler.place
    split <;> exact hq
  · intro q hq
    unfold StreamReassembler.checkEof
    split
    · rename_i hknown
      exact fun _ => hknown.1
    · exact hq

end Push

section Output

variable {r : StreamReassembler}

theorem Rep.pop (h : Rep r) {len : ℕ} (hlen : len ≤ r.output.curSize) :
    Rep { r with output := r.output.popOutput len } where
  output_valid := h.output_valid.popOutput_valid hlen
  capacity_eq := h.capacity_eq
  first_eq := h.first_eq
  apart := h.apart
  first_lt := h.first_lt
  stop_le c hc := by
    have hstop := h.stop_le c hc
    change c.stop ≤ r.output.nBytesRead + min len r.output.curSize + r.capacity
    unfold ByteStream.bytesRead at hstop
    omega
  count_eq := h.count_eq

theorem Rep.bytesRead_le (h : Rep r) : r.output.bytesRead ≤ r.firstUnasmb := by
  have hw := h.output_valid.written_eq
  have hf := h.first_eq
  simp only [ByteStream.bytesWritten, ByteStream.bytesRead] at *
  omega

/-- An error mark on the output changes nothing else. -/
theorem Rep.setError (h : Rep r) : Rep { r with output := r.output.setError } :=
  ⟨h.output_valid.setError, h.capacity_eq, h.first_eq, h.apart, h.first_lt, h.stop_le, h.count_eq⟩

end Output

end Sponge.Reassembly
