import Sponge.ReassemblyBound

/-!
Empty chunks in the reassembler.
An empty substring that lies strictly inside the window and touches no waiting chunk is
stored like any other one, and stays until a substring with bytes reaches its position. Such
a chunk counts for `empty` but not for `unassembled_bytes`. The number of chunks is bounded all
the same, since waiting chunks do not touch.
-/
namespace Sponge.EmptyChunks

open StreamReassembler ChunkMerge Reassembly ReassemblyRefinement ReassemblyBound Runs

/-- An empty substring at index i would be stored. -/
structure Lands (r : StreamReassembler) (i : ℕ) : Prop where
  isOpen : r.output.inputEnded = false
  window : r.inWindow [] i
  first_lt : r.firstUnasmb < i
  alone : ∀ c ∈ r.unasmb, ¬ Touches i i c

/-- The call stores an empty chunk at i. -/
def Leaves (i : ℕ) (r : StreamReassembler) (op : Op) : Prop :=
  (∃ eof, op = .push [] i eof) ∧ Lands r i

/-- The bytes that the call brings into the window reach position i. -/
def Reaches (i : ℕ) (r : StreamReassembler) : Op → Prop
  | .push data index _ => r.output.inputEnded = false ∧ r.inWindow data index ∧
      (r.trimToWindow data index).data ≠ [] ∧
      (r.trimToWindow data index).index ≤ i ∧ i ≤ (r.trimToWindow data index).stop
  | _ => False

/-- An empty substring has been stored at i, and nothing has reached it since. -/
def LeftBehind (capacity : ℕ) (ops : List Op) (i : ℕ) : Prop :=
  ∃ pre op post, ops = pre ++ op :: post ∧
    Leaves i (machine.exec (StreamReassembler.new capacity) pre) op ∧
    machine.Never (Reaches i) (machine.exec (StreamReassembler.new capacity) (pre ++ [op])) post

/-- The push gets past all early exits: no chunk contains the substring. -/
structure Proceeds (r : StreamReassembler) (data : List UInt8) (index : ℕ) : Prop where
  isOpen : r.output.inputEnded = false
  window : r.inWindow data index
  fresh : ∀ d ∈ r.unasmb,
    ¬ Contains (r.trimToWindow data index).index (r.trimToWindow data index).stop d

section Push

variable {r : StreamReassembler} {data : List UInt8} {index i : ℕ}

theorem checkEof_unasmb (r : StreamReassembler) : r.checkEof.unasmb = r.unasmb := by
  unfold StreamReassembler.checkEof
  split <;> rfl

theorem place_unasmb (r : StreamReassembler) (c : Chunk) :
    (r.place c).unasmb = r.unasmb ++ if c.index = r.firstUnasmb then [] else [c] := by
  unfold place
  split
  · exact (List.append_nil _).symm
  · rfl

/-- What a push does to the chunks: one that proceeds joins the substring with those it touches,
and stores the result unless it can be written. -/
theorem push_unasmb_cases (h : Rep r) (eof : Bool) :
    (Proceeds r data index ∧
      ∃ m, Absorbs (r.trimToWindow data index).index (r.trimToWindow data index).stop r.unasmb
          (r.trimToWindow data index) m ∧
        (r.pushSubstring data index eof).unasmb =
          untouched (r.trimToWindow data index).index (r.trimToWindow data index).stop r.unasmb ++
            if m.index = r.firstUnasmb then [] else [m]) ∨
    (¬ Proceeds r data index ∧ (r.pushSubstring data index eof).unasmb = r.unasmb) := by
  cases hopen : r.output.inputEnded with
  | true =>
    right
    refine ⟨fun hproceeds => ?_, by rw [pushSubstring, if_pos hopen]⟩
    exact Bool.false_ne_true (hproceeds.isOpen.symm.trans hopen)
  | false =>
    have hmoves := push_moves data index eof h hopen
    obtain ⟨e, l, hmark⟩ := markEof_eq (r := r) data index eof
    rw [hmark] at hmoves
    rcases hmoves with ⟨m, hwin, hfresh, habs, heq⟩ | ⟨-, ⟨d, hd, hcontains⟩, heq⟩ | ⟨hwin, heq⟩
    · left
      refine ⟨⟨hopen, hwin, hfresh⟩, m, habs, ?_⟩
      rw [heq, checkEof_unasmb, place_unasmb]
      rfl
    · right
      exact ⟨fun hproceeds => hproceeds.fresh d hd hcontains, by rw [heq]⟩
    · right
      exact ⟨fun hproceeds => hwin hproceeds.window, by rw [heq, checkEof_unasmb]⟩

theorem exists_contains (hnot : ¬ Proceeds r data index) (hopen : r.output.inputEnded = false)
    (hwin : r.inWindow data index) :
    ∃ d ∈ r.unasmb,
      Contains (r.trimToWindow data index).index (r.trimToWindow data index).stop d := by
  by_contra hnone
  push Not at hnone
  exact hnot ⟨hopen, hwin, hnone⟩

/-- Only an empty substring is trimmed to an empty chunk behind the front of the window. -/
theorem trim_empty (hwin : r.inWindow data index) (hfirst : r.firstUnasmb < i)
    (htrim : r.trimToWindow data index = ⟨[], i⟩) : data = [] ∧ index = i := by
  have hindex := hwin.2
  unfold trimToWindow at htrim
  by_cases hfront : index < r.firstUnasmb
  · rw [if_pos hfront] at htrim
    have hsame : r.firstUnasmb = i := congrArg Chunk.index htrim
    omega
  · rw [if_neg hfront] at htrim
    obtain ⟨hdata, hsame⟩ := Chunk.mk.inj htrim
    refine ⟨?_, hsame⟩
    split at hdata
    · rcases List.take_eq_nil_iff.mp hdata with hzero | hnil
      · omega
      · exact hnil
    · exact hdata

theorem trim_nil (hfirst : r.firstUnasmb < i) : r.trimToWindow [] i = ⟨[], i⟩ := by
  have hfront : ¬ i < r.firstUnasmb := by omega
  simp [trimToWindow, hfront]

theorem eq_empty_of_stop_le {c : Chunk} (hlow : i ≤ c.index) (hhigh : c.stop ≤ i) :
    c = ⟨[], i⟩ := by
  obtain ⟨bytes, start⟩ := c
  have hstop : start + bytes.length ≤ i := hhigh
  have hstart : i ≤ start := hlow
  obtain rfl : bytes = [] := List.length_eq_zero_iff.mp (by omega)
  rw [show start = i by omega]

/-- The chunk joined around an empty one that touches nothing is that empty one. -/
theorem absorbs_alone {cs : List Chunk} {m : Chunk} (habs : Absorbs i i cs ⟨[], i⟩ m)
    (halone : ∀ c ∈ cs, ¬ Touches i i c) : m = ⟨[], i⟩ := by
  apply eq_empty_of_stop_le
  · rcases habs.index_eq with hindex | ⟨c, hc, htouch, -⟩
    · exact Nat.le_of_eq hindex.symm
    · exact absurd htouch (halone c hc)
  · rcases habs.stop_eq with hstop | ⟨c, hc, htouch, -⟩
    · exact Nat.le_of_eq hstop
    · exact absurd htouch (halone c hc)

/-- An empty chunk is not reached by a substring that is contained in another chunk. -/
theorem not_reaches (h : Rep r) (hnot : ¬ Proceeds r data index) (hmem : ⟨[], i⟩ ∈ r.unasmb)
    (eof : Bool) : ¬ Reaches i r (.push data index eof) := by
  rintro ⟨hopen, hwin, hbytes, htouch⟩
  obtain ⟨d, hd, hcontains⟩ := exists_contains hnot hopen hwin
  by_cases hsame : (⟨[], i⟩ : Chunk) = d
  · subst hsame
    exact hbytes (congrArg Chunk.data (eq_empty_of_stop_le hcontains.1 hcontains.2))
  · exact not_touches_of_contains hcontains (h.apart.forall hmem hd hsame) htouch

theorem not_leaves (hnot : ¬ Proceeds r data index) (eof : Bool) :
    ¬ Leaves i r (.push data index eof) := by
  rintro ⟨⟨eof', heq⟩, hlands⟩
  obtain ⟨rfl, rfl, -⟩ := Op.push.inj heq
  obtain ⟨d, hd, hcontains⟩ := exists_contains hnot hlands.isOpen hlands.window
  rw [trim_nil hlands.first_lt] at hcontains
  exact hlands.alone d hd ⟨hcontains.2, hcontains.1⟩

/-- An empty chunk that is touched is reached: a substring without bytes at its place would
be contained in it. -/
theorem reaches_iff_touches (hproceeds : Proceeds r data index) (hmem : ⟨[], i⟩ ∈ r.unasmb)
    (eof : Bool) :
    Reaches i r (.push data index eof) ↔
      Touches (r.trimToWindow data index).index (r.trimToWindow data index).stop ⟨[], i⟩ := by
  constructor
  · rintro ⟨-, -, -, htouch⟩
    exact htouch
  · intro htouch
    refine ⟨hproceeds.isOpen, hproceeds.window, ?_, htouch⟩
    intro hnil
    have hstop : (r.trimToWindow data index).stop = (r.trimToWindow data index).index := by
      rw [Chunk.stop, hnil]
      rfl
    have hlow : (r.trimToWindow data index).index ≤ i := htouch.1
    have hhigh : i ≤ (r.trimToWindow data index).stop := htouch.2
    exact hproceeds.fresh _ hmem ⟨hstop ▸ hhigh, hstop.symm ▸ hlow⟩

/-- The joined chunk is an empty one at i exactly if it is the substring itself. -/
theorem leaves_iff_joined (h : Rep r) (hproceeds : Proceeds r data index) {m : Chunk}
    (habs : Absorbs (r.trimToWindow data index).index (r.trimToWindow data index).stop r.unasmb
      (r.trimToWindow data index) m) (eof : Bool) :
    Leaves i r (.push data index eof) ↔ m = ⟨[], i⟩ ∧ m.index ≠ r.firstUnasmb := by
  have htrimmed := h.trimmed data hproceeds.window.2
  constructor
  · rintro ⟨⟨eof', heq⟩, hlands⟩
    obtain ⟨rfl, rfl, -⟩ := Op.push.inj heq
    rw [trim_nil hlands.first_lt] at habs
    obtain rfl := absorbs_alone habs hlands.alone
    exact ⟨rfl, Nat.ne_of_gt hlands.first_lt⟩
  · rintro ⟨rfl, hne⟩
    have htrim : r.trimToWindow data index = ⟨[], i⟩ :=
      eq_empty_of_stop_le habs.index_le habs.le_stop
    have hfirst : r.firstUnasmb < i := by
      have hle := htrimmed.first_le
      rw [htrim] at hle
      exact Nat.lt_of_le_of_ne hle (Ne.symm hne)
    obtain ⟨rfl, rfl⟩ := trim_empty hproceeds.window hfirst htrim
    refine ⟨⟨eof, rfl⟩, hproceeds.isOpen, hproceeds.window, hfirst, ?_⟩
    intro c hc htouch
    apply hproceeds.fresh c hc
    rw [htrim]
    exact ⟨htouch.2, htouch.1⟩

/-- The empty chunks after a push: those that it has not reached, and its own. -/
theorem mem_empty_push (h : Rep r) (eof : Bool) :
    ⟨[], i⟩ ∈ (r.pushSubstring data index eof).unasmb ↔
      (⟨[], i⟩ ∈ r.unasmb ∧ ¬ Reaches i r (.push data index eof)) ∨
        Leaves i r (.push data index eof) := by
  rcases push_unasmb_cases h eof with ⟨hproceeds, m, habs, hlist⟩ | ⟨hnot, hlist⟩
  · rw [hlist, List.mem_append, mem_untouched, leaves_iff_joined h hproceeds habs eof]
    refine or_congr (and_congr_right ?_) ?_
    · intro hmem
      rw [reaches_iff_touches hproceeds hmem eof]
    · split
      · rename_i hfront
        simp [hfront]
      · rename_i hbehind
        simp [hbehind, eq_comm]
  · rw [hlist]
    constructor
    · intro hmem
      exact Or.inl ⟨hmem, not_reaches h hnot hmem eof⟩
    · rintro (⟨hmem, -⟩ | hown)
      · exact hmem
      · exact absurd hown (not_leaves hnot eof)

end Push

theorem mem_empty_step {capacity : ℕ} {r : StreamReassembler} (h : Sized capacity r) (op : Op)
    (i : ℕ) :
    ⟨[], i⟩ ∈ (step r op).unasmb ↔
      (⟨[], i⟩ ∈ r.unasmb ∧ ¬ Reaches i r op) ∨ Leaves i r op := by
  cases op with
  | push data index eof => exact mem_empty_push h.rep eof
  | read len => simp [step, Reaches, Leaves]
  | pop len => simp [step, Reaches, Leaves]

/-- An empty chunk is stored exactly where an empty substring has been left behind. -/
theorem mem_empty_iff {capacity : ℕ} {ops : List Op}
    (hv : machine.Valid (StreamReassembler.new capacity) ops) (i : ℕ) :
    ⟨[], i⟩ ∈ (machine.exec (StreamReassembler.new capacity) ops).unasmb ↔
      LeftBehind capacity ops i := by
  have hmarked := machine.marked_iff (P := Sized capacity) (Q := fun r => ⟨[], i⟩ ∈ r.unasmb)
    (S := Leaves i) (T := Reaches i) (fun r op h hop => h.step op hop)
    (fun r op h _ => mem_empty_step h op i) ⟨new_rep capacity, rfl⟩ hv
  rw [hmarked]
  simp [LeftBehind, StreamReassembler.new]

/-- Chunks that do not touch have different indices, all of them in the window. -/
theorem length_le {r : StreamReassembler} (h : Rep r) :
    r.unasmb.length ≤ r.capacity - r.output.bufferSize := by
  have hnodup : (r.unasmb.map Chunk.index).Nodup := by
    refine List.Pairwise.map Chunk.index ?_ h.apart
    intro c d hapart hsame
    have hc : c.index ≤ c.stop := Nat.le_add_right _ _
    have hd : d.index ≤ d.stop := Nat.le_add_right _ _
    unfold Apart at hapart
    omega
  have hsub : (r.unasmb.map Chunk.index).toFinset ⊆
      Finset.Ioc r.firstUnasmb (r.output.bytesRead + r.capacity) := by
    intro p hp
    obtain ⟨c, hc, rfl⟩ := List.mem_map.mp (List.mem_toFinset.mp hp)
    have hindex : c.index ≤ c.stop := Nat.le_add_right _ _
    exact Finset.mem_Ioc.mpr ⟨h.first_lt c hc, hindex.trans (h.stop_le c hc)⟩
  have hcard := Finset.card_le_card hsub
  rw [List.toFinset_card_of_nodup hnodup, List.length_map, Nat.card_Ioc] at hcard
  have hfirst := h.first_eq
  have hwritten := h.output_valid.written_eq
  have hsize := h.output_valid.size_le
  have hcap := h.capacity_eq
  unfold ByteStream.bytesWritten at hfirst
  unfold ByteStream.bytesRead at hcard
  unfold ByteStream.bufferSize
  omega

/-- Without bytes, all chunks are empty ones. -/
theorem byteCount_eq_zero_iff {cs : List Chunk} : byteCount cs = 0 ↔ ∀ c ∈ cs, c.data = [] := by
  induction cs with
  | nil => simp [byteCount]
  | cons c cs ih => simp [byteCount, ih]

/-- Only chunks with bytes are stored, so that `empty` says whether bytes wait. -/
structure Tidy (r : StreamReassembler) : Prop where
  bytes : ∀ c ∈ r.unasmb, c.data ≠ []
  agrees : r.empty = true ↔ r.unassembledBytes = 0

theorem Tidy.of_bytes {r : StreamReassembler} (h : Rep r) (hbytes : ∀ c ∈ r.unasmb, c.data ≠ []) :
    Tidy r := by
  refine ⟨hbytes, ?_⟩
  have hempty : r.empty = true ↔ r.unasmb = [] := List.isEmpty_iff
  rw [hempty, unassembledBytes, h.count_eq, byteCount_eq_zero_iff]
  constructor
  · intro hnone
    rw [hnone]
    simp
  · intro hnil
    apply List.eq_nil_iff_forall_not_mem.mpr
    intro c hc
    exact hbytes c hc (hnil c hc)

section Run

variable {capacity : ℕ} {ops : List Op}

theorem sized_of_run (hv : machine.Valid (StreamReassembler.new capacity) ops) :
    Sized capacity (machine.exec (StreamReassembler.new capacity) ops) :=
  machine.invariant (fun _ op h hop => h.step op hop) ⟨new_rep capacity, rfl⟩ hv

/-- A call that stores an empty chunk leaves it in the next state. -/
theorem Leaves.not_tidy {r : StreamReassembler} {op : Op} {i : ℕ} (h : Sized capacity r)
    (hleaves : Leaves i r op) : ¬ Tidy (step r op) := by
  intro htidy
  exact htidy.bytes ⟨[], i⟩ ((mem_empty_step h op i).mpr (Or.inr hleaves)) rfl

theorem tidy_of_never (hv : machine.Valid (StreamReassembler.new capacity) ops)
    (hnever : ∀ i, machine.Never (Leaves i) (StreamReassembler.new capacity) ops) :
    Tidy (machine.exec (StreamReassembler.new capacity) ops) := by
  apply Tidy.of_bytes (sized_of_run hv).rep
  rintro ⟨data, i⟩ hmem hnil
  obtain rfl : data = [] := hnil
  obtain ⟨pre, op, post, rfl, hleaves, -⟩ := (mem_empty_iff hv i).mp hmem
  exact hnever i pre op ⟨post, by simp⟩ hleaves

/-- In every reachable state the number of chunks is bounded. All states of a run are tidy
exactly if none of its calls stores an empty chunk. -/
theorem tidy_iff_never_leaves (hv : machine.Valid (StreamReassembler.new capacity) ops) :
    (machine.exec (StreamReassembler.new capacity) ops).unasmb.length ≤
        capacity - (machine.exec (StreamReassembler.new capacity) ops).output.bufferSize ∧
      ((∀ pre, pre <+: ops → Tidy (machine.exec (StreamReassembler.new capacity) pre)) ↔
        ∀ i, machine.Never (Leaves i) (StreamReassembler.new capacity) ops) := by
  have h := sized_of_run hv
  have hle := length_le h.rep
  rw [h.capacity_eq] at hle
  refine ⟨hle, ?_, ?_⟩
  · intro htidy i pre op hpre hleaves
    obtain ⟨hbefore, -⟩ := machine.valid_of_snoc_prefix hv hpre
    have hnext := htidy (pre ++ [op]) hpre
    rw [machine.exec_append] at hnext
    exact hleaves.not_tidy (sized_of_run hbefore) hnext
  · intro hnever pre hpre
    obtain ⟨post, rfl⟩ := hpre
    refine tidy_of_never ((machine.valid_append _ _ _).mp hv).1 ?_
    intro i pre' op hpre'
    exact hnever i pre' op (hpre'.trans (List.prefix_append _ _))

end Run

/-- An empty substring at the end of a waiting chunk is not stored. -/
theorem tidy_beside :
    Tidy (machine.exec (StreamReassembler.new 4) [.push [7] 2 false, .push [] 3 true]) := by
  refine (tidy_iff_never_leaves (by decide)).2.mpr ?_ _ (List.prefix_refl _)
  intro i
  rw [Machine.never_cons, Machine.never_cons]
  refine ⟨?_, ?_, Machine.never_nil _ _ _⟩
  · rintro ⟨⟨eof, heq⟩, -⟩
    simp at heq
  · rintro ⟨⟨eof, heq⟩, hlands⟩
    obtain ⟨-, rfl, -⟩ := Op.push.inj heq
    exact hlands.alone ⟨[7], 2⟩ (by decide) (by decide)

/-- A lone end of the stream that comes early is stored as an empty chunk. -/
theorem empty_chunk_stored :
    let r := machine.exec (StreamReassembler.new 4) [.push [] 2 true]
    r.empty = false ∧ r.unassembledBytes = 0 := by
  decide

end Sponge.EmptyChunks
