import Sponge.ReassemblyRefinement

/-!
The memory bound of the reassembler, for arbitrary input.
Substrings may contradict each other, come at any index and claim any end. What is
written and what waits never takes more than the capacity together: the waiting chunks
do not touch each other and lie between the first missing byte and the end of the window.
-/
namespace Sponge.ReassemblyBound

open ChunkMerge Reassembly ReassemblyRefinement Runs

def step (r : StreamReassembler) : Op → StreamReassembler
  | .push data index eof => r.pushSubstring data index eof
  | .read len => { r with output := (r.output.read len).2 }
  | .pop len => { r with output := r.output.popOutput len }

/-- Any push and any read; a pop asks for at most what is there. -/
def Allowed (r : StreamReassembler) : Op → Prop
  | .push _ _ _ => True
  | .read _ => True
  | .pop len => len ≤ r.output.bufferSize

instance (r : StreamReassembler) : (op : Op) → Decidable (Allowed r op)
  | .push _ _ _ | .read _ => isTrue trivial
  | .pop len => inferInstanceAs (Decidable (len ≤ r.output.bufferSize))

def machine : Machine StreamReassembler Op where
  enabled := Allowed
  step := step

instance (r : StreamReassembler) (op : Op) : Decidable (machine.enabled r op) :=
  inferInstanceAs (Decidable (Allowed r op))

/-- What holds of the chunks and the counters in every state. -/
structure Bounded (capacity : ℕ) (r : StreamReassembler) : Prop where
  first_eq : r.firstUnasmb = r.output.bytesWritten
  disjoint : r.unasmb.Pairwise (fun c d =>
    c.index + c.data.length < d.index ∨ d.index + d.data.length < c.index)
  first_lt : ∀ c ∈ r.unasmb, r.firstUnasmb < c.index
  stop_le : ∀ c ∈ r.unasmb, c.index + c.data.length ≤ r.output.bytesRead + capacity
  count_eq : r.nUnasmbBytes = (r.unasmb.map (fun c => c.data.length)).sum
  total_le : r.output.bufferSize + r.unassembledBytes ≤ capacity

theorem byteCount_eq_sum (cs : List Chunk) :
    byteCount cs = (cs.map (fun c => c.data.length)).sum := by
  induction cs with
  | nil => rfl
  | cons c cs ih => simp [byteCount, ih]

/-- Chunks that do not touch fit into the interval they lie in. -/
theorem byteCount_le {cs : List Chunk} {lo hi : ℕ} (hpair : cs.Pairwise Apart)
    (hlo : ∀ c ∈ cs, lo ≤ c.index) (hhi : ∀ c ∈ cs, c.stop ≤ hi) : byteCount cs ≤ hi - lo := by
  have hsub : covered cs ⊆ Finset.Ico lo hi := by
    intro p hp
    obtain ⟨c, hc, hge, hlt⟩ := mem_covered.mp hp
    have hl := hlo c hc
    have hh := hhi c hc
    rw [Finset.mem_Ico]
    omega
  have hcard := Finset.card_le_card hsub
  rw [card_covered hpair, Nat.card_Ico] at hcard
  exact hcard

theorem bounded_of_rep {r : StreamReassembler} (h : Rep r) : Bounded r.capacity r where
  first_eq := h.first_eq
  disjoint := h.apart
  first_lt := h.first_lt
  stop_le := h.stop_le
  count_eq := h.count_eq.trans (byteCount_eq_sum r.unasmb)
  total_le := by
    have hle := byteCount_le h.apart (fun c hc => Nat.le_of_lt (h.first_lt c hc)) h.stop_le
    have hcount := h.count_eq
    have hfirst := h.first_eq
    have hwritten := h.output_valid.written_eq
    have hsize := h.output_valid.size_le
    have hcap := h.capacity_eq
    unfold ByteStream.bufferSize StreamReassembler.unassembledBytes
    unfold ByteStream.bytesWritten at hfirst
    unfold ByteStream.bytesRead at hle
    omega

/-- The invariant of a run, with the capacity it was started with. -/
structure Sized (capacity : ℕ) (r : StreamReassembler) : Prop where
  rep : Rep r
  capacity_eq : r.capacity = capacity

theorem place_capacity (r : StreamReassembler) (c : Chunk) : (r.place c).capacity = r.capacity := by
  unfold StreamReassembler.place
  split <;> rfl

theorem checkEof_capacity (r : StreamReassembler) : r.checkEof.capacity = r.capacity := by
  unfold StreamReassembler.checkEof
  split <;> rfl

theorem markEof_capacity (r : StreamReassembler) (data : List UInt8) (index : ℕ) (eof : Bool) :
    (r.markEof data index eof).capacity = r.capacity := by
  unfold StreamReassembler.markEof
  split <;> rfl

theorem pushSubstring_capacity (r : StreamReassembler) (data : List UInt8) (index : ℕ)
    (eof : Bool) : (r.pushSubstring data index eof).capacity = r.capacity := by
  refine pushSubstring_rule data index eof (P := fun q => q.capacity = r.capacity) rfl ?_ ?_ ?_ ?_
  · intro q hq
    exact (markEof_capacity q data index eof).trans hq
  · intro q chunks n hq
    exact hq
  · intro q c hq
    exact (place_capacity q c).trans hq
  · intro q hq
    exact (checkEof_capacity q).trans hq

theorem Sized.step {capacity : ℕ} {r : StreamReassembler} (h : Sized capacity r) (op : Op)
    (hop : Allowed r op) : Sized capacity (step r op) := by
  cases op with
  | push data index eof =>
    exact ⟨h.rep.push data index eof, (pushSubstring_capacity r data index eof).trans h.capacity_eq⟩
  | read len =>
    have hread := h.rep.output_valid.read_eq len
    simp only [ReassemblyBound.step, hread]
    exact ⟨h.rep.pop (Nat.min_le_right len r.output.curSize), h.capacity_eq⟩
  | pop len => exact ⟨h.rep.pop hop, h.capacity_eq⟩

/-- Whatever is pushed and read, the reassembler stays within its capacity. -/
theorem reassembler_bounded (capacity : ℕ) (ops : List Op)
    (hv : machine.Valid (StreamReassembler.new capacity) ops) :
    Bounded capacity (machine.exec (StreamReassembler.new capacity) ops) := by
  have h := machine.invariant (P := Sized capacity) (fun r op h hop => h.step op hop)
    ⟨new_rep capacity, rfl⟩ hv
  have hbounded := bounded_of_rep h.rep
  rw [h.capacity_eq] at hbounded
  exact hbounded

/-- Contradicting substrings, one past the window, one at the last index, a false end. -/
theorem reassembler_bounded_contradictions :
    Bounded 4 (machine.exec (StreamReassembler.new 4)
      [.push [1, 2] 1 true, .push [7, 8, 9, 10, 11] 2 false, .push [5] (2 ^ 64 - 1) true,
        .push [3, 4] 0 false, .read 2, .push [6] 5 false]) :=
  reassembler_bounded 4 _ (by decide)

end Sponge.ReassemblyBound
