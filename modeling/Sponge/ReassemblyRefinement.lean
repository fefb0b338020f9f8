import Sponge.PerByte
import Sponge.Assembly
import Sponge.Runs

/-!
The reassembler refines the per-byte one.
Both run side by side on the same excerpts of a stream S, in any order, with
reads in between; after every operation their observable states agree.
-/
namespace Sponge.ReassemblyRefinement

open Excerpts ChunkMerge Reassembly Assembly Runs

/-- The positions of a list of chunks. -/
def covered : List Chunk → Finset ℕ
  | [] => ∅
  | c :: cs => Finset.Ico c.index c.stop ∪ covered cs

theorem mem_covered {cs : List Chunk} {p : ℕ} :
    p ∈ covered cs ↔ ∃ c ∈ cs, c.index ≤ p ∧ p < c.stop := by
  induction cs with
  | nil => simp [covered]
  | cons c cs ih => simp [covered, ih]

/-- Chunks that do not touch share no position. -/
theorem card_covered {cs : List Chunk} (hpair : cs.Pairwise Apart) :
    (covered cs).card = byteCount cs := by
  induction cs with
  | nil => rfl
  | cons c cs ih =>
    obtain ⟨hhead, htail⟩ := List.pairwise_cons.mp hpair
    have hdisj : Disjoint (Finset.Ico c.index c.stop) (covered cs) := by
      rw [Finset.disjoint_left]
      intro p hp hq
      rw [Finset.mem_Ico] at hp
      obtain ⟨d, hd, h1, h2⟩ := mem_covered.mp hq
      have hap := hhead d hd
      unfold Apart at hap
      omega
    rw [covered, Finset.card_union_of_disjoint hdisj, ih htail, Nat.card_Ico, byteCount]
    simp [Chunk.stop]

/-- The two reassemblers and the bytes read so far. -/
structure Session where
  real : StreamReassembler
  naive : PerByte
  taken : List UInt8

inductive Op where
  | push (data : List UInt8) (index : ℕ) (eof : Bool)
  | read (len : ℕ)
  | pop (len : ℕ)

namespace Session

def new (capacity : ℕ) : Session := ⟨StreamReassembler.new capacity, PerByte.new capacity, []⟩

def step (s : Session) : Op → Session
  | .push data index eof =>
      ⟨s.real.pushSubstring data index eof, s.naive.push index data.length eof, s.taken⟩
  | .read len =>
      ⟨{ s.real with output := (s.real.output.read len).2 }, s.naive.consume len,
        s.taken ++ (s.real.output.read len).1⟩
  | .pop len =>
      ⟨{ s.real with output := s.real.output.popOutput len }, s.naive.consume len,
        s.taken ++ s.real.output.peekOutput len⟩

/-- The substring is the excerpt of S at its index, and `eof` is set only at the end of S. -/
def Honest (S : List UInt8) (s : Session) : Op → Prop
  | .push data index eof =>
      IsExcerpt S index data ∧ index < 2 ^ 64 ∧ (eof = true → index + data.length = S.length)
  | .read _ => True
  | .pop len => len ≤ s.real.output.bufferSize

instance (S : List UInt8) (s : Session) (op : Op) : Decidable (s.Honest S op) := by
  cases op <;> unfold Honest <;> infer_instance

end Session

def machine (S : List UInt8) : Machine Session Op where
  enabled := Session.Honest S
  step := Session.step

instance (S : List UInt8) (s : Session) (op : Op) : Decidable ((machine S).enabled s op) :=
  inferInstanceAs (Decidable (s.Honest S op))

/-- The simulation relation. -/
structure Refines (S : List UInt8) (s : Session) : Prop where
  assembles : Assembles S s.real
  capacity_eq : s.naive.capacity = s.real.capacity
  bytesRead_eq : s.naive.bytesRead = s.real.output.bytesRead
  kept_iff : ∀ p, p ∈ s.naive.kept ↔ Held s.real p
  eof_eq : s.naive.eofSeen = s.real.eofSet
  taken_eq : s.taken = S.take s.real.output.bytesRead

theorem new_refines (S : List UInt8) (capacity : ℕ) : Refines S (Session.new capacity) where
  assembles := new_assembles S capacity
  capacity_eq := rfl
  bytesRead_eq := rfl
  kept_iff p := by simp [Session.new, PerByte.new, Held, StreamReassembler.new]
  eof_eq := rfl
  taken_eq := rfl

namespace Refines

variable {S : List UInt8} {s : Session}

theorem firstMissing_eq (h : Refines S s) : s.naive.firstMissing = s.real.firstUnasmb := by
  apply leastMissing_eq
  · intro p hp
    exact (h.kept_iff p).mpr (Or.inl hp)
  · intro hmem
    rcases (h.kept_iff _).mp hmem with hlt | ⟨c, hc, hle, -⟩
    · omega
    · have := h.assembles.rep.first_lt c hc
      omega

theorem waiting_eq (h : Refines S s) : s.naive.waiting = s.real.unassembledBytes := by
  have hset : s.naive.kept.filter (fun p => s.naive.firstMissing < p) = covered s.real.unasmb := by
    ext p
    rw [Finset.mem_filter, h.kept_iff, h.firstMissing_eq, mem_covered]
    constructor
    · intro hp
      obtain ⟨hheld, hlt⟩ := hp
      rcases hheld with hbefore | hchunk
      · omega
      · exact hchunk
    · intro hp
      obtain ⟨c, hc, h1, h2⟩ := hp
      have := h.assembles.rep.first_lt c hc
      exact ⟨Or.inr ⟨c, hc, h1, h2⟩, by omega⟩
  unfold PerByte.waiting StreamReassembler.unassembledBytes
  rw [hset, card_covered h.assembles.rep.apart, h.assembles.rep.count_eq]

theorem push (h : Refines S s) (hS : S.length < 2 ^ 64) {data : List UInt8} {index : ℕ} {eof : Bool}
    (hop : s.Honest S (.push data index eof)) : Refines S (s.step (.push data index eof)) := by
  obtain ⟨hexc, hindex, heof⟩ := hop
  have heff := h.assembles.push hS hindex hexc heof
  refine ⟨heff.assembles, ?_, ?_, ?_, ?_, ?_⟩
  · exact h.capacity_eq.trans heff.capacity_eq.symm
  · exact h.bytesRead_eq.trans heff.bytesRead_eq.symm
  · intro p
    change p ∈ s.naive.kept ∪ _ ↔ Held (s.real.pushSubstring data index eof) p
    rw [heff.held_iff, Finset.mem_union, Finset.mem_filter, Finset.mem_Ico, h.kept_iff,
      h.firstMissing_eq, h.bytesRead_eq, h.capacity_eq]
    constructor
    · intro hp
      rcases hp with hp | ⟨⟨h1, h2⟩, h3, h4⟩
      · exact Or.inl hp
      · exact Or.inr ⟨h3, h4, h1, h2⟩
    · intro hp
      rcases hp with hp | ⟨h3, h4, h1, h2⟩
      · exact Or.inl hp
      · exact Or.inr ⟨⟨h1, h2⟩, h3, h4⟩
  · change (s.naive.eofSeen || eof) = (s.real.pushSubstring data index eof).eofSet
    rw [heff.eofSet_eq, h.eof_eq]
  · change s.taken = S.take (s.real.pushSubstring data index eof).output.bytesRead
    rw [heff.bytesRead_eq]
    exact h.taken_eq

theorem pop (h : Refines S s) {len : ℕ} (hlen : len ≤ s.real.output.curSize) :
    Refines S (s.step (.pop len)) := by
  have hw := h.assembles.rep.output_valid.written_eq
  have hf := h.assembles.rep.first_eq
  have hread : (s.real.output.popOutput len).bytesRead = s.real.output.bytesRead + len := by
    change _ + min len _ = _
    rw [Nat.min_eq_left hlen]
    rfl
  refine ⟨h.assembles.pop hlen, h.capacity_eq, ?_, h.kept_iff, h.eof_eq, ?_⟩
  · change s.naive.bytesRead + min len (s.naive.firstMissing - s.naive.bytesRead) = _
    rw [h.firstMissing_eq, h.bytesRead_eq]
    change _ = (s.real.output.popOutput len).bytesRead
    rw [hread]
    unfold ByteStream.bytesWritten at hf
    unfold ByteStream.bytesRead
    omega
  · change s.taken ++ s.real.output.peekOutput len = S.take (s.real.output.popOutput len).bytesRead
    rw [hread, h.taken_eq, h.assembles.peek_eq hlen, List.take_add]

theorem read (h : Refines S s) (len : ℕ) : Refines S (s.step (.read len)) := by
  have hv := h.assembles.rep.output_valid
  have hw := hv.written_eq
  have hf := h.assembles.rep.first_eq
  have hpop := h.pop (Nat.min_le_right len s.real.output.curSize)
  have hconsume : s.naive.consume len = s.naive.consume (min len s.real.output.curSize) := by
    simp only [PerByte.consume, h.firstMissing_eq, h.bytesRead_eq]
    congr 2
    unfold ByteStream.bytesWritten at hf
    unfold ByteStream.bytesRead
    omega
  have heq : s.step (.read len) = s.step (.pop (min len s.real.output.curSize)) := by
    simp only [Session.step, hv.read_eq, hconsume]
  rw [heq]
  exact hpop

theorem step (h : Refines S s) (hS : S.length < 2 ^ 64) (op : Op) (hop : s.Honest S op) :
    Refines S (s.step op) := by
  cases op with
  | push data index eof => exact h.push hS hop
  | read len => exact h.read len
  | pop len => exact h.pop hop

end Refines

/-- The two show the same: the bytes written are the first ones of S up to the first
missing position, as many bytes wait, and the stream has ended together. -/
structure Agrees (S : List UInt8) (s : Session) : Prop where
  written_eq : s.real.output.bytesWritten = s.naive.firstMissing
  bytes_eq : s.taken ++ s.real.output.buffered = S.take s.naive.firstMissing
  waiting_eq : s.real.unassembledBytes = s.naive.waiting
  ended_iff : s.real.output.inputEnded = true ↔ s.naive.Ended S.length

theorem Refines.agrees {S : List UInt8} {s : Session} (h : Refines S s) : Agrees S s where
  written_eq := h.assembles.rep.first_eq.symm.trans h.firstMissing_eq.symm
  bytes_eq := by
    rw [h.firstMissing_eq, h.taken_eq]
    exact h.assembles.taken_append_buffered
  waiting_eq := h.waiting_eq.symm
  ended_iff := by
    rw [h.assembles.ended_iff, PerByte.Ended, h.eof_eq, h.firstMissing_eq]

/-- On every run the reassembler shows what the per-byte reassembler shows. No lower
bound on the capacity is needed; positions are 64-bit numbers. -/
theorem reassembler_refines_perByte (S : List UInt8) (hS : S.length < 2 ^ 64) (capacity : ℕ)
    (ops : List Op) (hv : (machine S).Valid (Session.new capacity) ops) :
    Agrees S ((machine S).exec (Session.new capacity) ops) := by
  have h : Refines S ((machine S).exec (Session.new capacity) ops) :=
    (machine S).invariant (fun s op h hop => h.step hS op hop) (new_refines S capacity) hv
  exact h.agrees

theorem reassembler_refines_perByte_late_first :
    Agrees [1, 2, 3] ((machine [1, 2, 3]).exec (Session.new 2)
      [.push [2, 3] 1 true, .push [1] 0 false, .read 1, .push [3] 2 true, .pop 2]) :=
  reassembler_refines_perByte [1, 2, 3] (by decide) 2 _ (by decide)

end Sponge.ReassemblyRefinement
