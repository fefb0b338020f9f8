import Sponge.ReassemblyRefinement
import Sponge.TCPSegment

/-!
The receiver half of an endpoint: it finds the stream position of each segment and
hands the payload to the reassembler. A segment that is an honest piece of a
stream S at absolute sequence number v is pushed at its true position as long as v
is less than 2^31 away from the next byte expected.
-/
namespace Sponge

open Words

structure TCPReceiver where
  reassembler : StreamReassembler
  capacity : ℕ
  synReceived : Bool
  isn : WrappingInt32
  deriving DecidableEq, Repr

namespace TCPReceiver

/-- For a positive capacity, as `ByteStream.new`. -/
def new (capacity : ℕ) : TCPReceiver :=
  ⟨StreamReassembler.new capacity, capacity, false, ⟨0⟩⟩

def streamOut (r : TCPReceiver) : ByteStream := r.reassembler.output

def unassembledBytes (r : TCPReceiver) : ℕ := r.reassembler.unassembledBytes

/-- Every SYN, also a later one, sets the initial sequence number. -/
def noteSyn (r : TCPReceiver) (seg : TCPSegment) : TCPReceiver :=
  if seg.header.syn then { r with synReceived := true, isn := seg.header.seqno } else r

theorem noteSyn_reassembler (r : TCPReceiver) (seg : TCPSegment) :
    (r.noteSyn seg).reassembler = r.reassembler := by
  unfold noteSyn
  split <;> rfl

/-- The index `abs_seqno - !syn` is computed on unsigned words. -/
def segmentReceived (r : TCPReceiver) (seg : TCPSegment) : TCPReceiver :=
  let r := r.noteSyn seg
  if !r.synReceived then r
  else
    let absSeqno := unwrap seg.header.seqno r.isn (r.streamOut.bytesWritten + 1)
    { r with
      reassembler := r.reassembler.pushSubstring seg.payload
        (wrapSub 64 absSeqno (if seg.header.syn then 0 else 1)) seg.header.fin }

def ackno (r : TCPReceiver) : Option WrappingInt32 :=
  if r.synReceived then
    some (wrap (r.streamOut.bytesWritten + 1 + (if r.streamOut.inputEnded then 1 else 0)) r.isn)
  else none

def windowSize (r : TCPReceiver) : ℕ := r.streamOut.remainingCapacity

/-- The reader's side of `stream_out()`. -/
def setOutput (r : TCPReceiver) (output : ByteStream) : TCPReceiver :=
  { r with reassembler := { r.reassembler with output := output } }

end TCPReceiver

namespace Receiving

open Excerpts Reassembly Assembly ReassemblyRefinement Runs

section Deliver

variable {isn : WrappingInt32} {S : List UInt8} {v : ℕ} {seg : TCPSegment} {r : TCPReceiver}

theorem segmentReceived_ignored (hsyn : r.synReceived = false) (hseg : seg.header.syn = false) :
    r.segmentReceived seg = r := by
  simp [TCPReceiver.segmentReceived, TCPReceiver.noteSyn, hsyn, hseg]

/-- A delivered honest piece is pushed at its true position. -/
theorem segmentReceived_honest (h : HonestPiece isn S v seg)
    (hisn : r.synReceived = true → r.isn = isn)
    (hstart : r.synReceived = true ∨ seg.header.syn = true)
    (hv : v < 2 ^ 64) (hw : r.streamOut.bytesWritten + 1 < 2 ^ 64)
    (hlo : r.streamOut.bytesWritten + 1 < v + 2 ^ 31)
    (hhi : v < r.streamOut.bytesWritten + 1 + 2 ^ 31) :
    r.segmentReceived seg =
      { r with
        synReceived := true
        isn := isn
        reassembler := r.reassembler.pushSubstring seg.payload (v - 1) seg.header.fin } := by
  have hunwrap := unwrap_wrap isn hv hw hlo hhi
  cases hsyn : seg.header.syn with
  | true =>
    have hzero : v = 0 := h.syn_iff.mp hsyn
    subst hzero
    have hseq : seg.header.seqno = isn := by
      rw [h.seqno_eq, wrap_zero]
    rw [wrap_zero] at hunwrap
    simp only [TCPReceiver.segmentReceived, TCPReceiver.noteSyn, hsyn, hseq]
    simp only [TCPReceiver.streamOut] at hunwrap ⊢
    simp [hunwrap]
  | false =>
    have hr : r.synReceived = true := by
      rcases hstart with hr | hr
      · exact hr
      · simp [hsyn] at hr
    have hpos : 1 ≤ v := by
      rcases Nat.eq_zero_or_pos v with hz | hp
      · have := h.syn_iff.mpr hz
        simp [hsyn] at this
      · exact hp
    simp only [TCPReceiver.segmentReceived, TCPReceiver.noteSyn, hsyn, h.seqno_eq]
    simp [hr, hisn hr, hunwrap, wrapSub_of_le hpos]

end Deliver

/-- The receiver, the per-byte reassembler fed with the pieces from the first SYN on,
whether that SYN has come, and the bytes read so far. -/
structure Session where
  receiver : TCPReceiver
  naive : PerByte
  started : Bool
  taken : List UInt8

inductive Op where
  | deliver (v : ℕ) (seg : TCPSegment)
  | read (len : ℕ)
  | pop (len : ℕ)

namespace Session

def new (capacity : ℕ) : Session :=
  ⟨TCPReceiver.new capacity, PerByte.new capacity, false, []⟩

def step (s : Session) : Op → Session
  | .deliver v seg =>
      ⟨s.receiver.segmentReceived seg,
        if s.started || seg.header.syn then
          s.naive.push (v - 1) seg.payload.length seg.header.fin else s.naive,
        s.started || seg.header.syn, s.taken⟩
  | .read len =>
      ⟨s.receiver.setOutput (s.receiver.streamOut.read len).2, s.naive.consume len, s.started,
        s.taken ++ (s.receiver.streamOut.read len).1⟩
  | .pop len =>
      ⟨s.receiver.setOutput (s.receiver.streamOut.popOutput len), s.naive.consume len, s.started,
        s.taken ++ s.receiver.streamOut.peekOutput len⟩

/-- Honest pieces, each less than 2^31 away from the next byte expected. -/
def Honest (isn : WrappingInt32) (S : List UInt8) (s : Session) : Op → Prop
  | .deliver v seg => HonestPiece isn S v seg ∧
      s.receiver.streamOut.bytesWritten + 1 < v + 2 ^ 31 ∧
      v < s.receiver.streamOut.bytesWritten + 1 + 2 ^ 31
  | .read _ => True
  | .pop len => len ≤ s.receiver.streamOut.bufferSize

instance (isn : WrappingInt32) (S : List UInt8) (s : Session) (op : Op) :
    Decidable (s.Honest isn S op) := by
  cases op <;> unfold Honest <;> infer_instance

end Session

def machine (isn : WrappingInt32) (S : List UInt8) : Machine Session Op where
  enabled := Session.Honest isn S
  step := Session.step

instance (isn : WrappingInt32) (S : List UInt8) (s : Session) (op : Op) :
    Decidable ((machine isn S).enabled s op) :=
  inferInstanceAs (Decidable (s.Honest isn S op))

/-- The receiver's reassembler runs along the per-byte one; before the first SYN
nothing has happened. -/
structure Tracks (isn : WrappingInt32) (S : List UInt8) (capacity : ℕ) (s : Session) : Prop where
  refines : Refines S ⟨s.receiver.reassembler, s.naive, s.taken⟩
  syn_eq : s.receiver.synReceived = s.started
  isn_eq : s.receiver.synReceived = true → s.receiver.isn = isn
  capacity_eq : s.receiver.reassembler.capacity = capacity
  untouched : s.started = false → s.receiver = TCPReceiver.new capacity

theorem new_tracks (isn : WrappingInt32) (S : List UInt8) (capacity : ℕ) :
    Tracks isn S capacity (Session.new capacity) where
  refines := new_refines S capacity
  syn_eq := rfl
  isn_eq h := by simp [Session.new, TCPReceiver.new] at h
  capacity_eq := rfl
  untouched _ := rfl

section Step

variable {isn : WrappingInt32} {S : List UInt8} {capacity : ℕ} {s : Session}

theorem Tracks.deliver (h : Tracks isn S capacity s) (hS : S.length < 2 ^ 63) {v : ℕ}
    {seg : TCPSegment} (hop : s.Honest isn S (.deliver v seg)) :
    Tracks isn S capacity (s.step (.deliver v seg)) := by
  obtain ⟨hpiece, hlo, hhi⟩ := hop
  by_cases hstart : s.receiver.synReceived = true ∨ seg.header.syn = true
  · have hfirst := h.refines.assembles.content.first_le
    have hwritten : s.receiver.streamOut.bytesWritten = s.receiver.reassembler.firstUnasmb :=
      h.refines.assembles.rep.first_eq.symm
    simp only at hfirst
    have hflag : (s.started || seg.header.syn) = true := by
      rw [← h.syn_eq, Bool.or_eq_true]
      exact hstart
    have heq := segmentReceived_honest hpiece h.isn_eq hstart (by omega) (by omega) hlo hhi
    have hpush : Refines S ⟨s.receiver.reassembler.pushSubstring seg.payload (v - 1) seg.header.fin,
        s.naive.push (v - 1) seg.payload.length seg.header.fin, s.taken⟩ :=
      h.refines.push (by omega) ⟨hpiece.excerpt, by omega, hpiece.fin_last⟩
    have hcap := (h.refines.assembles.push (by omega) (by omega) hpiece.excerpt
      hpiece.fin_last).capacity_eq
    simp only [Session.step, hflag, heq]
    refine ⟨hpush, rfl, fun _ => rfl, hcap.trans h.capacity_eq, ?_⟩
    intro hfalse
    simp at hfalse
  · have hr : s.receiver.synReceived = false := by
      simpa using fun hr => hstart (Or.inl hr)
    have hseg : seg.header.syn = false := by
      simpa using fun hr => hstart (Or.inr hr)
    have hstarted : s.started = false := h.syn_eq.symm.trans hr
    have hstep : s.step (.deliver v seg) = s := by
      simp only [Session.step, segmentReceived_ignored hr hseg, hseg, hstarted]
      cases s
      simp at hstarted
      simp [hstarted]
    rw [hstep]
    exact h

theorem Tracks.pop (h : Tracks isn S capacity s) {len : ℕ}
    (hlen : len ≤ s.receiver.streamOut.curSize) : Tracks isn S capacity (s.step (.pop len)) where
  refines := h.refines.pop hlen
  syn_eq := h.syn_eq
  isn_eq := h.isn_eq
  capacity_eq := h.capacity_eq
  untouched hstarted := by
    have hnew := h.untouched hstarted
    rw [hnew] at hlen
    have hzero : len = 0 := Nat.le_zero.mp hlen
    simp only [Session.step, hnew, hzero]
    simp [TCPReceiver.setOutput, TCPReceiver.new, TCPReceiver.streamOut, StreamReassembler.new,
      ByteStream.popOutput, ByteStream.new]

theorem Tracks.read (h : Tracks isn S capacity s) (len : ℕ) :
    Tracks isn S capacity (s.step (.read len)) := by
  have hpop := h.pop (Nat.min_le_right len s.receiver.streamOut.curSize)
  have hread := h.refines.read len
  have hv : s.receiver.streamOut.Valid := h.refines.assembles.rep.output_valid
  have heq : (s.step (.read len)).receiver =
      (s.step (.pop (min len s.receiver.streamOut.curSize))).receiver := by
    simp only [Session.step, hv.read_eq]
  refine ⟨hread, h.syn_eq, h.isn_eq, h.capacity_eq, ?_⟩
  intro hstarted
  rw [heq]
  exact hpop.untouched hstarted

theorem Tracks.step (h : Tracks isn S capacity s) (hS : S.length < 2 ^ 63) (op : Op)
    (hop : s.Honest isn S op) : Tracks isn S capacity (s.step op) := by
  cases op with
  | deliver v seg => exact h.deliver hS hop
  | read len => exact h.read len
  | pop len => exact h.pop hop

end Step

/-- Nothing before the first SYN; then the longest prefix of S that the per-byte
reassembler has, acknowledged at its true position, with the window left. -/
structure Exact (isn : WrappingInt32) (S : List UInt8) (capacity : ℕ) (s : Session) : Prop where
  untouched : s.started = false → s.receiver = TCPReceiver.new capacity
  written_eq : s.receiver.streamOut.bytesWritten = s.naive.firstMissing
  bytes_eq : s.taken ++ s.receiver.streamOut.buffered = S.take s.naive.firstMissing
  ended_iff : s.receiver.streamOut.inputEnded = true ↔ s.naive.Ended S.length
  ackno_eq : s.receiver.ackno = if s.started then
      some (wrap (1 + s.receiver.streamOut.bytesWritten +
        (if s.receiver.streamOut.inputEnded then 1 else 0)) isn) else none
  window_eq : s.receiver.windowSize = capacity - s.receiver.streamOut.buffered.length

theorem Tracks.exact {isn : WrappingInt32} {S : List UInt8} {capacity : ℕ} {s : Session}
    (h : Tracks isn S capacity s) : Exact isn S capacity s where
  untouched := h.untouched
  written_eq := h.refines.agrees.written_eq
  bytes_eq := h.refines.agrees.bytes_eq
  ended_iff := h.refines.agrees.ended_iff
  ackno_eq := by
    unfold TCPReceiver.ackno
    rw [← h.syn_eq, Nat.add_comm 1]
    cases hsyn : s.receiver.synReceived with
    | true => simp [h.isn_eq hsyn]
    | false => simp
  window_eq := by
    have hout := h.refines.assembles.rep
    have hval : s.receiver.streamOut.Valid := hout.output_valid
    have hcap : s.receiver.streamOut.maxCapacity = capacity :=
      hout.capacity_eq.trans h.capacity_eq
    unfold TCPReceiver.windowSize
    rw [hval.remainingCapacity_eq, hval.buffered_length, hcap]

/-- The receiver is exact on streams of any length below 2^63. -/
theorem receiver_exact (isn : WrappingInt32) (S : List UInt8) (hS : S.length < 2 ^ 63)
    (capacity : ℕ) (ops : List Op) (hv : (machine isn S).Valid (Session.new capacity) ops) :
    Exact isn S capacity ((machine isn S).exec (Session.new capacity) ops) := by
  have h : Tracks isn S capacity ((machine isn S).exec (Session.new capacity) ops) :=
    (machine isn S).invariant (fun s op h hop => h.step hS op hop) (new_tracks isn S capacity) hv
  exact h.exact

theorem receiver_exact_reordered :
    Exact ⟨7⟩ [1, 2] 2 ((machine ⟨7⟩ [1, 2]).exec (Session.new 2)
      [.deliver 2 ⟨{ seqno := ⟨9⟩, fin := true }, [2]⟩,
        .deliver 0 ⟨{ seqno := ⟨7⟩, syn := true }, []⟩,
        .deliver 2 ⟨{ seqno := ⟨9⟩, fin := true }, [2]⟩, .deliver 1 ⟨{ seqno := ⟨8⟩ }, [1]⟩,
        .read 1]) :=
  receiver_exact ⟨7⟩ [1, 2] (by decide) 2 _ (by decide)

end Receiving

end Sponge
