import Sponge.AcknoAdvance

/-!
Segments outside the receiver's window.
Bytes are trimmed to the window, so bytes outside it go nowhere. The end of the stream
is recorded before the window is looked at: a FIN that claims an end at or below what
has been written ends the stream wherever its segment lies. With everything else the
stream stays as it is.
-/
namespace Sponge.OutOfWindow

open Words Runs StreamReassembler ChunkMerge Reassembly AcknoAdvance

section Push

variable {r : StreamReassembler} {data : List UInt8} {index : ℕ}

/-- No byte of the substring lies in the window. -/
def Beside (r : StreamReassembler) (data : List UInt8) (index : ℕ) : Prop :=
  index + data.length ≤ r.firstUnasmb ∨ r.firstUnacceptable ≤ index

/-- A substring that ends where the window begins is trimmed to nothing. -/
theorem trimToWindow_touching (h : Rep r) (htouch : index + data.length = r.firstUnasmb) :
    r.trimToWindow data index = ⟨[], r.firstUnasmb⟩ := by
  have hle := h.first_le
  have hedge := h.firstUnacceptable_eq
  have hshort : ¬ index + data.length > r.firstUnacceptable := by omega
  unfold trimToWindow
  dsimp only
  rw [if_neg hshort]
  split
  · rw [List.drop_of_length_le (by omega)]
  · have hnil : data = [] := List.eq_nil_of_length_eq_zero (by omega)
    rw [hnil, show index = r.firstUnasmb by omega]

/-- Beside the window a push records the end and tests for it; it does nothing else. -/
theorem push_beside (h : Rep r) (hopen : r.output.inputEnded = false)
    (hbeside : Beside r data index) (eof : Bool) :
    r.pushSubstring data index eof = (r.markEof data index eof).checkEof := by
  have hrep := h.markEof data index eof
  have hbeside' : Beside (r.markEof data index eof) data index := by
    cases eof <;> exact hbeside
  simp only [pushSubstring, hopen]
  generalize r.markEof data index eof = q at *
  rw [if_neg Bool.false_ne_true]
  by_cases hwin : q.inWindow data index
  · have htouch : index + data.length = q.firstUnasmb := by
      obtain ⟨hge, hlt⟩ := hwin
      have hmod : wrapAdd 64 index data.length ≤ index + data.length := Nat.mod_le _ _
      rcases hbeside' with hbelow | habove <;> omega
    have hplace : q.place ⟨[], q.firstUnasmb⟩ = q := by
      unfold place
      rw [if_pos rfl, ByteStream.write_nil]
      rfl
    rw [if_pos hwin, trimToWindow_touching hrep htouch, merge_empty hrep.first_lt]
    dsimp only
    rw [if_neg (by simp), hplace]
  · rw [if_neg hwin]

/-- The stream has not ended although its end is known: there are bytes missing. -/
def EndAhead (r : StreamReassembler) : Prop :=
  r.output.inputEnded = false → r.eofSet = true → r.firstUnasmb < r.lastByte

theorem endAhead_checkEof (r : StreamReassembler) : EndAhead r.checkEof := by
  unfold EndAhead checkEof
  split
  · intro hopen
    simp [ByteStream.inputEnded, ByteStream.endInput] at hopen
  · rename_i hno
    intro _ hset
    exact Nat.lt_of_not_le fun hle => hno ⟨hset, hle⟩

theorem EndAhead.checkEof_eq (h : EndAhead r) (hopen : r.output.inputEnded = false) :
    r.checkEof = r := by
  unfold checkEof
  split
  · rename_i hboth
    exact absurd hboth.2 (Nat.not_le.mpr (h hopen hboth.1))
  · rfl

/-- Also the push that returns early, for a substring already stored, keeps this: what is
stored lies ahead of the first missing byte, and the end of the substring with it. -/
theorem EndAhead.push (h : EndAhead r) (hrep : Rep r)
    (hfits : r.firstUnacceptable + data.length < 2 ^ 64) (eof : Bool) :
    EndAhead (r.pushSubstring data index eof) := by
  cases hopen : r.output.inputEnded with
  | true =>
    unfold pushSubstring
    rw [if_pos hopen]
    exact h
  | false =>
    rcases push_cases data index eof hrep hopen with
      ⟨r', -, -, heq⟩ | ⟨hwin, ⟨d, hd, hcon⟩, heq⟩ | ⟨-, heq⟩
    · rw [heq]
      exact endAhead_checkEof r'
    · rw [heq]
      cases eof with
      | false => exact h
      | true =>
        intro _ _
        have htrim := (hrep.markEof data index true).trimmed data hwin.2
        have hfirst := hrep.first_lt d hd
        have hahead : r.firstUnasmb < index := by
          by_contra hback
          have hfront : _ = r.firstUnasmb := htrim.index_eq (Nat.le_of_not_lt hback)
          have hle := hcon.1
          omega
        have hlast : index < r.firstUnacceptable := hwin.2
        change r.firstUnasmb < wrapAdd 64 index data.length
        rw [wrapAdd_of_lt (by omega)]
        omega
    · rw [heq]
      exact endAhead_checkEof _

end Push

section Segment

/-- The stream index of a segment without SYN, a 64-bit number: the number before the
first one wraps. -/
def streamIndex (r : TCPReceiver) (seg : TCPSegment) : ℕ :=
  wrapSub 64 (unwrap seg.header.seqno r.isn (r.streamOut.bytesWritten + 1)) 1

/-- The end of the stream that a FIN on the segment would claim. -/
def claimedEnd (r : TCPReceiver) (seg : TCPSegment) : ℕ :=
  wrapAdd 64 (streamIndex r seg) seg.payload.length

/-- No sequence number of the segment lies in the window; an empty segment counts as one
number, and so does an empty window. -/
def MissesWindow (r : TCPReceiver) (seg : TCPSegment) : Prop :=
  let s := unwrap seg.header.seqno r.isn (r.streamOut.bytesWritten + 1)
  let a := r.streamOut.bytesWritten + 1
  ∀ n, s ≤ n ∧ n < s + max seg.lengthInSequenceSpace 1 → ¬ (a ≤ n ∧ n < a + max r.windowSize 1)

/-- The positions up to the end of the window, and as many behind it as the segment has
bytes, are 64-bit numbers. -/
def Fits (r : TCPReceiver) (seg : TCPSegment) : Prop :=
  r.streamOut.bytesWritten + 1 + r.windowSize + seg.payload.length < 2 ^ 64

instance (r : TCPReceiver) (seg : TCPSegment) : Decidable (Fits r seg) :=
  inferInstanceAs (Decidable (_ < _))

/-- Nothing that can be asked of the stream or sent to the peer has changed. -/
structure Untouched (r r' : TCPReceiver) : Prop where
  written_eq : r'.streamOut.bytesWritten = r.streamOut.bytesWritten
  buffered_eq : r'.streamOut.buffered = r.streamOut.buffered
  ended_eq : r'.streamOut.inputEnded = r.streamOut.inputEnded
  ackno_eq : r'.ackno = r.ackno
  window_eq : r'.windowSize = r.windowSize
  unassembled_eq : r'.unassembledBytes = r.unassembledBytes

/-- The receiver as arbitrary segments and reads leave it. -/
structure Sound (r : TCPReceiver) : Prop where
  rep : Rep r.reassembler
  ahead : EndAhead r.reassembler

variable {r : TCPReceiver} {seg : TCPSegment}

theorem Sound.window_eq (h : Sound r) :
    r.reassembler.firstUnacceptable = r.streamOut.bytesWritten + r.windowSize := by
  have hwritten := h.rep.output_valid.written_eq
  have hsize := h.rep.output_valid.size_le
  have hcap := h.rep.capacity_eq
  unfold TCPReceiver.windowSize TCPReceiver.streamOut
  rw [h.rep.firstUnacceptable_eq, h.rep.output_valid.remainingCapacity_eq]
  unfold ByteStream.bytesWritten ByteStream.bytesRead
  omega

theorem segmentReceived_eq (hsyn : r.synReceived = true) (hseg : seg.header.syn = false) :
    r.segmentReceived seg = { r with
      reassembler :=
        r.reassembler.pushSubstring seg.payload (streamIndex r seg) seg.header.fin } := by
  simp [TCPReceiver.segmentReceived, TCPReceiver.noteSyn, streamIndex, hseg, hsyn]

/-- Two ranges that do not meet lie one behind the other. -/
theorem missesWindow_iff : MissesWindow r seg ↔
    unwrap seg.header.seqno r.isn (r.streamOut.bytesWritten + 1) +
        max seg.lengthInSequenceSpace 1 ≤ r.streamOut.bytesWritten + 1 ∨
      r.streamOut.bytesWritten + 1 + max r.windowSize 1 ≤
        unwrap seg.header.seqno r.isn (r.streamOut.bytesWritten + 1) := by
  constructor
  · intro h
    have hmax := h (max (unwrap seg.header.seqno r.isn (r.streamOut.bytesWritten + 1))
      (r.streamOut.bytesWritten + 1))
    omega
  · intro h n hn hw
    omega

instance (r : TCPReceiver) (seg : TCPSegment) : Decidable (MissesWindow r seg) :=
  decidable_of_iff _ missesWindow_iff.symm

/-- The number before the first one becomes the largest index. -/
theorem streamIndex_cases (r : TCPReceiver) (seg : TCPSegment) :
    (unwrap seg.header.seqno r.isn (r.streamOut.bytesWritten + 1) = 0 ∧
        streamIndex r seg = 2 ^ 64 - 1) ∨
      unwrap seg.header.seqno r.isn (r.streamOut.bytesWritten + 1) = streamIndex r seg + 1 := by
  unfold streamIndex
  generalize unwrap seg.header.seqno r.isn (r.streamOut.bytesWritten + 1) = s
  cases s with
  | zero => exact Or.inl ⟨rfl, rfl⟩
  | succ s =>
    right
    rw [wrapSub_of_le (Nat.le_add_left 1 s)]
    rfl

/-- Out of the window in sequence numbers is beside it in the stream. -/
theorem beside_of_missesWindow (h : Sound r) (hfits : Fits r seg) (hout : MissesWindow r seg) :
    Beside r.reassembler seg.payload (streamIndex r seg) := by
  have hfirst : r.reassembler.firstUnasmb = r.streamOut.bytesWritten := h.rep.first_eq
  have hlen : seg.payload.length ≤ seg.lengthInSequenceSpace := by
    unfold TCPSegment.lengthInSequenceSpace
    omega
  unfold Beside
  unfold Fits at hfits
  rw [hfirst, h.window_eq]
  rcases streamIndex_cases r seg with ⟨hzero, hindex⟩ | hsucc
  · right
    omega
  · rcases missesWindow_iff.mp hout with hbelow | habove
    · left
      omega
    · right
      omega

/-- Output and count of waiting bytes are all that shows. -/
theorem untouched_of_output {q : StreamReassembler} (hout : q.output = r.reassembler.output)
    (hcount : q.nUnasmbBytes = r.reassembler.nUnasmbBytes) :
    Untouched r { r with reassembler := q } := by
  have hstream : TCPReceiver.streamOut { r with reassembler := q } = r.streamOut := hout
  refine ⟨?_, ?_, ?_, ?_, ?_, hcount⟩
  · rw [hstream]
  · rw [hstream]
  · rw [hstream]
  · unfold TCPReceiver.ackno
    rw [hstream]
  · unfold TCPReceiver.windowSize
    rw [hstream]

theorem markEof_false (q : StreamReassembler) (data : List UInt8) (index : ℕ) :
    q.markEof data index false = q := rfl

/-- Where a FIN puts the end. -/
theorem checkEof_of_fin (q : StreamReassembler) (data : List UInt8) (index : ℕ) :
    (q.markEof data index true).checkEof.nUnasmbBytes = q.nUnasmbBytes ∧
      (q.markEof data index true).checkEof.output =
        if wrapAdd 64 index data.length ≤ q.firstUnasmb then q.output.endInput else q.output := by
  unfold checkEof markEof
  simp only [if_true, true_and]
  split <;> exact ⟨rfl, rfl⟩

/-- An end that shows. -/
theorem not_untouched_of_output {q : StreamReassembler} (hopen : r.streamOut.inputEnded = false)
    (hout : q.output = r.reassembler.output.endInput) :
    ¬ Untouched r { r with reassembler := q } := by
  have hended : (TCPReceiver.streamOut { r with reassembler := q }).inputEnded = true := by
    unfold TCPReceiver.streamOut
    rw [hout]
    rfl
  intro huntouched
  rw [huntouched.ended_eq, hopen] at hended
  exact Bool.false_ne_true hended

/-- A FIN beside the window leaves the stream alone unless the end it claims has passed. -/
theorem untouched_of_fin_iff (hfirst : r.reassembler.firstUnasmb = r.streamOut.bytesWritten)
    (hopen : r.streamOut.inputEnded = false) :
    Untouched r { r with
        reassembler := (r.reassembler.markEof seg.payload (streamIndex r seg) true).checkEof } ↔
      r.streamOut.bytesWritten < claimedEnd r seg := by
  obtain ⟨hcount, houtput⟩ := checkEof_of_fin r.reassembler seg.payload (streamIndex r seg)
  rw [hfirst, show wrapAdd 64 (streamIndex r seg) seg.payload.length = claimedEnd r seg from rfl]
    at houtput
  by_cases hahead : r.streamOut.bytesWritten < claimedEnd r seg
  · rw [if_neg (Nat.not_le.mpr hahead)] at houtput
    exact iff_of_true (untouched_of_output houtput hcount) hahead
  · rw [if_pos (Nat.le_of_not_lt hahead)] at houtput
    exact iff_of_false (not_untouched_of_output hopen houtput) hahead

/-- Beside the window only such a FIN makes a difference. -/
theorem untouched_iff (h : Sound r) (hsyn : r.synReceived = true)
    (hopen : r.streamOut.inputEnded = false) (hseg : seg.header.syn = false)
    (hbeside : Beside r.reassembler seg.payload (streamIndex r seg)) :
    Untouched r (r.segmentReceived seg) ↔
      seg.header.fin = false ∨ r.streamOut.bytesWritten < claimedEnd r seg := by
  rw [segmentReceived_eq hsyn hseg, push_beside h.rep hopen hbeside]
  cases seg.header.fin with
  | false =>
    rw [markEof_false, h.ahead.checkEof_eq hopen]
    exact iff_of_true (untouched_of_output rfl rfl) (Or.inl rfl)
  | true =>
    rw [untouched_of_fin_iff h.rep.first_eq hopen, or_iff_right Bool.true_eq_false.mp]

end Segment

section Runs

/-- Any segment whose positions fit; pops ask for at most what is there. -/
def Allowed (r : TCPReceiver) : Op → Prop
  | .deliver seg => Fits r seg
  | .read _ => True
  | .pop len => len ≤ r.streamOut.bufferSize

instance (r : TCPReceiver) : (op : Op) → Decidable (Allowed r op)
  | .deliver _ => inferInstanceAs (Decidable (_ < _))
  | .read _ => isTrue trivial
  | .pop _ => inferInstanceAs (Decidable (_ ≤ _))

def receiving : Machine TCPReceiver Op where
  enabled := Allowed
  step := AcknoAdvance.step

instance (r : TCPReceiver) (op : Op) : Decidable (receiving.enabled r op) :=
  inferInstanceAs (Decidable (Allowed r op))

theorem new_sound (capacity : ℕ) : Sound (TCPReceiver.new capacity) where
  rep := new_rep capacity
  ahead _ hset := by simp [TCPReceiver.new, StreamReassembler.new] at hset

theorem Sound.segmentReceived {r : TCPReceiver} {seg : TCPSegment} (h : Sound r)
    (hfits : Fits r seg) : Sound (r.segmentReceived seg) := by
  have hwindow := h.window_eq
  have hnoted := r.noteSyn_reassembler seg
  unfold Fits at hfits
  unfold TCPReceiver.segmentReceived
  dsimp only
  split
  · exact ⟨hnoted ▸ h.rep, hnoted ▸ h.ahead⟩
  · refine ⟨?_, ?_⟩
    · dsimp only
      rw [hnoted]
      exact h.rep.push _ _ _
    · dsimp only
      rw [hnoted]
      exact h.ahead.push h.rep (by omega) _

theorem Sound.step {r : TCPReceiver} (h : Sound r) (op : Op) (hop : Allowed r op) :
    Sound (AcknoAdvance.step r op) := by
  cases op with
  | deliver seg => exact h.segmentReceived hop
  | read len =>
    have hread := h.rep.output_valid.read_eq len
    simp only [AcknoAdvance.step, TCPReceiver.setOutput, TCPReceiver.streamOut, hread]
    exact ⟨h.rep.pop (Nat.min_le_right len _), h.ahead⟩
  | pop len => exact ⟨h.rep.pop hop, h.ahead⟩

/-- After any run, a segment without SYN that misses the window leaves an open stream
untouched exactly if it carries no FIN or claims an end not yet reached. -/
theorem out_of_window_untouched_iff (capacity : ℕ) (ops : List Op)
    (hv : receiving.Valid (TCPReceiver.new capacity) ops) (seg : TCPSegment)
    (hsyn : (receiving.exec (TCPReceiver.new capacity) ops).synReceived = true)
    (hopen : (receiving.exec (TCPReceiver.new capacity) ops).streamOut.inputEnded = false)
    (hseg : seg.header.syn = false)
    (hfits : Fits (receiving.exec (TCPReceiver.new capacity) ops) seg)
    (hout : MissesWindow (receiving.exec (TCPReceiver.new capacity) ops) seg) :
    let r := receiving.exec (TCPReceiver.new capacity) ops
    Untouched r (r.segmentReceived seg) ↔
      seg.header.fin = false ∨ r.streamOut.bytesWritten < claimedEnd r seg := by
  intro r
  have hsound : Sound r :=
    receiving.invariant (fun _ op h hop => h.step op hop) (new_sound capacity) hv
  exact untouched_iff hsound hsyn hopen hseg (beside_of_missesWindow hsound hfits hout)

/-- A receiver that has taken in the SYN and the first byte. -/
def oneByteIn : List Op :=
  [.deliver ⟨{ seqno := ⟨0⟩, syn := true }, []⟩, .deliver ⟨{ seqno := ⟨1⟩ }, [1]⟩]

/-- Bytes and a FIN far ahead. -/
theorem out_of_window_untouched_iff_ahead :
    let r := receiving.exec (TCPReceiver.new 4) oneByteIn
    Untouched r (r.segmentReceived ⟨{ seqno := ⟨100⟩, fin := true }, [7, 8]⟩) :=
  (out_of_window_untouched_iff 4 oneByteIn (by decide) ⟨{ seqno := ⟨100⟩, fin := true }, [7, 8]⟩
    (by decide) (by decide) (by decide) (by decide) (by decide)).mpr (by decide)

/-- A FIN in the place of the first byte ends the stream. -/
theorem stale_fin_ends_stream :
    let r := receiving.exec (TCPReceiver.new 4) oneByteIn
    let seg : TCPSegment := ⟨{ seqno := ⟨1⟩, fin := true }, []⟩
    r.synReceived = true ∧ r.streamOut.inputEnded = false ∧ MissesWindow r seg ∧
      (r.segmentReceived seg).streamOut.inputEnded = true ∧
      r.ackno = some ⟨2⟩ ∧ (r.segmentReceived seg).ackno = some ⟨3⟩ := by
  decide

end Runs

end Sponge.OutOfWindow
