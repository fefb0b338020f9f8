import Sponge.SenderQueue

/-!
The bookkeeping invariant of the sender.
S is the list of bytes the outbound stream has accepted, `firsts` the segments
transmitted so far for the first time with their absolute sequence numbers. The
outstanding segments are the end of `firsts`, from the one that holds the
acknowledgment on; `firsts` cuts S into consecutive pieces.
-/
namespace Sponge.SenderBooks

open Words Excerpts Tiling TCPSender SenderLoop SenderQueue

/-- How far the sequence numbers have got: nothing sent, the SYN and what was read of
the stream, or the FIN as well. -/
def Position (s : TCPSender) : Prop :=
  (s.nextSeqno = 0 ∧ s.stream.bytesRead = 0) ∨ s.nextSeqno = s.stream.bytesRead + 1 ∨
    (s.nextSeqno = s.stream.bytesRead + 2 ∧ s.stream.eof = true)

structure Books (S : List UInt8) (firsts : List OrderedSegment) (s : TCPSender) : Prop where
  ordered : Ordered s
  written_eq : s.stream.bytesWritten = S.length
  unsent_eq : s.stream.buffered = S.drop s.stream.bytesRead
  position : Position s
  tiles : Consecutive 0 firsts s.nextSeqno
  suffix : s.outstandingSegments <:+ firsts
  honest : ∀ e ∈ firsts, HonestPiece s.isn S e.seqno e.segment
  plain : ∀ e ∈ firsts, e.segment.header.Plain
  payload_le : ∀ e ∈ firsts, e.segment.payload.length ≤ TCPConfig.maxPayloadSize
  payloads_eq : firsts.flatMap (fun e => e.segment.payload) = S.take s.stream.bytesRead

theorem new_books (capacity : ℕ) (rto : UInt16) (fixedIsn : Option WrappingInt32)
    (random : WrappingInt32) : Books [] [] (new capacity rto fixedIsn random) where
  ordered := new_ordered capacity rto fixedIsn random
  written_eq := rfl
  unsent_eq := by
    simp [new, ByteStream.buffered, ByteStream.peekOutput, ByteStream.new, ByteStream.bufferSize]
  position := Or.inl ⟨rfl, rfl⟩
  tiles := rfl
  suffix := List.suffix_refl _
  honest e he := by simp at he
  plain e he := by simp at he
  payload_le e he := by simp at he
  payloads_eq := rfl

namespace Books

variable {S : List UInt8} {firsts : List OrderedSegment} {s : TCPSender}

theorem sane (h : Books S firsts s) : Sane s := h.ordered.sane

theorem stream_valid (h : Books S firsts s) : s.stream.Valid := h.sane.stream_valid

theorem bytesRead_le (h : Books S firsts s) : s.stream.bytesRead ≤ S.length := by
  have hw := h.stream_valid.written_eq
  have hS := h.written_eq
  simp only [ByteStream.bytesWritten, ByteStream.bytesRead] at *
  omega

theorem curSize_eq (h : Books S firsts s) :
    s.stream.curSize = S.length - s.stream.bytesRead := by
  have hw := h.stream_valid.written_eq
  have hS := h.written_eq
  simp only [ByteStream.bytesWritten, ByteStream.bytesRead] at *
  omega

theorem eof_read (h : Books S firsts s) (heof : s.stream.eof = true) :
    s.stream.bytesRead = S.length := by
  have hsize := h.curSize_eq
  have hle := h.bytesRead_le
  simp only [ByteStream.eof, ByteStream.bufferEmpty, Bool.and_eq_true, beq_iff_eq] at heof
  omega

/-- As long as the FIN is not out, the next segment continues where reading stopped. -/
theorem next_pred (h : Books S firsts s) (hfin : s.finSent = false) :
    s.nextSeqno - 1 = s.stream.bytesRead := by
  rcases h.position with ⟨hzero, hread⟩ | hmid | ⟨hend, heof⟩
  · omega
  · omega
  · have hread := h.eof_read heof
    have hw := h.written_eq
    simp [finSent, heof] at hfin
    omega

theorem nextPayload_eq (h : Books S firsts s) :
    s.nextPayload = (S.drop s.stream.bytesRead).take s.payloadRoom := by
  unfold nextPayload
  rw [h.stream_valid.read_fst, h.unsent_eq]

/-- With the FIN the last byte is read. -/
theorem nextFin_spec (h : Books S firsts s) (hfin : s.nextFin = true) :
    s.streamAfter.eof = true ∧ s.stream.inputEnded = true ∧
      s.stream.bytesRead + s.nextPayload.length = S.length := by
  have heof : s.streamAfter.eof = true := by
    simp only [nextFin, Bool.and_eq_true] at hfin
    exact hfin.1
  have hsize := h.curSize_eq
  have hafter := h.sane.streamAfter_curSize
  have hlen := h.sane.nextPayload_length
  have hle := h.bytesRead_le
  have hparts := heof
  simp only [ByteStream.eof, ByteStream.bufferEmpty, Bool.and_eq_true, beq_iff_eq] at hparts
  refine ⟨heof, ?_, by omega⟩
  rw [← h.sane.streamAfter_frame.2.1]
  exact hparts.1

/-- A segment with the FIN stops where the stream stops: two past its last byte. -/
theorem fin_stop (h : Books S firsts s) {e : OrderedSegment} (he : e ∈ firsts)
    (hfin : e.segment.header.fin = true) : e.seqno + e.length = S.length + 2 := by
  have hpiece := h.honest e he
  have hlast := hpiece.fin_last hfin
  have hlen : e.length = _ := hpiece.length_eq
  rw [if_pos hfin] at hlen
  split at hlen <;> omega

/-- Once the FIN is out, the books are closed: all is read and the input has ended. -/
theorem fin_closes (h : Books S firsts s) {e : OrderedSegment} (he : e ∈ firsts)
    (hfin : e.segment.header.fin = true) :
    s.nextSeqno = S.length + 2 ∧ s.stream.eof = true := by
  have hstop := h.fin_stop he hfin
  have hbound := (h.tiles.bounds he).2
  have hread := h.bytesRead_le
  rcases h.position with ⟨hzero, -⟩ | hmid | ⟨hend, heof⟩
  · omega
  · omega
  · exact ⟨by omega, heof⟩

theorem nextSegment_honest (h : Books S firsts s) (hs : Sends s) :
    HonestPiece s.isn S s.nextSeqno s.nextSegment where
  seqno_eq := rfl
  syn_iff := h.sane.nextSyn_iff hs.1
  excerpt := by
    rw [h.next_pred hs.2.1]
    change s.nextPayload <+: S.drop s.stream.bytesRead
    rw [h.nextPayload_eq]
    exact List.take_prefix _ _
  fin_last hfin := by
    rw [h.next_pred hs.2.1]
    exact (h.nextFin_spec hfin).2.2

/-- Where a number that is not a SYN lies in a sent segment. -/
theorem covers_unacked (h : Books S firsts s) {n : ℕ} (hlo : s.absAckno ≤ n)
    (hhi : n < s.nextSeqno) :
    ∃ e ∈ s.outstandingSegments, e.seqno ≤ n ∧ n < e.seqno + e.length ∧
      HonestPiece s.isn S e.seqno e.segment := by
  obtain ⟨a, ha, htiles⟩ := h.ordered.front
  obtain ⟨e, he, hin⟩ := htiles.covers (Nat.le_trans ha hlo) hhi
  exact ⟨e, he, hin.1, hin.2, h.honest e (h.suffix.subset he)⟩

/-- A byte above the acknowledgment is outstanding or still in the stream. -/
theorem holds_byte (h : Books S firsts s) {p : ℕ} {b : UInt8} (hb : S[p]? = some b)
    (hack : s.absAckno ≤ p + 1) :
    (∃ e ∈ s.outstandingSegments, e.seqno - 1 ≤ p ∧
        e.segment.payload[p - (e.seqno - 1)]? = some b) ∨
      (s.stream.bytesRead ≤ p ∧ s.stream.buffered[p - s.stream.bytesRead]? = some b) := by
  by_cases hread : s.stream.bytesRead ≤ p
  · right
    refine ⟨hread, ?_⟩
    rw [h.unsent_eq, List.getElem?_drop, Nat.add_sub_cancel' hread]
    exact hb
  · left
    have hp : p < S.length := (List.getElem?_eq_some_iff.mp hb).1
    have hnext : p + 1 < s.nextSeqno := by
      rcases h.position with ⟨-, hzero⟩ | hmid | ⟨hend, -⟩ <;> omega
    obtain ⟨e, he, hle, hlt, hpiece⟩ := h.covers_unacked hack hnext
    have hin : p - (e.seqno - 1) < e.segment.payload.length := by
      have hlen : e.length = _ := hpiece.length_eq
      by_cases hfin : e.segment.header.fin = true
      · have hlast := hpiece.fin_last hfin
        omega
      · rw [if_neg hfin] at hlen
        split at hlen <;> omega
    refine ⟨e, he, by omega, ?_⟩
    rw [hpiece.excerpt.getElem? hin, Nat.add_sub_cancel' (by omega)]
    exact hb

/-- The number behind the last byte lies in the segment with the FIN. -/
theorem fin_of_covers {isn : WrappingInt32} {e : OrderedSegment}
    (hpiece : HonestPiece isn S e.seqno e.segment) (hle : e.seqno ≤ S.length + 1)
    (hlt : S.length + 1 < e.seqno + e.length) : e.segment.header.fin = true := by
  by_contra hfin
  have hlen : e.length = _ := hpiece.length_eq
  rw [if_neg hfin] at hlen
  by_cases hempty : e.segment.payload = []
  · rw [hempty] at hlen
    split at hlen <;> simp only [List.length_nil] at hlen <;> omega
  · have hstop := hpiece.excerpt.stop_le hempty
    split at hlen <;> omega

/-- A FIN that is out and not acknowledged is outstanding. -/
theorem holds_fin (h : Books S firsts s) (hnext : s.nextSeqno = S.length + 2)
    (hack : s.absAckno ≤ S.length + 1) :
    ∃ e ∈ s.outstandingSegments, e.segment.header.fin = true := by
  obtain ⟨e, he, hle, hlt, hpiece⟩ := h.covers_unacked hack (by omega)
  exact ⟨e, he, fin_of_covers hpiece hle hlt⟩

/-- The flag by which the loop stops says that a segment with the FIN went out. -/
theorem finSent_iff (h : Books S firsts s) :
    s.finSent = true ↔ ∃ e ∈ firsts, e.segment.header.fin = true := by
  have hwritten := h.written_eq
  constructor
  · intro hsent
    simp only [TCPSender.finSent, Bool.and_eq_true, decide_eq_true_eq] at hsent
    obtain ⟨-, hnext⟩ := hsent
    obtain ⟨e, he, hle, hlt⟩ := h.tiles.covers (Nat.zero_le (S.length + 1)) (by omega)
    exact ⟨e, he, fin_of_covers (h.honest e he) hle hlt⟩
  · intro hfin
    obtain ⟨e, he, hfin⟩ := hfin
    obtain ⟨hnext, heof⟩ := h.fin_closes he hfin
    simp only [TCPSender.finSent, Bool.and_eq_true, decide_eq_true_eq]
    exact ⟨heof, by omega⟩

theorem unsent_transmitNext (h : Books S firsts s) :
    s.streamAfter.buffered = S.drop s.streamAfter.bytesRead := by
  rw [h.sane.streamAfter_bytesRead, ← List.drop_drop, ← h.unsent_eq, h.sane.nextPayload_length]
  have hbuf := h.stream_valid.read_buffered s.payloadRoom
  change s.streamAfter.buffered = _ at hbuf
  rw [hbuf, List.drop_eq_drop_iff, h.stream_valid.buffered_length]
  omega

/-- Behind a segment with FIN the sequence numbers are at their end, behind any other one
number ahead of the stream. -/
theorem position_transmitNext (h : Books S firsts s) (hs : Sends s) : Position s.transmitNext := by
  have hpred := h.next_pred hs.2.1
  have hsyn := h.sane.nextSyn_iff hs.1
  have hnext : s.transmitNext.nextSeqno = s.nextSeqno + s.nextPayload.length +
      (if s.nextSyn then 1 else 0) + (if s.nextFin then 1 else 0) := by
    change s.nextSeqno + s.nextSegment.lengthInSequenceSpace = _
    rw [nextSegment_length]
    omega
  have hread : s.transmitNext.stream.bytesRead = s.stream.bytesRead + s.nextPayload.length :=
    h.sane.streamAfter_bytesRead
  have hbase : s.nextSeqno + (if s.nextSyn then 1 else 0) = s.stream.bytesRead + 1 := by
    by_cases hzero : s.nextSeqno = 0
    · rw [hsyn.mpr hzero]
      simp only [if_true]
      omega
    · have hno : ¬ s.nextSyn = true := fun hsy => hzero (hsyn.mp hsy)
      rw [if_neg hno]
      omega
  unfold Position
  rw [hnext, hread]
  cases hfin : s.nextFin with
  | true =>
    obtain ⟨heof, -⟩ := h.nextFin_spec hfin
    refine Or.inr (Or.inr ⟨?_, heof⟩)
    simp only [if_true]
    omega
  | false =>
    refine Or.inr (Or.inl ?_)
    simp only [Bool.false_eq_true, if_false]
    omega

theorem nextPayload_le (h : Books S firsts s) :
    s.nextPayload.length ≤ TCPConfig.maxPayloadSize := by
  have hroom := s.payloadRoom_le
  have hpl := h.sane.nextPayload_length
  omega

theorem payloads_transmitNext (h : Books S firsts s) :
    S.take s.stream.bytesRead ++ s.nextPayload = S.take s.streamAfter.bytesRead := by
  have hexc : IsExcerpt S s.stream.bytesRead s.nextPayload := by
    rw [h.nextPayload_eq]
    exact List.take_prefix _ _
  rw [h.sane.streamAfter_bytesRead]
  exact hexc.take_append

/-- One round of `fill_window` keeps the books, with its segment added to the firsts. -/
theorem transmitNext (h : Books S firsts s) (hs : Sends s) :
    Books S (firsts ++ [⟨s.nextSeqno, s.nextSegment⟩]) s.transmitNext where
  ordered := h.ordered.transmitNext hs
  written_eq := h.sane.streamAfter_frame.1.trans h.written_eq
  unsent_eq := h.unsent_transmitNext
  position := h.position_transmitNext hs
  tiles := h.tiles.snoc rfl hs.2.2
  suffix := by
    obtain ⟨old, hold⟩ := h.suffix
    refine ⟨old, ?_⟩
    change old ++ (s.outstandingSegments ++ _) = _
    rw [← hold, List.append_assoc]
  honest := List.forall_mem_append.mpr
    ⟨h.honest, List.forall_mem_singleton.mpr (h.nextSegment_honest hs)⟩
  plain := List.forall_mem_append.mpr
    ⟨h.plain, List.forall_mem_singleton.mpr (Eq.refl s.nextSegment.header)⟩
  payload_le := List.forall_mem_append.mpr
    ⟨h.payload_le, List.forall_mem_singleton.mpr h.nextPayload_le⟩
  payloads_eq := by
    rw [List.flatMap_append, h.payloads_eq, List.flatMap_singleton]
    exact h.payloads_transmitNext

end Books

section Operations

variable {S : List UInt8} {firsts fresh : List OrderedSegment} {s s' : TCPSender}

/-- `fill_window` keeps the books and stops where nothing more can be sent. -/
theorem Books.fillWindow (h : Books S firsts s) :
    ∃ fresh, Books S (firsts ++ fresh) s.fillWindow ∧ Filled s fresh s.fillWindow ∧
      ¬ Sends s.fillWindow := by
  have hrule := fillWindow_rule
    (P := fun q => ∃ fresh, Books S (firsts ++ fresh) q ∧ Filled s fresh q) ?_ ?_ s
    ⟨[], by simpa using h, Filled.refl s⟩
  · obtain ⟨⟨fresh, hbooks, hfilled⟩, hstop⟩ := hrule
    exact ⟨fresh, hbooks, hfilled, hstop⟩
  · intro q hq
    obtain ⟨fresh, hbooks, -⟩ := hq
    exact hbooks.stream_valid
  · intro q hq hs
    obtain ⟨fresh, hbooks, hfilled⟩ := hq
    refine ⟨fresh ++ [⟨q.nextSeqno, q.nextSegment⟩], ?_, hfilled.transmitNext hbooks.sane hs⟩
    rw [← List.append_assoc]
    exact hbooks.transmitNext hs

theorem Books.setWindow (h : Books S firsts s) {w : ℕ} (hw : w < 2 ^ 16) :
    Books S firsts { s with windowSize := w } :=
  ⟨h.ordered.setWindow hw, h.written_eq, h.unsent_eq, h.position, h.tiles, h.suffix, h.honest,
    h.plain, h.payload_le, h.payloads_eq⟩

theorem Books.acknowledge (h : Books S firsts s) {ack : ℕ} (hlo : s.absAckno < ack)
    (hhi : ack ≤ s.nextSeqno) : Books S firsts (s.acknowledge ack) :=
  ⟨h.ordered.acknowledge hlo hhi, h.written_eq, h.unsent_eq, h.position, h.tiles,
    (h.ordered.acknowledge_effect hlo).1.trans h.suffix, h.honest, h.plain, h.payload_le,
    h.payloads_eq⟩

theorem Books.of_same (h : Books S firsts s) (hs : SameQueue s s') : Books S firsts s' := by
  obtain ⟨h1, h2, h3, -, -, h6, -⟩ := id hs
  refine ⟨h.ordered.of_same hs, by rw [h2]; exact h.written_eq, by rw [h2]; exact h.unsent_eq, ?_,
    by rw [h3]; exact h.tiles, by rw [h6]; exact h.suffix, by rw [h1]; exact h.honest,
    h.plain, h.payload_le, by rw [h2]; exact h.payloads_eq⟩
  unfold Position
  rw [h2, h3]
  exact h.position

/-- A write before the input has ended. -/
theorem Books.write (h : Books S firsts s) (hopen : s.stream.inputEnded = false)
    (data : List UInt8) :
    Books (S ++ data.take (s.stream.write data).1) firsts
      (s.setStream (s.stream.write data).2) := by
  have hread := h.bytesRead_le
  have hgrow : S <+: S ++ data.take (s.stream.write data).1 := List.prefix_append _ _
  have hnofin : ∀ e ∈ firsts, e.segment.header.fin = true →
      S ++ data.take (s.stream.write data).1 = S := by
    intro e he hfin
    have heof := (h.fin_closes he hfin).2
    simp [ByteStream.eof, hopen] at heof
  refine ⟨h.ordered.setStream (h.stream_valid.write_valid data), ?_, ?_, ?_, h.tiles, h.suffix, ?_,
    h.plain, h.payload_le, ?_⟩
  · change s.stream.bytesWritten + (s.stream.write data).1 = _
    rw [h.written_eq, List.length_append, List.length_take]
    simp only [ByteStream.write]
    omega
  · change (s.stream.write data).2.buffered = (S ++ _).drop s.stream.bytesRead
    rw [h.stream_valid.write_buffered, h.unsent_eq, List.drop_append_of_le_length hread]
  · rcases h.position with hzero | hmid | ⟨-, heof⟩
    · exact Or.inl hzero
    · exact Or.inr (Or.inl hmid)
    · simp [ByteStream.eof, hopen] at heof
  · intro e he
    exact (h.honest e he).grow hgrow (hnofin e he)
  · change _ = (S ++ _).take s.stream.bytesRead
    rw [List.take_append_of_le_length hread]
    exact h.payloads_eq

theorem Books.endInput (h : Books S firsts s) : Books S firsts (s.setStream s.stream.endInput) := by
  refine ⟨h.ordered.setStream h.stream_valid.endInput, h.written_eq, h.unsent_eq, ?_, h.tiles,
    h.suffix, h.honest, h.plain, h.payload_le, h.payloads_eq⟩
  rcases h.position with hzero | hmid | ⟨hend, heof⟩
  · exact Or.inl hzero
  · exact Or.inr (Or.inl hmid)
  · refine Or.inr (Or.inr ⟨hend, ?_⟩)
    change s.stream.endInput.eof = true
    rw [ByteStream.endInput_of_eof heof]
    exact heof

theorem Books.setError (h : Books S firsts s) : Books S firsts (s.setStream s.stream.setError) :=
  ⟨h.ordered.setStream h.stream_valid.setError, h.written_eq, h.unsent_eq, h.position, h.tiles,
    h.suffix, h.honest, h.plain, h.payload_le, h.payloads_eq⟩

end Operations

end Sponge.SenderBooks
