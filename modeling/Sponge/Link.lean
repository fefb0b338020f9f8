import Sponge.ConnectionCalls

/-!
What two endpoints know of each other.
S is the stream one endpoint has accepted for sending. `Speaks` says of that endpoint
that all it has emitted are pieces of S. `Hears` says of its peer that what it has
assembled is a prefix of S, that it has acknowledged no more than that, and that the
sender believes no more than what was acknowledged. A peer that has given up lingering
has acknowledged all of S in every FIN it has emitted.
-/
namespace Sponge.Link

open Words Excerpts Assembly SenderQueue SenderBooks SenderRuns SenderOutput Receiving TCPConnection

/-- Streams short enough for sequence numbers to be unambiguous. -/
abbrev Short (S : List UInt8) : Prop := S.length < 2 ^ 31 - 2

/-- The absolute sequence number a receiver acknowledges; 0 before the SYN. -/
def ackPoint (r : TCPReceiver) : ℕ :=
  if r.synReceived then
    r.streamOut.bytesWritten + 1 + (if r.streamOut.inputEnded then 1 else 0)
  else 0

theorem ackno_eq (r : TCPReceiver) :
    r.ackno = if r.synReceived then some (wrap (ackPoint r) r.isn) else none := by
  unfold TCPReceiver.ackno ackPoint
  cases r.synReceived <;> rfl

theorem ackPoint_mono {r r' : TCPReceiver} (hsyn : r'.synReceived = true)
    (hwritten : r.streamOut.bytesWritten ≤ r'.streamOut.bytesWritten)
    (hended : r.streamOut.inputEnded = true → r'.streamOut.inputEnded = true) :
    ackPoint r ≤ ackPoint r' := by
  unfold ackPoint
  rw [if_pos hsyn]
  by_cases hend : r.streamOut.inputEnded = true
  · rw [if_pos hend, if_pos (hended hend)]
    split <;> omega
  · rw [if_neg hend]
    split <;> omega

/-- Both streams are over: the peer's has arrived, ours is acknowledged with its FIN. -/
def Finished (S : List UInt8) (c : TCPConnection) : Prop :=
  c.receiver.streamOut.inputEnded = true ∧ FinOut S c.sender ∧
    c.sender.absAckno = c.sender.nextSeqno

structure Speaks (S : List UInt8) (c : TCPConnection) : Prop where
  output : Output S c.sender
  emitted : ∀ seg ∈ c.segmentsOut, Sendable S c.sender seg
  closed : c.active = false → c.sender.stream.error = true ∨ Finished S c

structure Hears (S : List UInt8) (s : TCPSender) (d : TCPConnection) : Prop where
  isn_eq : d.receiver.synReceived = true → d.receiver.isn = s.isn
  started : d.receiver.reassembler.eofSet = true → d.receiver.synReceived = true
  assembles : Assembles S d.receiver.reassembler
  fin : d.receiver.reassembler.eofSet = true → FinOut S s
  acks : ∀ seg ∈ d.segmentsOut, seg.header.ack = true →
    ∃ a, a ≤ ackPoint d.receiver ∧ seg.header.ackno = wrap a s.isn
  acked : s.absAckno ≤ ackPoint d.receiver
  linger : d.lingerAfterStreamsFinish = false → d.receiver.streamOut.inputEnded = true
  fin_acks : d.lingerAfterStreamsFinish = false → ∀ seg ∈ d.segmentsOut,
    seg.header.fin = true → seg.header.ack = true ∧ seg.header.ackno = wrap (S.length + 2) s.isn

theorem new_speaks (cfg : TCPConfig) (random : WrappingInt32) : Speaks [] (new cfg random) where
  output := new_output _ _ _ _
  emitted seg hseg := by simp [new] at hseg
  closed h := by simp [new] at h

theorem new_hears (s : TCPSender) (hs : s.absAckno = 0) (cfg : TCPConfig) (random : WrappingInt32) :
    Hears [] s (new cfg random) where
  isn_eq h := by simp [new, TCPReceiver.new] at h
  started h := by simp [new, TCPReceiver.new, StreamReassembler.new] at h
  assembles := new_assembles [] cfg.recvCapacity
  fin h := by simp [new, TCPReceiver.new, StreamReassembler.new] at h
  acks seg hseg := by simp [new] at hseg
  acked := by
    rw [hs]
    exact Nat.zero_le _
  linger h := by simp [new] at h
  fin_acks h := by simp [new] at h

section Speaking

variable {S : List UInt8} {c : TCPConnection}

/-- A call of the sender keeps what the endpoint has said true. -/
theorem Speaks.call (h : Speaks S c) (op : SenderOp) (hop : Proper c.sender op) :
    Speaks (S ++ c.sender.acceptedBy op) (c.callSender op) := by
  obtain ⟨hout, hf⟩ := h.output.apply op hop
  refine ⟨hout, fun seg hseg => (h.emitted seg hseg).forward hf, ?_⟩
  intro hclosed
  rcases h.closed hclosed with herr | ⟨hended, hfin, hack⟩
  · exact Or.inl (hf.error herr)
  · obtain ⟨hsame, hfin'⟩ := hf.fin_out hfin
    right
    rw [hsame]
    refine ⟨hended, hfin', ?_⟩
    have hnext : (c.sender.apply op).nextSeqno = c.sender.nextSeqno := hfin'.1.trans hfin.1.symm
    change (c.sender.apply op).absAckno = (c.sender.apply op).nextSeqno
    rcases absAckno_apply h.output.ordered op with hno | ⟨ackno, win, -, hlo, hhi, -⟩
    · omega
    · omega

/-- Stamping leaves a piece of the stream what it is. -/
theorem Sendable.stamp {s : TCPSender} {seg : TCPSegment} (h : Sendable S s seg)
    (rst : Bool) : Sendable S s (c.stamp rst seg) := by
  obtain ⟨v, hv, hpiece⟩ := h.piece
  have hsame : (c.stamp rst seg).header.seqno = seg.header.seqno ∧
      (c.stamp rst seg).header.syn = seg.header.syn ∧
      (c.stamp rst seg).header.fin = seg.header.fin := by
    unfold TCPConnection.stamp
    cases c.receiver.ackno <;> cases rst <;> exact ⟨rfl, rfl, rfl⟩
  obtain ⟨hseq, hsyn, hfin⟩ := hsame
  refine ⟨⟨v, hv, ?_, ?_, hpiece.excerpt, ?_⟩, ?_⟩
  · rw [hseq]
    exact hpiece.seqno_eq
  · rw [hsyn]
    exact hpiece.syn_iff
  · rw [hfin]
    exact hpiece.fin_last
  · rw [hfin]
    exact h.fin_out

theorem Speaks.emit (h : Speaks S c) (rst : Bool) : Speaks S (c.sendSegments rst) := by
  unfold TCPConnection.sendSegments
  split
  · have hf : Forward S c.sender S { c.sender with segmentsOut := [] } :=
      Forward.of_parts rfl rfl rfl
    refine ⟨h.output.drain, ?_, h.closed⟩
    intro seg hseg
    rcases List.mem_append.mp hseg with hold | hnew
    · exact (h.emitted seg hold).forward hf
    · obtain ⟨seg', hmem, rfl⟩ := List.mem_map.mp hnew
      exact Sendable.stamp ((h.output.queued seg' hmem).1.forward hf) rst
  · exact h

theorem Speaks.reset (h : Speaks S c) : Speaks S c.reset := by
  obtain ⟨hout, hf⟩ := h.output.call .setError ⟨trivial, by simp⟩ rfl
  exact ⟨hout, fun seg hseg => (h.emitted seg hseg).forward hf, fun _ => Or.inl rfl⟩

/-- A change of the receiver alone that does not take back the end of the inbound stream. -/
theorem Speaks.setReceiver (h : Speaks S c) {r : TCPReceiver} {t : ℕ}
    (hended : c.receiver.streamOut.inputEnded = true → r.streamOut.inputEnded = true) :
    Speaks S { c with receiver := r, lastSegmRecvTimer := t } where
  output := h.output
  emitted := h.emitted
  closed hclosed := by
    rcases h.closed hclosed with herr | ⟨hin, hfin⟩
    · exact Or.inl herr
    · exact Or.inr ⟨hended hin, hfin⟩

/-- An endpoint closes only when both its streams are over. -/
theorem Speaks.close (h : Speaks S c) (hin : c.istreamDone = true) (hout : c.ostreamDone = true) :
    Speaks S { c with active := false } := by
  obtain ⟨firsts, hbooks⟩ := h.output.books
  have hw := hbooks.written_eq
  have hflight := hbooks.sane.bytesInFlight_eq
  have hack := hbooks.sane.ack_le
  simp only [istreamDone, Bool.and_eq_true] at hin
  simp only [ostreamDone, Bool.and_eq_true, beq_iff_eq, TCPSender.nextSeqnoAbsolute] at hout
  obtain ⟨⟨heof, hnext⟩, hzero⟩ := hout
  have hfin : FinOut S c.sender := ⟨by omega, heof⟩
  have hall : c.sender.absAckno = c.sender.nextSeqno := by omega
  exact ⟨h.output, h.emitted, fun _ => Or.inr ⟨hin.1, hfin, hall⟩⟩

end Speaking

section Hearing

variable {S S' : List UInt8} {s s' : TCPSender} {d : TCPConnection}

theorem Hears.ended (h : Hears S s d) (hended : d.receiver.streamOut.inputEnded = true) :
    FinOut S s ∧ d.receiver.streamOut.bytesWritten = S.length :=
  ⟨h.fin (h.assembles.ended_iff.mp hended).1, h.assembles.written_of_ended hended⟩

theorem Hears.ackPoint_le (h : Hears S s d) : ackPoint d.receiver ≤ S.length + 2 := by
  have hle : d.receiver.streamOut.bytesWritten ≤ S.length := h.assembles.written_le
  unfold ackPoint
  split
  · split <;> omega
  · omega

/-- The sender moves on without being acknowledged. -/
theorem Hears.forward (h : Hears S s d) (hf : Forward S s S' s')
    (hack : s'.absAckno ≤ ackPoint d.receiver) : Hears S' s' d := by
  have hsame : d.receiver.reassembler.eofSet = true → S' = S :=
    fun heof => (hf.fin_out (h.fin heof)).1
  refine ⟨?_, h.started, h.assembles.grow hf.grow hsame, ?_, ?_, hack, h.linger, ?_⟩
  · rw [hf.isn_eq]
    exact h.isn_eq
  · intro heof
    rw [hsame heof]
    exact (hf.fin_out (h.fin heof)).2
  · rw [hf.isn_eq]
    exact h.acks
  · intro hoff
    have heof := (h.assembles.ended_iff.mp (h.linger hoff)).1
    rw [hsame heof, hf.isn_eq]
    exact h.fin_acks hoff

/-- What the receiver puts into a header is what it acknowledges now. -/
theorem Hears.stamp_ack (h : Hears S s d) {seg : TCPSegment} (hplain : seg.header.Plain)
    (rst : Bool) (hack : (d.stamp rst seg).header.ack = true) :
    (d.stamp rst seg).header.ackno = wrap (ackPoint d.receiver) s.isn := by
  have hno : seg.header.ack = false := by
    rw [show seg.header = _ from hplain]
  have hackno := ackno_eq d.receiver
  unfold TCPConnection.stamp at hack ⊢
  cases hsyn : d.receiver.synReceived with
  | true =>
    rw [hsyn, if_pos rfl, h.isn_eq hsyn] at hackno
    rw [hackno]
    cases rst <;> rfl
  | false =>
    rw [hsyn, if_neg Bool.false_ne_true] at hackno
    rw [hackno] at hack
    cases rst <;> simp [hno] at hack

/-- Once the inbound stream has ended, every stamped header has an acknowledgment. -/
theorem stamp_ack_of_syn (seg : TCPSegment) (rst : Bool)
    (hsyn : d.receiver.synReceived = true) :
    (d.stamp rst seg).header.ack = true := by
  have hackno := ackno_eq d.receiver
  rw [hsyn, if_pos rfl] at hackno
  unfold TCPConnection.stamp
  rw [hackno]
  cases rst <;> rfl

/-- An ended inbound stream is acknowledged whole. -/
theorem Hears.ackPoint_of_ended (h : Hears S s d)
    (hended : d.receiver.streamOut.inputEnded = true) :
    d.receiver.synReceived = true ∧ ackPoint d.receiver = S.length + 2 := by
  have hsyn := h.started (h.assembles.ended_iff.mp hended).1
  have hwritten := (h.ended hended).2
  refine ⟨hsyn, ?_⟩
  unfold ackPoint
  rw [if_pos hsyn, if_pos hended, hwritten]

theorem Hears.emit (h : Hears S s d) (hplain : ∀ seg ∈ d.sender.segmentsOut, seg.header.Plain)
    (rst : Bool) : Hears S s (d.sendSegments rst) := by
  unfold TCPConnection.sendSegments
  split
  · refine ⟨h.isn_eq, h.started, h.assembles, h.fin, ?_, h.acked, h.linger, ?_⟩
    · intro seg hseg hack
      rcases List.mem_append.mp hseg with hold | hnew
      · exact h.acks seg hold hack
      · obtain ⟨seg', hmem, rfl⟩ := List.mem_map.mp hnew
        exact ⟨_, Nat.le_refl _, h.stamp_ack (hplain seg' hmem) rst hack⟩
    · intro hoff seg hseg hfin
      rcases List.mem_append.mp hseg with hold | hnew
      · exact h.fin_acks hoff seg hold hfin
      · obtain ⟨seg', hmem, rfl⟩ := List.mem_map.mp hnew
        obtain ⟨hsyn, hall⟩ := h.ackPoint_of_ended (h.linger hoff)
        have hack := stamp_ack_of_syn seg' rst hsyn
        refine ⟨hack, ?_⟩
        rw [h.stamp_ack (hplain seg' hmem) rst hack, hall]
  · exact h

theorem Hears.reset (h : Hears S s d) : Hears S s d.reset :=
  ⟨h.isn_eq, h.started, h.assembles.setError, h.fin, h.acks, h.acked, h.linger, h.fin_acks⟩

/-- Lingering is given up only before our own FIN exists. -/
theorem Hears.switch (h : Hears S s d)
    (hfin : ∀ seg ∈ d.segmentsOut, seg.header.fin = true → d.sender.stream.eof = true) :
    Hears S s d.trySwitchingCloseMode := by
  unfold TCPConnection.trySwitchingCloseMode
  split
  · rename_i hnow
    simp only [Bool.and_eq_true, Bool.not_eq_true'] at hnow
    refine ⟨h.isn_eq, h.started, h.assembles, h.fin, h.acks, h.acked, fun _ => hnow.2, ?_⟩
    intro _ seg hseg hseg'
    have heof := hfin seg hseg hseg'
    rw [hnow.1] at heof
    simp at heof
  · exact h

/-- What taking in a segment does to a receiver of the stream S. -/
structure TookIn (S : List UInt8) (isn : WrappingInt32) (seg : TCPSegment)
    (r r' : TCPReceiver) : Prop where
  isn_eq : r'.synReceived = true → r'.isn = isn
  started : r'.reassembler.eofSet = true → r'.synReceived = true
  assembles : Assembles S r'.reassembler
  ackPoint_le : ackPoint r ≤ ackPoint r'
  ended : r.streamOut.inputEnded = true → r'.streamOut.inputEnded = true
  eof : r'.reassembler.eofSet = true → r.reassembler.eofSet = true ∨ seg.header.fin = true
  bytesRead_eq : r'.streamOut.bytesRead = r.streamOut.bytesRead

theorem Hears.tookIn (h : Hears S s d) (hS : Short S) {seg : TCPSegment} {v : ℕ}
    (hv : v ≤ S.length + 2) (hpiece : HonestPiece s.isn S v seg) :
    TookIn S s.isn seg d.receiver (d.receiver.segmentReceived seg) := by
  unfold Short at hS
  have hwritten : d.receiver.streamOut.bytesWritten ≤ S.length := h.assembles.written_le
  by_cases hstart : d.receiver.synReceived = true ∨ seg.header.syn = true
  · have heq := segmentReceived_honest hpiece h.isn_eq hstart (by omega) (by omega) (by omega)
      (by omega)
    have hpush := h.assembles.push (by omega) (show v - 1 < 2 ^ 64 by omega) hpiece.excerpt
      hpiece.fin_last
    rw [heq]
    refine ⟨fun _ => rfl, fun _ => rfl, hpush.assembles, ?_, hpush.ended h.assembles, ?_,
      hpush.bytesRead_eq⟩
    · have hfirst := hpush.first_le
      rw [h.assembles.rep.first_eq, hpush.assembles.rep.first_eq] at hfirst
      exact ackPoint_mono rfl hfirst (hpush.ended h.assembles)
    · intro heof
      change (d.receiver.reassembler.pushSubstring _ _ _).eofSet = true at heof
      rw [hpush.eofSet_eq, Bool.or_eq_true] at heof
      exact heof
  · have hr : d.receiver.synReceived = false := by
      simpa using fun hr => hstart (Or.inl hr)
    have hseg : seg.header.syn = false := by
      simpa using fun hr => hstart (Or.inr hr)
    rw [segmentReceived_ignored hr hseg]
    exact ⟨h.isn_eq, h.started, h.assembles, Nat.le_refl _, id, Or.inl, rfl⟩

theorem Hears.receive (h : Hears S s d) {seg : TCPSegment} {r : TCPReceiver} (t : ℕ)
    (ht : TookIn S s.isn seg d.receiver r) (hfin : seg.header.fin = true → FinOut S s) :
    Hears S s { d with receiver := r, lastSegmRecvTimer := t } where
  isn_eq := ht.isn_eq
  started := ht.started
  assembles := ht.assembles
  fin heof := by
    rcases ht.eof heof with hold | hnew
    · exact h.fin hold
    · exact hfin hnew
  acks seg' hseg' hack := by
    obtain ⟨a, ha, heq⟩ := h.acks seg' hseg' hack
    exact ⟨a, Nat.le_trans ha ht.ackPoint_le, heq⟩
  acked := Nat.le_trans h.acked ht.ackPoint_le
  linger hoff := ht.ended (h.linger hoff)
  fin_acks := h.fin_acks

/-- The reader pops bytes that are there. -/
theorem Hears.pop (h : Hears S s d) {len : ℕ} (hlen : len ≤ d.receiver.streamOut.curSize) :
    Hears S s { d with receiver := d.receiver.setOutput (d.receiver.streamOut.popOutput len) } :=
  ⟨h.isn_eq, h.started, h.assembles.pop hlen, h.fin, h.acks, h.acked, h.linger, h.fin_acks⟩

end Hearing

end Sponge.Link
