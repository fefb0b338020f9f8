import Sponge.ConnectionStates

/-!
The states of two endpoints that talk to each other.
As long as none of its numbers is acknowledged, an endpoint sends a bare SYN and bare
acknowledgments, and its peer can acknowledge nothing but the SYN. The peer's FIN then
comes with an acknowledgment of that SYN. The one thing that disturbs the order is an
acknowledgment that overtakes the SYN it should have come with: the answer to a repeated
SYN is a bare acknowledgment.
-/
namespace Sponge

open Words Assembly SenderLoop SenderQueue SenderBooks SenderRuns SenderOutput ConnectionCalls
  Link TCPConnection

namespace Handshake

/-- Neither payload nor FIN. -/
def Bare (seg : TCPSegment) : Prop := seg.payload = [] ∧ seg.header.fin = false

/-- The first window has room for the SYN and for nothing else. -/
structure Hushed (s : TCPSender) : Prop where
  window_eq : s.windowSize = 1
  next_le : s.nextSeqno ≤ 1
  outstanding : ∀ e ∈ s.outstandingSegments, Bare e.segment
  queued : ∀ seg ∈ s.segmentsOut, Bare seg

section Sender

variable {s : TCPSender}

theorem no_payload_room (h : Sane s) (hack : s.absAckno = 0) (hwin : s.windowSize = 1)
    (hguard : s.nextSeqno ≤ s.absAckno + s.windowSize) : s.payloadRoom = 0 := by
  have hroom : s.windowRoom = 1 - s.nextSeqno := by
    rw [h.windowRoom_eq hguard, hwin, hack]
    simp
  have hsyn := h.nextSyn_iff hguard
  unfold TCPSender.payloadRoom
  simp only
  split
  · rename_i hnext
    rw [hroom, hsyn.mp hnext]
    rfl
  · rename_i hnext
    have hpos : s.nextSeqno ≠ 0 := fun hzero => hnext (hsyn.mpr hzero)
    rw [hroom, show 1 - s.nextSeqno = 0 by omega]
    rfl

/-- The only round of the loop before the first acknowledgment. -/
theorem first_round (h : Sane s) (hack : s.absAckno = 0) (hwin : s.windowSize = 1)
    (hs : Sends s) : Bare s.nextSegment ∧
      s.nextSeqno + s.nextSegment.lengthInSequenceSpace = 1 := by
  have hroom := no_payload_room h hack hwin hs.1
  have hlen : s.nextPayload.length = 0 := by
    rw [h.nextPayload_length, hroom]
    exact Nat.zero_min _
  have hfin : s.nextFin = false := by
    unfold TCPSender.nextFin TCPSender.finRoom
    rw [hroom, hlen]
    exact Bool.and_false _
  have hpos := hs.2.2
  rw [TCPSender.nextSegment_length, hlen, hfin] at hpos ⊢
  have hsyn : s.nextSyn = true := by
    by_contra hno
    simp [hno] at hpos
  have hzero := (h.nextSyn_iff hs.1).mp hsyn
  refine ⟨⟨List.length_eq_zero_iff.mp hlen, hfin⟩, ?_⟩
  rw [hzero, hsyn]
  rfl

theorem Hushed.fillWindow (h : Hushed s) (hord : Ordered s) (hack : s.absAckno = 0) :
    Hushed s.fillWindow := by
  refine (fillWindow_rule (P := fun q => Ordered q ∧ q.absAckno = 0 ∧ Hushed q) ?_ ?_ s
    ⟨hord, hack, h⟩).1.2.2
  · exact fun q hq => hq.1.sane.stream_valid
  · rintro q ⟨hq, hzero, hushed⟩ hs
    obtain ⟨hbare, hlen⟩ := first_round hq.sane hzero hushed.window_eq hs
    refine ⟨hq.transmitNext hs, hzero, hushed.window_eq, Nat.le_of_eq hlen, ?_, ?_⟩
    · exact List.forall_mem_append.mpr ⟨hushed.outstanding, List.forall_mem_singleton.mpr hbare⟩
    · exact List.forall_mem_append.mpr ⟨hushed.queued, List.forall_mem_singleton.mpr hbare⟩

theorem Hushed.tick (h : Hushed s) (ms : ℕ) : Hushed (s.tick ms) := by
  obtain ⟨hsame, hticked⟩ := tick_cases s ms
  refine ⟨hsame.windowSize_eq.trans h.window_eq, hsame.nextSeqno_eq ▸ h.next_le, ?_, ?_⟩
  · rw [hsame.outstanding_eq]
    exact h.outstanding
  · rcases hticked with ⟨-, hqueue, -, -⟩ | ⟨oldest, rest, hhead, -, hqueue, -⟩
    · rw [hqueue]
      exact h.queued
    · have hold := h.outstanding oldest (hhead ▸ List.mem_cons_self ..)
      rw [hqueue]
      exact List.forall_mem_append.mpr ⟨h.queued, List.forall_mem_singleton.mpr hold⟩

theorem Hushed.setStream (h : Hushed s) (stream : ByteStream) : Hushed (s.setStream stream) :=
  ⟨h.window_eq, h.next_le, h.outstanding, h.queued⟩

/-- Only an acknowledgment opens the window. -/
theorem Hushed.apply (h : Hushed s) (hord : Ordered s) (hack : s.absAckno = 0) {op : SenderOp}
    (hop : ∀ ackno win, op ≠ .ackReceived ackno win) : Hushed (s.apply op) := by
  cases op with
  | fillWindow => exact h.fillWindow hord hack
  | ackReceived ackno win => exact absurd rfl (hop ackno win)
  | tick ms => exact h.tick ms
  | sendEmptySegment =>
    have hempty : Bare { header := { seqno := wrap s.nextSeqno s.isn } } := ⟨rfl, rfl⟩
    exact ⟨h.window_eq, h.next_le, h.outstanding,
      List.forall_mem_append.mpr ⟨h.queued, List.forall_mem_singleton.mpr hempty⟩⟩
  | popSegment =>
    exact ⟨h.window_eq, h.next_le, h.outstanding, fun seg hseg =>
      h.queued seg (List.mem_of_mem_tail hseg)⟩
  | write data => exact h.setStream _
  | endInput => exact h.setStream _
  | setError => exact h.setStream _

/-- Whoever has something to send has sent a SYN. -/
theorem opened_apply (hord : Ordered s) {op : SenderOp} (hop : Proper s op)
    (h : s.segmentsOut ≠ [] → 0 < s.nextSeqno) :
    (s.apply op).segmentsOut ≠ [] → 0 < (s.apply op).nextSeqno := by
  cases op with
  | fillWindow => exact fun _ => Emission.fillWindow_sends_syn hord
  | ackReceived ackno win =>
    have hack := (hord.ackReceived ackno win).sane.ack_le
    change (s.ackReceived ackno win).segmentsOut ≠ [] → 0 < (s.ackReceived ackno win).nextSeqno
    rcases ackReceived_cases s ackno win with ⟨-, heq⟩ | ⟨ack, -, hlo, hhi, heq⟩
    · rw [heq]
      exact h
    · rw [heq]
      exact fun _ => Emission.fillWindow_sends_syn
        ((hord.setWindow win.toNat_lt).acknowledge hlo hhi)
  | tick ms =>
    obtain ⟨hsame, hticked⟩ := tick_cases s ms
    change (s.tick ms).segmentsOut ≠ [] → 0 < (s.tick ms).nextSeqno
    rw [hsame.nextSeqno_eq]
    rcases hticked with ⟨-, hqueue, -, -⟩ | ⟨oldest, rest, hhead, -, -, -⟩
    · rw [hqueue]
      exact h
    · have hlt := (hord.below (hhead ▸ List.mem_cons_self ..)).2
      intro _
      omega
  | sendEmptySegment => exact fun _ => hop.2 rfl
  | popSegment =>
    intro hne
    apply h
    intro hnil
    exact hne (by simp [TCPSender.apply, hnil])
  | write data => exact h
  | endInput => exact h
  | setError => exact h

/-- The SYN's acknowledgment is accepted, and none is taken back. -/
theorem ackReceived_pos (hord : Ordered s) {ackno : WrappingInt32} (win : UInt16)
    (h : 0 < s.absAckno ∨ (s.absAckno = 0 ∧ ackno = wrap 1 s.isn ∧ 0 < s.nextSeqno)) :
    0 < (s.ackReceived ackno win).absAckno := by
  rcases ackReceived_cases s ackno win with ⟨hbad, heq⟩ | ⟨ack, -, hlo, hhi, heq⟩
  · rw [heq]
    rcases h with hpos | ⟨hzero, hackno, hsent⟩
    · exact hpos
    · have hval : unwrap ackno s.isn s.absAckno = 1 := by
        rw [hackno, hzero]
        exact unwrap_wrap s.isn (by omega) (by omega) (by omega) (by omega)
      exact absurd ⟨by omega, by omega⟩ hbad
  · obtain ⟨-, ⟨fresh, hfilled⟩, -⟩ :=
      ((hord.setWindow win.toNat_lt).acknowledge hlo hhi).fillWindow
    rw [heq, hfilled.absAckno_eq]
    exact Nat.lt_of_le_of_lt (Nat.zero_le _) hlo

end Sender

theorem segmentReceived_eofSet (r : TCPReceiver) (seg : TCPSegment)
    (h : (r.segmentReceived seg).reassembler.eofSet = true) :
    r.reassembler.eofSet = true ∨ seg.header.fin = true := by
  unfold TCPReceiver.segmentReceived at h
  dsimp only at h
  split at h
  · rw [TCPReceiver.noteSyn_reassembler] at h
    exact Or.inl h
  · rw [TCPReceiver.noteSyn_reassembler] at h
    exact Reassembly.pushSubstring_eofSet _ _ _ h

/-- What an endpoint has said and heard of the handshake. -/
structure Opening (c : TCPConnection) : Prop where
  queued : c.sender.segmentsOut ≠ [] → 0 < c.sender.nextSeqno
  emitted : c.segmentsOut ≠ [] → 0 < c.sender.nextSeqno
  hushed : c.sender.absAckno = 0 → Hushed c.sender ∧ ∀ seg ∈ c.segmentsOut, Bare seg
  acked : c.active = true → 0 < c.sender.absAckno → c.receiver.synReceived = true
  fin_acks : ∀ seg ∈ c.segmentsOut, seg.header.fin = true → seg.header.ack = true

/-- Whoever has heard the peer's FIN has been acknowledged. -/
def FinHeard (c : TCPConnection) : Prop :=
  c.receiver.reassembler.eofSet = true → 0 < c.sender.absAckno

/-- What an endpoint knows of a sender that has said no more than its SYN. -/
structure Attends (s : TCPSender) (d : TCPConnection) : Prop where
  assembles : Assembles [] d.receiver.reassembler
  no_eof : d.receiver.reassembler.eofSet = false
  isn_eq : d.receiver.synReceived = true → d.receiver.isn = s.isn ∧ 0 < s.nextSeqno
  acks : ∀ seg ∈ d.segmentsOut, seg.header.ack = true →
    seg.header.ackno = wrap 1 s.isn ∧ 0 < s.nextSeqno

theorem new_opening (cfg : TCPConfig) (random : WrappingInt32) : Opening (new cfg random) where
  queued h := absurd rfl h
  emitted h := absurd rfl h
  hushed _ := ⟨⟨rfl, Nat.zero_le _, by simp [new, TCPSender.new], by simp [new, TCPSender.new]⟩,
    by simp [new]⟩
  acked _ h := absurd h (Nat.lt_irrefl 0)
  fin_acks := by simp [new]

theorem new_attends (s : TCPSender) (cfg : TCPConfig) (random : WrappingInt32) :
    Attends s (new cfg random) where
  assembles := new_assembles [] cfg.recvCapacity
  no_eof := rfl
  isn_eq h := by simp [new, TCPReceiver.new] at h
  acks := by simp [new]

section Moves

variable {S T : List UInt8} {c d : TCPConnection} {s s' : TCPSender}

theorem Opening.call (h : Opening c) (hout : Output S c.sender) {op : SenderOp}
    (hop : Proper c.sender op) (hno : ∀ ackno win, op ≠ .ackReceived ackno win) :
    Opening (c.callSender op) ∧ (c.callSender op).sender.absAckno = c.sender.absAckno := by
  have hack : (c.callSender op).sender.absAckno = c.sender.absAckno := by
    rcases absAckno_apply hout.ordered op with hsame | ⟨ackno, win, heq, -⟩
    · exact hsame
    · exact absurd heq (hno ackno win)
  have hnext : c.sender.nextSeqno ≤ (c.callSender op).sender.nextSeqno :=
    (hout.apply op hop).2.next_le
  refine ⟨⟨opened_apply hout.ordered hop h.queued, ?_, ?_, ?_, h.fin_acks⟩, hack⟩
  · exact fun hne => Nat.lt_of_lt_of_le (h.emitted hne) hnext
  · rw [hack]
    exact fun hzero => ⟨(h.hushed hzero).1.apply hout.ordered hzero hno, (h.hushed hzero).2⟩
  · rw [hack, callSender_receiver, callSender_active]
    exact h.acked

theorem bare_stamp {seg : TCPSegment} (h : Bare seg) (rst : Bool) : Bare (c.stamp rst seg) := by
  unfold TCPConnection.stamp
  cases c.receiver.ackno <;> cases rst <;> exact h

theorem stamp_fin (c : TCPConnection) (rst : Bool) (seg : TCPSegment) :
    (c.stamp rst seg).header.fin = seg.header.fin := by
  unfold TCPConnection.stamp
  cases c.receiver.ackno <;> cases rst <;> rfl

theorem Opening.emit (h : Opening c) (rst : Bool) : Opening (c.sendSegments rst) := by
  cases hactive : c.active with
  | false =>
    rw [sendSegments_of_inactive hactive]
    exact h
  | true =>
    rw [sendSegments_of_active hactive]
    refine ⟨fun hne => absurd rfl hne, ?_, ?_, h.acked, ?_⟩
    · intro hne
      by_cases hqueue : c.sender.segmentsOut = []
      · exact h.emitted fun hnil => hne (by simp [hnil, hqueue])
      · exact h.queued hqueue
    · intro hzero
      obtain ⟨hushed, hbare⟩ := h.hushed hzero
      refine ⟨⟨hushed.window_eq, hushed.next_le, hushed.outstanding, by simp⟩, ?_⟩
      refine List.forall_mem_append.mpr ⟨hbare, ?_⟩
      rw [List.forall_mem_map]
      exact fun seg hseg => bare_stamp (hushed.queued seg hseg) rst
    · refine List.forall_mem_append.mpr ⟨h.fin_acks, ?_⟩
      rw [List.forall_mem_map]
      intro seg hseg hfin
      rw [stamp_fin] at hfin
      apply stamp_ack_of_syn
      apply h.acked hactive
      -- a FIN in the queue shows that our SYN is acknowledged
      by_contra hzero
      have hbare := (h.hushed (by omega)).1.queued seg hseg
      rw [hbare.2] at hfin
      simp at hfin

theorem Attends.forward (h : Attends s d) (hisn : s'.isn = s.isn)
    (hnext : s.nextSeqno ≤ s'.nextSeqno) : Attends s' d := by
  refine ⟨h.assembles, h.no_eof, ?_, ?_⟩
  · intro hsyn
    obtain ⟨heq, hpos⟩ := h.isn_eq hsyn
    exact ⟨heq.trans hisn.symm, by omega⟩
  · intro seg hseg hack
    obtain ⟨heq, hpos⟩ := h.acks seg hseg hack
    rw [hisn]
    exact ⟨heq, by omega⟩

/-- Nothing but the SYN can be acknowledged. -/
theorem Attends.ackPoint_eq (h : Attends s d) (hsyn : d.receiver.synReceived = true) :
    ackPoint d.receiver = 1 := by
  have hwritten : d.receiver.streamOut.bytesWritten ≤ 0 := h.assembles.written_le
  have hopen : d.receiver.streamOut.inputEnded = false := by
    cases hended : d.receiver.streamOut.inputEnded with
    | false => rfl
    | true =>
      have heof := (h.assembles.ended_iff.mp hended).1
      rw [h.no_eof] at heof
      simp at heof
  unfold ackPoint
  rw [hsyn, hopen]
  simp only [if_true, Bool.false_eq_true, if_false]
  omega

theorem Attends.emit (h : Attends s d) (hplain : ∀ seg ∈ d.sender.segmentsOut, seg.header.Plain)
    (rst : Bool) : Attends s (d.sendSegments rst) := by
  cases hactive : d.active with
  | false =>
    rw [sendSegments_of_inactive hactive]
    exact h
  | true =>
    rw [sendSegments_of_active hactive]
    refine ⟨h.assembles, h.no_eof, h.isn_eq, ?_⟩
    refine List.forall_mem_append.mpr ⟨h.acks, ?_⟩
    rw [List.forall_mem_map]
    intro seg hseg hack
    have hstamp := Emission.stamp_stamped (c := d) (hplain seg hseg) rst
    have hsyn : d.receiver.synReceived = true := by
      rw [← AcknoAdvance.ackno_isSome]
      exact hstamp.ack_iff.mp hack
    have hackno := hstamp.ackno_eq hack
    obtain ⟨hisn, hpos⟩ := h.isn_eq hsyn
    rw [Link.ackno_eq, if_pos hsyn, h.ackPoint_eq hsyn, hisn] at hackno
    exact ⟨(Option.some.inj hackno).symm, hpos⟩

theorem Attends.of_same (h : Attends s d) {d' : TCPConnection} (hr : d'.receiver = d.receiver)
    (hs : d'.segmentsOut = d.segmentsOut) : Attends s d' := by
  obtain ⟨h1, h2, h3, h4⟩ := h
  rw [← hr] at h1 h2 h3
  rw [← hs] at h4
  exact ⟨h1, h2, h3, h4⟩

theorem Attends.setError (h : Attends s d) : Attends s d.reset :=
  ⟨h.assembles.setError, h.no_eof, h.isn_eq, h.acks⟩

theorem Attends.pop (h : Attends s d) {len : ℕ} (hlen : len ≤ d.inboundStream.curSize) :
    Attends s (d.setInbound (d.inboundStream.popOutput len)) :=
  ⟨h.assembles.pop hlen, h.no_eof, h.isn_eq, h.acks⟩

theorem Attends.read (h : Attends s d) (len : ℕ) :
    Attends s (d.setInbound (d.inboundStream.read len).2) := by
  have hvalid : d.inboundStream.Valid := h.assembles.rep.output_valid
  rw [hvalid.read_snd]
  exact h.pop (Nat.min_le_right _ _)

/-- A bare segment writes nothing and ends nothing. -/
theorem Attends.receive (h : Attends s d) {seg : TCPSegment} {v : ℕ} (hv : v ≤ 1)
    (hpiece : HonestPiece s.isn [] v seg) (hbare : Bare seg) (hpos : 0 < s.nextSeqno) (t : ℕ) :
    Attends s { d with receiver := d.receiver.segmentReceived seg, lastSegmRecvTimer := t } := by
  by_cases hstart : d.receiver.synReceived = true ∨ seg.header.syn = true
  · have hwritten : d.receiver.streamOut.bytesWritten ≤ 0 := h.assembles.written_le
    have heq := Receiving.segmentReceived_honest hpiece (fun hsyn => (h.isn_eq hsyn).1) hstart
      (by omega) (by omega) (by omega) (by omega)
    have hpush := h.assembles.push (by simp) (show v - 1 < 2 ^ 64 by omega) hpiece.excerpt
      hpiece.fin_last
    rw [heq]
    refine ⟨hpush.assembles, ?_, fun _ => ⟨rfl, hpos⟩, h.acks⟩
    change (d.receiver.reassembler.pushSubstring _ _ _).eofSet = false
    rw [hpush.eofSet_eq, h.no_eof, hbare.2]
    rfl
  · rw [not_or] at hstart
    rw [Receiving.segmentReceived_ignored (by simpa using hstart.1) (by simpa using hstart.2)]
    exact h.of_same rfl rfl

end Moves

/-- Two endpoints, each with what it knows of the other. -/
structure Greeted (S : List UInt8) (c : TCPConnection) (T : List UInt8) (d : TCPConnection) :
    Prop where
  coherent : ConnectionStates.Coherent S c
  peerCoherent : ConnectionStates.Coherent T d
  opening : Opening c
  peerOpening : Opening d
  heard : c.sender.absAckno = 0 → Attends c.sender d
  hears : d.sender.absAckno = 0 → Attends d.sender c

section Moves

variable {S T : List UInt8} {c c' d : TCPConnection}

theorem Greeted.call (h : Greeted S c T d) (op : SenderOp) (hop : Proper c.sender op)
    (hne : op ≠ .setError) (hno : ∀ ackno win, op ≠ .ackReceived ackno win) :
    Greeted (S ++ c.sender.acceptedBy op) (c.callSender op) T d := by
  have hout := h.coherent.speaks.output
  obtain ⟨hopening, hack⟩ := h.opening.call hout hop hno
  have hforward := (hout.apply op hop).2
  refine ⟨h.coherent.call op hop hne, h.peerCoherent, hopening, h.peerOpening, ?_, ?_⟩
  · rw [hack]
    exact fun hzero => (h.heard hzero).forward hforward.isn_eq hforward.next_le
  · exact fun hzero => (h.hears hzero).of_same (callSender_receiver c op) rfl

theorem Greeted.emit (h : Greeted S c T d) (rst : Bool) : Greeted S (c.sendSegments rst) T d := by
  have hplain := fun seg hseg => (h.coherent.speaks.output.queued seg hseg).2
  refine ⟨h.coherent.emit rst, h.peerCoherent, h.opening.emit rst, h.peerOpening, ?_,
    fun hzero => (h.hears hzero).emit hplain rst⟩
  cases hactive : c.active with
  | false =>
    rw [sendSegments_of_inactive hactive]
    exact h.heard
  | true =>
    rw [sendSegments_of_active hactive]
    exact fun hzero => (h.heard hzero).forward rfl (Nat.le_refl _)

/-- Whether an endpoint lingers, and its clock, do not matter. -/
theorem Greeted.of_same (h : Greeted S c T d) (hcoherent : ConnectionStates.Coherent S c')
    (hs : c'.sender = c.sender) (hr : c'.receiver = c.receiver)
    (ho : c'.segmentsOut = c.segmentsOut) (ha : c'.active = true → c.active = true) :
    Greeted S c' T d := by
  have hopening : Opening c' := by
    obtain ⟨h1, h2, h3, h4, h5⟩ := h.opening
    rw [← hs] at h1 h2 h3 h4
    rw [← hr] at h4
    rw [← ho] at h2 h3 h5
    exact ⟨h1, h2, h3, fun hactive => h4 (ha hactive), h5⟩
  exact ⟨hcoherent, h.peerCoherent, hopening, h.peerOpening, hs ▸ h.heard,
    fun hzero => (h.hears hzero).of_same hr ho⟩

theorem Greeted.reset (h : Greeted S c T d) : Greeted S c.reset T d where
  coherent := h.coherent.reset
  peerCoherent := h.peerCoherent
  opening := ⟨h.opening.queued, h.opening.emitted, fun hzero =>
    ⟨(h.opening.hushed hzero).1.setStream _, (h.opening.hushed hzero).2⟩,
    fun hactive => absurd hactive Bool.false_ne_true, h.opening.fin_acks⟩
  peerOpening := h.peerOpening
  heard hzero := (h.heard hzero).forward rfl (Nat.le_refl _)
  hears hzero := (h.hears hzero).setError

end Moves

/-- The invariant of a run in which no acknowledgment comes before its SYN. -/
structure Shaken (S : List UInt8) (c : TCPConnection) (T : List UInt8) (d : TCPConnection) :
    Prop where
  greeted : Greeted S c T d
  finHeard : FinHeard c
  peerFinHeard : FinHeard d

theorem Shaken.symm {S T : List UInt8} {c d : TCPConnection} (h : Shaken S c T d) :
    Shaken T d S c :=
  ⟨⟨h.greeted.peerCoherent, h.greeted.coherent, h.greeted.peerOpening, h.greeted.opening,
    h.greeted.hears, h.greeted.heard⟩, h.peerFinHeard, h.finHeard⟩

section Stable

variable {S T : List UInt8} {c c' d : TCPConnection}

theorem Shaken.call (h : Shaken S c T d) (op : SenderOp) (hop : Proper c.sender op)
    (hne : op ≠ .setError) (hno : ∀ ackno win, op ≠ .ackReceived ackno win) :
    Shaken (S ++ c.sender.acceptedBy op) (c.callSender op) T d := by
  obtain ⟨-, hack⟩ := h.greeted.opening.call h.greeted.coherent.speaks.output hop hno
  refine ⟨h.greeted.call op hop hne hno, ?_, h.peerFinHeard⟩
  unfold FinHeard
  rw [hack, callSender_receiver]
  exact h.finHeard

theorem Shaken.quietCall (h : Shaken S c T d) (op : SenderOp) (hop : Proper c.sender op)
    (hne : op ≠ .setError) (hno : ∀ ackno win, op ≠ .ackReceived ackno win)
    (hnil : c.sender.acceptedBy op = []) : Shaken S (c.callSender op) T d := by
  have hcall := h.call op hop hne hno
  rw [hnil, List.append_nil] at hcall
  exact hcall

theorem Shaken.of_same (h : Shaken S c T d) (hcoherent : ConnectionStates.Coherent S c')
    (hs : c'.sender = c.sender) (hr : c'.receiver = c.receiver)
    (ho : c'.segmentsOut = c.segmentsOut) (ha : c'.active = true → c.active = true) :
    Shaken S c' T d := by
  refine ⟨h.greeted.of_same hcoherent hs hr ho ha, ?_, h.peerFinHeard⟩
  unfold FinHeard
  rw [hs, hr]
  exact h.finHeard

theorem Shaken.emit (h : Shaken S c T d) (rst : Bool) : Shaken S (c.sendSegments rst) T d := by
  refine ⟨h.greeted.emit rst, ?_, h.peerFinHeard⟩
  unfold FinHeard TCPConnection.sendSegments
  split <;> exact h.finHeard

theorem shaken_stable (T : List UInt8) (d : TCPConnection) :
    Stable (fun S c => Shaken S c T d) where
  retx _ _ h := h.greeted.coherent.speaks.output.retx
  fill _ _ h := h.quietCall .fillWindow ⟨trivial, by simp⟩ (by simp) (by simp) rfl
  writeFill _ _ data h hopen :=
    (h.call (.write data) ⟨hopen, by simp⟩ (by simp) (by simp)).quietCall .fillWindow
      ⟨trivial, by simp⟩ (by simp) (by simp) rfl
  count _ _ ms h := h.quietCall (.tick ms) ⟨trivial, by simp⟩ (by simp) (by simp) rfl
  empty _ _ h hsent :=
    h.quietCall .sendEmptySegment ⟨trivial, fun _ => hsent⟩ (by simp) (by simp) rfl
  emit _ _ rst h := h.emit rst
  reset _ _ h := ⟨h.greeted.reset, h.finHeard, h.peerFinHeard⟩
  switch _ c h := h.of_same h.greeted.coherent.switch (trySwitchingCloseMode_sender c)
    (trySwitchingCloseMode_receiver c) (trySwitchingCloseMode_segmentsOut c)
    (trySwitchingCloseMode_active c ▸ id)
  close _ _ h hin hout := h.of_same (h.greeted.coherent.close hin hout) rfl rfl rfl
    fun hactive => absurd hactive Bool.false_ne_true
  timer S c t h :=
    h.of_same (ConnectionStates.coherent_stable.timer S c t h.greeted.coherent) rfl rfl rfl id

end Stable

section TakeIn

variable {S T : List UInt8} {c d : TCPConnection} {seg : TCPSegment}

/-- What the receiver of an unacknowledged peer makes of its segments. -/
theorem Greeted.attends (h : Greeted S c T d) (hseg : seg ∈ d.segmentsOut)
    (hzero : d.sender.absAckno = 0) (t : ℕ) : Attends d.sender
      { c with receiver := c.receiver.segmentReceived seg, lastSegmRecvTimer := t } := by
  obtain ⟨hushed, hbare⟩ := h.peerOpening.hushed hzero
  obtain ⟨v, hv, hpiece⟩ := (h.peerCoherent.speaks.emitted seg hseg).piece
  have hle := hushed.next_le
  have hempty := hbare seg hseg
  have hpos := h.peerOpening.emitted (List.ne_nil_of_mem hseg)
  have hnil : HonestPiece d.sender.isn [] v seg := by
    refine ⟨hpiece.seqno_eq, hpiece.syn_iff, ?_, ?_⟩
    · rw [hempty.1]
      exact List.nil_prefix
    · intro hfin
      rw [hempty.2] at hfin
      simp at hfin
  exact (h.hears hzero).receive (by omega) hnil hempty hpos t

theorem Greeted.receive (h : Greeted S c T d) (hseg : seg ∈ d.segmentsOut) :
    Greeted S { c with receiver := c.receiver.segmentReceived seg, lastSegmRecvTimer := 0 } T d
    where
  coherent := h.coherent.receive seg 0
  peerCoherent := h.peerCoherent
  opening := by
    refine ⟨h.opening.queued, h.opening.emitted, h.opening.hushed, ?_, h.opening.fin_acks⟩
    intro hactive hpos
    rw [AcknoAdvance.segmentReceived_synReceived, h.opening.acked hactive hpos]
    exact Bool.true_or _
  peerOpening := h.peerOpening
  heard := h.heard
  hears hzero := h.attends hseg hzero 0

/-- Once something is acknowledged, there is nothing left to know of the beginning. -/
theorem Greeted.of_acked {c' : TCPConnection} (h : Greeted S c T d)
    (hcoherent : ConnectionStates.Coherent S c') (hpos : 0 < c'.sender.absAckno)
    (hsyn : c'.active = true → c'.receiver.synReceived = true) (hr : c'.receiver = c.receiver)
    (ho : c'.segmentsOut = c.segmentsOut) : Greeted S c' T d := by
  have hle := hcoherent.speaks.output.ordered.sane.ack_le
  refine ⟨hcoherent, h.peerCoherent, ?_, h.peerOpening, fun hzero => by omega,
    fun hzero => (h.hears hzero).of_same hr ho⟩
  refine ⟨fun _ => by omega, fun _ => by omega, fun hzero => by omega,
    fun hactive _ => hsyn hactive, ?_⟩
  rw [ho]
  exact h.opening.fin_acks

/-- An acknowledgment of the peer finds our SYN at least. -/
theorem Greeted.acknowledged (h : Greeted S c T d) (hseg : seg ∈ d.segmentsOut)
    (hack : seg.header.ack = true) (win : UInt16) :
    0 < (c.sender.ackReceived seg.header.ackno win).absAckno := by
  apply ackReceived_pos h.coherent.speaks.output.ordered
  rcases Nat.eq_zero_or_pos c.sender.absAckno with hzero | hpos
  · obtain ⟨hackno, hsent⟩ := (h.heard hzero).acks seg hseg hack
    exact Or.inr ⟨hzero, hackno, hsent⟩
  · exact Or.inl hpos

/-- An acknowledgment comes before the SYN that it follows. -/
structure EarlyAck (c : TCPConnection) (seg : TCPSegment) : Prop where
  active : c.active = true
  no_rst : seg.header.rst = false
  ack : seg.header.ack = true
  unsynced : c.receiver.synReceived = false
  no_syn : seg.header.syn = false

/-- An active endpoint has the SYN when it takes over an acknowledgment that is not early. -/
theorem synReceived_of_not_early (hno : ¬ EarlyAck c seg) (hack : seg.header.ack = true)
    (hactive : (c.takeIn seg).active = true) : (c.takeIn seg).receiver.synReceived = true := by
  rw [takeIn_active, Bool.and_eq_true, Bool.not_eq_true'] at hactive
  rw [ConnectionStates.takeIn_synReceived]
  by_contra hunsynced
  rw [Bool.not_eq_true, Bool.or_eq_false_iff] at hunsynced
  exact hno ⟨hactive.1, hactive.2, hack, hunsynced.1, hunsynced.2⟩

/-- Taking in a segment of the peer, unless it is an acknowledgment before the SYN. -/
theorem Shaken.takeIn (h : Shaken S c T d) (hseg : seg ∈ d.segmentsOut)
    (hno : ¬ EarlyAck c seg) : Shaken S (c.takeIn seg) T d := by
  refine takeIn_cases (P := fun c' => Greeted S c' T d ∧
    (c'.receiver.reassembler.eofSet = true →
      c.receiver.reassembler.eofSet = true ∨ seg.header.fin = true) ∧
    c'.sender.absAckno = c.sender.absAckno) (Q := fun c' =>
      (seg.header.ack = true → c'.active = true → c'.receiver.synReceived = true) →
        Shaken S c' T d) ?_ ?_ ?_ ?_ (synReceived_of_not_early hno)
  · exact ⟨h.greeted.receive hseg, segmentReceived_eofSet c.receiver seg, rfl⟩
  · rintro c' ⟨hgreeted, heof, hack⟩
    exact ⟨hgreeted.reset, heof, hack⟩
  · rintro hisack c' ⟨hgreeted, -, -⟩ hsyn
    have hpos := hgreeted.acknowledged hseg hisack seg.header.win
    have hcoherent := hgreeted.coherent.quietCall
      (.ackReceived seg.header.ackno seg.header.win) ⟨trivial, by simp⟩ (by simp) rfl
    exact ⟨hgreeted.of_acked hcoherent hpos (hsyn hisack) (callSender_receiver c' _)
      (callSender_segmentsOut c' _), fun _ => hpos, h.peerFinHeard⟩
  · rintro hnoack c' ⟨hgreeted, heof, hack⟩ -
    refine ⟨hgreeted, ?_, h.peerFinHeard⟩
    intro hknown
    rw [hack]
    rcases heof hknown with hold | hfin
    · exact h.finHeard hold
    · exact absurd (h.greeted.peerOpening.fin_acks seg hseg hfin) hnoack

end TakeIn

section States

variable {S : List UInt8} {c : TCPConnection}

theorem ofReceiver_listen {r : TCPReceiver} (h : TCPState.ofReceiver r = .listen) :
    r.streamOut.error = false ∧ r.synReceived = false := by
  rw [← AcknoAdvance.ackno_isSome]
  unfold TCPState.ofReceiver at h
  split_ifs at h with herror hnone
  exact ⟨by simpa using herror, by simpa using hnone⟩

theorem ofReceiver_finRecv {r : TCPReceiver} (h : TCPState.ofReceiver r = .finRecv) :
    r.streamOut.inputEnded = true := by
  unfold TCPState.ofReceiver at h
  split_ifs at h
  assumption

theorem ofSender_synSent {s : TCPSender} (h : TCPState.ofSender s = .synSent) :
    s.nextSeqno ≠ 0 ∧ s.nextSeqno = s.bytesInFlight := by
  unfold TCPState.ofSender at h
  split_ifs at h with _ hzero hflight
  exact ⟨hzero, hflight⟩

/-- A sender that nobody has acknowledged is closed or waits. -/
theorem ofSender_unacked {s : TCPSender} (h : Sane s) (hok : s.stream.error = false)
    (hzero : s.absAckno = 0) :
    TCPState.ofSender s = .closed ∨ TCPState.ofSender s = .synSent := by
  have hflight := h.bytesInFlight_eq
  unfold TCPState.ofSender TCPSender.nextSeqnoAbsolute
  rw [hok, if_neg Bool.false_ne_true]
  by_cases hnext : s.nextSeqno = 0
  · rw [if_pos hnext]
    exact Or.inl rfl
  · rw [if_neg hnext, if_pos (by omega)]
    exact Or.inr rfl

/-- Without an acknowledgment before its SYN none of the states of disorder is reached. -/
theorem not_overtaken (h : ConnectionStates.Composed S c) (hopening : Opening c)
    (hheard : FinHeard c) : ¬ ConnectionStates.Overtaken c.state := by
  have hsane := h.coherent.speaks.output.ordered.sane
  have hflight := hsane.bytesInFlight_eq
  rintro (⟨hlisten, hclosed, hwaiting⟩ | ⟨hwaiting, hfin⟩)
  · obtain ⟨hok, hunsynced⟩ := ofReceiver_listen hlisten
    have hgood := h.coherent.error_eq.trans hok
    have hactive : c.active = true := by
      by_contra hoff
      rw [h.closed hgood (Bool.not_eq_true _ ▸ hoff)] at hlisten
      exact absurd hlisten TCPReceiverStateSummary.noConfusion
    have hzero : c.sender.absAckno = 0 := by
      by_contra hpos
      rw [hopening.acked hactive (by omega)] at hunsynced
      simp at hunsynced
    rcases ofSender_unacked hsane hgood hzero with hcase | hcase
    · exact hclosed hcase
    · exact hwaiting hcase
  · obtain ⟨hnext, hall⟩ := ofSender_synSent hwaiting
    have hpos := hheard (h.coherent.known (ofReceiver_finRecv hfin)).2
    omega

end States

end Handshake

end Sponge
