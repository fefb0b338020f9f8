import Sponge.Recovery

/-!
When the states of two endpoints are official ones.
Every state between calls is an official state of TCP, unless a segment has come at a
moment when it should not: an acknowledgment before the SYN, the end of the peer's stream
while the own stream is at its end and the FIN has no room, or the last acknowledgment in
LAST_ACK, after which the endpoint stays active. The last of them happens whenever the
endpoint that closes second is closed without losses. From the states reached then the
endpoint goes on to official ones.
-/
namespace Sponge

open Words SenderLoop SenderQueue SenderBooks SenderOutput ConnectionCalls ConnectionProgress
  ConnectionStates Emission Link Record TCPConnection

namespace Handshake

section Fin

variable {S : List UInt8} {firsts : List OrderedSegment} {s : TCPSender} {op : SenderOp}

theorem finSent_iff_finOut (h : Books S firsts s) : s.finSent = true ↔ FinOut S s := by
  have hwritten := h.written_eq
  have hread := h.bytesRead_le
  constructor
  · intro hsent
    simp only [TCPSender.finSent, Bool.and_eq_true, decide_eq_true_eq] at hsent
    refine ⟨?_, hsent.1⟩
    rcases h.position with ⟨hzero, -⟩ | hmid | ⟨hend, -⟩ <;> omega
  · rintro ⟨hnext, heof⟩
    simp only [TCPSender.finSent, Bool.and_eq_true, decide_eq_true_eq]
    exact ⟨heof, by omega⟩

/-- Before the FIN there is a number left for it. -/
theorem next_le_of_fin_unsent (h : Books S firsts s) (hno : s.finSent = false) :
    s.nextSeqno ≤ S.length + 1 := by
  have hread := h.bytesRead_le
  rcases h.position with ⟨hzero, -⟩ | hmid | ⟨hend, heof⟩
  · omega
  · omega
  · have hall := h.eof_read heof
    have hsent := (finSent_iff_finOut h).mpr ⟨by omega, heof⟩
    rw [hno] at hsent
    exact absurd hsent Bool.false_ne_true

theorem finSent_apply (h : Output S s) (hop : Proper s op) (hsent : s.finSent = true) :
    (s.apply op).finSent = true ∧ (s.apply op).nextSeqno = s.nextSeqno := by
  obtain ⟨firsts, hbooks⟩ := h.books
  obtain ⟨hout, hforward⟩ := h.apply op hop
  obtain ⟨firsts', hbooks'⟩ := hout.books
  have hfin := (finSent_iff_finOut hbooks).mp hsent
  obtain ⟨hsame, hfin'⟩ := hforward.fin_out hfin
  rw [hsame] at hbooks'
  exact ⟨(finSent_iff_finOut hbooks').mpr hfin', hfin'.1.trans hfin.1.symm⟩

/-- Whatever a call acknowledges was sent before it. -/
theorem absAckno_apply_le (h : Output S s) (op : SenderOp) :
    (s.apply op).absAckno ≤ s.nextSeqno := by
  rcases absAckno_apply h.ordered op with hsame | ⟨ackno, win, -, -, hle, hnew⟩
  · rw [hsame]
    exact h.ordered.sane.ack_le
  · rw [hnew]
    exact hle

/-- The call that sends the FIN leaves it in flight. -/
theorem fin_unacked_of_new (h : Output S s) (hop : Proper s op) (hno : s.finSent = false)
    (hsent : (s.apply op).finSent = true) :
    (s.apply op).absAckno < (s.apply op).nextSeqno := by
  obtain ⟨firsts, hbooks⟩ := h.books
  obtain ⟨hout, hforward⟩ := h.apply op hop
  obtain ⟨firsts', hbooks'⟩ := hout.books
  have hfin := (finSent_iff_finOut hbooks').mp hsent
  have hnext := next_le_of_fin_unsent hbooks hno
  have hgrow := hforward.grow.length_le
  have hack := absAckno_apply_le h op
  have hlast := hfin.1
  omega

end Fin

/-- What is asked of an active endpoint between calls: if it lingers after the end of the
peer's stream, its FIN is out; if it does not linger, its FIN is not acknowledged. -/
structure Regular (c : TCPConnection) : Prop where
  fin_sent : c.active = true → c.receiver.streamOut.inputEnded = true →
    c.lingerAfterStreamsFinish = true → c.sender.finSent = true
  fin_unacked : c.active = true → c.lingerAfterStreamsFinish = false → c.sender.finSent = true →
    c.sender.absAckno < c.sender.nextSeqno

/-- A stream is not ended before the SYN is sent. -/
def Opened (c : TCPConnection) : Prop :=
  c.sender.stream.inputEnded = true → 0 < c.sender.nextSeqno

section Stable

variable {S : List UInt8} {c c' : TCPConnection}

theorem new_regular (cfg : TCPConfig) (random : WrappingInt32) : Regular (new cfg random) where
  fin_sent _ h := by simp [new, TCPReceiver.new, TCPReceiver.streamOut, StreamReassembler.new,
    ByteStream.new, ByteStream.inputEnded] at h
  fin_unacked _ h := by simp [new] at h

theorem Regular.of_inactive (h : c.active = false) : Regular c :=
  ⟨fun hactive => absurd (hactive.symm.trans h) Bool.noConfusion,
    fun hactive => absurd (hactive.symm.trans h) Bool.noConfusion⟩

/-- Calls of the sender other than acknowledgments. -/
theorem Regular.call (h : Regular c) (hout : Output S c.sender) {op : SenderOp}
    (hop : Proper c.sender op) (hno : ∀ ackno win, op ≠ .ackReceived ackno win) :
    Regular (c.callSender op) := by
  have hack : (c.callSender op).sender.absAckno = c.sender.absAckno := by
    rcases absAckno_apply hout.ordered op with hsame | ⟨ackno, win, heq, -⟩
    · exact hsame
    · exact absurd heq (hno ackno win)
  refine ⟨?_, ?_⟩ <;> rw [callSender_active, callSender_linger]
  · rw [callSender_receiver]
    intro hactive hended hlinger
    exact (finSent_apply hout hop (h.fin_sent hactive hended hlinger)).1
  · intro hactive hlinger hsent
    cases hbefore : c.sender.finSent with
    | true =>
      have hnext : (c.callSender op).sender.nextSeqno = c.sender.nextSeqno :=
        (finSent_apply hout hop hbefore).2
      rw [hack, hnext]
      exact h.fin_unacked hactive hlinger hbefore
    | false => exact fin_unacked_of_new hout hop hbefore hsent

/-- The queue of the sender does not matter. -/
theorem Regular.of_requeued (h : Regular c) (hs : Requeued c.sender c'.sender)
    (hr : c'.receiver = c.receiver)
    (hl : c'.lingerAfterStreamsFinish = c.lingerAfterStreamsFinish)
    (ha : c'.active = c.active) : Regular c' := by
  obtain ⟨out, hsender⟩ := hs
  refine ⟨?_, ?_⟩ <;> rw [ha, hl, hsender]
  · rw [hr]
    exact h.fin_sent
  · exact h.fin_unacked

/-- An endpoint stops lingering only when its own stream is not at its end. -/
theorem Regular.switch (h : Regular c) : Regular c.trySwitchingCloseMode := by
  unfold trySwitchingCloseMode
  split
  · rename_i hnow
    simp only [Bool.and_eq_true, Bool.not_eq_true'] at hnow
    refine ⟨fun _ _ hlinger => absurd hlinger Bool.false_ne_true, fun _ _ hsent => ?_⟩
    simp only [TCPSender.finSent, hnow.1, Bool.false_and, Bool.false_eq_true] at hsent
  · exact h

theorem regular_stable : Stable (fun S c => Coherent S c ∧ Regular c) where
  retx S c h := coherent_stable.retx S c h.1
  fill S c h := ⟨coherent_stable.fill S c h.1,
    h.2.call h.1.speaks.output ⟨trivial, by simp⟩ (by simp)⟩
  writeFill S c data h hopen := by
    have hop : Proper c.sender (.write data) := ⟨hopen, by simp⟩
    have hwritten := h.1.call (.write data) hop (by simp)
    exact ⟨coherent_stable.writeFill S c data h.1 hopen,
      (h.2.call h.1.speaks.output hop (by simp)).call hwritten.speaks.output ⟨trivial, by simp⟩
        (by simp)⟩
  count S c ms h := ⟨coherent_stable.count S c ms h.1,
    h.2.call h.1.speaks.output ⟨trivial, by simp⟩ (by simp)⟩
  empty S c h hsent := ⟨coherent_stable.empty S c h.1 hsent,
    h.2.call h.1.speaks.output ⟨trivial, fun _ => hsent⟩ (by simp)⟩
  emit S c rst h := ⟨coherent_stable.emit S c rst h.1,
    h.2.of_requeued (sendSegments_requeued c rst) (sendSegments_receiver c rst)
      (sendSegments_linger c rst) (sendSegments_active c rst)⟩
  reset S c h := ⟨coherent_stable.reset S c h.1, Regular.of_inactive rfl⟩
  switch S c h := ⟨coherent_stable.switch S c h.1, h.2.switch⟩
  close S c h hin hout := ⟨coherent_stable.close S c h.1 hin hout, Regular.of_inactive rfl⟩
  timer S c t h := ⟨coherent_stable.timer S c t h.1, h.2.fin_sent, h.2.fin_unacked⟩

theorem opened_stable : Stable (fun S c => Coherent S c ∧ Opened c) where
  retx S c h := coherent_stable.retx S c h.1
  fill S c h := ⟨coherent_stable.fill S c h.1,
    fun _ => fillWindow_sends_syn h.1.speaks.output.ordered⟩
  writeFill S c data h hopen := by
    have hwritten := h.1.call (.write data) ⟨hopen, by simp⟩ (by simp)
    exact ⟨coherent_stable.writeFill S c data h.1 hopen,
      fun _ => fillWindow_sends_syn hwritten.speaks.output.ordered⟩
  count S c ms h := by
    have hsame := (tick_cases c.sender ms).1
    refine ⟨coherent_stable.count S c ms h.1, ?_⟩
    change (c.sender.tick ms).stream.inputEnded = true → 0 < (c.sender.tick ms).nextSeqno
    rw [hsame.stream_eq, hsame.nextSeqno_eq]
    exact h.2
  empty S c h hsent := ⟨coherent_stable.empty S c h.1 hsent, h.2⟩
  emit S c rst h := by
    obtain ⟨out, hsender⟩ := sendSegments_requeued c rst
    refine ⟨coherent_stable.emit S c rst h.1, ?_⟩
    unfold Opened
    rw [hsender]
    exact h.2
  reset S c h := ⟨coherent_stable.reset S c h.1, h.2⟩
  switch S c h := by
    refine ⟨coherent_stable.switch S c h.1, ?_⟩
    unfold Opened
    rw [trySwitchingCloseMode_sender]
    exact h.2
  close S c h hin hout := ⟨coherent_stable.close S c h.1 hin hout, h.2⟩
  timer S c t h := ⟨coherent_stable.timer S c t h.1, h.2⟩

theorem Opened.takeIn (h : Opened c) (hcoherent : Coherent S c) (seg : TCPSegment) :
    Opened (c.takeIn seg) := by
  refine (takeIn_rule (P := fun d => Coherent S d ∧ Opened d) ⟨hcoherent.receive seg 0, h⟩
    (fun d hd => ⟨hd.1.reset, hd.2⟩) ?_).2
  rintro d ⟨hd, hopened⟩
  refine ⟨hd.quietCall (.ackReceived seg.header.ackno seg.header.win) ⟨trivial, by simp⟩ (by simp)
    rfl, ?_⟩
  have hout := hd.speaks.output
  obtain ⟨firsts, hbooks⟩ := hout.books
  change (d.sender.ackReceived seg.header.ackno seg.header.win).stream.inputEnded = true →
    0 < (d.sender.ackReceived seg.header.ackno seg.header.win).nextSeqno
  rw [hout.ordered.ackReceived_ended]
  intro hended
  exact Nat.lt_of_lt_of_le (hopened hended) (Forward.ackReceived hbooks _ _).next_le

end Stable

/-- The sender after the acknowledgment of a segment. -/
def acknowledgedBy (c : TCPConnection) (seg : TCPSegment) : TCPSender :=
  if seg.header.ack then c.sender.ackReceived seg.header.ackno seg.header.win else c.sender

/-- The segment completes the peer's stream while our own is at its end and the FIN is
not sent. -/
structure FinStuck (c : TCPConnection) (seg : TCPSegment) : Prop where
  active : c.active = true
  no_rst : seg.header.rst = false
  incomplete : c.receiver.streamOut.inputEnded = false
  completes : (c.receiver.segmentReceived seg).streamOut.inputEnded = true
  eof : (acknowledgedBy c seg).stream.eof = true
  unsent : (acknowledgedBy c seg).nextSeqno < (acknowledgedBy c seg).stream.bytesWritten + 2

/-- The segment acknowledges all that is in flight in LAST_ACK. -/
structure LastAck (c : TCPConnection) (seg : TCPSegment) : Prop where
  state_eq : c.state = TCPState.ofState .lastAck
  no_rst : seg.header.rst = false
  ack : seg.header.ack = true
  acks_all : unwrap seg.header.ackno c.sender.isn c.sender.absAckno = c.sender.nextSeqno

instance (c : TCPConnection) (seg : TCPSegment) : Decidable (EarlyAck c seg) :=
  decidable_of_iff (c.active = true ∧ seg.header.rst = false ∧ seg.header.ack = true ∧
      c.receiver.synReceived = false ∧ seg.header.syn = false)
    ⟨fun ⟨h1, h2, h3, h4, h5⟩ => ⟨h1, h2, h3, h4, h5⟩,
      fun h => ⟨h.active, h.no_rst, h.ack, h.unsynced, h.no_syn⟩⟩

instance (c : TCPConnection) (seg : TCPSegment) : Decidable (FinStuck c seg) :=
  decidable_of_iff (c.active = true ∧ seg.header.rst = false ∧
      c.receiver.streamOut.inputEnded = false ∧
      (c.receiver.segmentReceived seg).streamOut.inputEnded = true ∧
      (acknowledgedBy c seg).stream.eof = true ∧
      (acknowledgedBy c seg).nextSeqno < (acknowledgedBy c seg).stream.bytesWritten + 2)
    ⟨fun ⟨h1, h2, h3, h4, h5, h6⟩ => ⟨h1, h2, h3, h4, h5, h6⟩,
      fun h => ⟨h.active, h.no_rst, h.incomplete, h.completes, h.eof, h.unsent⟩⟩

instance (c : TCPConnection) (seg : TCPSegment) : Decidable (LastAck c seg) :=
  decidable_of_iff (c.state = TCPState.ofState .lastAck ∧ seg.header.rst = false ∧
      seg.header.ack = true ∧
      unwrap seg.header.ackno c.sender.isn c.sender.absAckno = c.sender.nextSeqno)
    ⟨fun ⟨h1, h2, h3, h4⟩ => ⟨h1, h2, h3, h4⟩,
      fun h => ⟨h.state_eq, h.no_rst, h.ack, h.acks_all⟩⟩

section States

variable {S : List UInt8} {c : TCPConnection} {s : TCPSender}

theorem ofSender_fin_unsent (h : Sane s) (hok : s.stream.error = false) (hpos : 0 < s.absAckno)
    (hno : s.finSent = false) : TCPState.ofSender s = .synAcked := by
  have hflight := h.bytesInFlight_eq
  have hle := h.ack_le
  unfold TCPState.ofSender TCPSender.nextSeqnoAbsolute
  rw [hok, if_neg Bool.false_ne_true, if_neg (by omega), if_neg (by omega)]
  cases heof : s.stream.eof with
  | false => rfl
  | true =>
    have hless : ¬ s.nextSeqno ≥ s.stream.bytesWritten + 2 := by
      simpa [TCPSender.finSent, heof] using hno
    rw [if_neg (by simp), if_pos (by omega)]

theorem ofSender_fin_sent (h : Sane s) (hok : s.stream.error = false) (hpos : 0 < s.absAckno)
    (hsent : s.finSent = true) :
    TCPState.ofSender s = if s.absAckno = s.nextSeqno then .finAcked else .finSent := by
  have hflight := h.bytesInFlight_eq
  have hle := h.ack_le
  simp only [TCPSender.finSent, Bool.and_eq_true, decide_eq_true_eq] at hsent
  unfold TCPState.ofSender TCPSender.nextSeqnoAbsolute
  rw [hok, hsent.1, if_neg Bool.false_ne_true, if_neg (by omega), if_neg (by omega),
    if_neg (by simp), if_neg (by omega)]
  by_cases hall : s.absAckno = s.nextSeqno
  · rw [if_pos hall, if_neg (by omega)]
  · rw [if_neg hall, if_pos (by omega)]

/-- The state of an active endpoint that has the whole stream of its peer. -/
theorem state_of_ended (h : Composed S c) (hactive : c.active = true)
    (hended : c.receiver.streamOut.inputEnded = true) :
    c.sender.stream.error = false ∧
      c.state = ⟨TCPState.ofSender c.sender, .finRecv, true, c.lingerAfterStreamsFinish⟩ := by
  have hok := h.error_eq_false hactive
  refine ⟨hok, ?_⟩
  unfold TCPConnection.state
  rw [ofReceiver_eq (h.coherent.error_eq ▸ hok), (h.coherent.known hended).1, hended, hactive]
  rfl

theorem overtaken_not_official {t : TCPState} (h : Overtaken t) : ¬ t.Official := by
  rintro ⟨s, rfl⟩
  cases s <;> simp [Overtaken, TCPState.ofState] at h

/-- What can be read off the state of an active endpoint whose peer has finished. -/
theorem ended_of_state {sender : TCPSenderStateSummary} {linger : Bool}
    (h : c.state = ⟨sender, .finRecv, true, linger⟩) :
    c.active = true ∧ c.receiver.streamOut.inputEnded = true ∧
      c.lingerAfterStreamsFinish = linger ∧ TCPState.ofSender c.sender = sender := by
  have hactive : c.active = true := congrArg TCPState.active h
  have hlinger := congrArg TCPState.lingerAfterStreamsFinish h
  simp only [TCPConnection.state, hactive, if_true] at hlinger
  exact ⟨hactive, ofReceiver_finRecv (congrArg TCPState.receiver h), hlinger,
    congrArg TCPState.sender h⟩

/-- Whoever has the whole stream of its peer has been acknowledged. -/
theorem absAckno_pos (h : Composed S c) (hheard : FinHeard c)
    (hended : c.receiver.streamOut.inputEnded = true) : 0 < c.sender.absAckno :=
  hheard (h.coherent.known hended).2

theorem official_of_regular (h : Composed S c) (hopening : Opening c) (hheard : FinHeard c)
    (hregular : Regular c) : c.state.Official := by
  have hsane := h.coherent.speaks.output.ordered.sane
  rcases h.classified with hofficial | hlast | ⟨hblocked, -⟩ | hover
  · exact hofficial
  · obtain ⟨hactive, hended, hlinger, hsender⟩ := ended_of_state hlast
    have hok := (state_of_ended h hactive hended).1
    have hpos := absAckno_pos h hheard hended
    cases hsent : c.sender.finSent with
    | false =>
      rw [ofSender_fin_unsent hsane hok hpos hsent] at hsender
      exact absurd hsender TCPSenderStateSummary.noConfusion
    | true =>
      have hlt := hregular.fin_unacked hactive hlinger hsent
      rw [ofSender_fin_sent hsane hok hpos hsent, if_neg (by omega)] at hsender
      exact absurd hsender TCPSenderStateSummary.noConfusion
  · obtain ⟨hactive, hended, hlinger, hsender⟩ := ended_of_state hblocked
    have hok := (state_of_ended h hactive hended).1
    have hsent := hregular.fin_sent hactive hended hlinger
    rw [ofSender_fin_sent hsane hok (absAckno_pos h hheard hended) hsent] at hsender
    split at hsender <;> exact absurd hsender TCPSenderStateSummary.noConfusion
  · exact absurd hover (not_overtaken h hopening hheard)

/-- An endpoint that does not linger and waits for the acknowledgment of its FIN. -/
theorem state_lastAck (h : Composed S c) (hheard : FinHeard c) (hactive : c.active = true)
    (hlinger : c.lingerAfterStreamsFinish = false) (hsent : c.sender.finSent = true)
    (hlt : c.sender.absAckno < c.sender.nextSeqno) : c.state = TCPState.ofState .lastAck := by
  have hended := h.coherent.linger_off hlinger
  obtain ⟨hok, hstate⟩ := state_of_ended h hactive hended
  rw [hstate, hlinger, ofSender_fin_sent h.coherent.speaks.output.ordered.sane hok
    (absAckno_pos h hheard hended) hsent, if_neg (by omega)]
  rfl

end States

section Deliver

variable {S T : List UInt8} {c d : TCPConnection} {seg : TCPSegment} {s : TCPSender}

/-- An acknowledgment of something in flight is taken over. -/
theorem ackReceived_absAckno (h : Ordered s) {ackno : WrappingInt32} (win : UInt16)
    (hlo : s.absAckno < unwrap ackno s.isn s.absAckno)
    (hhi : unwrap ackno s.isn s.absAckno ≤ s.nextSeqno) :
    (s.ackReceived ackno win).absAckno = unwrap ackno s.isn s.absAckno := by
  rcases ackReceived_cases s ackno win with ⟨hbad, -⟩ | ⟨ack, hack, -, -, heq⟩
  · exact absurd ⟨hlo, hhi⟩ hbad
  · rw [← hack] at hlo hhi
    obtain ⟨-, ⟨fresh, hfilled⟩, -⟩ :=
      ((h.setWindow win.toNat_lt).acknowledge hlo hhi).fillWindow
    rw [heq, hfilled.absAckno_eq, ← hack]
    rfl

theorem ackReceived_all (h : Ordered s) (hlt : s.absAckno < s.nextSeqno)
    {ackno : WrappingInt32} (win : UInt16)
    (hall : unwrap ackno s.isn s.absAckno = s.nextSeqno) :
    (s.ackReceived ackno win).absAckno = s.nextSeqno :=
  (ackReceived_absAckno h win (hall ▸ hlt) (Nat.le_of_eq hall)).trans hall

theorem takeIn_linger (c : TCPConnection) (seg : TCPSegment) :
    (c.takeIn seg).lingerAfterStreamsFinish = c.lingerAfterStreamsFinish := by
  apply takeIn_rule (P := fun d => d.lingerAfterStreamsFinish = c.lingerAfterStreamsFinish)
  · rfl
  · exact fun d hd => hd
  · intro d hd
    rw [callSender_linger, hd]

theorem answer_linger (c : TCPConnection) (seg : TCPSegment) :
    (c.answer seg).lingerAfterStreamsFinish = c.lingerAfterStreamsFinish := by
  unfold answer
  split
  · dsimp only
    split <;> exact sendSegments_linger _ false
  · rfl

theorem trySwitchingCloseMode_linger (c : TCPConnection) :
    c.trySwitchingCloseMode.lingerAfterStreamsFinish = (c.lingerAfterStreamsFinish &&
      (c.sender.stream.eof || !c.receiver.streamOut.inputEnded)) := by
  unfold trySwitchingCloseMode
  cases c.sender.stream.eof <;> cases c.receiver.streamOut.inputEnded <;> simp

/-- A segment makes an endpoint stop lingering if our stream is not at its end and the
peer's is. -/
theorem segmentReceived_linger (c : TCPConnection) (seg : TCPSegment) :
    (c.segmentReceived seg).lingerAfterStreamsFinish = (c.lingerAfterStreamsFinish &&
      ((c.segmentReceived seg).sender.stream.eof ||
        !(c.segmentReceived seg).receiver.streamOut.inputEnded)) := by
  obtain ⟨d, hd, hlinger⟩ : ∃ d : TCPConnection,
      c.segmentReceived seg = d.trySwitchingCloseMode ∧
      d.lingerAfterStreamsFinish = c.lingerAfterStreamsFinish := by
    refine ⟨_, rfl, ?_⟩
    split
    · exact (sendSegments_linger _ false).trans ((answer_linger _ seg).trans (takeIn_linger c seg))
    · exact (answer_linger _ seg).trans (takeIn_linger c seg)
  rw [hd, trySwitchingCloseMode_linger, trySwitchingCloseMode_sender,
    trySwitchingCloseMode_receiver, hlinger]

theorem takeIn_acknowledged (hrst : seg.header.rst = false) :
    (c.takeIn seg).sender = acknowledgedBy c seg :=
  takeIn_sender hrst

/-- A sender that has sent its SYN only answers a segment, after the acknowledgment. -/
theorem requeued_of_sent (hrst : seg.header.rst = false)
    (hsent : 0 < (acknowledgedBy c seg).nextSeqno) :
    Requeued (acknowledgedBy c seg) (c.segmentReceived seg).sender := by
  rcases segmentReceived_requeued c seg with hanswer | ⟨s, ⟨out, hs⟩, hzero, -⟩
  · rwa [takeIn_acknowledged hrst] at hanswer
  · rw [hs, takeIn_acknowledged hrst] at hzero
    exact absurd hzero (by simpa using hsent.ne')

/-- A segment after which our stream is at its end has found the SYN sent. -/
theorem sent_of_eof (h : Coherent S c) (hopened : Opened c) (hrst : seg.header.rst = false)
    (heof : (c.segmentReceived seg).sender.stream.eof = true) :
    0 < (acknowledgedBy c seg).nextSeqno := by
  have hord := (h.takeIn seg).speaks.output.ordered
  rw [← takeIn_acknowledged hrst]
  apply hopened.takeIn h seg
  have hended : (c.segmentReceived seg).sender.stream.inputEnded = true :=
    ByteStream.ended_of_eof heof
  rcases segmentReceived_requeued c seg with ⟨out, hsender⟩ | ⟨s, ⟨out, rfl⟩, -, out', hsender⟩
  · rwa [hsender] at hended
  · have hsame : Ordered { (c.takeIn seg).sender with segmentsOut := out } :=
      hord.of_same ⟨rfl, rfl, rfl, rfl, rfl, rfl, rfl⟩
    obtain ⟨-, ⟨fresh, hfilled⟩, -⟩ := hsame.fillWindow
    rw [hsender] at hended
    exact hfilled.ended_eq ▸ hended

/-- What a segment without RST makes of an endpoint whose stream is at its end. -/
theorem segmentReceived_of_eof (h : Coherent S c) (hopened : Opened c)
    (hactive : (c.segmentReceived seg).active = true)
    (heof : (c.segmentReceived seg).sender.stream.eof = true) :
    c.active = true ∧ seg.header.rst = false ∧
      (c.segmentReceived seg).receiver = c.receiver.segmentReceived seg ∧
      (c.segmentReceived seg).lingerAfterStreamsFinish = c.lingerAfterStreamsFinish ∧
      Requeued (acknowledgedBy c seg) (c.segmentReceived seg).sender := by
  rw [segmentReceived_active, Bool.and_eq_true, Bool.not_eq_true'] at hactive
  obtain ⟨hbefore, hrst⟩ := hactive
  refine ⟨hbefore, hrst, segmentReceived_receiver hrst, ?_,
    requeued_of_sent hrst (sent_of_eof h hopened hrst heof)⟩
  rw [segmentReceived_linger, heof, Bool.true_or, Bool.and_true]

theorem eof_of_finSent (h : s.finSent = true) : s.stream.eof = true :=
  (Bool.and_eq_true_iff.mp h).1

/-- The FIN stays sent. -/
theorem acknowledgedBy_finSent (h : Coherent S c) (hsent : c.sender.finSent = true)
    (seg : TCPSegment) : (acknowledgedBy c seg).finSent = true ∧
      (acknowledgedBy c seg).nextSeqno = c.sender.nextSeqno := by
  unfold acknowledgedBy
  split
  · have hop : Proper c.sender (.ackReceived seg.header.ackno seg.header.win) :=
      ⟨trivial, by simp⟩
    exact finSent_apply h.speaks.output hop hsent
  · exact ⟨hsent, rfl⟩

/-- Unless it is stuck, the FIN is out when the stream of the peer is complete. -/
theorem Regular.fin_sent_deliver (h : Regular c) (hcomposed : Composed S c) (hopened : Opened c)
    (hno : ¬ FinStuck c seg) (hactive : (c.segmentReceived seg).active = true)
    (hended : (c.segmentReceived seg).receiver.streamOut.inputEnded = true)
    (hlinger : (c.segmentReceived seg).lingerAfterStreamsFinish = true) :
    (c.segmentReceived seg).sender.finSent = true := by
  have heof := (hcomposed.segmentReceived seg).settled hended hlinger
  obtain ⟨hbefore, hrst, hreceiver, hsame, out, hsender⟩ :=
    segmentReceived_of_eof hcomposed.coherent hopened hactive heof
  rw [hsame] at hlinger
  rw [hreceiver] at hended
  rw [hsender] at heof ⊢
  change (acknowledgedBy c seg).finSent = true
  cases hearlier : c.receiver.streamOut.inputEnded with
  | true =>
    have hsent := h.fin_sent hbefore hearlier hlinger
    exact (acknowledgedBy_finSent hcomposed.coherent hsent seg).1
  | false =>
    by_contra hunsent
    refine hno ⟨hbefore, hrst, hearlier, hended, heof, ?_⟩
    change (acknowledgedBy c seg).stream.eof = true at heof
    simpa [TCPSender.finSent, heof] using hunsent

/-- Unless it is the last one, an acknowledgment leaves the FIN of an endpoint that does
not linger in flight. -/
theorem Regular.fin_unacked_deliver (h : Regular c) (hcomposed : Composed S c)
    (hopened : Opened c) (hheard : FinHeard c) (hno : ¬ LastAck c seg)
    (hactive : (c.segmentReceived seg).active = true)
    (hlinger : (c.segmentReceived seg).lingerAfterStreamsFinish = false)
    (hsent : (c.segmentReceived seg).sender.finSent = true) :
    (c.segmentReceived seg).sender.absAckno < (c.segmentReceived seg).sender.nextSeqno := by
  obtain ⟨hbefore, hrst, -, hsame, out, hsender⟩ :=
    segmentReceived_of_eof hcomposed.coherent hopened hactive (eof_of_finSent hsent)
  have hout := hcomposed.coherent.speaks.output
  rw [hsame] at hlinger
  rw [hsender] at hsent ⊢
  change (acknowledgedBy c seg).finSent = true at hsent
  change (acknowledgedBy c seg).absAckno < (acknowledgedBy c seg).nextSeqno
  cases hack : seg.header.ack with
  | false =>
    simp only [acknowledgedBy, hack, Bool.false_eq_true, if_false] at hsent ⊢
    exact h.fin_unacked hbefore hlinger hsent
  | true =>
    let op : SenderOp := .ackReceived seg.header.ackno seg.header.win
    have hop : Proper c.sender op := ⟨trivial, by simp [op]⟩
    have happly : acknowledgedBy c seg = c.sender.apply op := by
      simp only [acknowledgedBy, hack, if_true]
      rfl
    rw [happly] at hsent ⊢
    cases hearlier : c.sender.finSent with
    | false => exact fin_unacked_of_new hout hop hearlier hsent
    | true =>
      have hlt := h.fin_unacked hbefore hlinger hearlier
      rw [(finSent_apply hout hop hearlier).2]
      rcases absAckno_apply hout.ordered op with hkept | ⟨ackno, win, heq, -, hle, hnew⟩
      · rw [hkept]
        exact hlt
      · obtain ⟨rfl, rfl⟩ := SenderOp.ackReceived.inj heq
        rw [hnew]
        refine Nat.lt_of_le_of_ne hle fun hall => hno ⟨?_, hrst, hack, hall⟩
        exact state_lastAck hcomposed hheard hbefore hlinger hearlier hlt

/-- An acknowledgment before the SYN brings the endpoint into disorder. -/
theorem overtaken_of_early (h : Greeted S c T d) {S' : List UInt8} (hcomposed : Composed S' c)
    (hseg : seg ∈ d.segmentsOut) (hearly : EarlyAck c seg) :
    Overtaken (c.segmentReceived seg).state := by
  have hcomposed' := hcomposed.segmentReceived seg
  have hactive : (c.segmentReceived seg).active = true := by
    rw [segmentReceived_active, hearly.active, hearly.no_rst]
    rfl
  have hok := hcomposed'.error_eq_false hactive
  have hsane := hcomposed'.coherent.speaks.output.ordered.sane
  have hpos : 0 < (acknowledgedBy c seg).absAckno := by
    unfold acknowledgedBy
    rw [if_pos hearly.ack]
    exact h.acknowledged hseg hearly.ack seg.header.win
  have hle : (acknowledgedBy c seg).absAckno ≤ (acknowledgedBy c seg).nextSeqno := by
    rw [← takeIn_acknowledged hearly.no_rst]
    exact (hcomposed.coherent.takeIn seg).speaks.output.ordered.sane.ack_le
  obtain ⟨out, hsender⟩ := requeued_of_sent hearly.no_rst (Nat.lt_of_lt_of_le hpos hle)
  have hpos' : 0 < (c.segmentReceived seg).sender.absAckno := by
    rw [hsender]
    exact hpos
  have hlisten : TCPState.ofReceiver (c.segmentReceived seg).receiver = .listen := by
    rw [ofReceiver_eq (hcomposed'.coherent.error_eq ▸ hok), segmentReceived_receiver hearly.no_rst,
      AcknoAdvance.segmentReceived_synReceived, hearly.unsynced, hearly.no_syn]
    rfl
  refine Or.inl ⟨hlisten, ?_⟩
  change TCPState.ofSender (c.segmentReceived seg).sender ≠ .closed ∧
    TCPState.ofSender (c.segmentReceived seg).sender ≠ .synSent
  cases hsent : (c.segmentReceived seg).sender.finSent with
  | false =>
    rw [ofSender_fin_unsent hsane hok hpos' hsent]
    simp
  | true =>
    rw [ofSender_fin_sent hsane hok hpos' hsent]
    split <;> simp

/-- The state after a segment with which the stream of the peer is complete. -/
theorem segmentReceived_state (h : Composed S c) (hactive : c.active = true)
    (hrst : seg.header.rst = false) (hsent : 0 < (acknowledgedBy c seg).nextSeqno)
    (hended : (c.receiver.segmentReceived seg).streamOut.inputEnded = true) :
    Sane (acknowledgedBy c seg) ∧ (acknowledgedBy c seg).stream.error = false ∧
      (c.segmentReceived seg).state = ⟨TCPState.ofSender (acknowledgedBy c seg), .finRecv, true,
        c.lingerAfterStreamsFinish && (acknowledgedBy c seg).stream.eof⟩ := by
  obtain ⟨out, hsender⟩ := requeued_of_sent hrst hsent
  rw [← segmentReceived_receiver hrst] at hended
  obtain ⟨hok, hstate⟩ := state_of_ended (h.segmentReceived seg)
    ((segmentReceived_active c seg).trans (by rw [hactive, hrst]; rfl)) hended
  have hsane : Sane (c.takeIn seg).sender := (h.coherent.takeIn seg).speaks.output.ordered.sane
  rw [takeIn_acknowledged hrst] at hsane
  rw [hsender] at hok
  refine ⟨hsane, hok, ?_⟩
  rw [hstate, segmentReceived_linger, hended, hsender, Bool.not_true, Bool.or_false]
  rfl

/-- A FIN that is stuck shows in the state. -/
theorem finBlocked_of_stuck (h : Composed S c) (hopened : Opened c)
    (hheard : FinHeard (c.segmentReceived seg)) (hstuck : FinStuck c seg) :
    (c.segmentReceived seg).state = finBlocked := by
  have hsent : 0 < (acknowledgedBy c seg).nextSeqno := by
    have hended := ByteStream.ended_of_eof hstuck.eof
    rw [← takeIn_acknowledged hstuck.no_rst] at hended ⊢
    exact hopened.takeIn h.coherent seg hended
  obtain ⟨hsane, hok, hstate⟩ :=
    segmentReceived_state h hstuck.active hstuck.no_rst hsent hstuck.completes
  have hpos : 0 < (acknowledgedBy c seg).absAckno := by
    obtain ⟨out, hsender⟩ := requeued_of_sent hstuck.no_rst hsent
    have hended := hstuck.completes
    rw [← segmentReceived_receiver hstuck.no_rst] at hended
    have hheard' := absAckno_pos (h.segmentReceived seg) hheard hended
    rwa [hsender] at hheard'
  have hunsent : (acknowledgedBy c seg).finSent = false := by
    simp [TCPSender.finSent, hstuck.unsent]
  rw [hstate, h.lingers hstuck.incomplete, hstuck.eof,
    ofSender_fin_unsent hsane hok hpos hunsent]
  rfl

/-- After the last acknowledgment the endpoint is still active. -/
theorem lastAcked_of_last (h : Composed S c) (hheard : FinHeard c) (hlast : LastAck c seg) :
    (c.segmentReceived seg).state = lastAcked := by
  obtain ⟨hactive, hended, hlinger, hstate⟩ := ended_of_state hlast.state_eq
  have hord := h.coherent.speaks.output.ordered
  have hpos := absAckno_pos h hheard hended
  have hok := h.error_eq_false hactive
  have hfin : c.sender.finSent = true := by
    by_contra hunsent
    rw [ofSender_fin_unsent hord.sane hok hpos (Bool.not_eq_true _ ▸ hunsent)] at hstate
    exact absurd hstate TCPSenderStateSummary.noConfusion
  have hlt : c.sender.absAckno < c.sender.nextSeqno := by
    rw [ofSender_fin_sent hord.sane hok hpos hfin] at hstate
    refine Nat.lt_of_le_of_ne hord.sane.ack_le fun hall => ?_
    rw [if_pos hall] at hstate
    exact absurd hstate TCPSenderStateSummary.noConfusion
  obtain ⟨hfin', hnext⟩ := acknowledgedBy_finSent h.coherent hfin seg
  have hall : (acknowledgedBy c seg).absAckno = c.sender.nextSeqno := by
    unfold acknowledgedBy
    rw [if_pos hlast.ack]
    exact ackReceived_all hord hlt _ hlast.acks_all
  obtain ⟨hsane, hok', hstate'⟩ := segmentReceived_state h hactive hlast.no_rst (by omega)
    (AcknoAdvance.segmentReceived_ended seg hended)
  rw [hstate', hlinger, Bool.false_and, ofSender_fin_sent hsane hok' (by omega) hfin',
    if_pos (hall.trans hnext.symm)]
  rfl

end Deliver

end Handshake

end Sponge
