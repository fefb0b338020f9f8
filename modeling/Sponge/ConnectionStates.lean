import Sponge.AcknoAdvance
import Sponge.Emission
import Sponge.Network
import Sponge.TCPState

/-!
The states an endpoint can be in, whatever segments it receives.
Sender, receiver and the two flags move one at a time, but few of their combinations
can be seen between calls. Besides the official states there is the endpoint that has
the last acknowledgment and closes at the next tick; the one whose FIN waits for room
in the window while the peer's stream is complete; and those in which an acknowledgment
has come before the SYN that it followed.
-/
namespace Sponge.ConnectionStates

open SenderLoop SenderQueue SenderBooks SenderRuns SenderOutput ConnectionCalls Emission Link
  TCPConnection

section Sender

variable {S : List UInt8} {s : TCPSender}

theorem fillWindow_eof (h : Ordered s) (heof : s.stream.eof = true) :
    s.fillWindow.stream.eof = true := by
  refine (fillWindow_rule (P := fun q => Sane q ∧ q.stream.eof = true) ?_ ?_ s
    ⟨h.sane, heof⟩).1.2
  · intro q hq
    exact hq.1.stream_valid
  · rintro q ⟨hsane, hq⟩ -
    refine ⟨hsane.transmitNext, ?_⟩
    have hsize := hsane.streamAfter_curSize
    have hended := hsane.streamAfter_frame.2.1
    simp only [ByteStream.eof, ByteStream.bufferEmpty, Bool.and_eq_true, beq_iff_eq] at hq ⊢
    change q.streamAfter.inputEnded = true ∧ q.streamAfter.curSize = 0
    rw [hended]
    exact ⟨hq.1, by omega⟩

/-- The end of the stream is not taken back. -/
theorem apply_eof (h : Ordered s) {op : SenderOp} (hop : s.Allowed op)
    (heof : s.stream.eof = true) : (s.apply op).stream.eof = true := by
  cases op with
  | write data =>
    have hopen : s.stream.inputEnded = false := hop
    simp [ByteStream.eof, hopen] at heof
  | endInput =>
    change s.stream.endInput.eof = true
    rw [ByteStream.endInput_of_eof heof]
    exact heof
  | fillWindow => exact fillWindow_eof h heof
  | ackReceived ackno win =>
    change (s.ackReceived ackno win).stream.eof = true
    rcases ackReceived_cases s ackno win with ⟨-, heq⟩ | ⟨ack, -, hlo, hhi, heq⟩
    · rw [heq]
      exact heof
    · rw [heq]
      exact fillWindow_eof ((h.setWindow win.toNat_lt).acknowledge hlo hhi) heof
  | tick ms =>
    change (s.tick ms).stream.eof = true
    rw [(tick_cases s ms).1.stream_eq]
    exact heof
  | sendEmptySegment => exact heof
  | popSegment => exact heof
  | setError => exact heof

theorem apply_error (h : Ordered s) {op : SenderOp} (hop : op ≠ .setError) :
    (s.apply op).stream.error = s.stream.error := by
  cases op with
  | fillWindow =>
    obtain ⟨-, ⟨fresh, hfilled⟩, -⟩ := h.fillWindow
    exact hfilled.error_eq
  | ackReceived ackno win =>
    change (s.ackReceived ackno win).stream.error = _
    rcases ackReceived_cases s ackno win with ⟨-, heq⟩ | ⟨ack, -, hlo, hhi, heq⟩
    · rw [heq]
    · obtain ⟨-, ⟨fresh, hfilled⟩, -⟩ :=
        ((h.setWindow win.toNat_lt).acknowledge hlo hhi).fillWindow
      rw [heq, hfilled.error_eq]
      rfl
  | tick ms =>
    change (s.tick ms).stream.error = _
    rw [(tick_cases s ms).1.stream_eq]
  | write data => rfl
  | endInput => rfl
  | sendEmptySegment => rfl
  | popSegment => rfl
  | setError => exact absurd rfl hop

end Sender

section Receiver

variable {r : TCPReceiver}

/-- A stream that has ended has begun, and its end was announced. -/
def Known (r : TCPReceiver) : Prop :=
  r.streamOut.inputEnded = true → r.synReceived = true ∧ r.reassembler.eofSet = true

theorem Known.segmentReceived (h : Known r) (seg : TCPSegment) : Known (r.segmentReceived seg) := by
  cases hstart : r.synReceived || seg.header.syn with
  | false =>
    rw [Bool.or_eq_false_iff] at hstart
    rw [Receiving.segmentReceived_ignored hstart.1 hstart.2]
    exact h
  | true =>
    have hsyn : (r.noteSyn seg).synReceived = true := by
      unfold TCPReceiver.noteSyn
      split
      · rfl
      · rename_i hno
        simpa [hno] using hstart
    intro hended
    refine ⟨by rw [AcknoAdvance.segmentReceived_synReceived, hstart], ?_⟩
    unfold TCPReceiver.segmentReceived TCPReceiver.streamOut at hended ⊢
    simp only [hsyn, Bool.not_true, Bool.false_eq_true, if_false,
      TCPReceiver.noteSyn_reassembler] at hended ⊢
    exact Reassembly.pushSubstring_ended _ _ _ (fun hend => (h hend).2) hended

theorem segmentReceived_error (r : TCPReceiver) (seg : TCPSegment) :
    (r.segmentReceived seg).streamOut.error = r.streamOut.error :=
  AcknoAdvance.segmentReceived_output_rule seg (P := fun out => out.error = r.streamOut.error) rfl
    (fun _ _ h => h) (fun _ h => h)

end Receiver

/-- What holds of the parts of an endpoint at every moment. -/
structure Coherent (S : List UInt8) (c : TCPConnection) : Prop where
  speaks : Speaks S c
  error_eq : c.sender.stream.error = c.receiver.streamOut.error
  error_off : c.sender.stream.error = true → c.active = false
  known : Known c.receiver
  linger_off : c.lingerAfterStreamsFinish = false → c.receiver.streamOut.inputEnded = true

section Coherent

variable {S : List UInt8} {c : TCPConnection}

theorem Coherent.call (h : Coherent S c) (op : SenderOp) (hop : Proper c.sender op)
    (hne : op ≠ .setError) : Coherent (S ++ c.sender.acceptedBy op) (c.callSender op) := by
  have herror : (c.callSender op).sender.stream.error = c.sender.stream.error :=
    apply_error h.speaks.output.ordered hne
  refine ⟨h.speaks.call op hop, ?_, ?_, ?_, ?_⟩
  · rw [herror, callSender_receiver]
    exact h.error_eq
  · rw [herror]
    exact h.error_off
  · rw [callSender_receiver]
    exact h.known
  · rw [callSender_receiver, callSender_linger]
    exact h.linger_off

theorem Coherent.emit (h : Coherent S c) (rst : Bool) : Coherent S (c.sendSegments rst) := by
  have hspeaks := h.speaks.emit rst
  unfold TCPConnection.sendSegments at hspeaks ⊢
  split
  · rename_i hactive
    rw [if_pos hactive] at hspeaks
    exact ⟨hspeaks, h.error_eq, h.error_off, h.known, h.linger_off⟩
  · exact h

theorem Coherent.reset (h : Coherent S c) : Coherent S c.reset :=
  ⟨h.speaks.reset, rfl, fun _ => rfl, h.known, h.linger_off⟩

theorem Coherent.switch (h : Coherent S c) : Coherent S c.trySwitchingCloseMode := by
  unfold trySwitchingCloseMode
  split
  · rename_i hnow
    simp only [Bool.and_eq_true] at hnow
    exact ⟨⟨h.speaks.output, h.speaks.emitted, h.speaks.closed⟩, h.error_eq, h.error_off, h.known,
      fun _ => hnow.2⟩
  · exact h

theorem Coherent.close (h : Coherent S c) (hin : c.istreamDone = true)
    (hout : c.ostreamDone = true) : Coherent S { c with active := false } :=
  ⟨h.speaks.close hin hout, h.error_eq, fun _ => rfl, h.known, h.linger_off⟩

/-- A call of the sender that writes nothing. -/
theorem Coherent.quietCall (h : Coherent S c) (op : SenderOp) (hop : Proper c.sender op)
    (hne : op ≠ .setError) (hnil : c.sender.acceptedBy op = []) : Coherent S (c.callSender op) := by
  have hcall := h.call op hop hne
  rw [hnil, List.append_nil] at hcall
  exact hcall

theorem Coherent.receive (h : Coherent S c) (seg : TCPSegment) (t : ℕ) :
    Coherent S { c with receiver := c.receiver.segmentReceived seg, lastSegmRecvTimer := t } := by
  have hended := AcknoAdvance.segmentReceived_ended (r := c.receiver) seg
  refine ⟨h.speaks.setReceiver hended, ?_, h.error_off, h.known.segmentReceived seg,
    fun hoff => hended (h.linger_off hoff)⟩
  rw [segmentReceived_error]
  exact h.error_eq

theorem Coherent.takeIn (h : Coherent S c) (seg : TCPSegment) : Coherent S (c.takeIn seg) := by
  refine takeIn_rule (h.receive seg 0) (fun c hc => hc.reset) ?_
  intro c hc
  exact hc.quietCall (.ackReceived seg.header.ackno seg.header.win) ⟨trivial, by simp⟩ (by simp) rfl

theorem Coherent.popped (h : Coherent S c) (len : ℕ) :
    Coherent S (c.setInbound (c.inboundStream.popOutput len)) :=
  ⟨⟨h.speaks.output, h.speaks.emitted, h.speaks.closed⟩, h.error_eq, h.error_off, h.known,
    h.linger_off⟩

end Coherent

/-- An endpoint that goes on lingering although the peer's stream is complete has
reached the end of its own stream. -/
def Settled (c : TCPConnection) : Prop :=
  c.receiver.streamOut.inputEnded = true → c.lingerAfterStreamsFinish = true →
    c.sender.stream.eof = true

/-- Whoever has received a SYN has sent one. -/
def Replied (c : TCPConnection) : Prop :=
  c.receiver.synReceived = true → 0 < c.sender.nextSeqno

/-- What holds of an endpoint between calls. -/
structure Composed (S : List UInt8) (c : TCPConnection) : Prop where
  coherent : Coherent S c
  settled : Settled c
  replied : Replied c

theorem new_composed (cfg : TCPConfig) (random : WrappingInt32) : Composed [] (new cfg random) where
  coherent := ⟨new_speaks cfg random, rfl,
    fun h => by simp [new, TCPSender.new, ByteStream.new] at h,
    fun h => by simp [new, TCPReceiver.new, TCPReceiver.streamOut, StreamReassembler.new,
      ByteStream.new, ByteStream.inputEnded] at h,
    fun h => by simp [new] at h⟩
  settled h := by simp [new, TCPReceiver.new, TCPReceiver.streamOut, StreamReassembler.new,
    ByteStream.new, ByteStream.inputEnded] at h
  replied h := by simp [new, TCPReceiver.new] at h

section Calls

variable {S : List UInt8} {c : TCPConnection}

theorem coherent_stable : Stable Coherent where
  retx _ _ h := h.speaks.output.retx
  fill _ _ h := h.quietCall .fillWindow ⟨trivial, by simp⟩ (by simp) rfl
  writeFill _ _ data h hopen :=
    (h.call (.write data) ⟨hopen, by simp⟩ (by simp)).quietCall .fillWindow ⟨trivial, by simp⟩
      (by simp) rfl
  count _ _ ms h := h.quietCall (.tick ms) ⟨trivial, by simp⟩ (by simp) rfl
  empty _ _ h hsent := h.quietCall .sendEmptySegment ⟨trivial, fun _ => hsent⟩ (by simp) rfl
  emit _ _ rst h := h.emit rst
  reset _ _ h := h.reset
  switch _ _ h := h.switch
  close _ _ h hin hout := h.close hin hout
  timer _ _ _ h := ⟨⟨h.speaks.output, h.speaks.emitted, h.speaks.closed⟩, h.error_eq, h.error_off,
    h.known, h.linger_off⟩

theorem Composed.call (h : Composed S c) (op : SenderOp) (hop : Proper c.sender op)
    (hne : op ≠ .setError) : Composed (S ++ c.sender.acceptedBy op) (c.callSender op) := by
  have hout := h.coherent.speaks.output
  refine ⟨h.coherent.call op hop hne, ?_, ?_⟩
  · unfold Settled
    rw [callSender_receiver, callSender_linger]
    intro hended hlinger
    exact apply_eof hout.ordered hop.1 (h.settled hended hlinger)
  · unfold Replied
    rw [callSender_receiver]
    intro hsyn
    exact Nat.lt_of_lt_of_le (h.replied hsyn) (hout.apply op hop).2.next_le

theorem Composed.quietCall (h : Composed S c) (op : SenderOp) (hop : Proper c.sender op)
    (hne : op ≠ .setError) (hnil : c.sender.acceptedBy op = []) : Composed S (c.callSender op) := by
  have hcall := h.call op hop hne
  rw [hnil, List.append_nil] at hcall
  exact hcall

theorem sendSegments_nextSeqno (c : TCPConnection) (rst : Bool) :
    (c.sendSegments rst).sender.nextSeqno = c.sender.nextSeqno := by
  unfold sendSegments
  split <;> rfl

theorem Composed.emit (h : Composed S c) (rst : Bool) : Composed S (c.sendSegments rst) := by
  refine ⟨h.coherent.emit rst, ?_, ?_⟩
  · unfold Settled
    rw [sendSegments_receiver, sendSegments_linger, sendSegments_stream]
    exact h.settled
  · unfold Replied
    rw [sendSegments_receiver, sendSegments_nextSeqno]
    exact h.replied

/-- Whether to linger is decided anew whenever a segment has come. -/
theorem settled_switch (c : TCPConnection) : Settled c.trySwitchingCloseMode := by
  unfold Settled
  rw [trySwitchingCloseMode_receiver, trySwitchingCloseMode_sender]
  intro hended hlinger
  by_contra hopen
  have hnow : (!c.sender.stream.eof && c.receiver.streamOut.inputEnded) = true := by
    simpa [hended] using hopen
  unfold trySwitchingCloseMode at hlinger
  rw [if_pos hnow] at hlinger
  simp at hlinger

theorem composed_stable : Stable Composed where
  retx _ _ h := h.coherent.speaks.output.retx
  fill _ _ h := h.quietCall .fillWindow ⟨trivial, by simp⟩ (by simp) rfl
  writeFill _ _ data h hopen :=
    (h.call (.write data) ⟨hopen, by simp⟩ (by simp)).quietCall .fillWindow ⟨trivial, by simp⟩
      (by simp) rfl
  count _ _ ms h := h.quietCall (.tick ms) ⟨trivial, by simp⟩ (by simp) rfl
  empty _ _ h hsent := h.quietCall .sendEmptySegment ⟨trivial, fun _ => hsent⟩ (by simp) rfl
  emit _ _ rst h := h.emit rst
  reset _ _ h := ⟨h.coherent.reset, h.settled, h.replied⟩
  switch S c h := by
    refine ⟨h.coherent.switch, settled_switch c, ?_⟩
    unfold Replied
    rw [trySwitchingCloseMode_receiver, trySwitchingCloseMode_sender]
    exact h.replied
  close S c h hin hout := ⟨h.coherent.close hin hout, h.settled, h.replied⟩
  timer S c t h := ⟨coherent_stable.timer S c t h.coherent, h.settled, h.replied⟩

theorem answer_frame (c : TCPConnection) (seg : TCPSegment) :
    (c.answer seg).receiver = c.receiver ∧
      (c.answer seg).sender.nextSeqno = c.sender.nextSeqno := by
  unfold TCPConnection.answer
  split
  · dsimp only
    split <;> exact ⟨sendSegments_receiver _ _, sendSegments_nextSeqno _ _⟩
  · exact ⟨rfl, rfl⟩

theorem takeIn_synReceived (c : TCPConnection) (seg : TCPSegment) :
    (c.takeIn seg).receiver.synReceived = (c.receiver.synReceived || seg.header.syn) := by
  refine takeIn_rule (P := fun d => d.receiver.synReceived = _) ?_ ?_ ?_
  · exact AcknoAdvance.segmentReceived_synReceived c.receiver seg
  · exact fun d hd => hd
  · intro d hd
    rw [callSender_receiver]
    exact hd

/-- A first SYN is answered with our own at once. -/
theorem replied_segmentReceived (h : Composed S c) (seg : TCPSegment) :
    Replied (c.segmentReceived seg) := by
  have hcoherent := coherent_stable.answer (h.coherent.takeIn seg) seg
  have hanswer := answer_frame (c.takeIn seg) seg
  obtain ⟨fresh, hnew⟩ := queuedNew_takeIn h.coherent.speaks.output seg
  have hle := hnew.tiles.le
  unfold Replied TCPConnection.segmentReceived
  dsimp only
  rw [trySwitchingCloseMode_receiver, trySwitchingCloseMode_sender]
  split
  · intro _
    unfold TCPConnection.connect
    rw [sendSegments_nextSeqno]
    exact fillWindow_sends_syn hcoherent.speaks.output.ordered
  · rename_i hno
    intro hsyn
    rw [hanswer.1, takeIn_synReceived, Bool.or_eq_true] at hsyn
    rw [hanswer.2]
    rcases hsyn with hold | hseg
    · exact Nat.lt_of_lt_of_le (h.replied hold) hle
    · have hsent : ((c.takeIn seg).answer seg).synSent = true := by simpa [hseg] using hno
      have hpos : 0 < ((c.takeIn seg).answer seg).sender.nextSeqno := of_decide_eq_true hsent
      rwa [hanswer.2] at hpos

theorem Composed.segmentReceived (h : Composed S c) (seg : TCPSegment) :
    Composed S (c.segmentReceived seg) where
  coherent := coherent_stable.segmentReceived (h.coherent.takeIn seg)
  settled := settled_switch _
  replied := replied_segmentReceived h seg

theorem Composed.popped (h : Composed S c) (len : ℕ) :
    Composed S (c.setInbound (c.inboundStream.popOutput len)) where
  coherent := h.coherent.popped len
  settled := h.settled
  replied := h.replied

/-- Every call keeps the endpoint composed, whatever segment it brings. -/
theorem Composed.step {x : Endpoint} (h : Composed S x.conn) (op : EndpointOp) :
    ∃ S', Composed S' (x.step op).conn := by
  cases op with
  | connect => exact ⟨S, composed_stable.connect h⟩
  | write data => exact ⟨_, composed_stable.write h data⟩
  | endInputStream =>
    have hended := h.quietCall .endInput ⟨trivial, by simp⟩ (by simp) rfl
    exact ⟨S, composed_stable.endInputStream hended⟩
  | tick ms => exact ⟨S, composed_stable.tick h ms⟩
  | deliver seg => exact ⟨S, h.segmentReceived seg⟩
  | read len => exact ⟨S, h.popped _⟩
  | pop len => exact ⟨S, h.popped len⟩

end Calls

/-- All is over but for the tick that closes. -/
def lastAcked : TCPState :=
  { sender := .finAcked, receiver := .finRecv, lingerAfterStreamsFinish := false }

/-- Our stream is at its end, but there was no room for the FIN when the peer's ended. -/
def finBlocked : TCPState := { sender := .synAcked, receiver := .finRecv }

/-- Our SYN is acknowledged before the peer's has come, or the peer's FIN has come
before our SYN is acknowledged. -/
def Overtaken (t : TCPState) : Prop :=
  (t.receiver = .listen ∧ t.sender ≠ .closed ∧ t.sender ≠ .synSent) ∨
    (t.sender = .synSent ∧ t.receiver = .finRecv)

/-- Without a SYN from the peer, our own side is closed, has sent its SYN, or is ahead. -/
theorem unsynced_states (t : TCPSenderStateSummary) :
    (TCPState.mk t .listen true true).Official ∨ Overtaken ⟨t, .listen, true, true⟩ := by
  by_cases hclosed : t = .closed
  · exact Or.inl ⟨.listen, by rw [hclosed]; rfl⟩
  by_cases hwaiting : t = .synSent
  · exact Or.inl ⟨.synSent, by rw [hwaiting]; rfl⟩
  exact Or.inr (Or.inl ⟨rfl, hclosed, hwaiting⟩)

/-- While the stream of the peer is open, every state of a started sender has a name. -/
theorem open_states {t : TCPSenderStateSummary} (herror : t ≠ .error) (hclosed : t ≠ .closed) :
    (TCPState.mk t .synRecv true true).Official := by
  cases t with
  | error => exact absurd rfl herror
  | closed => exact absurd rfl hclosed
  | synSent => exact ⟨.synRcvd, rfl⟩
  | synAcked => exact ⟨.established, rfl⟩
  | finSent => exact ⟨.finWait1, rfl⟩
  | finAcked => exact ⟨.finWait2, rfl⟩

/-- The stream of the peer is complete: what is left depends on whether we linger. -/
theorem ended_states {t : TCPSenderStateSummary} (herror : t ≠ .error) (hclosed : t ≠ .closed)
    (linger : Bool) :
    (TCPState.mk t .finRecv true linger).Official ∨ TCPState.mk t .finRecv true linger = lastAcked ∨
      (TCPState.mk t .finRecv true linger = finBlocked ∧ linger = true) ∨
      Overtaken ⟨t, .finRecv, true, linger⟩ := by
  cases t with
  | error => exact absurd rfl herror
  | closed => exact absurd rfl hclosed
  | synSent => exact Or.inr (Or.inr (Or.inr (Or.inr ⟨rfl, rfl⟩)))
  | synAcked =>
    cases linger with
    | true => exact Or.inr (Or.inr (Or.inl ⟨rfl, rfl⟩))
    | false => exact Or.inl ⟨.closeWait, rfl⟩
  | finSent =>
    cases linger with
    | true => exact Or.inl ⟨.closing, rfl⟩
    | false => exact Or.inl ⟨.lastAck, rfl⟩
  | finAcked =>
    cases linger with
    | true => exact Or.inl ⟨.timeWait, rfl⟩
    | false => exact Or.inr (Or.inl rfl)

section Classification

variable {S : List UInt8} {c : TCPConnection}

theorem ofReceiver_eq (hok : c.receiver.streamOut.error = false) :
    TCPState.ofReceiver c.receiver =
      if !c.receiver.synReceived then .listen
      else if c.receiver.streamOut.inputEnded then .finRecv else .synRecv := by
  unfold TCPState.ofReceiver
  rw [hok, ← AcknoAdvance.ackno_isSome]
  cases c.receiver.ackno <;> rfl

theorem ofSender_ne_error (hok : c.sender.stream.error = false) :
    TCPState.ofSender c.sender ≠ .error := by
  unfold TCPState.ofSender
  rw [hok]
  split_ifs <;> simp_all

theorem ofSender_ne_closed (hok : c.sender.stream.error = false) (hsent : 0 < c.sender.nextSeqno) :
    TCPState.ofSender c.sender ≠ .closed := by
  have hne : c.sender.nextSeqnoAbsolute ≠ 0 := Nat.pos_iff_ne_zero.mp hsent
  unfold TCPState.ofSender
  rw [hok, if_neg Bool.false_ne_true, if_neg hne]
  split_ifs <;> simp

/-- An endpoint that has closed without an error has finished both streams. -/
theorem Composed.closed (h : Composed S c) (hok : c.sender.stream.error = false)
    (hoff : c.active = false) : c.state = TCPState.ofState .closed := by
  have hout := h.coherent.speaks.output
  obtain ⟨firsts, hbooks⟩ := hout.books
  have hwritten := hbooks.written_eq
  have hflight := hbooks.sane.bytesInFlight_eq
  obtain ⟨hended, hfin, hack⟩ : Finished S c := by
    rcases h.coherent.speaks.closed hoff with herror | hdone
    · rw [hok] at herror
      simp at herror
    · exact hdone
  have hnext := hfin.1
  have hsender : TCPState.ofSender c.sender = .finAcked := by
    unfold TCPState.ofSender TCPSender.nextSeqnoAbsolute
    rw [hok, hfin.2, if_neg Bool.false_ne_true, if_neg (by omega), if_neg (by omega),
      if_neg (by simp), if_neg (by omega), if_neg (by omega)]
  have hreceiver : TCPState.ofReceiver c.receiver = .finRecv := by
    rw [ofReceiver_eq (h.coherent.error_eq ▸ hok), (h.coherent.known hended).1, hended]
    rfl
  unfold TCPConnection.state
  rw [hsender, hreceiver, hoff]
  rfl

theorem Composed.error_eq_false (h : Composed S c) (hactive : c.active = true) :
    c.sender.stream.error = false := by
  by_contra herror
  have hoff := h.coherent.error_off (Bool.not_eq_false _ ▸ herror)
  exact absurd (hactive.symm.trans hoff) Bool.noConfusion

theorem Composed.reset (h : Composed S c) (herror : c.sender.stream.error = true) :
    c.state = TCPState.ofState .reset := by
  have hinbound : c.receiver.streamOut.error = true := h.coherent.error_eq ▸ herror
  unfold TCPConnection.state TCPState.ofSender TCPState.ofReceiver
  rw [herror, hinbound, h.coherent.error_off herror]
  rfl

/-- Before the stream of the peer is complete, the endpoint lingers. -/
theorem Composed.lingers (h : Composed S c)
    (hopen : c.receiver.streamOut.inputEnded = false) : c.lingerAfterStreamsFinish = true := by
  by_contra hoff
  have hended := h.coherent.linger_off (by simpa using hoff)
  rw [hopen] at hended
  simp at hended

/-- The states of an endpoint between calls. -/
theorem Composed.classified (h : Composed S c) :
    c.state.Official ∨ c.state = lastAcked ∨ (c.state = finBlocked ∧ c.sender.stream.eof = true) ∨
      Overtaken c.state := by
  by_cases herror : c.sender.stream.error = true
  · exact Or.inl ⟨_, h.reset herror⟩
  by_cases hoff : c.active = false
  · exact Or.inl ⟨_, h.closed (by simpa using herror) hoff⟩
  have hok : c.sender.stream.error = false := by simpa using herror
  have hstate : c.state = ⟨TCPState.ofSender c.sender, TCPState.ofReceiver c.receiver, true,
      c.lingerAfterStreamsFinish⟩ := by
    have hactive : c.active = true := by simpa using hoff
    simp [TCPConnection.state, hactive]
  have hreceiver := ofReceiver_eq (h.coherent.error_eq ▸ hok)
  have hne := ofSender_ne_error hok
  rw [hstate, hreceiver]
  by_cases hsyn : c.receiver.synReceived = true
  · have hsent := ofSender_ne_closed hok (h.replied hsyn)
    rw [hsyn]
    by_cases hended : c.receiver.streamOut.inputEnded = true
    · rw [hended]
      rcases ended_states hne hsent c.lingerAfterStreamsFinish with
        hofficial | hlast | ⟨hblocked, hlinger⟩ | hovertaken
      · exact Or.inl hofficial
      · exact Or.inr (Or.inl hlast)
      · exact Or.inr (Or.inr (Or.inl ⟨hblocked, h.settled hended hlinger⟩))
      · exact Or.inr (Or.inr (Or.inr hovertaken))
    · have hopen : c.receiver.streamOut.inputEnded = false := by simpa using hended
      rw [hopen, h.lingers hopen]
      exact Or.inl (open_states hne hsent)
  · have hunsynced : c.receiver.synReceived = false := by simpa using hsyn
    have hopen : c.receiver.streamOut.inputEnded = false := by
      by_contra hended
      exact hsyn (h.coherent.known (by simpa using hended)).1
    rw [hunsynced, h.lingers hopen]
    rcases unsynced_states (TCPState.ofSender c.sender) with hofficial | hovertaken
    · exact Or.inl hofficial
    · exact Or.inr (Or.inr (Or.inr hovertaken))

end Classification

end Sponge.ConnectionStates
