import Sponge.SenderOutput
import Sponge.TCPConnection

/-!
The calls of an endpoint, as sequences of smaller moves.
An endpoint fills the window right after it has written to the stream. A property that
these moves keep, and the emission of queued segments, resets and the two decisions
about closing, is kept by every call; for the end of the input and for a received
segment it is left to show that the first move keeps it. S stands for the bytes that
the outbound stream has accepted.
-/
namespace Sponge

namespace TCPConnection

/-- One call of the sender, made by its endpoint. -/
def callSender (c : TCPConnection) (op : SenderOp) : TCPConnection :=
  { c with sender := c.sender.apply op }

@[simp] theorem callSender_receiver (c : TCPConnection) (op : SenderOp) :
    (c.callSender op).receiver = c.receiver := by
  unfold callSender
  rfl

@[simp] theorem callSender_segmentsOut (c : TCPConnection) (op : SenderOp) :
    (c.callSender op).segmentsOut = c.segmentsOut := by
  unfold callSender
  rfl

@[simp] theorem callSender_inboundStream (c : TCPConnection) (op : SenderOp) :
    (c.callSender op).inboundStream = c.inboundStream := by
  unfold inboundStream callSender
  rfl

@[simp] theorem callSender_active (c : TCPConnection) (op : SenderOp) :
    (c.callSender op).active = c.active := by
  unfold callSender
  rfl

@[simp] theorem callSender_linger (c : TCPConnection) (op : SenderOp) :
    (c.callSender op).lingerAfterStreamsFinish = c.lingerAfterStreamsFinish := by
  unfold callSender
  rfl

end TCPConnection

namespace ConnectionCalls

open SenderOutput TCPConnection

structure Stable (P : List UInt8 → TCPConnection → Prop) : Prop where
  retx : ∀ S c, P S c → c.sender.nConsecRetransmissions ≠ 0 → 0 < c.sender.nextSeqno
  fill : ∀ S c, P S c → P S (c.callSender .fillWindow)
  writeFill : ∀ S c data, P S c → c.sender.stream.inputEnded = false →
    P (S ++ data.take (c.sender.stream.write data).1)
      ((c.callSender (.write data)).callSender .fillWindow)
  count : ∀ S c ms, P S c → P S (c.callSender (.tick ms))
  empty : ∀ S c, P S c → 0 < c.sender.nextSeqno → P S (c.callSender .sendEmptySegment)
  emit : ∀ S c rst, P S c → P S (c.sendSegments rst)
  reset : ∀ S c, P S c → P S c.reset
  switch : ∀ S c, P S c → P S c.trySwitchingCloseMode
  close : ∀ S c, P S c → c.istreamDone = true → c.ostreamDone = true →
    P S { c with active := false }
  timer : ∀ S c t, P S c → P S { c with lastSegmRecvTimer := t }

section Rules

variable {P : List UInt8 → TCPConnection → Prop} {S : List UInt8} {c : TCPConnection}

/-- Taking in a segment: the receiver first, then a reset, which keep P, then the
acknowledgment, if there is one. -/
theorem takeIn_cases {P Q : TCPConnection → Prop} {seg : TCPSegment}
    (hreceived : P { c with receiver := c.receiver.segmentReceived seg, lastSegmRecvTimer := 0 })
    (hreset : ∀ c, P c → P c.reset)
    (hack : seg.header.ack = true → ∀ c, P c →
      Q (c.callSender (.ackReceived seg.header.ackno seg.header.win)))
    (hnoack : ¬ seg.header.ack = true → ∀ c, P c → Q c) :
    Q (c.takeIn seg) := by
  unfold TCPConnection.takeIn
  dsimp only
  split
  · rename_i hflag
    split
    · exact hack hflag _ (hreset _ hreceived)
    · exact hack hflag _ hreceived
  · rename_i hflag
    split
    · exact hnoack hflag _ (hreset _ hreceived)
    · exact hnoack hflag _ hreceived

theorem takeIn_rule {P : TCPConnection → Prop} {seg : TCPSegment}
    (hreceived : P { c with receiver := c.receiver.segmentReceived seg, lastSegmRecvTimer := 0 })
    (hreset : ∀ c, P c → P c.reset)
    (hack : ∀ c, P c → P (c.callSender (.ackReceived seg.header.ackno seg.header.win))) :
    P (c.takeIn seg) :=
  takeIn_cases hreceived hreset (fun _ => hack) (fun _ _ hc => hc)

namespace Stable

theorem connect (h : Stable P) (hp : P S c) : P S c.connect :=
  h.emit _ _ _ (h.fill _ _ hp)

theorem tryClosingConnection (h : Stable P) (hp : P S c) : P S c.tryClosingConnection := by
  unfold TCPConnection.tryClosingConnection
  split
  · have hemit := h.emit S c false hp
    dsimp only
    split
    · rename_i hclose
      simp only [Bool.and_eq_true] at hclose
      exact h.close _ _ hemit hclose.1.2 hclose.2
    · exact hemit
  · exact hp

/-- Left to show for the end of the input: that ending the stream keeps the property. -/
theorem endInputStream (h : Stable P) (hp : P S (c.callSender .endInput)) :
    P S c.endInputStream :=
  h.tryClosingConnection (h.fill _ _ hp)

/-- A write before the SYN or after the end of the input takes nothing. -/
theorem write (h : Stable P) (hp : P S c) (data : List UInt8) :
    P (S ++ data.take (c.write data).1) (c.write data).2 := by
  unfold TCPConnection.write
  split
  · simpa using hp
  · rename_i hopen
    simp only [Bool.or_eq_true, not_or, Bool.not_eq_true] at hopen
    exact h.emit _ _ _ (h.writeFill _ _ data hp hopen.1)

theorem giveUp (h : Stable P) (hp : P S c) (hsent : 0 < c.sender.nextSeqno) : P S c.giveUp := by
  unfold TCPConnection.giveUp
  dsimp only
  split
  · exact h.reset _ _ (h.emit _ _ _ (h.empty _ _ hp hsent))
  · exact h.reset _ _ (h.emit _ _ _ hp)

theorem tick (h : Stable P) (hp : P S c) (ms : ℕ) : P S (c.tick ms) := by
  unfold TCPConnection.tick
  split
  · have hcounted : P S _ := h.timer _ _ (Words.wrapAdd 64 c.lastSegmRecvTimer ms)
      (h.count _ _ ms hp)
    dsimp only
    apply h.tryClosingConnection
    split
    · rename_i hmany
      apply h.giveUp hcounted
      apply h.retx _ _ hcounted
      intro hzero
      unfold TCPSender.consecutiveRetransmissions at hmany
      rw [show (c.sender.tick ms).nConsecRetransmissions = 0 from hzero] at hmany
      simp at hmany
    · exact h.emit _ _ _ hcounted
  · exact hp

theorem answer (h : Stable P) (hp : P S c) (seg : TCPSegment) : P S (c.answer seg) := by
  unfold TCPConnection.answer
  split
  · rename_i hsent
    have hpos : 0 < c.sender.nextSeqno := of_decide_eq_true hsent
    dsimp only
    split
    · exact h.emit _ _ _ (h.empty _ _ hp hpos)
    · exact h.emit _ _ _ hp
  · exact hp

/-- What is left to show for a received segment: that taking it in keeps the property. -/
theorem segmentReceived (h : Stable P) {seg : TCPSegment} (hp : P S (c.takeIn seg)) :
    P S (c.segmentReceived seg) := by
  unfold TCPConnection.segmentReceived
  dsimp only
  apply h.switch
  have hanswer := h.answer hp seg
  split
  · exact h.connect hanswer
  · exact hanswer

end Stable

end Rules

section Queue

variable {c : TCPConnection} {s s' s'' : TCPSender}

/-- Nothing but the queue of segments to send differs. -/
def Requeued (s s' : TCPSender) : Prop := ∃ out, s' = { s with segmentsOut := out }

theorem Requeued.refl (s : TCPSender) : Requeued s s := ⟨s.segmentsOut, rfl⟩

theorem Requeued.trans (h : Requeued s s') (h' : Requeued s' s'') : Requeued s s'' := by
  obtain ⟨out, rfl⟩ := h
  obtain ⟨out', rfl⟩ := h'
  exact ⟨out', rfl⟩

theorem Requeued.timer_eq (h : Requeued s s') : s'.timer = s.timer := by
  obtain ⟨out, rfl⟩ := h
  rfl

theorem Requeued.retx_eq (h : Requeued s s') :
    s'.consecutiveRetransmissions = s.consecutiveRetransmissions := by
  obtain ⟨out, rfl⟩ := h
  rfl

theorem sendSegments_requeued (c : TCPConnection) (rst : Bool) :
    Requeued c.sender (c.sendSegments rst).sender := by
  unfold sendSegments
  split
  · exact ⟨[], rfl⟩
  · exact Requeued.refl c.sender

theorem sendEmptySegment_requeued (s : TCPSender) : Requeued s s.sendEmptySegment := ⟨_, rfl⟩

theorem tryClosing_requeued (c : TCPConnection) :
    Requeued c.sender c.tryClosingConnection.sender := by
  unfold tryClosingConnection
  split
  · dsimp only
    split <;> exact sendSegments_requeued c false
  · exact Requeued.refl c.sender

theorem answer_requeued (c : TCPConnection) (seg : TCPSegment) :
    Requeued c.sender (c.answer seg).sender := by
  unfold answer
  split
  · dsimp only
    split
    · exact (sendEmptySegment_requeued c.sender).trans
        (sendSegments_requeued { c with sender := c.sender.sendEmptySegment } false)
    · exact sendSegments_requeued c false
  · exact Requeued.refl c.sender

/-- After the acknowledgment a segment is only answered, unless it makes the endpoint connect. -/
theorem segmentReceived_requeued (c : TCPConnection) (seg : TCPSegment) :
    Requeued (c.takeIn seg).sender (c.segmentReceived seg).sender ∨
      ∃ s, Requeued (c.takeIn seg).sender s ∧ s.nextSeqno = 0 ∧
        Requeued s.fillWindow (c.segmentReceived seg).sender := by
  have hanswer := answer_requeued (c.takeIn seg) seg
  unfold segmentReceived
  dsimp only
  rw [trySwitchingCloseMode_sender]
  split
  · rename_i hconnect
    right
    refine ⟨_, hanswer, ?_, sendSegments_requeued
      { (c.takeIn seg).answer seg with sender := ((c.takeIn seg).answer seg).sender.fillWindow }
      false⟩
    simp only [Bool.and_eq_true, Bool.not_eq_true'] at hconnect
    have hunsent := of_decide_eq_false hconnect.2
    unfold TCPSender.nextSeqnoAbsolute at hunsent
    omega
  · exact Or.inl hanswer

/-- Without RST, the sender sees the acknowledgment of a segment and nothing else of it. -/
theorem takeIn_sender {seg : TCPSegment} (hrst : seg.header.rst = false) :
    (c.takeIn seg).sender = if seg.header.ack then
      c.sender.ackReceived seg.header.ackno seg.header.win else c.sender := by
  unfold takeIn
  dsimp only
  simp only [hrst, Bool.false_eq_true, if_false]
  split <;> rfl

/-- Once the SYN is out, an endpoint does no more with a segment than answer it. -/
theorem segmentReceived_sender {S : List UInt8} {seg : TCPSegment}
    (h : Output S c.sender) (hsent : c.synSent = true) (hrst : seg.header.rst = false)
    (hack : seg.header.ack = true) :
    Requeued (c.sender.ackReceived seg.header.ackno seg.header.win)
      (c.segmentReceived seg).sender := by
  have htaken := takeIn_sender (c := c) hrst
  rw [if_pos hack] at htaken
  rw [← htaken]
  rcases segmentReceived_requeued c seg with hanswered | ⟨s, ⟨out, rfl⟩, hzero, -⟩
  · exact hanswered
  · obtain ⟨firsts, hbooks⟩ := h.books
    have hle := (Forward.ackReceived hbooks seg.header.ackno seg.header.win).next_le
    have hpos : 0 < c.sender.nextSeqno := of_decide_eq_true hsent
    rw [← htaken] at hle
    dsimp only at hzero
    omega

end Queue

end ConnectionCalls

end Sponge
