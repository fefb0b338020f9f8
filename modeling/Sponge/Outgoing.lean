import Sponge.Network

/-!
What the socket layer does to segments and the endpoint does not see.
The queue of outgoing segments is only pushed to, so that it makes no difference whether
segments that have been sent are still at its front. A segment that arrives has other port
numbers and another checksum than the one that was queued; the endpoint reads neither.
-/
namespace Sponge

/-- The same segment, as far as an endpoint reads it. -/
structure TCPSegment.Same (seg seg' : TCPSegment) : Prop where
  seqno : seg.header.seqno = seg'.header.seqno
  ackno : seg.header.ackno = seg'.header.ackno
  ack : seg.header.ack = seg'.header.ack
  rst : seg.header.rst = seg'.header.rst
  syn : seg.header.syn = seg'.header.syn
  fin : seg.header.fin = seg'.header.fin
  win : seg.header.win = seg'.header.win
  payload : seg.payload = seg'.payload

instance (seg seg' : TCPSegment) : Decidable (seg.Same seg') :=
  decidable_of_iff (seg.header.seqno = seg'.header.seqno ∧ seg.header.ackno = seg'.header.ackno ∧
      seg.header.ack = seg'.header.ack ∧ seg.header.rst = seg'.header.rst ∧
      seg.header.syn = seg'.header.syn ∧ seg.header.fin = seg'.header.fin ∧
      seg.header.win = seg'.header.win ∧ seg.payload = seg'.payload)
    ⟨fun ⟨h1, h2, h3, h4, h5, h6, h7, h8⟩ => ⟨h1, h2, h3, h4, h5, h6, h7, h8⟩,
      fun h => ⟨h.seqno, h.ackno, h.ack, h.rst, h.syn, h.fin, h.win, h.payload⟩⟩

/-- A header without options, and no more payload than a segment is given. -/
structure TCPSegment.Compact (seg : TCPSegment) : Prop where
  doff : seg.header.doff = 5
  payload : seg.payload.length ≤ TCPConfig.maxPayloadSize

namespace TCPConnection

/-- The endpoint, had the segments not been taken from its queue. -/
def behind (sent : List TCPSegment) (c : TCPConnection) : TCPConnection :=
  { c with segmentsOut := sent ++ c.segmentsOut }

section Behind

variable (sent : List TCPSegment) (c : TCPConnection)

theorem behind_sendSegments (rst : Bool) :
    (c.behind sent).sendSegments rst = (c.sendSegments rst).behind sent := by
  cases hactive : c.active with
  | false =>
    rw [sendSegments_of_inactive hactive, sendSegments_of_inactive (c := c.behind sent) hactive]
  | true =>
    rw [sendSegments_of_active hactive, sendSegments_of_active (c := c.behind sent) hactive]
    change TCPConnection.mk _ _ _ ((sent ++ c.segmentsOut) ++ _) _ _ _ = _
    rw [List.append_assoc]
    rfl

theorem behind_tryClosing :
    (c.behind sent).tryClosingConnection = c.tryClosingConnection.behind sent := by
  unfold tryClosingConnection
  rw [behind_sendSegments]
  cases hactive : c.active with
  | false =>
    rw [if_neg (show ¬ (c.behind sent).active = true by simp [behind, hactive])]
    rfl
  | true =>
    rw [if_pos (show (c.behind sent).active = true from hactive)]
    dsimp only
    rw [if_pos rfl, apply_ite (behind sent)]
    rfl

theorem behind_endInputStream :
    (c.behind sent).endInputStream = c.endInputStream.behind sent :=
  behind_tryClosing sent
    { c with sender := (c.sender.setStream c.sender.stream.endInput).fillWindow }

theorem behind_connect : (c.behind sent).connect = c.connect.behind sent :=
  behind_sendSegments sent { c with sender := c.sender.fillWindow } false

theorem behind_write (data : List UInt8) :
    (c.behind sent).write data = ((c.write data).1, (c.write data).2.behind sent) := by
  have hsend := behind_sendSegments sent
    { c with sender := (c.sender.setStream (c.sender.stream.write data).2).fillWindow } false
  unfold write
  by_cases hclosed : (c.sender.stream.inputEnded || !c.synSent) = true
  · rw [if_pos hclosed]
    exact if_pos hclosed
  · rw [if_neg hclosed]
    refine (if_neg hclosed).trans ?_
    dsimp only
    rw [← hsend]
    rfl

theorem behind_giveUp : (c.behind sent).giveUp = c.giveUp.behind sent := by
  unfold giveUp
  by_cases hempty : c.sender.segmentsOut.isEmpty = true
  · have hsend := behind_sendSegments sent { c with sender := c.sender.sendEmptySegment } true
    rw [if_pos hempty, if_pos (show (c.behind sent).sender.segmentsOut.isEmpty = true from hempty)]
    exact congrArg reset hsend
  · have hsend := behind_sendSegments sent c true
    have hbehind : ¬ (c.behind sent).sender.segmentsOut.isEmpty = true := hempty
    rw [if_neg hempty, if_neg hbehind]
    exact congrArg reset hsend

theorem behind_tick (ms : ℕ) : (c.behind sent).tick ms = (c.tick ms).behind sent := by
  let timed : TCPConnection := { c with
    sender := c.sender.tick ms
    lastSegmRecvTimer := Words.wrapAdd 64 c.lastSegmRecvTimer ms }
  let sending (d : TCPConnection) : TCPConnection :=
    if d.sender.consecutiveRetransmissions > TCPConfig.maxRetxAttempts then d.giveUp
    else d.sendSegments false
  have hsending : sending (timed.behind sent) = (sending timed).behind sent := by
    dsimp only [sending]
    rw [apply_ite (behind sent), ← behind_giveUp, ← behind_sendSegments]
    rfl
  by_cases hactive : c.active = true
  · have htick : c.tick ms = (sending timed).tryClosingConnection := if_pos hactive
    have hbehind : (c.behind sent).tick ms = (sending (timed.behind sent)).tryClosingConnection :=
      if_pos hactive
    rw [htick, hbehind, hsending, behind_tryClosing]
  · have htick : c.tick ms = c := if_neg hactive
    rw [htick]
    exact if_neg hactive

theorem behind_takeIn (seg : TCPSegment) :
    (c.behind sent).takeIn seg = (c.takeIn seg).behind sent := by
  unfold takeIn
  dsimp only
  split <;> split <;> rfl

theorem behind_answer (seg : TCPSegment) :
    (c.behind sent).answer seg = (c.answer seg).behind sent := by
  let filled (d : TCPConnection) : TCPConnection :=
    if seg.lengthInSequenceSpace > 0 && d.sender.segmentsOut.isEmpty then
      { d with sender := d.sender.sendEmptySegment }
    else d
  have hfilled : filled (c.behind sent) = (filled c).behind sent := by
    dsimp only [filled]
    rw [apply_ite (behind sent)]
    rfl
  by_cases hsent : c.synSent = true
  · have hanswer : c.answer seg = (filled c).sendSegments false := if_pos hsent
    have hbehind : (c.behind sent).answer seg = (filled (c.behind sent)).sendSegments false :=
      if_pos hsent
    rw [hanswer, hbehind, hfilled, behind_sendSegments]
  · have hanswer : c.answer seg = c := if_neg hsent
    rw [hanswer]
    exact if_neg hsent

theorem behind_trySwitching :
    (c.behind sent).trySwitchingCloseMode = c.trySwitchingCloseMode.behind sent := by
  unfold trySwitchingCloseMode
  rw [apply_ite (behind sent)]
  rfl

theorem behind_segmentReceived (seg : TCPSegment) :
    (c.behind sent).segmentReceived seg = (c.segmentReceived seg).behind sent := by
  unfold segmentReceived
  rw [behind_takeIn, behind_answer]
  dsimp only
  rw [← behind_trySwitching, apply_ite (behind sent), ← behind_connect]
  rfl

end Behind

/-- Segments that are the same to an endpoint have the same effect. -/
theorem segmentReceived_same {seg seg' : TCPSegment} (h : seg.Same seg') (c : TCPConnection) :
    c.segmentReceived seg = c.segmentReceived seg' := by
  have hlen : seg.lengthInSequenceSpace = seg'.lengthInSequenceSpace := by
    simp only [TCPSegment.lengthInSequenceSpace, h.payload, h.syn, h.fin]
  have hreceive : c.receiver.segmentReceived seg = c.receiver.segmentReceived seg' := by
    have hnote : c.receiver.noteSyn seg = c.receiver.noteSyn seg' := by
      rw [TCPReceiver.noteSyn, TCPReceiver.noteSyn, h.syn, h.seqno]
    rw [TCPReceiver.segmentReceived, TCPReceiver.segmentReceived, hnote, h.seqno, h.syn, h.fin,
      h.payload]
  have htake : c.takeIn seg = c.takeIn seg' := by
    simp only [takeIn, hreceive, h.rst, h.ack, h.ackno, h.win]
  simp only [segmentReceived, answer, htake, hlen, h.syn]

end TCPConnection

end Sponge
