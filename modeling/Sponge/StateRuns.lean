import Sponge.OfficialStates

/-!
The states of two endpoints along a run.
A run passes through official states only, at both endpoints, exactly if none of the
three deliveries occurs that lead out of them. From the other states an endpoint goes on:
the next call of its owner or the next tick closes it, the acknowledgment of what is in
flight lets the FIN out, and the segment that was overtaken ends the disorder.
-/
namespace Sponge

namespace Endpoint

/-- Segments come from the peer y, and no byte is taken that is not there. -/
def Possible (x y : Endpoint) : EndpointOp → Prop
  | .deliver seg => seg ∈ y.conn.segmentsOut
  | .pop len => len ≤ x.conn.inboundStream.bufferSize
  | _ => True

instance (x y : Endpoint) : (op : EndpointOp) → Decidable (x.Possible y op)
  | .deliver seg => inferInstanceAs (Decidable (seg ∈ y.conn.segmentsOut))
  | .pop len => inferInstanceAs (Decidable (len ≤ x.conn.inboundStream.bufferSize))
  | .connect | .write _ | .endInputStream | .tick _ | .read _ => isTrue trivial

/-- The delivery of a segment that stands in the relation R to the endpoint. -/
def Delivers (R : TCPConnection → TCPSegment → Prop) (x : Endpoint) : EndpointOp → Prop
  | .deliver seg => R x.conn seg
  | _ => False

instance (R : TCPConnection → TCPSegment → Prop) [∀ c seg, Decidable (R c seg)] (x : Endpoint) :
    (op : EndpointOp) → Decidable (x.Delivers R op)
  | .deliver seg => inferInstanceAs (Decidable (R x.conn seg))
  | .connect | .write _ | .endInputStream | .tick _ | .read _ | .pop _ => isFalse id

end Endpoint

namespace Network

open Runs

/-- Any interleaving of calls and deliveries, with any number of bytes. -/
def unbounded : Machine Network NetworkOp := guarded Endpoint.Possible

instance (n : Network) : (op : NetworkOp) → Decidable (unbounded.enabled n op)
  | .atA op => inferInstanceAs (Decidable (n.a.Possible n.b op))
  | .atB op => inferInstanceAs (Decidable (n.b.Possible n.a op))

def Delivers (R : TCPConnection → TCPSegment → Prop) (n : Network) : NetworkOp → Prop
  | .atA op => n.a.Delivers R op
  | .atB op => n.b.Delivers R op

instance (R : TCPConnection → TCPSegment → Prop) [∀ c seg, Decidable (R c seg)] (n : Network) :
    (op : NetworkOp) → Decidable (n.Delivers R op)
  | .atA op => inferInstanceAs (Decidable (n.a.Delivers R op))
  | .atB op => inferInstanceAs (Decidable (n.b.Delivers R op))

def Official (n : Network) : Prop := n.a.conn.state.Official ∧ n.b.conn.state.Official

theorem exec_guarded (G G' : Endpoint → Endpoint → EndpointOp → Prop) (n : Network)
    (ops : List NetworkOp) : (guarded G).exec n ops = (guarded G').exec n ops := by
  induction ops generalizing n with
  | nil => rfl
  | cons op ops ih => cases op <;> exact ih _

end Network

namespace Handshake

open Words Runs SenderLoop SenderQueue SenderBooks SenderOutput ConnectionCalls
  ConnectionProgress ConnectionStates Emission Link Record TCPConnection

/-- The deliveries that lead out of the official states. -/
def Slip (c : TCPConnection) (seg : TCPSegment) : Prop :=
  EarlyAck c seg ∨ FinStuck c seg ∨ LastAck c seg

instance (c : TCPConnection) (seg : TCPSegment) : Decidable (Slip c seg) :=
  inferInstanceAs (Decidable (EarlyAck c seg ∨ FinStuck c seg ∨ LastAck c seg))

/-- What holds of each endpoint of any run by itself. -/
structure Steady (c : TCPConnection) : Prop where
  composed : ∃ S, Composed S c
  lively : ∃ S, Lively S c
  few : c.active = true → Few c.sender
  opened : Opened c

theorem new_steady (cfg : TCPConfig) (random : WrappingInt32) : Steady (new cfg random) where
  composed := ⟨[], new_composed cfg random⟩
  lively := ⟨[], new_lively cfg random⟩
  few _ := Nat.zero_le _
  opened h := by simp [new, TCPSender.new, ByteStream.new, ByteStream.inputEnded] at h

section Step

variable {x y : Endpoint} {S T : List UInt8} {op : EndpointOp}

theorem Opened.step (h : Opened x.conn) (hcomposed : Composed S x.conn) (op : EndpointOp) :
    Opened (x.step op).conn := by
  have hnow := And.intro hcomposed.coherent h
  cases op with
  | connect => exact (opened_stable.connect hnow).2
  | write data => exact (opened_stable.write hnow data).2
  | endInputStream =>
    have hended := hcomposed.coherent.quietCall .endInput ⟨trivial, by simp⟩ (by simp) rfl
    have hfilled := coherent_stable.fill _ _ hended
    refine (opened_stable.tryClosingConnection ⟨hfilled, fun _ => ?_⟩).2
    exact fillWindow_sends_syn hended.speaks.output.ordered
  | tick ms => exact (opened_stable.tick hnow ms).2
  | deliver seg =>
    exact (opened_stable.segmentReceived
      ⟨hcomposed.coherent.takeIn seg, h.takeIn hcomposed.coherent seg⟩).2
  | read len => exact h
  | pop len => exact h

theorem Steady.step (h : Steady x.conn) (op : EndpointOp) : Steady (x.step op).conn := by
  obtain ⟨S, hcomposed⟩ := h.composed
  obtain ⟨S', hlively⟩ := h.lively
  refine ⟨hcomposed.step op, ?_, ?_, h.opened.step hcomposed op⟩
  all_goals rcases Recovery.step_conn x op with ⟨call, heq⟩ | ⟨len, heq⟩ <;> rw [heq]
  · exact hlively.perform call
  · exact ⟨S', hlively⟩
  · exact Few.perform h.few hlively call
  · exact h.few

/-- Whatever one endpoint does, except for an early acknowledgment, the invariant stays. -/
theorem Shaken.step (h : Shaken S x.conn T y.conn) (op : EndpointOp) (hop : x.Possible y op)
    (hno : ¬ x.Delivers EarlyAck op) : ∃ S', Shaken S' (x.step op).conn T y.conn := by
  have hstable := shaken_stable T y.conn
  have hread : ∀ stream : ByteStream, Coherent S (x.conn.setInbound stream) →
      (y.conn.sender.absAckno = 0 → Attends y.conn.sender (x.conn.setInbound stream)) →
      Shaken S (x.conn.setInbound stream) T y.conn := by
    intro stream hcoherent hattends
    exact ⟨⟨hcoherent, h.greeted.peerCoherent,
      ⟨h.greeted.opening.queued, h.greeted.opening.emitted, h.greeted.opening.hushed,
        h.greeted.opening.acked, h.greeted.opening.fin_acks⟩,
      h.greeted.peerOpening, h.greeted.heard, hattends⟩, h.finHeard, h.peerFinHeard⟩
  cases op with
  | connect => exact ⟨S, hstable.connect h⟩
  | write data => exact ⟨_, hstable.write h data⟩
  | endInputStream =>
    have hended := h.quietCall .endInput ⟨trivial, by simp⟩ (by simp) (by simp) rfl
    exact ⟨S, hstable.endInputStream hended⟩
  | tick ms => exact ⟨S, hstable.tick h ms⟩
  | deliver seg => exact ⟨S, hstable.segmentReceived (h.takeIn hop hno)⟩
  | read len =>
    exact ⟨S, hread _ (h.greeted.coherent.popped _) fun hzero => (h.greeted.hears hzero).read len⟩
  | pop len =>
    exact ⟨S, hread _ (h.greeted.coherent.popped len) fun hzero => (h.greeted.hears hzero).pop hop⟩

/-- Whatever one endpoint does, except for a slip, it stays regular. -/
theorem Regular.step (h : Regular x.conn) (hsteady : Steady x.conn) (hheard : FinHeard x.conn)
    (op : EndpointOp) (hno : ¬ x.Delivers Slip op) : Regular (x.step op).conn := by
  obtain ⟨S, hcomposed⟩ := hsteady.composed
  have hcoherent := hcomposed.coherent
  cases op with
  | connect => exact (regular_stable.connect ⟨hcoherent, h⟩).2
  | write data => exact (regular_stable.write ⟨hcoherent, h⟩ data).2
  | endInputStream =>
    have hended := hcoherent.quietCall .endInput ⟨trivial, by simp⟩ (by simp) rfl
    exact (regular_stable.endInputStream
      ⟨hended, h.call hcoherent.speaks.output ⟨trivial, by simp⟩ (by simp)⟩).2
  | tick ms => exact (regular_stable.tick ⟨hcoherent, h⟩ ms).2
  | deliver seg =>
    change ¬ (EarlyAck x.conn seg ∨ FinStuck x.conn seg ∨ LastAck x.conn seg) at hno
    rw [not_or, not_or] at hno
    exact ⟨h.fin_sent_deliver hcomposed hsteady.opened hno.2.1,
      h.fin_unacked_deliver hcomposed hsteady.opened hheard hno.2.2⟩
  | read len => exact ⟨h.fin_sent, h.fin_unacked⟩
  | pop len => exact ⟨h.fin_sent, h.fin_unacked⟩

/-- Each of the three deliveries leads out of the official states at once. -/
theorem not_official_of_slip (h : Shaken S x.conn T y.conn) (hsteady : Steady x.conn)
    (hop : x.Possible y op) (hslip : x.Delivers Slip op) :
    ¬ (x.step op).conn.state.Official := by
  obtain ⟨S', hcomposed⟩ := hsteady.composed
  cases op with
  | deliver seg =>
    change ¬ (x.conn.segmentReceived seg).state.Official
    by_cases hearly : EarlyAck x.conn seg
    · exact overtaken_not_official (overtaken_of_early h.greeted hcomposed hop hearly)
    obtain ⟨_, hnext⟩ := h.step (.deliver seg) hop hearly
    rcases hslip with hcase | hstuck | hlast
    · exact absurd hcase hearly
    · rw [finBlocked_of_stuck hcomposed hsteady.opened hnext.finHeard hstuck]
      decide
    · rw [lastAcked_of_last hcomposed h.finHeard hlast]
      decide
  | connect | write _ | endInputStream | tick _ | read _ | pop _ => exact hslip.elim

end Step

section Resume

variable {S : List UInt8} {c : TCPConnection} {seg : TCPSegment}

theorem ofSender_finAcked {s : TCPSender} (h : TCPState.ofSender s = .finAcked) :
    s.finSent = true ∧ s.bytesInFlight = 0 := by
  unfold TCPState.ofSender TCPSender.nextSeqnoAbsolute at h
  split_ifs at h with _ _ _ heof hless hflight
  refine ⟨?_, not_not.mp hflight⟩
  simp only [TCPSender.finSent, Bool.and_eq_true, decide_eq_true_eq]
  exact ⟨by simpa using heof, by omega⟩

/-- A sender past its SYN has been acknowledged. -/
theorem absAckno_pos_of_state {s : TCPSender} (h : Sane s) (hok : s.stream.error = false)
    (hclosed : TCPState.ofSender s ≠ .closed) (hwaiting : TCPState.ofSender s ≠ .synSent) :
    0 < s.absAckno := by
  by_contra hzero
  rcases ofSender_unacked h hok (by omega) with hcase | hcase
  · exact hclosed hcase
  · exact hwaiting hcase

/-- After the last acknowledgment both streams are over. -/
theorem done_of_lastAcked (h : Composed S c) (hstate : c.state = lastAcked)
    (hnone : c.receiver.unassembledBytes = 0) :
    c.istreamDone = true ∧ c.ostreamDone = true ∧ c.sender.fillWindow = c.sender := by
  obtain ⟨-, hended, -, hsender⟩ := ended_of_state hstate
  obtain ⟨hsent, hflight⟩ := ofSender_finAcked hsender
  obtain ⟨firsts, hbooks⟩ := h.coherent.speaks.output.books
  have hfin := (finSent_iff_finOut hbooks).mp hsent
  refine ⟨Bool.and_eq_true_iff.mpr ⟨hended, beq_iff_eq.mpr hnone⟩, ?_,
    FinOut.fillWindow_eq hbooks hfin⟩
  unfold TCPConnection.ostreamDone TCPSender.nextSeqnoAbsolute
  rw [hfin.2, hfin.1, hbooks.written_eq, hflight]
  simp

/-- After the last acknowledgment the next tick closes the endpoint, and so does the end
of the input. -/
theorem lastAcked_closes (h : Steady c) (hstate : c.state = lastAcked)
    (hnone : c.receiver.unassembledBytes = 0) :
    c.endInputStream.state = TCPState.ofState .closed ∧
      ∀ ms, (c.tick ms).state = TCPState.ofState .closed := by
  obtain ⟨S, hcomposed⟩ := h.composed
  obtain ⟨hactive, -, hlinger, hsender⟩ := ended_of_state hstate
  obtain ⟨hin, hout, hfill⟩ := done_of_lastAcked hcomposed hstate hnone
  obtain ⟨hsent, hflight⟩ := ofSender_finAcked hsender
  have hord := hcomposed.coherent.speaks.output.ordered
  have hok := hcomposed.error_eq_false hactive
  have hpassive : ∀ t, c.lingerAfterStreamsFinish = true → 10 * c.cfg.rtTimeout.toNat ≤ t := by
    intro t hon
    exact absurd (hon.symm.trans hlinger) Bool.noConfusion
  constructor
  · have hend : c.endInputStream = c.tryClosingConnection := by
      unfold TCPConnection.endInputStream
      rw [ByteStream.endInput_of_eof (eof_of_finSent hsent)]
      change ({ c with sender := c.sender.fillWindow } : TCPConnection).tryClosingConnection = _
      rw [hfill]
    have hclosed := composed_stable.tryClosingConnection hcomposed
    rw [hend]
    rw [Recovery.tryClosing_closes hactive (hpassive _) hin hout] at hclosed ⊢
    refine hclosed.closed ?_ rfl
    exact (congrArg ByteStream.error (sendSegments_stream c false)).trans hok
  · intro ms
    have hnil : c.sender.outstandingSegments = [] := by
      refine hord.nil_iff.mpr ?_
      have hle := hord.sane.ack_le
      have heq := hord.sane.bytesInFlight_eq
      omega
    obtain ⟨hdown, hstream, -⟩ :=
      Recovery.tick_of_done hactive (h.few hactive) hnil (hpassive _) hin hout
    exact (composed_stable.tick hcomposed ms).closed ((congrArg ByteStream.error hstream).trans hok)
      hdown

/-- A FIN that is stuck follows the last byte, and something is in flight. -/
theorem finBlocked_waits (h : Steady c) (hstate : c.state = finBlocked) :
    c.sender.stream.eof = true ∧ c.sender.nextSeqno = c.sender.stream.bytesWritten + 1 ∧
      0 < c.sender.bytesInFlight := by
  obtain ⟨S, hcomposed⟩ := h.composed
  obtain ⟨S', -, hdrained⟩ := h.lively
  obtain ⟨hactive, hended, hlinger, hsender⟩ := ended_of_state hstate
  have heof := hcomposed.settled hended hlinger
  have hok := hcomposed.error_eq_false hactive
  obtain ⟨firsts, hbooks⟩ := hcomposed.coherent.speaks.output.books
  have hsane := hbooks.sane
  have hpos := absAckno_pos_of_state hsane hok (by rw [hsender]; decide) (by rw [hsender]; decide)
  have hunsent : c.sender.finSent = false := by
    by_contra hsent
    rw [ofSender_fin_sent hsane hok hpos (Bool.not_eq_false _ ▸ hsent)] at hsender
    split at hsender <;> exact absurd hsender TCPSenderStateSummary.noConfusion
  have hle := hsane.ack_le
  have hflight := hsane.bytesInFlight_eq
  have hnext := next_le_of_fin_unsent hbooks hunsent
  have hread := hbooks.eof_read heof
  have hwritten := hbooks.written_eq
  refine ⟨heof, ?_, ?_⟩
  · rcases hbooks.position with ⟨hzero, -⟩ | hmid | ⟨hlast, -⟩ <;> omega
  · by_contra hnone
    refine hdrained (by omega) (by omega) ⟨hunsent, Or.inr (Or.inr ?_)⟩
    exact ByteStream.ended_of_eof heof

/-- With nothing else in flight there is room for the FIN. -/
theorem fin_sent_after_all (h : Lively S c) (heof : c.sender.stream.eof = true)
    (hlast : c.sender.nextSeqno = c.sender.stream.bytesWritten + 1)
    (hlt : c.sender.absAckno < c.sender.nextSeqno) {ackno : WrappingInt32} (win : UInt16)
    (hall : unwrap ackno c.sender.isn c.sender.absAckno = c.sender.nextSeqno) :
    (c.sender.ackReceived ackno win).finSent = true ∧
      (c.sender.ackReceived ackno win).absAckno = c.sender.nextSeqno ∧
      c.sender.nextSeqno < (c.sender.ackReceived ackno win).nextSeqno := by
  have hop : Proper c.sender (.ackReceived ackno win) := ⟨trivial, by simp⟩
  have hord := h.1.ordered
  obtain ⟨firsts, hbooks⟩ := h.1.books
  obtain ⟨hout, hforward⟩ := h.1.call (.ackReceived ackno win) hop rfl
  obtain ⟨firsts', hbooks'⟩ := hout.books
  have hacked : (c.sender.ackReceived ackno win).absAckno = c.sender.nextSeqno :=
    ackReceived_all hord hlt win hall
  have heof' : (c.sender.ackReceived ackno win).stream.eof = true := apply_eof hord hop.1 heof
  have hnext : c.sender.nextSeqno ≤ (c.sender.ackReceived ackno win).nextSeqno := hforward.next_le
  have hwritten := hbooks.written_eq
  have hsent : (c.sender.ackReceived ackno win).finSent = true := by
    by_contra hunsent
    rw [Bool.not_eq_true] at hunsent
    have hle : (c.sender.ackReceived ackno win).nextSeqno ≤ S.length + 1 :=
      next_le_of_fin_unsent hbooks' hunsent
    refine h.2.ackReceived hord ackno win (by omega) (by omega) ⟨hunsent, Or.inr (Or.inr ?_)⟩
    exact ByteStream.ended_of_eof heof'
  have hfin : FinOut S (c.sender.ackReceived ackno win) := (finSent_iff_finOut hbooks').mp hsent
  refine ⟨hsent, hacked, ?_⟩
  have hend := hfin.1
  omega

/-- The acknowledgment of all that is in flight lets the FIN out. -/
theorem finBlocked_resumes (h : Steady c) (hstate : c.state = finBlocked)
    (hrst : seg.header.rst = false) (hack : seg.header.ack = true)
    (hall : unwrap seg.header.ackno c.sender.isn c.sender.absAckno = c.sender.nextSeqno) :
    (c.segmentReceived seg).state = TCPState.ofState .closing := by
  obtain ⟨S, hcomposed⟩ := h.composed
  obtain ⟨S', hlively⟩ := h.lively
  obtain ⟨hactive, hended, hlinger, -⟩ := ended_of_state hstate
  obtain ⟨heof, hlast, hflight⟩ := finBlocked_waits h hstate
  have hlt : c.sender.absAckno < c.sender.nextSeqno := by
    have hle := hlively.1.ordered.sane.ack_le
    have heq := hlively.1.ordered.sane.bytesInFlight_eq
    omega
  have hsender : acknowledgedBy c seg =
      c.sender.ackReceived seg.header.ackno seg.header.win := if_pos hack
  obtain ⟨hfin, hacked, hmore⟩ := fin_sent_after_all hlively heof hlast hlt seg.header.win hall
  rw [← hsender] at hfin hacked hmore
  obtain ⟨hsane, hok, hstate'⟩ := segmentReceived_state hcomposed hactive hrst (by omega)
    (AcknoAdvance.segmentReceived_ended seg hended)
  rw [hstate', hlinger, eof_of_finSent hfin, ofSender_fin_sent hsane hok (by omega) hfin,
    if_neg (by omega)]
  rfl

/-- The segment that was overtaken ends the disorder. -/
theorem overtaken_resumes (h : Steady c) (hover : Overtaken c.state)
    (hrst : seg.header.rst = false)
    (hsyn : c.state.receiver = .listen → seg.header.syn = true)
    (hack : c.state.sender = .synSent → seg.header.ack = true ∧
      0 < unwrap seg.header.ackno c.sender.isn c.sender.absAckno ∧
      unwrap seg.header.ackno c.sender.isn c.sender.absAckno ≤ c.sender.nextSeqno) :
    ¬ Overtaken (c.segmentReceived seg).state := by
  obtain ⟨S, hcomposed⟩ := h.composed
  obtain ⟨S', hlively⟩ := h.lively
  have hsane := hlively.1.ordered.sane
  have hsane' := (hcomposed.segmentReceived seg).coherent.speaks.output.ordered.sane
  have hsynced : (c.segmentReceived seg).receiver.synReceived = true := by
    rw [segmentReceived_receiver hrst, AcknoAdvance.segmentReceived_synReceived]
    rcases hover with ⟨hlisten, -⟩ | ⟨-, hfin⟩
    · rw [hsyn hlisten, Bool.or_true]
    · rw [(hcomposed.coherent.known (ofReceiver_finRecv hfin)).1, Bool.true_or]
  have hpos : 0 < (c.segmentReceived seg).sender.absAckno := by
    rcases hover with ⟨hlisten, hclosed, hwaiting⟩ | ⟨hwaiting, -⟩
    · have hok := hcomposed.coherent.error_eq.trans (ofReceiver_listen hlisten).1
      exact Nat.lt_of_lt_of_le (absAckno_pos_of_state hsane hok hclosed hwaiting)
        (absAckno_le_segmentReceived hlively seg)
    · obtain ⟨hflag, hlo, hhi⟩ := hack hwaiting
      have hnone := (ofSender_synSent hwaiting).2
      have hflight := hsane.bytesInFlight_eq
      have hle := hsane.ack_le
      rw [segmentReceived_absAckno hlively, takeIn_sender hrst, if_pos hflag,
        ackReceived_absAckno hlively.1.ordered _ (by omega) hhi]
      exact hlo
  rintro (⟨hlisten, -⟩ | ⟨hwaiting, -⟩)
  · have hunsynced := (ofReceiver_listen hlisten).2
    exact absurd (hsynced.symm.trans hunsynced) Bool.noConfusion
  · obtain ⟨hsent, hall⟩ := ofSender_synSent hwaiting
    have hflight := hsane'.bytesInFlight_eq
    omega

end Resume

/-- Where an endpoint can be, and how it goes on from the states that are not official. -/
structure Resumes (orderly short : Prop) (c : TCPConnection) : Prop where
  classified : c.state.Official ∨ c.state = lastAcked ∨ c.state = finBlocked ∨
    (¬ orderly ∧ Overtaken c.state)
  last_acked : short → c.state = lastAcked → c.endInputStream.state = TCPState.ofState .closed ∧
    ∀ ms, (c.tick ms).state = TCPState.ofState .closed
  fin_blocked : c.state = finBlocked → c.sender.stream.eof = true ∧
    c.sender.nextSeqno = c.sender.stream.bytesWritten + 1 ∧ 0 < c.sender.bytesInFlight ∧
    ∀ seg : TCPSegment, seg.header.rst = false → seg.header.ack = true →
      unwrap seg.header.ackno c.sender.isn c.sender.absAckno = c.sender.nextSeqno →
      (c.segmentReceived seg).state = TCPState.ofState .closing
  overtaken : Overtaken c.state → ∀ seg : TCPSegment, seg.header.rst = false →
    (c.state.receiver = .listen → seg.header.syn = true) →
    (c.state.sender = .synSent → seg.header.ack = true ∧
      0 < unwrap seg.header.ackno c.sender.isn c.sender.absAckno ∧
      unwrap seg.header.ackno c.sender.isn c.sender.absAckno ≤ c.sender.nextSeqno) →
    ¬ Overtaken (c.segmentReceived seg).state

theorem Steady.resumes {c : TCPConnection} {orderly short : Prop} (h : Steady c)
    (hno : orderly → ¬ Overtaken c.state)
    (hnone : short → c.receiver.streamOut.inputEnded = true → c.receiver.unassembledBytes = 0) :
    Resumes orderly short c where
  classified := by
    obtain ⟨S, hcomposed⟩ := h.composed
    rcases hcomposed.classified with hofficial | hlast | ⟨hblocked, -⟩ | hover
    · exact Or.inl hofficial
    · exact Or.inr (Or.inl hlast)
    · exact Or.inr (Or.inr (Or.inl hblocked))
    · exact Or.inr (Or.inr (Or.inr ⟨fun horderly => hno horderly hover, hover⟩))
  last_acked hshort hstate :=
    lastAcked_closes h hstate (hnone hshort (ended_of_state hstate).2.1)
  fin_blocked hstate := by
    obtain ⟨heof, hlast, hflight⟩ := finBlocked_waits h hstate
    exact ⟨heof, hlast, hflight, fun seg => finBlocked_resumes h hstate⟩
  overtaken hover _ := overtaken_resumes h hover

/-- The invariant of a run without slips, seen from the endpoint x. -/
structure Orderly (x y : Endpoint) : Prop where
  shaken : ∃ S T, Shaken S x.conn T y.conn
  steady : Steady x.conn
  peerSteady : Steady y.conn
  regular : Regular x.conn
  peerRegular : Regular y.conn

section Orderly

variable {x y : Endpoint} {op : EndpointOp}

theorem Orderly.symm (h : Orderly x y) : Orderly y x := by
  obtain ⟨S, T, hshaken⟩ := h.shaken
  exact ⟨⟨T, S, hshaken.symm⟩, h.peerSteady, h.steady, h.peerRegular, h.regular⟩

theorem Orderly.official (h : Orderly x y) : x.conn.state.Official := by
  obtain ⟨S, T, hshaken⟩ := h.shaken
  obtain ⟨S', hcomposed⟩ := h.steady.composed
  exact official_of_regular hcomposed hshaken.greeted.opening hshaken.finHeard h.regular

theorem Orderly.step (h : Orderly x y) (hop : x.Possible y op) (hno : ¬ x.Delivers Slip op) :
    Orderly (x.step op) y := by
  obtain ⟨S, T, hshaken⟩ := h.shaken
  have hearly : ¬ x.Delivers EarlyAck op := by
    cases op with
    | deliver seg => exact fun hearly => hno (Or.inl hearly)
    | connect | write _ | endInputStream | tick _ | read _ | pop _ => exact id
  obtain ⟨S', hnext⟩ := hshaken.step op hop hearly
  exact ⟨⟨S', T, hnext⟩, h.steady.step op, h.peerSteady,
    h.regular.step h.steady hshaken.finHeard op hno, h.peerRegular⟩

theorem Orderly.not_official (h : Orderly x y) (hop : x.Possible y op)
    (hslip : x.Delivers Slip op) : ¬ (x.step op).conn.state.Official := by
  obtain ⟨S, T, hshaken⟩ := h.shaken
  exact not_official_of_slip hshaken h.steady hop hslip

end Orderly

section Run

variable (cfgA cfgB : TCPConfig) (randomA randomB : WrappingInt32)

theorem new_shaken : Shaken [] (new cfgA randomA) [] (new cfgB randomB) where
  greeted := ⟨(new_composed cfgA randomA).coherent, (new_composed cfgB randomB).coherent,
    new_opening cfgA randomA, new_opening cfgB randomB, fun _ => new_attends _ cfgB randomB,
    fun _ => new_attends _ cfgA randomA⟩
  finHeard h := by simp [new, TCPReceiver.new, StreamReassembler.new] at h
  peerFinHeard h := by simp [new, TCPReceiver.new, StreamReassembler.new] at h

theorem new_orderly : Orderly (Endpoint.new cfgA randomA) (Endpoint.new cfgB randomB) where
  shaken := ⟨[], [], new_shaken cfgA cfgB randomA randomB⟩
  steady := new_steady cfgA randomA
  peerSteady := new_steady cfgB randomB
  regular := new_regular cfgA randomA
  peerRegular := new_regular cfgB randomB

variable {ops : List NetworkOp}

theorem official_iff_never
    (hv : Network.unbounded.Valid (Network.new cfgA cfgB randomA randomB) ops) :
    (∀ pre, pre <+: ops →
      (Network.unbounded.exec (Network.new cfgA cfgB randomA randomB) pre).Official) ↔
      Network.unbounded.Never (Network.Delivers Slip) (Network.new cfgA cfgB randomA randomB)
        ops := by
  refine Network.unbounded.always_iff_passes (P := fun n => Orderly n.a n.b)
    (Q := Network.Official) (T := fun n op => ¬ n.Delivers Slip op) ?_ ?_ ?_
    (new_orderly cfgA cfgB randomA randomB) hv
  · exact fun n h => ⟨h.official, h.symm.official⟩
  · intro n op h hop hno
    cases op with
    | atA op => exact h.step hop hno
    | atB op => exact (h.symm.step hop hno).symm
  · intro n op h hop hslip hofficial
    rw [not_not] at hslip
    cases op with
    | atA op => exact h.not_official hop hslip hofficial.1
    | atB op => exact h.symm.not_official hop hslip hofficial.2

theorem steady_of_run
    (hv : Network.unbounded.Valid (Network.new cfgA cfgB randomA randomB) ops) :
    Steady (Network.unbounded.exec (Network.new cfgA cfgB randomA randomB) ops).a.conn ∧
      Steady (Network.unbounded.exec (Network.new cfgA cfgB randomA randomB) ops).b.conn := by
  refine Network.keeps (P := fun x y => Steady x.conn ∧ Steady y.conn) ?_ ?_
    ⟨new_steady cfgA randomA, new_steady cfgB randomB⟩ hv
  · exact fun x y op h _ => ⟨h.1.step op, h.2⟩
  · exact fun x y op h _ => ⟨h.1, h.2.step op⟩

theorem shaken_of_run
    (hv : Network.unbounded.Valid (Network.new cfgA cfgB randomA randomB) ops)
    (hnever : Network.unbounded.Never (Network.Delivers EarlyAck)
      (Network.new cfgA cfgB randomA randomB) ops) :
    ∃ S T, Shaken S (Network.unbounded.exec (Network.new cfgA cfgB randomA randomB) ops).a.conn
      T (Network.unbounded.exec (Network.new cfgA cfgB randomA randomB) ops).b.conn := by
  refine Network.unbounded.invariant_of_never
    (P := fun n => ∃ S T, Shaken S n.a.conn T n.b.conn) ?_
    ⟨[], [], new_shaken cfgA cfgB randomA randomB⟩ hv hnever
  rintro n op ⟨S, T, h⟩ hop hno
  cases op with
  | atA op =>
    obtain ⟨S', hstep⟩ := h.step op hop hno
    exact ⟨S', T, hstep⟩
  | atB op =>
    obtain ⟨T', hstep⟩ := h.symm.step op hop hno
    exact ⟨S, T', hstep.symm⟩

/-- In a run of fewer than 2^31 - 2 bytes nothing waits behind the end of a stream. -/
theorem none_waits (hv : Network.machine.Valid (Network.new cfgA cfgB randomA randomB) ops) :
    let n := Network.unbounded.exec (Network.new cfgA cfgB randomA randomB) ops
    (n.a.conn.receiver.streamOut.inputEnded = true → n.a.conn.receiver.unassembledBytes = 0) ∧
      (n.b.conn.receiver.streamOut.inputEnded = true →
        n.b.conn.receiver.unassembledBytes = 0) := by
  have hsound := sound_of_run cfgA cfgB randomA randomB hv
  rw [show Network.machine.exec _ ops = Network.unbounded.exec _ ops from
    Network.exec_guarded _ _ _ ops] at hsound
  exact ⟨Recovery.unassembledBytes_of_ended hsound.symm.linked.joined.heard.assembles,
    Recovery.unassembledBytes_of_ended hsound.linked.joined.heard.assembles⟩

end Run

end Handshake

end Sponge
