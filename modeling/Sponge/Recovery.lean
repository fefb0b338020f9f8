import Sponge.EmptyChunks
import Sponge.Record
import Sponge.Shutdown

/-!
A connection that is alive can always be brought to a good end.
Whatever has happened between two endpoints, lost, repeated and reordered segments
included, as long as both are active there is a way on: the peer reads what it has,
gets a copy of the oldest outstanding segment, and its answer acknowledges more than
was acknowledged before. After finitely many such rounds nothing is in flight in either
direction, and a tick closes endpoints whose streams have ended.
-/
namespace Sponge

namespace EndpointOp

/-- Neither the owner nor the clock does anything but read. -/
def Passive : EndpointOp → Prop
  | .deliver _ => True
  | .read _ => True
  | _ => False

end EndpointOp

namespace NetworkOp

def Passive : NetworkOp → Prop
  | .atA op => op.Passive
  | .atB op => op.Passive

/-- The same at the other endpoint. -/
def mirror : NetworkOp → NetworkOp
  | .atA op => .atB op
  | .atB op => .atA op

end NetworkOp

namespace Network

open Runs

def mirror (n : Network) : Network := ⟨n.b, n.a⟩

theorem exec_mirror (n : Network) (ops : List NetworkOp) :
    machine.exec n.mirror (ops.map NetworkOp.mirror) = (machine.exec n ops).mirror := by
  induction ops generalizing n with
  | nil => rfl
  | cons op ops ih =>
    cases op with
    | atA op => exact ih (machine.step n (.atA op))
    | atB op => exact ih (machine.step n (.atB op))

theorem valid_mirror {n : Network} {ops : List NetworkOp} (h : machine.Valid n ops) :
    machine.Valid n.mirror (ops.map NetworkOp.mirror) := by
  induction ops generalizing n with
  | nil => trivial
  | cons op ops ih => cases op <;> exact ⟨h.1, ih h.2⟩

end Network

namespace Recovery

open Words Runs Assembly Reassembly SenderLoop SenderQueue SenderBooks SenderOutput
  ConnectionCalls ConnectionProgress ConnectionStates Emission Link Record TCPConnection

/-- What holds of each endpoint of a run by itself. -/
structure Fit (x : Endpoint) : Prop where
  composed : ∃ S, Composed S x.conn
  documented : Documented x.accepted x.conn
  drained : Drained x.conn.sender
  flushed : Flushed x.conn
  unreset : Unreset x.conn
  few : x.conn.active = true → Few x.conn.sender
  room : 0 < x.conn.receiver.reassembler.capacity
  opened : x.accepted ≠ [] ∨ x.closed = true → 0 < x.conn.sender.nextSeqno
  ended : x.closed = true → x.conn.sender.stream.inputEnded = true

theorem new_fit (cfg : TCPConfig) (random : WrappingInt32) (hroom : 0 < cfg.recvCapacity) :
    Fit (Endpoint.new cfg random) where
  composed := ⟨[], new_composed cfg random⟩
  documented := ⟨[], new_kept cfg random⟩
  drained := (new_lively cfg random).2
  flushed _ := rfl
  unreset _ seg hseg := by simp [Endpoint.new, new] at hseg
  few _ := Nat.zero_le _
  room := hroom
  opened h := by simp [Endpoint.new] at h
  ended h := by simp [Endpoint.new] at h

section Fit

variable {x : Endpoint}

theorem Fit.lively (h : Fit x) : Lively x.accepted x.conn := by
  obtain ⟨firsts, hkept⟩ := h.documented
  exact ⟨hkept.output, h.drained⟩

/-- An operation is a call of the endpoint or takes bytes off the inbound stream. -/
theorem step_conn (x : Endpoint) (op : EndpointOp) :
    (∃ call, (x.step op).conn = x.conn.perform call) ∨
      ∃ len, (x.step op).conn = x.conn.setInbound (x.conn.inboundStream.popOutput len) := by
  cases op with
  | connect => exact Or.inl ⟨.connect, rfl⟩
  | write data => exact Or.inl ⟨.write data, rfl⟩
  | endInputStream => exact Or.inl ⟨.endInputStream, rfl⟩
  | tick ms => exact Or.inl ⟨.tick ms, rfl⟩
  | deliver seg => exact Or.inl ⟨.segmentReceived seg, rfl⟩
  | read len => exact Or.inl ⟨.read len, rfl⟩
  | pop len => exact Or.inr ⟨len, rfl⟩

theorem Fit.step_documented (h : Fit x) (op : EndpointOp) :
    Documented (x.step op).accepted (x.step op).conn := by
  have hdoc := h.documented
  cases op with
  | connect => exact documented_stable.connect hdoc
  | write data => exact documented_stable.write hdoc data
  | endInputStream =>
    have hended := hdoc.quietCall .endInput ⟨trivial, by simp⟩ (by simp) rfl
    exact documented_stable.endInputStream hended
  | tick ms => exact documented_stable.tick hdoc ms
  | deliver seg => exact documented_stable.segmentReceived (hdoc.takeIn seg)
  | read len => exact hdoc.of_same rfl rfl
  | pop len => exact hdoc.of_same rfl rfl

theorem Fit.step_drained (h : Fit x) (op : EndpointOp) : Drained (x.step op).conn.sender := by
  rcases step_conn x op with ⟨call, heq⟩ | ⟨len, heq⟩
  · obtain ⟨S, hlively⟩ := h.lively.perform call
    rw [heq]
    exact hlively.2
  · rw [heq]
    exact h.drained

theorem Fit.step_room (h : Fit x) (op : EndpointOp) :
    0 < (x.step op).conn.receiver.reassembler.capacity := by
  rcases step_conn x op with ⟨call, heq⟩ | ⟨len, heq⟩
  · rw [heq]
    refine perform_receiver_rule (P := fun r => 0 < r.reassembler.capacity) h.lively h.room
      (fun r hr => hr) ?_ (fun len _ => h.room)
    intro seg _
    rw [segmentReceived_capacity]
    exact h.room
  · rw [heq]
    exact h.room

/-- Ending the input puts the SYN on its way, if nothing else. -/
theorem Fit.endInputStream_reached (h : Fit x) :
    Reached (max 1 x.conn.sender.nextSeqno) true x.accepted x.conn.endInputStream := by
  have hended := (h.lively.1.call .endInput ⟨trivial, by simp⟩ rfl).1
  have hfill : Lively x.accepted ((x.conn.callSender .endInput).callSender .fillWindow) :=
    Lively.fill hended
  obtain ⟨-, ⟨fresh, hfilled⟩, -⟩ := hended.ordered.fillWindow
  have hpos := fillWindow_sends_syn hended.ordered
  have hle : x.conn.sender.nextSeqno ≤ _ := hfilled.tiles.le
  refine (reached_stable _ true).tryClosingConnection ⟨hfill, ?_, fun _ => hfilled.ended_eq⟩
  exact max_le hpos hle

theorem Fit.step_reached (h : Fit x) (op : EndpointOp) :
    Reached x.conn.sender.nextSeqno x.conn.sender.stream.inputEnded (x.step op).accepted
      (x.step op).conn := by
  have hnow : Reached x.conn.sender.nextSeqno x.conn.sender.stream.inputEnded x.accepted x.conn :=
    ⟨h.lively, Nat.le_refl _, id⟩
  have hstable := reached_stable x.conn.sender.nextSeqno x.conn.sender.stream.inputEnded
  cases op with
  | connect => exact hstable.connect hnow
  | write data => exact hstable.write hnow data
  | endInputStream =>
    have hend := h.endInputStream_reached
    exact ⟨hend.lively, Nat.le_trans (Nat.le_max_right _ _) hend.next_le, fun _ => hend.ended rfl⟩
  | tick ms => exact hstable.tick hnow ms
  | deliver seg => exact hstable.segmentReceived (hnow.takeIn seg)
  | read len => exact hnow.of_sender h.lively (Nat.le_refl _) rfl
  | pop len => exact hnow.of_sender h.lively (Nat.le_refl _) rfl

/-- Nothing is accepted before the SYN is sent. -/
theorem Fit.step_opened (h : Fit x) (op : EndpointOp)
    (hop : (x.step op).accepted ≠ [] ∨ (x.step op).closed = true) :
    0 < (x.step op).conn.sender.nextSeqno := by
  have hle := (h.step_reached op).next_le
  by_cases hbefore : x.accepted ≠ [] ∨ x.closed = true
  · exact Nat.lt_of_lt_of_le (h.opened hbefore) hle
  · rw [not_or, not_not] at hbefore
    cases op with
    | write data =>
      rcases hop with hsome | hclosed
      · refine Nat.lt_of_lt_of_le ?_ hle
        by_contra hzero
        have hunsent : x.conn.synSent = false := decide_eq_false hzero
        simp [Endpoint.step, TCPConnection.write, hunsent, hbefore.1] at hsome
      · exact absurd hclosed hbefore.2
    | endInputStream =>
      exact Nat.lt_of_lt_of_le (Nat.lt_of_lt_of_le Nat.zero_lt_one (Nat.le_max_left _ _))
        h.endInputStream_reached.next_le
    | connect | tick _ | deliver _ | read _ | pop _ =>
      rcases hop with hsome | hclosed
      · exact absurd hbefore.1 hsome
      · exact absurd hclosed hbefore.2

theorem Fit.step_ended (h : Fit x) (op : EndpointOp) (hop : (x.step op).closed = true) :
    (x.step op).conn.sender.stream.inputEnded = true := by
  cases op with
  | endInputStream => exact h.endInputStream_reached.ended rfl
  | connect => exact (h.step_reached .connect).ended (h.ended hop)
  | write data => exact (h.step_reached (.write data)).ended (h.ended hop)
  | tick ms => exact (h.step_reached (.tick ms)).ended (h.ended hop)
  | deliver seg => exact (h.step_reached (.deliver seg)).ended (h.ended hop)
  | read len => exact (h.step_reached (.read len)).ended (h.ended hop)
  | pop len => exact (h.step_reached (.pop len)).ended (h.ended hop)

theorem Fit.step (h : Fit x) (op : EndpointOp) : Fit (x.step op) := by
  obtain ⟨S, hcomposed⟩ := h.composed
  refine ⟨hcomposed.step op, h.step_documented op, h.step_drained op, ?_, ?_, ?_, h.step_room op,
    h.step_opened op, h.step_ended op⟩
  all_goals rcases step_conn x op with ⟨call, heq⟩ | ⟨len, heq⟩ <;> rw [heq]
  · exact h.flushed.perform h.lively call
  · exact h.flushed
  · exact h.unreset.perform h.lively call
  · exact h.unreset
  · exact Few.perform h.few h.lively call
  · exact h.few

end Fit

/-- What y has of the stream of x lies below the next sequence number of x. -/
structure Within (x y : Endpoint) : Prop where
  syn : y.conn.receiver.synReceived = true → 0 < x.conn.sender.nextSeqno
  held : ∀ p, Held y.conn.receiver.reassembler p → p + 1 < x.conn.sender.nextSeqno

/-- The invariant of a run, seen from the endpoint x. -/
structure Ready (x y : Endpoint) : Prop where
  sound : Sound x y
  fit : Fit x
  peerFit : Fit y
  within : Within x y
  peerWithin : Within y x

theorem Ready.symm {x y : Endpoint} (h : Ready x y) : Ready y x :=
  ⟨h.sound.symm, h.peerFit, h.fit, h.peerWithin, h.within⟩

theorem new_ready {cfgA cfgB : TCPConfig} (randomA randomB : WrappingInt32)
    (hroomA : 0 < cfgA.recvCapacity) (hroomB : 0 < cfgB.recvCapacity) :
    Ready (Endpoint.new cfgA randomA) (Endpoint.new cfgB randomB) where
  sound := new_sound cfgA cfgB randomA randomB
  fit := new_fit cfgA randomA hroomA
  peerFit := new_fit cfgB randomB hroomB
  within := ⟨fun h => by simp [Endpoint.new, new, TCPReceiver.new] at h,
    fun p h => by simp [Endpoint.new, new, TCPReceiver.new, Held, StreamReassembler.new] at h⟩
  peerWithin := ⟨fun h => by simp [Endpoint.new, new, TCPReceiver.new] at h,
    fun p h => by simp [Endpoint.new, new, TCPReceiver.new, Held, StreamReassembler.new] at h⟩

section Step

variable {x y : Endpoint} {seg : TCPSegment}

/-- Where the piece of an emitted segment lies. -/
theorem Fit.piece (h : Fit x) (hseg : seg ∈ x.conn.segmentsOut) :
    ∃ v, HonestPiece x.conn.sender.isn x.accepted v seg ∧
      v + seg.lengthInSequenceSpace ≤ x.conn.sender.nextSeqno := by
  obtain ⟨firsts, hkept⟩ := h.documented
  exact (hkept.repeats seg (List.mem_append_left _ hseg)).piece hkept.books

theorem Fit.next_le (h : Fit x) : x.conn.sender.nextSeqno ≤ x.accepted.length + 2 := by
  obtain ⟨firsts, hkept⟩ := h.documented
  have hread := hkept.books.bytesRead_le
  rcases hkept.books.position with ⟨hzero, -⟩ | hmid | ⟨hend, -⟩ <;> omega

/-- A receiver of an honest piece that has heard the SYN, or hears it now. -/
theorem Ready.receive (h : Ready x y) {v : ℕ}
    (hpiece : HonestPiece x.conn.sender.isn x.accepted v seg)
    (hstop : v + seg.lengthInSequenceSpace ≤ x.conn.sender.nextSeqno)
    (hstart : y.conn.receiver.synReceived = true ∨ seg.header.syn = true) :
    (y.conn.receiver.segmentReceived seg).synReceived = true ∧
      PushEffect x.accepted y.conn.receiver.reassembler (v - 1) seg.payload.length seg.header.fin
        (y.conn.receiver.segmentReceived seg).reassembler := by
  have hheard := h.sound.linked.joined.heard
  have hshort : x.accepted.length < 2 ^ 31 - 2 := h.sound.short
  have hwritten : y.conn.receiver.streamOut.bytesWritten ≤ x.accepted.length :=
    hheard.assembles.written_le
  have hnext := h.fit.next_le
  rw [Receiving.segmentReceived_honest hpiece hheard.isn_eq hstart (by omega) (by omega)
    (by omega) (by omega)]
  exact ⟨rfl, hheard.assembles.push (by omega) (by omega) hpiece.excerpt hpiece.fin_last⟩

theorem Ready.within_deliver (h : Ready x y) (hseg : seg ∈ x.conn.segmentsOut) :
    ((y.conn.receiver.segmentReceived seg).synReceived = true → 0 < x.conn.sender.nextSeqno) ∧
      ∀ p, Held (y.conn.receiver.segmentReceived seg).reassembler p →
        p + 1 < x.conn.sender.nextSeqno := by
  obtain ⟨v, hpiece, hstop⟩ := h.fit.piece hseg
  have hlen := hpiece.length_eq
  by_cases hstart : y.conn.receiver.synReceived = true ∨ seg.header.syn = true
  · obtain ⟨-, hpush⟩ := h.receive hpiece hstop hstart
    refine ⟨fun _ => ?_, ?_⟩
    · rcases hstart with hold | hsyn
      · exact h.within.syn hold
      · rw [if_pos (hpiece.syn_iff.mp hsyn)] at hlen
        omega
    · intro p hp
      rcases (hpush.held_iff p).mp hp with hold | ⟨-, -, -, hlt⟩
      · exact h.within.held p hold
      · split at hlen <;> omega
  · rw [not_or, Bool.not_eq_true, Bool.not_eq_true] at hstart
    rw [Receiving.segmentReceived_ignored hstart.1 hstart.2]
    exact ⟨h.within.syn, h.within.held⟩

/-- What x does cannot put the pieces y has above its next sequence number, nor can y. -/
theorem Ready.step_within (h : Ready x y) (op : EndpointOp) : Within (x.step op) y := by
  have hle := (h.fit.step_reached op).next_le
  refine ⟨fun hsyn => ?_, fun p hp => ?_⟩
  · exact Nat.lt_of_lt_of_le (h.within.syn hsyn) hle
  · exact Nat.lt_of_lt_of_le (h.within.held p hp) hle

theorem Ready.step_peerWithin (h : Ready x y) (op : EndpointOp) (hop : y.Enabled x op) :
    Within x (y.step op) := by
  let P : TCPReceiver → Prop := fun r => (r.synReceived = true → 0 < x.conn.sender.nextSeqno) ∧
    ∀ p, Held r.reassembler p → p + 1 < x.conn.sender.nextSeqno
  suffices hboth : P (y.step op).conn.receiver from ⟨hboth.1, hboth.2⟩
  have hnow : P y.conn.receiver := ⟨h.within.syn, h.within.held⟩
  have hcall := fun call => @perform_receiver_rule _ _ P call h.peerFit.lively hnow (fun r hr => hr)
  cases op with
  | pop len => exact hnow
  | deliver seg =>
    refine hcall (.segmentReceived seg) ?_ (fun _ heq => by simp at heq)
    rintro seg' heq
    cases heq
    exact h.within_deliver hop
  | connect => exact hcall .connect (fun _ heq => by simp at heq) (fun _ heq => by simp at heq)
  | write data =>
    exact hcall (.write data) (fun _ heq => by simp at heq) (fun _ heq => by simp at heq)
  | endInputStream =>
    exact hcall .endInputStream (fun _ heq => by simp at heq) (fun _ heq => by simp at heq)
  | tick ms => exact hcall (.tick ms) (fun _ heq => by simp at heq) (fun _ heq => by simp at heq)
  | read len => exact hnow

theorem Ready.step (h : Ready x y) (op : EndpointOp) (hop : x.Enabled y op) :
    Ready (x.step op) y where
  sound := h.sound.step op hop
  fit := h.fit.step op
  peerFit := h.peerFit
  within := h.step_within op
  peerWithin := h.symm.step_peerWithin op hop

/-- Nothing is acknowledged that was not sent. -/
theorem Ready.ackPoint_le (h : Ready x y) :
    ackPoint y.conn.receiver ≤ x.conn.sender.nextSeqno := by
  have hheard := h.sound.linked.joined.heard
  have hfirst : y.conn.receiver.reassembler.firstUnasmb = y.conn.receiver.streamOut.bytesWritten :=
    hheard.assembles.rep.first_eq
  by_cases hsyn : y.conn.receiver.synReceived = true
  · have hpos := h.within.syn hsyn
    by_cases hended : y.conn.receiver.streamOut.inputEnded = true
    · rw [(hheard.ackPoint_of_ended hended).2, (hheard.ended hended).1.1]
    · have hopen := ackPoint_of_open (r := y.conn.receiver) (by simpa using hended)
      rcases Nat.eq_zero_or_pos y.conn.receiver.streamOut.bytesWritten with hzero | hsome
      · omega
      · have hlast := h.within.held (y.conn.receiver.streamOut.bytesWritten - 1)
          (Or.inl (by omega))
        omega
  · unfold ackPoint
    rw [if_neg hsyn]
    exact Nat.zero_le _

end Step

/-- Nothing is in flight. -/
def Idle (x : Endpoint) : Prop := x.conn.sender.absAckno = x.conn.sender.nextSeqno

section Round

variable {x y : Endpoint} {seg : TCPSegment}

/-- The oldest outstanding segment has been emitted, and it holds the acknowledgment. -/
theorem Fit.oldest (h : Fit x) (hactive : x.conn.active = true)
    (hopen : x.conn.sender.absAckno < x.conn.sender.nextSeqno) :
    ∃ seg ∈ x.conn.segmentsOut, seg.header.rst = false ∧
      ∃ v, HonestPiece x.conn.sender.isn x.accepted v seg ∧
        v + seg.lengthInSequenceSpace ≤ x.conn.sender.nextSeqno ∧
        v ≤ x.conn.sender.absAckno ∧ x.conn.sender.absAckno < v + seg.lengthInSequenceSpace := by
  obtain ⟨firsts, hkept⟩ := h.documented
  obtain ⟨oldest, rest, hout⟩ := hkept.books.ordered.exists_oldest hopen
  have hmem : oldest ∈ firsts := hkept.books.suffix.subset (hout ▸ List.mem_cons_self ..)
  obtain ⟨seg, hseg, hcopy⟩ := hkept.copied oldest hmem
  have hlater : seg ∈ x.conn.segmentsOut := by
    unfold said at hseg
    rwa [h.flushed hactive, List.append_nil] at hseg
  refine ⟨seg, hlater, h.unreset hactive seg hlater, oldest.seqno,
    hcopy.honest (hkept.books.honest oldest hmem), ?_⟩
  rw [hcopy.length_eq]
  exact ⟨(hkept.books.tiles.bounds hmem).2, hkept.books.ordered.head_le hout,
    hkept.books.ordered.unacked oldest rest hout⟩

/-- Before the SYN nothing is acknowledged, so the oldest outstanding segment is the SYN. -/
theorem Ready.starts (h : Ready x y) {v : ℕ}
    (hpiece : HonestPiece x.conn.sender.isn x.accepted v seg)
    (hlo : v ≤ x.conn.sender.absAckno) :
    y.conn.receiver.synReceived = true ∨ seg.header.syn = true := by
  have hacked := h.sound.linked.joined.heard.acked
  by_cases hsyn : y.conn.receiver.synReceived = true
  · exact Or.inl hsyn
  · unfold ackPoint at hacked
    rw [if_neg hsyn] at hacked
    exact Or.inr (hpiece.syn_iff.mpr (by omega))

/-- A receiver with an empty buffer takes the oldest outstanding segment, at least in part. -/
theorem Ready.receive_advances (h : Ready x y) {v : ℕ}
    (hpiece : HonestPiece x.conn.sender.isn x.accepted v seg)
    (hstop : v + seg.lengthInSequenceSpace ≤ x.conn.sender.nextSeqno)
    (hlo : v ≤ x.conn.sender.absAckno)
    (hhi : x.conn.sender.absAckno < v + seg.lengthInSequenceSpace)
    (hempty : y.conn.receiver.streamOut.bytesRead = y.conn.receiver.streamOut.bytesWritten) :
    x.conn.sender.absAckno < ackPoint (y.conn.receiver.segmentReceived seg) := by
  have hheard := h.sound.linked.joined.heard
  have hacked := hheard.acked
  have hlen := hpiece.length_eq
  have hnext := h.fit.next_le
  obtain ⟨hsynced, hpush⟩ := h.receive hpiece hstop (h.starts hpiece hlo)
  have hfirst : y.conn.receiver.reassembler.firstUnasmb = y.conn.receiver.streamOut.bytesWritten :=
    hheard.assembles.rep.first_eq
  have hfirst' : (y.conn.receiver.segmentReceived seg).reassembler.firstUnasmb =
      (y.conn.receiver.segmentReceived seg).streamOut.bytesWritten :=
    hpush.assembles.rep.first_eq
  have hmono := hpush.first_le
  have hpoint : ackPoint (y.conn.receiver.segmentReceived seg) =
      (y.conn.receiver.segmentReceived seg).streamOut.bytesWritten + 1 +
        (if (y.conn.receiver.segmentReceived seg).streamOut.inputEnded then 1 else 0) := by
    unfold ackPoint
    rw [if_pos hsynced]
  by_cases hfar : x.conn.sender.absAckno ≤
      (y.conn.receiver.segmentReceived seg).streamOut.bytesWritten
  · rw [hpoint]
    omega
  -- otherwise the output stands right before the number to be acknowledged
  by_cases hended : y.conn.receiver.streamOut.inputEnded = true
  · have hstill : (y.conn.receiver.segmentReceived seg).streamOut.inputEnded = true :=
      hpush.ended hheard.assembles hended
    have hall := (hheard.ended hended).2
    rw [hpoint, if_pos hstill]
    omega
  · have hopen := ackPoint_of_open (r := y.conn.receiver) (by simpa using hended)
    have hroom := h.peerFit.room
    have hread : y.conn.receiver.reassembler.output.bytesRead =
        y.conn.receiver.reassembler.firstUnasmb := hempty.trans hfirst.symm
    by_cases hin : y.conn.receiver.streamOut.bytesWritten < v - 1 + seg.payload.length
    · -- the next byte is in the payload and in the window, so it is written out
      have hheld := (hpush.held_iff y.conn.receiver.streamOut.bytesWritten).mpr
        (Or.inr ⟨by omega, by omega, by omega, hin⟩)
      rcases hheld with hout | ⟨chunk, hchunk, hle, -⟩
      · omega
      · have hlt := hpush.assembles.rep.first_lt chunk hchunk
        omega
    · -- all that is left is the FIN
      have hfin : seg.header.fin = true := by
        by_contra hno
        rw [if_neg hno] at hlen
        split at hlen <;> omega
      have hlast := hpiece.fin_last hfin
      have hstill : (y.conn.receiver.segmentReceived seg).streamOut.inputEnded = true := by
        refine hpush.assembles.ended_iff.mpr ⟨?_, ?_⟩
        · rw [hpush.eofSet_eq, hfin, Bool.or_true]
        · have hle := hpush.assembles.content.first_le
          rw [if_pos hfin] at hlen
          split at hlen <;> omega
      rw [hpoint, if_pos hstill]
      omega

/-- The answer to that segment, from an active endpoint, acknowledges what has been received. -/
theorem Fit.answers (h : Fit y) (hactive : y.conn.active = true) (hrst : seg.header.rst = false)
    (hpos : 0 < seg.lengthInSequenceSpace)
    (hstart : y.conn.receiver.synReceived = true ∨ seg.header.syn = true) :
    ∃ reply ∈ (y.step (.deliver seg)).conn.segmentsOut, reply.header.rst = false ∧
      reply.header.ack = true ∧
      (y.conn.receiver.segmentReceived seg).ackno = some reply.header.ackno := by
  obtain ⟨S, hcomposed⟩ := h.composed
  have hstill : (y.conn.takeIn seg).active = true := by
    rw [takeIn_active, hactive, hrst]
    rfl
  have hafter : (y.step (.deliver seg)).conn.active = true := by
    change (y.conn.segmentReceived seg).active = true
    rw [segmentReceived_active, hactive, hrst]
    rfl
  have hanswered : ∃ out, Answered y.conn seg out := by
    cases hsent : (y.conn.takeIn seg).synSent with
    | true => exact answered_of_sent h.lively (h.flushed hactive) hstill hsent
    | false => exact answered_of_unsent h.lively hstill hsent
  obtain ⟨out, hout⟩ := hanswered
  have hne : out ≠ [] := by
    apply hout.answers
    rcases hstart with hsyn | hsyn
    · exact Or.inl ⟨hpos, decide_eq_true (hcomposed.replied hsyn)⟩
    · exact Or.inr hsyn
  obtain ⟨reply, rest, rfl⟩ := List.exists_cons_of_ne_nil hne
  have hmem : reply ∈ (y.step (.deliver seg)).conn.segmentsOut := by
    change reply ∈ (y.conn.segmentReceived seg).segmentsOut
    rw [hout.appended]
    exact List.mem_append_right _ (List.mem_cons_self ..)
  have hsynced : (y.conn.receiver.segmentReceived seg).ackno.isSome = true := by
    rw [AcknoAdvance.ackno_isSome, AcknoAdvance.segmentReceived_synReceived, Bool.or_eq_true]
    exact hstart
  obtain ⟨ackno, hackno⟩ := Option.isSome_iff_exists.mp hsynced
  have hacks := hout.acks ackno (by rw [segmentReceived_receiver hrst]; exact hackno) reply
    (List.mem_cons_self ..)
  refine ⟨reply, hmem, (h.step (.deliver seg)).unreset hafter reply hmem, hacks.1, ?_⟩
  rw [hackno, hacks.2]

/-- An acknowledgment of all that y has received is taken over by x. -/
theorem Ready.acknowledge (h : Ready x y) {reply : TCPSegment} (hrst : reply.header.rst = false)
    (hack : reply.header.ack = true)
    (hackno : y.conn.receiver.ackno = some reply.header.ackno)
    (hmore : x.conn.sender.absAckno < ackPoint y.conn.receiver) :
    (x.step (.deliver reply)).conn.sender.absAckno = ackPoint y.conn.receiver := by
  have hheard := h.sound.linked.joined.heard
  have hsyn : y.conn.receiver.synReceived = true := by
    rw [← AcknoAdvance.ackno_isSome, hackno]
    rfl
  have heq : reply.header.ackno = wrap (ackPoint y.conn.receiver) x.conn.sender.isn := by
    rw [ackno_eq, if_pos hsyn, hheard.isn_eq hsyn] at hackno
    exact (Option.some.inj hackno).symm
  have hval : unwrap reply.header.ackno x.conn.sender.isn x.conn.sender.absAckno =
      ackPoint y.conn.receiver := by
    have hpoint := hheard.ackPoint_le
    rw [heq]
    exact unwrap_ack h.sound.short (by omega) hpoint
  change (x.conn.segmentReceived reply).sender.absAckno = _
  rw [segmentReceived_absAckno h.fit.lively, takeIn_sender hrst, if_pos hack]
  rcases ackReceived_cases x.conn.sender reply.header.ackno reply.header.win with
    ⟨hbad, -⟩ | ⟨ack, hackval, hlo, hhi, hrec⟩
  · rw [hval] at hbad
    exact absurd ⟨hmore, h.ackPoint_le⟩ hbad
  · obtain ⟨-, ⟨fresh, hfilled⟩, -⟩ :=
      ((h.fit.lively.1.ordered.setWindow reply.header.win.toNat_lt).acknowledge hlo hhi).fillWindow
    rw [hrec, hfilled.absAckno_eq]
    exact hackval.trans hval

theorem deliver_active (hactive : x.conn.active = true) (hrst : seg.header.rst = false) :
    (x.step (.deliver seg)).conn.active = true := by
  change (x.conn.segmentReceived seg).active = true
  rw [segmentReceived_active, hactive, hrst]
  rfl

/-- The peer reads all it has; its buffer is empty then. -/
theorem read_all_empty (h : Sound x y) :
    (y.step (.read y.conn.inboundStream.bufferSize)).conn.receiver.streamOut.bytesRead =
      (y.step (.read y.conn.inboundStream.bufferSize)).conn.receiver.streamOut.bytesWritten := by
  have hvalid : y.conn.inboundStream.Valid := h.linked.joined.heard.assembles.rep.output_valid
  have hwritten := hvalid.written_eq
  change (y.conn.inboundStream.read y.conn.inboundStream.curSize).2.bytesRead =
    (y.conn.inboundStream.read y.conn.inboundStream.curSize).2.bytesWritten
  rw [hvalid.read_snd, Nat.min_self]
  simp only [ByteStream.bytesRead, ByteStream.bytesWritten, ByteStream.popOutput, Nat.min_self]
  omega

/-- One round: y reads, gets the oldest outstanding segment of x, and answers. -/
theorem Ready.round (h : Ready x y) (hactive : x.conn.active = true)
    (hpeer : y.conn.active = true) (hopen : x.conn.sender.absAckno < x.conn.sender.nextSeqno) :
    ∃ len seg reply, seg ∈ x.conn.segmentsOut ∧ seg.header.rst = false ∧
      reply ∈ ((y.step (.read len)).step (.deliver seg)).conn.segmentsOut ∧
      reply.header.rst = false ∧
      x.conn.sender.absAckno < (x.step (.deliver reply)).conn.sender.absAckno := by
  obtain ⟨seg, hseg, hrst, v, hpiece, hstop, hlo, hhi⟩ := h.fit.oldest hactive hopen
  have hread := (h.symm.step (.read y.conn.inboundStream.bufferSize) trivial).symm
  have hadvances := hread.receive_advances hpiece hstop hlo hhi (read_all_empty h.sound)
  have hdelivered := (hread.symm.step (.deliver seg) hseg).symm
  obtain ⟨reply, hreply, hplain, hack, hackno⟩ := hread.peerFit.answers hpeer hrst (by omega)
    (hread.starts hpiece hlo)
  have hreceiver := segmentReceived_receiver hrst
    (c := (y.step (.read y.conn.inboundStream.bufferSize)).conn)
  refine ⟨_, seg, reply, hseg, hrst, hreply, hplain, ?_⟩
  rw [hdelivered.acknowledge hplain hack (hreceiver ▸ hackno) (hreceiver ▸ hadvances)]
  exact hreceiver ▸ hadvances

end Round

open Network

/-- Both endpoints are active. -/
structure Alive (n : Network) : Prop where
  ready : Ready n.a n.b
  active : n.a.conn.active = true
  peerActive : n.b.conn.active = true

theorem Alive.mirror {n : Network} (h : Alive n) : Alive n.mirror :=
  ⟨h.ready.symm, h.peerActive, h.active⟩

/-- Passive operations lead from one state to the other. -/
def Leads (n n' : Network) : Prop :=
  ∃ ops, (∀ op ∈ ops, NetworkOp.Passive op) ∧ machine.Valid n ops ∧ machine.exec n ops = n'

section Leads

variable {n n' n'' : Network}

theorem Leads.refl (n : Network) : Leads n n := ⟨[], by simp, trivial, rfl⟩

theorem Leads.trans (h : Leads n n') (h' : Leads n' n'') : Leads n n'' := by
  obtain ⟨ops, hpassive, hvalid, rfl⟩ := h
  obtain ⟨ops', hpassive', hvalid', rfl⟩ := h'
  refine ⟨ops ++ ops', ?_, (machine.valid_append _ _ _).mpr ⟨hvalid, hvalid'⟩,
    machine.exec_append _ _ _⟩
  exact List.forall_mem_append.mpr ⟨hpassive, hpassive'⟩

theorem Leads.mirror (h : Leads n n') : Leads n.mirror n'.mirror := by
  obtain ⟨ops, hpassive, hvalid, rfl⟩ := h
  refine ⟨ops.map NetworkOp.mirror, ?_, valid_mirror hvalid, exec_mirror n ops⟩
  rw [List.forall_mem_map]
  intro op hop
  have hop' := hpassive op hop
  cases op <;> exact hop'

/-- A passive operation adds nothing to either stream. -/
theorem Leads.frame (h : Leads n n') :
    (n'.a.accepted = n.a.accepted ∧ n'.a.closed = n.a.closed) ∧
      n'.b.accepted = n.b.accepted ∧ n'.b.closed = n.b.closed := by
  obtain ⟨ops, hpassive, -, rfl⟩ := h
  induction ops generalizing n with
  | nil => exact ⟨⟨rfl, rfl⟩, rfl, rfl⟩
  | cons op ops ih =>
    rw [List.forall_mem_cons] at hpassive
    have hrest := @ih (machine.step n op) hpassive.2
    cases op with
    | atA op => cases op <;> first | exact hrest | exact hpassive.1.elim
    | atB op => cases op <;> first | exact hrest | exact hpassive.1.elim

end Leads

/-- How far the two senders are from having all their sequence numbers acknowledged. -/
def remaining (n : Network) : ℕ :=
  (n.a.accepted.length + 2 - n.a.conn.sender.absAckno) +
    (n.b.accepted.length + 2 - n.b.conn.sender.absAckno)

theorem remaining_mirror (n : Network) : remaining n.mirror = remaining n := Nat.add_comm _ _

theorem Fit.absAckno_le {x : Endpoint} (h : Fit x) :
    x.conn.sender.absAckno ≤ x.conn.sender.nextSeqno := h.lively.1.ordered.sane.ack_le

section Settle

variable {n : Network}

theorem Alive.advance_first (h : Alive n)
    (hopen : n.a.conn.sender.absAckno < n.a.conn.sender.nextSeqno) :
    ∃ n', Leads n n' ∧ Alive n' ∧ remaining n' < remaining n := by
  obtain ⟨len, seg, reply, hseg, hrst, hreply, hplain, hmore⟩ :=
    h.ready.round h.active h.peerActive hopen
  let ops : List NetworkOp := [.atB (.read len), .atB (.deliver seg), .atA (.deliver reply)]
  have hvalid : machine.Valid n ops := ⟨trivial, hseg, hreply, trivial⟩
  have hleads : Leads n (machine.exec n ops) := by
    refine ⟨ops, ?_, hvalid, rfl⟩
    simp [ops, NetworkOp.Passive, EndpointOp.Passive]
  have hread := h.ready.symm.step (.read len) trivial
  have hdelivered := hread.step (.deliver seg) hseg
  have hpeer : n.b.conn.sender.absAckno ≤
      ((n.b.step (.read len)).step (.deliver seg)).conn.sender.absAckno :=
    absAckno_le_segmentReceived hread.fit.lively seg
  refine ⟨_, hleads, ⟨hdelivered.symm.step (.deliver reply) hreply, ?_, ?_⟩, ?_⟩
  · exact deliver_active h.active hplain
  · exact deliver_active (x := n.b.step (.read len)) h.peerActive hrst
  · have hacked := h.ready.fit.absAckno_le
    have hnext := h.ready.fit.next_le
    change (n.a.accepted.length + 2 - (n.a.step (.deliver reply)).conn.sender.absAckno) +
      (n.b.accepted.length + 2 -
        ((n.b.step (.read len)).step (.deliver seg)).conn.sender.absAckno) < remaining n
    unfold remaining
    omega

theorem Alive.advance (h : Alive n) (hopen : ¬ (Idle n.a ∧ Idle n.b)) :
    ∃ n', Leads n n' ∧ Alive n' ∧ remaining n' < remaining n := by
  have hacked := h.ready.fit.absAckno_le
  have hacked' := h.ready.peerFit.absAckno_le
  by_cases hidle : Idle n.a
  · have hother : n.mirror.a.conn.sender.absAckno < n.mirror.a.conn.sender.nextSeqno :=
      Nat.lt_of_le_of_ne hacked' (fun heq => hopen ⟨hidle, heq⟩)
    obtain ⟨n', hleads, halive, hless⟩ := h.mirror.advance_first hother
    refine ⟨n'.mirror, hleads.mirror, halive.mirror, ?_⟩
    rwa [remaining_mirror, ← remaining_mirror n]
  · exact h.advance_first (Nat.lt_of_le_of_ne hacked hidle)

/-- From every state with two active endpoints there is a way to one with nothing in flight. -/
theorem Alive.settle (h : Alive n) : ∃ n', Leads n n' ∧ Alive n' ∧ Idle n'.a ∧ Idle n'.b := by
  induction hm : remaining n using Nat.strong_induction_on generalizing n with
  | _ m ih =>
    by_cases hidle : Idle n.a ∧ Idle n.b
    · exact ⟨n, Leads.refl n, h, hidle⟩
    · obtain ⟨n₁, hleads, halive, hless⟩ := h.advance hidle
      obtain ⟨n₂, hleads', hsettled⟩ := ih (remaining n₁) (hm ▸ hless) halive rfl
      exact ⟨n₂, hleads.trans hleads', hsettled⟩

end Settle

/-- y has all that x has accepted, and x knows it. -/
structure Complete (x y : Endpoint) : Prop where
  has_all : y.assembled = x.accepted
  ended_iff : y.conn.inboundStream.inputEnded = true ↔ x.closed = true
  in_flight : x.conn.bytesInFlight = 0
  buffered : x.conn.sender.stream.bufferSize = 0

theorem Ready.complete {x y : Endpoint} (h : Ready x y) (hidle : Idle x) : Complete x y := by
  obtain ⟨firsts, hkept⟩ := h.fit.documented
  have hheard := h.sound.linked.joined.heard
  have hacked := hheard.acked
  have hflight := hkept.books.sane.bytesInFlight_eq
  have hsize := hkept.books.curSize_eq
  unfold Idle at hidle
  have hnone : x.conn.bytesInFlight = 0 := by
    unfold TCPConnection.bytesInFlight
    omega
  rcases Nat.eq_zero_or_pos x.conn.sender.nextSeqno with hzero | hpos
  · -- nothing was accepted
    have hempty : x.accepted = [] := by
      by_contra hsome
      exact Nat.ne_of_gt (h.fit.opened (Or.inl hsome)) hzero
    have hnotclosed : x.closed ≠ true :=
      fun hclosed => Nat.ne_of_gt (h.fit.opened (Or.inr hclosed)) hzero
    rw [hempty, List.length_nil, Nat.zero_sub] at hsize
    refine ⟨?_, ⟨fun hended => (h.sound.delivered.complete hended).1,
      fun hclosed => absurd hclosed hnotclosed⟩, hnone, ?_⟩
    · rw [h.sound.assembled_eq, hempty, List.take_nil]
    · exact hsize
  · obtain ⟨hbuffer, hfin⟩ := h.fit.lively.idle hpos hnone
    have hread : x.conn.sender.stream.bytesRead = x.accepted.length := by
      unfold ByteStream.bufferSize at hbuffer
      have hle := hkept.books.bytesRead_le
      omega
    have hended : x.closed = true → y.conn.inboundStream.inputEnded = true := by
      intro hclosed
      have hinput := h.fit.ended hclosed
      rw [hinput] at hfin
      rcases hfin with hopen | hlast
      · exact absurd hopen Bool.noConfusion
      · have hwritten := hkept.books.written_eq
        exact hheard.ended_of_acked (by omega)
    refine ⟨?_, ⟨fun hend => (h.sound.delivered.complete hend).1, hended⟩, hnone, hbuffer⟩
    by_cases hend : y.conn.inboundStream.inputEnded = true
    · exact (h.sound.delivered.complete hend).2
    · have hopen := ackPoint_of_open (r := y.conn.receiver) (Bool.not_eq_true _ ▸ hend)
      have hall : x.accepted.length ≤ y.conn.inboundStream.bytesWritten := by
        change _ ≤ y.conn.receiver.streamOut.bytesWritten
        rcases hkept.books.position with ⟨hzero, -⟩ | hmid | ⟨hlast, -⟩ <;> omega
      rw [h.sound.assembled_eq, List.take_of_length_le hall]

section Closing

variable {x y : Endpoint}

/-- The FIN is not acknowledged before it is sent, so ending the input does not close. -/
theorem Ready.endInput_active (h : Ready x y) (hactive : x.conn.active = true)
    (hopen : x.closed = false) : (x.step .endInputStream).conn.active = true := by
  obtain ⟨firsts, hkept⟩ := h.fit.documented
  obtain ⟨S, hcomposed⟩ := h.fit.composed
  have hnext := h.step .endInputStream trivial
  have hended := (h.fit.lively.1.call .endInput ⟨trivial, by simp⟩ rfl).1
  obtain ⟨-, ⟨fresh, hfilled⟩, -⟩ := hended.ordered.fillWindow
  obtain ⟨out, hsender⟩ :=
    tryClosing_requeued ((x.conn.callSender .endInput).callSender .fillWindow)
  change (x.step .endInputStream).conn.sender = _ at hsender
  by_contra hdown
  rcases hnext.sound.linked.joined.speaks.closed (Bool.not_eq_true _ ▸ hdown) with herror | hfin
  · rw [hsender] at herror
    have hsame : ((x.conn.sender.apply .endInput).apply .fillWindow).stream.error =
        x.conn.sender.stream.error := apply_error hended.ordered (by simp)
    have hoff := hcomposed.coherent.error_off (hsame ▸ herror)
    exact absurd (hactive.symm.trans hoff) Bool.noConfusion
  · obtain ⟨-, hout, hack⟩ := hfin
    have hsame : (x.step .endInputStream).conn.sender.absAckno = x.conn.sender.absAckno := by
      rw [hsender]
      exact hfilled.absAckno_eq
    have hle := h.fit.absAckno_le
    have hread := hkept.books.bytesRead_le
    have hlast : (x.step .endInputStream).conn.sender.nextSeqno = x.accepted.length + 2 := hout.1
    rcases hkept.books.position with ⟨hzero, -⟩ | hmid | ⟨-, heof⟩
    · omega
    · omega
    · have hclosed := h.sound.ended (ByteStream.ended_of_eof heof)
      exact absurd (hopen.symm.trans hclosed) Bool.noConfusion

/-- Chunks that wait although the stream has ended are empty. -/
theorem unassembledBytes_of_ended {S : List UInt8} {r : StreamReassembler} (h : Assembles S r)
    (hended : r.output.inputEnded = true) : r.unassembledBytes = 0 := by
  have hlast := (h.ended_iff.mp hended).2
  unfold StreamReassembler.unassembledBytes
  rw [h.rep.count_eq, EmptyChunks.byteCount_eq_zero_iff]
  intro chunk hchunk
  have hprefix : chunk.data <+: S.drop chunk.index := h.content.excerpts chunk hchunk
  have hlt := h.rep.first_lt chunk hchunk
  rw [List.drop_eq_nil_of_le (by omega)] at hprefix
  exact List.prefix_nil.mp hprefix

/-- The condition of `try_closing_connection`, which sending does not change. -/
theorem tryClosing_closes {c : TCPConnection} (hactive : c.active = true)
    (htime : c.lingerAfterStreamsFinish = true →
      10 * c.cfg.rtTimeout.toNat ≤ c.lastSegmRecvTimer)
    (hin : c.istreamDone = true) (hout : c.ostreamDone = true) :
    c.tryClosingConnection = { c.sendSegments false with active := false } := by
  have hmode : (c.activeClose || c.passiveClose) = true := by
    unfold activeClose passiveClose
    cases hlinger : c.lingerAfterStreamsFinish with
    | false => rfl
    | true =>
      rw [decide_eq_true (htime hlinger)]
      rfl
  have hcond : (((c.sendSegments false).activeClose || (c.sendSegments false).passiveClose) &&
      (c.sendSegments false).istreamDone && (c.sendSegments false).ostreamDone) = true := by
    rw [sendSegments_of_active hactive]
    change ((c.activeClose || c.passiveClose) && c.istreamDone && c.ostreamDone) = true
    rw [hmode, hin, hout]
    rfl
  unfold TCPConnection.tryClosingConnection
  rw [if_pos hactive]
  exact if_pos hcond

theorem Ready.istreamDone (h : Ready x y) (hpeer : Idle y) (hclosed : y.closed = true) :
    x.conn.istreamDone = true := by
  have hended := (h.symm.complete hpeer).ended_iff.mpr hclosed
  have hnone := unassembledBytes_of_ended h.sound.symm.linked.joined.heard.assembles hended
  exact Bool.and_eq_true_iff.mpr ⟨hended, beq_iff_eq.mpr hnone⟩

theorem Ready.ostreamDone (h : Ready x y) (hidle : Idle x) (hclosed : x.closed = true) :
    x.conn.ostreamDone = true := by
  have hcomplete := h.complete hidle
  have hinput := h.fit.ended hclosed
  obtain ⟨hbuffer, hfin⟩ := h.fit.lively.idle (h.fit.opened (Or.inr hclosed)) hcomplete.in_flight
  have hlast := hfin.resolve_left (fun hopen => absurd (hinput.symm.trans hopen) Bool.noConfusion)
  have heof : x.conn.sender.stream.eof = true :=
    Bool.and_eq_true_iff.mpr ⟨hinput, beq_iff_eq.mpr hbuffer⟩
  unfold TCPConnection.ostreamDone
  rw [heof, beq_iff_eq.mpr (show x.conn.sender.nextSeqnoAbsolute = _ from hlast),
    beq_iff_eq.mpr (show x.conn.sender.bytesInFlight = 0 from hcomplete.in_flight)]
  rfl

/-- With nothing outstanding a tick moves the two clocks, and closes if both streams are
over; an endpoint that lingers must not have heard of its peer for long. -/
theorem tick_of_done {c : TCPConnection} (hactive : c.active = true) (hfew : Few c.sender)
    (hnil : c.sender.outstandingSegments = []) {ms : ℕ}
    (htime : c.lingerAfterStreamsFinish = true →
      10 * c.cfg.rtTimeout.toNat ≤ wrapAdd 64 c.lastSegmRecvTimer ms)
    (hin : c.istreamDone = true) (hout : c.ostreamDone = true) :
    (c.tick ms).active = false ∧ (c.tick ms).sender.stream = c.sender.stream ∧
      (c.tick ms).receiver = c.receiver := by
  have hle : c.sender.consecutiveRetransmissions ≤ TCPConfig.maxRetxAttempts :=
    Nat.le_trans (Nat.mod_le _ _) hfew
  let ticked := { c with
    sender := { c.sender with
      timer := ⟨wrapAdd 64 c.sender.timer.timeElapsed ms, c.sender.timer.timeout⟩ }
    lastSegmRecvTimer := wrapAdd 64 c.lastSegmRecvTimer ms }
  have htick : c.tick ms = (ticked.sendSegments false).tryClosingConnection := by
    unfold TCPConnection.tick
    rw [if_pos hactive, tick_of_still (Or.inl hnil)]
    exact congrArg tryClosingConnection (if_neg (Nat.not_lt.mpr hle))
  have hclose : (ticked.sendSegments false).tryClosingConnection =
      { (ticked.sendSegments false).sendSegments false with active := false } := by
    have hactive' : ticked.active = true := hactive
    apply tryClosing_closes <;> rw [sendSegments_of_active hactive']
    exacts [hactive, htime, hin, hout]
  rw [htick, hclose]
  refine ⟨rfl, ?_, ?_⟩
  · exact (sendSegments_stream _ _).trans (sendSegments_stream ticked _)
  · exact (sendSegments_receiver _ _).trans (sendSegments_receiver ticked _)

/-- Once both streams are over, a long enough time closes the endpoint, with no error. -/
theorem Ready.tick_closes (h : Ready x y) (hactive : x.conn.active = true) (hidle : Idle x)
    (hpeer : Idle y) (hclosed : x.closed = true) (hpeerClosed : y.closed = true) :
    ∃ ms, CleanlyClosed (x.step (.tick ms)) := by
  obtain ⟨S, hcomposed⟩ := h.fit.composed
  have hok := hcomposed.error_eq_false hactive
  -- the 64-bit clock is wound to zero first
  let ms := 2 ^ 64 - x.conn.lastSegmRecvTimer % 2 ^ 64 + 10 * x.conn.cfg.rtTimeout.toNat
  have hclock : 10 * x.conn.cfg.rtTimeout.toNat ≤ wrapAdd 64 x.conn.lastSegmRecvTimer ms := by
    have hsmall := x.conn.cfg.rtTimeout.toNat_lt
    unfold wrapAdd
    omega
  obtain ⟨hdown, hstream, hreceiver⟩ := tick_of_done hactive (h.fit.few hactive)
    (h.fit.lively.1.ordered.nil_iff.mpr hidle) (fun _ => hclock) (h.istreamDone hpeer hpeerClosed)
    (h.ostreamDone hidle hclosed)
  refine ⟨ms, hdown, ?_, ?_⟩
  · change (x.conn.tick ms).sender.stream.error = false
    rw [hstream]
    exact hok
  · change (x.conn.tick ms).receiver.streamOut.error = false
    rw [hreceiver, ← hcomposed.coherent.error_eq]
    exact hok

end Closing

/-- A valid run leads from one state to the other, and nothing is written in it. -/
def Reaches (n n' : Network) : Prop :=
  ∃ ops, machine.Valid n ops ∧ machine.exec n ops = n' ∧
    n'.a.accepted = n.a.accepted ∧ n'.b.accepted = n.b.accepted

section Shutdown

variable {n n' n'' : Network}

theorem Reaches.trans (h : Reaches n n') (h' : Reaches n' n'') : Reaches n n'' := by
  obtain ⟨ops, hvalid, rfl, ha, hb⟩ := h
  obtain ⟨ops', hvalid', rfl, ha', hb'⟩ := h'
  exact ⟨ops ++ ops', (machine.valid_append _ _ _).mpr ⟨hvalid, hvalid'⟩,
    machine.exec_append _ _ _, ha'.trans ha, hb'.trans hb⟩

theorem Reaches.mirror (h : Reaches n n') : Reaches n.mirror n'.mirror := by
  obtain ⟨ops, hvalid, rfl, ha, hb⟩ := h
  exact ⟨ops.map NetworkOp.mirror, valid_mirror hvalid, exec_mirror n ops, hb, ha⟩

theorem Leads.reaches (h : Leads n n') : Reaches n n' := by
  obtain ⟨⟨ha, -⟩, hb, -⟩ := h.frame
  obtain ⟨ops, -, hvalid, heq⟩ := h
  exact ⟨ops, hvalid, heq, ha, hb⟩

theorem Alive.end_first (h : Alive n) :
    ∃ n', Reaches n n' ∧ Alive n' ∧ n'.a.closed = true ∧ n'.b.closed = n.b.closed := by
  by_cases hclosed : n.a.closed = true
  · exact ⟨n, (Leads.refl n).reaches, h, hclosed, rfl⟩
  · refine ⟨machine.step n (.atA .endInputStream),
      ⟨[.atA .endInputStream], ⟨trivial, trivial⟩, rfl, rfl, rfl⟩, ⟨?_, ?_, h.peerActive⟩, rfl, rfl⟩
    · exact h.ready.step .endInputStream trivial
    · exact h.ready.endInput_active h.active (Bool.not_eq_true _ ▸ hclosed)

theorem Alive.end_both (h : Alive n) :
    ∃ n', Reaches n n' ∧ Alive n' ∧ n'.a.closed = true ∧ n'.b.closed = true := by
  obtain ⟨n₁, hreach, halive, hclosed, -⟩ := h.end_first
  obtain ⟨n₂, hreach', halive', hclosed', hkept⟩ := halive.mirror.end_first
  exact ⟨n₂.mirror, hreach.trans hreach'.mirror, halive'.mirror, hkept.trans hclosed, hclosed'⟩

theorem Alive.shutdown (h : Alive n) :
    ∃ n', Reaches n n' ∧ CleanlyClosed n'.a ∧ CleanlyClosed n'.b := by
  obtain ⟨n₁, hreach, halive, hclosed, hclosed'⟩ := h.end_both
  obtain ⟨n₂, hleads, hsettled, hidle, hidle'⟩ := halive.settle
  obtain ⟨⟨-, hkept⟩, -, hkept'⟩ := hleads.frame
  have ha := hkept.trans hclosed
  have hb := hkept'.trans hclosed'
  obtain ⟨ms, hdown⟩ := hsettled.ready.tick_closes hsettled.active hidle hidle' ha hb
  obtain ⟨ms', hdown'⟩ :=
    hsettled.ready.symm.tick_closes hsettled.peerActive hidle' hidle hb ha
  have hticks : Reaches n₂ (machine.exec n₂ [.atA (.tick ms), .atB (.tick ms')]) :=
    ⟨[.atA (.tick ms), .atB (.tick ms')], ⟨trivial, trivial, trivial⟩, rfl, rfl, rfl⟩
  exact ⟨_, (hreach.trans hleads.reaches).trans hticks, hdown, hdown'⟩

end Shutdown

section Runs

variable {cfgA cfgB : TCPConfig} {randomA randomB : WrappingInt32} {ops : List NetworkOp}

theorem ready_of_run (hroomA : 0 < cfgA.recvCapacity) (hroomB : 0 < cfgB.recvCapacity)
    (hv : machine.Valid (Network.new cfgA cfgB randomA randomB) ops) :
    Ready (machine.exec (Network.new cfgA cfgB randomA randomB) ops).a
      (machine.exec (Network.new cfgA cfgB randomA randomB) ops).b :=
  Network.keeps (fun _ _ op h hop => h.step op hop)
    (fun _ _ op h hop => (h.symm.step op hop).symm) (new_ready randomA randomB hroomA hroomB) hv

end Runs

end Recovery

end Sponge
