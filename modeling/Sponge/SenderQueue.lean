import Sponge.Runs
import Sponge.SenderLoop

/-!
The queue of outstanding segments under the owner's calls.
Whatever is written to the stream and whenever, the outstanding segments are
consecutive ranges up to the next sequence number, and the first of them holds the
acknowledgment. `fill_window` only appends to the queue, `ack_received` only removes
its front, and every other call leaves it alone.
-/
namespace Sponge

open Words Tiling SenderLoop

/-- The calls an owner can make, the use of `stream_in()` and `segments_out()` included. -/
inductive SenderOp where
  | write (data : List UInt8)
  | endInput
  | fillWindow
  | ackReceived (ackno : WrappingInt32) (windowSize : UInt16)
  | tick (ms : ℕ)
  | sendEmptySegment
  | popSegment
  | setError

namespace TCPSender

def apply (s : TCPSender) : SenderOp → TCPSender
  | .write data => s.setStream (s.stream.write data).2
  | .endInput => s.setStream s.stream.endInput
  | .fillWindow => s.fillWindow
  | .ackReceived ackno windowSize => s.ackReceived ackno windowSize
  | .tick ms => s.tick ms
  | .sendEmptySegment => s.sendEmptySegment
  | .popSegment => { s with segmentsOut := s.segmentsOut.tail }
  | .setError => s.setStream s.stream.setError

/-- The calls of a sender, with no condition on them. -/
def calls : Runs.Machine TCPSender SenderOp := .total apply

end TCPSender

namespace SenderQueue

open TCPSender

abbrev Consecutive := Tiles OrderedSegment.seqno OrderedSegment.length

structure Ordered (s : TCPSender) : Prop where
  sane : Sane s
  front : ∃ a, a ≤ s.absAckno ∧ Consecutive a s.outstandingSegments s.nextSeqno
  unacked : ∀ e rest, s.outstandingSegments = e :: rest → s.absAckno < e.seqno + e.length

theorem new_ordered (capacity : ℕ) (rto : UInt16) (fixedIsn : Option WrappingInt32)
    (random : WrappingInt32) : Ordered (new capacity rto fixedIsn random) where
  sane := ⟨ByteStream.new_valid capacity, by simp [new], Nat.le_refl _⟩
  front := ⟨0, Nat.le_refl _, rfl⟩
  unacked e rest h := by simp [new] at h

/-- What `fill_window` does besides reading the stream: `fresh` are the segments it sends. -/
structure Filled (s : TCPSender) (fresh : List OrderedSegment) (s' : TCPSender) : Prop where
  outstanding_eq : s'.outstandingSegments = s.outstandingSegments ++ fresh
  segmentsOut_eq : s'.segmentsOut = s.segmentsOut ++ fresh.map OrderedSegment.segment
  tiles : Consecutive s.nextSeqno fresh s'.nextSeqno
  timer_eq : s'.timer = if fresh ≠ [] ∧ s.timer.expired then
    ⟨0, s.initialRetransmissionTimeout⟩ else s.timer
  isn_eq : s'.isn = s.isn
  absAckno_eq : s'.absAckno = s.absAckno
  windowSize_eq : s'.windowSize = s.windowSize
  rto_eq : s'.initialRetransmissionTimeout = s.initialRetransmissionTimeout
  retx_eq : s'.nConsecRetransmissions = s.nConsecRetransmissions
  ended_eq : s'.stream.inputEnded = s.stream.inputEnded
  error_eq : s'.stream.error = s.stream.error

/-- Only queue of segments to send, timer and retransmission count differ. -/
structure SameQueue (s s' : TCPSender) : Prop where
  isn_eq : s'.isn = s.isn
  stream_eq : s'.stream = s.stream
  nextSeqno_eq : s'.nextSeqno = s.nextSeqno
  absAckno_eq : s'.absAckno = s.absAckno
  windowSize_eq : s'.windowSize = s.windowSize
  outstanding_eq : s'.outstandingSegments = s.outstandingSegments
  rto_eq : s'.initialRetransmissionTimeout = s.initialRetransmissionTimeout

/-- The outstanding segments that were not there before. -/
def newEntries (s s' : TCPSender) : List OrderedSegment :=
  s'.outstandingSegments.filter (fun e => s.nextSeqno ≤ e.seqno)

section Effects

variable {s s' : TCPSender} {fresh : List OrderedSegment}

theorem Filled.refl (s : TCPSender) : Filled s [] s :=
  ⟨by simp, by simp, rfl, by simp, rfl, rfl, rfl, rfl, rfl, rfl, rfl⟩

theorem Filled.transmitNext (h : Filled s fresh s') (hsane : Sane s') (hs : Sends s') :
    Filled s (fresh ++ [⟨s'.nextSeqno, s'.nextSegment⟩]) s'.transmitNext where
  outstanding_eq := by
    change s'.outstandingSegments ++ [_] = _
    rw [h.outstanding_eq, List.append_assoc]
  segmentsOut_eq := by
    change s'.segmentsOut ++ [_] = _
    rw [h.segmentsOut_eq, List.map_append, List.append_assoc]
    rfl
  tiles := h.tiles.snoc rfl hs.2.2
  timer_eq := by
    have hne : fresh ++ [(⟨s'.nextSeqno, s'.nextSegment⟩ : OrderedSegment)] ≠ [] := by simp
    change (if s'.timer.expired then s'.timer.start s'.initialRetransmissionTimeout
      else s'.timer) = _
    rw [h.rto_eq, h.timer_eq]
    by_cases hexp : s.timer.expired = true
    · rw [if_pos (⟨hne, hexp⟩ : _ ∧ _)]
      by_cases hfresh : fresh ≠ [] ∧ s.timer.expired = true
      · rw [if_pos hfresh]
        split <;> rfl
      · rw [if_neg hfresh, if_pos hexp]
        rfl
    · have hno : ∀ xs : List OrderedSegment, ¬ (xs ≠ [] ∧ s.timer.expired = true) :=
        fun _ hboth => hexp hboth.2
      rw [if_neg (hno _), if_neg (hno _), if_neg hexp]
  isn_eq := h.isn_eq
  absAckno_eq := h.absAckno_eq
  windowSize_eq := h.windowSize_eq
  rto_eq := h.rto_eq
  retx_eq := h.retx_eq
  ended_eq := hsane.streamAfter_frame.2.1.trans h.ended_eq
  error_eq := hsane.streamAfter_frame.2.2.trans h.error_eq

/-- The two outcomes of an acknowledgment. -/
theorem ackReceived_cases (s : TCPSender) (ackno : WrappingInt32) (win : UInt16) :
    (¬ (s.absAckno < unwrap ackno s.isn s.absAckno ∧
        unwrap ackno s.isn s.absAckno ≤ s.nextSeqno) ∧
      s.ackReceived ackno win = { s with windowSize := win.toNat }) ∨
      ∃ ack, ack = unwrap ackno s.isn s.absAckno ∧ s.absAckno < ack ∧ ack ≤ s.nextSeqno ∧
        s.ackReceived ackno win =
          (TCPSender.acknowledge { s with windowSize := win.toNat } ack).fillWindow := by
  unfold ackReceived
  by_cases hbad : unwrap ackno s.isn s.absAckno ≤ s.absAckno ∨
      unwrap ackno s.isn s.absAckno > s.nextSeqno
  · exact Or.inl ⟨by omega, if_pos hbad⟩
  · exact Or.inr ⟨_, rfl, by omega, by omega, if_neg hbad⟩

/-- Only the window is taken from an acknowledgment that does not advance. -/
theorem ackReceived_of_not_advances {s : TCPSender} {ackno : WrappingInt32}
    (h : ¬ (s.absAckno < unwrap ackno s.isn s.absAckno ∧
      unwrap ackno s.isn s.absAckno ≤ s.nextSeqno)) (win : UInt16) :
    s.ackReceived ackno win = { s with windowSize := win.toNat } := by
  rcases ackReceived_cases s ackno win with ⟨-, heq⟩ | ⟨ack, hack, hlo, hhi, -⟩
  · exact heq
  · rw [hack] at hlo hhi
    exact absurd ⟨hlo, hhi⟩ h

/-- What a tick does to the segments to send and to the timer: it only counts the time,
or it queues the oldest outstanding segment again and starts the timer anew. -/
inductive Ticked (s : TCPSender) (ms : ℕ) (s' : TCPSender) : Prop
  | counted
      (still : s.outstandingSegments = [] ∨ wrapAdd 64 s.timer.timeElapsed ms < s.timer.timeout)
      (segmentsOut_eq : s'.segmentsOut = s.segmentsOut)
      (timer_eq : s'.timer = ⟨wrapAdd 64 s.timer.timeElapsed ms, s.timer.timeout⟩)
      (retx_eq : s'.nConsecRetransmissions = s.nConsecRetransmissions)
  | repeated (oldest : OrderedSegment) (rest : List OrderedSegment)
      (head : s.outstandingSegments = oldest :: rest)
      (expired : s.timer.timeout ≤ wrapAdd 64 s.timer.timeElapsed ms)
      (segmentsOut_eq : s'.segmentsOut = s.segmentsOut ++ [oldest.segment])
      (timer_eq : s'.timer = ⟨0, if s.windowSize > 0 then s.timer.timeout * 2 % 2 ^ 64
        else s.timer.timeout⟩)

/-- Before the timeout, or with nothing outstanding, a tick only counts the time. -/
theorem tick_of_still {ms : ℕ} (h : s.outstandingSegments = [] ∨
    wrapAdd 64 s.timer.timeElapsed ms < s.timer.timeout) :
    s.tick ms =
      { s with timer := ⟨wrapAdd 64 s.timer.timeElapsed ms, s.timer.timeout⟩ } := by
  unfold tick
  simp only
  split
  · rename_i hexp
    have hle : s.timer.timeout ≤ wrapAdd 64 s.timer.timeElapsed ms := of_decide_eq_true hexp
    rw [h.resolve_right (Nat.not_lt.mpr hle)]
  · rfl

/-- At the timeout the oldest segment is queued again; an open window doubles the timeout
and counts the attempt. -/
theorem tick_of_expired {ms : ℕ} {oldest : OrderedSegment} {rest : List OrderedSegment}
    (hout : s.outstandingSegments = oldest :: rest)
    (hexp : s.timer.timeout ≤ wrapAdd 64 s.timer.timeElapsed ms) :
    s.tick ms = { s with
      segmentsOut := s.segmentsOut ++ [oldest.segment]
      timer := ⟨0, if s.windowSize > 0 then s.timer.timeout * 2 % 2 ^ 64 else s.timer.timeout⟩
      nConsecRetransmissions :=
        if s.windowSize > 0 then s.nConsecRetransmissions + 1 else s.nConsecRetransmissions } := by
  have hover : Timer.expired ⟨wrapAdd 64 s.timer.timeElapsed ms, s.timer.timeout⟩ = true :=
    decide_eq_true hexp
  unfold tick
  simp only
  rw [if_pos hover, hout]
  unfold retransmit backOff Timer.start
  simp only
  split <;> rfl

theorem tick_cases (s : TCPSender) (ms : ℕ) :
    SameQueue s (s.tick ms) ∧ Ticked s ms (s.tick ms) := by
  by_cases hstill : s.outstandingSegments = [] ∨
      wrapAdd 64 s.timer.timeElapsed ms < s.timer.timeout
  · rw [tick_of_still hstill]
    exact ⟨⟨rfl, rfl, rfl, rfl, rfl, rfl, rfl⟩, .counted hstill rfl rfl rfl⟩
  · obtain ⟨hout, hexp⟩ := not_or.mp hstill
    obtain ⟨oldest, rest, hcons⟩ := List.exists_cons_of_ne_nil hout
    have hle := Nat.le_of_not_lt hexp
    rw [tick_of_expired hcons hle]
    exact ⟨⟨rfl, rfl, rfl, rfl, rfl, rfl, rfl⟩, .repeated oldest rest hcons hle rfl rfl⟩

end Effects

namespace Ordered

variable {s s' : TCPSender}

theorem below (h : Ordered s) {e : OrderedSegment} (he : e ∈ s.outstandingSegments) :
    e.seqno + e.length ≤ s.nextSeqno ∧ e.seqno < s.nextSeqno := by
  obtain ⟨a, -, htiles⟩ := h.front
  have hb := (htiles.bounds he).2
  have hpos := htiles.length_pos he
  omega

theorem head_le (h : Ordered s) {e : OrderedSegment} {rest : List OrderedSegment}
    (hout : s.outstandingSegments = e :: rest) : e.seqno ≤ s.absAckno := by
  obtain ⟨a, ha, htiles⟩ := h.front
  rw [hout] at htiles
  have hpos : e.seqno = a := htiles.1
  omega

/-- Nothing is outstanding exactly when everything is acknowledged. -/
theorem nil_iff (h : Ordered s) : s.outstandingSegments = [] ↔ s.absAckno = s.nextSeqno := by
  have hack := h.sane.ack_le
  constructor
  · intro hnil
    obtain ⟨a, ha, htiles⟩ := h.front
    rw [hnil] at htiles
    have hend : a = s.nextSeqno := htiles
    omega
  · intro heq
    cases hout : s.outstandingSegments with
    | nil => rfl
    | cons e rest =>
      have hlt := h.unacked e rest hout
      have hle : e.seqno + e.length ≤ s.nextSeqno := (h.below (by simp [hout])).1
      omega

theorem exists_oldest (h : Ordered s) (hopen : s.absAckno < s.nextSeqno) :
    ∃ oldest rest, s.outstandingSegments = oldest :: rest := by
  apply List.exists_cons_of_ne_nil
  intro hnil
  exact Nat.ne_of_lt hopen (h.nil_iff.mp hnil)

/-- What is left of the old queue is not new. -/
theorem old_entries (h : Ordered s) {es : List OrderedSegment}
    (hsuf : es <:+ s.outstandingSegments) :
    es.filter (fun e => decide (s.nextSeqno ≤ e.seqno)) = [] := by
  rw [List.filter_eq_nil_iff]
  intro e he
  have hlt := (h.below (hsuf.subset he)).2
  simp only [decide_eq_true_eq]
  omega

theorem newEntries_eq (h : Ordered s) {es fresh : List OrderedSegment}
    (hsuf : es <:+ s.outstandingSegments) (hout : s'.outstandingSegments = es ++ fresh)
    (htiles : Consecutive s.nextSeqno fresh s'.nextSeqno) : newEntries s s' = fresh := by
  unfold newEntries
  rw [hout, List.filter_append, h.old_entries hsuf, List.nil_append, List.filter_eq_self]
  intro e he
  simpa using (htiles.bounds he).1

theorem newEntries_nil (h : Ordered s)
    (hout : s'.outstandingSegments = s.outstandingSegments) : newEntries s s' = [] := by
  unfold newEntries
  rw [hout]
  exact h.old_entries (List.suffix_refl _)

theorem transmitNext (h : Ordered s) (hs : Sends s) : Ordered s.transmitNext := by
  have hlen : 0 < (⟨s.nextSeqno, s.nextSegment⟩ : OrderedSegment).length := hs.2.2
  obtain ⟨a, ha, htail⟩ := h.front
  refine ⟨h.sane.transmitNext, ⟨a, ha, htail.snoc rfl hlen⟩, ?_⟩
  intro e rest hcons
  change s.outstandingSegments ++ [_] = e :: rest at hcons
  cases hout : s.outstandingSegments with
  | nil =>
    rw [hout] at hcons
    have hack := h.sane.ack_le
    have he : (⟨s.nextSeqno, s.nextSegment⟩ : OrderedSegment) = e := (List.cons.inj hcons).1
    rw [← he]
    change s.absAckno < s.nextSeqno + _
    omega
  | cons e' rest' =>
    rw [hout] at hcons
    have he : e' = e := (List.cons.inj hcons).1
    rw [← he]
    exact h.unacked e' rest' hout

theorem fillWindow (h : Ordered s) :
    Ordered s.fillWindow ∧ (∃ fresh, Filled s fresh s.fillWindow) ∧ ¬ Sends s.fillWindow := by
  have hrule := fillWindow_rule (P := fun q => Ordered q ∧ ∃ fresh, Filled s fresh q) ?_ ?_ s
    ⟨h, [], Filled.refl s⟩
  · obtain ⟨⟨hord, hfilled⟩, hstop⟩ := hrule
    exact ⟨hord, hfilled, hstop⟩
  · intro q hq
    exact hq.1.sane.stream_valid
  · intro q hq hs
    obtain ⟨hord, fresh, hfilled⟩ := hq
    exact ⟨hord.transmitNext hs, _, hfilled.transmitNext hord.sane hs⟩

theorem setWindow (h : Ordered s) {w : ℕ} (hw : w < 2 ^ 16) :
    Ordered { s with windowSize := w } :=
  ⟨⟨h.sane.stream_valid, hw, h.sane.ack_le⟩, h.front, h.unacked⟩

theorem setStream (h : Ordered s) {stream : ByteStream} (hv : stream.Valid) :
    Ordered (s.setStream stream) :=
  ⟨⟨hv, h.sane.window_lt, h.sane.ack_le⟩, h.front, h.unacked⟩

theorem acknowledge (h : Ordered s) {ack : ℕ} (hlo : s.absAckno < ack)
    (hhi : ack ≤ s.nextSeqno) : Ordered (s.acknowledge ack) := by
  obtain ⟨a, ha, htiles⟩ := h.front
  obtain ⟨hfront, hhead, -, -⟩ := eraseAcked_spec ack s.initialRetransmissionTimeout
    s.outstandingSegments s.timer htiles (by omega)
  exact ⟨⟨h.sane.stream_valid, h.sane.window_lt, hhi⟩, hfront, hhead⟩

/-- An acknowledgment removes a front of the queue; the timer starts anew exactly when
it removes something. -/
theorem acknowledge_effect (h : Ordered s) {ack : ℕ} (hlo : s.absAckno < ack) :
    (s.acknowledge ack).outstandingSegments <:+ s.outstandingSegments ∧
      (((s.acknowledge ack).outstandingSegments = s.outstandingSegments ∧
          (s.acknowledge ack).timer = s.timer) ∨
        (s.acknowledge ack).timer = ⟨0, s.initialRetransmissionTimeout⟩) := by
  obtain ⟨a, ha, htiles⟩ := h.front
  obtain ⟨-, -, hsuf, htimer⟩ := eraseAcked_spec ack s.initialRetransmissionTimeout
    s.outstandingSegments s.timer htiles (by omega)
  refine ⟨hsuf, ?_⟩
  rcases htimer with hsame | ⟨hstart, -⟩
  · left
    unfold TCPSender.acknowledge
    rw [hsame]
    exact ⟨rfl, rfl⟩
  · exact Or.inr hstart

theorem ackReceived (h : Ordered s) (ackno : WrappingInt32) (win : UInt16) :
    Ordered (s.ackReceived ackno win) := by
  have hwin := h.setWindow win.toNat_lt
  rcases ackReceived_cases s ackno win with ⟨-, heq⟩ | ⟨ack, -, hlo, hhi, heq⟩
  · rw [heq]
    exact hwin
  · rw [heq]
    exact (hwin.acknowledge hlo hhi).fillWindow.1

theorem ackReceived_ended (h : Ordered s) (ackno : WrappingInt32) (win : UInt16) :
    (s.ackReceived ackno win).stream.inputEnded = s.stream.inputEnded := by
  rcases ackReceived_cases s ackno win with ⟨-, heq⟩ | ⟨ack, -, hlo, hhi, heq⟩
  · rw [heq]
  · obtain ⟨-, ⟨fresh, hfilled⟩, -⟩ :=
      ((h.setWindow win.toNat_lt).acknowledge hlo hhi).fillWindow
    rw [heq, hfilled.ended_eq]
    rfl

theorem of_same (h : Ordered s) (hs : SameQueue s s') : Ordered s' := by
  obtain ⟨-, h2, h3, h4, h5, h6, -⟩ := hs
  refine ⟨⟨?_, ?_, ?_⟩, ?_, ?_⟩
  · exact h2 ▸ h.sane.stream_valid
  · exact h5 ▸ h.sane.window_lt
  · exact h4 ▸ h3 ▸ h.sane.ack_le
  · rw [h3, h4, h6]
    exact h.front
  · rw [h4, h6]
    exact h.unacked

/-- Every call keeps the queue in order. -/
theorem apply (h : Ordered s) (op : SenderOp) : Ordered (s.apply op) := by
  cases op with
  | write data => exact h.setStream (h.sane.stream_valid.write_valid data)
  | endInput => exact h.setStream h.sane.stream_valid.endInput
  | fillWindow => exact h.fillWindow.1
  | ackReceived ackno win => exact h.ackReceived ackno win
  | tick ms => exact h.of_same (tick_cases s ms).1
  | sendEmptySegment => exact h.of_same ⟨rfl, rfl, rfl, rfl, rfl, rfl, rfl⟩
  | popSegment => exact h.of_same ⟨rfl, rfl, rfl, rfl, rfl, rfl, rfl⟩
  | setError => exact h.setStream h.sane.stream_valid.setError

theorem run (h : Ordered s) (ops : List SenderOp) : Ordered (calls.exec s ops) :=
  calls.invariant (fun _ op h _ => h.apply op) h (calls.valid_of_total (fun _ _ => trivial) s ops)

end Ordered

end SenderQueue

end Sponge
