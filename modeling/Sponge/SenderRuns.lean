import Sponge.Runs
import Sponge.SenderBooks

/-!
Runs of the sender under its owner's calls, and their history on the wire.
Besides the calls themselves a run records the bytes the stream accepted, every
segment pushed to `segments_out`, the segments pushed for the first time (those
that became outstanding) and the other pushes, each with the segment that was the
oldest outstanding one at that moment. The pushes are the first transmissions in
their order, with the other ones in between.
-/
namespace Sponge

open Excerpts Tiling SenderLoop SenderQueue SenderBooks Runs

namespace TCPSender

/-- The bytes that the stream takes over in this call. -/
def acceptedBy (s : TCPSender) : SenderOp → List UInt8
  | .write data => data.take (s.stream.write data).1
  | _ => []

/-- Writes come before the end of the input. -/
def Allowed (s : TCPSender) : SenderOp → Prop
  | .write _ => s.stream.inputEnded = false
  | _ => True

instance (s : TCPSender) (op : SenderOp) : Decidable (s.Allowed op) := by
  cases op <;> unfold Allowed <;> infer_instance

end TCPSender

namespace SenderRuns

/-- The segments pushed between two states. -/
def pushed (s s' : TCPSender) : List TCPSegment := s'.segmentsOut.drop s.segmentsOut.length

structure Wire where
  sender : TCPSender
  accepted : List UInt8
  sent : List TCPSegment
  firsts : List OrderedSegment
  repeats : List (Option OrderedSegment × TCPSegment)

namespace Wire

def new (sender : TCPSender) : Wire := ⟨sender, [], [], [], []⟩

def step (w : Wire) (op : SenderOp) : Wire :=
  let s' := w.sender.apply op
  let fresh := newEntries w.sender s'
  let out := pushed w.sender s'
  { sender := s'
    accepted := w.accepted ++ w.sender.acceptedBy op
    sent := w.sent ++ out
    firsts := w.firsts ++ fresh
    repeats := w.repeats ++
      (out.drop fresh.length).map (fun seg => (w.sender.outstandingSegments.head?, seg)) }

end Wire

def machine : Machine Wire SenderOp where
  enabled w op := w.sender.Allowed op
  step := Wire.step

instance (w : Wire) (op : SenderOp) : Decidable (machine.enabled w op) :=
  inferInstanceAs (Decidable (w.sender.Allowed op))

section Step

variable {S : List UInt8} {firsts : List OrderedSegment} {s s' : TCPSender}

/-- The segment `send_empty_segment` makes. -/
def emptySegment (s : TCPSender) : TCPSegment := { header := { seqno := wrap s.nextSeqno s.isn } }

/-- What one call does to the books and to the wire: it pushes the new segments first,
then repeats the oldest one or sends an empty one. -/
structure CallEffect (S : List UInt8) (firsts : List OrderedSegment) (s : TCPSender)
    (op : SenderOp) : Prop where
  books : Books (S ++ s.acceptedBy op) (firsts ++ newEntries s (s.apply op)) (s.apply op)
  pushed_eq : ∃ rest, pushed s (s.apply op) =
      (newEntries s (s.apply op)).map OrderedSegment.segment ++ rest ∧
    ∀ seg ∈ rest, (∃ e, s.outstandingSegments.head? = some e ∧ seg = e.segment) ∨
      (op = .sendEmptySegment ∧ seg = emptySegment s)
  queue : ∀ seg ∈ (s.apply op).segmentsOut,
    seg ∈ s.segmentsOut ∨ seg ∈ pushed s (s.apply op)

theorem pushed_of_append {out : List TCPSegment} (h : s'.segmentsOut = s.segmentsOut ++ out) :
    pushed s s' = out := by
  unfold pushed
  rw [h, List.drop_left]

theorem queue_of_append {out : List TCPSegment} (h : s'.segmentsOut = s.segmentsOut ++ out) :
    ∀ seg ∈ s'.segmentsOut, seg ∈ s.segmentsOut ∨ seg ∈ pushed s s' := by
  intro seg hseg
  rw [pushed_of_append h]
  rw [h] at hseg
  exact List.mem_append.mp hseg

/-- A call that leaves the outstanding segments alone and pushes nothing. -/
theorem CallEffect.of_quiet {op : SenderOp} (h : Books S firsts s)
    (hbooks : Books (S ++ s.acceptedBy op) firsts (s.apply op))
    (hout : (s.apply op).outstandingSegments = s.outstandingSegments)
    (hpush : (s.apply op).segmentsOut = s.segmentsOut) : CallEffect S firsts s op := by
  have hnew := h.ordered.newEntries_nil hout
  have happ : (s.apply op).segmentsOut = s.segmentsOut ++ [] := by
    rw [hpush, List.append_nil]
  refine ⟨?_, ⟨[], ?_, ?_⟩, queue_of_append happ⟩
  · rw [hnew, List.append_nil]
    exact hbooks
  · rw [hnew, pushed_of_append happ]
    rfl
  · intro seg hseg
    simp at hseg

/-- A call that sends the segments `fresh` for the first time. -/
theorem CallEffect.of_fresh {op : SenderOp} {kept fresh : List OrderedSegment}
    (h : Books S firsts s) (hbooks : Books (S ++ s.acceptedBy op) (firsts ++ fresh) (s.apply op))
    (hsuf : kept <:+ s.outstandingSegments)
    (hout : (s.apply op).outstandingSegments = kept ++ fresh)
    (htiles : Consecutive s.nextSeqno fresh (s.apply op).nextSeqno)
    (hpush : (s.apply op).segmentsOut = s.segmentsOut ++ fresh.map OrderedSegment.segment) :
    CallEffect S firsts s op := by
  have hnew : newEntries s (s.apply op) = fresh := h.ordered.newEntries_eq hsuf hout htiles
  refine ⟨?_, ⟨[], ?_, ?_⟩, queue_of_append hpush⟩
  · rw [hnew]
    exact hbooks
  · rw [hnew, List.append_nil]
    exact pushed_of_append hpush
  · intro seg hseg
    simp at hseg

/-- A call that pushes one segment again, or an empty one. -/
theorem CallEffect.of_single {op : SenderOp} {seg : TCPSegment} (h : Books S firsts s)
    (hbooks : Books (S ++ s.acceptedBy op) firsts (s.apply op))
    (hout : (s.apply op).outstandingSegments = s.outstandingSegments)
    (hpush : (s.apply op).segmentsOut = s.segmentsOut ++ [seg])
    (hseg : (∃ e, s.outstandingSegments.head? = some e ∧ seg = e.segment) ∨
      (op = .sendEmptySegment ∧ seg = emptySegment s)) : CallEffect S firsts s op := by
  have hnew := h.ordered.newEntries_nil hout
  refine ⟨?_, ⟨[seg], ?_, ?_⟩, queue_of_append hpush⟩
  · rw [hnew, List.append_nil]
    exact hbooks
  · rw [hnew]
    exact pushed_of_append hpush
  · intro seg' hseg'
    rw [List.mem_singleton.mp hseg']
    exact hseg

theorem callEffect_fillWindow (h : Books S firsts s) : CallEffect S firsts s .fillWindow := by
  obtain ⟨fresh, hbooks, hfilled, -⟩ := h.fillWindow
  have hsame : Books (S ++ s.acceptedBy .fillWindow) (firsts ++ fresh) (s.apply .fillWindow) := by
    simpa [TCPSender.acceptedBy, TCPSender.apply] using hbooks
  exact CallEffect.of_fresh h hsame (List.suffix_refl _) hfilled.outstanding_eq hfilled.tiles
    hfilled.segmentsOut_eq

theorem callEffect_ackReceived (h : Books S firsts s) (ackno : WrappingInt32) (win : UInt16) :
    CallEffect S firsts s (.ackReceived ackno win) := by
  have hwin := h.setWindow win.toNat_lt
  rcases ackReceived_cases s ackno win with ⟨-, heq⟩ | ⟨ack, -, hlo, hhi, heq⟩
  · have happ : s.apply (.ackReceived ackno win) = { s with windowSize := win.toNat } := heq
    apply CallEffect.of_quiet h
    · rw [happ]
      simpa [TCPSender.acceptedBy] using hwin
    · rw [happ]
    · rw [happ]
  · obtain ⟨fresh, hbooks, hfilled, -⟩ := (hwin.acknowledge hlo hhi).fillWindow
    obtain ⟨hsuf, -⟩ := hwin.ordered.acknowledge_effect hlo
    have happ : s.apply (.ackReceived ackno win) =
        (TCPSender.acknowledge { s with windowSize := win.toNat } ack).fillWindow := heq
    apply CallEffect.of_fresh h _ hsuf
    · rw [happ]
      exact hfilled.outstanding_eq
    · rw [happ]
      exact hfilled.tiles
    · rw [happ]
      exact hfilled.segmentsOut_eq
    · rw [happ]
      simpa [TCPSender.acceptedBy] using hbooks

theorem callEffect_tick (h : Books S firsts s) (ms : ℕ) : CallEffect S firsts s (.tick ms) := by
  obtain ⟨hsame, hticked⟩ := tick_cases s ms
  have hbooks : Books (S ++ s.acceptedBy (.tick ms)) firsts (s.apply (.tick ms)) := by
    simpa [TCPSender.acceptedBy, TCPSender.apply] using h.of_same hsame
  have hout : (s.apply (.tick ms)).outstandingSegments = s.outstandingSegments :=
    hsame.outstanding_eq
  rcases hticked with ⟨-, hnone, -, -⟩ | ⟨e, rest, hcons, -, hone, -⟩
  · exact CallEffect.of_quiet h hbooks hout hnone
  · apply CallEffect.of_single h hbooks hout hone
    left
    refine ⟨e, ?_, rfl⟩
    rw [hcons]
    rfl

theorem callEffect_popSegment (h : Books S firsts s) : CallEffect S firsts s .popSegment := by
  have hsame : SameQueue s (s.apply .popSegment) := ⟨rfl, rfl, rfl, rfl, rfl, rfl, rfl⟩
  have hnew : newEntries s (s.apply .popSegment) = [] := h.ordered.newEntries_nil rfl
  have hpush : pushed s (s.apply .popSegment) = [] := by
    unfold pushed
    apply List.drop_of_length_le
    change s.segmentsOut.tail.length ≤ _
    rw [List.length_tail]
    omega
  refine ⟨?_, ⟨[], ?_, ?_⟩, ?_⟩
  · rw [hnew, List.append_nil]
    simpa [TCPSender.acceptedBy, TCPSender.apply] using h.of_same hsame
  · rw [hnew, hpush]
    rfl
  · intro seg hseg
    simp at hseg
  · intro seg hseg
    exact Or.inl (List.mem_of_mem_tail hseg)

theorem callEffect (h : Books S firsts s) (op : SenderOp) (hop : s.Allowed op) :
    CallEffect S firsts s op := by
  cases op with
  | write data => exact CallEffect.of_quiet h (h.write hop data) rfl rfl
  | endInput =>
    apply CallEffect.of_quiet h _ rfl rfl
    simpa [TCPSender.acceptedBy, TCPSender.apply] using h.endInput
  | fillWindow => exact callEffect_fillWindow h
  | ackReceived ackno windowSize => exact callEffect_ackReceived h ackno windowSize
  | tick ms => exact callEffect_tick h ms
  | sendEmptySegment =>
    have hsame : SameQueue s s.sendEmptySegment := ⟨rfl, rfl, rfl, rfl, rfl, rfl, rfl⟩
    apply CallEffect.of_single h _ rfl rfl (Or.inr ⟨rfl, rfl⟩)
    simpa [TCPSender.acceptedBy, TCPSender.apply] using h.of_same hsame
  | popSegment => exact callEffect_popSegment h
  | setError =>
    apply CallEffect.of_quiet h _ rfl rfl
    simpa [TCPSender.acceptedBy, TCPSender.apply] using h.setError

end Step

/-- The books are kept and every push is accounted for. -/
structure Recorded (w : Wire) : Prop where
  books : Books w.accepted w.firsts w.sender
  sent_order : Interleaved (w.firsts.map OrderedSegment.segment) (w.repeats.map Prod.snd) w.sent
  repeats_copy : ∀ r ∈ w.repeats, 0 < r.2.lengthInSequenceSpace →
    ∃ e, r.1 = some e ∧ r.2 = e.segment

theorem new_recorded (capacity : ℕ) (rto : UInt16) (fixedIsn : Option WrappingInt32)
    (random : WrappingInt32) :
    Recorded (Wire.new (TCPSender.new capacity rto fixedIsn random)) where
  books := new_books capacity rto fixedIsn random
  sent_order := Interleaved.nil
  repeats_copy r hr := by simp [Wire.new] at hr

theorem Recorded.step {w : Wire} (h : Recorded w) (op : SenderOp) (hop : w.sender.Allowed op) :
    Recorded (w.step op) := by
  obtain ⟨hbooks, ⟨rest, hpush, hcopy⟩, -⟩ := callEffect h.books op hop
  have hrest : (pushed w.sender (w.sender.apply op)).drop
      (newEntries w.sender (w.sender.apply op)).length = rest := by
    rw [hpush, ← List.length_map (f := OrderedSegment.segment), List.drop_left]
  refine ⟨hbooks, ?_, ?_⟩
  · change Interleaved ((w.firsts ++ newEntries w.sender (w.sender.apply op)).map _)
      ((w.repeats ++ (List.drop _ _).map _).map _) (w.sent ++ pushed w.sender (w.sender.apply op))
    have hsnd : rest.map (Prod.snd ∘ fun seg =>
        (w.sender.outstandingSegments.head?, seg)) = rest := List.map_id _
    rw [hrest, hpush, List.map_append, List.map_append, List.map_map, hsnd]
    exact h.sent_order.append (Interleaved.in_turn _ rest)
  · intro r hr hpos
    change r ∈ w.repeats ++ (List.drop _ _).map _ at hr
    rw [hrest] at hr
    rcases List.mem_append.mp hr with hold | hnew
    · exact h.repeats_copy r hold hpos
    · obtain ⟨seg, hseg, rfl⟩ := List.mem_map.mp hnew
      rcases hcopy seg hseg with hold | ⟨-, hempty⟩
      · exact hold
      · simp [hempty, emptySegment, TCPSegment.lengthInSequenceSpace] at hpos

theorem recorded_of_run (capacity : ℕ) (rto : UInt16) (fixedIsn : Option WrappingInt32)
    (random : WrappingInt32) {ops : List SenderOp}
    (hv : machine.Valid (Wire.new (TCPSender.new capacity rto fixedIsn random)) ops) :
    Recorded (machine.exec (Wire.new (TCPSender.new capacity rto fixedIsn random)) ops) :=
  machine.invariant (fun _ op h hop => h.step op hop) (new_recorded capacity rto fixedIsn random) hv

/-- In a list of consecutive ranges the one that stops at the end is the last one. -/
theorem getLast_of_stop {a b : ℕ} {es : List OrderedSegment} (h : Consecutive a es b)
    {e : OrderedSegment} (he : e ∈ es) (hstop : e.seqno + e.length = b) :
    es.getLast? = some e := by
  induction es generalizing a with
  | nil => simp at he
  | cons x xs ih =>
    obtain ⟨hpos, hlen, hrest⟩ := h
    cases xs with
    | nil =>
      rw [List.mem_singleton] at he
      rw [he]
      rfl
    | cons y ys =>
      have hmem : e ∈ y :: ys := by
        rcases List.mem_cons.mp he with rfl | hmem
        · have hy := hrest.2.1
          have hle := hrest.2.2.le
          omega
        · exact hmem
      rw [List.getLast?_cons_cons]
      exact ih hrest hmem

/-- The outstanding segments are consecutive nonempty ranges up to the next sequence
number, and the first of them holds the acknowledgment. -/
structure Bookkeeping (s : TCPSender) : Prop where
  consecutive : ∃ a, Consecutive a s.outstandingSegments s.nextSeqno
  nil_iff : s.outstandingSegments = [] ↔ s.absAckno = s.nextSeqno
  head : ∀ e rest, s.outstandingSegments = e :: rest →
    e.seqno ≤ s.absAckno ∧ s.absAckno < e.seqno + e.length
  ack_le : s.absAckno ≤ s.nextSeqno
  inFlight_eq : s.bytesInFlight = s.nextSeqno - s.absAckno

/-- The first transmissions, in the order in which they were pushed, cut the stream read so
far into consecutive pieces; every other push that takes up sequence numbers repeats the then
oldest outstanding segment. -/
structure History (w : Wire) : Prop where
  books : Bookkeeping w.sender
  tiles : Consecutive 0 w.firsts w.sender.nextSeqno
  seqno_eq : ∀ e ∈ w.firsts, e.segment.header.seqno = wrap e.seqno w.sender.isn
  syn_iff : ∀ e ∈ w.firsts, e.segment.header.syn = true ↔ e.seqno = 0
  payload_le : ∀ e ∈ w.firsts, e.segment.payload.length ≤ TCPConfig.maxPayloadSize
  payloads_eq : w.firsts.flatMap (fun e => e.segment.payload) =
    w.accepted.take w.sender.stream.bytesRead
  fin_last : ∀ e ∈ w.firsts, e.segment.header.fin = true →
    w.firsts.getLast? = some e ∧ w.sender.stream.eof = true
  sent_order : Interleaved (w.firsts.map OrderedSegment.segment) (w.repeats.map Prod.snd) w.sent
  repeats_copy : ∀ r ∈ w.repeats, 0 < r.2.lengthInSequenceSpace →
    ∃ e, r.1 = some e ∧ r.2 = e.segment

theorem bookkeeping_of_ordered {s : TCPSender} (h : Ordered s) : Bookkeeping s where
  consecutive := by
    obtain ⟨a, -, htiles⟩ := h.front
    exact ⟨a, htiles⟩
  nil_iff := h.nil_iff
  head e rest hout := ⟨h.head_le hout, h.unacked e rest hout⟩
  ack_le := h.sane.ack_le
  inFlight_eq := h.sane.bytesInFlight_eq

theorem Recorded.history {w : Wire} (h : Recorded w) : History w where
  books := bookkeeping_of_ordered h.books.ordered
  tiles := h.books.tiles
  seqno_eq e he := (h.books.honest e he).seqno_eq
  syn_iff e he := (h.books.honest e he).syn_iff
  payload_le := h.books.payload_le
  payloads_eq := h.books.payloads_eq
  fin_last e he hfin := by
    obtain ⟨hnext, heof⟩ := h.books.fin_closes he hfin
    refine ⟨getLast_of_stop h.books.tiles he ?_, heof⟩
    rw [hnext]
    exact h.books.fin_stop he hfin
  sent_order := h.sent_order
  repeats_copy := h.repeats_copy

/-- Bookkeeping and wire history of every run. -/
theorem sender_history (capacity : ℕ) (rto : UInt16) (fixedIsn : Option WrappingInt32)
    (random : WrappingInt32) (ops : List SenderOp)
    (hv : machine.Valid (Wire.new (TCPSender.new capacity rto fixedIsn random)) ops) :
    History (machine.exec (Wire.new (TCPSender.new capacity rto fixedIsn random)) ops) :=
  Recorded.history (recorded_of_run capacity rto fixedIsn random hv)

theorem sender_history_to_fin :
    History (machine.exec (Wire.new (TCPSender.new 2 1000 (some ⟨7⟩) ⟨0⟩))
      [.fillWindow, .ackReceived ⟨8⟩ 1, .write [1, 2], .fillWindow, .endInput, .tick 1000,
        .ackReceived ⟨9⟩ 10]) :=
  sender_history 2 1000 (some ⟨7⟩) ⟨0⟩ _ (by decide)

end SenderRuns

end Sponge
