import Sponge.ConnectionCalls

/-!
An endpoint never stalls silently, whatever segments it receives.
With nothing in flight there is nothing left to send; with something in flight there
is an oldest outstanding segment, and a tick of at least the current timeout repeats
it, with a RST past the retry limit. The timer counts in 64 bits: a tick that makes it
wrap goes unnoticed.
-/
namespace Sponge

/-- The calls of the owner of an endpoint, reads of the inbound stream included. -/
inductive ConnectionOp where
  | connect
  | write (data : List UInt8)
  | endInputStream
  | tick (ms : ℕ)
  | segmentReceived (seg : TCPSegment)
  | read (len : ℕ)

namespace TCPConnection

def perform (c : TCPConnection) : ConnectionOp → TCPConnection
  | .connect => c.connect
  | .write data => (c.write data).2
  | .endInputStream => c.endInputStream
  | .tick ms => c.tick ms
  | .segmentReceived seg => c.segmentReceived seg
  | .read len => { c with receiver := c.receiver.setOutput (c.receiver.streamOut.read len).2 }

/-- The calls of an endpoint, with no condition on them. -/
def calls : Runs.Machine TCPConnection ConnectionOp := .total perform

end TCPConnection

namespace ConnectionProgress

open Words SenderLoop SenderQueue SenderBooks SenderOutput ConnectionCalls TCPConnection

/-- Once the SYN is out, whoever has nothing in flight has nothing to send. -/
def Drained (s : TCPSender) : Prop :=
  0 < s.nextSeqno → s.absAckno = s.nextSeqno → ¬ Pending s

theorem drained_fillWindow {s : TCPSender} (h : Ordered s) : Drained s.fillWindow := by
  obtain ⟨hord, -, hstop⟩ := h.fillWindow
  intro _ hidle hpending
  exact hstop ((hord.sane.sends_iff_of_idle hidle).mpr hpending)

theorem Drained.ackReceived {s : TCPSender} (h : Drained s) (hord : Ordered s)
    (ackno : WrappingInt32) (win : UInt16) : Drained (s.ackReceived ackno win) := by
  rcases ackReceived_cases s ackno win with ⟨-, heq⟩ | ⟨ack, -, hlo, hhi, heq⟩
  · rw [heq]
    exact h
  · rw [heq]
    exact drained_fillWindow ((hord.setWindow win.toNat_lt).acknowledge hlo hhi)

theorem Drained.tick {s : TCPSender} (h : Drained s) (ms : ℕ) : Drained (s.tick ms) := by
  have hsame := (tick_cases s ms).1
  unfold Drained Pending TCPSender.finSent
  rw [hsame.nextSeqno_eq, hsame.absAckno_eq, hsame.stream_eq]
  exact h

/-- What every call keeps. -/
def Lively (S : List UInt8) (c : TCPConnection) : Prop := Output S c.sender ∧ Drained c.sender

theorem Lively.fill {S : List UInt8} {c : TCPConnection} (h : Output S c.sender) :
    Lively S (c.callSender .fillWindow) :=
  ⟨(h.call .fillWindow ⟨trivial, by simp⟩ rfl).1, drained_fillWindow h.ordered⟩

theorem lively_stable : Stable Lively where
  retx _ _ h := h.1.retx
  fill _ _ h := Lively.fill h.1
  writeFill _ c data h hopen := Lively.fill (c := c.callSender (.write data))
    (h.1.apply (.write data) ⟨hopen, by simp⟩).1
  count _ _ ms h := ⟨(h.1.call (.tick ms) ⟨trivial, by simp⟩ rfl).1, h.2.tick ms⟩
  empty _ _ h hsent := ⟨(h.1.call .sendEmptySegment ⟨trivial, fun _ => hsent⟩ rfl).1, h.2⟩
  emit S c rst h := by
    unfold sendSegments
    split
    · exact ⟨h.1.drain, h.2⟩
    · exact h
  reset _ _ h := ⟨(h.1.call .setError ⟨trivial, by simp⟩ rfl).1, h.2⟩
  switch _ c h := by
    unfold Lively
    rw [trySwitchingCloseMode_sender]
    exact h
  close _ _ h _ _ := h
  timer _ _ _ h := h

/-- Nothing about the segment matters. -/
theorem Lively.takeIn {S : List UInt8} {c : TCPConnection} (h : Lively S c) (seg : TCPSegment) :
    Lively S (c.takeIn seg) := by
  refine takeIn_rule h (fun c hc => lively_stable.reset S c hc) ?_
  intro c hc
  refine ⟨(hc.1.call (.ackReceived seg.header.ackno seg.header.win) ⟨trivial, by simp⟩ rfl).1, ?_⟩
  exact hc.2.ackReceived hc.1.ordered _ _

theorem Lively.perform {S : List UInt8} {c : TCPConnection} (h : Lively S c) (op : ConnectionOp) :
    ∃ S', Lively S' (c.perform op) := by
  cases op with
  | connect => exact ⟨S, lively_stable.connect h⟩
  | write data => exact ⟨_, lively_stable.write h data⟩
  | endInputStream =>
    have hended := (h.1.call .endInput ⟨trivial, by simp⟩ rfl).1
    have hfill := Lively.fill (c := c.callSender .endInput) hended
    exact ⟨S, lively_stable.tryClosingConnection hfill⟩
  | tick ms => exact ⟨S, lively_stable.tick h ms⟩
  | segmentReceived seg => exact ⟨S, lively_stable.segmentReceived (h.takeIn seg)⟩
  | read len => exact ⟨S, h⟩

theorem new_lively (cfg : TCPConfig) (random : WrappingInt32) : Lively [] (new cfg random) :=
  ⟨new_output _ _ _ _, fun hsent => absurd hsent (Nat.lt_irrefl 0)⟩

theorem Lively.run {S : List UInt8} {c : TCPConnection} (h : Lively S c)
    (ops : List ConnectionOp) : ∃ S', Lively S' (calls.exec c ops) := by
  induction ops generalizing S c with
  | nil => exact ⟨S, h⟩
  | cons op ops ih =>
    obtain ⟨S', hstep⟩ := h.perform op
    exact ih hstep

/-- With nothing in flight, the buffer is empty and an ended stream has its FIN out. -/
theorem Lively.idle {S : List UInt8} {c : TCPConnection} (h : Lively S c)
    (hsent : 0 < c.sender.nextSeqno) (hidle : c.bytesInFlight = 0) :
    c.sender.stream.bufferSize = 0 ∧ (c.sender.stream.inputEnded = false ∨
      c.sender.nextSeqno = c.sender.stream.bytesWritten + 2) := by
  obtain ⟨firsts, hbooks⟩ := h.1.books
  have hflight := hbooks.sane.bytesInFlight_eq
  have hack := hbooks.sane.ack_le
  have heq : c.sender.absAckno = c.sender.nextSeqno := by
    unfold TCPConnection.bytesInFlight at hidle
    omega
  have hdone := h.2 hsent heq
  have hw := hbooks.written_eq
  cases hfin : c.sender.finSent with
  | true =>
    simp only [TCPSender.finSent, Bool.and_eq_true, decide_eq_true_eq] at hfin
    have hread := hbooks.eof_read hfin.1
    have hsize := hbooks.curSize_eq
    refine ⟨?_, Or.inr ?_⟩
    · unfold ByteStream.bufferSize
      omega
    · rcases hbooks.position with ⟨hzero, -⟩ | hmid | ⟨hend, -⟩ <;> omega
  | false =>
    unfold Pending at hdone
    have hnot : ¬ (c.sender.nextSeqno = 0 ∨ 0 < c.sender.stream.bufferSize ∨
        c.sender.stream.inputEnded = true) := fun hwork => hdone ⟨hfin, hwork⟩
    refine ⟨by omega, Or.inl ?_⟩
    simpa using fun hend => hnot (Or.inr (Or.inr hend))

theorem sendSegments_segmentsOut (c : TCPConnection) (h : c.active = true) (rst : Bool) :
    (c.sendSegments rst).segmentsOut =
      c.segmentsOut ++ c.sender.segmentsOut.map (c.stamp rst) := by
  rw [sendSegments_of_active h]

/-- With an empty queue, trying to close emits nothing. -/
theorem tryClosing_segmentsOut {c : TCPConnection}
    (h : c.active = true → c.sender.segmentsOut = []) :
    c.tryClosingConnection.segmentsOut = c.segmentsOut := by
  unfold tryClosingConnection
  split
  · rename_i hactive
    have hemit : (c.sendSegments false).segmentsOut = c.segmentsOut := by
      rw [sendSegments_segmentsOut c hactive, h hactive]
      exact List.append_nil _
    dsimp only
    split <;> exact hemit
  · rfl

/-- A tick that lets the timer expire emits the queue and the oldest segment after it. -/
theorem tick_emits {c : TCPConnection} {oldest : OrderedSegment} {rest : List OrderedSegment}
    (hactive : c.active = true) (hout : c.sender.outstandingSegments = oldest :: rest) {ms : ℕ}
    (hexp : c.sender.timer.timeout ≤ wrapAdd 64 c.sender.timer.timeElapsed ms) :
    (c.tick ms).segmentsOut = c.segmentsOut ++ (c.sender.segmentsOut ++ [oldest.segment]).map
      (c.stamp (decide (TCPConfig.maxRetxAttempts <
        (c.sender.tick ms).consecutiveRetransmissions))) := by
  have hqueue : (c.sender.tick ms).segmentsOut = c.sender.segmentsOut ++ [oldest.segment] := by
    rcases (tick_cases c.sender ms).2 with ⟨hstill, -, -, -⟩ | ⟨e, rest', hhead, -, hpush, -⟩
    · rcases hstill with hnil | hlt
      · rw [hnil] at hout
        simp at hout
      · omega
    · rw [hout] at hhead
      rw [hpush, (List.cons.inj hhead).1]
  have hemit : ∀ rst, (TCPConnection.sendSegments { c with
      sender := c.sender.tick ms
      lastSegmRecvTimer := wrapAdd 64 c.lastSegmRecvTimer ms } rst).segmentsOut =
      c.segmentsOut ++ (c.sender.segmentsOut ++ [oldest.segment]).map (c.stamp rst) := by
    intro rst
    rw [← hqueue]
    exact sendSegments_segmentsOut { c with
      sender := c.sender.tick ms
      lastSegmRecvTimer := wrapAdd 64 c.lastSegmRecvTimer ms } hactive rst
  unfold TCPConnection.tick
  rw [if_pos hactive]
  dsimp only
  split
  · rename_i hmany
    have hne : (c.sender.tick ms).segmentsOut.isEmpty = false := by simp [hqueue]
    rw [decide_eq_true hmany, tryClosing_segmentsOut]
    · unfold giveUp
      rw [if_neg (by simp [hne])]
      exact hemit true
    · intro hstill
      simp [giveUp, reset] at hstill
  · rename_i hfew
    rw [decide_eq_false hfew, tryClosing_segmentsOut]
    · exact hemit false
    · intro _
      rw [sendSegments_of_active (by exact hactive)]

/-- What an endpoint can rely on once its SYN is out. -/
structure NeverStalls (c : TCPConnection) : Prop where
  idle : c.bytesInFlight = 0 → c.sender.stream.bufferSize = 0 ∧
    (c.sender.stream.inputEnded = false ∨
      c.sender.nextSeqnoAbsolute = c.sender.stream.bytesWritten + 2)
  busy : 0 < c.bytesInFlight → ∃ oldest rest, c.sender.outstandingSegments = oldest :: rest ∧
    (c.active = true → ∀ ms, c.sender.timer.timeout ≤ ms →
      c.sender.timer.timeElapsed + ms < 2 ^ 64 →
      (c.tick ms).segmentsOut = c.segmentsOut ++ (c.sender.segmentsOut ++ [oldest.segment]).map
        (c.stamp (decide (TCPConfig.maxRetxAttempts <
          (c.sender.tick ms).consecutiveRetransmissions))))

theorem Lively.neverStalls {S : List UInt8} {c : TCPConnection} (h : Lively S c)
    (hsent : 0 < c.sender.nextSeqno) : NeverStalls c where
  idle := h.idle hsent
  busy hflight := by
    have hord := h.1.ordered
    have heq := hord.sane.bytesInFlight_eq
    unfold TCPConnection.bytesInFlight at hflight
    obtain ⟨oldest, rest, hout⟩ := hord.exists_oldest (by omega)
    refine ⟨oldest, rest, hout, ?_⟩
    intro hactive ms hms hwrap
    apply tick_emits hactive hout
    rw [wrapAdd_of_lt hwrap]
    omega

/-- After every run of calls with arbitrary incoming segments, an endpoint that has sent
its SYN does not stall. -/
theorem connection_never_stalls (cfg : TCPConfig) (random : WrappingInt32)
    (ops : List ConnectionOp) (hsent : (calls.exec (new cfg random) ops).synSent = true) :
    NeverStalls (calls.exec (new cfg random) ops) := by
  obtain ⟨S, h⟩ := (new_lively cfg random).run ops
  exact h.neverStalls (of_decide_eq_true hsent)

theorem connection_never_stalls_after_connect :
    NeverStalls (calls.exec (new ⟨1000, 1, 1, some ⟨0⟩⟩ ⟨0⟩) [.connect, .tick 999]) :=
  connection_never_stalls ⟨1000, 1, 1, some ⟨0⟩⟩ ⟨0⟩ [.connect, .tick 999] (by decide)

/-- One millisecond before the SYN makes the longest possible tick wrap the timer to zero:
the SYN stays in flight and nothing is emitted. -/
theorem longest_tick_unnoticed :
    let c := calls.exec (new ⟨1000, 1, 1, some ⟨0⟩⟩ ⟨0⟩) [.tick 1, .connect]
    0 < c.bytesInFlight ∧ c.active = true ∧ c.sender.timer.timeout ≤ 2 ^ 64 - 1 ∧
      (c.tick (2 ^ 64 - 1)).segmentsOut = c.segmentsOut := by
  decide

end ConnectionProgress

end Sponge
