import Sponge.SenderRuns
import Sponge.SenderWindow

/-!
The loop of `fill_window` by itself: that it ends, that its 16-bit counter holds what
it is assigned, and how much it sends.
`Loop` is the loop as the source writes it, with its three ways out and no bound on the
rounds. A round is entered only with the next sequence number inside the window, so the
window is never smaller than what is in flight when the two are subtracted, although a
peer may shrink it at any time.
-/
namespace Sponge.WindowFill

open SenderLoop SenderQueue SenderBooks SenderWindow SenderRuns TCPSender

/-- The loop run to its end, with the states in which `n_bytes_to_send` was assigned. -/
inductive Loop : TCPSender → List TCPSender → TCPSender → Prop
  | over {s : TCPSender} (h : ¬ s.nextSeqno ≤ s.absAckno + s.windowSize) : Loop s [] s
  | finished {s : TCPSender} (h : s.nextSeqno ≤ s.absAckno + s.windowSize)
      (hfin : s.finSent = true) : Loop s [] s
  | empty {s : TCPSender} (h : s.nextSeqno ≤ s.absAckno + s.windowSize)
      (hfin : s.finSent = false) (hlen : s.nextSegment.lengthInSequenceSpace = 0) :
      Loop s [s] { s with stream := s.streamAfter }
  | again {s s' : TCPSender} {rounds : List TCPSender}
      (h : s.nextSeqno ≤ s.absAckno + s.windowSize) (hfin : s.finSent = false)
      (hlen : s.nextSegment.lengthInSequenceSpace ≠ 0) (hrest : Loop s.transmitNext rounds s') :
      Loop s (s :: rounds) s'

/-- The differences assigned to `n_bytes_to_send` in one round, before they are cut to
16 bits: window less bytes in flight, less one for the SYN, less the payload. -/
def differences (s : TCPSender) : List ℤ :=
  [(s.windowSize : ℤ) - s.bytesInFlight,
    if s.nextSyn then (s.windowRoom : ℤ) - 1 else s.windowRoom,
    if s.payloadRoom = TCPConfig.maxPayloadSize then 1
      else (s.payloadRoom : ℤ) - s.nextPayload.length]

/-- The window is used up, or there is nothing left to put into it. -/
def Exhausted (s : TCPSender) : Prop :=
  windowEdge s ≤ s.nextSeqno ∨
    s.stream.bufferSize = 0 ∧ (s.stream.inputEnded = true → s.finSent = true)

instance (s : TCPSender) : Decidable (Exhausted s) := inferInstanceAs (Decidable (_ ∨ _))

section Loop

variable {s : TCPSender}

/-- A round is entered with the counter in range. -/
theorem differences_fit (h : Sane s) (hguard : s.nextSeqno ≤ s.absAckno + s.windowSize) :
    ∀ n ∈ differences s, 0 ≤ n ∧ n < 2 ^ 16 := by
  have hack := h.ack_le
  have hwin := h.window_lt
  have hflight := h.bytesInFlight_eq
  have hroom : s.windowRoom < 2 ^ 16 := by
    rw [h.windowRoom_eq hguard]
    split <;> omega
  have hmax := s.payloadRoom_le
  have hread := h.nextPayload_length
  unfold TCPConfig.maxPayloadSize at hmax
  simp only [differences, List.forall_mem_cons]
  refine ⟨by omega, ?_, ?_, by simp⟩
  · split
    · rename_i hsyn
      have hpos : s.windowRoom > 0 := (of_decide_eq_true hsyn).2
      omega
    · omega
  · split <;> omega

/-- The loop stops, at the state `fillWindow` computes, and no difference wraps. -/
theorem loop_fillWindow (h : Sane s) :
    ∃ rounds, Loop s rounds s.fillWindow ∧
      ∀ t ∈ rounds, ∀ n ∈ differences t, 0 ≤ n ∧ n < 2 ^ 16 := by
  induction hd : s.absAckno + s.windowSize + 1 - s.nextSeqno using Nat.strong_induction_on
    generalizing s with
  | h d ih =>
    by_cases hs : Sends s
    · have hless := distance_transmitNext hs
      obtain ⟨rounds, hloop, hfit⟩ := ih _ (by omega) h.transmitNext rfl
      rw [fillWindow_of_sends h.stream_valid hs]
      obtain ⟨hguard, hfin, hpos⟩ := hs
      refine ⟨s :: rounds, .again hguard hfin (by omega) hloop, ?_⟩
      exact List.forall_mem_cons.mpr ⟨differences_fit h hguard, hfit⟩
    · rw [fillWindow_of_not_sends h.stream_valid hs]
      by_cases hguard : s.nextSeqno ≤ s.absAckno + s.windowSize
      · cases hfin : s.finSent with
        | true => exact ⟨[], .finished hguard hfin, by simp⟩
        | false =>
          have hlen : s.nextSegment.lengthInSequenceSpace = 0 := by
            by_contra hne
            exact hs ⟨hguard, hfin, Nat.pos_of_ne_zero hne⟩
          have hloop := Loop.empty hguard hfin hlen
          rw [setStream_self s (streamAfter_of_empty h.stream_valid hlen)] at hloop
          refine ⟨[s], hloop, ?_⟩
          simpa using differences_fit h hguard
      · exact ⟨[], .over hguard, by simp⟩

/-- An empty segment below the edge of the window finds the stream empty and not ended. -/
theorem exhausted_of_empty (h : Sane s) (hguard : s.nextSeqno ≤ s.absAckno + s.windowSize)
    (hlen : s.nextSegment.lengthInSequenceSpace = 0) (hroom : s.nextSeqno < windowEdge s) :
    s.stream.bufferSize = 0 ∧ (s.stream.inputEnded = true → s.finSent = true) := by
  rw [nextSegment_length] at hlen
  have hnosyn : s.nextSeqno ≠ 0 := by
    intro hzero
    rw [if_pos ((h.nextSyn_iff hguard).mpr hzero)] at hlen
    omega
  have hpos : 0 < s.payloadRoom := by
    rw [payloadRoom_eq h hguard]
    unfold dataRoom TCPConfig.maxPayloadSize
    rw [if_neg hnosyn]
    omega
  have hread := h.nextPayload_length
  have hsize : s.stream.curSize = 0 := by omega
  refine ⟨hsize, ?_⟩
  intro hended
  rw [if_pos (h.nextFin_of_empty hended hsize hpos)] at hlen
  omega

/-- Where no round sends, the window is exhausted. -/
theorem exhausted_of_not_sends (h : Sane s) (hstop : ¬ Sends s) : Exhausted s := by
  by_cases hguard : s.nextSeqno ≤ s.absAckno + s.windowSize
  · cases hfin : s.finSent with
    | true =>
      right
      simp only [finSent, ByteStream.eof, ByteStream.bufferEmpty, Bool.and_eq_true,
        beq_iff_eq] at hfin
      exact ⟨hfin.1.2, fun _ => by simp [finSent, ByteStream.eof, ByteStream.bufferEmpty, hfin]⟩
    | false =>
      have hlen : s.nextSegment.lengthInSequenceSpace = 0 := by
        by_contra hne
        exact hstop ⟨hguard, hfin, Nat.pos_of_ne_zero hne⟩
      by_cases hedge : windowEdge s ≤ s.nextSeqno
      · exact Or.inl hedge
      · exact Or.inr (exhausted_of_empty h hguard hlen (Nat.lt_of_not_le hedge))
  · left
    unfold windowEdge
    omega

end Loop

/-- What is asked of a call of `fill_window`: the loop ends, no difference is cut, and
the window is used as far as there is something to send. -/
structure FillsUp (w : Wire) : Prop where
  ends : ∃ rounds, Loop w.sender rounds (w.step .fillWindow).sender ∧
    ∀ t ∈ rounds, ∀ n ∈ differences t, 0 ≤ n ∧ n < 2 ^ 16
  maximal : windowEdge (w.step .fillWindow).sender ≤ (w.step .fillWindow).sender.nextSeqno ∨
    (w.step .fillWindow).sender.stream.bufferSize = 0 ∧
      ((w.step .fillWindow).sender.stream.inputEnded = true →
        ∃ e ∈ (w.step .fillWindow).firsts, e.segment.header.fin = true)

/-- In every state a sender can reach, whatever has been acknowledged and advertised. -/
theorem fill_window_fills_up (capacity : ℕ) (rto : UInt16) (fixedIsn : Option WrappingInt32)
    (random : WrappingInt32) (ops : List SenderOp)
    (hv : machine.Valid (Wire.new (TCPSender.new capacity rto fixedIsn random)) ops) :
    FillsUp (machine.exec (Wire.new (TCPSender.new capacity rto fixedIsn random)) ops) := by
  have hrecorded := recorded_of_run capacity rto fixedIsn random hv
  generalize machine.exec _ ops = w at hrecorded ⊢
  have hsane := hrecorded.books.sane
  refine ⟨loop_fillWindow hsane, ?_⟩
  have hafter := (hrecorded.step .fillWindow trivial).books
  have hstop : ¬ Sends (w.step .fillWindow).sender := hrecorded.books.ordered.fillWindow.2.2
  rcases exhausted_of_not_sends hafter.sane hstop with hedge | ⟨hempty, hfin⟩
  · exact Or.inl hedge
  · exact Or.inr ⟨hempty, fun hended => hafter.finSent_iff.mp (hfin hended)⟩

/-- Three bytes are in flight when the peer shrinks its window to one. -/
theorem fill_window_fills_up_shrunk :
    FillsUp (machine.exec (Wire.new (TCPSender.new 4 1000 (some ⟨7⟩) ⟨0⟩))
      [.fillWindow, .ackReceived ⟨8⟩ 3, .write [1, 2, 3, 4], .fillWindow, .ackReceived ⟨8⟩ 1]) :=
  fill_window_fills_up 4 1000 (some ⟨7⟩) ⟨0⟩ _ (by decide)

end Sponge.WindowFill
