import Sponge.SenderQueue

/-!
When `fill_window` stays inside the advertised window.
The window ends `max(window_size, 1)` sequence numbers past the acknowledgment. A
payload of full size is taken to leave room for the FIN, also when the payload has
just filled the window. So the FIN passes the edge exactly when the input has ended
and the unsent bytes fill the window in payloads of full size.
-/
namespace Sponge.SenderWindow

open SenderLoop SenderQueue TCPSender

/-- The first sequence number past the window, a closed window counting as one. -/
def windowEdge (s : TCPSender) : ℕ := s.absAckno + max s.windowSize 1

/-- The sequence numbers up to an edge that are left for data. -/
def dataRoom (s : TCPSender) (edge : ℕ) : ℕ :=
  edge - s.nextSeqno - (if s.nextSeqno = 0 then 1 else 0)

/-- The input has ended and the unsent bytes fill the window in full payloads. -/
def Overshoots (s : TCPSender) (edge : ℕ) : Prop :=
  s.stream.inputEnded = true ∧ 0 < s.stream.bufferSize ∧ s.stream.bufferSize = dataRoom s edge ∧
    TCPConfig.maxPayloadSize ∣ s.stream.bufferSize

instance (s : TCPSender) (edge : ℕ) : Decidable (Overshoots s edge) :=
  inferInstanceAs (Decidable (_ ∧ _))

section Round

variable {s : TCPSender}

theorem payloadRoom_eq (h : Sane s) (hguard : s.nextSeqno ≤ s.absAckno + s.windowSize) :
    s.payloadRoom = min TCPConfig.maxPayloadSize (dataRoom s (windowEdge s)) := by
  have hroom := h.windowRoom_eq hguard
  have hsyn := h.nextSyn_iff hguard
  have hack := h.ack_le
  have hedge : s.windowRoom = windowEdge s - s.nextSeqno := by
    unfold windowEdge
    by_cases hzero : s.windowSize = 0
    · rw [if_pos hzero] at hroom
      omega
    · rw [if_neg hzero] at hroom
      omega
  simp only [payloadRoom, dataRoom, hedge]
  by_cases hnext : s.nextSeqno = 0
  · rw [if_pos (hsyn.mpr hnext), if_pos hnext]
    split <;> omega
  · rw [if_neg (fun hs => hnext (hsyn.mp hs)), if_neg hnext]
    split <;> omega

theorem windowEdge_transmitNext (s : TCPSender) : windowEdge s.transmitNext = windowEdge s := rfl

/-- The numbers of one round: how much it sends, and whether the FIN goes along. -/
structure RoundCount (s : TCPSender) (k : ℕ) : Prop where
  payload : k = min (min TCPConfig.maxPayloadSize (dataRoom s (windowEdge s))) s.stream.curSize
  next : s.transmitNext.nextSeqno = s.nextSeqno + k + (if s.nextSeqno = 0 then 1 else 0) +
    (if s.nextFin then 1 else 0)
  size : s.transmitNext.stream.curSize = s.stream.curSize - k
  room : s.nextSeqno + (if s.nextSeqno = 0 then 1 else 0) + dataRoom s (windowEdge s) = windowEdge s
  fin : s.nextFin = true ↔ s.stream.inputEnded = true ∧ k = s.stream.curSize ∧
    (k < dataRoom s (windowEdge s) ∨ TCPConfig.maxPayloadSize ≤ dataRoom s (windowEdge s))

theorem roundCount (h : Sane s) (hs : Sends s) : RoundCount s s.nextPayload.length := by
  have hroom := payloadRoom_eq h hs.1
  have hlen := h.nextPayload_length
  have hsyn := h.nextSyn_iff hs.1
  have hguard := hs.1
  have hack := h.ack_le
  have hif : (if s.nextSyn then 1 else 0 : ℕ) = if s.nextSeqno = 0 then 1 else 0 := by
    by_cases hz : s.nextSeqno = 0
    · rw [if_pos hz, if_pos (hsyn.mpr hz)]
    · rw [if_neg hz, if_neg (fun hy => hz (hsyn.mp hy))]
  refine ⟨by rw [hlen, hroom], ?_, h.streamAfter_curSize, ?_, ?_⟩
  · change s.nextSeqno + s.nextSegment.lengthInSequenceSpace = _
    rw [nextSegment_length, hif]
    omega
  · unfold dataRoom windowEdge
    split <;> omega
  · have hsize := h.streamAfter_curSize
    have hended := h.streamAfter_frame.2.1
    unfold nextFin finRoom ByteStream.eof ByteStream.bufferEmpty
    rw [hended, Bool.and_eq_true, Bool.and_eq_true, beq_iff_eq, decide_eq_true_eq, hsize, hroom]
    unfold TCPConfig.maxPayloadSize at *
    constructor
    · intro hall
      obtain ⟨⟨hend, hempty⟩, hfin⟩ := hall
      refine ⟨hend, by omega, ?_⟩
      split at hfin <;> omega
    · intro hall
      obtain ⟨hend, hk, hor⟩ := hall
      refine ⟨⟨hend, by omega⟩, ?_⟩
      split <;> omega

/-- One round: the defect shows in this segment or in what is left. -/
theorem overshoots_round (h : Sane s) (hs : Sends s) :
    Overshoots s (windowEdge s) ↔ windowEdge s < s.transmitNext.nextSeqno ∨
      Overshoots s.transmitNext (windowEdge s) := by
  have hc := roundCount h hs
  obtain ⟨hk, hnext, hsize, hroom, hfin⟩ := hc
  have hended : s.transmitNext.stream.inputEnded = s.stream.inputEnded :=
    h.streamAfter_frame.2.1
  have hpos : 0 < s.nextSegment.lengthInSequenceSpace := hs.2.2
  have hgrow : s.transmitNext.nextSeqno = s.nextSeqno + s.nextSegment.lengthInSequenceSpace := rfl
  have hroom' : dataRoom s.transmitNext (windowEdge s) =
      windowEdge s - s.transmitNext.nextSeqno := by
    unfold dataRoom
    rw [if_neg (by omega), Nat.sub_zero]
  unfold Overshoots ByteStream.bufferSize
  rw [hended, hroom', hsize]
  generalize s.nextPayload.length = k at *
  unfold TCPConfig.maxPayloadSize at *
  constructor
  · intro hover
    obtain ⟨hend, hp, heq, hdvd⟩ := hover
    by_cases hlast : s.stream.curSize = 1000
    · left
      rw [hfin.mpr ⟨hend, by omega, by omega⟩, if_pos rfl] at hnext
      omega
    · right
      have hno : ¬ s.nextFin = true := by
        rw [hfin]
        omega
      rw [if_neg hno] at hnext
      exact ⟨hend, by omega, by omega, by omega⟩
  · intro hover
    rcases hover with hpast | ⟨hend, hp, heq, hdvd⟩
    · have hyes : s.nextFin = true := by
        by_contra hno
        rw [if_neg hno] at hnext
        omega
      rw [if_pos hyes] at hnext
      obtain ⟨hend, hk', hor⟩ := hfin.mp hyes
      refine ⟨hend, by omega, by omega, ?_⟩
      exact ⟨1, by omega⟩
    · have hno : ¬ s.nextFin = true := by
        rw [hfin]
        omega
      rw [if_neg hno] at hnext
      exact ⟨hend, by omega, by omega, by omega⟩

/-- Where the defect lies ahead, a round does send. -/
theorem sends_of_overshoots (h : Sane s) (hover : Overshoots s (windowEdge s)) :
    Sends s := by
  obtain ⟨hend, hpos, heq, hdvd⟩ := hover
  have hack := h.ack_le
  unfold ByteStream.bufferSize at *
  have hguard : s.nextSeqno ≤ s.absAckno + s.windowSize := by
    unfold dataRoom windowEdge at heq
    omega
  refine ⟨hguard, ?_, ?_⟩
  · have hne : ¬ s.stream.curSize = 0 := by omega
    simp [finSent, ByteStream.eof, ByteStream.bufferEmpty, hne]
  · have hlen := h.nextPayload_length
    rw [payloadRoom_eq h hguard] at hlen
    rw [nextSegment_length]
    unfold TCPConfig.maxPayloadSize at hlen
    omega

/-- The segments of a call stay within the window exactly where it does not overshoot. -/
theorem fillWindow_within_iff (h : Ordered s) :
    (∀ e ∈ s.fillWindow.outstandingSegments, s.nextSeqno ≤ e.seqno →
      e.seqno + e.length ≤ windowEdge s) ↔ ¬ Overshoots s (windowEdge s) := by
  induction hd : s.absAckno + s.windowSize + 1 - s.nextSeqno using Nat.strong_induction_on
    generalizing s with
  | h d ih =>
    by_cases hs : Sends s
    · have hless := distance_transmitNext hs
      have hrest := ih _ (by omega) (h.transmitNext hs) rfl
      obtain ⟨-, ⟨fresh, hfilled⟩, -⟩ := (h.transmitNext hs).fillWindow
      have hpos : 0 < s.nextSegment.lengthInSequenceSpace := hs.2.2
      have hnext : s.transmitNext.nextSeqno =
        s.nextSeqno + s.nextSegment.lengthInSequenceSpace := rfl
      have hout : s.transmitNext.fillWindow.outstandingSegments =
          s.outstandingSegments ++ (⟨s.nextSeqno, s.nextSegment⟩ :: fresh) := by
        rw [hfilled.outstanding_eq]
        exact List.append_assoc _ [_] _
      rw [fillWindow_of_sends h.sane.stream_valid hs, overshoots_round h.sane hs, not_or,
        ← windowEdge_transmitNext, ← hrest, hout]
      constructor
      · intro hall
        refine ⟨?_, ?_⟩
        · exact Nat.not_lt.mpr (hall ⟨s.nextSeqno, s.nextSegment⟩ (by simp) (Nat.le_refl _))
        · intro e he hge
          exact hall e he (by omega)
      · intro hall e he hge
        obtain ⟨hfirst, hlater⟩ := hall
        by_cases hlate : s.transmitNext.nextSeqno ≤ e.seqno
        · exact hlater e he hlate
        · rcases List.mem_append.mp he with hold | hnew
          · have := (h.below hold).2
            omega
          · rcases List.mem_cons.mp hnew with rfl | hmem
            · exact Nat.not_lt.mp hfirst
            · have := (hfilled.tiles.bounds hmem).1
              omega
    · rw [fillWindow_of_not_sends h.sane.stream_valid hs]
      have hover : ¬ Overshoots s (windowEdge s) := fun ho => hs (sends_of_overshoots h.sane ho)
      refine iff_of_true ?_ hover
      intro e he hge
      have := (h.below he).2
      omega

end Round

section Runs

/-- Every segment this call sends for the first time ends within the window in force. -/
def RespectsWindow (s : TCPSender) (op : SenderOp) : Prop :=
  ∀ e ∈ (s.apply op).outstandingSegments, s.nextSeqno ≤ e.seqno →
    e.seqno + e.length ≤ windowEdge (s.apply op)

/-- The edge of the window under which a call runs `fill_window`, if it does. -/
def fillEdge (s : TCPSender) : SenderOp → Option ℕ
  | .fillWindow => some (windowEdge s)
  | .ackReceived ackno windowSize =>
    let ack := unwrap ackno s.isn s.absAckno
    if s.absAckno < ack ∧ ack ≤ s.nextSeqno then some (ack + max windowSize.toNat 1) else none
  | _ => none

/-- No call overshoots: a condition on the state before it and its arguments. -/
def FillsExactly (s : TCPSender) (op : SenderOp) : Prop :=
  ∀ edge ∈ fillEdge s op, ¬ Overshoots s edge

variable {s : TCPSender}

theorem fillsExactly_of_none {op : SenderOp} (h : fillEdge s op = none) : FillsExactly s op := by
  intro edge hedge
  rw [h] at hedge
  simp at hedge

theorem fillsExactly_of_some {op : SenderOp} {edge : ℕ} (h : fillEdge s op = some edge) :
    FillsExactly s op ↔ ¬ Overshoots s edge := by
  unfold FillsExactly
  simp [h]

theorem respectsWindow_fillWindow (h : Ordered s) :
    RespectsWindow s .fillWindow ↔ FillsExactly s .fillWindow := by
  obtain ⟨-, ⟨fresh, hfilled⟩, -⟩ := h.fillWindow
  have hedge : windowEdge s.fillWindow = windowEdge s := by
    unfold windowEdge
    rw [hfilled.absAckno_eq, hfilled.windowSize_eq]
  rw [fillsExactly_of_some rfl, ← fillWindow_within_iff h]
  unfold RespectsWindow TCPSender.apply
  rw [hedge]

/-- A call that sends nothing new respects the window. -/
theorem respectsWindow_of_quiet (h : Ordered s) {op : SenderOp}
    (hout : (s.apply op).outstandingSegments = s.outstandingSegments) : RespectsWindow s op := by
  intro e he hge
  rw [hout] at he
  have := (h.below he).2
  omega

theorem respectsWindow_ackReceived (h : Ordered s) (ackno : WrappingInt32) (win : UInt16) :
    RespectsWindow s (.ackReceived ackno win) ↔ FillsExactly s (.ackReceived ackno win) := by
  rcases ackReceived_cases s ackno win with ⟨hbad, heq⟩ | ⟨ack, hack, hlo, hhi, heq⟩
  · refine iff_of_true (respectsWindow_of_quiet h ?_) (fillsExactly_of_none (if_neg hbad))
    change (s.ackReceived ackno win).outstandingSegments = _
    rw [heq]
  · have hord := (h.setWindow win.toNat_lt).acknowledge hlo hhi
    have hsome : fillEdge s (.ackReceived ackno win) = some (ack + max win.toNat 1) := by
      rw [hack] at hlo hhi ⊢
      exact if_pos ⟨hlo, hhi⟩
    rw [fillsExactly_of_some hsome]
    refine Iff.trans ?_ (respectsWindow_fillWindow hord |>.trans (fillsExactly_of_some rfl))
    unfold RespectsWindow
    rw [show s.apply (.ackReceived ackno win) = _ from heq]
    exact Iff.rfl

/-- A call respects the window exactly where it does not overshoot. -/
theorem respectsWindow_iff (h : Ordered s) (op : SenderOp) :
    RespectsWindow s op ↔ FillsExactly s op := by
  cases op with
  | fillWindow => exact respectsWindow_fillWindow h
  | ackReceived ackno win => exact respectsWindow_ackReceived h ackno win
  | tick ms =>
    have hout := (tick_cases s ms).1.outstanding_eq
    exact iff_of_true (respectsWindow_of_quiet h hout) (fillsExactly_of_none rfl)
  | write data => exact iff_of_true (respectsWindow_of_quiet h rfl) (fillsExactly_of_none rfl)
  | endInput => exact iff_of_true (respectsWindow_of_quiet h rfl) (fillsExactly_of_none rfl)
  | setError => exact iff_of_true (respectsWindow_of_quiet h rfl) (fillsExactly_of_none rfl)
  | sendEmptySegment => exact iff_of_true (respectsWindow_of_quiet h rfl) (fillsExactly_of_none rfl)
  | popSegment => exact iff_of_true (respectsWindow_of_quiet h rfl) (fillsExactly_of_none rfl)

/-- Along every run of the sender, the calls that keep to the advertised window are those
that do not meet an ended input whose unsent bytes fill the window in full payloads. -/
theorem window_respected_iff (capacity : ℕ) (rto : UInt16) (fixedIsn : Option WrappingInt32)
    (random : WrappingInt32) (ops : List SenderOp) :
    let s₀ := new capacity rto fixedIsn random
    (∀ pre op, pre ++ [op] <+: ops → RespectsWindow (calls.exec s₀ pre) op) ↔
      ∀ pre op, pre ++ [op] <+: ops → FillsExactly (calls.exec s₀ pre) op := by
  intro s₀
  have hord : ∀ pre, Ordered (calls.exec s₀ pre) := (new_ordered capacity rto fixedIsn random).run
  constructor
  · intro hall pre op hpre
    exact (respectsWindow_iff (hord pre) op).mp (hall pre op hpre)
  · intro hall pre op hpre
    exact (respectsWindow_iff (hord pre) op).mpr (hall pre op hpre)

/-- Calls after which one full payload is unsent, the input has ended and the window has
room for just these bytes. -/
def fullPayload : List SenderOp :=
  [.fillWindow, .ackReceived ⟨1⟩ 1000, .write (List.replicate 1000 0), .endInput]

/-- The next call sends the FIN along, one sequence number past the window. -/
theorem fin_past_window :
    ¬ ∀ pre op, pre ++ [op] <+: fullPayload ++ [.fillWindow] →
      RespectsWindow (calls.exec (new 1000 1000 (some ⟨0⟩) ⟨0⟩) pre) op := by
  intro hall
  have hrespects := hall fullPayload .fillWindow (List.prefix_refl _)
  have hord := (new_ordered 1000 1000 (some ⟨0⟩) ⟨0⟩).run fullPayload
  have hnot := (respectsWindow_iff hord .fillWindow).mp hrespects
  exact hnot _ rfl (by decide +kernel)

end Runs

end Sponge.SenderWindow
