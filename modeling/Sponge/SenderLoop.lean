import Mathlib.Tactic.SplitIfs
import Sponge.TCPSender
import Sponge.Tiling

/-!
The two loops of the sender.
A round of `fillWindow` that sends a segment is `transmitNext`; the loop repeats it
as long as `Sends` holds and stops where it fails. Properties kept by a round are
kept by the loop. `eraseAcked` removes the fully acknowledged front of the list.
`Sane` is the little a round needs for its numbers to be what they seem.
-/
namespace Sponge.SenderLoop

open Words Tiling TCPSender

/-- A round of the loop gets to queue a segment. -/
def Sends (s : TCPSender) : Prop :=
  s.nextSeqno ≤ s.absAckno + s.windowSize ∧ s.finSent = false ∧
    0 < s.nextSegment.lengthInSequenceSpace

/-- A round that makes an empty segment has read nothing. -/
theorem streamAfter_of_empty {s : TCPSender} (hv : s.stream.Valid)
    (hempty : s.nextSegment.lengthInSequenceSpace = 0) : s.streamAfter = s.stream := by
  have hlen : s.nextPayload.length = 0 := by
    rw [nextSegment_length] at hempty
    omega
  have hread : min s.payloadRoom s.stream.curSize = 0 := by
    rw [← hv.read_length]
    exact hlen
  unfold streamAfter
  rw [hv.read_snd, hread, hv.popOutput_zero]

theorem setStream_self (s : TCPSender) {stream : ByteStream} (h : stream = s.stream) :
    { s with stream := stream } = s := by
  rw [h]

/-- The loop stops where no round sends. -/
theorem fillLoop_of_not_sends {s : TCPSender} (hv : s.stream.Valid) (h : ¬ Sends s) (fuel : ℕ) :
    fillLoop fuel s = s := by
  cases fuel with
  | zero => rfl
  | succ fuel =>
    unfold fillLoop
    split
    · rename_i hguard
      cases hfin : s.finSent with
      | true => rfl
      | false =>
        have hempty : s.nextSegment.lengthInSequenceSpace = 0 := by
          by_contra hne
          exact h ⟨hguard, hfin, Nat.pos_of_ne_zero hne⟩
        rw [if_neg Bool.false_ne_true, if_pos hempty]
        exact setStream_self s (streamAfter_of_empty hv hempty)
    · rfl

theorem fillLoop_of_sends {s : TCPSender} (h : Sends s) (fuel : ℕ) :
    fillLoop (fuel + 1) s = fillLoop fuel s.transmitNext := by
  obtain ⟨hguard, hfin, hpos⟩ := h
  rw [fillLoop, if_pos hguard, hfin, if_neg Bool.false_ne_true, if_neg (by omega)]

theorem streamAfter_valid {s : TCPSender} (hv : s.stream.Valid) : s.streamAfter.Valid :=
  hv.read_valid _

/-- The distance to the edge of the window shrinks with every round that sends. -/
theorem distance_transmitNext {s : TCPSender} (h : Sends s) :
    s.transmitNext.absAckno + s.transmitNext.windowSize + 1 - s.transmitNext.nextSeqno <
      s.absAckno + s.windowSize + 1 - s.nextSeqno := by
  obtain ⟨hguard, -, hpos⟩ := h
  change s.absAckno + s.windowSize + 1 - (s.nextSeqno + s.nextSegment.lengthInSequenceSpace) < _
  omega

/-- More fuel than the distance to the edge of the window changes nothing. -/
theorem fillLoop_fuel (fuel fuel' : ℕ) (s : TCPSender) (hv : s.stream.Valid)
    (h : s.absAckno + s.windowSize + 1 - s.nextSeqno ≤ fuel)
    (h' : s.absAckno + s.windowSize + 1 - s.nextSeqno ≤ fuel') :
    fillLoop fuel s = fillLoop fuel' s := by
  induction fuel generalizing fuel' s with
  | zero =>
    have hs : ¬ Sends s := by
      intro hs
      have := hs.1
      omega
    rw [fillLoop_of_not_sends hv hs, fillLoop_of_not_sends hv hs]
  | succ fuel ih =>
    by_cases hs : Sends s
    · have hless := distance_transmitNext hs
      obtain ⟨k, rfl⟩ : ∃ k, fuel' = k + 1 := ⟨fuel' - 1, by omega⟩
      rw [fillLoop_of_sends hs, fillLoop_of_sends hs]
      exact ih k s.transmitNext (streamAfter_valid hv) (by omega) (by omega)
    · rw [fillLoop_of_not_sends hv hs, fillLoop_of_not_sends hv hs]

theorem fillWindow_of_sends {s : TCPSender} (hv : s.stream.Valid) (h : Sends s) :
    s.fillWindow = s.transmitNext.fillWindow := by
  have hless := distance_transmitNext h
  have hdist : s.absAckno + s.windowSize + 1 - s.nextSeqno =
      (s.absAckno + s.windowSize - s.nextSeqno) + 1 := by
    have := h.1
    omega
  unfold fillWindow
  rw [hdist, fillLoop_of_sends h]
  exact fillLoop_fuel _ _ _ (streamAfter_valid hv) (by omega) (Nat.le_refl _)

theorem fillWindow_of_not_sends {s : TCPSender} (hv : s.stream.Valid) (h : ¬ Sends s) :
    s.fillWindow = s := fillLoop_of_not_sends hv h _

/-- The rule for `fillWindow`: what a round keeps holds at the end, where no round
sends any more. -/
theorem fillWindow_rule {P : TCPSender → Prop} (hvalid : ∀ s, P s → s.stream.Valid)
    (hround : ∀ s, P s → Sends s → P s.transmitNext) (s : TCPSender) (h : P s) :
    P s.fillWindow ∧ ¬ Sends s.fillWindow := by
  induction hd : s.absAckno + s.windowSize + 1 - s.nextSeqno using Nat.strong_induction_on
    generalizing s with
  | h d ih =>
    by_cases hs : Sends s
    · have hless := distance_transmitNext hs
      rw [fillWindow_of_sends (hvalid s h) hs]
      exact ih _ (by omega) s.transmitNext (hround s h hs) rfl
    · rw [fillWindow_of_not_sends (hvalid s h) hs]
      exact ⟨h, hs⟩

/-- What is left after `eraseAcked`: a suffix that still ends at the same place, starts
at or below the acknowledgment, and begins with a segment it does not cover. The timer
is untouched exactly when nothing was erased. -/
theorem eraseAcked_spec (ack rto : ℕ) (es : List OrderedSegment) (timer : Timer) {a b : ℕ}
    (h : Tiles OrderedSegment.seqno OrderedSegment.length a es b) (ha : a ≤ ack) :
    (∃ a', a' ≤ ack ∧ Tiles OrderedSegment.seqno OrderedSegment.length a'
        (eraseAcked ack rto es timer).1 b) ∧
      (∀ e rest, (eraseAcked ack rto es timer).1 = e :: rest → ack < e.seqno + e.length) ∧
      (eraseAcked ack rto es timer).1 <:+ es ∧
      ((eraseAcked ack rto es timer = (es, timer)) ∨
        ((eraseAcked ack rto es timer).2 = ⟨0, rto⟩ ∧
          (eraseAcked ack rto es timer).1.length < es.length)) := by
  induction es generalizing a timer with
  | nil => exact ⟨⟨a, ha, h⟩, by simp [eraseAcked], List.suffix_refl _, Or.inl rfl⟩
  | cons e rest ih =>
    obtain ⟨hpos, hlen, hrest⟩ := h
    by_cases hack : e.seqno + e.length ≤ ack
    · obtain ⟨htiles, hhead, hsuf, htimer⟩ := ih (timer.start rto) hrest (by omega)
      have heq : eraseAcked ack rto (e :: rest) timer = eraseAcked ack rto rest (timer.start rto) :=
        if_pos hack
      rw [heq]
      refine ⟨htiles, hhead, hsuf.trans (List.suffix_cons e rest), Or.inr ?_⟩
      rcases htimer with hsame | ⟨hstart, hless⟩
      · rw [hsame]
        exact ⟨rfl, by simp⟩
      · exact ⟨hstart, by simp only [List.length_cons]; omega⟩
    · have heq : eraseAcked ack rto (e :: rest) timer = (e :: rest, timer) := if_neg hack
      rw [heq]
      refine ⟨⟨a, ha, hpos, hlen, hrest⟩, ?_, List.suffix_refl _, Or.inl rfl⟩
      intro e' rest' hcons
      have hee : e = e' := (List.cons.inj hcons).1
      rw [← hee]
      omega

/-- There is something left to send: the SYN, unsent bytes, or the FIN. -/
def Pending (s : TCPSender) : Prop :=
  s.finSent = false ∧
    (s.nextSeqno = 0 ∨ 0 < s.stream.bufferSize ∨ s.stream.inputEnded = true)

instance (s : TCPSender) : Decidable (Pending s) := inferInstanceAs (Decidable (_ ∧ _))

/-- What the loop needs to count right, whatever has been written to the stream. -/
structure Sane (s : TCPSender) : Prop where
  stream_valid : s.stream.Valid
  window_lt : s.windowSize < 2 ^ 16
  ack_le : s.absAckno ≤ s.nextSeqno

namespace Sane

variable {s : TCPSender}

theorem bytesInFlight_eq (h : Sane s) : s.bytesInFlight = s.nextSeqno - s.absAckno :=
  wrapSub_of_le h.ack_le

/-- The room in the window while the loop runs. -/
theorem windowRoom_eq (h : Sane s) (hguard : s.nextSeqno ≤ s.absAckno + s.windowSize) :
    s.windowRoom = if s.windowSize = 0 then 1 else s.absAckno + s.windowSize - s.nextSeqno := by
  have hack := h.ack_le
  have hlt := h.window_lt
  unfold windowRoom
  rw [h.bytesInFlight_eq, wrapSub_of_le (by omega), Nat.mod_eq_of_lt (by omega)]
  by_cases hzero : s.windowSize = 0
  · rw [if_pos hzero, if_pos ⟨hzero, by omega⟩]
  · rw [if_neg hzero, if_neg (fun hboth => hzero hboth.1)]
    omega

/-- The SYN goes into the first segment and into no other. -/
theorem nextSyn_iff (h : Sane s) (hguard : s.nextSeqno ≤ s.absAckno + s.windowSize) :
    s.nextSyn = true ↔ s.nextSeqno = 0 := by
  have hack := h.ack_le
  unfold nextSyn
  rw [decide_eq_true_iff, h.windowRoom_eq hguard]
  constructor
  · exact fun hboth => hboth.1
  · intro hzero
    refine ⟨hzero, ?_⟩
    split <;> omega

theorem nextPayload_length (h : Sane s) :
    s.nextPayload.length = min s.payloadRoom s.stream.curSize := h.stream_valid.read_length _

theorem streamAfter_bytesRead (h : Sane s) :
    s.streamAfter.bytesRead = s.stream.bytesRead + s.nextPayload.length := by
  rw [h.nextPayload_length]
  unfold streamAfter
  rw [h.stream_valid.read_snd]
  change _ + min (min s.payloadRoom s.stream.curSize) s.stream.curSize = _
  rw [Nat.min_assoc, Nat.min_self]
  rfl

theorem streamAfter_curSize (h : Sane s) :
    s.streamAfter.curSize = s.stream.curSize - s.nextPayload.length := by
  have hle := Nat.min_le_right s.payloadRoom s.stream.curSize
  rw [h.nextPayload_length]
  unfold streamAfter
  rw [h.stream_valid.read_snd]
  change max 0 (wrapSub 64 _ _) = _
  rw [wrapSub_of_le hle]
  omega

theorem streamAfter_frame (h : Sane s) :
    s.streamAfter.bytesWritten = s.stream.bytesWritten ∧
      s.streamAfter.inputEnded = s.stream.inputEnded ∧ s.streamAfter.error = s.stream.error := by
  unfold streamAfter
  rw [h.stream_valid.read_snd]
  exact ⟨rfl, rfl, rfl⟩

theorem transmitNext (h : Sane s) : Sane s.transmitNext where
  stream_valid := streamAfter_valid h.stream_valid
  window_lt := h.window_lt
  ack_le := Nat.le_trans h.ack_le (Nat.le_add_right _ _)

/-- With nothing in flight there is room for a byte, once the SYN is out. -/
theorem payloadRoom_pos (h : Sane s) (hidle : s.absAckno = s.nextSeqno) (hne : s.nextSeqno ≠ 0) :
    0 < s.payloadRoom := by
  have hguard : s.nextSeqno ≤ s.absAckno + s.windowSize := by omega
  have hsyn := h.nextSyn_iff hguard
  have hpos : 0 < s.windowRoom := by
    rw [h.windowRoom_eq hguard]
    split <;> omega
  simp only [payloadRoom]
  rw [if_neg (fun hs => hne (hsyn.mp hs))]
  unfold TCPConfig.maxPayloadSize
  split <;> omega

/-- An ended stream that is empty leaves only the FIN to send. -/
theorem nextFin_of_empty (h : Sane s) (hend : s.stream.inputEnded = true)
    (hsize : s.stream.curSize = 0) (hroom : 0 < s.payloadRoom) : s.nextFin = true := by
  have hlen := h.nextPayload_length
  have hafter := h.streamAfter_curSize
  have hended := h.streamAfter_frame.2.1
  have heof : s.streamAfter.eof = true := by
    simp [ByteStream.eof, ByteStream.bufferEmpty, hended, hend, hafter, hsize]
  have hfinRoom : 0 < s.finRoom := by
    unfold finRoom
    split <;> omega
  simp [nextFin, heof, hfinRoom]

theorem pending_of_sends (h : Sane s) (hs : Sends s) : Pending s := by
  obtain ⟨hguard, hfin, hpos⟩ := hs
  refine ⟨hfin, ?_⟩
  by_contra hnone
  obtain ⟨hzero, hsize, hopen⟩ : s.nextSeqno ≠ 0 ∧ s.stream.curSize = 0 ∧
      ¬ s.stream.inputEnded = true := by
    unfold ByteStream.bufferSize at hnone
    refine ⟨fun hz => hnone (Or.inl hz), by omega, fun hi => hnone (Or.inr (Or.inr hi))⟩
  have hlen := h.nextPayload_length
  have hended := h.streamAfter_frame.2.1
  have hnosyn : ¬ s.nextSyn = true := fun hs => hzero ((h.nextSyn_iff hguard).mp hs)
  have hnofin : ¬ s.nextFin = true := by
    simp [nextFin, ByteStream.eof, hended, hopen]
  rw [nextSegment_length, if_neg hnosyn, if_neg hnofin] at hpos
  omega

/-- With nothing in flight the loop has room for a byte, so it sends what is pending. -/
theorem sends_iff_of_idle (h : Sane s) (hidle : s.absAckno = s.nextSeqno) :
    Sends s ↔ Pending s := by
  refine ⟨h.pending_of_sends, ?_⟩
  rintro ⟨hfin, hwork⟩
  have hguard : s.nextSeqno ≤ s.absAckno + s.windowSize := by omega
  have hlen := h.nextPayload_length
  refine ⟨hguard, hfin, ?_⟩
  rw [nextSegment_length]
  by_cases hzero : s.nextSeqno = 0
  · rw [if_pos ((h.nextSyn_iff hguard).mpr hzero)]
    omega
  have hpos := h.payloadRoom_pos hidle hzero
  by_cases hsize : s.stream.curSize = 0
  · have hend : s.stream.inputEnded = true := by
      unfold ByteStream.bufferSize at hwork
      rcases hwork with hz | hs | hi
      · exact absurd hz hzero
      · omega
      · exact hi
    rw [if_pos (h.nextFin_of_empty hend hsize hpos)]
    omega
  · omega

end Sane

end Sponge.SenderLoop
