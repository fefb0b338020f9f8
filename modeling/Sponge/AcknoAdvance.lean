import Sponge.Runs
import Sponge.TCPReceiver

/-!
How the acknowledgment number of a receiver moves, for arbitrary segments.
A push only adds to the output, so the number advances with the bytes written and the
end of the stream, as long as the ISN it counts from stays. Every SYN sets the ISN
anew: the number moves as it should exactly if all SYNs carry one sequence number.
-/
namespace Sponge.AcknoAdvance

open Reassembly

inductive Op where
  | deliver (seg : TCPSegment)
  | read (len : ℕ)
  | pop (len : ℕ)
  deriving DecidableEq

def step (r : TCPReceiver) : Op → TCPReceiver
  | .deliver seg => r.segmentReceived seg
  | .read len => r.setOutput (r.streamOut.read len).2
  | .pop len => r.setOutput (r.streamOut.popOutput len)

/-- The calls of a receiver and its reader, with no condition on them. -/
def calls : Runs.Machine TCPReceiver Op := .total step

theorem calls_step (r : TCPReceiver) (op : Op) : calls.step r op = step r op := rfl

/-- The bytes that a call wrote, and one more if it ended the stream. -/
def gained (r r' : TCPReceiver) : ℕ :=
  r'.streamOut.bytesWritten - r.streamOut.bytesWritten +
    (if r'.streamOut.inputEnded && !r.streamOut.inputEnded then 1 else 0)

/-- The call moves the acknowledgment number by what it gained and by nothing else. -/
structure Advances (r : TCPReceiver) (seg : TCPSegment) : Prop where
  isn_eq : (r.segmentReceived seg).isn = r.isn
  written_le : r.streamOut.bytesWritten ≤ (r.segmentReceived seg).streamOut.bytesWritten
  ackno_eq : (r.segmentReceived seg).ackno = r.ackno.map (wrap (gained r (r.segmentReceived seg)))

section Step

variable {r : TCPReceiver} {seg : TCPSegment}

theorem segmentReceived_synReceived (r : TCPReceiver) (seg : TCPSegment) :
    (r.segmentReceived seg).synReceived = (r.synReceived || seg.header.syn) := by
  unfold TCPReceiver.segmentReceived TCPReceiver.noteSyn
  cases hsyn : seg.header.syn <;> cases hrec : r.synReceived <;> simp [hrec]

theorem segmentReceived_isn (r : TCPReceiver) (seg : TCPSegment) :
    (r.segmentReceived seg).isn = if seg.header.syn then seg.header.seqno else r.isn := by
  unfold TCPReceiver.segmentReceived TCPReceiver.noteSyn
  cases hsyn : seg.header.syn <;> cases hrec : r.synReceived <;> simp [hrec]

/-- All that a segment does to the stream: bytes are written and the input ends. -/
theorem segmentReceived_output_rule {P : ByteStream → Prop} (seg : TCPSegment)
    (h : P r.streamOut) (hwrite : ∀ out bytes, P out → P (out.write bytes).2)
    (hend : ∀ out, P out → P out.endInput) : P (r.segmentReceived seg).streamOut := by
  have hnoted : P (r.noteSyn seg).streamOut := by
    unfold TCPReceiver.streamOut
    rw [TCPReceiver.noteSyn_reassembler]
    exact h
  unfold TCPReceiver.segmentReceived
  dsimp only
  split
  · exact hnoted
  · exact pushSubstring_output_rule _ _ _ hnoted hwrite hend

theorem segmentReceived_written_le (r : TCPReceiver) (seg : TCPSegment) :
    r.streamOut.bytesWritten ≤ (r.segmentReceived seg).streamOut.bytesWritten := by
  apply segmentReceived_output_rule seg (P := fun out => _ ≤ out.bytesWritten)
  · exact Nat.le_refl _
  · intro out bytes h
    exact Nat.le_trans h (Nat.le_add_right _ _)
  · intro out h
    exact h

/-- An ended stream stays ended. -/
theorem segmentReceived_ended (seg : TCPSegment) (h : r.streamOut.inputEnded = true) :
    (r.segmentReceived seg).streamOut.inputEnded = true := by
  apply segmentReceived_output_rule seg (P := fun out => out.inputEnded = true)
  · exact h
  · intro out bytes h
    exact h
  · intro out h
    rfl

/-- With the ISN of before, the number would move as it should in any case. -/
theorem advanced_eq (r : TCPReceiver) (seg : TCPSegment) :
    r.streamOut.bytesWritten + 1 + (if r.streamOut.inputEnded then 1 else 0) +
        gained r (r.segmentReceived seg) =
      (r.segmentReceived seg).streamOut.bytesWritten + 1 +
        (if (r.segmentReceived seg).streamOut.inputEnded then 1 else 0) := by
  have hle := segmentReceived_written_le r seg
  unfold gained
  cases hend : r.streamOut.inputEnded with
  | true =>
    rw [segmentReceived_ended seg hend]
    simp only [Bool.not_true, Bool.and_false, if_true, if_false, Bool.false_eq_true]
    omega
  | false =>
    simp only [Bool.not_false, Bool.and_true, if_false, Bool.false_eq_true]
    omega

theorem advances_iff (hsyn : r.synReceived = true) :
    Advances r seg ↔ (seg.header.syn = true → seg.header.seqno = r.isn) := by
  constructor
  · intro h hseg
    have hisn := h.isn_eq
    rwa [segmentReceived_isn, if_pos hseg] at hisn
  · intro hseg
    have hisn : (r.segmentReceived seg).isn = r.isn := by
      rw [segmentReceived_isn]
      split
      · exact hseg ‹_›
      · rfl
    refine ⟨hisn, segmentReceived_written_le r seg, ?_⟩
    unfold TCPReceiver.ackno
    rw [segmentReceived_synReceived, hsyn, hisn, ← advanced_eq r seg]
    simp only [Bool.true_or, if_true, Option.map_some, wrap_wrap]

end Step

/-- All SYNs of a run carry one sequence number. -/
def SynsAgree (ops : List Op) : Prop :=
  ∀ seg seg', .deliver seg ∈ ops → .deliver seg' ∈ ops → seg.header.syn = true →
    seg'.header.syn = true → seg.header.seqno = seg'.header.seqno

/-- Once there is an acknowledgment number, every call moves it as it should. -/
def Advancing (r : TCPReceiver) (ops : List Op) : Prop :=
  ∀ before seg after, ops = before ++ .deliver seg :: after →
    (calls.exec r before).ackno.isSome = true → Advances (calls.exec r before) seg

section Run

variable {capacity : ℕ} {ops : List Op}

theorem ackno_isSome (r : TCPReceiver) : r.ackno.isSome = r.synReceived := by
  unfold TCPReceiver.ackno
  cases r.synReceived <;> rfl

/-- The ISN is that of some SYN received. -/
theorem isn_of_syn (capacity : ℕ) (ops : List Op)
    (h : (calls.exec (TCPReceiver.new capacity) ops).synReceived = true) :
    ∃ seg, .deliver seg ∈ ops ∧ seg.header.syn = true ∧
      seg.header.seqno = (calls.exec (TCPReceiver.new capacity) ops).isn := by
  induction ops using List.reverseRecOn with
  | nil => exact absurd h (by simp [TCPReceiver.new])
  | append_singleton ops op ih =>
    rw [Runs.Machine.exec_snoc, calls_step] at h ⊢
    have hearlier : (calls.exec (TCPReceiver.new capacity) ops).synReceived = true →
        ∃ seg, .deliver seg ∈ ops ++ [op] ∧ seg.header.syn = true ∧
          seg.header.seqno = (calls.exec (TCPReceiver.new capacity) ops).isn := by
      intro hsyn
      obtain ⟨seg, hmem, hseg, hisn⟩ := ih hsyn
      exact ⟨seg, List.mem_append_left _ hmem, hseg, hisn⟩
    cases op with
    | deliver seg =>
      simp only [step, segmentReceived_synReceived, segmentReceived_isn] at h ⊢
      cases hseg : seg.header.syn with
      | true => exact ⟨seg, by simp, hseg, by simp⟩
      | false =>
        rw [hseg, Bool.or_false] at h
        simpa using hearlier h
    | read len => exact hearlier h
    | pop len => exact hearlier h

/-- As long as every call moves the number as it should, the ISN is that of every SYN. -/
theorem syn_of_advancing (h : Advancing (TCPReceiver.new capacity) ops) (seg : TCPSegment)
    (hmem : .deliver seg ∈ ops) (hseg : seg.header.syn = true) :
    (calls.exec (TCPReceiver.new capacity) ops).synReceived = true ∧
      seg.header.seqno = (calls.exec (TCPReceiver.new capacity) ops).isn := by
  induction ops using List.reverseRecOn generalizing seg with
  | nil => simp at hmem
  | append_singleton ops op ih =>
    have hinit : Advancing (TCPReceiver.new capacity) ops := by
      intro before s after heq
      exact h before s (after ++ [op]) (by simp [heq])
    rw [Runs.Machine.exec_snoc, calls_step]
    cases op with
    | deliver last =>
      have hlast := h ops last [] rfl
      rw [ackno_isSome] at hlast
      simp only [step, segmentReceived_synReceived, segmentReceived_isn]
      rcases List.mem_append.mp hmem with hold | hnew
      · obtain ⟨hsyn, hisn⟩ := ih hinit seg hold hseg
        have hsame := (advances_iff hsyn).mp (hlast hsyn)
        refine ⟨by simp [hsyn], ?_⟩
        split
        · rename_i hlastsyn
          rw [hisn, hsame hlastsyn]
        · exact hisn
      · have heq : seg = last := by simpa using hnew
        subst heq
        simp [hseg]
    | read len => exact ih hinit seg (by simpa using hmem) hseg
    | pop len => exact ih hinit seg (by simpa using hmem) hseg

/-- Over any run, the acknowledgment number moves as it should exactly if all SYNs agree
on the sequence number. -/
theorem ackno_advances_iff_syns_agree (capacity : ℕ) (ops : List Op) :
    Advancing (TCPReceiver.new capacity) ops ↔ SynsAgree ops := by
  constructor
  · intro h seg seg' hmem hmem' hsyn hsyn'
    rw [(syn_of_advancing h seg hmem hsyn).2, (syn_of_advancing h seg' hmem' hsyn').2]
  · intro h before seg after heq hsome
    rw [ackno_isSome] at hsome
    rw [advances_iff hsome]
    intro hseg
    obtain ⟨first, hfirst, hfirstsyn, hisn⟩ := isn_of_syn capacity before hsome
    rw [← hisn]
    apply h
    · simp [heq]
    · simp [heq, hfirst]
    · exact hseg
    · exact hfirstsyn

/-- A second SYN with another sequence number moves the number from 8 to 4, though
nothing was written. -/
theorem second_syn_moves_ackno :
    let first : TCPSegment := ⟨{ seqno := ⟨7⟩, syn := true }, []⟩
    let second : TCPSegment := ⟨{ seqno := ⟨3⟩, syn := true }, []⟩
    let r := (TCPReceiver.new 1).segmentReceived first
    r.ackno = some ⟨8⟩ ∧ (r.segmentReceived second).ackno = some ⟨4⟩ ∧
      gained r (r.segmentReceived second) = 0 := by
  decide

end Run

end Sponge.AcknoAdvance
