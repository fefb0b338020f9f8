import Sponge.StreamQueue

/-!
The end of a byte stream.
The documentation says that no more bytes can be written once the input has ended, but
`write` does not look whether it has. So the end is final in exactly the runs in which every
later write has nothing to write or no room for it.
-/
namespace Sponge.StreamEnd

open Runs BoundedQueue ByteStream StreamQueue

/-- What the end of the input promises for a run. -/
structure Final (capacity : ℕ) (ops : List (Request UInt8)) : Prop where
  frozen : ∀ pre op, pre ++ [op] <+: ops → .close ∈ pre →
    (stream.exec (new capacity) (pre ++ [op])).bytesWritten ≤
      (stream.exec (new capacity) pre).bytesWritten
  refused : ∀ pre data, pre ++ [.write data] <+: ops → .close ∈ pre →
    ((stream.exec (new capacity) pre).write data).1 = 0
  stays : ∀ pre post, pre ++ post <+: ops → (stream.exec (new capacity) pre).eof = true →
    (stream.exec (new capacity) (pre ++ post)).eof = true

/-- The call does not write a byte. -/
def Silent (s : ByteStream) (op : Request UInt8) : Prop :=
  ∀ data, op = .write data → (s.write data).1 = 0

variable {s : ByteStream} {op : Request UInt8} {capacity : ℕ} {ops : List (Request UInt8)}

theorem write_fst_eq_zero_iff (h : s.Valid) (data : List UInt8) :
    (s.write data).1 = 0 ↔ data = [] ∨ s.bufferSize = s.maxCapacity := by
  have hsize := h.size_le
  have hroom := h.remainingCapacity_eq
  rw [← List.length_eq_zero_iff]
  simp only [write, bufferSize, hroom]
  omega

theorem write_of_silent {data : List UInt8} (h : (s.write data).1 = 0) : (s.write data).2 = s := by
  have hnone : min data.length s.remainingCapacity = 0 := h
  simp [write, hnone, copyBytes]

theorem step_bytesWritten (h : Silent s op) : (step s op).bytesWritten = s.bytesWritten := by
  cases op with
  | write data => exact congrArg bytesWritten (write_of_silent (h data rfl))
  | peek len => rfl
  | read len => rfl
  | pop len => rfl
  | close => rfl

theorem step_inputEnded (s : ByteStream) (op : Request UInt8) :
    (step s op).inputEnded = true ↔ s.inputEnded = true ∨ op = .close := by
  cases op with
  | close => exact iff_of_true rfl (Or.inr rfl)
  | write data => simp [step, write, inputEnded]
  | peek len => simp [step]
  | read len => simp [step, ByteStream.read, popOutput, inputEnded]
  | pop len => simp [step, popOutput, inputEnded]

theorem exec_inputEnded (s : ByteStream) (ops : List (Request UInt8)) :
    (stream.exec s ops).inputEnded = true ↔ s.inputEnded = true ∨ .close ∈ ops := by
  induction ops generalizing s with
  | nil => simp
  | cons op ops ih =>
    have hstep : (stream.step s op).inputEnded = true ↔ s.inputEnded = true ∨ op = .close :=
      step_inputEnded s op
    rw [Machine.exec_cons, ih, hstep, List.mem_cons, or_assoc, eq_comm (a := op)]

/-- A stream that is at its end has nothing to give away, so only a write could change that. -/
theorem step_eof (hvalid : s.Valid) (hallowed : Allows s op) (hsilent : Silent s op)
    (h : s.eof = true) : (step s op).eof = true := by
  obtain ⟨hended, hempty⟩ := (Bool.and_eq_true _ _).mp h
  have hnone : s.curSize = 0 := beq_iff_eq.mp hempty
  have hpopped : (s.popOutput 0).eof = true := by
    rw [hvalid.popOutput_zero]
    exact h
  cases op with
  | write data =>
    rw [step, write_of_silent (hsilent data rfl)]
    exact h
  | peek len => exact h
  | read len =>
    rw [step, hvalid.read_snd, hnone, Nat.min_zero]
    exact hpopped
  | pop len =>
    have hlen : len = 0 := Nat.le_zero.mp (hnone ▸ hallowed)
    rw [step, hlen]
    exact hpopped
  | close => exact (Bool.and_eq_true _ _).mpr ⟨rfl, hempty⟩

theorem exec_valid (hv : stream.Valid (new capacity) ops) :
    (stream.exec (new capacity) ops).Valid ∧
      (stream.exec (new capacity) ops).maxCapacity = capacity := by
  obtain ⟨-, -, hholds⟩ := (stream_simulates capacity).run (new_holds capacity) hv
  exact ⟨hholds.valid, hholds.capacity_eq⟩

theorem eof_stays (hsilent : ∀ pre op, pre ++ [op] <+: ops → .close ∈ pre →
      Silent (stream.exec (new capacity) pre) op)
    (hv : stream.Valid (new capacity) ops) (pre post : List (Request UInt8))
    (hpre : pre ++ post <+: ops) (heof : (stream.exec (new capacity) pre).eof = true) :
    (stream.exec (new capacity) (pre ++ post)).eof = true := by
  induction post generalizing pre with
  | nil =>
    rw [List.append_nil]
    exact heof
  | cons op post ih =>
    rw [List.append_cons] at hpre ⊢
    have hnext : pre ++ [op] <+: ops := (List.prefix_append _ _).trans hpre
    obtain ⟨hvpre, hop⟩ := stream.valid_of_snoc_prefix hv hnext
    have hclosed : .close ∈ pre := by
      have hended := ended_of_eof heof
      exact ((exec_inputEnded _ _).mp hended).resolve_left Bool.false_ne_true
    apply ih _ hpre
    rw [stream.exec_append]
    exact step_eof (exec_valid hvpre).1 hop (hsilent pre op hnext hclosed) heof

/-- The end of the input is final exactly if each write after it comes without bytes or to a
full buffer. -/
theorem end_final_iff (hv : stream.Valid (new capacity) ops) :
    Final capacity ops ↔ ∀ pre data, pre ++ [.write data] <+: ops → .close ∈ pre →
      data = [] ∨ (stream.exec (new capacity) pre).bufferSize = capacity := by
  have hsilent_iff : ∀ pre data, pre ++ [.write data] <+: ops →
      (((stream.exec (new capacity) pre).write data).1 = 0 ↔
        data = [] ∨ (stream.exec (new capacity) pre).bufferSize = capacity) := by
    intro pre data hpre
    obtain ⟨hvalid, hcapacity⟩ := exec_valid (stream.valid_of_snoc_prefix hv hpre).1
    rw [write_fst_eq_zero_iff hvalid, hcapacity]
  constructor
  · intro hfinal pre data hpre hclosed
    exact (hsilent_iff pre data hpre).mp (hfinal.refused pre data hpre hclosed)
  · intro hwrites
    have hsilent : ∀ pre op, pre ++ [op] <+: ops → .close ∈ pre →
        Silent (stream.exec (new capacity) pre) op := by
      rintro pre op hpre hclosed data rfl
      exact (hsilent_iff pre data hpre).mpr (hwrites pre data hpre hclosed)
    refine ⟨?_, ?_, eof_stays hsilent hv⟩
    · intro pre op hpre hclosed
      rw [stream.exec_append]
      exact Nat.le_of_eq (step_bytesWritten (hsilent pre op hpre hclosed))
    · intro pre data hpre hclosed
      exact hsilent pre _ hpre hclosed data rfl

/-- The write after the end finds a full buffer. -/
theorem end_final_full : Final 2 [.write [1, 2], .close, .write [3], .read 1] := by
  refine (end_final_iff (by decide)).mpr ?_
  intro pre data hpre hclosed
  obtain ⟨rest, hrest⟩ := hpre
  match pre, hrest with
  | [], _ => simp at hclosed
  | [_], h => simp at h
  | [_, _], h =>
    simp only [List.cons_append, List.nil_append, List.cons.injEq] at h
    obtain ⟨rfl, rfl, -⟩ := h
    exact Or.inr (by decide)
  | [_, _, _], h => simp at h
  | _ :: _ :: _ :: _ :: _, h => simp at h

/-- A byte is written after the end has been reached, and the end is gone. -/
theorem written_after_end :
    let s := stream.exec (new 1) [.close]
    s.eof = true ∧ (s.write [7]).1 = 1 ∧ (s.write [7]).2.bytesWritten = s.bytesWritten + 1 ∧
      (s.write [7]).2.eof = false := by
  decide

end Sponge.StreamEnd
