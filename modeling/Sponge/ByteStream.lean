import Sponge.Circular
import Sponge.Words

/-!
The byte stream: a ring buffer with a writer and a reader.
The bytes written and not yet read form a bounded queue. Under `Valid`, which
every operation keeps, a write appends what fits, and a read or a pop of at most
`bufferSize` bytes removes the front. `popOutput` past the end breaks `Valid`.
-/
namespace Sponge

open Words Circular

/-- `buffer` has `maxCapacity` slots; `dataBegin` is the slot of the first unread byte. -/
structure ByteStream where
  doneWriting : Bool
  buffer : List UInt8
  dataBegin : ℕ
  nBytesRead : ℕ
  nBytesWritten : ℕ
  curSize : ℕ
  maxCapacity : ℕ
  error : Bool
  deriving DecidableEq, Repr

namespace ByteStream

/-- The capacity is meant to be positive: the source divides by it whenever bytes are taken,
also none, and traps if it is 0. The remainder by 0 is the number itself here, so what
is proved about a stream of capacity 0 is about one that is never read from. -/
def new (capacity : ℕ) : ByteStream where
  doneWriting := false
  buffer := List.replicate capacity 0
  dataBegin := 0
  nBytesRead := 0
  nBytesWritten := 0
  curSize := 0
  maxCapacity := capacity
  error := false

def inputEnded (s : ByteStream) : Bool := s.doneWriting

def bufferSize (s : ByteStream) : ℕ := s.curSize

def bufferEmpty (s : ByteStream) : Bool := s.curSize == 0

def eof (s : ByteStream) : Bool := s.inputEnded && s.bufferEmpty

def bytesWritten (s : ByteStream) : ℕ := s.nBytesWritten

def bytesRead (s : ByteStream) : ℕ := s.nBytesRead

def remainingCapacity (s : ByteStream) : ℕ := wrapSub 64 s.maxCapacity s.curSize

def endInput (s : ByteStream) : ByteStream := { s with doneWriting := true }

def setError (s : ByteStream) : ByteStream := { s with error := true }

/-- The copying loop of `write`: the bytes go to the slots from `start` on. -/
def copyBytes (buffer : List UInt8) (start cap : ℕ) : List UInt8 → List UInt8
  | [] => buffer
  | b :: rest => copyBytes (buffer.set (start % cap) b) (start + 1) cap rest

/-- The input may have ended: `write` does not look at `doneWriting`. -/
def write (s : ByteStream) (data : List UInt8) : ℕ × ByteStream :=
  let nBytesToWrite := min data.length s.remainingCapacity
  (nBytesToWrite,
    { s with
      buffer := copyBytes s.buffer (s.dataBegin + s.curSize) s.maxCapacity
        (data.take nBytesToWrite)
      nBytesWritten := s.nBytesWritten + nBytesToWrite
      curSize := s.curSize + nBytesToWrite })

def peekOutput (s : ByteStream) (len : ℕ) : List UInt8 :=
  let lenRet := min len s.curSize
  if s.dataBegin + lenRet ≤ s.maxCapacity then
    (s.buffer.drop s.dataBegin).take lenRet
  else
    s.buffer.drop s.dataBegin ++ s.buffer.take ((s.dataBegin + lenRet) % s.maxCapacity)

/-- `max(0, cur_size - len)` is taken on unsigned words, so past the end of the
buffer the size wraps instead of stopping at 0. The division is by a positive
capacity, see `new`. -/
def popOutput (s : ByteStream) (len : ℕ) : ByteStream :=
  { s with
    dataBegin := (s.dataBegin + len) % s.maxCapacity
    nBytesRead := s.nBytesRead + min len s.curSize
    curSize := max 0 (wrapSub 64 s.curSize len) }

def read (s : ByteStream) (len : ℕ) : List UInt8 × ByteStream :=
  let ret := s.peekOutput len
  (ret, s.popOutput ret.length)

/-- The unread bytes, as `peekOutput` returns them. -/
def buffered (s : ByteStream) : List UInt8 := s.peekOutput s.bufferSize

/-- The representation invariant of the ring buffer. -/
structure Valid (s : ByteStream) : Prop where
  buffer_length : s.buffer.length = s.maxCapacity
  size_le : s.curSize ≤ s.maxCapacity
  begin_lt : 0 < s.maxCapacity → s.dataBegin < s.maxCapacity
  begin_zero : s.maxCapacity = 0 → s.dataBegin = 0
  written_eq : s.nBytesWritten = s.nBytesRead + s.curSize

theorem new_valid (capacity : ℕ) : (new capacity).Valid where
  buffer_length := by simp [new]
  size_le := Nat.zero_le _
  begin_lt h := h
  begin_zero _ := rfl
  written_eq := rfl

theorem ended_of_eof {s : ByteStream} (h : s.eof = true) : s.inputEnded = true :=
  (Bool.and_eq_true_iff.mp h).1

theorem empty_of_eof {s : ByteStream} (h : s.eof = true) : s.bufferEmpty = true :=
  (Bool.and_eq_true_iff.mp h).2

theorem endInput_of_eof {s : ByteStream} (h : s.eof = true) : s.endInput = s := by
  have hdone : s.doneWriting = true := ended_of_eof h
  unfold endInput
  rw [← hdone]

theorem copyBytes_length (buffer : List UInt8) (start cap : ℕ) (data : List UInt8) :
    (copyBytes buffer start cap data).length = buffer.length := by
  induction data generalizing buffer start with
  | nil => rfl
  | cons b rest ih =>
    rw [copyBytes, ih, List.length_set]

/-- Copying after the queue appends to it, one byte at a time. -/
theorem queue_copyBytes (buffer : List UInt8) (d n : ℕ) (data : List UInt8)
    (h : n + data.length ≤ buffer.length) :
    queue (copyBytes buffer (d + n) buffer.length data) d (n + data.length) =
      queue buffer d n ++ data := by
  induction data generalizing buffer n with
  | nil => simp [copyBytes]
  | cons b rest ih =>
    simp only [List.length_cons] at h
    have hlen : (buffer.set ((d + n) % buffer.length) b).length = buffer.length :=
      List.length_set
    have hrest := ih (buffer.set ((d + n) % buffer.length) b) (n + 1) (by rw [hlen]; omega)
    rw [hlen, queue_snoc (by omega)] at hrest
    rw [copyBytes, Nat.add_assoc d n 1, List.length_cons,
      show n + (rest.length + 1) = n + 1 + rest.length by omega, hrest, List.append_assoc]
    rfl

theorem write_nil (s : ByteStream) : (s.write []).2 = s := by
  simp [write, copyBytes]

namespace Valid

variable {s : ByteStream}

theorem remainingCapacity_eq (h : s.Valid) :
    s.remainingCapacity = s.maxCapacity - s.curSize := wrapSub_of_le h.size_le

theorem peekOutput_eq (h : s.Valid) (len : ℕ) :
    s.peekOutput len = (queue s.buffer s.dataBegin s.curSize).take len := by
  have htake : (queue s.buffer s.dataBegin s.curSize).take len =
      (queue s.buffer s.dataBegin s.curSize).take (min len s.curSize) := by
    rw [List.take_eq_take_iff, queue_length (h.buffer_length.symm ▸ h.size_le)]
    omega
  have hsize := h.size_le
  rw [htake]
  simp only [peekOutput]
  split
  · rename_i hone
    rw [take_queue_contiguous (Nat.min_le_right _ _) (by rw [h.buffer_length]; exact hone)]
  · rename_i htwo
    have hd : s.dataBegin < s.maxCapacity := by
      rcases Nat.eq_zero_or_pos s.maxCapacity with hzero | hpos
      · have hbegin := h.begin_zero hzero
        omega
      · exact h.begin_lt hpos
    rw [take_queue_wrapped (Nat.min_le_right _ _) (by rw [h.buffer_length]; exact hsize)
      (by rw [h.buffer_length]; exact hd) (by rw [h.buffer_length]; omega), h.buffer_length]

theorem buffered_eq (h : s.Valid) : s.buffered = queue s.buffer s.dataBegin s.curSize := by
  rw [buffered, h.peekOutput_eq, List.take_of_length_le]
  rw [queue_length (h.buffer_length.symm ▸ h.size_le)]
  exact Nat.le_refl _

theorem buffered_length (h : s.Valid) : s.buffered.length = s.curSize := by
  rw [h.buffered_eq, queue_length (h.buffer_length.symm ▸ h.size_le)]

theorem peek_eq_take (h : s.Valid) (len : ℕ) : s.peekOutput len = s.buffered.take len := by
  rw [h.peekOutput_eq, h.buffered_eq]

theorem write_valid (h : s.Valid) (data : List UInt8) : (s.write data).2.Valid := by
  have hsize := h.size_le
  have hwritten := h.written_eq
  refine ⟨?_, ?_, h.begin_lt, h.begin_zero, ?_⟩
  · simp only [write, copyBytes_length]
    exact h.buffer_length
  · simp only [write, h.remainingCapacity_eq]
    omega
  · simp only [write]
    omega

/-- A write appends the bytes that fit and returns their number. -/
theorem write_buffered (h : s.Valid) (data : List UInt8) :
    (s.write data).2.buffered = s.buffered ++ data.take (s.write data).1 := by
  have hsize := h.size_le
  have hfit : s.curSize + (data.take (s.write data).1).length ≤ s.buffer.length := by
    rw [List.length_take, h.buffer_length]
    simp only [write, h.remainingCapacity_eq]
    omega
  have hq := queue_copyBytes s.buffer s.dataBegin s.curSize (data.take (s.write data).1) hfit
  have hn : (data.take (s.write data).1).length = (s.write data).1 := by
    simp [write]
  rw [(h.write_valid data).buffered_eq, h.buffered_eq, ← hq, hn, h.buffer_length]
  rfl

theorem popOutput_valid (h : s.Valid) {len : ℕ} (hlen : len ≤ s.curSize) :
    (s.popOutput len).Valid := by
  have hsize := h.size_le
  have hwritten := h.written_eq
  refine ⟨h.buffer_length, ?_, ?_, ?_, ?_⟩
  · simp only [popOutput, wrapSub_of_le hlen]
    omega
  · intro hpos
    exact Nat.mod_lt _ hpos
  · intro hzero
    have hb := h.begin_zero hzero
    have hz : s.maxCapacity = 0 := hzero
    simp only [popOutput, hb, hz]
    omega
  · simp only [popOutput, wrapSub_of_le hlen]
    omega

theorem popOutput_zero (h : s.Valid) : s.popOutput 0 = s := by
  have hbegin : s.dataBegin % s.maxCapacity = s.dataBegin := by
    rcases Nat.eq_zero_or_pos s.maxCapacity with hzero | hpos
    · rw [h.begin_zero hzero, Nat.zero_mod]
    · exact Nat.mod_eq_of_lt (h.begin_lt hpos)
  simp [popOutput, hbegin]

/-- A pop within the buffer removes the front of the queue. -/
theorem popOutput_buffered (h : s.Valid) {len : ℕ} (hlen : len ≤ s.curSize) :
    (s.popOutput len).buffered = s.buffered.drop len := by
  have hq := queue_drop (d := s.dataBegin) hlen (h.buffer_length.symm ▸ h.size_le)
  rw [(h.popOutput_valid hlen).buffered_eq, h.buffered_eq, ← hq, h.buffer_length]
  simp [popOutput, wrapSub_of_le hlen]

theorem read_fst (h : s.Valid) (len : ℕ) : (s.read len).1 = s.buffered.take len :=
  h.peek_eq_take len

/-- A read is a peek and a pop of what is there. -/
theorem read_eq (h : s.Valid) (len : ℕ) :
    s.read len = (s.peekOutput (min len s.curSize), s.popOutput (min len s.curSize)) := by
  have hpeek : s.peekOutput len = s.peekOutput (min len s.curSize) := by
    simp only [peekOutput, Nat.min_assoc, Nat.min_self]
  have hlen : (s.peekOutput len).length = min len s.curSize := by
    rw [h.peek_eq_take, List.length_take, h.buffered_length]
  rw [read, hlen, hpeek]

theorem read_length (h : s.Valid) (len : ℕ) :
    (s.read len).1.length = min len s.curSize := by
  rw [h.read_fst, List.length_take, h.buffered_length]

theorem read_snd (h : s.Valid) (len : ℕ) :
    (s.read len).2 = s.popOutput (min len s.curSize) := by
  rw [h.read_eq]

theorem read_valid (h : s.Valid) (len : ℕ) : (s.read len).2.Valid := by
  rw [h.read_snd]
  exact h.popOutput_valid (Nat.min_le_right _ _)

theorem read_buffered (h : s.Valid) (len : ℕ) :
    (s.read len).2.buffered = s.buffered.drop len := by
  rw [h.read_snd, h.popOutput_buffered (Nat.min_le_right _ _)]
  rcases Nat.le_total len s.curSize with hle | hge
  · rw [Nat.min_eq_left hle]
  · rw [Nat.min_eq_right hge, List.drop_of_length_le, List.drop_of_length_le]
    · rw [h.buffered_length]
      exact hge
    · rw [h.buffered_length]

theorem endInput (h : s.Valid) : s.endInput.Valid :=
  ⟨h.buffer_length, h.size_le, h.begin_lt, h.begin_zero, h.written_eq⟩

theorem setError (h : s.Valid) : s.setError.Valid :=
  ⟨h.buffer_length, h.size_le, h.begin_lt, h.begin_zero, h.written_eq⟩

end Valid

end ByteStream

end Sponge
