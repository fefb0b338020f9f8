import Sponge.StreamQueue

/-!
The byte stream in the arithmetic of the machine.
Sizes and positions are 64-bit words here, as in the source: sums and differences wrap, and
a remainder by zero traps, as does building a vector that is too large or copying from
outside of it. As long as calls ask for no more than is there, such a stream is the stream
over natural numbers. Popping more than is there leaves a size that fits nothing.
-/
namespace Sponge

open Runs BoundedQueue

/-- What ends a call instead of a return. -/
inductive Trap where
  | lengthError
  | divisionByZero
  | outOfBounds
  deriving DecidableEq, Repr

structure WordStream where
  doneWriting : Bool
  buffer : List UInt8
  dataBegin : UInt64
  nBytesRead : UInt64
  nBytesWritten : UInt64
  curSize : UInt64
  maxCapacity : UInt64
  error : Bool
  deriving DecidableEq, Repr

namespace WordStream

/-- The constructor. No `std::vector<char>` holds 2^63 bytes or more. -/
def new (capacity : UInt64) : Except Trap WordStream :=
  if 2 ^ 63 ≤ capacity.toNat then .error .lengthError
  else .ok {
    doneWriting := false
    buffer := List.replicate capacity.toNat 0
    dataBegin := 0
    nBytesRead := 0
    nBytesWritten := 0
    curSize := 0
    maxCapacity := capacity
    error := false }

def remainder (a b : UInt64) : Except Trap UInt64 :=
  if b = 0 then .error .divisionByZero else .ok (a % b)

def bufferSize (s : WordStream) : UInt64 := s.curSize

def bytesWritten (s : WordStream) : UInt64 := s.nBytesWritten

def bytesRead (s : WordStream) : UInt64 := s.nBytesRead

def remainingCapacity (s : WordStream) : UInt64 := s.maxCapacity - s.curSize

def endInput (s : WordStream) : WordStream := { s with doneWriting := true }

/-- The copying loop of `write`. -/
def copyBytes (buffer : List UInt8) (start cap : UInt64) :
    List UInt8 → Except Trap (List UInt8)
  | [] => .ok buffer
  | b :: rest => do
    let slot ← remainder start cap
    copyBytes (buffer.set slot.toNat b) (start + 1) cap rest

def write (s : WordStream) (data : List UInt8) : Except Trap (UInt64 × WordStream) := do
  let nBytesToWrite := min data.length s.remainingCapacity.toNat
  let buffer ← copyBytes s.buffer (s.dataBegin + s.curSize) s.maxCapacity
    (data.take nBytesToWrite)
  return (UInt64.ofNat nBytesToWrite,
    { s with
      buffer
      nBytesWritten := s.nBytesWritten + UInt64.ofNat nBytesToWrite
      curSize := s.curSize + UInt64.ofNat nBytesToWrite })

def peekOutput (s : WordStream) (len : UInt64) : Except Trap (List UInt8) :=
  let lenRet := min len s.curSize
  if s.dataBegin + lenRet ≤ s.maxCapacity then
    -- both iterators have to lie within the vector
    if s.buffer.length < s.dataBegin.toNat + lenRet.toNat then .error .outOfBounds
    else .ok ((s.buffer.drop s.dataBegin.toNat).take lenRet.toNat)
  else do
    let stop ← remainder (s.dataBegin + lenRet) s.maxCapacity
    return s.buffer.drop s.dataBegin.toNat ++ s.buffer.take stop.toNat

def popOutput (s : WordStream) (len : UInt64) : Except Trap WordStream := do
  let dataBegin ← remainder (s.dataBegin + len) s.maxCapacity
  return { s with
    dataBegin
    nBytesRead := s.nBytesRead + min len s.curSize
    curSize := max 0 (s.curSize - len) }

def read (s : WordStream) (len : UInt64) : Except Trap (List UInt8 × WordStream) := do
  let ret ← s.peekOutput len
  let s ← s.popOutput (UInt64.ofNat ret.length)
  return (ret, s)

inductive Call where
  | write (data : List UInt8)
  | peek (len : UInt64)
  | read (len : UInt64)
  | pop (len : UInt64)
  | endInput

/-- The same call over natural numbers. -/
def Call.request : Call → Request UInt8
  | .write data => .write data
  | .peek len => .peek len.toNat
  | .read len => .read len.toNat
  | .pop len => .pop len.toNat
  | .endInput => .close

def call (s : WordStream) : Call → Except Trap WordStream
  | .write data => return (← s.write data).2
  | .peek len => do
    let _ ← s.peekOutput len
    return s
  | .read len => return (← s.read len).2
  | .pop len => s.popOutput len
  | .endInput => return s.endInput

/-- A run stops at the first trap. -/
def calls : Machine (Except Trap WordStream) Call where
  enabled _ _ := True
  step state c := state.bind (·.call c)

/-- The pop removes the front of what is buffered and keeps the stream in order. -/
def PopsExactly (s : WordStream) (len : UInt64) : Prop :=
  ∃ front s', s.peekOutput s.bufferSize = .ok front ∧ s.popOutput len = .ok s' ∧
    s'.bufferSize ≤ s'.maxCapacity ∧ s'.bytesWritten - s'.bytesRead = s'.bufferSize ∧
    ∀ n, s'.peekOutput n = .ok ((front.drop (min len s.bufferSize).toNat).take n.toNat)

/-- What is expected of a call of `pop_output` or `read` in any state. -/
def Total (s : WordStream) : Call → Prop
  | .pop len => s.PopsExactly len
  | .read len => s.read len ≠ .error .divisionByZero
  | _ => True

/-- There is a ring to take from, and a pop asks for no more than is in it. -/
def InRange (s : WordStream) : Call → Prop
  | .pop len => 0 < s.maxCapacity ∧ len ≤ s.bufferSize
  | .read _ => 0 < s.maxCapacity
  | _ => True

/-- The words of s are the numbers of m; the two counters wrap. -/
structure Represents (s : WordStream) (m : ByteStream) : Prop where
  ended_eq : s.doneWriting = m.doneWriting
  error_eq : s.error = m.error
  buffer_eq : s.buffer = m.buffer
  begin_eq : s.dataBegin.toNat = m.dataBegin
  size_eq : s.curSize.toNat = m.curSize
  capacity_eq : s.maxCapacity.toNat = m.maxCapacity
  nBytesRead_eq : s.nBytesRead = UInt64.ofNat m.nBytesRead
  nBytesWritten_eq : s.nBytesWritten = UInt64.ofNat m.nBytesWritten
  valid : m.Valid
  small : m.maxCapacity < 2 ^ 63

theorem remainder_of_pos {a b : UInt64} (h : 0 < b) : remainder a b = .ok (a % b) :=
  if_neg (UInt64.pos_iff_ne_zero.mp h)

theorem max_zero (a : UInt64) : max 0 a = a := by
  apply UInt64.toNat_inj.mp
  rw [UInt64.toNat_max]
  exact Nat.max_eq_right (Nat.zero_le _)

theorem new_represents {capacity : UInt64} {s : WordStream} (h : new capacity = .ok s) :
    s.Represents (ByteStream.new capacity.toNat) := by
  unfold new at h
  split at h
  · cases h
  · rename_i hsmall
    obtain rfl := Except.ok.inj h
    exact ⟨rfl, rfl, rfl, rfl, rfl, rfl, rfl, rfl, ByteStream.new_valid _, Nat.not_le.mp hsmall⟩

namespace Represents

variable {s : WordStream} {m : ByteStream}

/-- Sums of a position and a size that fits do not wrap. -/
theorem begin_add (h : s.Represents m) {n : UInt64} (hn : n.toNat ≤ m.maxCapacity) :
    (s.dataBegin + n).toNat = m.dataBegin + n.toNat := by
  have hbegin : m.dataBegin ≤ m.maxCapacity := by
    rcases Nat.eq_zero_or_pos m.maxCapacity with hzero | hpos
    · exact Nat.le_of_eq ((h.valid.begin_zero hzero).trans hzero.symm)
    · exact Nat.le_of_lt (h.valid.begin_lt hpos)
  have hsmall := h.small
  rw [UInt64.toNat_add, h.begin_eq, Nat.mod_eq_of_lt (by omega)]

theorem min_size (h : s.Represents m) (len : UInt64) :
    (min len s.curSize).toNat = min len.toNat m.curSize := by
  rw [UInt64.toNat_min, h.size_eq]

theorem pos_iff (h : s.Represents m) : 0 < s.maxCapacity ↔ 0 < m.maxCapacity := by
  rw [UInt64.lt_iff_toNat_lt, h.capacity_eq, UInt64.toNat_zero]

theorem le_size_iff (h : s.Represents m) {len : UInt64} :
    len ≤ s.curSize ↔ len.toNat ≤ m.curSize := by
  rw [UInt64.le_iff_toNat_le, h.size_eq]

theorem peekOutput_eq (h : s.Represents m) (len : UInt64) :
    s.peekOutput len = .ok (m.peekOutput len.toNat) := by
  have hsize := h.valid.size_le
  have hmin := h.min_size len
  have hsum := h.begin_add (n := min len s.curSize) (by omega)
  have hlength := h.valid.buffer_length
  simp only [peekOutput, ByteStream.peekOutput, UInt64.le_iff_toNat_le, hsum, hmin, h.begin_eq,
    h.capacity_eq, h.buffer_eq]
  split
  · rename_i hone
    rw [if_neg (by omega)]
  · rename_i htwo
    have hpos : 0 < m.maxCapacity := by
      by_contra hzero
      have hbegin := h.valid.begin_zero (by omega)
      omega
    rw [remainder_of_pos (h.pos_iff.mpr hpos)]
    simp only [bind, Except.bind, pure, Except.pure, UInt64.toNat_mod, hsum, hmin, h.capacity_eq]

theorem copyBytes_eq {cap : UInt64} (hcap : 0 < cap) (buffer : List UInt8) {start : UInt64}
    {data : List UInt8} (hsmall : start.toNat + data.length < 2 ^ 64) :
    copyBytes buffer start cap data =
      .ok (ByteStream.copyBytes buffer start.toNat cap.toNat data) := by
  induction data generalizing buffer start with
  | nil => rfl
  | cons b rest ih =>
    rw [List.length_cons] at hsmall
    have hnext : (start + 1).toNat = start.toNat + 1 := by
      rw [UInt64.toNat_add]
      exact Nat.mod_eq_of_lt (by simp only [UInt64.toNat_one]; omega)
    have hfits : (start + 1).toNat + rest.length < 2 ^ 64 := by omega
    have hrest := ih (buffer.set (start % cap).toNat b) hfits
    rw [hnext] at hrest
    rw [copyBytes, remainder_of_pos hcap, ByteStream.copyBytes, ← UInt64.toNat_mod, ← hrest]
    rfl

theorem size_le (h : s.Represents m) : s.curSize ≤ s.maxCapacity := by
  rw [UInt64.le_iff_toNat_le, h.size_eq, h.capacity_eq]
  exact h.valid.size_le

theorem remainingCapacity_eq (h : s.Represents m) :
    s.remainingCapacity.toNat = m.remainingCapacity := by
  rw [remainingCapacity, UInt64.toNat_sub_of_le _ _ h.size_le, h.valid.remainingCapacity_eq,
    h.capacity_eq, h.size_eq]

theorem write_eq (h : s.Represents m) (data : List UInt8) :
    ∃ s', s.write data = .ok (UInt64.ofNat (m.write data).1, s') ∧
      s'.Represents (m.write data).2 := by
  have hsize := h.valid.size_le
  have hsmall := h.small
  have hroom := h.valid.remainingCapacity_eq
  have hstart := h.begin_add (n := s.curSize) (by rw [h.size_eq]; exact hsize)
  rw [h.size_eq] at hstart
  have hcopy : copyBytes s.buffer (s.dataBegin + s.curSize) s.maxCapacity
      (data.take (min data.length m.remainingCapacity)) =
      .ok (m.write data).2.buffer := by
    rcases Nat.eq_zero_or_pos m.maxCapacity with hzero | hpos
    · have hnone : min data.length m.remainingCapacity = 0 := by omega
      simp [copyBytes, ByteStream.write, ByteStream.copyBytes, hnone, h.buffer_eq]
    · have hbegin := h.valid.begin_lt hpos
      rw [copyBytes_eq (h.pos_iff.mpr hpos) _
        (by rw [hstart, List.length_take]; omega), hstart, h.buffer_eq, h.capacity_eq]
      rfl
  have hcount : (UInt64.ofNat (m.write data).1).toNat = (m.write data).1 :=
    UInt64.toNat_ofNat_of_lt' (by simp only [ByteStream.write, UInt64.size]; omega)
  refine ⟨_, by rw [write, h.remainingCapacity_eq, hcopy]; rfl, ?_⟩
  exact {
    ended_eq := h.ended_eq
    error_eq := h.error_eq
    buffer_eq := rfl
    begin_eq := h.begin_eq
    size_eq := by
      rw [UInt64.toNat_add, h.size_eq]
      change (m.curSize + (UInt64.ofNat (m.write data).1).toNat) % 2 ^ 64 = _
      rw [hcount]
      exact Nat.mod_eq_of_lt (by simp only [ByteStream.write]; omega)
    capacity_eq := h.capacity_eq
    nBytesRead_eq := h.nBytesRead_eq
    nBytesWritten_eq := by
      rw [h.nBytesWritten_eq, ← UInt64.ofNat_add]
      rfl
    valid := h.valid.write_valid data
    small := h.small }

theorem popOutput_eq (h : s.Represents m) (hpos : 0 < s.maxCapacity) {len : UInt64}
    (hlen : len.toNat ≤ m.curSize) :
    ∃ s', s.popOutput len = .ok s' ∧ s'.Represents (m.popOutput len.toNat) := by
  have hsize := h.valid.size_le
  have hmin := h.min_size len
  refine ⟨_, by rw [popOutput, remainder_of_pos hpos]; rfl, ?_⟩
  exact {
    ended_eq := h.ended_eq
    error_eq := h.error_eq
    buffer_eq := h.buffer_eq
    begin_eq := by
      rw [UInt64.toNat_mod, h.begin_add (by omega), h.capacity_eq]
      rfl
    size_eq := by
      rw [max_zero, UInt64.toNat_sub_of_le _ _ (h.le_size_iff.mpr hlen), h.size_eq]
      simp [ByteStream.popOutput, Words.wrapSub_of_le hlen]
    capacity_eq := h.capacity_eq
    nBytesRead_eq := by
      rw [h.nBytesRead_eq, ← UInt64.ofNat_toNat (x := min len s.curSize), hmin, ← UInt64.ofNat_add]
      rfl
    nBytesWritten_eq := h.nBytesWritten_eq
    valid := h.valid.popOutput_valid hlen
    small := h.small }

theorem read_eq (h : s.Represents m) (hpos : 0 < s.maxCapacity) (len : UInt64) :
    ∃ s', s.read len = .ok ((m.read len.toNat).1, s') ∧ s'.Represents (m.read len.toNat).2 := by
  have hsize := h.valid.size_le
  have hsmall := h.small
  have hlength : (m.peekOutput len.toNat).length = min len.toNat m.curSize :=
    h.valid.read_length len.toNat
  have hword : (UInt64.ofNat (m.peekOutput len.toNat).length).toNat = min len.toNat m.curSize := by
    rw [UInt64.toNat_ofNat_of_lt' (by rw [hlength, UInt64.size]; omega), hlength]
  have hle : (UInt64.ofNat (m.peekOutput len.toNat).length).toNat ≤ m.curSize := by omega
  obtain ⟨s', hpop, hrep⟩ := h.popOutput_eq hpos hle
  refine ⟨s', ?_, ?_⟩
  · rw [read, h.peekOutput_eq]
    simp only [bind, Except.bind, hpop]
    rfl
  · rw [hword] at hrep
    rw [h.valid.read_snd]
    exact hrep

/-- A call in range goes through, and does what it does over natural numbers. -/
theorem call_ok (h : s.Represents m) {c : Call} (hc : s.InRange c) :
    ∃ s', s.call c = .ok s' ∧ s'.Represents (StreamQueue.step m c.request) := by
  cases c with
  | write data =>
    obtain ⟨s', hwrite, hrep⟩ := h.write_eq data
    exact ⟨s', by rw [call, hwrite]; rfl, hrep⟩
  | peek len => exact ⟨s, by rw [call, h.peekOutput_eq]; rfl, h⟩
  | read len =>
    obtain ⟨s', hread, hrep⟩ := h.read_eq hc len
    exact ⟨s', by rw [call, hread]; rfl, hrep⟩
  | pop len =>
    obtain ⟨hpos, hlen⟩ := hc
    exact h.popOutput_eq hpos (h.le_size_iff.mp hlen)
  | endInput =>
    exact ⟨s.endInput, rfl, rfl, h.error_eq, h.buffer_eq, h.begin_eq, h.size_eq, h.capacity_eq,
      h.nBytesRead_eq, h.nBytesWritten_eq, h.valid.endInput, h.small⟩

/-- The counters keep their difference, also after they have wrapped. -/
theorem counted (h : s.Represents m) : s.nBytesWritten = s.nBytesRead + s.curSize := by
  rw [h.nBytesWritten_eq, h.nBytesRead_eq, h.valid.written_eq, UInt64.ofNat_add, ← h.size_eq,
    UInt64.ofNat_toNat]

theorem popsExactly_of_le (h : s.Represents m) {len : UInt64} (hpos : 0 < s.maxCapacity)
    (hlen : len ≤ s.bufferSize) : s.PopsExactly len := by
  have hle := h.le_size_iff.mp hlen
  obtain ⟨s', hpop, hrep⟩ := h.popOutput_eq hpos hle
  have hmin : (min len s.bufferSize).toNat = len.toNat :=
    (h.min_size len).trans (Nat.min_eq_left hle)
  refine ⟨m.buffered, s', ?_, hpop, ?_, ?_, ?_⟩
  · rw [h.peekOutput_eq, bufferSize, h.size_eq]
    rfl
  · exact hrep.size_le
  · rw [bytesWritten, bytesRead, hrep.counted, UInt64.add_comm, UInt64.add_sub_cancel]
    rfl
  · intro n
    rw [hrep.peekOutput_eq, hrep.valid.peek_eq_take, h.valid.popOutput_buffered hle, hmin]

/-- A pop past the end leaves the counters equal and a size that is not zero. -/
theorem popsExactly_iff (h : s.Represents m) (len : UInt64) :
    s.PopsExactly len ↔ 0 < s.maxCapacity ∧ len ≤ s.bufferSize := by
  constructor
  · rintro ⟨front, s', -, hpop, -, hcounters, -⟩
    unfold popOutput remainder at hpop
    split at hpop
    · cases hpop
    · rename_i hcap
      obtain rfl := Except.ok.inj hpop
      refine ⟨UInt64.pos_iff_ne_zero.mpr hcap, ?_⟩
      by_contra hpast
      have hall : min len s.curSize = s.curSize := by
        apply UInt64.toNat_inj.mp
        rw [UInt64.toNat_min]
        exact Nat.min_eq_right (by rw [bufferSize, UInt64.le_iff_toNat_le] at hpast; omega)
      simp only [bytesWritten, bytesRead, bufferSize, hall, max_zero, h.counted,
        UInt64.sub_self] at hcounters
      have hsame : s.curSize = 0 + len := UInt64.sub_eq_iff_eq_add.mp hcounters.symm
      rw [UInt64.zero_add] at hsame
      exact hpast (hsame ▸ UInt64.le_refl _)
  · rintro ⟨hpos, hlen⟩
    exact h.popsExactly_of_le hpos hlen

/-- A read divides by the capacity and by nothing else. -/
theorem read_total_iff (h : s.Represents m) (len : UInt64) :
    s.read len ≠ .error .divisionByZero ↔ 0 < s.maxCapacity := by
  constructor
  · intro hread
    by_contra hcap
    have hzero : s.maxCapacity = 0 := by
      by_contra hne
      exact hcap (UInt64.pos_iff_ne_zero.mpr hne)
    apply hread
    rw [read, h.peekOutput_eq]
    simp only [bind, Except.bind, popOutput, remainder, if_pos hzero]
  · intro hpos
    obtain ⟨s', hread, -⟩ := h.read_eq hpos len
    rw [hread]
    simp

theorem total_iff (h : s.Represents m) (c : Call) : s.Total c ↔ s.InRange c := by
  cases c with
  | write data => exact Iff.rfl
  | peek len => exact Iff.rfl
  | read len => exact h.read_total_iff len
  | pop len => exact h.popsExactly_iff len
  | endInput => exact Iff.rfl

end Represents

/-- Along a run in range the words stand for the numbers of the same run of the ring over
natural numbers. -/
theorem exec_represents {s : WordStream} {m : ByteStream} (h : s.Represents m) (cs : List Call)
    (hrange : ∀ pre c, pre ++ [c] <+: cs →
      ∀ s', calls.exec (.ok s) pre = .ok s' → s'.InRange c) :
    ∃ s', calls.exec (.ok s) cs = .ok s' ∧
      s'.Represents (StreamQueue.stream.exec m (cs.map Call.request)) := by
  induction cs generalizing s m with
  | nil => exact ⟨s, rfl, h⟩
  | cons c cs ih =>
    obtain ⟨hfirst, hrest⟩ := Machine.forall_snoc_prefix_cons.mp hrange
    obtain ⟨s', hcall, hrep⟩ := h.call_ok (hfirst s rfl)
    have hstep : calls.step (.ok s) c = .ok s' := hcall
    simp only [Machine.exec_cons, hstep] at hrest ⊢
    exact ih hrep hrest

/-- In the states of a run, `pop_output` and `read` do what is expected of them up to the first
pop past the end of the buffer; on a stream without room neither ever does. -/
theorem total_iff_inRange (capacity : UInt64) (cs : List Call) :
    (∀ pre c, pre ++ [c] <+: cs → ∀ s, calls.exec (new capacity) pre = .ok s → s.Total c) ↔
      ∀ pre c, pre ++ [c] <+: cs → ∀ s, calls.exec (new capacity) pre = .ok s → s.InRange c := by
  apply calls.passes_congr (P := fun state => ∀ s, state = .ok s → ∃ m, s.Represents m)
    (T := fun state c => ∀ s, state = .ok s → s.Total c)
    (U := fun state c => ∀ s, state = .ok s → s.InRange c)
  · intro state c hrep
    refine forall_congr' fun s => ?_
    refine forall_congr' fun hs => ?_
    obtain ⟨m, hm⟩ := hrep s hs
    exact hm.total_iff c
  · intro state c hrep hrange s' hs'
    cases state with
    | error e => cases hs'
    | ok s =>
      obtain ⟨m, hm⟩ := hrep s rfl
      obtain ⟨s'', hcall, hrep'⟩ := hm.call_ok (hrange s rfl)
      have hsame : s'' = s' := Except.ok.inj (hcall.symm.trans hs')
      exact ⟨_, hsame ▸ hrep'⟩
  · intro s hs
    exact ⟨_, new_represents hs⟩

/-- A pop of one byte from an empty stream, and any pop or read of a stream without room. -/
theorem pop_past_end :
    (do
      let s ← (← new 1).popOutput 1
      return (s.bufferSize, s.maxCapacity, s.bytesWritten - s.bytesRead)) =
        .ok (0xffffffffffffffff, 1, 0) ∧
      (do (← new 0).popOutput 0) = .error .divisionByZero ∧
      (do (← new 0).read 0) = .error .divisionByZero := by
  decide

end WordStream

end Sponge
