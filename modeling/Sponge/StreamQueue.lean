import Sponge.BoundedQueue
import Sponge.ByteStream

/-!
The byte stream refines a bounded queue.
The ring buffer is driven by the requests of a queue of bytes of the same capacity.
In related states it gives the same replies, and it reports the size of the queue, the
room left in it, and the number of bytes that have gone in and out.
-/
namespace Sponge.StreamQueue

open Runs BoundedQueue ByteStream

def step (s : ByteStream) : Request UInt8 → ByteStream
  | .write data => (s.write data).2
  | .peek _ => s
  | .read len => (s.read len).2
  | .pop len => s.popOutput len
  | .close => s.endInput

def reply (s : ByteStream) : Request UInt8 → Reply UInt8
  | .write data => .count (s.write data).1
  | .peek len => .items (s.peekOutput len)
  | .read len => .items (s.read len).1
  | .pop _ => .done
  | .close => .done

/-- `pop_output` is called with at most `buffer_size` bytes. -/
def Allows (s : ByteStream) : Request UInt8 → Prop
  | .pop len => len ≤ s.bufferSize
  | _ => True

instance (s : ByteStream) : (op : Request UInt8) → Decidable (Allows s op)
  | .pop len => inferInstanceAs (Decidable (len ≤ s.bufferSize))
  | .write _ | .peek _ | .read _ | .close => isTrue trivial

def stream : Transducer ByteStream (Request UInt8) (Reply UInt8) where
  enabled := Allows
  step := step
  reply := reply

instance (s : ByteStream) (op : Request UInt8) : Decidable (stream.enabled s op) :=
  inferInstanceAs (Decidable (Allows s op))

/-- The bytes a call moves into the stream. -/
def accepted (s : ByteStream) : Request UInt8 → List UInt8
  | .write data => data.take (s.write data).1
  | _ => []

/-- The bytes a call moves out of the stream; a pop does not show them. -/
def removed (s : ByteStream) : Request UInt8 → List UInt8
  | .read len => (s.read len).1
  | .pop len => s.peekOutput len
  | _ => []

def allAccepted (s : ByteStream) : List (Request UInt8) → List UInt8
  | [] => []
  | op :: ops => accepted s op ++ allAccepted (step s op) ops

def allRemoved (s : ByteStream) : List (Request UInt8) → List UInt8
  | [] => []
  | op :: ops => removed s op ++ allRemoved (step s op) ops

variable {capacity : ℕ} {s : ByteStream} {q : Queue UInt8 capacity}

/-- The queue q is what the ring buffer of s holds. -/
structure Holds (s : ByteStream) (q : Queue UInt8 capacity) : Prop where
  valid : s.Valid
  capacity_eq : s.maxCapacity = capacity
  buffered_eq : s.buffered = q.contents

namespace Holds

theorem size_eq (h : Holds s q) : s.curSize = q.contents.length := by
  rw [← h.buffered_eq, h.valid.buffered_length]

theorem write_fst (h : Holds s q) (data : List UInt8) : (s.write data).1 = q.accepts data := by
  simp only [ByteStream.write, Queue.accepts, h.valid.remainingCapacity_eq, h.capacity_eq,
    h.size_eq]

theorem write (h : Holds s q) (data : List UInt8) : Holds (s.write data).2 (q.write data) where
  valid := h.valid.write_valid data
  capacity_eq := h.capacity_eq
  buffered_eq := by
    rw [h.valid.write_buffered, h.write_fst, h.buffered_eq]
    rfl

theorem read (h : Holds s q) (len : ℕ) : Holds (s.read len).2 (q.drop len) where
  valid := h.valid.read_valid len
  capacity_eq := h.capacity_eq
  buffered_eq := by
    rw [h.valid.read_buffered, h.buffered_eq]
    rfl

theorem pop (h : Holds s q) {len : ℕ} (hlen : len ≤ s.bufferSize) :
    Holds (s.popOutput len) (q.drop len) where
  valid := h.valid.popOutput_valid hlen
  capacity_eq := h.capacity_eq
  buffered_eq := by
    rw [h.valid.popOutput_buffered hlen, h.buffered_eq]
    rfl

theorem endInput (h : Holds s q) : Holds s.endInput q :=
  ⟨h.valid.endInput, h.capacity_eq, h.buffered_eq⟩

theorem peek_eq (h : Holds s q) (len : ℕ) : s.peekOutput len = q.contents.take len := by
  rw [h.valid.peek_eq_take, h.buffered_eq]

theorem read_eq (h : Holds s q) (len : ℕ) : (s.read len).1 = q.contents.take len := by
  rw [h.valid.read_fst, h.buffered_eq]

theorem accepted_eq (h : Holds s q) (op : Request UInt8) : accepted s op = q.accepted op := by
  cases op with
  | write data => exact congrArg data.take (h.write_fst data)
  | peek len => rfl
  | read len => rfl
  | pop len => rfl
  | close => rfl

theorem removed_eq (h : Holds s q) (op : Request UInt8) : removed s op = q.removed op := by
  cases op with
  | write data => rfl
  | peek len => rfl
  | read len => exact h.read_eq len
  | pop len => exact h.peek_eq len
  | close => rfl

end Holds

theorem new_holds (capacity : ℕ) : Holds (new capacity) (Queue.empty capacity) where
  valid := new_valid capacity
  capacity_eq := rfl
  buffered_eq := List.length_eq_zero_iff.mp (new_valid capacity).buffered_length

/-- Every call of the stream is a request to the queue it holds. -/
theorem stream_simulates (capacity : ℕ) :
    Transducer.Simulation stream (queue UInt8 capacity) Holds where
  enabled s q op h hop := by
    cases op with
    | pop len => exact Nat.le_trans hop (Nat.le_of_eq h.size_eq)
    | write data => trivial
    | peek len => trivial
    | read len => trivial
    | close => trivial
  reply s q op h _ := by
    cases op with
    | write data => exact congrArg Reply.count (h.write_fst data)
    | peek len => exact congrArg Reply.items (h.peek_eq len)
    | read len => exact congrArg Reply.items (h.read_eq len)
    | pop len => rfl
    | close => rfl
  step s q op h hop := by
    cases op with
    | write data => exact h.write data
    | peek len => exact h
    | read len => exact h.read len
    | pop len => exact h.pop hop
    | close => exact h.endInput

theorem all_moved_eq (h : Holds s q) {ops : List (Request UInt8)} (hv : stream.Valid s ops) :
    allAccepted s ops = BoundedQueue.allAccepted q ops ∧
      allRemoved s ops = BoundedQueue.allRemoved q ops := by
  induction ops generalizing s q with
  | nil => exact ⟨rfl, rfl⟩
  | cons op ops ih =>
    obtain ⟨hop, hrest⟩ := hv
    obtain ⟨haccepted, hremoved⟩ := ih ((stream_simulates capacity).step s q op h hop) hrest
    constructor
    · rw [allAccepted, BoundedQueue.allAccepted, h.accepted_eq]
      exact congrArg _ haccepted
    · rw [allRemoved, BoundedQueue.allRemoved, h.removed_eq]
      exact congrArg _ hremoved

/-- What a stream driven by the requests has answered and reports at the end, in terms of
the queue q that has seen the same requests. -/
structure Mirrors (capacity : ℕ) (ops : List (Request UInt8)) (q : Queue UInt8 capacity) :
    Prop where
  queue_eq : q = (queue UInt8 capacity).exec (Queue.empty capacity) ops
  replies_eq : stream.replies (new capacity) ops =
    (queue UInt8 capacity).replies (Queue.empty capacity) ops
  size_eq : (stream.exec (new capacity) ops).bufferSize = q.contents.length
  room_eq : (stream.exec (new capacity) ops).remainingCapacity = capacity - q.contents.length
  count_eq : (stream.exec (new capacity) ops).bytesWritten =
    (stream.exec (new capacity) ops).bytesRead + q.contents.length
  order_eq : allRemoved (new capacity) ops ++ q.contents = allAccepted (new capacity) ops

/-- The ring buffer behaves as a bounded queue over every run. -/
theorem stream_refines_queue (capacity : ℕ) (ops : List (Request UInt8))
    (hv : stream.Valid (new capacity) ops) : ∃ q, Mirrors capacity ops q := by
  obtain ⟨-, hreplies, hholds⟩ := (stream_simulates capacity).run (new_holds capacity) hv
  obtain ⟨haccepted, hremoved⟩ := all_moved_eq (new_holds capacity) hv
  refine ⟨_, rfl, hreplies, hholds.size_eq, ?_, ?_, ?_⟩
  · rw [hholds.valid.remainingCapacity_eq, hholds.capacity_eq, hholds.size_eq]
  · rw [← hholds.size_eq]
    exact hholds.valid.written_eq
  · rw [haccepted, hremoved, allRemoved_append_contents]
    rfl

theorem stream_refines_queue_wrapped :
    ∃ q, Mirrors 3 [.write [1, 2], .pop 1, .close, .write [3, 4, 5], .peek 9, .read 2] q :=
  stream_refines_queue 3 [.write [1, 2], .pop 1, .close, .write [3, 4, 5], .peek 9, .read 2]
    (by decide)

end Sponge.StreamQueue
