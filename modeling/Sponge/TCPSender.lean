import Sponge.ByteStream
import Sponge.TCPSegment

/-!
The sender half of an endpoint: it cuts the outbound stream into segments, keeps
those not yet acknowledged, and retransmits the oldest one when its timer runs out.
The timer has no flag for being stopped: an expired timer is one that is not running.
Times are 64-bit and wrap; they are numbers the caller of `tick` chooses.
-/
namespace Sponge

open Words

/-- Retransmission timer. -/
structure Timer where
  timeElapsed : ℕ
  timeout : ℕ
  deriving DecidableEq, Repr

namespace Timer

def expired (t : Timer) : Bool := decide (t.timeElapsed ≥ t.timeout)

def start (_ : Timer) (newTimeout : ℕ) : Timer := ⟨0, newTimeout⟩

end Timer

/-- A segment with its absolute sequence number. -/
structure OrderedSegment where
  seqno : ℕ
  segment : TCPSegment
  deriving DecidableEq, Repr

namespace OrderedSegment

/-- Length in sequence space. -/
def length (e : OrderedSegment) : ℕ := e.segment.lengthInSequenceSpace

end OrderedSegment

structure TCPSender where
  isn : WrappingInt32
  segmentsOut : List TCPSegment
  initialRetransmissionTimeout : ℕ
  stream : ByteStream
  nextSeqno : ℕ
  absAckno : ℕ
  windowSize : ℕ
  outstandingSegments : List OrderedSegment
  timer : Timer
  nConsecRetransmissions : ℕ
  deriving DecidableEq, Repr

namespace TCPSender

/-- For a positive capacity: `fill_window` reads from the stream even for the SYN, which the
source does not survive with capacity 0, see `ByteStream.new`. The last argument is the number
`random_device` would give. -/
def new (capacity : ℕ) (retxTimeout : UInt16) (fixedIsn : Option WrappingInt32)
    (random : WrappingInt32) : TCPSender where
  isn := fixedIsn.getD random
  segmentsOut := []
  initialRetransmissionTimeout := retxTimeout.toNat
  stream := ByteStream.new capacity
  nextSeqno := 0
  absAckno := 0
  windowSize := 1
  outstandingSegments := []
  timer := ⟨0, retxTimeout.toNat⟩
  nConsecRetransmissions := 0

def bytesInFlight (s : TCPSender) : ℕ := wrapSub 64 s.nextSeqno s.absAckno

def nextSeqnoAbsolute (s : TCPSender) : ℕ := s.nextSeqno

/-- The counter is returned as a 32-bit number. -/
def consecutiveRetransmissions (s : TCPSender) : ℕ := s.nConsecRetransmissions % 2 ^ 32

/-- `n_bytes_to_send` at the top of the loop, a 16-bit number. A closed window counts
as one byte when nothing is in flight. -/
def windowRoom (s : TCPSender) : ℕ :=
  if s.windowSize = 0 ∧ s.bytesInFlight = 0 then 1
  else wrapSub 64 s.windowSize s.bytesInFlight % 2 ^ 16

def nextSyn (s : TCPSender) : Bool := decide (s.nextSeqno = 0 ∧ s.windowRoom > 0)

/-- The bytes to ask of the stream: the room less the SYN, at most one payload. -/
def payloadRoom (s : TCPSender) : ℕ :=
  let n := if s.nextSyn then s.windowRoom - 1 else s.windowRoom
  if n > TCPConfig.maxPayloadSize then TCPConfig.maxPayloadSize else n

def nextPayload (s : TCPSender) : List UInt8 := (s.stream.read s.payloadRoom).1

def streamAfter (s : TCPSender) : ByteStream := (s.stream.read s.payloadRoom).2

/-- `n_bytes_to_send` after the read. A full payload leaves room for the FIN, whatever
the window says. -/
def finRoom (s : TCPSender) : ℕ :=
  if s.payloadRoom = TCPConfig.maxPayloadSize then 1 else s.payloadRoom - s.nextPayload.length

def nextFin (s : TCPSender) : Bool := s.streamAfter.eof && decide (s.finRoom > 0)

/-- The segment one round of the loop makes. -/
def nextSegment (s : TCPSender) : TCPSegment where
  header := { seqno := wrap s.nextSeqno s.isn, syn := s.nextSyn, fin := s.nextFin }
  payload := s.nextPayload

theorem nextSegment_length (s : TCPSender) : s.nextSegment.lengthInSequenceSpace =
    s.nextPayload.length + (if s.nextSyn then 1 else 0) + (if s.nextFin then 1 else 0) := rfl

theorem payloadRoom_le (s : TCPSender) : s.payloadRoom ≤ TCPConfig.maxPayloadSize := by
  simp only [payloadRoom]
  generalize (if s.nextSyn then s.windowRoom - 1 else s.windowRoom) = n
  split <;> omega

/-- The rest of the round: queue the segment, keep it, start a timer that is not running. -/
def transmitNext (s : TCPSender) : TCPSender :=
  { s with
    stream := s.streamAfter
    segmentsOut := s.segmentsOut ++ [s.nextSegment]
    outstandingSegments := s.outstandingSegments ++ [⟨s.nextSeqno, s.nextSegment⟩]
    nextSeqno := s.nextSeqno + s.nextSegment.lengthInSequenceSpace
    timer := if s.timer.expired then s.timer.start s.initialRetransmissionTimeout else s.timer }

/-- The segment with the FIN is already out. -/
def finSent (s : TCPSender) : Bool :=
  s.stream.eof && decide (s.nextSeqno ≥ s.stream.bytesWritten + 2)

/-- The loop of `fill_window`. Every round that goes on advances `nextSeqno`, so the
distance to the edge of the window bounds the rounds. -/
def fillLoop : ℕ → TCPSender → TCPSender
  | 0, s => s
  | fuel + 1, s =>
    if s.nextSeqno ≤ s.absAckno + s.windowSize then
      if s.finSent then s
      else if s.nextSegment.lengthInSequenceSpace = 0 then { s with stream := s.streamAfter }
      else fillLoop fuel s.transmitNext
    else s

def fillWindow (s : TCPSender) : TCPSender :=
  fillLoop (s.absAckno + s.windowSize + 1 - s.nextSeqno) s

/-- The loop of `ack_received`: drop what is fully acknowledged; each dropped segment
restarts the timer. -/
def eraseAcked (absAckno rto : ℕ) : List OrderedSegment → Timer → List OrderedSegment × Timer
  | [], timer => ([], timer)
  | e :: rest, timer =>
    if e.seqno + e.length ≤ absAckno then eraseAcked absAckno rto rest (timer.start rto)
    else (e :: rest, timer)

/-- The state in which an accepted acknowledgment calls `fill_window`. -/
def acknowledge (s : TCPSender) (newAbsAckno : ℕ) : TCPSender :=
  let r := eraseAcked newAbsAckno s.initialRetransmissionTimeout s.outstandingSegments s.timer
  { s with
    absAckno := newAbsAckno
    outstandingSegments := r.1
    timer := r.2
    nConsecRetransmissions := 0 }

/-- The window is taken over even from an acknowledgment that is not acceptable. -/
def ackReceived (s : TCPSender) (ackno : WrappingInt32) (windowSize : UInt16) : TCPSender :=
  let s := { s with windowSize := windowSize.toNat }
  let newAbsAckno := unwrap ackno s.isn s.absAckno
  if newAbsAckno ≤ s.absAckno ∨ newAbsAckno > s.nextSeqno then s
  else (s.acknowledge newAbsAckno).fillWindow

/-- Back off only when the peer's window is open. -/
def backOff (s : TCPSender) : TCPSender :=
  if s.windowSize > 0 then
    { s with
      nConsecRetransmissions := s.nConsecRetransmissions + 1
      timer := { s.timer with timeout := s.timer.timeout * 2 % 2 ^ 64 } }
  else s

def retransmit (s : TCPSender) (oldest : OrderedSegment) : TCPSender :=
  let s := backOff { s with segmentsOut := s.segmentsOut ++ [oldest.segment] }
  { s with timer := s.timer.start s.timer.timeout }

def tick (s : TCPSender) (msSinceLastTick : ℕ) : TCPSender :=
  let s := { s with
    timer := { s.timer with timeElapsed := wrapAdd 64 s.timer.timeElapsed msSinceLastTick } }
  if s.timer.expired then
    match s.outstandingSegments with
    | [] => s
    | oldest :: _ => s.retransmit oldest
  else s

def sendEmptySegment (s : TCPSender) : TCPSender :=
  { s with segmentsOut := s.segmentsOut ++ [{ header := { seqno := wrap s.nextSeqno s.isn } }] }

/-- The writer's side of `stream_in()`. -/
def setStream (s : TCPSender) (stream : ByteStream) : TCPSender := { s with stream := stream }

end TCPSender

end Sponge
