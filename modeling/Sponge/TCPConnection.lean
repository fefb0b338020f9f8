import Sponge.TCPReceiver
import Sponge.TCPSender

/-!
An endpoint of a TCP connection: a receiver and a sender, and the rules by which the
one answers for the other. `segmentReceived` and `tick` are cut into the steps the
source takes in order. `segments_out` is only ever pushed to by the endpoint; what its
owner pops from it changes nothing the endpoint reads.
-/
namespace Sponge

open Words

structure TCPConnection where
  cfg : TCPConfig
  receiver : TCPReceiver
  sender : TCPSender
  segmentsOut : List TCPSegment
  lingerAfterStreamsFinish : Bool
  active : Bool
  lastSegmRecvTimer : ℕ

namespace TCPConnection

/-- For positive capacities, as `TCPSender.new`. The last argument is the number
`random_device` would give the sender. -/
def new (cfg : TCPConfig) (random : WrappingInt32) : TCPConnection where
  cfg := cfg
  receiver := TCPReceiver.new cfg.recvCapacity
  sender := TCPSender.new cfg.sendCapacity cfg.rtTimeout cfg.fixedIsn random
  segmentsOut := []
  lingerAfterStreamsFinish := true
  active := true
  lastSegmRecvTimer := 0

def inboundStream (c : TCPConnection) : ByteStream := c.receiver.streamOut

def remainingOutboundCapacity (c : TCPConnection) : ℕ := c.sender.stream.remainingCapacity

def bytesInFlight (c : TCPConnection) : ℕ := c.sender.bytesInFlight

def unassembledBytes (c : TCPConnection) : ℕ := c.receiver.unassembledBytes

def timeSinceLastSegmentReceived (c : TCPConnection) : ℕ := c.lastSegmRecvTimer

def synSent (c : TCPConnection) : Bool := decide (c.sender.nextSeqnoAbsolute > 0)

/-- Set both streams to error and go inactive. -/
def reset (c : TCPConnection) : TCPConnection :=
  { c with
    sender := c.sender.setStream c.sender.stream.setError
    receiver := c.receiver.setOutput c.receiver.streamOut.setError
    active := false }

/-- The header fields that the receiver knows, and the RST flag. The window is cut to
16 bits. -/
def stamp (c : TCPConnection) (rst : Bool) (seg : TCPSegment) : TCPSegment :=
  let header := match c.receiver.ackno with
    | some ackno =>
      { seg.header with ack := true, ackno := ackno, win := UInt16.ofNat c.receiver.windowSize }
    | none => seg.header
  { seg with header := if rst then { header with rst := true } else header }

/-- An active endpoint moves all the sender has queued to its own queue. -/
def sendSegments (c : TCPConnection) (rst : Bool) : TCPConnection :=
  if c.active then
    { c with
      sender := { c.sender with segmentsOut := [] }
      segmentsOut := c.segmentsOut ++ c.sender.segmentsOut.map (c.stamp rst) }
  else c

theorem sendSegments_of_active {c : TCPConnection} (h : c.active = true) (rst : Bool) :
    c.sendSegments rst = { c with
      sender := { c.sender with segmentsOut := [] }
      segmentsOut := c.segmentsOut ++ c.sender.segmentsOut.map (c.stamp rst) } := if_pos h

theorem sendSegments_of_inactive {c : TCPConnection} (h : c.active = false) (rst : Bool) :
    c.sendSegments rst = c := if_neg (Bool.not_eq_true _ ▸ h)

@[simp] theorem sendSegments_receiver (c : TCPConnection) (rst : Bool) :
    (c.sendSegments rst).receiver = c.receiver := by
  unfold sendSegments
  split <;> rfl

@[simp] theorem sendSegments_stream (c : TCPConnection) (rst : Bool) :
    (c.sendSegments rst).sender.stream = c.sender.stream := by
  unfold sendSegments
  split <;> rfl

@[simp] theorem sendSegments_linger (c : TCPConnection) (rst : Bool) :
    (c.sendSegments rst).lingerAfterStreamsFinish = c.lingerAfterStreamsFinish := by
  unfold sendSegments
  split <;> rfl

@[simp] theorem sendSegments_active (c : TCPConnection) (rst : Bool) :
    (c.sendSegments rst).active = c.active := by
  unfold sendSegments
  split <;> rfl

/-- If the peer ended its stream before ours ended, there is no need to linger. -/
def trySwitchingCloseMode (c : TCPConnection) : TCPConnection :=
  if !c.sender.stream.eof && c.receiver.streamOut.inputEnded then
    { c with lingerAfterStreamsFinish := false }
  else c

@[simp] theorem trySwitchingCloseMode_receiver (c : TCPConnection) :
    c.trySwitchingCloseMode.receiver = c.receiver := by
  unfold trySwitchingCloseMode
  split <;> rfl

@[simp] theorem trySwitchingCloseMode_sender (c : TCPConnection) :
    c.trySwitchingCloseMode.sender = c.sender := by
  unfold trySwitchingCloseMode
  split <;> rfl

theorem trySwitchingCloseMode_segmentsOut (c : TCPConnection) :
    c.trySwitchingCloseMode.segmentsOut = c.segmentsOut := by
  unfold trySwitchingCloseMode
  split <;> rfl

theorem trySwitchingCloseMode_active (c : TCPConnection) :
    c.trySwitchingCloseMode.active = c.active := by
  unfold trySwitchingCloseMode
  split <;> rfl

/-- Inbound stream ended and assembled. -/
def istreamDone (c : TCPConnection) : Bool :=
  c.receiver.streamOut.inputEnded && c.receiver.unassembledBytes == 0

/-- Outbound stream ended, sent with its FIN, and acknowledged. -/
def ostreamDone (c : TCPConnection) : Bool :=
  c.sender.stream.eof && c.sender.nextSeqnoAbsolute == c.sender.stream.bytesWritten + 2 &&
    c.sender.bytesInFlight == 0

def activeClose (c : TCPConnection) : Bool :=
  c.lingerAfterStreamsFinish && decide (c.lastSegmRecvTimer ≥ 10 * c.cfg.rtTimeout.toNat)

def passiveClose (c : TCPConnection) : Bool := !c.lingerAfterStreamsFinish

def tryClosingConnection (c : TCPConnection) : TCPConnection :=
  if c.active then
    let c := c.sendSegments false
    if (c.activeClose || c.passiveClose) && c.istreamDone && c.ostreamDone then
      { c with active := false }
    else c
  else c

def endInputStream (c : TCPConnection) : TCPConnection :=
  let c := { c with sender := c.sender.setStream c.sender.stream.endInput }
  let c := { c with sender := c.sender.fillWindow }
  c.tryClosingConnection

def connect (c : TCPConnection) : TCPConnection :=
  let c := { c with sender := c.sender.fillWindow }
  c.sendSegments false

/-- What `segment_received` takes from a segment. A reset does not stop it. -/
def takeIn (c : TCPConnection) (seg : TCPSegment) : TCPConnection :=
  let c := { c with receiver := c.receiver.segmentReceived seg, lastSegmRecvTimer := 0 }
  let c := if seg.header.rst then c.reset else c
  if seg.header.ack then
    { c with sender := c.sender.ackReceived seg.header.ackno seg.header.win }
  else c

theorem takeIn_segmentsOut (c : TCPConnection) (seg : TCPSegment) :
    (c.takeIn seg).segmentsOut = c.segmentsOut := by
  unfold takeIn
  dsimp only
  split <;> split <;> rfl

theorem takeIn_active (c : TCPConnection) (seg : TCPSegment) :
    (c.takeIn seg).active = (c.active && !seg.header.rst) := by
  unfold takeIn
  dsimp only
  cases hrst : seg.header.rst
  · split <;> exact (Bool.and_true _).symm
  · split <;> exact (Bool.and_false _).symm

/-- The answer once our SYN is out: at least one segment to a segment that takes up
sequence numbers. -/
def answer (c : TCPConnection) (seg : TCPSegment) : TCPConnection :=
  if c.synSent then
    let c :=
      if seg.lengthInSequenceSpace > 0 && c.sender.segmentsOut.isEmpty then
        { c with sender := c.sender.sendEmptySegment }
      else c
    c.sendSegments false
  else c

def segmentReceived (c : TCPConnection) (seg : TCPSegment) : TCPConnection :=
  let c := (c.takeIn seg).answer seg
  let c := if seg.header.syn && !c.synSent then c.connect else c
  c.trySwitchingCloseMode

theorem answer_active (c : TCPConnection) (seg : TCPSegment) :
    (c.answer seg).active = c.active := by
  unfold answer
  split
  · dsimp only
    split <;> exact sendSegments_active _ false
  · rfl

/-- Nothing but a RST makes an endpoint inactive when a segment comes. -/
theorem segmentReceived_active (c : TCPConnection) (seg : TCPSegment) :
    (c.segmentReceived seg).active = (c.active && !seg.header.rst) := by
  unfold segmentReceived
  dsimp only
  rw [trySwitchingCloseMode_active, ← takeIn_active]
  split
  · exact (sendSegments_active _ false).trans (answer_active (c.takeIn seg) seg)
  · exact answer_active (c.takeIn seg) seg

/-- The number of bytes written and the endpoint after that. Nothing is taken before the
SYN is sent. -/
def write (c : TCPConnection) (data : List UInt8) : ℕ × TCPConnection :=
  if c.sender.stream.inputEnded || !c.synSent then (0, c)
  else
    let r := c.sender.stream.write data
    let c := { c with sender := c.sender.setStream r.2 }
    let c := { c with sender := c.sender.fillWindow }
    (r.1, c.sendSegments false)

/-- Past the retry limit the peer gets a RST, on an empty segment if need be. -/
def giveUp (c : TCPConnection) : TCPConnection :=
  let c :=
    if c.sender.segmentsOut.isEmpty then { c with sender := c.sender.sendEmptySegment } else c
  (c.sendSegments true).reset

def tick (c : TCPConnection) (msSinceLastTick : ℕ) : TCPConnection :=
  if c.active then
    let c := { c with sender := c.sender.tick msSinceLastTick }
    let c := { c with lastSegmRecvTimer := wrapAdd 64 c.lastSegmRecvTimer msSinceLastTick }
    let c :=
      if c.sender.consecutiveRetransmissions > TCPConfig.maxRetxAttempts then c.giveUp
      else c.sendSegments false
    c.tryClosingConnection
  else c

end TCPConnection

end Sponge
