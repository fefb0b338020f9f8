import Sponge.ConnectionStates
import Sponge.Descriptors
import Sponge.Outgoing
import Sponge.Shutdown

/-!
The socket: a thread that runs an endpoint between its owner and an adapter for datagrams.
Four rules of the event loop pass bytes and segments on, and between the rounds time passes.
The adapter is arbitrary. Seen from the network, what the thread does is a series of calls
of the endpoint: the bytes it has read from the owner are those the endpoint has accepted, the
bytes it has given to the owner are those read from the endpoint, and the segments that
the adapter has been given are those gone from the queue.
-/
namespace Sponge

open Programs EventLoop

/-- What the socket needs of an adapter. -/
structure Adapter (α : Type) where
  fd : α → FDWrapper
  read : EStateM Failure α (Option TCPSegment)
  write : TCPSegment → EStateM Failure α Unit
  tick : ℕ → EStateM Failure α Unit := fun _ => pure ()

structure TCPSpongeSocket (α : Type) where
  threadData : Channel
  datagramAdapter : α
  tcp : TCPConnection
  inboundShutdown : Bool := false
  outboundShutdown : Bool := false
  fullyAcked : Bool := false

namespace TCPSpongeSocket

variable {α : Type}

def initializeTCP (cfg : TCPConfig) (random : WrappingInt32) (threadData : Channel) (adapter : α) :
    TCPSpongeSocket α where
  threadData := threadData
  datagramAdapter := adapter
  tcp := TCPConnection.new cfg random

def threadLens : Lens (TCPSpongeSocket α) Channel :=
  ⟨threadData, fun c w => { w with threadData := c }⟩

def adapterLens : Lens (TCPSpongeSocket α) α :=
  ⟨datagramAdapter, fun a w => { w with datagramAdapter := a }⟩

/-- Hand a segment, if there is one, to the endpoint. -/
def deliver (w : TCPSpongeSocket α) (seg : Option TCPSegment) : TCPSpongeSocket α :=
  { w with tcp := match seg with
    | some seg => w.tcp.segmentReceived seg
    | none => w.tcp }

/-- Has all the outbound data been acknowledged? -/
def noteAcked (w : TCPSpongeSocket α) : TCPSpongeSocket α :=
  { w with fullyAcked :=
      if w.threadData.wrapper.eof && w.tcp.bytesInFlight == 0 && !w.fullyAcked then true
      else w.fullyAcked }

def acceptedLess : Failure :=
  .runtimeError "TCPConnection::write() accepted less than advertised length"

section Rules

variable (adapter : Adapter α)

/-- Rule 1: read from the packet stream into the endpoint. -/
def receiveDatagram : EStateM Failure (TCPSpongeSocket α) Unit := do
  let seg ← zoom adapterLens adapter.read
  modify fun w => (w.deliver seg).noteAcked

def endOutbound : EStateM Failure (TCPSpongeSocket α) Unit :=
  modify fun w => { w with tcp := w.tcp.endInputStream, outboundShutdown := true }

/-- Rule 2: read from the owner into the outbound buffer. -/
def readOwner : EStateM Failure (TCPSpongeSocket α) Unit := do
  let data ← zoom threadLens (Channel.read (← get).tcp.remainingOutboundCapacity)
  let w ← get
  set { w with tcp := (w.tcp.write data).2 }
  let amountWritten := (w.tcp.write data).1
  if amountWritten ≠ data.length then
    throw acceptedLess
  else if w.threadData.wrapper.eof then
    endOutbound

/-- Rule 3: write from the inbound buffer to the owner, and pass on the end. -/
def writeOwner : EStateM Failure (TCPSpongeSocket α) Unit := do
  let w ← get
  let amountToWrite := min 65536 w.tcp.inboundStream.bufferSize
  let bytesWritten ←
    zoom threadLens (Channel.write (w.tcp.inboundStream.peekOutput amountToWrite))
  modify fun w =>
    { w with tcp := w.tcp.setInbound (w.tcp.inboundStream.popOutput bytesWritten) }
  let w ← get
  if w.tcp.inboundStream.eof || w.tcp.inboundStream.error then
    zoom threadLens Channel.shutdown
    modify fun w => { w with inboundShutdown := true }

/-- Write the segment at the front of the queue and pop it, as often as there is one. -/
def sendQueue : List TCPSegment → EStateM Failure (TCPSpongeSocket α) Unit
  | [] => pure ()
  | seg :: queue => do
    zoom adapterLens (adapter.write seg)
    modify fun w => { w with tcp := { w.tcp with segmentsOut := w.tcp.segmentsOut.tail } }
    sendQueue queue

/-- Rule 4: send outbound segments as datagrams. -/
def sendDatagrams : EStateM Failure (TCPSpongeSocket α) Unit := do
  sendQueue adapter (← get).tcp.segmentsOut

/-- The four rules, in the order in which they are added. -/
inductive Label where
  | receiveDatagram
  | readOwner
  | writeOwner
  | sendDatagrams
  deriving DecidableEq, Repr

def rules : List Label := [.receiveDatagram, .readOwner, .writeOwner, .sendDatagrams]

def table : Label → Rule (TCPSpongeSocket α)
  | .receiveDatagram =>
    { fd := fun w => adapter.fd w.datagramAdapter
      direction := .In
      callback := receiveDatagram adapter
      interest := fun w => w.tcp.active }
  | .readOwner =>
    { fd := fun w => w.threadData.wrapper
      direction := .In
      callback := readOwner
      interest := fun w =>
        w.tcp.active && !w.outboundShutdown && decide (w.tcp.remainingOutboundCapacity > 0)
      cancel := endOutbound }
  | .writeOwner =>
    { fd := fun w => w.threadData.wrapper
      direction := .Out
      callback := writeOwner
      interest := fun w => !w.tcp.inboundStream.bufferEmpty ||
        ((w.tcp.inboundStream.eof || w.tcp.inboundStream.error) && !w.inboundShutdown) }
  | .sendDatagrams =>
    { fd := fun w => adapter.fd w.datagramAdapter
      direction := .Out
      callback := sendDatagrams adapter
      interest := fun w => !w.tcp.segmentsOut.isEmpty }

/-- What one turn of the loop is given: the answer of `poll`, whether the owner wants to
abort, and the time since the last turn. -/
structure Turn where
  answer : PollAnswer
  abort : Bool := false
  ms : ℕ := 0

/-- One turn. The first component of the result says whether the loop is left. -/
def turn (t : Turn) (rules : List Label) :
    EStateM Failure (TCPSpongeSocket α) (Bool × List Label) := do
  let (ret, rules) ← waitNextEvent (table adapter) t.answer rules
  if ret = .Exit || t.abort then
    return (true, rules)
  if (← get).tcp.active then
    modify fun w => { w with tcp := w.tcp.tick t.ms }
    zoom adapterLens (adapter.tick t.ms)
  return (false, rules)

/-- Turns as long as the condition holds, as far as they are given. -/
def tcpLoop (condition : TCPSpongeSocket α → Bool) :
    List Turn → List Label → EStateM Failure (TCPSpongeSocket α) (List Label)
  | [], rules => pure rules
  | t :: turns, rules => do
    if condition (← get) then
      let (stop, rules) ← turn adapter t rules
      if stop then
        return rules
      tcpLoop condition turns rules
    else
      return rules

end Rules

end TCPSpongeSocket

end Sponge
