import Sponge.FrameCodec
import Sponge.NetworkInterface
import Sponge.SocketThread

/-!
The adapters of a socket, with the devices below them.
A TUN device carries datagrams, a TAP device frames, and a UDP socket carries segments in
datagrams of its own. What the kernel answers is listed in advance, as for the descriptors of a
stream; beside it stand the packets that have passed in either direction. A packet goes out
whole or not at all.
-/
namespace Sponge

open Programs

/-- A TUN or a TAP device. -/
structure PacketFD where
  channel : Channel := {}
  accepts : List Bool := []
  taken : List (List UInt8) := []
  given : List (List UInt8) := []

namespace PacketFD

def channelLens : Lens PacketFD Channel := ⟨channel, fun c d => { d with channel := c }⟩

/-- `read` with its default limit. -/
def read : EStateM Failure PacketFD (List UInt8) := do
  let packet ← zoom channelLens (Channel.read (2 ^ 64 - 1))
  modify fun d => { d with taken := d.taken ++ [packet] }
  return packet

def write (packet : BufferContents) : EStateM Failure PacketFD Unit := do
  let d ← get
  match d.accepts with
  | [] => throw (.unixError "writev")
  | accepted :: accepts =>
    let views : BufferViewList := ⟨packet.buffers⟩
    let answer := if accepted then some views.size else none
    match FileDescriptor.write views true [answer] with
    | (.returned _, sent) =>
      set { d with
        accepts := accepts, given := d.given ++ [sent], channel := d.channel.registerWrite }
    | (.threw what, _) =>
      set { d with accepts := accepts }
      throw (.runtimeError what)
    | _ =>
      set { d with accepts := accepts }
      throw (.unixError "writev")

end PacketFD

structure UDPSocket where
  wrapper : FDWrapper := {}
  arrivals : List (Option (Address × List UInt8)) := []
  answers : List (Option ℕ) := []
  taken : List (List UInt8) := []
  given : List (List UInt8) := []

namespace UDPSocket

/-- `recv` with its default for the size of the largest datagram. -/
def recv : EStateM Failure UDPSocket (Address × List UInt8) := do
  let s ← get
  match s.arrivals with
  | [] => throw (.unixError "recvfrom")
  | none :: arrivals =>
    set { s with arrivals := arrivals }
    throw (.unixError "recvfrom")
  | some (source, payload) :: arrivals =>
    if payload.length > 65536 then
      set { s with arrivals := arrivals }
      throw (.runtimeError "recvfrom (oversized datagram)")
    else
      set { s with
        arrivals := arrivals
        taken := s.taken ++ [payload]
        wrapper := { s.wrapper with readCount := s.wrapper.readCount + 1 } }
      return (source, payload)

def sendto (payload : BufferContents) : EStateM Failure UDPSocket Unit := do
  let s ← get
  match s.answers with
  | some bytesSent :: answers =>
    if bytesSent ≠ payload.size then
      set { s with answers := answers }
      throw (.runtimeError "datagram payload too big for sendmsg()")
    else
      set { s with
        answers := answers
        given := s.given ++ [payload.concatenate]
        wrapper := { s.wrapper with writeCount := s.wrapper.writeCount + 1 } }
  | _ =>
    set { s with answers := s.answers.tail }
    throw (.unixError "sendmsg")

end UDPSocket

/-- A function that throws, called from the thread. -/
def raise {σ τ : Type} : Except String τ → EStateM Failure σ τ
  | .ok a => pure a
  | .error what => throw (.runtimeError what)

structure TCPOverUDPSocketAdapter where
  config : FdAdapterConfig := {}
  listening : Bool := false
  sock : UDPSocket := {}

namespace TCPOverUDPSocketAdapter

def sockLens : Lens TCPOverUDPSocketAdapter UDPSocket :=
  ⟨sock, fun s a => { a with sock := s }⟩

/-- The rest of `read`, once a datagram has been received. -/
def accept (source : Address) (payload : List UInt8) :
    EStateM Failure TCPOverUDPSocketAdapter (Option TCPSegment) := do
  let a ← get
  if !a.listening && decide (source ≠ a.config.destination) then
    return none
  else
    match ({} : TCPSegment).parse payload 0 with
    | (.noError, seg) =>
      if a.listening then
        if seg.header.syn && !seg.header.rst then
          set { a with config := { a.config with destination := source }, listening := false }
          return some seg
        else
          return none
      else
        return some seg
    | _ => return none

def read : EStateM Failure TCPOverUDPSocketAdapter (Option TCPSegment) := do
  let datagram ← zoom sockLens UDPSocket.recv
  accept datagram.1 datagram.2

def addressed (a : TCPOverUDPSocketAdapter) (seg : TCPSegment) : TCPSegment :=
  { seg with header := { seg.header with
      sport := a.config.source.port, dport := a.config.destination.port } }

def write (seg : TCPSegment) : EStateM Failure TCPOverUDPSocketAdapter Unit := do
  let payload ← raise (((← get).addressed seg).serialize 0)
  zoom sockLens (UDPSocket.sendto payload)

def adapter : Adapter TCPOverUDPSocketAdapter where
  fd a := a.sock.wrapper
  read := read
  write := write

end TCPOverUDPSocketAdapter

/-- `unwrap_tcp_in_ip`, which may change the configuration. -/
def TCPOverIPv4Adapter.unwrap (ipDgram : IPv4Datagram) :
    EStateM Failure TCPOverIPv4Adapter (Option TCPSegment) := do
  let out ← raise ((← get).unwrapTcpInIp ipDgram)
  set out.2
  return out.1

structure TCPOverIPv4OverTunFdAdapter where
  base : TCPOverIPv4Adapter := {}
  tun : PacketFD := {}

namespace TCPOverIPv4OverTunFdAdapter

def baseLens : Lens TCPOverIPv4OverTunFdAdapter TCPOverIPv4Adapter :=
  ⟨base, fun b a => { a with base := b }⟩

def tunLens : Lens TCPOverIPv4OverTunFdAdapter PacketFD := ⟨tun, fun d a => { a with tun := d }⟩

def read : EStateM Failure TCPOverIPv4OverTunFdAdapter (Option TCPSegment) := do
  let packet ← zoom tunLens PacketFD.read
  match ({} : IPv4Datagram).parse packet with
  | (.noError, ipDgram) => zoom baseLens (TCPOverIPv4Adapter.unwrap ipDgram)
  | _ => return none

def write (seg : TCPSegment) : EStateM Failure TCPOverIPv4OverTunFdAdapter Unit := do
  let wrapped ← raise ((← get).base.wrapTcpInIp seg)
  let packet ← raise wrapped.2.serialize
  zoom tunLens (PacketFD.write packet)

def adapter : Adapter TCPOverIPv4OverTunFdAdapter where
  fd a := a.tun.channel.wrapper
  read := read
  write := write

end TCPOverIPv4OverTunFdAdapter

structure TCPOverIPv4OverEthernetAdapter where
  base : TCPOverIPv4Adapter := {}
  tap : PacketFD := {}
  interface : NetworkInterface
  nextHop : Address

namespace TCPOverIPv4OverEthernetAdapter

/-- The header of a frame that nothing has been written to. -/
def blank : EthernetFrame := ⟨⟨EthernetAddress.zero, EthernetAddress.zero, 0⟩, {}⟩

def baseLens : Lens TCPOverIPv4OverEthernetAdapter TCPOverIPv4Adapter :=
  ⟨base, fun b a => { a with base := b }⟩

def tapLens : Lens TCPOverIPv4OverEthernetAdapter PacketFD := ⟨tap, fun d a => { a with tap := d }⟩

/-- The constructor: a frame to prime the device. -/
def new (tap : PacketFD) (ethAddress : EthernetAddress) (ipAddress nextHop : Address) :
    Except Failure TCPOverIPv4OverEthernetAdapter :=
  match PacketFD.write blank.serialize tap with
  | .ok _ tap => .ok
    { tap, interface := { ethernetAddress := ethAddress, ipAddress }, nextHop }
  | .error e _ => .error e

/-- Write the frame at the front of the queue and pop it, as often as there is one. -/
def sendFrames : List EthernetFrame → EStateM Failure TCPOverIPv4OverEthernetAdapter Unit
  | [] => pure ()
  | frame :: queue => do
    zoom tapLens (PacketFD.write frame.serialize)
    modify fun a =>
      { a with interface := { a.interface with framesOut := a.interface.framesOut.tail } }
    sendFrames queue

def sendPending : EStateM Failure TCPOverIPv4OverEthernetAdapter Unit := do
  sendFrames (← get).interface.framesOut

/-- A call of the interface, which may throw in the middle. -/
def callInterface {τ : Type} (call : NetworkInterface → NetworkInterface × Except String τ) :
    EStateM Failure TCPOverIPv4OverEthernetAdapter τ := do
  let a ← get
  set { a with interface := (call a.interface).1 }
  raise (call a.interface).2

def read : EStateM Failure TCPOverIPv4OverEthernetAdapter (Option TCPSegment) := do
  let packet ← zoom tapLens PacketFD.read
  match blank.parse packet with
  | (.noError, frame) =>
    let ipDgram ← callInterface (NetworkInterface.recvFrame · frame)
    sendPending
    match ipDgram with
    | some ipDgram => zoom baseLens (TCPOverIPv4Adapter.unwrap ipDgram)
    | none => return none
  | _ => return none

def tick (ms : ℕ) : EStateM Failure TCPOverIPv4OverEthernetAdapter Unit := do
  modify fun a => { a with interface := a.interface.tick ms }
  sendPending

def write (seg : TCPSegment) : EStateM Failure TCPOverIPv4OverEthernetAdapter Unit := do
  let a ← get
  let wrapped ← raise (a.base.wrapTcpInIp seg)
  callInterface (NetworkInterface.sendDatagram · wrapped.2 a.nextHop)
  sendPending

def adapter : Adapter TCPOverIPv4OverEthernetAdapter where
  fd a := a.tap.channel.wrapper
  read := read
  write := write
  tick := tick

end TCPOverIPv4OverEthernetAdapter

/-- The random numbers are those of the generator, cut to 16 bits, in the order in which they
are drawn. The rates stand in the configuration of the adapter. -/
structure LossyFdAdapter (α : Type) where
  adapter : α
  lossRateDn : UInt16 := 0
  lossRateUp : UInt16 := 0
  rand : ℕ → UInt16
  drawn : ℕ := 0

namespace LossyFdAdapter

variable {α : Type}

def adapterLens : Lens (LossyFdAdapter α) α := ⟨adapter, fun a l => { l with adapter := a }⟩

def shouldDrop (uplink : Bool) : EStateM Failure (LossyFdAdapter α) Bool := do
  let l ← get
  let loss := if uplink then l.lossRateUp else l.lossRateDn
  if loss ≠ 0 then
    set { l with drawn := l.drawn + 1 }
    return decide (l.rand l.drawn < loss)
  else
    return false

end LossyFdAdapter

open LossyFdAdapter in
/-- An adapter that drops what it reads and what it is to write at random. -/
def Adapter.lossy {α : Type} (adapter : Adapter α) : Adapter (LossyFdAdapter α) where
  fd l := adapter.fd l.adapter
  read := do
    let ret ← zoom adapterLens adapter.read
    if ← shouldDrop false then
      return none
    else
      return ret
  write seg := do
    if ← shouldDrop true then
      return ()
    else
      zoom adapterLens (adapter.write seg)
  tick ms := zoom adapterLens (adapter.tick ms)

section Texts

/-- What the functions of the stack say when they throw. -/
def stackErrors : List String :=
  ["ipv4_numeric called on non-IPV4 address",
    "BufferList: please use concatenate() to combine a multi-Buffer BufferList into one Buffer",
    "TCP header too short", "wrong IP version", "IP header too short",
    "IPv4Datagram::serialize: payload is wrong size",
    "ARPMessage::serialize(): unsupported field combination " ++
      "(must be Ethernet/IP, and request or reply)",
    "recvfrom (oversized datagram)", "datagram payload too big for sendmsg()"]

theorem foreign_of_text {what : String} (h : what ∈ stackErrors) :
    (Failure.runtimeError what).Foreign := by
  have hother : EventLoop.busyWait ∉ stackErrors.map Failure.runtimeError ∧
      TCPSpongeSocket.acceptedLess ∉ stackErrors.map Failure.runtimeError := by decide
  have hmem := List.mem_map_of_mem (f := Failure.runtimeError) h
  exact ⟨Failure.noConfusion, fun heq => hother.1 (heq ▸ hmem), fun heq => hother.2 (heq ▸ hmem)⟩

/-- If the call throws, it does so with one of these texts. -/
def Listed {τ : Type} (r : Except String τ) : Prop := ∀ what, r = .error what → what ∈ stackErrors

section Rules

variable {τ υ : Type}

theorem listed_ok (a : τ) : Listed (.ok a : Except String τ) := fun _ h => by cases h

theorem listed_error {what : String} (h : what ∈ stackErrors) :
    Listed (.error what : Except String τ) := by
  intro what' heq
  cases heq
  exact h

theorem Listed.bind {r : Except String τ} {f : τ → Except String υ} (h : Listed r)
    (hf : ∀ a, Listed (f a)) : Listed (r >>= f) := by
  cases r with
  | error what => exact listed_error (h what rfl)
  | ok a => exact hf a

end Rules

theorem listed_ipv4Numeric (a : Address) : Listed a.ipv4Numeric := by
  unfold Address.ipv4Numeric
  split
  · exact listed_ok _
  · exact listed_error (by decide)

theorem listed_toBuffer (b : BufferContents) : Listed b.toBuffer := by
  unfold BufferContents.toBuffer
  split
  · exact listed_ok _
  · exact listed_ok _
  · exact listed_error (by decide)

theorem listed_headerSerialize (h : TCPHeader) : Listed h.serialize := by
  unfold TCPHeader.serialize
  split
  · exact listed_error (by decide)
  · exact listed_ok _

theorem listed_segmentSerialize (seg : TCPSegment) (pseudo : UInt32) :
    Listed (seg.serialize pseudo) :=
  (listed_headerSerialize _).bind fun _ => (listed_headerSerialize _).bind fun _ => listed_ok _

theorem listed_ipHeaderSerialize (h : IPv4Header) : Listed h.serialize := by
  unfold IPv4Header.serialize
  split
  · exact listed_error (by decide)
  · split
    · exact listed_error (by decide)
    · exact listed_ok _

theorem listed_datagramSerialize (d : IPv4Datagram) : Listed d.serialize := by
  unfold IPv4Datagram.serialize
  split
  · exact listed_error (by decide)
  · exact (listed_ipHeaderSerialize _).bind fun _ =>
      (listed_ipHeaderSerialize _).bind fun _ => listed_ok _

theorem listed_arpSerialize (m : ARPMessage) : Listed m.serialize := by
  unfold ARPMessage.serialize
  split
  · exact listed_error (by decide)
  · exact listed_ok _

theorem listed_unwrapPayload (a : TCPOverIPv4Adapter) (d : IPv4Datagram) :
    Listed (a.unwrapPayload d) := by
  unfold TCPOverIPv4Adapter.unwrapPayload
  split
  · exact listed_ok _
  · refine (listed_toBuffer _).bind fun _ => ?_
    dsimp only
    repeat' split
    all_goals exact listed_ok _

theorem listed_unwrapTcpInIp (a : TCPOverIPv4Adapter) (d : IPv4Datagram) :
    Listed (a.unwrapTcpInIp d) := by
  unfold TCPOverIPv4Adapter.unwrapTcpInIp
  split
  · exact listed_unwrapPayload a d
  · refine (listed_ipv4Numeric _).bind fun _ => ?_
    split
    · exact listed_ok _
    · refine (listed_ipv4Numeric _).bind fun _ => ?_
      split
      · exact listed_ok _
      · exact listed_unwrapPayload a d

theorem listed_wrapTcpInIp (a : TCPOverIPv4Adapter) (seg : TCPSegment) :
    Listed (a.wrapTcpInIp seg) :=
  (listed_ipv4Numeric _).bind fun _ => (listed_ipv4Numeric _).bind fun _ =>
    (listed_segmentSerialize _ _).bind fun _ => listed_ok _

namespace NetworkInterface

variable (n : NetworkInterface)

theorem listed_sendArp (msg : ARPMessage) (dst : EthernetAddress) :
    Listed (n.sendArp msg dst).2 := by
  unfold sendArp
  split
  · rename_i what hserialize
    exact listed_error (listed_arpSerialize msg what hserialize)
  · exact listed_ok _

theorem listed_request (nextHop : UInt32) : Listed (n.request nextHop).2 := by
  unfold request
  split
  · exact listed_ok _
  · dsimp only
    split
    · rename_i what hown
      exact listed_error (listed_ipv4Numeric _ what hown)
    · exact listed_sendArp _ _ _

theorem listed_sendDatagram (d : IPv4Datagram) (nextHop : Address) :
    Listed (n.sendDatagram d nextHop).2 := by
  unfold sendDatagram
  split
  · rename_i what hhop
    exact listed_error (listed_ipv4Numeric _ what hhop)
  · split
    · split
      · rename_i what hserialize
        exact listed_error (listed_datagramSerialize d what hserialize)
      · exact listed_ok _
    · exact listed_request _ _

theorem listed_flush (ip : UInt32) (bound : ℕ) : Listed (n.flush ip bound).2 := by
  induction bound generalizing n with
  | zero => exact listed_ok _
  | succ bound ih =>
    unfold flush
    split
    · rename_i d _ _
      have hsend := n.listed_sendDatagram d (Address.fromIpv4Numeric ip)
      split
      · rename_i heq
        rw [heq] at hsend
        exact hsend
      · exact ih _
    · exact listed_ok _

theorem listed_learn (ownIp : UInt32) (msg : ARPMessage) : Listed (n.learn ownIp msg).2 := by
  have hflush := (n.enter msg).listed_flush msg.senderIpAddress
    (((n.enter msg).unsentDatagrams msg.senderIpAddress).getD []).length
  unfold learn
  dsimp only
  split
  · rename_i what heq
    rw [heq] at hflush
    exact listed_error (hflush what rfl)
  · rename_i m _
    split
    · have hreply := m.listed_sendArp (m.replyFor ownIp msg) msg.senderEthernetAddress
      split
      · rename_i what heq
        rw [heq] at hreply
        exact listed_error (hreply what rfl)
      · exact listed_ok _
    · exact listed_ok _

theorem listed_recvFrame (frame : EthernetFrame) : Listed (n.recvFrame frame).2 := by
  unfold recvFrame
  split
  · exact listed_ok _
  · split
    · split <;> exact listed_ok _
    · split
      · split
        · split
          · rename_i what hown
            exact listed_error (listed_ipv4Numeric _ what hown)
          · split
            · exact listed_ok _
            · exact n.listed_learn _ _
        · exact listed_ok _
      · exact listed_ok _

end NetworkInterface

end Texts

section Devices

theorem raise_ensures {σ τ : Type} {P : σ → Prop} {r : Except String τ} (h : Listed r) :
    Ensures P (raise r) (fun a s => P s ∧ r = .ok a) (fun e s => P s ∧ e.Foreign) := by
  cases r with
  | ok a => exact ensures_pure fun s hs => ⟨hs, rfl⟩
  | error what => exact ensures_throw fun s hs => ⟨hs, foreign_of_text (h what rfl)⟩

theorem PacketFD.read_ensures (d : PacketFD) :
    Ensures (fun d' => d' = d) PacketFD.read
      (fun packet d' => d'.taken = d.taken ++ [packet] ∧ d'.given = d.given ∧
        d'.channel.wrapper.closed = d.channel.wrapper.closed ∧
        d'.channel.wrapper.readCount ≠ d.channel.wrapper.readCount)
      (fun e d' => e.Foreign ∧ d'.taken = d.taken ∧ d'.given = d.given) := by
  have hread := zoom_ensures (l := channelLens) (s := d)
    (Channel.read_ensures d.channel (2 ^ 64 - 1))
  refine (hread.mono (fun _ => id) (fun _ _ => id) ?_).bind fun packet => ?_
  · rintro e _ ⟨c, ⟨hraised, -, -⟩, rfl⟩
    exact ⟨hraised.foreign, rfl, rfl⟩
  · refine ensures_of_start ?_
    rintro _ ⟨c, ⟨-, htook⟩, rfl⟩
    refine (ensures_modify (R := fun _ d' => d' =
      { d with channel := c, taken := d.taken ++ [packet] }) fun _ hs => hs ▸ rfl).bind fun _ => ?_
    refine ensures_pure ?_
    rintro _ rfl
    exact ⟨rfl, rfl, htook.closed, htook.count.trans_ne (Channel.count_ne _)⟩

/-- A packet that the device accepts is written in one call. -/
theorem write_whole (views : BufferViewList) :
    FileDescriptor.write views true [some views.size] = (.returned views.size, views.bytes) := by
  obtain ⟨rest, hremoved, hrest⟩ := BufferViewList.removePrefix_of_le (Nat.le_refl views.size)
  have hsize : rest.size = 0 := by
    rw [BufferViewList.size_eq, hrest, List.length_drop, BufferViewList.size_eq, Nat.sub_self]
  have hall : views.bytes.take views.size = views.bytes := by
    rw [BufferViewList.size_eq, List.take_length]
  unfold FileDescriptor.write FileDescriptor.writeLoop
  rw [if_neg (fun h => h.2 h.1), if_neg (Nat.lt_irrefl _), hremoved]
  simp [hsize, hall]

theorem PacketFD.write_ensures (d : PacketFD) (packet : BufferContents) :
    Ensures (fun d' => d' = d) (PacketFD.write packet)
      (fun _ d' => d'.taken = d.taken ∧ d'.given = d.given ++ [packet.concatenate] ∧
        d'.channel.wrapper.closed = d.channel.wrapper.closed ∧
        d'.channel.wrapper.readCount = d.channel.wrapper.readCount)
      (fun e d' => e.Foreign ∧ d'.taken = d.taken ∧ d'.given = d.given) := by
  have hbytes : (⟨packet.buffers⟩ : BufferViewList).bytes = packet.concatenate := by
    simp [BufferViewList.bytes, Pieces.joined, BufferContents.concatenate]
  refine ensures_get_bind ?_
  rintro d rfl
  split
  · refine ensures_throw ?_
    rintro _ rfl
    exact ⟨(Channel.raised_unixError _).foreign, rfl, rfl⟩
  · rename_i accepted accepts _
    cases accepted with
    | true =>
      simp only [if_true, write_whole]
      refine ensures_set fun _ _ => ?_
      exact ⟨rfl, by rw [hbytes], rfl, rfl⟩
    | false =>
      refine (ensures_set (R := fun _ d' => d' = { d with accepts := accepts })
        fun _ _ => rfl).bind fun _ => ensures_throw ?_
      rintro _ rfl
      exact ⟨(Channel.raised_unixError _).foreign, rfl, rfl⟩

theorem UDPSocket.recv_ensures (s : UDPSocket) :
    Ensures (fun s' => s' = s) UDPSocket.recv
      (fun datagram s' => s'.taken = s.taken ++ [datagram.2] ∧ s'.given = s.given ∧
        s'.wrapper.closed = s.wrapper.closed ∧ s'.wrapper.readCount ≠ s.wrapper.readCount)
      (fun e s' => e.Foreign ∧ s'.taken = s.taken ∧ s'.given = s.given) := by
  refine ensures_get_bind ?_
  rintro s rfl
  split
  · refine ensures_throw ?_
    rintro _ rfl
    exact ⟨(Channel.raised_unixError _).foreign, rfl, rfl⟩
  · rename_i arrivals _
    refine (ensures_set (R := fun _ s' => s' = { s with arrivals := arrivals })
      fun _ _ => rfl).bind fun _ => ensures_throw ?_
    rintro _ rfl
    exact ⟨(Channel.raised_unixError _).foreign, rfl, rfl⟩
  · rename_i source payload arrivals _
    split
    · refine (ensures_set (R := fun _ s' => s' = { s with arrivals := arrivals })
        fun _ _ => rfl).bind fun _ => ensures_throw ?_
      rintro _ rfl
      exact ⟨foreign_of_text (by decide), rfl, rfl⟩
    · refine (ensures_set (R := fun _ s' => s' = { s with
        arrivals := arrivals
        taken := s.taken ++ [payload]
        wrapper := { s.wrapper with readCount := s.wrapper.readCount + 1 } })
        fun _ _ => rfl).bind fun _ => ensures_pure ?_
      rintro _ rfl
      exact ⟨rfl, rfl, rfl, Channel.count_ne _⟩

theorem UDPSocket.sendto_ensures (s : UDPSocket) (payload : BufferContents) :
    Ensures (fun s' => s' = s) (UDPSocket.sendto payload)
      (fun _ s' => s'.taken = s.taken ∧ s'.given = s.given ++ [payload.concatenate] ∧
        s'.wrapper.closed = s.wrapper.closed)
      (fun e s' => e.Foreign ∧ s'.taken = s.taken ∧ s'.given = s.given) := by
  refine ensures_get_bind ?_
  rintro s rfl
  split
  · rename_i n answers _
    split
    · refine (ensures_set (R := fun _ s' => s' = { s with answers := answers })
        fun _ _ => rfl).bind fun _ => ensures_throw ?_
      rintro _ rfl
      exact ⟨foreign_of_text (by decide), rfl, rfl⟩
    · exact ensures_set fun _ _ => ⟨rfl, rfl, rfl⟩
  · refine (ensures_set (R := fun _ s' => s' = { s with answers := s.answers.tail })
      fun _ _ => rfl).bind fun _ => ensures_throw ?_
    rintro _ rfl
    exact ⟨(Channel.raised_unixError _).foreign, rfl, rfl⟩

end Devices

end Sponge
