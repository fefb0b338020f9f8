import Sponge.ARPMessage
import Sponge.TCPOverIP
import Sponge.Tables
import Sponge.Words

/-!
The network interface between IP and Ethernet.
A call that throws leaves behind what it had done until then, so every call
returns the interface together with its result. Frames are pushed to `framesOut`
and stay there: it is the record of all frames ever pushed. `dispatched` is a ghost
record beside it, of the IPv4 frames with the datagram and the next hop they were
pushed for, which the frame itself does not show.
-/
namespace Sponge

open Words

/-- An IPv4 frame, with the datagram it carries and the next hop it was pushed for. -/
structure Dispatch where
  nextHop : UInt32
  dgram : IPv4Datagram
  frame : EthernetFrame
  deriving DecidableEq, Repr

structure NetworkInterface.Entry where
  ethAddr : EthernetAddress
  timeElapsed : ℕ
  deriving DecidableEq, Repr

structure NetworkInterface where
  ethernetAddress : EthernetAddress
  ipAddress : Address
  framesOut : List EthernetFrame := []
  forwardingTable : Table UInt32 NetworkInterface.Entry := Table.empty
  outstandingMsg : Table UInt32 ℕ := Table.empty
  unsentDatagrams : Table UInt32 (List IPv4Datagram) := Table.empty
  dispatched : List Dispatch := []

namespace NetworkInterface

def MSG_EXPIRY : ℕ := 5000

def ENTRY_EXPIRY : ℕ := 30000

def ARPMSG_ETHERNET_BROADCAST : EthernetAddress := .ofOctets 0x00 0x00 0x00 0x00 0x00 0x00

def push (n : NetworkInterface) (frame : EthernetFrame) : NetworkInterface :=
  { n with framesOut := n.framesOut ++ [frame] }

/-- The IPv4 frame of this interface to an Ethernet address. -/
def frameTo (n : NetworkInterface) (dst : EthernetAddress) (payload : BufferContents) :
    EthernetFrame :=
  ⟨⟨dst, n.ethernetAddress, EthernetHeader.TYPE_IPv4⟩, payload⟩

/-- Pushes the frame of a datagram for a next hop whose Ethernet address is known. -/
def dispatch (n : NetworkInterface) (nextHop : UInt32) (dgram : IPv4Datagram)
    (frame : EthernetFrame) : NetworkInterface :=
  { n.push frame with dispatched := n.dispatched ++ [⟨nextHop, dgram, frame⟩] }

/-- Puts an ARP message into a frame for dst. -/
def sendArp (n : NetworkInterface) (msg : ARPMessage) (dst : EthernetAddress) :
    NetworkInterface × Except String Unit :=
  match msg.serialize with
  | .error e => (n, .error e)
  | .ok payload =>
    (n.push ⟨⟨dst, n.ethernetAddress, EthernetHeader.TYPE_ARP⟩, BufferContents.ofBuffer payload⟩,
      .ok ())

def enqueue (n : NetworkInterface) (nextHop : UInt32) (dgram : IPv4Datagram) :
    NetworkInterface :=
  let queue := (n.unsentDatagrams nextHop).getD []
  { n with unsentDatagrams := n.unsentDatagrams.assign nextHop (queue ++ [dgram]) }

/-- The ARP request of an interface with the IPv4 address ownIp. -/
def requestFor (n : NetworkInterface) (ownIp nextHop : UInt32) : ARPMessage :=
  { opcode := ARPMessage.OPCODE_REQUEST
    senderEthernetAddress := n.ethernetAddress
    senderIpAddress := ownIp
    targetEthernetAddress := ARPMSG_ETHERNET_BROADCAST
    targetIpAddress := nextHop }

/-- Broadcasts an ARP request, unless one is outstanding. -/
def request (n : NetworkInterface) (nextHop : UInt32) : NetworkInterface × Except String Unit :=
  match n.outstandingMsg nextHop with
  | some _ => (n, .ok ())
  | none =>
    let n := { n with outstandingMsg := n.outstandingMsg.insert nextHop 0 }
    match n.ipAddress.ipv4Numeric with
    | .error e => (n, .error e)
    | .ok ownIp => n.sendArp (n.requestFor ownIp nextHop) ETHERNET_BROADCAST

def sendDatagram (n : NetworkInterface) (dgram : IPv4Datagram) (nextHop : Address) :
    NetworkInterface × Except String Unit :=
  match nextHop.ipv4Numeric with
  | .error e => (n, .error e)
  | .ok nextHopIp =>
    match n.forwardingTable nextHopIp with
    | some entry =>
      match dgram.serialize with
      | .error e => (n, .error e)
      | .ok payload => (n.dispatch nextHopIp dgram (n.frameTo entry.ethAddr payload), .ok ())
    | none => (n.enqueue nextHopIp dgram).request nextHopIp

/-- `queue::pop` on the datagrams that wait for ip. -/
def popUnsent (n : NetworkInterface) (ip : UInt32) : NetworkInterface :=
  { n with unsentDatagrams :=
      n.unsentDatagrams.assign ip ((n.unsentDatagrams ip).getD []).tail }

/-- The loop that sends the datagrams waiting for ip. The queue is read again in each
round; the bound is the length it had at first. -/
def flush (n : NetworkInterface) (ip : UInt32) : ℕ → NetworkInterface × Except String Unit
  | 0 => (n, .ok ())
  | bound + 1 =>
    match n.unsentDatagrams ip with
    | some (dgram :: _) =>
      match n.sendDatagram dgram (Address.fromIpv4Numeric ip) with
      | (n, .error e) => (n, .error e)
      | (n, .ok ()) => (n.popUnsent ip).flush ip bound
    | _ => (n, .ok ())

def replyFor (n : NetworkInterface) (ownIp : UInt32) (msg : ARPMessage) : ARPMessage :=
  { opcode := ARPMessage.OPCODE_REPLY
    senderEthernetAddress := n.ethernetAddress
    senderIpAddress := ownIp
    targetEthernetAddress := msg.senderEthernetAddress
    targetIpAddress := msg.senderIpAddress }

/-- Enters the sender's mapping, which does not replace an older one. -/
def enter (n : NetworkInterface) (msg : ARPMessage) : NetworkInterface :=
  { n with forwardingTable :=
      n.forwardingTable.insert msg.senderIpAddress ⟨msg.senderEthernetAddress, 0⟩ }

/-- An ARP message for this interface: learn, send what waits, and answer a request. -/
def learn (n : NetworkInterface) (ownIp : UInt32) (msg : ARPMessage) :
    NetworkInterface × Except String (Option IPv4Datagram) :=
  let n := n.enter msg
  let waiting := (n.unsentDatagrams msg.senderIpAddress).getD []
  match n.flush msg.senderIpAddress waiting.length with
  | (n, .error e) => (n, .error e)
  | (n, .ok ()) =>
    if msg.opcode = ARPMessage.OPCODE_REQUEST then
      match n.sendArp (n.replyFor ownIp msg) msg.senderEthernetAddress with
      | (n, .error e) => (n, .error e)
      | (n, .ok ()) => (n, .ok none)
    else ({ n with outstandingMsg := n.outstandingMsg.erase msg.senderIpAddress }, .ok none)

def recvFrame (n : NetworkInterface) (frame : EthernetFrame) :
    NetworkInterface × Except String (Option IPv4Datagram) :=
  if frame.header.dst ≠ n.ethernetAddress ∧ frame.header.dst ≠ ETHERNET_BROADCAST then
    (n, .ok none)
  else if frame.header.type = EthernetHeader.TYPE_IPv4 then
    match ({} : IPv4Datagram).parse frame.payload.concatenate with
    | (.noError, dgram) => (n, .ok (some dgram))
    | _ => (n, .ok none)
  else if frame.header.type = EthernetHeader.TYPE_ARP then
    match ({} : ARPMessage).parse frame.payload.concatenate with
    | (.noError, msg) =>
      match n.ipAddress.ipv4Numeric with
      | .error e => (n, .error e)
      | .ok ownIp =>
        if msg.targetIpAddress ≠ ownIp then (n, .ok none) else n.learn ownIp msg
    | _ => (n, .ok none)
  else (n, .ok none)

/-- The age of an entry grows by 64-bit addition, as long as it does not exceed the expiry. -/
def Entry.older (ms : ℕ) (entry : Entry) : Option Entry :=
  if ENTRY_EXPIRY < wrapAdd 64 entry.timeElapsed ms then none
  else some { entry with timeElapsed := wrapAdd 64 entry.timeElapsed ms }

/-- An entry that stays keeps its address, and its age is counted in 64 bits. -/
theorem Entry.older_eq_some {ms : ℕ} {entry entry' : Entry} (h : entry.older ms = some entry') :
    entry'.ethAddr = entry.ethAddr ∧ entry'.timeElapsed ≤ ENTRY_EXPIRY ∧
      entry'.timeElapsed = (entry.timeElapsed + ms) % 2 ^ 64 := by
  unfold Entry.older at h
  split at h
  · exact absurd h (by simp)
  · rename_i hage
    rw [← Option.some.inj h]
    exact ⟨rfl, Nat.not_lt.mp hage, rfl⟩

def tick (n : NetworkInterface) (msSinceLastTick : ℕ) : NetworkInterface :=
  { n with
    forwardingTable := n.forwardingTable.refresh (Entry.older msSinceLastTick)
    outstandingMsg := n.outstandingMsg.refresh fun elapsed =>
      if MSG_EXPIRY < wrapAdd 64 elapsed msSinceLastTick then none
      else some (wrapAdd 64 elapsed msSinceLastTick) }

/-- The datagrams that wait for the Ethernet address of x. -/
def pending (n : NetworkInterface) (x : UInt32) : List IPv4Datagram :=
  (n.unsentDatagrams x).getD []

/-- The datagrams of the frames pushed for next hop x. -/
def carried (n : NetworkInterface) (x : UInt32) : List IPv4Datagram :=
  (n.dispatched.filter (·.nextHop = x)).map Dispatch.dgram

/-- A frame with an ARP message of n: the sender fields are n's own addresses. -/
def Announces (n : NetworkInterface) (frame : EthernetFrame) : Prop :=
  frame.header.type = EthernetHeader.TYPE_ARP ∧
    ∃ (ip : UInt32) (msg : ARPMessage), n.ipAddress.ipv4 = some ip ∧ msg.supported = true ∧
      msg.senderEthernetAddress = n.ethernetAddress ∧ msg.senderIpAddress = ip ∧
      frame.payload.concatenate = msg.bytes

/-- All that has happened between n and n' are changes to the outstanding requests and
announcements. -/
structure Quiet (n n' : NetworkInterface) : Prop where
  ethernetAddress : n'.ethernetAddress = n.ethernetAddress
  ipAddress : n'.ipAddress = n.ipAddress
  forwardingTable : n'.forwardingTable = n.forwardingTable
  unsentDatagrams : n'.unsentDatagrams = n.unsentDatagrams
  dispatched : n'.dispatched = n.dispatched
  framesOut : ∃ frames, n'.framesOut = n.framesOut ++ frames ∧ ∀ f ∈ frames, n.Announces f

theorem quiet_of_outstanding (n : NetworkInterface) (outstanding : Table UInt32 ℕ) :
    n.Quiet { n with outstandingMsg := outstanding } where
  ethernetAddress := rfl
  ipAddress := rfl
  forwardingTable := rfl
  unsentDatagrams := rfl
  dispatched := rfl
  framesOut := ⟨[], (List.append_nil _).symm, by simp⟩

theorem sendArp_of_supported (n : NetworkInterface) {msg : ARPMessage}
    (h : msg.supported = true) (dst : EthernetAddress) :
    n.sendArp msg dst = (n.push ⟨⟨dst, n.ethernetAddress, EthernetHeader.TYPE_ARP⟩,
      BufferContents.ofBuffer msg.bytes⟩, .ok ()) := by
  rw [sendArp, ARPMessage.serialize_of_supported h]

/-- A frame whose message has the addresses of n in its sender fields is an announcement. -/
theorem push_quiet {n : NetworkInterface} {ip : UInt32} {msg : ARPMessage}
    (hip : n.ipAddress.ipv4 = some ip) (hsupported : msg.supported = true)
    (heth : msg.senderEthernetAddress = n.ethernetAddress) (hsender : msg.senderIpAddress = ip)
    (dst : EthernetAddress) :
    n.Quiet (n.push ⟨⟨dst, n.ethernetAddress, EthernetHeader.TYPE_ARP⟩,
      BufferContents.ofBuffer msg.bytes⟩) := by
  refine ⟨rfl, rfl, rfl, rfl, rfl, _, rfl, ?_⟩
  intro f hf
  rw [List.mem_singleton] at hf
  subst hf
  exact ⟨rfl, ip, msg, hip, hsupported, heth, hsender, BufferContents.concatenate_ofBuffer _⟩

theorem sendArp_quiet {n : NetworkInterface} {ip : UInt32} {msg : ARPMessage}
    (hip : n.ipAddress.ipv4 = some ip) (hsupported : msg.supported = true)
    (heth : msg.senderEthernetAddress = n.ethernetAddress) (hsender : msg.senderIpAddress = ip)
    (dst : EthernetAddress) :
    ∃ n', n.sendArp msg dst = (n', .ok ()) ∧ n.Quiet n' :=
  ⟨_, n.sendArp_of_supported hsupported dst, push_quiet hip hsupported heth hsender dst⟩

theorem Quiet.trans_outstanding {n n' : NetworkInterface} {outstanding : Table UInt32 ℕ}
    (h : Quiet { n with outstandingMsg := outstanding } n') : n.Quiet n' where
  ethernetAddress := h.ethernetAddress
  ipAddress := h.ipAddress
  forwardingTable := h.forwardingTable
  unsentDatagrams := h.unsentDatagrams
  dispatched := h.dispatched
  framesOut := h.framesOut

/-- The interface with a request for nextHop on record. -/
def recorded (n : NetworkInterface) (nextHop : UInt32) : NetworkInterface :=
  { n with outstandingMsg := n.outstandingMsg.insert nextHop 0 }

def requestFrame (n : NetworkInterface) (ownIp nextHop : UInt32) : EthernetFrame :=
  ⟨⟨ETHERNET_BROADCAST, n.ethernetAddress, EthernetHeader.TYPE_ARP⟩,
    BufferContents.ofBuffer (n.requestFor ownIp nextHop).bytes⟩

/-- What becomes of a request: one is outstanding, or it is recorded, and then written if the
interface has an IPv4 address to write it with. -/
inductive RequestOutcome (n : NetworkInterface) (nextHop : UInt32) : Prop where
  | outstanding (elapsed : ℕ) (hout : n.outstandingMsg nextHop = some elapsed)
      (h : n.request nextHop = (n, .ok ()))
  | failed (e : String) (hout : n.outstandingMsg nextHop = none) (hip : n.ipAddress.ipv4 = none)
      (h : n.request nextHop = (n.recorded nextHop, .error e))
  | pushed (ip : UInt32) (hout : n.outstandingMsg nextHop = none)
      (hip : n.ipAddress.ipv4 = some ip)
      (h : n.request nextHop = ((n.recorded nextHop).push (n.requestFrame ip nextHop), .ok ()))

theorem requestOutcome (n : NetworkInterface) (nextHop : UInt32) : n.RequestOutcome nextHop := by
  cases hout : n.outstandingMsg nextHop with
  | some elapsed => exact .outstanding elapsed hout (by simp only [request, hout])
  | none =>
    cases hip : n.ipAddress.ipv4 with
    | none =>
      refine .failed "ipv4_numeric called on non-IPV4 address" hout hip ?_
      simp only [request, hout, Address.ipv4Numeric, hip]
      rfl
    | some ip =>
      refine .pushed ip hout hip ?_
      simp only [request, hout, Address.ipv4Numeric, hip]
      exact (n.recorded nextHop).sendArp_of_supported
        (show (n.requestFor ip nextHop).supported = true from rfl) ETHERNET_BROADCAST

/-- An interface without an IPv4 address throws when it is to write a request. -/
theorem request_quiet (n : NetworkInterface) (nextHop : UInt32) :
    n.Quiet (n.request nextHop).1 ∧
      (n.ipAddress.ipv4 ≠ none → (n.request nextHop).2 = .ok ()) := by
  cases n.requestOutcome nextHop with
  | outstanding elapsed _ hrequest =>
    rw [hrequest]
    exact ⟨n.quiet_of_outstanding n.outstandingMsg, fun _ => rfl⟩
  | failed e _ hip hrequest =>
    rw [hrequest]
    exact ⟨n.quiet_of_outstanding _, fun h => absurd hip h⟩
  | pushed ip _ hip hrequest =>
    have hpush : (n.recorded nextHop).Quiet
        ((n.recorded nextHop).push (n.requestFrame ip nextHop)) :=
      push_quiet (show (n.recorded nextHop).ipAddress.ipv4 = some ip from hip)
        (show (n.requestFor ip nextHop).supported = true from rfl) rfl rfl ETHERNET_BROADCAST
    rw [hrequest]
    exact ⟨hpush.trans_outstanding, fun _ => rfl⟩

theorem sendDatagram_known {n : NetworkInterface} {d : IPv4Datagram} {nextHop : Address}
    {x : UInt32} {entry : Entry} (hx : nextHop.ipv4 = some x)
    (htable : n.forwardingTable x = some entry) (hd : d.WellFormed) :
    n.sendDatagram d nextHop =
      (n.dispatch x d (n.frameTo entry.ethAddr d.encoded), .ok ()) := by
  simp [sendDatagram, Address.ipv4Numeric, hx, htable,
    IPv4Datagram.serialize_of_wellFormed hd]

theorem sendDatagram_unknown {n : NetworkInterface} {nextHop : Address} {x : UInt32}
    (hx : nextHop.ipv4 = some x) (htable : n.forwardingTable x = none) (d : IPv4Datagram) :
    n.sendDatagram d nextHop = (n.enqueue x d).request x := by
  simp [sendDatagram, Address.ipv4Numeric, hx, htable]

theorem pending_enqueue (n : NetworkInterface) (x : UInt32) (d : IPv4Datagram) (y : UInt32) :
    (n.enqueue x d).pending y = if y = x then n.pending x ++ [d] else n.pending y := by
  by_cases hy : y = x
  · subst hy
    simp [pending, enqueue]
  · simp [pending, enqueue, Table.assign_of_ne, hy]

/-- What holds of all that waits holds after one more datagram with it waits. -/
theorem forall_pending_enqueue {P : IPv4Datagram → Prop} {n : NetworkInterface}
    (h : ∀ y, ∀ d ∈ n.pending y, P d) (x : UInt32) {d : IPv4Datagram} (hd : P d) :
    ∀ y, ∀ d' ∈ (n.enqueue x d).pending y, P d' := by
  intro y d' hd'
  rw [pending_enqueue] at hd'
  by_cases hy : y = x
  · rw [if_pos hy] at hd'
    rcases List.mem_append.mp hd' with hold | hnew
    · exact h x d' hold
    · rw [List.mem_singleton.mp hnew]
      exact hd
  · rw [if_neg hy] at hd'
    exact h y d' hd'

theorem Quiet.pending {n n' : NetworkInterface} (hq : n.Quiet n') : n'.pending = n.pending := by
  funext x
  rw [NetworkInterface.pending, NetworkInterface.pending, hq.unsentDatagrams]

theorem pending_popUnsent (n : NetworkInterface) (x y : UInt32) :
    (n.popUnsent x).pending y = if y = x then (n.pending x).tail else n.pending y := by
  by_cases hy : y = x
  · subst hy
    simp [pending, popUnsent]
  · simp [pending, popUnsent, Table.assign_of_ne, hy]

/-- The datagrams that waited for x have been sent to the address of the entry, in order. -/
structure Flushed (x : UInt32) (entry : Entry) (n n' : NetworkInterface) : Prop where
  ethernetAddress : n'.ethernetAddress = n.ethernetAddress
  ipAddress : n'.ipAddress = n.ipAddress
  forwardingTable : n'.forwardingTable = n.forwardingTable
  framesOut : n'.framesOut =
    n.framesOut ++ (n.pending x).map fun d => n.frameTo entry.ethAddr d.encoded
  dispatched : n'.dispatched =
    n.dispatched ++ (n.pending x).map fun d => ⟨x, d, n.frameTo entry.ethAddr d.encoded⟩
  pending : ∀ y, n'.pending y = if y = x then [] else n.pending y

theorem Flushed.forall_pending {P : IPv4Datagram → Prop} {x : UInt32} {entry : Entry}
    {n n' : NetworkInterface} (hn : Flushed x entry n n') (h : ∀ y, ∀ d ∈ n.pending y, P d) :
    ∀ y, ∀ d ∈ n'.pending y, P d := by
  intro y d hd
  rw [hn.pending y] at hd
  by_cases hy : y = x
  · rw [if_pos hy] at hd
    exact absurd hd List.not_mem_nil
  · rw [if_neg hy] at hd
    exact h y d hd

theorem flushed_of_empty {x : UInt32} {n : NetworkInterface} (h : n.pending x = [])
    (entry : Entry) : Flushed x entry n n := by
  refine ⟨rfl, rfl, rfl, by simp [h], by simp [h], ?_⟩
  intro y
  by_cases hy : y = x
  · rw [if_pos hy, hy, h]
  · rw [if_neg hy]

theorem pending_round {n : NetworkInterface} {x : UInt32} {d : IPv4Datagram}
    {queue : List IPv4Datagram} (hpending : n.pending x = d :: queue) (frame : EthernetFrame)
    (y : UInt32) :
    ((n.dispatch x d frame).popUnsent x).pending y = if y = x then queue else n.pending y := by
  rw [pending_popUnsent]
  have htail : ((n.dispatch x d frame).pending x).tail = queue := congrArg List.tail hpending
  rw [htail]
  rfl

/-- One round of the loop before the others. -/
theorem Flushed.round {n n' : NetworkInterface} {x : UInt32} {entry : Entry} {d : IPv4Datagram}
    {queue : List IPv4Datagram} (hpending : n.pending x = d :: queue)
    (h : Flushed x entry ((n.dispatch x d (n.frameTo entry.ethAddr d.encoded)).popUnsent x) n') :
    Flushed x entry n n' := by
  have hround := pending_round hpending (n.frameTo entry.ethAddr d.encoded)
  have hframes := h.framesOut
  have hdispatched := h.dispatched
  rw [hround x, if_pos rfl] at hframes hdispatched
  refine ⟨h.ethernetAddress, h.ipAddress, h.forwardingTable, ?_, ?_, ?_⟩
  · rw [hframes, hpending]
    exact List.append_assoc _ _ _
  · rw [hdispatched, hpending]
    exact List.append_assoc _ _ _
  · intro y
    rw [h.pending y, hround y]
    by_cases hy : y = x
    · rw [if_pos hy, if_pos hy]
    · rw [if_neg hy, if_neg hy, if_neg hy]

/-- The loop ends with an empty queue: each round takes the known path, which does not
queue the datagram again. -/
theorem flush_rule {n : NetworkInterface} {x : UInt32} {entry : Entry}
    (htable : n.forwardingTable x = some entry) (hwf : ∀ d ∈ n.pending x, d.WellFormed)
    {bound : ℕ} (hbound : (n.pending x).length ≤ bound) :
    ∃ n', n.flush x bound = (n', .ok ()) ∧ Flushed x entry n n' := by
  induction bound generalizing n with
  | zero =>
    have hempty := List.length_eq_zero_iff.mp (Nat.le_zero.mp hbound)
    exact ⟨n, rfl, flushed_of_empty hempty entry⟩
  | succ bound ih =>
    cases hqueue : n.unsentDatagrams x with
    | none => exact ⟨n, by simp [flush, hqueue], flushed_of_empty (by simp [pending, hqueue]) entry⟩
    | some queue =>
      cases queue with
      | nil =>
        exact ⟨n, by simp [flush, hqueue], flushed_of_empty (by simp [pending, hqueue]) entry⟩
      | cons d queue =>
        have hpending : n.pending x = d :: queue := by simp [pending, hqueue]
        rw [hpending] at hwf hbound
        have hsend : n.sendDatagram d (Address.fromIpv4Numeric x) = _ :=
          sendDatagram_known rfl htable (hwf d List.mem_cons_self)
        have htail := pending_round hpending (n.frameTo entry.ethAddr d.encoded) x
        rw [if_pos rfl] at htail
        obtain ⟨n', hflush, hflushed⟩ := ih
          (n := (n.dispatch x d (n.frameTo entry.ethAddr d.encoded)).popUnsent x) htable
          (by rw [htail]; exact fun d' hd' => hwf d' (List.mem_cons_of_mem d hd'))
          (by rw [htail]; simpa using hbound)
        exact ⟨n', by simp [flush, hqueue, hsend, hflush], hflushed.round hpending⟩

/-- An ARP message for this interface is learned from without an exception, if what waits
for its sender can be serialized. -/
theorem learn_rule {n : NetworkInterface} {ownIp : UInt32} {msg : ARPMessage}
    (hip : n.ipAddress.ipv4 = some ownIp)
    (hwf : ∀ d ∈ n.pending msg.senderIpAddress, d.WellFormed) :
    ∃ m n', n.learn ownIp msg = (n', .ok none) ∧
      Flushed msg.senderIpAddress ((n.forwardingTable msg.senderIpAddress).getD
        ⟨msg.senderEthernetAddress, 0⟩) (n.enter msg) m ∧ m.Quiet n' := by
  have htable : (n.enter msg).forwardingTable msg.senderIpAddress =
      some ((n.forwardingTable msg.senderIpAddress).getD ⟨msg.senderEthernetAddress, 0⟩) :=
    Table.insert_self _ _ _
  obtain ⟨m, hflush, hflushed⟩ := flush_rule htable hwf (Nat.le_refl _)
  have hflush' : (n.enter msg).flush msg.senderIpAddress
      (((n.enter msg).unsentDatagrams msg.senderIpAddress).getD []).length = (m, .ok ()) := hflush
  have hown : m.ipAddress.ipv4 = some ownIp := by
    rw [hflushed.ipAddress]
    exact hip
  by_cases hrequest : msg.opcode = ARPMessage.OPCODE_REQUEST
  · obtain ⟨n', hsend, hquiet⟩ := sendArp_quiet hown
      (show (m.replyFor ownIp msg).supported = true from rfl) rfl rfl msg.senderEthernetAddress
    refine ⟨m, n', ?_, hflushed, hquiet⟩
    simp only [learn, hflush', hrequest, if_true, hsend]
  · refine ⟨m, _, ?_, hflushed,
      m.quiet_of_outstanding (m.outstandingMsg.erase msg.senderIpAddress)⟩
    simp only [learn, hflush', hrequest, if_false]

/-- What a received frame can do: nothing, pass a datagram up, fail at an interface without
an IPv4 address, or teach a mapping. -/
inductive Reaction (n : NetworkInterface) (frame : EthernetFrame) : Prop where
  | ignored (h : n.recvFrame frame = (n, .ok none))
  | passed (d : IPv4Datagram)
      (hours : frame.header.dst = n.ethernetAddress ∨ frame.header.dst = ETHERNET_BROADCAST)
      (htype : frame.header.type = EthernetHeader.TYPE_IPv4)
      (hparse : ({} : IPv4Datagram).parse frame.payload.concatenate = (.noError, d))
      (h : n.recvFrame frame = (n, .ok (some d)))
  | failed (e : String) (hip : n.ipAddress.ipv4 = none)
      (htype : frame.header.type = EthernetHeader.TYPE_ARP) (h : n.recvFrame frame = (n, .error e))
  | learned (ownIp : UInt32) (msg : ARPMessage) (hip : n.ipAddress.ipv4 = some ownIp)
      (htype : frame.header.type = EthernetHeader.TYPE_ARP)
      (hparse : ({} : ARPMessage).parse frame.payload.concatenate = (.noError, msg))
      (h : n.recvFrame frame = n.learn ownIp msg)

theorem reaction (n : NetworkInterface) (frame : EthernetFrame) : n.Reaction frame := by
  by_cases hours : frame.header.dst ≠ n.ethernetAddress ∧ frame.header.dst ≠ ETHERNET_BROADCAST
  · exact .ignored (by rw [recvFrame, if_pos hours])
  by_cases hipv4 : frame.header.type = EthernetHeader.TYPE_IPv4
  · cases hparse : ({} : IPv4Datagram).parse frame.payload.concatenate with
    | mk result d =>
      by_cases hok : result = .noError
      · subst hok
        refine .passed d ?_ hipv4 hparse (by rw [recvFrame, if_neg hours, if_pos hipv4, hparse])
        by_cases hown : frame.header.dst = n.ethernetAddress
        · exact Or.inl hown
        · exact Or.inr (Classical.byContradiction fun hbroadcast => hours ⟨hown, hbroadcast⟩)
      · refine .ignored ?_
        rw [recvFrame, if_neg hours, if_pos hipv4, hparse]
        cases result <;> first | rfl | exact absurd rfl hok
  by_cases harp : frame.header.type = EthernetHeader.TYPE_ARP
  · cases hparse : ({} : ARPMessage).parse frame.payload.concatenate with
    | mk result msg =>
      by_cases hok : result = .noError
      · subst hok
        cases hip : n.ipAddress.ipv4 with
        | none =>
          refine .failed "ipv4_numeric called on non-IPV4 address" hip harp ?_
          simp only [recvFrame, if_neg hours, if_neg hipv4, if_pos harp, hparse,
            Address.ipv4Numeric, hip]
        | some ownIp =>
          have hrecv : n.recvFrame frame =
              if msg.targetIpAddress ≠ ownIp then (n, .ok none) else n.learn ownIp msg := by
            simp only [recvFrame, if_neg hours, if_neg hipv4, if_pos harp, hparse,
              Address.ipv4Numeric, hip]
          by_cases htarget : msg.targetIpAddress = ownIp
          · exact .learned ownIp msg hip harp hparse
              (hrecv.trans (if_neg (not_not_intro htarget)))
          · exact .ignored (hrecv.trans (if_pos htarget))
      · refine .ignored ?_
        rw [recvFrame, if_neg hours, if_neg hipv4, if_pos harp, hparse]
        cases result <;> first | rfl | exact absurd rfl hok
  · exact .ignored (by rw [recvFrame, if_neg hours, if_neg hipv4, if_neg harp])

end NetworkInterface

end Sponge
