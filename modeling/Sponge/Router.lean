import Sponge.NetworkInterface
import Sponge.Runs

/-!
The router: interfaces that queue what they receive, and a routing table searched
from the longest prefix to the shortest. A call that throws leaves the router as
it was when the exception rose; in particular the datagram stays at the head of
its queue, with its time to live already decremented.
-/
namespace Sponge

structure AsyncNetworkInterface extends NetworkInterface where
  datagramsOut : List IPv4Datagram := []

namespace AsyncNetworkInterface

def recvFrame (a : AsyncNetworkInterface) (frame : EthernetFrame) :
    AsyncNetworkInterface × Except String Unit :=
  match a.toNetworkInterface.recvFrame frame with
  | (n, .error e) => ({ a with toNetworkInterface := n }, .error e)
  | (n, .ok none) => ({ a with toNetworkInterface := n }, .ok ())
  | (n, .ok (some dgram)) =>
    ({ a with toNetworkInterface := n, datagramsOut := a.datagramsOut ++ [dgram] }, .ok ())

end AsyncNetworkInterface

structure InterfaceOut where
  nextHop : Option Address
  interfaceNum : ℕ
  deriving DecidableEq, Repr

structure Router where
  interfaces : List AsyncNetworkInterface := []
  routingTable : Table UInt8 (Table UInt32 InterfaceOut) := Table.empty

namespace Router

def getMask (prefixLen : UInt8) : UInt32 :=
  if prefixLen = 0 ∨ 32 < prefixLen then 0 else 0xffffffff <<< (32 - prefixLen.toUInt32)

def addInterface (r : Router) (interface : AsyncNetworkInterface) : Router :=
  { r with interfaces := r.interfaces ++ [interface] }

/-- An existing route for the same prefix is kept. -/
def addRoute (r : Router) (routePrefix : UInt32) (prefixLength : UInt8)
    (nextHop : Option Address) (interfaceNum : ℕ) : Router :=
  let prefixes := (r.routingTable prefixLength).getD Table.empty
  let prefixes := prefixes.insert (routePrefix &&& getMask prefixLength) ⟨nextHop, interfaceNum⟩
  { r with routingTable := r.routingTable.assign prefixLength prefixes }

/-- The keys of the routing table in the order of its reverse iteration. -/
def prefixLengths : List UInt8 := (List.range 256).reverse.map UInt8.ofNat

/-- The route with the longest prefix that matches dst. -/
def lookup (r : Router) (dst : UInt32) : Option InterfaceOut :=
  prefixLengths.findSome? fun prefixLength =>
    (r.routingTable prefixLength).bind fun prefixes => prefixes (dst &&& getMask prefixLength)

/-- Hands a datagram to interface number k, for the next hop of the route. -/
def sendOut (r : Router) (out : InterfaceOut) (dgram : IPv4Datagram) :
    Router × Except String Unit :=
  match r.interfaces[out.interfaceNum]? with
  | none => (r, .error "out_of_range")
  | some interface =>
    match (out.nextHop.map Address.ipv4Numeric).getD (.ok dgram.header.dst) with
    | .error e => (r, .error e)
    | .ok ip =>
      let (n, result) := interface.toNetworkInterface.sendDatagram dgram
        (Address.fromIpv4Numeric ip)
      let interface := { interface with toNetworkInterface := n }
      ({ r with interfaces := r.interfaces.set out.interfaceNum interface }, result)

/-- The router, and the datagram, which the source changes in place, after an attempt to
route it. -/
def routeOneDatagram (r : Router) (dgram : IPv4Datagram) :
    Router × IPv4Datagram × Except String Unit :=
  match r.lookup dgram.header.dst with
  | none => (r, dgram, .ok ())
  | some out =>
    if dgram.header.ttl ≤ 1 then (r, dgram, .ok ())
    else
      let dgram := dgram.decrementTtl
      let (r, result) := r.sendOut out dgram
      (r, dgram, result)

/-- The received datagrams of interface number i. -/
def queue (r : Router) (i : ℕ) : List IPv4Datagram :=
  (r.interfaces[i]?.map AsyncNetworkInterface.datagramsOut).getD []

def setQueue (r : Router) (i : ℕ) (dgrams : List IPv4Datagram) : Router :=
  match r.interfaces[i]? with
  | none => r
  | some a => { r with interfaces := r.interfaces.set i { a with datagramsOut := dgrams } }

/-- The loop over the queue of interface number i. The queue is read again in each round;
the bound is the length it had at first. -/
def routeQueue (r : Router) (i : ℕ) : ℕ → Router × Except String Unit
  | 0 => (r, .ok ())
  | bound + 1 =>
    match r.queue i with
    | [] => (r, .ok ())
    | dgram :: _ =>
      match r.routeOneDatagram dgram with
      | (r, dgram, .error e) => (r.setQueue i (dgram :: (r.queue i).tail), .error e)
      | (r, _, .ok ()) => (r.setQueue i (r.queue i).tail).routeQueue i bound

def routeAll (r : Router) : List ℕ → Router × Except String Unit
  | [] => (r, .ok ())
  | i :: rest =>
    match r.routeQueue i (r.queue i).length with
    | (r, .error e) => (r, .error e)
    | (r, .ok ()) => r.routeAll rest

def route (r : Router) : Router × Except String Unit :=
  r.routeAll (List.range r.interfaces.length)

/-- A frame received, or time passed, at interface number i. -/
def recvFrame (r : Router) (i : ℕ) (frame : EthernetFrame) : Router × Except String Unit :=
  match r.interfaces[i]? with
  | none => (r, .error "out_of_range")
  | some interface =>
    let (a, result) := interface.recvFrame frame
    ({ r with interfaces := r.interfaces.set i a }, result)

def tick (r : Router) (i ms : ℕ) : Router × Except String Unit :=
  match r.interfaces[i]? with
  | none => (r, .error "out_of_range")
  | some interface =>
    let interface := { interface with toNetworkInterface := interface.toNetworkInterface.tick ms }
    ({ r with interfaces := r.interfaces.set i interface }, .ok ())

end Router

end Sponge
