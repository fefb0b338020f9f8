import Sponge.Router

/-!
A router that only forwards datagrams of version 4 never throws, and each call of
`route` empties all its queues. The version and the header length must be asked
for separately: the parser of an interface lets other datagrams pass, and the
exception rises only when such a datagram is serialized again.
-/
namespace Sponge

open Runs

namespace NetworkInterface

/-- The interface has an IPv4 address, and all that waits in it can be serialized. -/
structure Safe (n : NetworkInterface) : Prop where
  address : n.ipAddress.ipv4 ≠ none
  sendable : ∀ x, ∀ d ∈ n.pending x, d.WellFormed

theorem Safe.quiet {n n' : NetworkInterface} (h : n.Safe) (hq : n.Quiet n') : n'.Safe := by
  refine ⟨?_, ?_⟩
  · rw [hq.ipAddress]
    exact h.address
  · rw [hq.pending]
    exact h.sendable

theorem Safe.send {n : NetworkInterface} (h : n.Safe) {d : IPv4Datagram} (hd : d.WellFormed)
    (ip : UInt32) :
    ∃ n', n.sendDatagram d (Address.fromIpv4Numeric ip) = (n', .ok ()) ∧ n'.Safe := by
  cases htable : n.forwardingTable ip with
  | some entry => exact ⟨_, sendDatagram_known rfl htable hd, h.address, h.sendable⟩
  | none =>
    have hsafe : (n.enqueue ip d).Safe := ⟨h.address, forall_pending_enqueue h.sendable ip hd⟩
    obtain ⟨hquiet, hok⟩ := (n.enqueue ip d).request_quiet ip
    refine ⟨((n.enqueue ip d).request ip).1, ?_, hsafe.quiet hquiet⟩
    rw [sendDatagram_unknown rfl htable, ← hok hsafe.address]

theorem Safe.learn {n : NetworkInterface} (h : n.Safe) {ownIp : UInt32}
    (hip : n.ipAddress.ipv4 = some ownIp) (msg : ARPMessage) :
    ∃ n', n.learn ownIp msg = (n', .ok none) ∧ n'.Safe := by
  obtain ⟨m, n', hlearn, hflushed, hquiet⟩ := learn_rule hip (h.sendable msg.senderIpAddress)
  refine ⟨n', hlearn, Safe.quiet ⟨?_, hflushed.forall_pending h.sendable⟩ hquiet⟩
  rw [hflushed.ipAddress]
  exact h.address

theorem Safe.tick {n : NetworkInterface} (h : n.Safe) (ms : ℕ) : (n.tick ms).Safe :=
  ⟨h.address, h.sendable⟩

end NetworkInterface

namespace Router

/-- What a call does not touch, unless it adds something. -/
structure Kept (r r' : Router) : Prop where
  routingTable : r'.routingTable = r.routingTable
  length_eq : r'.interfaces.length = r.interfaces.length

theorem Kept.refl (r : Router) : Kept r r := ⟨rfl, rfl⟩

theorem Kept.trans {r r₁ r₂ : Router} (h₁ : Kept r r₁) (h₂ : Kept r₁ r₂) : Kept r r₂ :=
  ⟨h₂.routingTable.trans h₁.routingTable, h₂.length_eq.trans h₁.length_eq⟩

theorem kept_set (r : Router) (i : ℕ) (a : AsyncNetworkInterface) :
    Kept r { r with interfaces := r.interfaces.set i a } :=
  ⟨rfl, List.length_set⟩

theorem kept_sendOut (r : Router) (out : InterfaceOut) (d : IPv4Datagram) :
    Kept r (r.sendOut out d).1 := by
  unfold sendOut
  split
  · exact Kept.refl r
  · split
    · exact Kept.refl r
    · exact kept_set r _ _

theorem kept_routeOneDatagram (r : Router) (d : IPv4Datagram) :
    Kept r (r.routeOneDatagram d).1 := by
  unfold routeOneDatagram
  split
  · exact Kept.refl r
  · split
    · exact Kept.refl r
    · exact kept_sendOut r _ _

theorem kept_setQueue (r : Router) (i : ℕ) (dgrams : List IPv4Datagram) :
    Kept r (r.setQueue i dgrams) := by
  unfold setQueue
  split
  · exact Kept.refl r
  · exact kept_set r _ _

theorem kept_routeQueue (i bound : ℕ) (r : Router) : Kept r (r.routeQueue i bound).1 := by
  induction bound generalizing r with
  | zero => exact Kept.refl r
  | succ bound ih =>
    unfold routeQueue
    split
    · exact Kept.refl r
    · rename_i d rest hqueue
      have hone := kept_routeOneDatagram r d
      revert hone
      obtain ⟨r₁, d₁, result⟩ := r.routeOneDatagram d
      intro hone
      cases result with
      | error e => exact hone.trans (kept_setQueue r₁ i _)
      | ok u => exact (hone.trans (kept_setQueue r₁ i _)).trans (ih _)

theorem kept_routeAll (indices : List ℕ) (r : Router) : Kept r (r.routeAll indices).1 := by
  induction indices generalizing r with
  | nil => exact Kept.refl r
  | cons i rest ih =>
    unfold routeAll
    have hone := kept_routeQueue i (r.queue i).length r
    revert hone
    obtain ⟨r₁, result⟩ := r.routeQueue i (r.queue i).length
    intro hone
    cases result with
    | error e => exact hone
    | ok u => exact hone.trans (ih r₁)

/-- The router would forward the datagram: a route matches and its time has not run out. -/
def Forwards (r : Router) (d : IPv4Datagram) : Prop :=
  r.lookup d.header.dst ≠ none ∧ 1 < d.header.ttl

/-- Routes lead to existing interfaces, interfaces are safe, and the received datagrams
that will be forwarded can be serialized. -/
structure Sound (r : Router) : Prop where
  routes : ∀ dst out, r.lookup dst = some out → out.interfaceNum < r.interfaces.length ∧
    ∀ a, out.nextHop = some a → a.ipv4 ≠ none
  safe : ∀ a ∈ r.interfaces, a.toNetworkInterface.Safe
  received : ∀ a ∈ r.interfaces, ∀ d ∈ a.datagramsOut, r.Forwards d → d.WellFormed

variable {r : Router}

theorem Sound.set (h : r.Sound) (a : AsyncNetworkInterface) (hsafe : a.toNetworkInterface.Safe)
    (hreceived : ∀ d ∈ a.datagramsOut, r.Forwards d → d.WellFormed) (i : ℕ) :
    Sound { r with interfaces := r.interfaces.set i a } := by
  refine ⟨?_, ?_, ?_⟩
  · intro dst out hout
    rw [List.length_set]
    exact h.routes dst out hout
  · intro b hb
    rcases List.mem_or_eq_of_mem_set hb with hold | hnew
    · exact h.safe b hold
    · rw [hnew]
      exact hsafe
  · intro b hb
    rcases List.mem_or_eq_of_mem_set hb with hold | hnew
    · exact h.received b hold
    · rw [hnew]
      exact hreceived

theorem queue_set {i : ℕ} {a : AsyncNetworkInterface} (h : i < r.interfaces.length) (j : ℕ) :
    queue { r with interfaces := r.interfaces.set i a } j =
      if j = i then a.datagramsOut else r.queue j := by
  by_cases hj : j = i
  · subst hj
    simp [queue, h]
  · simp [queue, hj, List.getElem?_set_ne (Ne.symm hj)]

theorem queue_of_getElem {i : ℕ} {a : AsyncNetworkInterface} (h : r.interfaces[i]? = some a) :
    r.queue i = a.datagramsOut := by
  simp [queue, h]

/-- A datagram on its way out changes one interface, and none of the queues. -/
theorem Sound.sendOut (h : r.Sound) {dst : UInt32} {out : InterfaceOut}
    (hout : r.lookup dst = some out) {d : IPv4Datagram} (hd : d.WellFormed) :
    ∃ r', r.sendOut out d = (r', .ok ()) ∧ r'.Sound ∧ ∀ j, r'.queue j = r.queue j := by
  obtain ⟨hnum, hhop⟩ := h.routes dst out hout
  obtain ⟨a, ha⟩ : ∃ a, r.interfaces[out.interfaceNum]? = some a :=
    ⟨_, List.getElem?_eq_getElem hnum⟩
  have hmem := List.mem_of_getElem? ha
  obtain ⟨ip, hip⟩ : ∃ ip, (out.nextHop.map Address.ipv4Numeric).getD (.ok d.header.dst) =
      Except.ok ip := by
    cases hnext : out.nextHop with
    | none => exact ⟨d.header.dst, rfl⟩
    | some address =>
      obtain ⟨ip, hip⟩ := Option.ne_none_iff_exists'.mp (hhop address hnext)
      exact ⟨ip, by simp [Address.ipv4Numeric, hip]⟩
  obtain ⟨n, hsend, hsafe⟩ := (h.safe a hmem).send hd ip
  refine ⟨{ r with interfaces :=
    r.interfaces.set out.interfaceNum { a with toNetworkInterface := n } }, ?_, ?_, ?_⟩
  · simp only [Router.sendOut, ha, hip, hsend]
  · exact h.set { a with toNetworkInterface := n } hsafe (h.received a hmem) out.interfaceNum
  · intro j
    rw [queue_set hnum]
    by_cases hj : j = out.interfaceNum
    · rw [if_pos hj, hj, queue_of_getElem ha]
    · rw [if_neg hj]

theorem Sound.routeOneDatagram (h : r.Sound) {d : IPv4Datagram}
    (hd : r.Forwards d → d.WellFormed) :
    ∃ r' d', r.routeOneDatagram d = (r', d', .ok ()) ∧ r'.Sound ∧
      ∀ j, r'.queue j = r.queue j := by
  cases hout : r.lookup d.header.dst with
  | none => exact ⟨r, d, by simp [Router.routeOneDatagram, hout], h, fun _ => rfl⟩
  | some out =>
    by_cases httl : d.header.ttl ≤ 1
    · exact ⟨r, d, by simp [Router.routeOneDatagram, hout, httl], h, fun _ => rfl⟩
    · have hwf := hd ⟨by simp [hout], UInt8.not_le.mp httl⟩
      have hnext : d.decrementTtl.WellFormed := ⟨hwf.sendable, hwf.size_eq⟩
      obtain ⟨r', hsend, hrest⟩ := h.sendOut hout hnext
      refine ⟨r', d.decrementTtl, ?_, hrest⟩
      simp [Router.routeOneDatagram, hout, httl, hsend]

theorem Sound.setQueue (h : r.Sound) {i : ℕ} {dgrams : List IPv4Datagram}
    (hsub : ∀ d ∈ dgrams, d ∈ r.queue i) :
    (r.setQueue i dgrams).Sound ∧
      ∀ j, (r.setQueue i dgrams).queue j =
        if j = i ∧ i < r.interfaces.length then dgrams else r.queue j := by
  cases ha : r.interfaces[i]? with
  | none =>
    have hlength := List.getElem?_eq_none_iff.mp ha
    have hsame : r.setQueue i dgrams = r := by simp [Router.setQueue, ha]
    rw [hsame]
    refine ⟨h, fun j => ?_⟩
    rw [if_neg (by omega)]
  | some a =>
    obtain ⟨hlength, -⟩ := List.getElem?_eq_some_iff.mp ha
    have hmem := List.mem_of_getElem? ha
    have hset : r.setQueue i dgrams =
        { r with interfaces := r.interfaces.set i { a with datagramsOut := dgrams } } := by
      simp [Router.setQueue, ha]
    rw [hset]
    refine ⟨h.set { a with datagramsOut := dgrams } (h.safe a hmem) ?_ i, fun j => ?_⟩
    · intro d hd
      apply h.received a hmem d
      rw [← queue_of_getElem ha]
      exact hsub d hd
    · rw [queue_set hlength]
      by_cases hj : j = i
      · rw [if_pos hj, if_pos ⟨hj, hlength⟩]
      · rw [if_neg hj, if_neg (fun hand => hj hand.1)]

theorem Sound.of_queue (h : r.Sound) {i : ℕ} {d : IPv4Datagram} (hd : d ∈ r.queue i) :
    i < r.interfaces.length ∧ (r.Forwards d → d.WellFormed) := by
  cases ha : r.interfaces[i]? with
  | none =>
    simp [queue, ha] at hd
  | some a =>
    obtain ⟨hlength, -⟩ := List.getElem?_eq_some_iff.mp ha
    rw [queue_of_getElem ha] at hd
    exact ⟨hlength, h.received a (List.mem_of_getElem? ha) d hd⟩

theorem queue_eq_of_empty {i : ℕ} (hempty : r.queue i = []) (j : ℕ) :
    r.queue j = if j = i then [] else r.queue j := by
  by_cases hj : j = i
  · rw [if_pos hj, hj, hempty]
  · rw [if_neg hj]

/-- The loop over one queue takes every datagram off it and leaves the others alone. -/
theorem Sound.routeQueue (h : r.Sound) {i bound : ℕ} (hbound : (r.queue i).length ≤ bound) :
    ∃ r', r.routeQueue i bound = (r', .ok ()) ∧ r'.Sound ∧
      ∀ j, r'.queue j = if j = i then [] else r.queue j := by
  induction bound generalizing r with
  | zero =>
    have hempty := List.length_eq_zero_iff.mp (Nat.le_zero.mp hbound)
    exact ⟨r, rfl, h, queue_eq_of_empty hempty⟩
  | succ bound ih =>
    cases hqueue : r.queue i with
    | nil => exact ⟨r, by simp [Router.routeQueue, hqueue], h, queue_eq_of_empty hqueue⟩
    | cons d rest =>
      obtain ⟨hlength, hwf⟩ := h.of_queue (hqueue ▸ List.mem_cons_self : d ∈ r.queue i)
      obtain ⟨r₁, d₁, hone, hsound₁, hqueue₁⟩ := h.routeOneDatagram hwf
      have hkept := kept_routeOneDatagram r d
      rw [hone] at hkept
      obtain ⟨hsound₂, hqueue₂⟩ :=
        hsound₁.setQueue (i := i) fun d' hd' => List.mem_of_mem_tail hd'
      have htail : (r₁.setQueue i (r₁.queue i).tail).queue i = rest := by
        rw [hqueue₂, if_pos ⟨rfl, hkept.length_eq ▸ hlength⟩, hqueue₁, hqueue]
        rfl
      obtain ⟨r', hrest, hsound', hqueue'⟩ := ih hsound₂
        (by rw [htail]; simpa [hqueue] using hbound)
      refine ⟨r', by simp [Router.routeQueue, hqueue, hone, hrest], hsound', fun j => ?_⟩
      rw [hqueue' j]
      by_cases hj : j = i
      · rw [if_pos hj, if_pos hj]
      · rw [if_neg hj, if_neg hj, hqueue₂, if_neg (fun hand => hj hand.1), hqueue₁]

theorem Sound.routeAll (h : r.Sound) (indices : List ℕ) :
    ∃ r', r.routeAll indices = (r', .ok ()) ∧ r'.Sound ∧
      ∀ j, r'.queue j = if j ∈ indices then [] else r.queue j := by
  induction indices generalizing r with
  | nil => exact ⟨r, rfl, h, fun j => by simp⟩
  | cons i rest ih =>
    obtain ⟨r₁, hone, hsound₁, hqueue₁⟩ := h.routeQueue (i := i) (Nat.le_refl _)
    obtain ⟨r', hrest, hsound', hqueue'⟩ := ih hsound₁
    refine ⟨r', by simp [Router.routeAll, hone, hrest], hsound', fun j => ?_⟩
    rw [hqueue' j, hqueue₁ j]
    by_cases hj : j ∈ rest
    · rw [if_pos hj, if_pos (List.mem_cons_of_mem i hj)]
    · by_cases hji : j = i
      · rw [if_neg hj, if_pos hji, if_pos (hji ▸ List.mem_cons_self)]
      · rw [if_neg hj, if_neg hji, if_neg (by simp [hj, hji])]

theorem Sound.route (h : r.Sound) :
    ∃ r', r.route = (r', .ok ()) ∧ r'.Sound ∧ ∀ j, r'.queue j = [] := by
  obtain ⟨r', hroute, hsound, hqueue⟩ :=
    h.routeAll (List.range r.interfaces.length)
  refine ⟨r', hroute, hsound, fun j => ?_⟩
  rw [hqueue j]
  by_cases hj : j < r.interfaces.length
  · rw [if_pos (List.mem_range.mpr hj)]
  · rw [if_neg (by simpa using hj)]
    have hnone : r.interfaces[j]? = none := List.getElem?_eq_none_iff.mpr (Nat.not_lt.mp hj)
    simp [queue, hnone]

/-- If the datagram in a frame for interface number i will be forwarded, its packet is one
of version 4 with a header of at least five words. -/
def Acceptable (r : Router) (i : ℕ) (frame : EthernetFrame) : Prop :=
  ∀ a, r.interfaces[i]? = some a →
    (frame.header.dst = a.ethernetAddress ∨ frame.header.dst = ETHERNET_BROADCAST) →
    frame.header.type = EthernetHeader.TYPE_IPv4 →
    ∀ d, ({} : IPv4Datagram).parse frame.payload.concatenate = (.noError, d) → r.Forwards d →
      IPv4Datagram.VersionFour frame.payload.concatenate

theorem Sound.recvFrame (h : r.Sound) {i : ℕ} (hi : i < r.interfaces.length)
    {frame : EthernetFrame} (hframe : r.Acceptable i frame) :
    ∃ r', r.recvFrame i frame = (r', .ok ()) ∧ r'.Sound := by
  obtain ⟨a, ha⟩ : ∃ a, r.interfaces[i]? = some a := ⟨_, List.getElem?_eq_getElem hi⟩
  have hmem := List.mem_of_getElem? ha
  have hsafe := h.safe a hmem
  have hreceived := h.received a hmem
  suffices hrecv : ∃ a', a.recvFrame frame = (a', .ok ()) ∧ a'.toNetworkInterface.Safe ∧
      ∀ d ∈ a'.datagramsOut, r.Forwards d → d.WellFormed by
    obtain ⟨a', hrecv, hsafe', hreceived'⟩ := hrecv
    exact ⟨_, by simp only [Router.recvFrame, ha, hrecv], h.set a' hsafe' hreceived' i⟩
  cases a.toNetworkInterface.reaction frame with
  | ignored hrecv =>
    exact ⟨a, by simp only [AsyncNetworkInterface.recvFrame, hrecv], hsafe, hreceived⟩
  | passed d hours htype hparse hrecv =>
    refine ⟨{ a with datagramsOut := a.datagramsOut ++ [d] },
      by simp only [AsyncNetworkInterface.recvFrame, hrecv], hsafe, ?_⟩
    intro d' hd' hforwards
    rcases List.mem_append.mp hd' with hold | hnew
    · exact hreceived d' hold hforwards
    · rw [List.mem_singleton.mp hnew] at hforwards ⊢
      exact IPv4Datagram.wellFormed_of_parse hparse
        (hframe a ha hours htype d hparse hforwards)
  | failed e hip _ _ => exact absurd hip hsafe.address
  | learned ownIp msg hip _ _ hrecv =>
    obtain ⟨n', hlearn, hsafe'⟩ := hsafe.learn hip msg
    exact ⟨{ a with toNetworkInterface := n' },
      by simp only [AsyncNetworkInterface.recvFrame, hrecv, hlearn], hsafe', hreceived⟩

theorem Sound.tick (h : r.Sound) {i : ℕ} (hi : i < r.interfaces.length) (ms : ℕ) :
    ∃ r', r.tick i ms = (r', .ok ()) ∧ r'.Sound := by
  obtain ⟨a, ha⟩ : ∃ a, r.interfaces[i]? = some a := ⟨_, List.getElem?_eq_getElem hi⟩
  have hmem := List.mem_of_getElem? ha
  have hset := h.set { a with toNetworkInterface := a.toNetworkInterface.tick ms }
    ((h.safe a hmem).tick ms) (h.received a hmem) i
  exact ⟨_, by simp only [Router.tick, ha], hset⟩

inductive Op where
  | recv (i : ℕ) (frame : EthernetFrame)
  | route
  | tick (i ms : ℕ)
  deriving DecidableEq

def call (r : Router) : Op → Router × Except String Unit
  | .recv i frame => r.recvFrame i frame
  | .route => r.route
  | .tick i ms => r.tick i ms

/-- Frames reach existing interfaces, and are arbitrary but for datagrams to be forwarded. -/
def Admits (r : Router) : Op → Prop
  | .recv i frame => i < r.interfaces.length ∧ r.Acceptable i frame
  | .route => True
  | .tick i _ => i < r.interfaces.length

def machine : Machine Router Op where
  enabled := Admits
  step r op := (r.call op).1

theorem Sound.call (h : r.Sound) {op : Op} (hop : r.Admits op) :
    ∃ r', r.call op = (r', .ok ()) ∧ r'.Sound ∧ (op = .route → ∀ j, r'.queue j = []) := by
  cases op with
  | recv i frame =>
    obtain ⟨r', hcall, hsound⟩ := h.recvFrame hop.1 hop.2
    exact ⟨r', hcall, hsound, fun hroute => absurd hroute (by simp)⟩
  | route =>
    obtain ⟨r', hcall, hsound, hqueue⟩ := h.route
    exact ⟨r', hcall, hsound, fun _ => hqueue⟩
  | tick i ms =>
    obtain ⟨r', hcall, hsound⟩ := h.tick hop ms
    exact ⟨r', hcall, hsound, fun hroute => absurd hroute (by simp)⟩

theorem Sound.run (h : r.Sound) {ops : List Op} (hv : machine.Valid r ops) :
    (machine.exec r ops).Sound := by
  refine machine.invariant ?_ h hv
  intro s op hs hop
  obtain ⟨r', hcall, hsound, -⟩ := hs.call hop
  change (s.call op).1.Sound
  rw [hcall]
  exact hsound

structure Route where
  routePrefix : UInt32
  prefixLength : UInt8
  out : InterfaceOut

def Route.addTo (route : Route) (r : Router) : Router :=
  r.addRoute route.routePrefix route.prefixLength route.out.nextHop route.out.interfaceNum

/-- A new interface with the given addresses. -/
def fresh (addresses : EthernetAddress × Address) : AsyncNetworkInterface :=
  { ethernetAddress := addresses.1, ipAddress := addresses.2 }

/-- A router with fresh interfaces for the addresses and the given routes. -/
def build (addresses : List (EthernetAddress × Address)) (routes : List Route) : Router :=
  let r := addresses.foldl (fun r pair => r.addInterface (fresh pair)) ({} : Router)
  routes.foldl (fun r route => route.addTo r) r

/-- Every route in the routing table has the property P. -/
def Leads (P : InterfaceOut → Prop) (r : Router) : Prop :=
  ∀ prefixLength prefixes key out, r.routingTable prefixLength = some prefixes →
    prefixes key = some out → P out

theorem Leads.addRoute {P : InterfaceOut → Prop} (h : r.Leads P) {route : Route}
    (hout : P route.out) :
    Leads P (route.addTo r) := by
  intro len prefixes key out hprefixes hkey
  by_cases hlen : len = route.prefixLength
  · subst hlen
    simp only [Route.addTo, Router.addRoute, Table.assign_self] at hprefixes
    rw [← Option.some.inj hprefixes] at hkey
    rcases Table.of_insert hkey with hold | ⟨-, -, hnew⟩
    · cases htable : r.routingTable route.prefixLength with
      | none =>
        rw [htable] at hold
        exact absurd hold (by simp [Table.empty])
      | some old =>
        rw [htable] at hold
        exact h _ _ _ _ htable hold
    · rw [hnew]
      exact hout
  · simp only [Route.addTo, Router.addRoute, Table.assign_of_ne _ hlen] at hprefixes
    exact h _ _ _ _ hprefixes hkey

theorem Leads.lookup {P : InterfaceOut → Prop} (h : r.Leads P) {dst : UInt32}
    {out : InterfaceOut} (hout : r.lookup dst = some out) : P out := by
  obtain ⟨len, -, hfound⟩ := List.exists_of_findSome?_eq_some hout
  obtain ⟨prefixes, hprefixes, hkey⟩ := Option.bind_eq_some_iff.mp hfound
  exact h len prefixes _ out hprefixes hkey

theorem foldl_addInterface (addresses : List (EthernetAddress × Address)) (r : Router) :
    addresses.foldl (fun r pair => r.addInterface (fresh pair)) r =
      { r with interfaces := r.interfaces ++ addresses.map fresh } := by
  induction addresses generalizing r with
  | nil => simp
  | cons pair addresses ih =>
    rw [List.foldl_cons, ih]
    simp [addInterface]

theorem foldl_addRoute {P : InterfaceOut → Prop} {routes : List Route}
    (hroutes : ∀ route ∈ routes, P route.out) (h : r.Leads P) :
    Leads P (routes.foldl (fun r route => route.addTo r) r) ∧
      (routes.foldl (fun r route => route.addTo r) r).interfaces = r.interfaces := by
  induction routes generalizing r with
  | nil => exact ⟨h, rfl⟩
  | cons route routes ih =>
    exact ih (fun route' hroute' => hroutes route' (List.mem_cons_of_mem route hroute'))
      (h.addRoute (hroutes route List.mem_cons_self))

/-- A freshly built router is sound if its routes name its interfaces and the addresses are
IPv4 addresses. -/
theorem build_sound {addresses : List (EthernetAddress × Address)} {routes : List Route}
    (haddresses : ∀ p ∈ addresses, p.2.ipv4 ≠ none)
    (hroutes : ∀ route ∈ routes, route.out.interfaceNum < addresses.length ∧
      ∀ a, route.out.nextHop = some a → a.ipv4 ≠ none) :
    (build addresses routes).Sound := by
  have hempty : Leads (fun out => out.interfaceNum < addresses.length ∧
      ∀ a, out.nextHop = some a → a.ipv4 ≠ none)
      { interfaces := addresses.map fresh, routingTable := Table.empty } := by
    intro _ _ _ _ hnone
    exact absurd hnone (by simp [Table.empty])
  obtain ⟨hleads, hinterfaces⟩ := foldl_addRoute hroutes hempty
  have hbuilt : build addresses routes = routes.foldl (fun r route => route.addTo r)
      { interfaces := addresses.map fresh, routingTable := Table.empty } := by
    rw [build, foldl_addInterface]
    rfl
  rw [← hbuilt] at hleads hinterfaces
  refine ⟨?_, ?_, ?_⟩
  · intro dst out hout
    rw [hinterfaces, List.length_map]
    exact hleads.lookup hout
  · intro a ha
    rw [hinterfaces] at ha
    obtain ⟨p, hp, rfl⟩ := List.mem_map.mp ha
    exact ⟨haddresses p hp, fun _ _ hd => absurd hd List.not_mem_nil⟩
  · intro a ha d hd
    rw [hinterfaces] at ha
    obtain ⟨p, hp, rfl⟩ := List.mem_map.mp ha
    exact absurd hd List.not_mem_nil

/-- In every run in which the datagrams to be forwarded are of version 4, no call throws
and each call of `route` empties the queues of all interfaces. -/
theorem forwarding_never_throws {addresses : List (EthernetAddress × Address)}
    {routes : List Route} (haddresses : ∀ p ∈ addresses, p.2.ipv4 ≠ none)
    (hroutes : ∀ route ∈ routes, route.out.interfaceNum < addresses.length ∧
      ∀ a, route.out.nextHop = some a → a.ipv4 ≠ none)
    {ops : List Op} {op : Op} (hv : machine.Valid (build addresses routes) (ops ++ [op])) :
    let r := machine.exec (build addresses routes) ops
    (r.call op).2 = .ok () ∧ (op = .route → ∀ i, (r.call op).1.queue i = []) := by
  obtain ⟨hops, hop, -⟩ := (machine.valid_append _ _ _).mp hv
  obtain ⟨r', hcall, -, hqueue⟩ := ((build_sound haddresses hroutes).run hops).call hop
  intro r
  rw [hcall]
  exact ⟨rfl, hqueue⟩

/-- Two interfaces, and the network 10.0.0.0/8 attached to the second one. -/
def twoPorts : Router :=
  build [(.ofOctets 1 1 1 1 1 1, ⟨some 1, 0⟩), (.ofOctets 2 2 2 2 2 2, ⟨some 2, 0⟩)]
    [⟨0x0a000000, 8, ⟨none, 1⟩⟩]

/-- The ARP reply by which the second interface learns the address of 10.0.0.9. -/
def reply : EthernetFrame :=
  ⟨⟨ETHERNET_BROADCAST, EthernetAddress.zero, EthernetHeader.TYPE_ARP⟩,
    ⟨[[0, 1, 8, 0, 6, 4, 0, 2, 9, 9, 9, 9, 9, 9, 10, 0, 0, 9, 2, 2, 2, 2, 2, 2, 0, 0, 0, 2]]⟩⟩

/-- A frame for the first interface with a datagram for 10.0.0.9 whose first byte is b. -/
def packetFrame (b : UInt8) : EthernetFrame :=
  ⟨⟨.ofOctets 1 1 1 1 1 1, EthernetAddress.zero, EthernetHeader.TYPE_IPv4⟩,
    ⟨[[b, 0, 0, 20, 0, 0, 0, 0, 64, 6, 0, 0, 0, 0, 0, 7, 10, 0, 0, 9]]⟩⟩

theorem forwarding_never_throws_two_ports :
    let r := machine.exec twoPorts [.recv 1 reply, .recv 0 (packetFrame 0x45)]
    (r.call .route).2 = .ok () ∧ (Op.route = .route → ∀ i, (r.call .route).1.queue i = []) := by
  apply forwarding_never_throws (by decide) (by decide)
  refine ⟨⟨by decide, ?_⟩, ⟨by decide, ?_⟩, trivial, trivial⟩
  · intro a _ _ htype
    exact absurd htype (by decide)
  · intro a _ _ _ d _ _
    exact ⟨0x45, _, rfl, by decide, by decide⟩

/-- A datagram of version 6 is accepted and forwarded; the exception leaves it at the head of
its queue. -/
theorem version_six_stays_queued :
    let r := machine.exec twoPorts [.recv 1 reply, .recv 0 (packetFrame 0x65)]
    (r.call .route).2 = .error "wrong IP version" ∧ ((r.call .route).1.queue 0).length = 1 := by
  constructor <;> rfl

end Router

end Sponge
