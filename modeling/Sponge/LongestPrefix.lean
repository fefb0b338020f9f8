import Sponge.LongestMatch
import Sponge.RouterSafety
import Mathlib.Data.List.Find

/-!
Longest-prefix routing. After any run of calls the routing table answers as a search
through the list of the added routes would, so a datagram leaves by the earliest of
the longest matching routes. Each forwarding costs one unit of the time to live and
needs two, whatever router does it, which bounds the way a datagram can go.
-/
namespace Sponge.LongestPrefix

open Runs Router LongestMatch

/-- The calls of a router's owner, on its interfaces too. -/
inductive Call where
  | addInterface (a : AsyncNetworkInterface)
  | addRoute (route : Route)
  | op (op : Op)

def perform (r : Router) : Call → Router
  | .addInterface a => r.addInterface a
  | .addRoute route => route.addTo r
  | .op op => (r.call op).1

/-- At most 32 bits are to match, the interface exists, and a next hop has an IPv4 address. -/
structure Proper (r : Router) (route : Route) : Prop where
  length_le : route.prefixLength ≤ 32
  interface_lt : route.out.interfaceNum < r.interfaces.length
  nextHop_ne : ∀ a, route.out.nextHop = some a → a.ipv4 ≠ none

def Admitted (r : Router) : Call → Prop
  | .addInterface _ => True
  | .addRoute route => Proper r route
  | .op _ => True

/-- Frames, ticks and calls of `route` are arbitrary; those that throw are included. -/
def routing : Machine Router Call where
  enabled := Admitted
  step := perform

/-- The routes of the calls of `add_route`, in their order. -/
def added : List Call → List Route
  | [] => []
  | .addRoute route :: calls => route :: added calls
  | .addInterface _ :: calls => added calls
  | .op _ :: calls => added calls

/-- The route agrees with dst on its high-order bits. -/
def Matches (dst : UInt32) (route : Route) : Prop :=
  Agree route.prefixLength.toNat route.routePrefix.toBitVec dst.toBitVec

instance (dst : UInt32) : DecidablePred (Matches dst) := fun route =>
  inferInstanceAs (Decidable (Agree route.prefixLength.toNat route.routePrefix.toBitVec
    dst.toBitVec))

theorem getMask_eq {len : UInt8} (h : len ≤ 32) :
    (getMask len).toBitVec = highBits 32 len.toNat := by
  refine Words.byte_le_cases h ?_
  decide

theorem masked_eq_iff {len : UInt8} (h : len ≤ 32) (x y : UInt32) :
    x &&& getMask len = y &&& getMask len ↔ Agree len.toNat x.toBitVec y.toBitVec := by
  rw [← UInt32.toBitVec_inj, UInt32.toBitVec_and, UInt32.toBitVec_and, getMask_eq h]
  exact and_highBits_eq_iff (UInt8.le_iff_toNat_le.mp h) _ _

theorem kept_call (r : Router) (op : Op) : Kept r (r.call op).1 := by
  cases op with
  | recv i frame =>
    change Kept r (r.recvFrame i frame).1
    unfold recvFrame
    split
    · exact Kept.refl r
    · exact kept_set r i _
  | route => exact kept_routeAll _ r
  | tick i ms =>
    change Kept r (r.tick i ms).1
    unfold Router.tick
    split
    · exact Kept.refl r
    · exact kept_set r i _

/-- The route that was added first for a prefix of the given length. -/
def recorded (routes : List Route) (len : UInt8) (key : UInt32) : Option InterfaceOut :=
  (routes.find? fun route =>
    decide (route.prefixLength = len ∧ route.routePrefix &&& getMask len = key)).map Route.out

/-- The routing table is that of the routes. -/
structure Records (routes : List Route) (r : Router) : Prop where
  entry : ∀ len key,
    (r.routingTable len).bind (fun prefixes => prefixes key) = recorded routes len key
  proper : ∀ route ∈ routes, Proper r route

theorem recorded_snoc (routes : List Route) (route : Route) (len : UInt8) (key : UInt32) :
    recorded (routes ++ [route]) len key =
      if route.prefixLength = len ∧ route.routePrefix &&& getMask len = key then
        some ((recorded routes len key).getD route.out)
      else recorded routes len key := by
  unfold recorded
  rw [List.find?_append, List.find?_singleton, Option.map_or]
  by_cases hmatch : route.prefixLength = len ∧ route.routePrefix &&& getMask len = key
  · rw [if_pos (decide_eq_true hmatch), if_pos hmatch]
    cases routes.find? fun route =>
      decide (route.prefixLength = len ∧ route.routePrefix &&& getMask len = key) <;> rfl
  · rw [if_neg (by simpa using hmatch), if_neg hmatch]
    simp

theorem getD_empty_apply (t : Option (Table UInt32 InterfaceOut)) (key : UInt32) :
    t.getD Table.empty key = t.bind fun prefixes => prefixes key := by
  cases t <;> rfl

theorem Records.kept {routes : List Route} {r r' : Router} (h : Records routes r)
    (hkept : Kept r r') : Records routes r' := by
  refine ⟨?_, ?_⟩
  · rw [hkept.routingTable]
    exact h.entry
  · intro route hroute
    obtain ⟨hlength, hinterface, hnext⟩ := h.proper route hroute
    exact ⟨hlength, hkept.length_eq ▸ hinterface, hnext⟩

theorem Records.addInterface {routes : List Route} {r : Router} (h : Records routes r)
    (a : AsyncNetworkInterface) : Records routes (r.addInterface a) := by
  refine ⟨h.entry, ?_⟩
  intro route hroute
  obtain ⟨hlength, hinterface, hnext⟩ := h.proper route hroute
  refine ⟨hlength, ?_, hnext⟩
  rw [Router.addInterface, List.length_append]
  omega

theorem Records.addRoute {routes : List Route} {r : Router} (h : Records routes r)
    {route : Route} (hroute : Proper r route) : Records (routes ++ [route]) (route.addTo r) := by
  refine ⟨?_, ?_⟩
  · intro len key
    have hold := h.entry len key
    rw [recorded_snoc]
    by_cases hlen : route.prefixLength = len
    · subst hlen
      simp only [Route.addTo, Router.addRoute, Table.assign_self, Option.bind_some, true_and]
      rw [← hold, ← getD_empty_apply]
      by_cases hkey : route.routePrefix &&& getMask route.prefixLength = key
      · subst hkey
        rw [if_pos rfl, Table.insert_self]
      · rw [if_neg hkey, Table.insert_of_ne _ (Ne.symm hkey)]
    · simp only [Route.addTo, Router.addRoute, Table.assign_of_ne _ (Ne.symm hlen)]
      rw [if_neg (fun hboth => hlen hboth.1), hold]
  · intro route' hroute'
    rcases List.mem_append.mp hroute' with hold | hnew
    · obtain ⟨hlength, hinterface, hnext⟩ := h.proper route' hold
      exact ⟨hlength, hinterface, hnext⟩
    · rw [List.mem_singleton.mp hnew]
      exact ⟨hroute.length_le, hroute.interface_lt, hroute.nextHop_ne⟩

theorem Records.run {routes : List Route} {r : Router} (h : Records routes r) {calls : List Call}
    (hv : routing.Valid r calls) : Records (routes ++ added calls) (routing.exec r calls) := by
  induction calls generalizing routes r with
  | nil => rwa [added, List.append_nil]
  | cons call calls ih =>
    obtain ⟨hcall, hrest⟩ := hv
    cases call with
    | addInterface a => exact ih (h.addInterface a) hrest
    | addRoute route =>
      rw [added, List.append_cons]
      exact ih (h.addRoute hcall) hrest
    | op op => exact ih (h.kept (kept_call r op)) hrest

theorem records_of_run {calls : List Call} (hv : routing.Valid {} calls) :
    Records (added calls) (routing.exec {} calls) :=
  Records.run ⟨fun _ _ => rfl, fun _ hroute => absurd hroute List.not_mem_nil⟩ hv

theorem mem_prefixLengths (len : UInt8) : len ∈ prefixLengths := by
  refine List.mem_map.mpr ⟨len.toNat, ?_, by simp⟩
  rw [List.mem_reverse, List.mem_range]
  exact len.toNat_lt

theorem prefixLengths_sorted : prefixLengths.Pairwise (· > ·) := by
  refine List.pairwise_map.mpr (List.pairwise_reverse.mpr ?_)
  refine List.Pairwise.imp_of_mem ?_ List.pairwise_lt_range
  intro i j hi hj hlt
  rw [List.mem_range] at hi hj
  apply UInt8.lt_iff_toNat_lt.mpr
  rw [UInt8.toNat_ofNat_of_lt' hi, UInt8.toNat_ofNat_of_lt' hj]
  exact hlt

/-- The router finds what a search through the added routes finds. -/
theorem Records.lookup_eq {routes : List Route} {r : Router} (h : Records routes r)
    (dst : UInt32) :
    r.lookup dst =
      (search Route.prefixLength (Matches dst) prefixLengths routes).map Route.out := by
  have hlevel : ∀ len, recorded routes len (dst &&& getMask len) =
      (findAt Route.prefixLength (Matches dst) routes len).map Route.out := by
    intro len
    unfold recorded findAt
    congr 1
    apply List.find?_congr
    intro route hroute
    apply decide_eq_decide.mpr
    apply and_congr_right
    intro hlen
    subst hlen
    exact masked_eq_iff (h.proper route hroute).length_le _ _
  rw [search, List.map_findSome?]
  unfold lookup
  congr 1
  funext len
  rw [h.entry, hlevel]
  rfl

/-- The address that a route sends to: its next hop, or the destination itself. -/
def target (route : Route) (dst : UInt32) : Option UInt32 :=
  match route.out.nextHop with
  | none => some dst
  | some a => a.ipv4

/-- All that happens is one call of `send_datagram`, on the interface of the route and for
its target, with a datagram that has one unit less to live. -/
def ForwardedBy (r : Router) (route : Route) (d : IPv4Datagram) : Prop :=
  ∃ a ip, r.interfaces[route.out.interfaceNum]? = some a ∧ target route d.header.dst = some ip ∧
    let next : IPv4Datagram := { d with header := { d.header with ttl := d.header.ttl - 1 } }
    let sent := a.toNetworkInterface.sendDatagram next (Address.fromIpv4Numeric ip)
    r.routeOneDatagram d =
      ({ r with interfaces :=
          r.interfaces.set route.out.interfaceNum { a with toNetworkInterface := sent.1 } },
        next, sent.2)

section Routed

variable {routes : List Route} {r : Router} {d : IPv4Datagram}

theorem Records.lookup_firstBest (h : Records routes r) {dst : UInt32}
    (hmatch : ∃ route ∈ routes, Matches dst route) :
    ∃ route, FirstBest Route.prefixLength (Matches dst) routes route ∧
      r.lookup dst = some route.out := by
  rw [h.lookup_eq dst]
  cases hsearch : search Route.prefixLength (Matches dst) prefixLengths routes with
  | none =>
    obtain ⟨route, hroute, hmatch⟩ := hmatch
    have hnone := (search_eq_none_iff fun y _ => mem_prefixLengths y.prefixLength).mp hsearch
    exact absurd hmatch (hnone route hroute)
  | some route =>
    exact ⟨route, firstBest_of_search prefixLengths_sorted
      (fun y _ => mem_prefixLengths y.prefixLength) hsearch, rfl⟩

theorem Records.lookup_none (h : Records routes r) {dst : UInt32}
    (hmatch : ∀ route ∈ routes, ¬ Matches dst route) : r.lookup dst = none := by
  rw [h.lookup_eq dst,
    (search_eq_none_iff fun y _ => mem_prefixLengths y.prefixLength).mpr hmatch]
  rfl

theorem Records.forwards (h : Records routes r) {route : Route} (hroute : route ∈ routes)
    (hout : r.lookup d.header.dst = some route.out) (httl : 1 < d.header.ttl) :
    ForwardedBy r route d := by
  obtain ⟨-, hinterface, hnext⟩ := h.proper route hroute
  have ha := List.getElem?_eq_getElem hinterface
  obtain ⟨ip, htarget, hip⟩ : ∃ ip, target route d.header.dst = some ip ∧
      (route.out.nextHop.map Address.ipv4Numeric).getD (.ok d.header.dst) = .ok ip := by
    cases hop : route.out.nextHop with
    | none => exact ⟨d.header.dst, by simp [target, hop], rfl⟩
    | some a =>
      obtain ⟨ip, hip⟩ := Option.ne_none_iff_exists'.mp (hnext a hop)
      exact ⟨ip, by simp [target, hop, hip], by simp [Address.ipv4Numeric, hip]⟩
  refine ⟨_, ip, ha, htarget, ?_⟩
  have hdst : d.decrementTtl.header.dst = d.header.dst := rfl
  simp only [routeOneDatagram, hout, if_neg (UInt8.not_le.mpr httl), sendOut, ha, hdst, hip]
  rfl

theorem Records.drops (h : Records routes r)
    (hdrop : (∀ route ∈ routes, ¬ Matches d.header.dst route) ∨ d.header.ttl ≤ 1) :
    r.routeOneDatagram d = (r, d, .ok ()) := by
  unfold routeOneDatagram
  rcases hdrop with hnone | httl
  · rw [h.lookup_none hnone]
  · split
    · rfl
    · rw [if_pos httl]

end Routed

/-- Some interface receives d' in an IPv4 frame that carries d. -/
def Passes (d d' : IPv4Datagram) : Prop :=
  ∃ (frame : EthernetFrame) (n n' : NetworkInterface),
    frame.header.type = EthernetHeader.TYPE_IPv4 ∧ d.serialize = .ok frame.payload ∧
      n.recvFrame frame = (n', .ok (some d'))

/-- The datagram d has been forwarded n times and was sent last as d'. Each router on its way
may be in any state that a run can reach; it forwards when one of its interfaces changes. -/
inductive Journey (d : IPv4Datagram) : ℕ → IPv4Datagram → Prop
  | sent : Journey d 0 d
  | forwarded {n : ℕ} {d₁ d₂ : IPv4Datagram} {calls : List Call} (way : Journey d n d₁)
      (hpasses : Passes d₁ d₂) (hv : routing.Valid {} calls)
      (hchanged : ((routing.exec {} calls).routeOneDatagram d₂).1 ≠ routing.exec {} calls) :
      Journey d (n + 1) ((routing.exec {} calls).routeOneDatagram d₂).2.1

theorem ttl_of_passes {d d' : IPv4Datagram} (h : Passes d d') :
    d'.header.ttl = d.header.ttl := by
  obtain ⟨frame, n, n', htype, hserialize, hrecv⟩ := h
  have hd := IPv4Datagram.wellFormed_of_serialize hserialize
  rw [IPv4Datagram.serialize_of_wellFormed hd] at hserialize
  cases n.reaction frame with
  | ignored hignored =>
    rw [hignored] at hrecv
    exact absurd hrecv (by simp)
  | passed d'' _ _ hparse hpassed =>
    rw [hpassed] at hrecv
    have hsame : d'' = d' := by simpa using (Prod.mk.inj hrecv).2
    have httl := IPv4Datagram.parse_ttl hd {}
    rw [Except.ok.inj hserialize, hparse, hsame] at httl
    exact httl
  | failed _ _ harp _ => exact absurd (htype.symm.trans harp) (by decide)
  | learned _ _ _ harp _ _ => exact absurd (htype.symm.trans harp) (by decide)

/-- A readable datagram passes, if only as a broadcast. -/
theorem passes_received {d : IPv4Datagram} (hd : d.Readable) : Passes d d.received := by
  let n : NetworkInterface := { ethernetAddress := EthernetAddress.zero, ipAddress := {} }
  refine ⟨⟨⟨ETHERNET_BROADCAST, EthernetAddress.zero, EthernetHeader.TYPE_IPv4⟩, d.encoded⟩, n, n,
    rfl, IPv4Datagram.serialize_of_wellFormed hd.toWellFormed, ?_⟩
  simp [NetworkInterface.recvFrame, IPv4Datagram.parse_encoded hd]

theorem ttl_of_changed {r : Router} {d : IPv4Datagram} (h : (r.routeOneDatagram d).1 ≠ r) :
    1 < d.header.ttl ∧ (r.routeOneDatagram d).2.1 = d.decrementTtl := by
  unfold routeOneDatagram at h ⊢
  split
  · rename_i hnone
    simp [hnone] at h
  · rename_i out hout
    by_cases httl : d.header.ttl ≤ 1
    · simp [hout, httl] at h
    · rw [if_neg httl]
      exact ⟨UInt8.not_le.mp httl, rfl⟩

theorem decrementTtl_toNat {d : IPv4Datagram} (h : 1 < d.header.ttl) :
    d.decrementTtl.header.ttl.toNat + 1 = d.header.ttl.toNat ∧
      0 < d.decrementTtl.header.ttl.toNat := by
  have hlt := UInt8.lt_iff_toNat_lt.mp h
  have hone : (1 : UInt8).toNat = 1 := rfl
  have hsub : d.decrementTtl.header.ttl.toNat = d.header.ttl.toNat - 1 :=
    UInt8.toNat_sub_of_le _ _ (UInt8.le_of_lt h)
  omega

/-- Each forwarding costs one unit, and the last one leaves at least one. -/
theorem Journey.ttl_add {d d' : IPv4Datagram} {n : ℕ} (h : Journey d n d') :
    d'.header.ttl.toNat + n = d.header.ttl.toNat ∧ (n = 0 ∨ 0 < d'.header.ttl.toNat) := by
  induction h with
  | sent => exact ⟨rfl, Or.inl rfl⟩
  | forwarded way hpasses hv hchanged ih =>
    obtain ⟨httl, hnext⟩ := ttl_of_changed hchanged
    obtain ⟨hsub, hpos⟩ := decrementTtl_toNat httl
    rw [hnext]
    rw [ttl_of_passes hpasses] at hsub
    exact ⟨by omega, Or.inr hpos⟩

/-- After every run of calls, a datagram with a matching route and time to live is sent once,
along the earliest of the longest matching routes, and otherwise nothing changes. A datagram
that starts with time to live is forwarded fewer times than it has units of it. -/
theorem longest_prefix_routing {calls : List Call} (hv : routing.Valid {} calls)
    (d : IPv4Datagram) :
    let r := routing.exec {} calls
    ((∃ route ∈ added calls, Matches d.header.dst route) ∧ 1 < d.header.ttl →
      ∃ route, FirstBest Route.prefixLength (Matches d.header.dst) (added calls) route ∧
        ForwardedBy r route d) ∧
    ((∀ route ∈ added calls, ¬ Matches d.header.dst route) ∨ d.header.ttl ≤ 1 →
      r.routeOneDatagram d = (r, d, .ok ())) ∧
    ∀ n d', Journey d n d' → 0 < d.header.ttl.toNat → n < d.header.ttl.toNat := by
  intro r
  have hrecords := records_of_run hv
  refine ⟨?_, hrecords.drops, ?_⟩
  · rintro ⟨hmatch, httl⟩
    obtain ⟨route, hbest, hout⟩ := hrecords.lookup_firstBest hmatch
    obtain ⟨before, after, hsplit, -⟩ := hbest.first
    have hroute : route ∈ added calls := by simp [hsplit]
    exact ⟨route, hbest, hrecords.forwards hroute hout httl⟩
  · intro n d' hjourney httl
    have hsum := hjourney.ttl_add
    omega

/-- A datagram for 10.1.2.3. -/
def toTen (ttl : UInt8) : IPv4Datagram := { header := { len := 20, ttl, dst := 0x0a010203 } }

/-- A route to 10.0.0.0/8, and two to 10.1.0.0/16 of which the first one has a next hop. -/
def overlapping (nextHop : Address) : List Call :=
  [.addInterface (fresh (.ofOctets 1 1 1 1 1 1, ⟨some 1, 0⟩)),
    .addInterface (fresh (.ofOctets 2 2 2 2 2 2, ⟨some 2, 0⟩)),
    .addRoute ⟨0x0a000000, 8, ⟨none, 0⟩⟩, .addRoute ⟨0x0a010000, 16, ⟨some nextHop, 1⟩⟩,
    .addRoute ⟨0x0a01ffff, 16, ⟨none, 0⟩⟩]

theorem overlapping_valid : routing.Valid {} (overlapping ⟨some 7, 0⟩) :=
  ⟨trivial, trivial, ⟨by decide, by decide, by decide⟩, ⟨by decide, by decide, by decide⟩,
    ⟨by decide, by decide, by decide⟩, trivial⟩

theorem longest_prefix_routing_overlapping :
    let calls := overlapping ⟨some 7, 0⟩
    (∃ route, FirstBest Route.prefixLength (Matches 0x0a010203) (added calls) route ∧
      ForwardedBy (routing.exec {} calls) route (toTen 64)) ∧
    ∃ d', Journey (toTen 2) 1 d' ∧ 1 < 2 := by
  refine ⟨(longest_prefix_routing overlapping_valid (toTen 64)).1
    ⟨⟨⟨0x0a000000, 8, ⟨none, 0⟩⟩, by simp [overlapping, added], by decide⟩, by decide⟩, ?_⟩
  have hpasses := passes_received (show (toTen 2).Readable by decide)
  -- The router asks for the Ethernet address of the next hop.
  have hchanged : ((routing.exec {} (overlapping ⟨some 7, 0⟩)).routeOneDatagram
      (toTen 2).received).1 ≠ routing.exec {} (overlapping ⟨some 7, 0⟩) := by
    intro hsame
    have hframes := congrArg (fun r => r.interfaces.map fun a => a.framesOut.length) hsame
    exact absurd hframes (by decide)
  have hjourney := Journey.forwarded Journey.sent hpasses overlapping_valid hchanged
  exact ⟨_, hjourney,
    (longest_prefix_routing overlapping_valid (toTen 2)).2.2 1 _ hjourney (by decide)⟩

/-- A next hop that is not an IPv4 address throws after the time to live was decremented, and
a datagram without time to live is forwarded not fewer than zero times. -/
theorem routing_corner_cases :
    let calls := overlapping ⟨none, 0⟩
    let r := routing.exec {} calls
    r.routeOneDatagram (toTen 64) =
        (r, toTen 63, .error "ipv4_numeric called on non-IPV4 address") ∧
      (∃ route ∈ added calls, Matches (toTen 64).header.dst route) ∧
      Journey (toTen 0) 0 (toTen 0) ∧ ¬ 0 < (toTen 0).header.ttl.toNat := by
  refine ⟨rfl, ⟨⟨0x0a000000, 8, ⟨none, 0⟩⟩, by simp [overlapping, added], by decide⟩, .sent, ?_⟩
  decide

end Sponge.LongestPrefix
