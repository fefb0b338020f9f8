import Sponge.NetworkInterface
import Sponge.Runs

/-!
No datagram is lost, duplicated or reordered on its way through an interface.
For each next hop, what has gone out followed by what waits is what was handed
in, and nothing waits for a next hop whose Ethernet address is known. Frames are
arbitrary; an interface without an IPv4 address throws but keeps its books.
-/
namespace Sponge.NetworkInterface

open Runs

inductive Op where
  | send (dgram : IPv4Datagram) (nextHop : Address)
  | recv (frame : EthernetFrame)
  | tick (ms : ℕ)

def step (n : NetworkInterface) : Op → NetworkInterface
  | .send dgram nextHop => (n.sendDatagram dgram nextHop).1
  | .recv frame => (n.recvFrame frame).1
  | .tick ms => n.tick ms

/-- The time that a call takes. -/
def Op.duration : Op → ℕ
  | .tick ms => ms
  | _ => 0

/-- The time that the calls take together. -/
def elapsed (ops : List Op) : ℕ := (ops.map Op.duration).sum

/-- The datagrams handed in are well-formed; frames and times are arbitrary. -/
def Op.Proper : Op → Prop
  | .send dgram _ => dgram.WellFormed
  | _ => True

instance : ∀ op : Op, Decidable op.Proper
  | .send dgram _ => inferInstanceAs (Decidable dgram.WellFormed)
  | .recv _ => isTrue trivial
  | .tick _ => isTrue trivial

def machine : Machine NetworkInterface Op where
  enabled _ op := op.Proper
  step := step

instance (n : NetworkInterface) (op : Op) : Decidable (machine.enabled n op) :=
  inferInstanceAs (Decidable op.Proper)

/-- The datagrams that a call hands in for next hop x. -/
def Op.asked (x : UInt32) : Op → List IPv4Datagram
  | .send dgram nextHop => if nextHop.ipv4 = some x then [dgram] else []
  | _ => []

/-- What a call can do to an interface in which all that waits is well-formed. -/
inductive Effect (n : NetworkInterface) : Op → NetworkInterface → Prop where
  | idle {op : Op} (hasked : ∀ x, op.asked x = []) (htick : ∀ ms, op ≠ .tick ms) : Effect n op n
  | sent {d : IPv4Datagram} {nextHop : Address} {x : UInt32} {entry : Entry}
      (hx : nextHop.ipv4 = some x) (htable : n.forwardingTable x = some entry) :
      Effect n (.send d nextHop) (n.dispatch x d (n.frameTo entry.ethAddr d.encoded))
  | queued {d : IPv4Datagram} {nextHop : Address} {x : UInt32} {n' : NetworkInterface}
      (hx : nextHop.ipv4 = some x) (htable : n.forwardingTable x = none)
      (hquiet : (n.enqueue x d).Quiet n') : Effect n (.send d nextHop) n'
  | learned {frame : EthernetFrame} {msg : ARPMessage} {m n' : NetworkInterface}
      (htype : frame.header.type = EthernetHeader.TYPE_ARP)
      (hparse : ({} : ARPMessage).parse frame.payload.concatenate = (.noError, msg))
      (hflushed : Flushed msg.senderIpAddress ((n.forwardingTable msg.senderIpAddress).getD
        ⟨msg.senderEthernetAddress, 0⟩) (n.enter msg) m)
      (hquiet : m.Quiet n') : Effect n (.recv frame) n'
  | aged (ms : ℕ) : Effect n (.tick ms) (n.tick ms)

theorem effect {n : NetworkInterface} (hwf : ∀ x, ∀ d ∈ n.pending x, d.WellFormed) {op : Op}
    (hop : op.Proper) : Effect n op (n.step op) := by
  cases op with
  | send d nextHop =>
    rw [NetworkInterface.step]
    cases hx : nextHop.ipv4 with
    | none =>
      have hthrows : (n.sendDatagram d nextHop).1 = n := by
        simp [sendDatagram, Address.ipv4Numeric, hx]
      rw [hthrows]
      exact .idle (fun x => by simp [Op.asked, hx]) (by simp)
    | some x =>
      cases htable : n.forwardingTable x with
      | some entry =>
        rw [sendDatagram_known hx htable hop]
        exact .sent hx htable
      | none =>
        rw [sendDatagram_unknown hx htable]
        exact .queued hx htable (request_quiet _ x).1
  | recv frame =>
    rw [NetworkInterface.step]
    cases n.reaction frame with
    | ignored hrecv =>
      rw [hrecv]
      exact .idle (fun _ => rfl) (by simp)
    | passed d _ _ _ hrecv =>
      rw [hrecv]
      exact .idle (fun _ => rfl) (by simp)
    | failed e _ _ hrecv =>
      rw [hrecv]
      exact .idle (fun _ => rfl) (by simp)
    | learned ownIp msg hip htype hparse hrecv =>
      obtain ⟨m, n', hlearn, hflushed, hquiet⟩ := learn_rule hip (hwf msg.senderIpAddress)
      rw [hrecv, hlearn]
      exact .learned htype hparse hflushed hquiet
  | tick ms => exact .aged ms

/-- The books of an interface that was handed the datagrams `asked x` for each next hop x. -/
structure Ledger (asked : UInt32 → List IPv4Datagram) (n : NetworkInterface) : Prop where
  balance : ∀ x, n.carried x ++ n.pending x = asked x
  settled : ∀ x, n.forwardingTable x ≠ none → n.pending x = []
  sendable : ∀ x, ∀ d ∈ n.pending x, d.WellFormed
  frames : n.framesOut.filter (·.header.type = EthernetHeader.TYPE_IPv4) =
    n.dispatched.map Dispatch.frame
  carries : ∀ e ∈ n.dispatched, e.dgram.serialize = .ok e.frame.payload

theorem carried_append {n n' : NetworkInterface} {x : UInt32} {ds : List IPv4Datagram}
    {frame : IPv4Datagram → EthernetFrame}
    (h : n'.dispatched = n.dispatched ++ ds.map fun d => ⟨x, d, frame d⟩) (y : UInt32) :
    n'.carried y = n.carried y ++ if y = x then ds else [] := by
  have hnew : (ds.map fun d => (⟨x, d, frame d⟩ : Dispatch)).filter (·.nextHop = y) =
      if y = x then ds.map fun d => ⟨x, d, frame d⟩ else [] := by
    by_cases hy : y = x
    · rw [if_pos hy, List.filter_eq_self]
      simp [hy]
    · rw [if_neg hy, List.filter_eq_nil_iff]
      simp [Ne.symm hy]
  rw [carried, h, List.filter_append, List.map_append, hnew]
  by_cases hy : y = x
  · simp [hy, carried, Function.comp_def]
  · simp [hy, carried]

/-- Announcements and outstanding requests are not in the books. -/
theorem Ledger.quiet {asked : UInt32 → List IPv4Datagram} {n n' : NetworkInterface}
    (h : Ledger asked n) (hq : n.Quiet n') : Ledger asked n' := by
  refine ⟨?_, ?_, ?_, ?_, ?_⟩
  · intro x
    rw [carried, hq.dispatched, hq.pending]
    exact h.balance x
  · rw [hq.forwardingTable, hq.pending]
    exact h.settled
  · rw [hq.pending]
    exact h.sendable
  · obtain ⟨frames, hframes, harp⟩ := hq.framesOut
    have hnone : frames.filter (·.header.type = EthernetHeader.TYPE_IPv4) = [] := by
      rw [List.filter_eq_nil_iff]
      intro f hf
      have htype := (harp f hf).1
      rw [htype]
      decide
    rw [hframes, List.filter_append, hnone, List.append_nil, hq.dispatched]
    exact h.frames
  · intro e he
    rw [hq.dispatched] at he
    exact h.carries e he

/-- A datagram for a next hop that is not known waits behind the others. -/
theorem Ledger.enqueue {asked : UInt32 → List IPv4Datagram} {n : NetworkInterface}
    (h : Ledger asked n) {x : UInt32} (hx : n.forwardingTable x = none) {d : IPv4Datagram}
    (hd : d.WellFormed) :
    Ledger (fun y => asked y ++ if y = x then [d] else []) (n.enqueue x d) := by
  refine ⟨?_, ?_, forall_pending_enqueue h.sendable x hd, h.frames, h.carries⟩
  · intro y
    have hbalance := h.balance y
    have hcarried : (n.enqueue x d).carried y = n.carried y := rfl
    rw [hcarried, pending_enqueue]
    by_cases hy : y = x
    · subst hy
      rw [if_pos rfl, if_pos rfl, ← List.append_assoc, hbalance]
    · rw [if_neg hy, if_neg hy, List.append_nil, hbalance]
  · intro y hy
    rw [pending_enqueue]
    by_cases hyx : y = x
    · subst hyx
      exact absurd hx hy
    · rw [if_neg hyx]
      exact h.settled y hy

/-- A datagram for a known next hop goes out at once; nothing waited before it. -/
theorem Ledger.dispatch {asked : UInt32 → List IPv4Datagram} {n : NetworkInterface}
    (h : Ledger asked n) {x : UInt32} {entry : Entry} (hx : n.forwardingTable x = some entry)
    {d : IPv4Datagram} (hd : d.WellFormed) :
    Ledger (fun y => asked y ++ if y = x then [d] else [])
      (n.dispatch x d (n.frameTo entry.ethAddr d.encoded)) := by
  refine ⟨?_, h.settled, h.sendable, ?_, ?_⟩
  · intro y
    have hbalance := h.balance y
    have hcarried : (n.dispatch x d (n.frameTo entry.ethAddr d.encoded)).carried y =
        n.carried y ++ if y = x then [d] else [] :=
      carried_append (show _ = n.dispatched ++
        [d].map fun d => ⟨x, d, n.frameTo entry.ethAddr d.encoded⟩ from rfl) y
    have hpending : (n.dispatch x d (n.frameTo entry.ethAddr d.encoded)).pending y =
        n.pending y := rfl
    rw [hcarried, hpending]
    by_cases hy : y = x
    · have hempty : n.pending y = [] := h.settled y (by rw [hy, hx]; exact Option.some_ne_none _)
      rw [hempty, List.append_nil] at hbalance
      rw [hempty, List.append_nil, hbalance]
    · rw [if_neg hy, List.append_nil, List.append_nil, hbalance]
  · have hframes := h.frames
    simp only [NetworkInterface.dispatch, push, List.filter_append, List.map_append, hframes]
    rfl
  · intro e he
    rcases List.mem_append.mp he with hold | hnew
    · exact h.carries e hold
    · rw [List.mem_singleton.mp hnew]
      exact IPv4Datagram.serialize_of_wellFormed hd

/-- Learning an address sends what waited for it and settles it. -/
theorem Ledger.flushed {asked : UInt32 → List IPv4Datagram} {n m : NetworkInterface}
    (h : Ledger asked n) {msg : ARPMessage} {entry : Entry}
    (hm : Flushed msg.senderIpAddress entry (n.enter msg) m) : Ledger asked m := by
  have hpending : ∀ y, (n.enter msg).pending y = n.pending y := fun _ => rfl
  refine ⟨?_, ?_, hm.forall_pending h.sendable, ?_, ?_⟩
  · intro y
    have hbalance := h.balance y
    have hcarried := carried_append hm.dispatched y
    have hbefore : (n.enter msg).carried y = n.carried y := rfl
    rw [hcarried, hm.pending y, hbefore, hpending]
    by_cases hy : y = msg.senderIpAddress
    · rw [if_pos hy, if_pos hy, List.append_nil, ← hy, hbalance]
    · rw [if_neg hy, if_neg hy, List.append_nil, hpending, hbalance]
  · intro y hy
    rw [hm.forwardingTable] at hy
    rw [hm.pending y]
    by_cases hyx : y = msg.senderIpAddress
    · rw [if_pos hyx]
    · rw [if_neg hyx, hpending]
      apply h.settled y
      have hinsert := Table.insert_of_ne n.forwardingTable hyx
        (⟨msg.senderEthernetAddress, 0⟩ : Entry)
      rw [← hinsert]
      exact hy
  · have hframes := h.frames
    have hbefore : (n.enter msg).framesOut = n.framesOut := rfl
    have hdispatched : (n.enter msg).dispatched = n.dispatched := rfl
    rw [hm.framesOut, hm.dispatched, hbefore, hdispatched, List.filter_append, hframes,
      List.map_append, List.map_map]
    congr 1
    rw [List.filter_eq_self.mpr]
    · rfl
    · intro f hf
      obtain ⟨d, -, rfl⟩ := List.mem_map.mp hf
      rfl
  · intro e he
    rw [hm.dispatched] at he
    rcases List.mem_append.mp he with hold | hnew
    · exact h.carries e hold
    · obtain ⟨d, hd, rfl⟩ := List.mem_map.mp hnew
      exact IPv4Datagram.serialize_of_wellFormed (h.sendable _ d hd)

theorem Ledger.tick {asked : UInt32 → List IPv4Datagram} {n : NetworkInterface}
    (h : Ledger asked n) (ms : ℕ) : Ledger asked (n.tick ms) := by
  refine ⟨h.balance, ?_, h.sendable, h.frames, h.carries⟩
  intro x hx
  apply h.settled x
  intro hnone
  apply hx
  simp [NetworkInterface.tick, Table.refresh, hnone]

theorem Ledger.step {asked : UInt32 → List IPv4Datagram} {n : NetworkInterface}
    (h : Ledger asked n) {op : Op} (hop : op.Proper) :
    Ledger (fun x => asked x ++ op.asked x) (n.step op) := by
  have heffect := effect h.sendable hop
  generalize n.step op = n' at heffect ⊢
  cases heffect with
  | idle hnone _ => simpa only [hnone, List.append_nil] using h
  | sent hx htable =>
    simpa only [Op.asked, hx, Option.some.injEq, eq_comm] using h.dispatch htable hop
  | queued hx htable hquiet =>
    simpa only [Op.asked, hx, Option.some.injEq, eq_comm] using
      (h.enqueue htable hop).quiet hquiet
  | learned _ _ hflushed hquiet =>
    simpa only [Op.asked, List.append_nil] using (h.flushed hflushed).quiet hquiet
  | aged ms => simpa only [Op.asked, List.append_nil] using h.tick ms

theorem Ledger.run {asked : UInt32 → List IPv4Datagram} {n : NetworkInterface}
    (h : Ledger asked n) {ops : List Op} (hv : machine.Valid n ops) :
    Ledger (fun x => asked x ++ ops.flatMap (Op.asked x)) (machine.exec n ops) := by
  induction ops generalizing n asked with
  | nil => simpa using h
  | cons op ops ih =>
    have hnext := ih (h.step hv.1) hv.2
    simp only [List.append_assoc] at hnext
    exact hnext

theorem ledger_new (eth : EthernetAddress) (ip : Address) :
    Ledger (fun _ => []) { ethernetAddress := eth, ipAddress := ip } where
  balance _ := rfl
  settled _ _ := rfl
  sendable _ _ hd := absurd hd List.not_mem_nil
  frames := rfl
  carries _ he := absurd he List.not_mem_nil

/-- Per next hop the interface keeps datagrams in the order in which they were handed in:
those in the IPv4 frames pushed for it, then those that wait. The IPv4 frames are the
dispatched ones, each with its datagram serialized in it. -/
theorem datagrams_kept_in_order (eth : EthernetAddress) (ip : Address) (ops : List Op)
    (hv : machine.Valid { ethernetAddress := eth, ipAddress := ip } ops) (x : UInt32) :
    let n := machine.exec { ethernetAddress := eth, ipAddress := ip } ops
    n.carried x ++ n.pending x = ops.flatMap (Op.asked x) ∧
      (n.forwardingTable x ≠ none → n.pending x = []) ∧
      n.framesOut.filter (·.header.type = EthernetHeader.TYPE_IPv4) =
        n.dispatched.map Dispatch.frame ∧
      ∀ e ∈ n.dispatched, e.dgram.serialize = .ok e.frame.payload := by
  have hledger := (ledger_new eth ip).run hv
  exact ⟨hledger.balance x, hledger.settled x, hledger.frames, hledger.carries⟩

/-- Two datagrams for next hop 7, one before and one after its ARP reply. -/
def replied : List Op :=
  [.send { header := { len := 20, id := 1 } } (Address.fromIpv4Numeric 7),
    .recv ⟨⟨ETHERNET_BROADCAST, EthernetAddress.zero, EthernetHeader.TYPE_ARP⟩,
      ⟨[[0, 1, 8, 0, 6, 4, 0, 2, 9, 9, 9, 9, 9, 9, 0, 0, 0, 7], [1, 1, 1, 1, 1, 1, 0, 0, 0, 5]]⟩⟩,
    .send { header := { len := 20, id := 2 } } (Address.fromIpv4Numeric 7), .tick 40000]

theorem datagrams_kept_in_order_replied :
    let n := machine.exec
      { ethernetAddress := .ofOctets 1 1 1 1 1 1, ipAddress := ⟨some 5, 0⟩ } replied
    n.carried 7 ++ n.pending 7 =
        [{ header := { len := 20, id := 1 } }, { header := { len := 20, id := 2 } }] ∧
      (n.forwardingTable 7 ≠ none → n.pending 7 = []) ∧
      n.framesOut.filter (·.header.type = EthernetHeader.TYPE_IPv4) =
        n.dispatched.map Dispatch.frame ∧
      ∀ e ∈ n.dispatched, e.dgram.serialize = .ok e.frame.payload :=
  datagrams_kept_in_order (.ofOctets 1 1 1 1 1 1) ⟨some 5, 0⟩ replied (by decide) 7

end Sponge.NetworkInterface
