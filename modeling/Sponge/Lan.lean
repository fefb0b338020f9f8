import Mathlib.Data.List.Induction
import Sponge.DatagramOrder

/-!
Address resolution on a LAN of interfaces that all run this code.
Every frame that reaches an interface was pushed by some interface before; frames
may be delivered to anyone, late, repeatedly or never. Then the forwarding tables
hold true mappings only, so a datagram reaches the owner of its next hop.
-/
namespace Sponge.Lan

open Runs NetworkInterface

variable {ι : Type*}

/-- A call at one of the interfaces. -/
structure Event (ι : Type*) where
  node : ι
  op : NetworkInterface.Op

def start (eth : ι → EthernetAddress) (address : ι → Address) : ι → NetworkInterface :=
  fun i => { ethernetAddress := eth i, ipAddress := address i }

/-- Datagrams that satisfy `ok` may be sent, and frames received that were pushed before. -/
def Possible (ok : IPv4Datagram → Prop) (lan : ι → NetworkInterface) : Op → Prop
  | .send d _ => ok d
  | .recv frame => ∃ j, frame ∈ (lan j).framesOut
  | .tick _ => True

def machine [DecidableEq ι] (ok : IPv4Datagram → Prop) :
    Machine (ι → NetworkInterface) (Event ι) where
  enabled lan ev := Possible ok lan ev.op
  step lan ev := Function.update lan ev.node ((lan ev.node).step ev.op)

section Honest

variable (eth : ι → EthernetAddress) (ip : ι → UInt32)

/-- A frame of this LAN: an IPv4 frame, or an ARP message with the addresses of its sender. -/
def Spoken (frame : EthernetFrame) : Prop :=
  frame.header.type = EthernetHeader.TYPE_IPv4 ∨
    ∃ (j : ι) (msg : ARPMessage), msg.supported = true ∧
      msg.senderEthernetAddress = eth j ∧ msg.senderIpAddress = ip j ∧
      frame.payload.concatenate = msg.bytes

/-- The frame carries its datagram to the owner of the next hop. -/
structure Addressed (e : Dispatch) : Prop where
  readable : e.dgram.Readable
  type_eq : e.frame.header.type = EthernetHeader.TYPE_IPv4
  payload_eq : e.frame.payload = e.dgram.encoded
  owner : ∃ j, ip j = e.nextHop ∧ e.frame.header.dst = eth j

/-- What holds of interface number i of the LAN at any time. -/
structure Honest (i : ι) (n : NetworkInterface) : Prop where
  ethernetAddress : n.ethernetAddress = eth i
  address : n.ipAddress.ipv4 = some (ip i)
  books : ∃ asked, Ledger asked n
  table : ∀ x entry, n.forwardingTable x = some entry →
    (∃ j, ip j = x ∧ entry.ethAddr = eth j) ∧ entry.timeElapsed ≤ ENTRY_EXPIRY
  frames : ∀ f ∈ n.framesOut, Spoken eth ip f
  waiting : ∀ x, ∀ d ∈ n.pending x, d.Readable
  sent : ∀ e ∈ n.dispatched, Addressed eth ip e

variable {eth ip} {i : ι} {n n' : NetworkInterface}

theorem Honest.spoken (h : Honest eth ip i n) {frame : EthernetFrame}
    (hframe : n.Announces frame) : Spoken eth ip frame := by
  obtain ⟨-, own, msg, hown, hsupported, heth, hip, hbytes⟩ := hframe
  rw [h.address] at hown
  refine Or.inr ⟨i, msg, hsupported, heth.trans h.ethernetAddress, ?_, hbytes⟩
  rw [hip, Option.some.inj hown]

/-- The facts other than the books survive announcements. -/
theorem Honest.quiet (h : Honest eth ip i n) (hq : n.Quiet n') : Honest eth ip i n' := by
  obtain ⟨asked, hledger⟩ := h.books
  refine ⟨hq.ethernetAddress.trans h.ethernetAddress, ?_, ⟨asked, hledger.quiet hq⟩, ?_, ?_, ?_, ?_⟩
  · rw [hq.ipAddress]
    exact h.address
  · rw [hq.forwardingTable]
    exact h.table
  · obtain ⟨frames, hframes, hnew⟩ := hq.framesOut
    intro f hf
    rw [hframes] at hf
    rcases List.mem_append.mp hf with hold | hf
    · exact h.frames f hold
    · exact h.spoken (hnew f hf)
  · rw [hq.pending]
    exact h.waiting
  · rw [hq.dispatched]
    exact h.sent

theorem Honest.enqueue (h : Honest eth ip i n) {x : UInt32} (hx : n.forwardingTable x = none)
    {d : IPv4Datagram} (hd : d.Readable) : Honest eth ip i (n.enqueue x d) := by
  obtain ⟨asked, hledger⟩ := h.books
  exact ⟨h.ethernetAddress, h.address, ⟨_, hledger.enqueue hx hd.toWellFormed⟩, h.table, h.frames,
    forall_pending_enqueue h.waiting x hd, h.sent⟩

theorem Honest.dispatch (h : Honest eth ip i n) {x : UInt32} {entry : Entry}
    (hx : n.forwardingTable x = some entry) {d : IPv4Datagram} (hd : d.Readable) :
    Honest eth ip i (n.dispatch x d (n.frameTo entry.ethAddr d.encoded)) := by
  obtain ⟨asked, hledger⟩ := h.books
  refine ⟨h.ethernetAddress, h.address, ⟨_, hledger.dispatch hx hd.toWellFormed⟩, h.table, ?_,
    h.waiting, ?_⟩
  · intro f hf
    rcases List.mem_append.mp hf with hold | hnew
    · exact h.frames f hold
    · rw [List.mem_singleton.mp hnew]
      exact Or.inl rfl
  · intro e he
    rcases List.mem_append.mp he with hold | hnew
    · exact h.sent e hold
    · rw [List.mem_singleton.mp hnew]
      exact ⟨hd, rfl, rfl, (h.table x entry hx).1⟩

/-- A true mapping is entered, and what waited for it goes to the owner. -/
theorem Honest.flushed {m : NetworkInterface} (h : Honest eth ip i n) {msg : ARPMessage} {j : ι}
    (heth : msg.senderEthernetAddress = eth j) (hip : msg.senderIpAddress = ip j)
    (hm : Flushed msg.senderIpAddress ((n.forwardingTable msg.senderIpAddress).getD
      ⟨msg.senderEthernetAddress, 0⟩) (n.enter msg) m) : Honest eth ip i m := by
  obtain ⟨asked, hledger⟩ := h.books
  have htable : ∀ x entry, (n.enter msg).forwardingTable x = some entry →
      (∃ j, ip j = x ∧ entry.ethAddr = eth j) ∧ entry.timeElapsed ≤ ENTRY_EXPIRY := by
    intro x entry hx
    rcases Table.of_insert hx with hold | ⟨hkey, -, hnew⟩
    · exact h.table x entry hold
    · rw [hnew, hkey]
      exact ⟨⟨j, hip.symm, heth⟩, Nat.zero_le _⟩
  have hentry := htable _ _ (Table.insert_self n.forwardingTable msg.senderIpAddress
    ⟨msg.senderEthernetAddress, 0⟩)
  refine ⟨hm.ethernetAddress.trans h.ethernetAddress, ?_, ⟨asked, hledger.flushed hm⟩, ?_, ?_,
    hm.forall_pending h.waiting, ?_⟩
  · rw [hm.ipAddress]
    exact h.address
  · rw [hm.forwardingTable]
    exact htable
  · intro f hf
    rw [hm.framesOut] at hf
    rcases List.mem_append.mp hf with hold | hnew
    · exact h.frames f hold
    · obtain ⟨d, -, rfl⟩ := List.mem_map.mp hnew
      exact Or.inl rfl
  · intro e he
    rw [hm.dispatched] at he
    rcases List.mem_append.mp he with hold | hnew
    · exact h.sent e hold
    · obtain ⟨d, hd, rfl⟩ := List.mem_map.mp hnew
      exact ⟨h.waiting _ d hd, rfl, rfl, hentry.1⟩

theorem Honest.tick (h : Honest eth ip i n) (ms : ℕ) : Honest eth ip i (n.tick ms) := by
  obtain ⟨asked, hledger⟩ := h.books
  refine ⟨h.ethernetAddress, h.address, ⟨asked, hledger.tick ms⟩, ?_, h.frames, h.waiting, h.sent⟩
  intro x entry' hx
  obtain ⟨entry, hentry, holder⟩ := Option.bind_eq_some_iff.mp hx
  obtain ⟨heth, hage, -⟩ := Entry.older_eq_some holder
  obtain ⟨howner, -⟩ := h.table x entry hentry
  rw [heth]
  exact ⟨howner, hage⟩

/-- The calls that happen on the LAN: readable datagrams, and frames of the LAN. -/
def Expected (eth : ι → EthernetAddress) (ip : ι → UInt32) : Op → Prop
  | .send d _ => d.Readable
  | .recv frame => Spoken eth ip frame
  | .tick _ => True

theorem Expected.proper {op : Op} (h : Expected eth ip op) : op.Proper := by
  cases op with
  | send d nextHop => exact h.toWellFormed
  | recv frame => trivial
  | tick ms => trivial

theorem Honest.step (h : Honest eth ip i n) {op : Op} (hop : Expected eth ip op) :
    Honest eth ip i (n.step op) := by
  obtain ⟨asked, hledger⟩ := h.books
  have heffect := effect hledger.sendable hop.proper
  generalize n.step op = n' at heffect ⊢
  cases heffect with
  | idle _ _ => exact h
  | sent hx htable => exact h.dispatch htable hop
  | queued hx htable hquiet => exact (h.enqueue htable hop).quiet hquiet
  | learned htype hparse hflushed hquiet =>
    rcases hop with hipv4 | ⟨j, sent, hsupported, heth, hip, hbytes⟩
    · exact absurd (hipv4.symm.trans htype) (by decide)
    · rw [hbytes, ARPMessage.parse_bytes hsupported] at hparse
      obtain ⟨-, rfl⟩ := Prod.mk.inj hparse
      exact (h.flushed heth hip hflushed).quiet hquiet
  | aged ms => exact h.tick ms

end Honest

variable {eth : ι → EthernetAddress} {address : ι → Address} {ip : ι → UInt32}

theorem expected_of_possible {lan : ι → NetworkInterface}
    (h : ∀ i, Honest eth ip i (lan i)) {op : Op}
    (hop : Possible IPv4Datagram.Readable lan op) : Expected eth ip op := by
  cases op with
  | send d nextHop => exact hop
  | recv frame =>
    obtain ⟨j, hframe⟩ := hop
    exact (h j).frames frame hframe
  | tick ms => trivial

/-- The owner of the next hop takes the datagram out of the frame. -/
theorem recvFrame_owner {e : Dispatch} (he : Addressed eth ip e) {n : NetworkInterface}
    (hdst : e.frame.header.dst = n.ethernetAddress) :
    n.recvFrame e.frame = (n, .ok (some e.dgram.received)) := by
  have hparse := IPv4Datagram.parse_encoded he.readable {}
  rw [← he.payload_eq] at hparse
  rw [recvFrame, if_neg (fun hother => hother.1 hdst), if_pos he.type_eq, hparse]

theorem recvFrame_stranger {frame : EthernetFrame} {n : NetworkInterface}
    (hdst : frame.header.dst ≠ n.ethernetAddress)
    (hbroadcast : frame.header.dst ≠ ETHERNET_BROADCAST) : n.recvFrame frame = (n, .ok none) := by
  rw [recvFrame, if_pos ⟨hdst, hbroadcast⟩]

section Runs

variable [DecidableEq ι]

theorem honest_step {lan : ι → NetworkInterface} (h : ∀ i, Honest eth ip i (lan i))
    {ev : Event ι} (hev : Possible IPv4Datagram.Readable lan ev.op) (i : ι) :
    Honest eth ip i ((machine IPv4Datagram.Readable).step lan ev i) := by
  by_cases hi : i = ev.node
  · subst hi
    have hstep := (h ev.node).step (expected_of_possible h hev)
    simpa [machine] using hstep
  · simpa [machine, hi] using h i

theorem honest_run (haddress : ∀ i, (address i).ipv4 = some (ip i)) {evs : List (Event ι)}
    (hv : (machine IPv4Datagram.Readable).Valid (start eth address) evs) (i : ι) :
    Honest eth ip i ((machine IPv4Datagram.Readable).exec (start eth address) evs i) := by
  refine (machine IPv4Datagram.Readable).invariant
    (P := fun lan => ∀ i, Honest eth ip i (lan i)) ?_ ?_ hv i
  · intro lan ev hlan hev i
    exact honest_step hlan hev i
  · intro i
    exact ⟨rfl, haddress i, ⟨_, ledger_new (eth i) (address i)⟩,
      fun _ _ hnone => absurd hnone (Option.some_ne_none _).symm,
      fun _ hf => absurd hf List.not_mem_nil, fun _ _ hd => absurd hd List.not_mem_nil,
      fun _ he => absurd he List.not_mem_nil⟩

/-- The tick time that passes at interface i in a run. -/
def elapsed (i : ι) (evs : List (Event ι)) : ℕ :=
  NetworkInterface.elapsed ((evs.filter (·.node = i)).map Event.op)

/-- An entry in the table after a call was there before and has aged by the duration of
the call, or it is new. -/
theorem entry_step {n : NetworkInterface} {op : Op}
    (hwf : ∀ x, ∀ d ∈ n.pending x, d.WellFormed) (hop : op.Proper) {x : UInt32} {entry' : Entry}
    (h : (n.step op).forwardingTable x = some entry') :
    (∃ entry, n.forwardingTable x = some entry ∧
      entry'.timeElapsed % 2 ^ 64 = (entry.timeElapsed + op.duration) % 2 ^ 64) ∨
    n.forwardingTable x = none ∧ entry'.timeElapsed = 0 := by
  have heffect := effect hwf hop
  generalize n.step op = n' at heffect h
  cases heffect with
  | idle _ htick =>
    have hzero : op.duration = 0 := by
      cases op with
      | tick ms => exact absurd rfl (htick ms)
      | _ => rfl
    exact Or.inl ⟨entry', h, by rw [hzero, Nat.add_zero]⟩
  | sent hx htable => exact Or.inl ⟨entry', h, rfl⟩
  | queued hx htable hquiet =>
    rw [hquiet.forwardingTable] at h
    exact Or.inl ⟨entry', h, rfl⟩
  | learned _ _ hflushed hquiet =>
    rw [hquiet.forwardingTable, hflushed.forwardingTable] at h
    rcases Table.of_insert h with hold | ⟨hkey, hnone, hnew⟩
    · exact Or.inl ⟨entry', hold, rfl⟩
    · rw [hkey, hnew]
      exact Or.inr ⟨hnone, rfl⟩
  | aged ms =>
    obtain ⟨entry, hentry, holder⟩ := Option.bind_eq_some_iff.mp h
    obtain ⟨-, -, hage⟩ := Entry.older_eq_some holder
    exact Or.inl ⟨entry, hentry, by rw [hage, Nat.mod_mod]; rfl⟩

/-- The same for an interface of the LAN, which takes part in some of the events. -/
theorem entry_event {lan : ι → NetworkInterface} (h : ∀ i, Honest eth ip i (lan i))
    {ev : Event ι} (hev : Possible IPv4Datagram.Readable lan ev.op) {i : ι} {x : UInt32}
    {entry' : Entry}
    (hentry : ((machine IPv4Datagram.Readable).step lan ev i).forwardingTable x = some entry') :
    (∃ entry, (lan i).forwardingTable x = some entry ∧ entry'.timeElapsed % 2 ^ 64 =
      (entry.timeElapsed + if ev.node = i then ev.op.duration else 0) % 2 ^ 64) ∨
    (lan i).forwardingTable x = none ∧ entry'.timeElapsed = 0 := by
  by_cases hi : ev.node = i
  · subst hi
    obtain ⟨asked, hledger⟩ := (h ev.node).books
    rw [if_pos rfl]
    apply entry_step hledger.sendable (expected_of_possible h hev).proper
    simpa [machine] using hentry
  · rw [if_neg hi]
    have hsame : (machine IPv4Datagram.Readable).step lan ev i = lan i := by
      simp [machine, Ne.symm hi]
    rw [hsame] at hentry
    exact Or.inl ⟨entry', hentry, rfl⟩

theorem elapsed_concat (i : ι) (evs : List (Event ι)) (ev : Event ι) :
    elapsed i (evs ++ [ev]) =
      elapsed i evs + if ev.node = i then ev.op.duration else 0 := by
  by_cases hi : ev.node = i <;> simp [elapsed, NetworkInterface.elapsed, hi]

/-- Every entry was entered at some event, has been there ever since, and is as old as the
tick time since then, counted in 64 bits. -/
theorem entry_dated (haddress : ∀ i, (address i).ipv4 = some (ip i)) {evs : List (Event ι)}
    (hv : (machine IPv4Datagram.Readable).Valid (start eth address) evs) {i : ι} {x : UInt32}
    {entry : Entry} (hentry : ((machine IPv4Datagram.Readable).exec (start eth address) evs
      i).forwardingTable x = some entry) :
    ∃ pre ev post, evs = pre ++ ev :: post ∧
      ((machine IPv4Datagram.Readable).exec (start eth address) pre i).forwardingTable x = none ∧
      (∀ mid, mid <+: post → ((machine IPv4Datagram.Readable).exec (start eth address)
        (pre ++ ev :: mid) i).forwardingTable x ≠ none) ∧
      entry.timeElapsed = elapsed i post % 2 ^ 64 := by
  induction evs using List.reverseRecOn generalizing entry with
  | nil => exact absurd hentry (Option.some_ne_none _).symm
  | append_singleton evs ev ih =>
    obtain ⟨-, hage⟩ := (honest_run haddress hv i).table x entry hentry
    obtain ⟨hvalid, hev, -⟩ := ((machine IPv4Datagram.Readable).valid_append _ _ _).mp hv
    have hstep := hentry
    rw [(machine IPv4Datagram.Readable).exec_append] at hstep
    have hsmall : entry.timeElapsed % 2 ^ 64 = entry.timeElapsed :=
      Nat.mod_eq_of_lt (Nat.lt_of_le_of_lt hage (by decide))
    rcases entry_event (honest_run haddress hvalid) hev hstep with
      ⟨old, hold, haged⟩ | ⟨hnone, hzero⟩
    · obtain ⟨pre, first, post, rfl, habsent, hpresent, hdate⟩ := ih hvalid hold
      refine ⟨pre, first, post ++ [ev], by simp, habsent, ?_, ?_⟩
      · intro mid hmid
        rcases List.prefix_concat_iff.mp hmid with rfl | hmid
        · rw [← List.cons_append, ← List.append_assoc, hentry]
          exact Option.some_ne_none _
        · exact hpresent mid hmid
      · rw [elapsed_concat, ← hsmall, haged, hdate, Nat.mod_add_mod]
    · refine ⟨evs, ev, [], rfl, hnone, ?_, hzero⟩
      intro mid hmid
      rw [List.prefix_nil.mp hmid, hentry]
      exact Option.some_ne_none _

/-- Address resolution is correct: every IPv4 frame goes to the owner of its next hop, who
takes the datagram out of it while nobody else does, and the entries of the forwarding
tables are as old as the tick time since they were entered. -/
theorem resolution_correct (heth : Function.Injective eth)
    (hbroadcast : ∀ i, eth i ≠ ETHERNET_BROADCAST) (hip : Function.Injective ip)
    (haddress : ∀ i, (address i).ipv4 = some (ip i)) {evs : List (Event ι)}
    (hv : (machine IPv4Datagram.Readable).Valid (start eth address) evs) (i : ι) :
    let lan := (machine IPv4Datagram.Readable).exec (start eth address) evs
    (lan i).framesOut.filter (·.header.type = EthernetHeader.TYPE_IPv4) =
        (lan i).dispatched.map Dispatch.frame ∧
      (∀ e ∈ (lan i).dispatched, ∃ j, (∀ k, ip k = e.nextHop ↔ k = j) ∧
        e.frame.header.dst = eth j ∧
        (lan j).recvFrame e.frame = (lan j, .ok (some e.dgram.received)) ∧
        ∀ k, k ≠ j → (lan k).recvFrame e.frame = (lan k, .ok none)) ∧
      ∀ x entry, (lan i).forwardingTable x = some entry →
        entry.timeElapsed ≤ ENTRY_EXPIRY ∧ ∃ pre ev post, evs = pre ++ ev :: post ∧
          ((machine IPv4Datagram.Readable).exec (start eth address) pre i).forwardingTable x =
            none ∧
          (∀ mid, mid <+: post → ((machine IPv4Datagram.Readable).exec (start eth address)
            (pre ++ ev :: mid) i).forwardingTable x ≠ none) ∧
          entry.timeElapsed = elapsed i post % 2 ^ 64 := by
  intro lan
  have hhonest : ∀ i, Honest eth ip i (lan i) := honest_run haddress hv
  obtain ⟨asked, hledger⟩ := (hhonest i).books
  refine ⟨hledger.frames, ?_, ?_⟩
  · intro e he
    have haddressed := (hhonest i).sent e he
    obtain ⟨j, hown, hdst⟩ := haddressed.owner
    refine ⟨j, fun k => ⟨fun hk => hip (hk.trans hown.symm), fun hk => hk ▸ hown⟩, hdst, ?_, ?_⟩
    · apply recvFrame_owner haddressed
      rw [hdst, (hhonest j).ethernetAddress]
    · intro k hk
      apply recvFrame_stranger
      · rw [hdst, (hhonest k).ethernetAddress]
        exact fun heq => hk (heth heq).symm
      · rw [hdst]
        exact hbroadcast j
  · intro x entry hentry
    exact ⟨((hhonest i).table x entry hentry).2, entry_dated haddress hv hentry⟩

end Runs

/-- Two hosts, `false` with the addresses 1 and `true` with the addresses 2. -/
def hostIp (b : Bool) : UInt32 := if b then 2 else 1

def hostEth (b : Bool) : EthernetAddress :=
  if b then .ofOctets 2 2 2 2 2 2 else .ofOctets 1 1 1 1 1 1

theorem hostIp_injective : Function.Injective hostIp := by
  intro a b h
  revert a b
  decide

theorem hostEth_injective : Function.Injective hostEth := by
  intro a b h
  revert a b
  decide

def hosts : Bool → NetworkInterface := start hostEth fun b => ⟨some (hostIp b), 0⟩

/-- The second host asks for the first one, which learns the address of the second. -/
def introduced : List (Event Bool) :=
  [⟨true, .send { header := { len := 20 } } (Address.fromIpv4Numeric 1)⟩,
    ⟨false, .recv ⟨⟨ETHERNET_BROADCAST, hostEth true, EthernetHeader.TYPE_ARP⟩,
      ⟨[[0, 1, 8, 0, 6, 4, 0, 1, 2, 2, 2, 2, 2, 2, 0, 0, 0, 2, 0, 0, 0, 0, 0, 0, 0, 0, 0, 1]]⟩⟩⟩]

theorem introduced_valid (ok : IPv4Datagram → Prop) (hok : ok { header := { len := 20 } }) :
    (machine ok).Valid hosts introduced := by
  refine ⟨hok, ⟨true, ?_⟩, trivial⟩
  exact List.mem_singleton.mpr rfl

/-- The first host answers with a datagram, and seven milliseconds pass. -/
def answered : List (Event Bool) :=
  introduced ++ [⟨false, .send { header := { len := 20 } } (Address.fromIpv4Numeric 2)⟩,
    ⟨false, .tick 7⟩]

theorem resolution_correct_answered :
    let lan := (machine IPv4Datagram.Readable).exec hosts answered
    (lan false).dispatched.length = 1 ∧
      (lan false).framesOut.filter (·.header.type = EthernetHeader.TYPE_IPv4) =
        (lan false).dispatched.map Dispatch.frame ∧
      (∀ e ∈ (lan false).dispatched, ∃ j, (∀ k, hostIp k = e.nextHop ↔ k = j) ∧
        e.frame.header.dst = hostEth j ∧
        (lan j).recvFrame e.frame = (lan j, .ok (some e.dgram.received)) ∧
        ∀ k, k ≠ j → (lan k).recvFrame e.frame = (lan k, .ok none)) ∧
      ∀ x entry, (lan false).forwardingTable x = some entry →
        entry.timeElapsed ≤ ENTRY_EXPIRY ∧ ∃ pre ev post, answered = pre ++ ev :: post ∧
          ((machine IPv4Datagram.Readable).exec hosts pre false).forwardingTable x = none ∧
          (∀ mid, mid <+: post → ((machine IPv4Datagram.Readable).exec hosts
            (pre ++ ev :: mid) false).forwardingTable x ≠ none) ∧
          entry.timeElapsed = elapsed false post % 2 ^ 64 := by
  have hsmall : IPv4Datagram.Readable { header := { len := 20 } } := by decide
  have hvalid : (machine IPv4Datagram.Readable).Valid hosts answered := by
    rw [answered, Machine.valid_append]
    exact ⟨introduced_valid _ hsmall, hsmall, trivial, trivial⟩
  exact ⟨rfl, resolution_correct hostEth_injective (by decide) hostIp_injective (fun _ => rfl)
    hvalid false⟩

/-- A datagram with options whose total length is zero. -/
def lengthless (payload : List UInt8) : IPv4Datagram :=
  { header := { hlen := 6, len := 0 }, payload := BufferContents.ofBuffer payload }

/-- It has the payload size its header tells if the difference of the lengths wraps to it. -/
theorem lengthless_wellFormed {payload : List UInt8} (h : payload.length = 65512) :
    (lengthless payload).WellFormed := by
  refine ⟨⟨rfl, show (5 : UInt8) ≤ 6 by decide⟩, ?_⟩
  have hlength : (lengthless payload).header.payloadLength.toNat = 65512 := rfl
  rw [hlength, BufferContents.size_eq, lengthless, BufferContents.concatenate_ofBuffer, h]

/-- Its frame is not read by the host it is for. -/
theorem lengthless_ignored {payload : List UInt8} (h : payload.length = 65512)
    (n : NetworkInterface) (frame : EthernetFrame)
    (htype : frame.header.type = EthernetHeader.TYPE_IPv4)
    (hpayload : frame.payload = (lengthless payload).encoded) :
    n.recvFrame frame = (n, .ok none) := by
  have hshort := IPv4Datagram.parse_encoded_of_short (lengthless_wellFormed h)
    ⟨show (6 : UInt8) ≤ 15 by decide, show (0 : UInt16) < 8192 by decide⟩
    (show 5 < (6 : UInt8).toNat by decide)
    (show (0 : UInt16).toNat < 4 * (6 : UInt8).toNat by decide) {}
  rw [← hpayload] at hshort
  cases n.reaction frame with
  | ignored hrecv => exact hrecv
  | passed d _ _ hparse _ =>
    rw [hparse] at hshort
    cases hshort
  | failed e _ harp _ => exact absurd (htype.symm.trans harp) (by decide)
  | learned ownIp msg _ harp _ _ => exact absurd (htype.symm.trans harp) (by decide)

/-- What fails for datagrams that are only well-formed, and for exact ages: the owner of the
next hop does not read a datagram whose total length is less than its header with options,
and the age of an entry wraps at 2^64. -/
theorem resolution_corner_cases :
    (∃ evs, (machine fun d => d.WellFormed ∧ d.header.Fits).Valid hosts evs ∧
      ∃ e ∈ ((machine fun d => d.WellFormed ∧ d.header.Fits).exec hosts evs false).dispatched,
        e.nextHop = hostIp true ∧ e.frame.header.dst = hostEth true ∧
        (((machine fun d => d.WellFormed ∧ d.header.Fits).exec hosts evs true).recvFrame
          e.frame).2 = .ok none) ∧
    ∃ post, (machine fun d => d.WellFormed ∧ d.header.Fits).Valid hosts (introduced ++ post) ∧
      (∀ mid, mid <+: post → ((machine fun d => d.WellFormed ∧ d.header.Fits).exec hosts
        (introduced ++ mid) false).forwardingTable 2 ≠ none) ∧
      ((machine fun d => d.WellFormed ∧ d.header.Fits).exec hosts (introduced ++ post)
        false).forwardingTable 2 = some ⟨hostEth true, 0⟩ ∧
      elapsed false post = 2 ^ 64 := by
  have hsmall : IPv4Datagram.WellFormed { header := { len := 20 } } ∧
      IPv4Header.Fits { len := 20 } := by decide
  constructor
  · obtain ⟨payload, hpayload⟩ : ∃ payload : List UInt8, payload.length = 65512 :=
      ⟨List.replicate 65512 0, List.length_replicate⟩
    have hwf := lengthless_wellFormed hpayload
    refine ⟨introduced ++ [⟨false, .send (lengthless payload) (Address.fromIpv4Numeric 2)⟩], ?_, ?_⟩
    · rw [Machine.valid_append]
      exact ⟨introduced_valid _ hsmall, ⟨hwf, show (6 : UInt8) ≤ 15 by decide,
        show (0 : UInt16) < 8192 by decide⟩, trivial⟩
    · rw [Machine.exec_append]
      generalize hlan : (machine fun d => d.WellFormed ∧ d.header.Fits).exec hosts introduced = lan
      have hknown : (lan false).forwardingTable 2 = some ⟨hostEth true, 0⟩ := by
        rw [← hlan]
        rfl
      have hsend : (lan false).step (.send (lengthless payload) (Address.fromIpv4Numeric 2)) =
          (lan false).dispatch 2 (lengthless payload)
            ((lan false).frameTo (hostEth true) (lengthless payload).encoded) := by
        rw [NetworkInterface.step, sendDatagram_known rfl hknown hwf]
      refine ⟨⟨2, lengthless payload,
        (lan false).frameTo (hostEth true) (lengthless payload).encoded⟩, ?_, rfl, rfl, ?_⟩
      · simp [machine, hsend, NetworkInterface.dispatch]
      · rw [lengthless_ignored hpayload _ _ rfl rfl]
  · refine ⟨[⟨false, .tick 1⟩, ⟨false, .tick (2 ^ 64 - 1)⟩], ?_, ?_, rfl, rfl⟩
    · rw [Machine.valid_append]
      exact ⟨introduced_valid _ hsmall, trivial, trivial, trivial⟩
    · intro mid hmid
      rcases List.prefix_cons_iff.mp hmid with rfl | ⟨rest, rfl, hrest⟩
      · decide
      · rcases List.prefix_cons_iff.mp hrest with rfl | ⟨rest, rfl, hnil⟩
        · decide
        · rw [List.prefix_nil.mp hnil]
          decide

end Sponge.Lan
