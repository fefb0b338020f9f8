import Sponge.ArpRequests

/-!
Which announcement an interface goes by.
A mapping is entered by an insertion that leaves an older entry alone: it neither
replaces the Ethernet address nor renews the age. So an announcement counts only
where there was no entry for its sender, or one with the same address that is
still young enough.
-/
namespace Sponge.NetworkInterface

open Runs Words

/-- By this call the interface hears that x has the Ethernet address eth. -/
def Announced (n : NetworkInterface) (x : UInt32) (eth : EthernetAddress) (op : Op) : Prop :=
  ∃ frame msg, op = .recv frame ∧ n.Accepted frame msg ∧ msg.senderIpAddress = x ∧
    msg.senderEthernetAddress = eth

/-- Sending d to the next hop pushes just one frame, an IPv4 frame for eth. -/
def PushesTo (n : NetworkInterface) (d : IPv4Datagram) (nextHop : Address)
    (eth : EthernetAddress) : Prop :=
  ∃ frame, (n.sendDatagram d nextHop).1.framesOut = n.framesOut ++ [frame] ∧
    frame.header.type = EthernetHeader.TYPE_IPv4 ∧ frame.header.dst = eth

theorem step_addresses (n : NetworkInterface) (op : Op) :
    (n.step op).ethernetAddress = n.ethernetAddress ∧ (n.step op).ipAddress = n.ipAddress := by
  have hresolution := n.resolution op
  generalize n.step op = n' at hresolution ⊢
  cases hresolution with
  | unasked _ _ h => exact ⟨h.ethernetAddress, h.ipAddress⟩
  | requested _ _ h => exact ⟨h.ethernetAddress, h.ipAddress⟩
  | learned _ h => exact ⟨h.ethernetAddress, h.ipAddress⟩
  | aged ms => exact ⟨rfl, rfl⟩

theorem exec_addresses (n : NetworkInterface) (ops : List Op) :
    (calls.exec n ops).ethernetAddress = n.ethernetAddress ∧
      (calls.exec n ops).ipAddress = n.ipAddress := by
  refine calls.invariant (P := fun n' => n'.ethernetAddress = n.ethernetAddress ∧
    n'.ipAddress = n.ipAddress) ?_ ⟨rfl, rfl⟩ (calls.valid_of_total (fun _ _ => trivial) n ops)
  rintro n' op ⟨heth, hip⟩ -
  obtain ⟨heth', hip'⟩ := n'.step_addresses op
  exact ⟨heth'.trans heth, hip'.trans hip⟩

/-- Which messages are accepted depends on the addresses of the interface alone. -/
theorem Accepted.congr {n n' : NetworkInterface} (heth : n'.ethernetAddress = n.ethernetAddress)
    (hip : n'.ipAddress = n.ipAddress) {frame : EthernetFrame} {msg : ARPMessage}
    (h : n'.Accepted frame msg) : n.Accepted frame msg where
  ours := heth ▸ h.ours
  type := h.type
  parses := h.parses
  target := hip ▸ h.target

theorem Accepted.exec {n : NetworkInterface} {frame : EthernetFrame} {msg : ARPMessage}
    (h : n.Accepted frame msg) (ops : List Op) : (calls.exec n ops).Accepted frame msg := by
  obtain ⟨heth, hip⟩ := n.exec_addresses ops
  exact h.congr heth.symm hip.symm

/-- No entry is older than the expiry, as `tick` compares each age with it. -/
def Young (n : NetworkInterface) : Prop :=
  ∀ x entry, n.forwardingTable x = some entry → entry.timeElapsed ≤ ENTRY_EXPIRY

theorem Young.step {n : NetworkInterface} (h : n.Young) (op : Op) : (n.step op).Young := by
  have hresolution := n.resolution op
  generalize n.step op = n' at hresolution ⊢
  intro x entry hentry
  cases hresolution with
  | unasked _ _ hn =>
    rw [hn.forwardingTable] at hentry
    exact h x entry hentry
  | requested _ _ hn =>
    rw [hn.forwardingTable] at hentry
    exact h x entry hentry
  | learned _ hn =>
    rw [hn.forwardingTable] at hentry
    rcases Table.of_insert hentry with hold | ⟨-, -, rfl⟩
    · exact h x entry hold
    · exact Nat.zero_le _
  | aged ms =>
    obtain ⟨old, -, holder⟩ := Option.bind_eq_some_iff.mp hentry
    exact (Entry.older_eq_some holder).2.1

theorem Young.exec {n : NetworkInterface} (h : n.Young) (ops : List Op) :
    (calls.exec n ops).Young :=
  calls.invariant (fun _ op hn _ => hn.step op) h (calls.valid_of_total (fun _ _ => trivial) n ops)

/-- What is left of an entry after some time, without the wrap-around of `Entry.older`. -/
def Entry.after (t : ℕ) (entry : Entry) : Option Entry :=
  if entry.timeElapsed + t ≤ ENTRY_EXPIRY then
    some { entry with timeElapsed := entry.timeElapsed + t }
  else none

theorem Entry.older_eq_after {entry : Entry} {ms : ℕ} (hentry : entry.timeElapsed ≤ ENTRY_EXPIRY)
    (hms : ms ≤ ENTRY_EXPIRY) : entry.older ms = entry.after ms := by
  have hsum : wrapAdd 64 entry.timeElapsed ms = entry.timeElapsed + ms :=
    wrapAdd_of_lt (Nat.lt_of_le_of_lt (Nat.add_le_add hentry hms) (by decide))
  unfold Entry.older Entry.after
  rw [hsum]
  by_cases hage : entry.timeElapsed + ms ≤ ENTRY_EXPIRY
  · rw [if_neg (Nat.not_lt.mpr hage), if_pos hage]
  · rw [if_pos (Nat.not_le.mp hage), if_neg hage]

theorem Entry.after_bind (s t : ℕ) (entry : Entry) :
    (entry.after s).bind (Entry.after t) = entry.after (s + t) := by
  unfold Entry.after
  by_cases hs : entry.timeElapsed + s ≤ ENTRY_EXPIRY
  · rw [if_pos hs, Option.bind_some, Nat.add_assoc]
  · rw [if_neg hs, if_neg (by omega), Option.bind_none]

/-- A call that announces nothing of x lets the entry for x grow older. -/
theorem step_silent {n : NetworkInterface} (hyoung : n.Young) {x : UInt32} {op : Op}
    (hsilent : ∀ eth, ¬ n.Announced x eth op) (htime : op.duration ≤ ENTRY_EXPIRY) :
    (n.step op).forwardingTable x = (n.forwardingTable x).bind (Entry.after op.duration) := by
  have hsame : (n.forwardingTable x).bind (Entry.after 0) = n.forwardingTable x := by
    cases hentry : n.forwardingTable x with
    | none => rfl
    | some entry =>
      rw [Option.bind_some, Entry.after]
      exact if_pos (hyoung x entry hentry)
  have hresolution := n.resolution op
  generalize n.step op = n' at hresolution ⊢
  cases hresolution with
  | unasked hzero _ hn => rw [hzero, hsame, hn.forwardingTable]
  | requested _ _ hn => exact (congrFun hn.forwardingTable x).trans hsame.symm
  | learned haccepted hn =>
    refine Eq.trans ?_ hsame.symm
    rw [hn.forwardingTable]
    apply Table.insert_of_ne
    intro hx
    exact hsilent _ ⟨_, _, rfl, haccepted, hx.symm, rfl⟩
  | aged ms =>
    change (n.forwardingTable x).bind (Entry.older ms) = _
    cases hentry : n.forwardingTable x with
    | none => rfl
    | some entry => exact Entry.older_eq_after (hyoung x entry hentry) htime

theorem exec_silent {n : NetworkInterface} (hyoung : n.Young) {x : UInt32} {ops : List Op}
    (hsilent : ∀ op ∈ ops, ∀ eth, ¬ n.Announced x eth op) (htime : elapsed ops ≤ ENTRY_EXPIRY) :
    (calls.exec n ops).forwardingTable x =
      (n.forwardingTable x).bind (Entry.after (elapsed ops)) := by
  induction ops generalizing n with
  | nil =>
    cases hentry : n.forwardingTable x with
    | none => exact hentry
    | some entry => exact hentry.trans (if_pos (hyoung x entry hentry)).symm
  | cons op ops ih =>
    have hsum : elapsed (op :: ops) = op.duration + elapsed ops := List.sum_cons
    rw [hsum] at htime ⊢
    have hfirst := step_silent hyoung (hsilent op List.mem_cons_self) (by omega)
    obtain ⟨heth, hip⟩ := n.step_addresses op
    have hrest : ∀ op' ∈ ops, ∀ eth, ¬ (n.step op).Announced x eth op' := by
      rintro op' hop' eth ⟨frame, msg, hframe, haccepted, hsender⟩
      exact hsilent op' (List.mem_cons_of_mem op hop') eth
        ⟨frame, msg, hframe, haccepted.congr heth hip, hsender⟩
    have hlater := ih (hyoung.step op) hrest (by omega)
    refine hlater.trans ?_
    rw [hfirst, Option.bind_assoc]
    exact congrArg _ (funext (Entry.after_bind op.duration (elapsed ops)))

/-- A datagram goes out at once exactly where it is well-formed and there is an entry. -/
theorem pushesTo_iff {n : NetworkInterface} {nextHop : Address} {x : UInt32}
    (hx : nextHop.ipv4 = some x) (d : IPv4Datagram) (eth : EthernetAddress) :
    n.PushesTo d nextHop eth ↔
      d.WellFormed ∧ ∃ age, n.forwardingTable x = some ⟨eth, age⟩ := by
  cases hentry : n.forwardingTable x with
  | none =>
    refine iff_of_false ?_ ?_
    · rintro ⟨frame, hpushed, htype, -⟩
      rw [sendDatagram_unknown hx hentry] at hpushed
      obtain ⟨frames, hframes, harp⟩ := (request_quiet (n.enqueue x d) x).1.framesOut
      have hlast : frames = [frame] := List.append_cancel_left (hframes.symm.trans hpushed)
      have harp' := (harp frame (by rw [hlast]; exact List.mem_singleton_self frame)).1
      rw [htype] at harp'
      exact absurd harp' (by decide)
    · rintro ⟨-, age, hage⟩
      exact absurd hage (by simp)
  | some entry =>
    by_cases hd : d.WellFormed
    · have hsend := sendDatagram_known hx hentry hd
      refine ⟨?_, ?_⟩
      · rintro ⟨frame, hpushed, -, hdst⟩
        rw [hsend] at hpushed
        have hframe : [n.frameTo entry.ethAddr d.encoded] = [frame] :=
          List.append_cancel_left hpushed
        rw [← (List.cons.inj hframe).1] at hdst
        refine ⟨hd, entry.timeElapsed, ?_⟩
        rw [← hdst]
        rfl
      · rintro ⟨-, age, hage⟩
        refine ⟨n.frameTo entry.ethAddr d.encoded, by rw [hsend]; rfl, rfl, ?_⟩
        rw [Option.some.inj hage]
        rfl
    · refine iff_of_false ?_ fun h => hd h.1
      rintro ⟨frame, hpushed, -⟩
      obtain ⟨e, hserialize⟩ := IPv4Datagram.serialize_of_not_wellFormed hd
      have hsend : n.sendDatagram d nextHop = (n, .error e) := by
        simp only [sendDatagram, Address.ipv4Numeric, hx, hentry, hserialize]
      rw [hsend] at hpushed
      have hlength := congrArg List.length hpushed
      simp at hlength

/-- The entry for the sender some time after its last announcement: an entry that was there
before stays, with its address and its age. -/
theorem entry_after_announcement {n : NetworkInterface} (hyoung : n.Young) {frame : EthernetFrame}
    {msg : ARPMessage} (haccepted : n.Accepted frame msg) {post : List Op}
    (hsilent : ∀ op ∈ post, ∀ eth, ¬ n.Announced msg.senderIpAddress eth op)
    (htime : elapsed post ≤ ENTRY_EXPIRY) :
    (calls.exec n (.recv frame :: post)).forwardingTable msg.senderIpAddress =
      ((n.forwardingTable msg.senderIpAddress).getD ⟨msg.senderEthernetAddress, 0⟩).after
        (elapsed post) := by
  have hlearned : n.Learned msg (n.step (.recv frame)) := by
    rw [step, recvFrame_of_accepted haccepted]
    exact n.learn_learned msg.targetIpAddress msg
  have hrest : ∀ op ∈ post, ∀ eth,
      ¬ (n.step (.recv frame)).Announced msg.senderIpAddress eth op := by
    rintro op hop eth ⟨frame', msg', hframe, haccepted', hsender⟩
    exact hsilent op hop eth ⟨frame', msg', hframe,
      haccepted'.congr hlearned.ethernetAddress hlearned.ipAddress, hsender⟩
  have hlater := exec_silent (hyoung.step (.recv frame)) hrest htime
  rw [hlearned.forwardingTable, Table.insert_self, Option.bind_some] at hlater
  exact hlater

/-- The last announcement of an address is gone by exactly where, when it came, there was no
entry for its sender, or one with the announced address whose age leaves it the time. -/
theorem latest_announcement_iff (eth : EthernetAddress) (ip : Address) (pre post : List Op)
    {frame : EthernetFrame} {msg : ARPMessage} {nextHop : Address} (d : IPv4Datagram)
    (haccepted : Accepted { ethernetAddress := eth, ipAddress := ip } frame msg)
    (hlast : ∀ op ∈ post, ∀ eth',
      ¬ Announced { ethernetAddress := eth, ipAddress := ip } msg.senderIpAddress eth' op)
    (htime : elapsed post ≤ 30000) (hhop : nextHop.ipv4 = some msg.senderIpAddress) :
    let before := calls.exec { ethernetAddress := eth, ipAddress := ip } pre
    let now := calls.exec { ethernetAddress := eth, ipAddress := ip } (pre ++ .recv frame :: post)
    now.PushesTo d nextHop msg.senderEthernetAddress ↔
      d.WellFormed ∧ (before.forwardingTable msg.senderIpAddress = none ∨
        ∃ age, before.forwardingTable msg.senderIpAddress = some ⟨msg.senderEthernetAddress, age⟩ ∧
          age + elapsed post ≤ 30000) := by
  intro before now
  have hyoung : before.Young := by
    apply Young.exec
    intro x entry hentry
    exact absurd hentry (by simp [Table.empty])
  obtain ⟨heth, hip⟩ := exec_addresses { ethernetAddress := eth, ipAddress := ip } pre
  have hsilent : ∀ op ∈ post, ∀ eth', ¬ before.Announced msg.senderIpAddress eth' op := by
    rintro op hop eth' ⟨frame', msg', hframe, haccepted', hsender⟩
    exact hlast op hop eth' ⟨frame', msg', hframe, haccepted'.congr heth hip, hsender⟩
  have hentry := entry_after_announcement hyoung (haccepted.exec pre) hsilent htime
  have hnow : now = calls.exec before (.recv frame :: post) := Machine.exec_append _ _ _ _
  rw [pushesTo_iff hhop, hnow, hentry]
  refine and_congr_right fun _ => ?_
  cases hbefore : before.forwardingTable msg.senderIpAddress with
  | none =>
    refine iff_of_true ⟨elapsed post, ?_⟩ (Or.inl rfl)
    rw [Option.getD_none, Entry.after, if_pos (by rw [Nat.zero_add]; exact htime), Nat.zero_add]
  | some entry =>
    rw [Option.getD_some, Entry.after]
    refine ⟨?_, ?_⟩
    · rintro ⟨age, hage⟩
      split at hage
      · rename_i hyounger
        right
        have haddress : entry.ethAddr = msg.senderEthernetAddress :=
          congrArg Entry.ethAddr (Option.some.inj hage)
        refine ⟨entry.timeElapsed, ?_, hyounger⟩
        rw [← haddress]
      · exact absurd hage (by simp)
    · rintro (hnone | ⟨age, hage, hyounger⟩)
      · exact absurd hnone (by simp)
      · rw [Option.some.inj hage]
        exact ⟨age + elapsed post, if_pos hyounger⟩

/-- The ARP reply of address 7 to an interface with the address 5. -/
def replyOfSeven (eth : EthernetAddress) : ARPMessage :=
  { opcode := ARPMessage.OPCODE_REPLY
    senderEthernetAddress := eth
    senderIpAddress := 7
    targetEthernetAddress := .ofOctets 1 1 1 1 1 1
    targetIpAddress := 5 }

def frameOfSeven (eth : EthernetAddress) : EthernetFrame :=
  ⟨⟨.ofOctets 1 1 1 1 1 1, eth, EthernetHeader.TYPE_ARP⟩,
    BufferContents.ofBuffer (replyOfSeven eth).bytes⟩

/-- After a first announcement, a datagram is sent to its address for thirty seconds. -/
theorem latest_announcement_first :
    (calls.exec { ethernetAddress := .ofOctets 1 1 1 1 1 1, ipAddress := ⟨some 5, 0⟩ }
      ([] ++ .recv (frameOfSeven (.ofOctets 2 2 2 2 2 2)) :: [.tick 30000])).PushesTo
        { header := { len := 20 } } (Address.fromIpv4Numeric 7) (.ofOctets 2 2 2 2 2 2) :=
  (@latest_announcement_iff (.ofOctets 1 1 1 1 1 1) ⟨some 5, 0⟩ [] [.tick 30000]
    (frameOfSeven (.ofOctets 2 2 2 2 2 2)) (replyOfSeven (.ofOctets 2 2 2 2 2 2))
    (Address.fromIpv4Numeric 7) { header := { len := 20 } }
    ⟨Or.inl rfl, rfl, by decide, rfl⟩
    (by
      rintro op hop eth' ⟨frame, msg, rfl, -⟩
      exact absurd hop (by simp))
    (by decide) rfl).mpr ⟨by decide, Or.inl rfl⟩

/-- A second announcement with another address changes nothing, and one with the same address
does not make the entry last longer. -/
theorem latest_announcement_ignored :
    let fresh : NetworkInterface :=
      { ethernetAddress := .ofOctets 1 1 1 1 1 1, ipAddress := ⟨some 5, 0⟩ }
    let d : IPv4Datagram := { header := { len := 20 } }
    let moved := calls.exec fresh [.recv (frameOfSeven (.ofOctets 2 2 2 2 2 2)),
      .recv (frameOfSeven (.ofOctets 3 3 3 3 3 3))]
    let renewed := calls.exec fresh [.recv (frameOfSeven (.ofOctets 2 2 2 2 2 2)), .tick 20000,
      .recv (frameOfSeven (.ofOctets 2 2 2 2 2 2)), .tick 15000]
    ¬ moved.PushesTo d (Address.fromIpv4Numeric 7) (.ofOctets 3 3 3 3 3 3) ∧
      ¬ renewed.PushesTo d (Address.fromIpv4Numeric 7) (.ofOctets 2 2 2 2 2 2) := by
  intro fresh d moved renewed
  have hmoved : moved.forwardingTable 7 = some ⟨.ofOctets 2 2 2 2 2 2, 0⟩ := by decide
  have hrenewed : renewed.forwardingTable 7 = none := by decide
  refine ⟨?_, ?_⟩
  · rw [@pushesTo_iff moved (Address.fromIpv4Numeric 7) 7 rfl]
    rintro ⟨-, age, hage⟩
    rw [hmoved] at hage
    have haddress : EthernetAddress.ofOctets 2 2 2 2 2 2 = .ofOctets 3 3 3 3 3 3 :=
      congrArg Entry.ethAddr (Option.some.inj hage)
    exact absurd haddress (by decide)
  · rw [@pushesTo_iff renewed (Address.fromIpv4Numeric 7) 7 rfl]
    rintro ⟨-, age, hage⟩
    rw [hrenewed] at hage
    exact absurd hage (by simp)

end Sponge.NetworkInterface
