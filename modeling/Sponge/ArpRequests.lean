import Sponge.DatagramOrder
import Sponge.Spacing

/-!
ARP requests of an interface are more than five seconds apart.
A request is broadcast only for an address without an entry in the forwarding
table and without an outstanding request. The record of the request is erased by
a reply as well as by time, but a reply leaves an entry behind, which lasts
longer. So what bars the next request is either the record, whose age is the
time since the request, or an entry that is not older than the request. The
datagrams handed in may be ill-formed here: a call may throw half-way.
-/
namespace Sponge.NetworkInterface

open Runs Words

/-- The address that a frame asks for, if it is a broadcast ARP request. -/
def arpRequest (frame : EthernetFrame) : Option UInt32 :=
  if frame.header.dst = ETHERNET_BROADCAST ∧ frame.header.type = EthernetHeader.TYPE_ARP then
    match ({} : ARPMessage).parse frame.payload.concatenate with
    | (.noError, msg) =>
      if msg.opcode = ARPMessage.OPCODE_REQUEST then some msg.targetIpAddress else none
    | _ => none
  else none

/-- The addresses asked for by the frames that a call pushes. -/
def asksFor (n : NetworkInterface) (op : Op) : List UInt32 :=
  ((n.step op).framesOut.drop n.framesOut.length).filterMap arpRequest

theorem arpRequest_of_type {frame : EthernetFrame}
    (h : frame.header.type = EthernetHeader.TYPE_IPv4) : arpRequest frame = none := by
  apply if_neg
  rintro ⟨-, harp⟩
  rw [h] at harp
  exact absurd harp (by decide)

/-- A frame with a supported message is what its opcode says. -/
theorem arpRequest_frame {msg : ARPMessage} (h : msg.supported = true)
    (dst src : EthernetAddress) :
    arpRequest ⟨⟨dst, src, EthernetHeader.TYPE_ARP⟩, BufferContents.ofBuffer msg.bytes⟩ =
      if dst = ETHERNET_BROADCAST ∧ msg.opcode = ARPMessage.OPCODE_REQUEST then
        some msg.targetIpAddress
      else none := by
  have hparse := ARPMessage.parse_bytes h {}
  by_cases hdst : dst = ETHERNET_BROADCAST <;>
    simp only [arpRequest, hdst, BufferContents.concatenate_ofBuffer, hparse, and_self, if_true,
      false_and, if_false, true_and]

/-- Between n and n' frames have been pushed that ask for the addresses xs. -/
def Asked (n : NetworkInterface) (xs : List UInt32) (n' : NetworkInterface) : Prop :=
  ∃ frames, n'.framesOut = n.framesOut ++ frames ∧ frames.filterMap arpRequest = xs

theorem Asked.asksFor {n : NetworkInterface} {op : Op} {xs : List UInt32}
    (h : n.Asked xs (n.step op)) : n.asksFor op = xs := by
  obtain ⟨frames, hframes, hxs⟩ := h
  rw [NetworkInterface.asksFor, hframes, List.drop_left, hxs]

theorem Asked.trans {n m n' : NetworkInterface} {xs ys : List UInt32} (h : n.Asked xs m)
    (h' : m.Asked ys n') : n.Asked (xs ++ ys) n' := by
  obtain ⟨frames, hframes, hxs⟩ := h
  obtain ⟨frames', hframes', hys⟩ := h'
  refine ⟨frames ++ frames', ?_, ?_⟩
  · rw [hframes', hframes, List.append_assoc]
  · rw [List.filterMap_append, hxs, hys]

theorem asked_of_framesOut {n n' : NetworkInterface} (h : n'.framesOut = n.framesOut) :
    n.Asked [] n' := ⟨[], by rw [h, List.append_nil], rfl⟩

theorem asked_push (n : NetworkInterface) (frame : EthernetFrame) :
    n.Asked (arpRequest frame).toList (n.push frame) :=
  ⟨[frame], rfl, by cases h : arpRequest frame <;> simp [h]⟩

/-- The books of the address resolution are as before, and nothing has been asked for. -/
structure Unasked (n n' : NetworkInterface) : Prop where
  ethernetAddress : n'.ethernetAddress = n.ethernetAddress
  ipAddress : n'.ipAddress = n.ipAddress
  forwardingTable : n'.forwardingTable = n.forwardingTable
  outstandingMsg : n'.outstandingMsg = n.outstandingMsg
  asked : n.Asked [] n'

theorem unasked_refl (n : NetworkInterface) : n.Unasked n :=
  ⟨rfl, rfl, rfl, rfl, asked_of_framesOut rfl⟩

theorem Unasked.trans {n m n' : NetworkInterface} (h : n.Unasked m) (h' : m.Unasked n') :
    n.Unasked n' where
  ethernetAddress := h'.ethernetAddress.trans h.ethernetAddress
  ipAddress := h'.ipAddress.trans h.ipAddress
  forwardingTable := h'.forwardingTable.trans h.forwardingTable
  outstandingMsg := h'.outstandingMsg.trans h.outstandingMsg
  asked := h.asked.trans h'.asked

/-- A datagram for a known next hop goes out in an IPv4 frame, or the call throws. -/
theorem sendDatagram_unasked {n : NetworkInterface} {nextHop : Address} {x : UInt32}
    {entry : Entry} (hx : nextHop.ipv4 = some x) (htable : n.forwardingTable x = some entry)
    (d : IPv4Datagram) : n.Unasked (n.sendDatagram d nextHop).1 := by
  cases hserialize : d.serialize with
  | error e =>
    have hsend : n.sendDatagram d nextHop = (n, .error e) := by
      simp only [sendDatagram, Address.ipv4Numeric, hx, htable, hserialize]
    rw [hsend]
    exact n.unasked_refl
  | ok payload =>
    have hsend : n.sendDatagram d nextHop =
        (n.dispatch x d (n.frameTo entry.ethAddr payload), .ok ()) := by
      simp only [sendDatagram, Address.ipv4Numeric, hx, htable, hserialize]
    have hframe : arpRequest (n.frameTo entry.ethAddr payload) = none := arpRequest_of_type rfl
    have hasked := n.asked_push (n.frameTo entry.ethAddr payload)
    rw [hframe] at hasked
    rw [hsend]
    exact ⟨rfl, rfl, rfl, rfl, hasked⟩

/-- The loop over what waits asks for nothing, whether it runs to its end or throws. -/
theorem flush_unasked {n : NetworkInterface} {x : UInt32} {entry : Entry}
    (htable : n.forwardingTable x = some entry) (bound : ℕ) :
    n.Unasked (n.flush x bound).1 := by
  induction bound generalizing n with
  | zero => exact n.unasked_refl
  | succ bound ih =>
    rw [flush]
    split
    · rename_i d queue hqueue
      have hsent : n.Unasked (n.sendDatagram d (Address.fromIpv4Numeric x)).1 :=
        sendDatagram_unasked rfl htable d
      split
      · rename_i m e hsend
        rw [hsend] at hsent
        exact hsent
      · rename_i m hsend
        rw [hsend] at hsent
        have hpopped : m.Unasked (m.popUnsent x) := ⟨rfl, rfl, rfl, rfl, asked_of_framesOut rfl⟩
        have hentry : (m.popUnsent x).forwardingTable x = some entry := by
          rw [hpopped.forwardingTable, hsent.forwardingTable, htable]
        exact (hsent.trans hpopped).trans (ih hentry)
    · exact n.unasked_refl

/-- A received frame whose ARP message the interface learns from. -/
structure Accepted (n : NetworkInterface) (frame : EthernetFrame) (msg : ARPMessage) : Prop where
  ours : frame.header.dst = n.ethernetAddress ∨ frame.header.dst = ETHERNET_BROADCAST
  type : frame.header.type = EthernetHeader.TYPE_ARP
  parses : ({} : ARPMessage).parse frame.payload.concatenate = (.noError, msg)
  target : n.ipAddress.ipv4 = some msg.targetIpAddress

theorem recvFrame_of_accepted {n : NetworkInterface} {frame : EthernetFrame} {msg : ARPMessage}
    (h : n.Accepted frame msg) : n.recvFrame frame = n.learn msg.targetIpAddress msg := by
  have hours : ¬ (frame.header.dst ≠ n.ethernetAddress ∧
      frame.header.dst ≠ ETHERNET_BROADCAST) := by
    rintro ⟨hown, hbroadcast⟩
    exact h.ours.elim hown hbroadcast
  have hipv4 : frame.header.type ≠ EthernetHeader.TYPE_IPv4 := by
    rw [h.type]
    decide
  simp only [recvFrame, if_neg hours, if_neg hipv4, if_pos h.type, h.parses,
    Address.ipv4Numeric, h.target, ne_eq, not_true_eq_false, if_false]

theorem recvFrame_of_not_accepted {n : NetworkInterface} {frame : EthernetFrame}
    (h : ∀ msg, ¬ n.Accepted frame msg) : (n.recvFrame frame).1 = n := by
  cases n.reaction frame with
  | ignored hrecv => rw [hrecv]
  | passed d _ _ _ hrecv => rw [hrecv]
  | failed e _ _ hrecv => rw [hrecv]
  | learned ownIp msg hip htype hparse _ =>
    have hipv4 : frame.header.type ≠ EthernetHeader.TYPE_IPv4 := by
      rw [htype]
      decide
    by_cases hours : frame.header.dst ≠ n.ethernetAddress ∧ frame.header.dst ≠ ETHERNET_BROADCAST
    · rw [recvFrame, if_pos hours]
    · have htarget : msg.targetIpAddress ≠ ownIp := by
        rintro rfl
        refine h msg ⟨?_, htype, hparse, hip⟩
        by_cases hown : frame.header.dst = n.ethernetAddress
        · exact Or.inl hown
        · exact Or.inr (Classical.byContradiction fun hbroadcast => hours ⟨hown, hbroadcast⟩)
      simp only [recvFrame, if_neg hours, if_neg hipv4, if_pos htype, hparse, Address.ipv4Numeric,
        hip, if_pos htarget]

/-- A request for x is recorded, and pushed unless the interface has no IPv4 address. -/
structure Requested (n : NetworkInterface) (x : UInt32) (n' : NetworkInterface) : Prop where
  ethernetAddress : n'.ethernetAddress = n.ethernetAddress
  ipAddress : n'.ipAddress = n.ipAddress
  forwardingTable : n'.forwardingTable = n.forwardingTable
  outstandingMsg : n'.outstandingMsg = n.outstandingMsg.insert x 0
  asked : n.Asked [] n' ∨ n.Asked [x] n'

theorem requested_of_push (n : NetworkInterface) (ip x : UInt32) :
    n.Requested x ((n.recorded x).push (n.requestFrame ip x)) := by
  have hframe : arpRequest (n.requestFrame ip x) = some x :=
    arpRequest_frame (show (n.requestFor ip x).supported = true from rfl) ETHERNET_BROADCAST
      n.ethernetAddress
  have hasked := (n.recorded x).asked_push (n.requestFrame ip x)
  rw [hframe] at hasked
  exact ⟨rfl, rfl, rfl, rfl, Or.inr hasked⟩

/-- The sender of msg is entered, and at most its outstanding request is erased. -/
structure Learned (n : NetworkInterface) (msg : ARPMessage) (n' : NetworkInterface) : Prop where
  ethernetAddress : n'.ethernetAddress = n.ethernetAddress
  ipAddress : n'.ipAddress = n.ipAddress
  forwardingTable : n'.forwardingTable =
    n.forwardingTable.insert msg.senderIpAddress ⟨msg.senderEthernetAddress, 0⟩
  outstandingMsg : n'.outstandingMsg = n.outstandingMsg ∨
    n'.outstandingMsg = n.outstandingMsg.erase msg.senderIpAddress
  asked : n.Asked [] n'

theorem learned_of_unasked {n n' : NetworkInterface} {msg : ARPMessage}
    (h : (n.enter msg).Unasked n') : n.Learned msg n' where
  ethernetAddress := h.ethernetAddress
  ipAddress := h.ipAddress
  forwardingTable := h.forwardingTable
  outstandingMsg := Or.inl h.outstandingMsg
  asked := h.asked

/-- A reply of the interface goes out without asking for anything. -/
theorem sendArp_reply_unasked (n : NetworkInterface) (ownIp : UInt32) (msg : ARPMessage)
    (dst : EthernetAddress) :
    ∃ n', n.sendArp (n.replyFor ownIp msg) dst = (n', .ok ()) ∧ n.Unasked n' := by
  have hsupported : (n.replyFor ownIp msg).supported = true := rfl
  have hframe := arpRequest_frame hsupported dst n.ethernetAddress
  have hopcode : ¬ (dst = ETHERNET_BROADCAST ∧
      (n.replyFor ownIp msg).opcode = ARPMessage.OPCODE_REQUEST) := by
    rintro ⟨-, hrequest⟩
    change ARPMessage.OPCODE_REPLY = ARPMessage.OPCODE_REQUEST at hrequest
    exact absurd hrequest (by decide)
  rw [if_neg hopcode] at hframe
  have hasked := n.asked_push ⟨⟨dst, n.ethernetAddress, EthernetHeader.TYPE_ARP⟩,
    BufferContents.ofBuffer (n.replyFor ownIp msg).bytes⟩
  rw [hframe] at hasked
  exact ⟨_, n.sendArp_of_supported hsupported dst, rfl, rfl, rfl, rfl, hasked⟩

theorem learn_learned (n : NetworkInterface) (ownIp : UInt32) (msg : ARPMessage) :
    n.Learned msg (n.learn ownIp msg).1 := by
  have hentry := Table.insert_self n.forwardingTable msg.senderIpAddress
    (⟨msg.senderEthernetAddress, 0⟩ : Entry)
  have hflush := @flush_unasked (n.enter msg) _ _ hentry
    (((n.enter msg).unsentDatagrams msg.senderIpAddress).getD []).length
  rw [learn]
  split
  · rename_i m e heq
    rw [heq] at hflush
    exact learned_of_unasked hflush
  · rename_i m heq
    rw [heq] at hflush
    split
    · obtain ⟨n', hsend, hreply⟩ :=
        m.sendArp_reply_unasked ownIp msg msg.senderEthernetAddress
      rw [hsend]
      exact learned_of_unasked (hflush.trans hreply)
    · exact ⟨hflush.ethernetAddress, hflush.ipAddress, hflush.forwardingTable,
        Or.inr (congrArg (Table.erase · msg.senderIpAddress) hflush.outstandingMsg), hflush.asked⟩

/-- What a call can do to the books of the address resolution. -/
inductive Resolution (n : NetworkInterface) : Op → NetworkInterface → Prop where
  | unasked {op : Op} {n' : NetworkInterface} (htime : op.duration = 0)
      (hdeaf : ∀ frame msg, op = .recv frame → ¬ n.Accepted frame msg)
      (h : n.Unasked n') : Resolution n op n'
  | requested {d : IPv4Datagram} {nextHop : Address} {x : UInt32} {n' : NetworkInterface}
      (htable : n.forwardingTable x = none) (hout : n.outstandingMsg x = none)
      (h : n.Requested x n') : Resolution n (.send d nextHop) n'
  | learned {frame : EthernetFrame} {msg : ARPMessage} {n' : NetworkInterface}
      (haccepted : n.Accepted frame msg) (h : n.Learned msg n') : Resolution n (.recv frame) n'
  | aged (ms : ℕ) : Resolution n (.tick ms) (n.tick ms)

theorem resolution_send (n : NetworkInterface) (d : IPv4Datagram) (nextHop : Address) :
    n.Resolution (.send d nextHop) (n.sendDatagram d nextHop).1 := by
  have hdeaf : ∀ frame msg, Op.send d nextHop = .recv frame → ¬ n.Accepted frame msg := by
    intro frame msg heq
    exact Op.noConfusion heq
  cases hx : nextHop.ipv4 with
  | none =>
    have hthrows : (n.sendDatagram d nextHop).1 = n := by
      simp only [sendDatagram, Address.ipv4Numeric, hx]
    rw [hthrows]
    exact .unasked rfl hdeaf n.unasked_refl
  | some x =>
    cases htable : n.forwardingTable x with
    | some entry => exact .unasked rfl hdeaf (sendDatagram_unasked hx htable d)
    | none =>
      rw [sendDatagram_unknown hx htable]
      cases (n.enqueue x d).requestOutcome x with
      | outstanding elapsed _ hrequest =>
        rw [hrequest]
        exact .unasked rfl hdeaf ⟨rfl, rfl, rfl, rfl, asked_of_framesOut rfl⟩
      | failed e hout _ hrequest =>
        rw [hrequest]
        exact .requested htable hout ⟨rfl, rfl, rfl, rfl, Or.inl (asked_of_framesOut rfl)⟩
      | pushed ip hout _ hrequest =>
        have hpushed := (n.enqueue x d).requested_of_push ip x
        rw [hrequest]
        exact .requested htable hout ⟨hpushed.ethernetAddress, hpushed.ipAddress,
          hpushed.forwardingTable, hpushed.outstandingMsg, hpushed.asked⟩

theorem resolution (n : NetworkInterface) (op : Op) : n.Resolution op (n.step op) := by
  cases op with
  | send d nextHop => exact n.resolution_send d nextHop
  | recv frame =>
    by_cases haccepted : ∃ msg, n.Accepted frame msg
    · obtain ⟨msg, haccepted⟩ := haccepted
      rw [step, recvFrame_of_accepted haccepted]
      exact .learned haccepted (n.learn_learned msg.targetIpAddress msg)
    · have hnone : ∀ msg, ¬ n.Accepted frame msg := fun msg h => haccepted ⟨msg, h⟩
      rw [step, recvFrame_of_not_accepted hnone]
      refine .unasked rfl ?_ n.unasked_refl
      intro frame' msg heq
      obtain rfl := Op.recv.inj heq
      exact hnone msg
  | tick ms => exact .aged ms

theorem older_of_le {entry : Entry} {ms : ℕ} (h : entry.timeElapsed + ms ≤ ENTRY_EXPIRY) :
    entry.older ms = some { entry with timeElapsed := entry.timeElapsed + ms } := by
  have hsum : wrapAdd 64 entry.timeElapsed ms = entry.timeElapsed + ms :=
    wrapAdd_of_lt (Nat.lt_of_le_of_lt h (by decide))
  unfold Entry.older
  rw [hsum, if_neg (Nat.not_lt.mpr h)]

/-- What the time t since a request for x was broadcast says about the books: no entry is
older, and within the expiry either the record tells the time or an entry has come. -/
structure Barred (x : UInt32) (t : ℕ) (n : NetworkInterface) : Prop where
  younger : ∀ entry, n.forwardingTable x = some entry → entry.timeElapsed ≤ t
  known : t ≤ MSG_EXPIRY → n.outstandingMsg x = some t ∨ n.forwardingTable x ≠ none

/-- A request is broadcast only when the bar is gone. -/
theorem Barred.lt_of_none {x : UInt32} {t : ℕ} {n : NetworkInterface} (h : Barred x t n)
    (htable : n.forwardingTable x = none) (hout : n.outstandingMsg x = none) :
    MSG_EXPIRY < t := by
  by_contra hle
  rcases h.known (Nat.not_lt.mp hle) with hrecord | hentry
  · rw [hout] at hrecord
    exact absurd hrecord (by simp)
  · exact hentry htable

theorem Barred.unasked {x : UInt32} {t : ℕ} {n n' : NetworkInterface} (h : Barred x t n)
    (hn : n.Unasked n') : Barred x t n' := by
  refine ⟨?_, ?_⟩
  · rw [hn.forwardingTable]
    exact h.younger
  · rw [hn.forwardingTable, hn.outstandingMsg]
    exact h.known

/-- A request for x itself comes after the bar, a request for another address leaves it. -/
theorem Barred.requested {x y : UInt32} {t : ℕ} {n n' : NetworkInterface} (h : Barred x t n)
    (htable : n.forwardingTable y = none) (hout : n.outstandingMsg y = none)
    (hn : n.Requested y n') : Barred x t n' := by
  refine ⟨?_, ?_⟩
  · rw [hn.forwardingTable]
    exact h.younger
  · intro hle
    rw [hn.forwardingTable, hn.outstandingMsg]
    by_cases hy : x = y
    · subst hy
      exact absurd (h.lt_of_none htable hout) (Nat.not_lt.mpr hle)
    · rw [Table.insert_of_ne _ hy]
      exact h.known hle

/-- Where a record is erased, an entry has been made, which is as new as can be. -/
theorem Barred.learned {x : UInt32} {t : ℕ} {n n' : NetworkInterface} {msg : ARPMessage}
    (h : Barred x t n) (hn : n.Learned msg n') : Barred x t n' := by
  refine ⟨?_, ?_⟩
  · intro entry hentry
    rw [hn.forwardingTable] at hentry
    rcases Table.of_insert hentry with hold | ⟨-, -, rfl⟩
    · exact h.younger entry hold
    · exact Nat.zero_le t
  · intro hle
    by_cases hx : x = msg.senderIpAddress
    · right
      rw [hn.forwardingTable, hx, Table.insert_self]
      exact Option.some_ne_none _
    · rw [hn.forwardingTable, Table.insert_of_ne _ hx]
      rcases hn.outstandingMsg with hsame | herased
      · rw [hsame]
        exact h.known hle
      · rw [herased, Table.erase_of_ne _ hx]
        exact h.known hle

/-- The record expires later than the bar, and an entry later still. -/
theorem Barred.aged {x : UInt32} {t : ℕ} {n : NetworkInterface} (h : Barred x t n) (ms : ℕ) :
    Barred x (t + ms) (n.tick ms) := by
  refine ⟨?_, ?_⟩
  · intro entry hentry
    obtain ⟨old, hold, holder⟩ := Option.bind_eq_some_iff.mp hentry
    have hyounger := h.younger old hold
    obtain ⟨-, -, hage⟩ := Entry.older_eq_some holder
    have hle := Nat.mod_le (old.timeElapsed + ms) (2 ^ 64)
    omega
  · intro hle
    have hexpiry : MSG_EXPIRY ≤ ENTRY_EXPIRY := by decide
    rcases h.known (Nat.le_trans (Nat.le_add_right t ms) hle) with hrecord | hentry
    · left
      have hsum : wrapAdd 64 t ms = t + ms := wrapAdd_of_lt (Nat.lt_of_le_of_lt hle (by decide))
      simp only [NetworkInterface.tick, Table.refresh, hrecord, Option.bind_some, hsum,
        if_neg (Nat.not_lt.mpr hle)]
    · right
      obtain ⟨entry, hentry⟩ := Option.ne_none_iff_exists'.mp hentry
      have hyounger := h.younger entry hentry
      have holder := @older_of_le entry ms (by omega)
      simp only [NetworkInterface.tick, Table.refresh, hentry, Option.bind_some, holder, ne_eq,
        reduceCtorEq, not_false_eq_true]

/-- Any calls, in any order. -/
def calls : Machine NetworkInterface Op := .total step

/-- What a call asks for is at most one address, neither known nor asked for lately. -/
theorem asksFor_cases (n : NetworkInterface) (op : Op) :
    n.asksFor op = [] ∨ ∃ x, n.asksFor op = [x] ∧ op.duration = 0 ∧
      n.forwardingTable x = none ∧ n.outstandingMsg x = none ∧ n.Requested x (n.step op) := by
  have hresolution := n.resolution op
  generalize hn' : n.step op = n' at hresolution ⊢
  have hasksFor : ∀ xs, n.Asked xs n' → n.asksFor op = xs := by
    intro xs hasked
    rw [← hn'] at hasked
    exact hasked.asksFor
  cases hresolution with
  | unasked _ _ hunasked => exact Or.inl (hasksFor [] hunasked.asked)
  | requested htable hout hrequested =>
    rcases hrequested.asked with hnone | hone
    · exact Or.inl (hasksFor [] hnone)
    · exact Or.inr ⟨_, hasksFor _ hone, rfl, htable, hout, hrequested⟩
  | learned _ hlearned => exact Or.inl (hasksFor [] hlearned.asked)
  | aged ms => exact Or.inl (hasksFor [] (asked_of_framesOut rfl))

theorem Barred.step {x : UInt32} {t : ℕ} {n : NetworkInterface} (h : Barred x t n) (op : Op) :
    Barred x (t + op.duration) (n.step op) := by
  have hresolution := n.resolution op
  generalize n.step op = n' at hresolution ⊢
  cases hresolution with
  | unasked htime _ hunasked =>
    rw [htime]
    exact h.unasked hunasked
  | requested htable hout hrequested => exact h.requested htable hout hrequested
  | learned _ hlearned => exact h.learned hlearned
  | aged ms => exact h.aged ms

theorem requests_bar :
    Machine.Bars calls Op.duration asksFor MSG_EXPIRY (fun _ => True) Barred where
  keeps _ _ := trivial
  nodup n op _ _ := by
    rcases n.asksFor_cases op with hnone | ⟨x, hone, -⟩
    · rw [hnone]
      exact List.nodup_nil
    · rw [hone]
      exact List.pairwise_singleton _ x
  begins := by
    intro n op x _ _ hx
    rcases n.asksFor_cases op with hnone | ⟨y, hone, htime, htable, hout, hrequested⟩
    · rw [hnone] at hx
      exact absurd hx List.not_mem_nil
    · rw [hone, List.mem_singleton] at hx
      subst hx
      rw [htime]
      refine ⟨?_, ?_⟩
      · intro entry hentry
        have hnone := hrequested.forwardingTable ▸ htable
        exact absurd (hentry.symm.trans hnone) (by simp)
      · intro _
        left
        change (n.step op).outstandingMsg x = some 0
        rw [hrequested.outstandingMsg, Table.insert_self, hout, Option.getD_none]
  lasts := by
    intro n op x t _ _ hbarred
    exact hbarred.step op
  ends := by
    intro n op x t _ _ hbarred hx
    rcases n.asksFor_cases op with hnone | ⟨y, hone, -, htable, hout, -⟩
    · rw [hnone] at hx
      exact absurd hx List.not_mem_nil
    · rw [hone, List.mem_singleton] at hx
      subst hx
      exact hbarred.lt_of_none htable hout

/-- Along every sequence of calls, any two requests for the same address are more than five
seconds apart. -/
theorem requests_spaced (eth : EthernetAddress) (ip : Address) (ops : List Op) :
    Machine.Spaced 5000 (calls.timeline Op.duration asksFor 0
      { ethernetAddress := eth, ipAddress := ip } ops) := by
  exact requests_bar.spaced 0 trivial (calls.valid_of_total (fun _ _ => trivial) _ ops)

/-- Three datagrams for next hop 7, of which the second comes too early for a request. -/
example : calls.timeline Op.duration asksFor 0
    { ethernetAddress := .ofOctets 1 1 1 1 1 1, ipAddress := ⟨some 5, 0⟩ }
    [.send {} (Address.fromIpv4Numeric 7), .tick 5000, .send {} (Address.fromIpv4Numeric 7),
      .tick 1, .send {} (Address.fromIpv4Numeric 7)] = [(0, 7), (5001, 7)] := by
  decide

end Sponge.NetworkInterface
