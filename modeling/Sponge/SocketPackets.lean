import Sponge.AdapterPackets
import Sponge.Record
import Sponge.SocketPair

/-!
Two sockets and the packets between their adapters.
The segments that an endpoint hands to its adapter have headers without options and payloads of
at most 1000 bytes, so that they survive serialization. With what is known of the adapters,
a condition on the packets alone is enough for the owners: what an adapter takes from its device
is noise, or what routers have made of a packet that the other adapter has given to its own.
-/
namespace Sponge

open Programs EventLoop SenderBooks SenderOutput ConnectionCalls TCPSpongeSocket

namespace TCPConnection

/-- Outgoing segments are compact. -/
structure Framed (S : List UInt8) (c : TCPConnection) : Prop where
  output : Output S c.sender
  queued : ∀ seg ∈ c.sender.segmentsOut, seg.payload.length ≤ TCPConfig.maxPayloadSize
  emitted : ∀ seg ∈ c.segmentsOut, seg.Compact

section Framed

variable {S : List UInt8} {c c' : TCPConnection}

theorem new_framed (cfg : TCPConfig) (random : WrappingInt32) : Framed [] (new cfg random) where
  output := new_output _ _ _ _
  queued seg hseg := by simp [new, TCPSender.new] at hseg
  emitted seg hseg := by simp [new] at hseg

theorem Framed.of_same (h : Framed S c) (hs : c'.sender = c.sender)
    (ho : c'.segmentsOut = c.segmentsOut) : Framed S c' :=
  ⟨hs ▸ h.output, hs ▸ h.queued, ho ▸ h.emitted⟩

/-- A call of the sender queues first transmissions, repetitions of them, or empty segments. -/
theorem Framed.call (h : Framed S c) (op : SenderOp) (hop : Proper c.sender op) :
    Framed (S ++ c.sender.acceptedBy op) (c.callSender op) where
  output := (h.output.apply op hop).1
  queued seg hseg := by
    obtain ⟨firsts, hbooks⟩ := h.output.books
    obtain ⟨hbooks', ⟨rest, hpush, hrest⟩, hqueue⟩ := SenderRuns.callEffect hbooks op hop.1
    rcases hqueue seg hseg with hold | hnew
    · exact h.queued seg hold
    rw [hpush] at hnew
    rcases List.mem_append.mp hnew with hfirst | hagain
    · obtain ⟨e, he, rfl⟩ := List.mem_map.mp hfirst
      exact hbooks'.payload_le e (List.mem_append_right _ he)
    · rcases hrest seg hagain with ⟨e, he, rfl⟩ | ⟨-, rfl⟩
      · exact hbooks.payload_le e (hbooks.suffix.subset (List.mem_of_mem_head? he))
      · exact Nat.zero_le _
  emitted seg hseg := by
    rw [callSender_segmentsOut] at hseg
    exact h.emitted seg hseg

theorem Framed.quietCall (h : Framed S c) (op : SenderOp) (hop : Proper c.sender op)
    (hnil : c.sender.acceptedBy op = []) : Framed S (c.callSender op) := by
  have hcall := h.call op hop
  rw [hnil, List.append_nil] at hcall
  exact hcall

theorem compact_stamp {seg : TCPSegment} (hplain : seg.header.Plain)
    (hpayload : seg.payload.length ≤ TCPConfig.maxPayloadSize) (rst : Bool) :
    (c.stamp rst seg).Compact := by
  have hdoff : seg.header.doff = 5 := by
    rw [show seg.header = _ from hplain]
  unfold stamp
  cases c.receiver.ackno <;> cases rst <;> exact ⟨hdoff, hpayload⟩

theorem Framed.emit (h : Framed S c) (rst : Bool) : Framed S (c.sendSegments rst) := by
  cases hactive : c.active with
  | false =>
    rw [sendSegments_of_inactive hactive]
    exact h
  | true =>
    rw [sendSegments_of_active hactive]
    refine ⟨h.output.drain, fun seg hseg => by simp at hseg, fun seg hseg => ?_⟩
    rcases List.mem_append.mp hseg with hold | hnew
    · exact h.emitted seg hold
    · obtain ⟨plain, hqueued, rfl⟩ := List.mem_map.mp hnew
      exact compact_stamp (h.output.queued plain hqueued).2 (h.queued plain hqueued) rst

theorem Framed.reset (h : Framed S c) : Framed S c.reset :=
  (h.quietCall .setError ⟨trivial, by simp⟩ rfl).of_same rfl rfl

theorem framed_stable : Stable Framed where
  retx _ _ h := h.output.retx
  fill _ _ h := h.quietCall .fillWindow ⟨trivial, by simp⟩ rfl
  writeFill _ _ data h hopen :=
    (h.call (.write data) ⟨hopen, by simp⟩).quietCall .fillWindow ⟨trivial, by simp⟩ rfl
  count _ _ ms h := h.quietCall (.tick ms) ⟨trivial, by simp⟩ rfl
  empty _ _ h hsent := h.quietCall .sendEmptySegment ⟨trivial, fun _ => hsent⟩ rfl
  emit _ _ rst h := h.emit rst
  reset _ _ h := h.reset
  switch _ c h := h.of_same (trySwitchingCloseMode_sender c) (trySwitchingCloseMode_segmentsOut c)
  close _ _ h _ _ := h.of_same rfl rfl
  timer _ _ _ h := h.of_same rfl rfl

theorem Framed.segmentReceived (h : Framed S c) (seg : TCPSegment) :
    Framed S (c.segmentReceived seg) := by
  refine framed_stable.segmentReceived ?_
  refine takeIn_rule (h.of_same rfl rfl) (fun c hc => hc.reset) ?_
  intro c hc
  exact hc.quietCall (.ackReceived seg.header.ackno seg.header.win) ⟨trivial, by simp⟩ rfl

theorem Framed.endInputStream (h : Framed S c) : Framed S c.endInputStream :=
  framed_stable.endInputStream (h.quietCall .endInput ⟨trivial, by simp⟩ rfl)

end Framed

end TCPConnection

namespace TCPSpongeSocket

open TCPConnection

variable {α : Type} {adapter : Adapter α} {J : α → Prop}

/-- The adapter keeps J, and the endpoint's segments are compact. -/
structure Steady (J : α → Prop) (w : TCPSpongeSocket α) : Prop where
  adapter : J w.datagramAdapter
  framed : ∃ S, Framed S w.tcp

section Steady

variable {w : TCPSpongeSocket α}

theorem Steady.receiveDatagram (hkeeps : adapter.Keeps J) :
    Ensures (Steady J) (receiveDatagram adapter) (fun _ => Steady J)
      (fun _ w => J w.datagramAdapter) := by
  refine ensures_of_start fun w hw => ?_
  have hread := zoom_ensures (l := adapterLens) (s := w)
    (hkeeps.read.pre fun a (ha : a = w.datagramAdapter) => ha ▸ hw.adapter)
  refine (hread.mono (fun _ => id) (fun _ _ => id) ?_).bind fun seg => ?_
  · rintro e _ ⟨a, ha, rfl⟩
    exact ha
  · refine ensures_modify ?_
    rintro _ ⟨a, ha, rfl⟩
    obtain ⟨S, hframed⟩ := hw.framed
    refine ⟨ha, S, ?_⟩
    cases seg with
    | none => exact hframed
    | some seg => exact hframed.segmentReceived seg

theorem Steady.endOutbound (h : Steady J w) :
    Steady J { w with tcp := w.tcp.endInputStream, outboundShutdown := true } := by
  obtain ⟨S, hframed⟩ := h.framed
  exact ⟨h.adapter, S, hframed.endInputStream⟩

theorem Steady.readOwner :
    Ensures (Steady J) (readOwner : EStateM Failure (TCPSpongeSocket α) Unit) (fun _ => Steady J)
      (fun _ w => J w.datagramAdapter) := by
  refine ensures_get_bind fun w hw => ?_
  have hread := zoom_ensures (l := threadLens) (s := w)
    (Channel.read_ensures w.threadData w.tcp.remainingOutboundCapacity)
  refine (hread.mono (fun _ => id) (fun _ _ => id) ?_).bind fun data => ?_
  · rintro e _ ⟨c, -, rfl⟩
    exact hw.adapter
  · refine ensures_get_bind ?_
    rintro _ ⟨c, -, rfl⟩
    obtain ⟨S, hframed⟩ := hw.framed
    have hwritten : Steady J { w with threadData := c, tcp := (w.tcp.write data).2 } :=
      ⟨hw.adapter, _, framed_stable.write hframed data⟩
    refine (ensures_set (R := fun _ => Steady J) fun _ _ => hwritten).bind fun _ => ?_
    dsimp only
    split
    · exact ensures_throw fun _ h => h.adapter
    · split
      · exact ensures_modify fun _ h => h.endOutbound
      · exact ensures_pure fun _ => id

theorem Steady.writeOwner :
    Ensures (Steady J) (writeOwner : EStateM Failure (TCPSpongeSocket α) Unit) (fun _ => Steady J)
      (fun _ w => J w.datagramAdapter) := by
  refine ensures_get_bind fun w hw => ?_
  dsimp only
  have hwrite := zoom_ensures (l := threadLens) (s := w) (Channel.write_ensures w.threadData
    (w.tcp.inboundStream.peekOutput (min 65536 w.tcp.inboundStream.bufferSize)))
  refine (hwrite.mono (fun _ => id) (fun _ _ => id) ?_).bind fun n => ?_
  · rintro e _ ⟨c, -, rfl⟩
    exact hw.adapter
  · refine (ensures_modify (R := fun _ => Steady J) ?_).bind fun _ => ?_
    · rintro _ ⟨c, -, rfl⟩
      obtain ⟨S, hframed⟩ := hw.framed
      exact ⟨hw.adapter, S, hframed.of_same rfl rfl⟩
    · refine ensures_get_bind fun w hw => ?_
      split
      · have hdown := zoom_ensures (l := threadLens) (s := w)
          (Channel.shutdown_ensures w.threadData)
        refine (hdown.mono (fun _ => id) (fun _ _ => id) ?_).bind fun _ => ?_
        · rintro e _ ⟨c, -, rfl⟩
          exact hw.adapter
        · refine ensures_modify ?_
          rintro _ ⟨c, -, rfl⟩
          exact ⟨hw.adapter, hw.framed⟩
      · exact ensures_pure fun _ hs => hs ▸ hw

theorem Steady.sendQueue (hkeeps : adapter.Keeps J) (queue : List TCPSegment)
    (hqueue : ∀ seg ∈ queue, seg.Compact) :
    Ensures (Steady J) (sendQueue adapter queue) (fun _ => Steady J)
      (fun _ w => J w.datagramAdapter) := by
  induction queue with
  | nil => exact ensures_pure fun _ => id
  | cons seg queue ih =>
    rw [List.forall_mem_cons] at hqueue
    refine ensures_of_start fun w hw => ?_
    have hwrite := zoom_ensures (l := adapterLens) (s := w)
      ((hkeeps.write seg hqueue.1).pre fun a (ha : a = w.datagramAdapter) => ha ▸ hw.adapter)
    refine (hwrite.mono (fun _ => id) (fun _ _ => id) ?_).bind fun _ => ?_
    · rintro e _ ⟨a, ha, rfl⟩
      exact ha
    · refine (ensures_modify (R := fun _ => Steady J) ?_).bind fun _ => ih hqueue.2
      rintro _ ⟨a, ha, rfl⟩
      obtain ⟨S, hframed⟩ := hw.framed
      exact ⟨ha, S, hframed.output, hframed.queued,
        fun seg hseg => hframed.emitted seg (List.mem_of_mem_tail hseg)⟩

theorem Steady.sendDatagrams (hkeeps : adapter.Keeps J) :
    Ensures (Steady J) (sendDatagrams adapter) (fun _ => Steady J)
      (fun _ w => J w.datagramAdapter) := by
  refine ensures_get_bind fun w hw => ?_
  obtain ⟨S, hframed⟩ := hw.framed
  exact (Steady.sendQueue hkeeps w.tcp.segmentsOut hframed.emitted).pre fun _ hs => hs ▸ hw

theorem steady_cooperative (hkeeps : adapter.Keeps J) :
    Cooperative (table adapter) True (fun _ => Steady J) (fun _ _ _ => True)
      (fun _ w => J w.datagramAdapter) := by
  have hcancel : ∀ i, Ensures (Steady J) (table adapter i).cancel (fun _ => Steady J)
      (fun _ w => J w.datagramAdapter) := by
    intro i
    cases i with
    | readOwner => exact ensures_modify fun _ h => h.endOutbound
    | receiveDatagram | writeOwner | sendDatagrams => exact ensures_pure fun _ => id
  have hcallback : ∀ i, Ensures (Steady J) (table adapter i).callback (fun _ => Steady J)
      (fun _ w => J w.datagramAdapter) := by
    intro i
    cases i with
    | receiveDatagram => exact Steady.receiveDatagram hkeeps
    | readOwner => exact Steady.readOwner
    | writeOwner => exact Steady.writeOwner
    | sendDatagrams => exact Steady.sendDatagrams hkeeps
  refine ⟨fun _ _ _ _ _ _ => trivial, fun live i _ n => ?_, fun before i after => ?_,
    fun _ before i after => hcancel i, fun _ _ _ _ _ => ensures_true _,
    fun _ _ _ _ => ensures_true _, fun _ _ _ _ => ensures_true _, fun _ _ h => h.adapter⟩
  · refine (hcallback i).mono (fun _ h => h.1) ?_ (fun _ _ => id)
    exact fun _ w h => ⟨h, Or.inr (Or.inr h.adapter)⟩
  · exact (hcancel i).pre fun _ h => h.1

theorem turn_steady (hkeeps : adapter.Keeps J) (t : Turn) (live : List Label) :
    Ensures (Steady J) (turn adapter t live) (fun _ => Steady J)
      (fun _ w => J w.datagramAdapter) := by
  refine ((waitNextEvent_ensures (steady_cooperative hkeeps) (fun _ => trivial) live).post
    fun _ _ h => h.1).bind ?_
  rintro ⟨ret, left⟩
  dsimp only
  split
  · exact ensures_pure fun _ => id
  · refine ensures_get_bind fun w hw => ?_
    split
    · obtain ⟨S, hframed⟩ := hw.framed
      have hticked : Steady J { w with tcp := w.tcp.tick t.ms } :=
        ⟨hw.adapter, S, framed_stable.tick hframed t.ms⟩
      refine (ensures_modify (R := fun _ w' => w' = { w with tcp := w.tcp.tick t.ms })
        fun _ hs => hs ▸ rfl).bind fun _ => ?_
      have htick := zoom_ensures (l := adapterLens) (s := { w with tcp := w.tcp.tick t.ms })
        ((hkeeps.tick t.ms).pre fun a (ha : a = w.datagramAdapter) => ha ▸ hw.adapter)
      refine (htick.mono (fun _ => id) (fun _ _ => id) ?_).bind fun _ => ensures_pure ?_
      · rintro e _ ⟨a, ha, rfl⟩
        exact ha
      · rintro _ ⟨a, ha, rfl⟩
        exact ⟨ha, hticked.framed⟩
    · exact ensures_pure fun _ hs => hs ▸ hw

end Steady

end TCPSpongeSocket

section Packets

open Runs

variable {α β π : Type} {adapterA : Adapter α} {adapterB : Adapter β}

/-- The adapter of a thread keeps J, and as long as the thread runs, its segments are compact. -/
def Thread.Accounted (J : α → Prop) : Thread α → Prop
  | .running _ _ w => Steady J w
  | .failed _ w => J w.datagramAdapter

theorem Thread.Accounted.adapter {J : α → Prop} {t : Thread α} (h : t.Accounted J) :
    J t.socket.datagramAdapter := by
  cases t with
  | running left live w => exact Steady.adapter h
  | failed e w => exact h

theorem Thread.Accounted.step {J : α → Prop} (hkeeps : adapterA.Keeps J) {t : Thread α}
    (h : t.Accounted J) (op : ThreadOp) : (t.step adapterA op).Accounted J := by
  cases t with
  | failed e w => exact h
  | running left live w =>
    cases op with
    | connect =>
      obtain ⟨hadapter, S, hframed⟩ := h
      exact ⟨hadapter, S, TCPConnection.framed_stable.connect hframed⟩
    | turn t =>
      have hturn := ensures_iff.mp (turn_steady hkeeps t live) w h
      rw [step_turn]
      cases hrun : turn adapterA t live w with
      | ok p w' =>
        rw [hrun] at hturn
        exact hturn
      | error e w' =>
        rw [hrun] at hturn
        exact hturn

/-- The packets that one side takes are noise, or what has become of packets that the other
side has given. The owner has written less than 2^31 - 2 bytes. -/
structure PacketsWithin (m : Medium α π) (m' : Medium β π) (Carries : π → π → Prop)
    (t : Thread (Recorded α)) (u : Thread (Recorded β)) : Prop where
  taken : ∀ p ∈ m.taken t.socket.datagramAdapter.inner,
    (∀ seg, ¬ m.Decodes p seg) ∨
      ∃ p' ∈ m'.given u.socket.datagramAdapter.inner, Carries p' p
  short : Link.Short t.taken

/-- A segment that is read has been written by the other side. -/
def Crosses (m : Medium α π) (m' : Medium β π) (Carries : π → π → Prop) : Prop :=
  ∀ (seg seg' : TCPSegment) (p p' : π), seg.Compact → m'.Encodes seg p' → Carries p' p →
    m.Decodes p seg' → seg'.Same seg

theorem PacketsWithin.within {m : Medium α π} {m' : Medium β π} {Carries : π → π → Prop}
    {t : Thread (Recorded α)} {u : Thread (Recorded β)} (hcross : Crosses m m' Carries)
    (ht : t.Accounted m.Accounts) (hu : u.Accounted m'.Accounts)
    (h : PacketsWithin m m' Carries t u) : Within t u where
  heard seg hseg := by
    obtain ⟨p, hp, hread⟩ := ht.adapter.heard seg hseg
    rcases h.taken p hp with hnoise | ⟨p', hp', hcarried⟩
    · exact absurd hread (hnoise seg)
    · obtain ⟨seg', hsent, hwritten⟩ := hu.adapter.sent.given p' hp'
      exact ⟨seg', hsent,
        hcross seg' seg p p' (hu.adapter.compact seg' hsent) hwritten hcarried hread⟩
  short := h.short

namespace SocketPair

/-- The two threads, with a network that is described by what it does to packets. -/
def packetMachine (calm : Prop) (m : Medium α π) (m' : Medium β π) (Carries : π → π → Prop)
    (adapterA : Adapter α) (adapterB : Adapter β) : Machine (SocketPair α β) SocketPairOp where
  enabled
    | n, .atA op => (calm → op.Calm) ∧
      PacketsWithin m m' Carries (n.a.step adapterA.recorded op) n.b
    | n, .atB op => (calm → op.Calm) ∧
      PacketsWithin m' m Carries (n.b.step adapterB.recorded op) n.a
  step := (machine calm adapterA adapterB).step

/-- The condition on the packets is one on the segments, since the adapters account for them. -/
theorem connected_of_packets {calm : Prop} {m : Medium α π} {m' : Medium β π}
    {Carries : π → π → Prop} (hA : adapterA.Transports m) (hB : adapterB.Transports m')
    (hcross : Crosses m m' Carries) (hcross' : Crosses m' m Carries)
    (cfgA cfgB : TCPConfig) (randomA randomB : WrappingInt32) {threadA threadB : Channel} {a : α}
    {b : β} (hthreadA : threadA.Fresh) (hthreadB : threadB.Fresh)
    (hopenA : (adapterA.fd a).closed = false) (hopenB : (adapterB.fd b).closed = false)
    (hnoneA : m.Of (fun _ => False) a) (hnoneB : m'.Of (fun _ => False) b)
    {ops : List SocketPairOp}
    (hv : (packetMachine calm m m' Carries adapterA adapterB).Valid
      (start cfgA cfgB randomA randomB threadA threadB a b) ops) :
    let n := (packetMachine calm m m' Carries adapterA adapterB).exec
      (start cfgA cfgB randomA randomB threadA threadB a b) ops
    Connected calm n.a n.b := by
  have hrun := (packetMachine calm m m' Carries adapterA adapterB).invariant
    (P := fun n => n.a.Accounted m.Accounts ∧ n.b.Accounted m'.Accounts ∧
      Joined calm adapterA adapterB n.a n.b) ?_ ?_ hv
  · exact hrun.2.2.connected
  · rintro n op ⟨ha, hb, hjoined⟩ hop
    cases op with
    | atA op =>
      have ha' := ha.step hA.keeps op
      exact ⟨ha', hb, hjoined.step hA.lawful op hop.1 (hop.2.within hcross ha' hb)⟩
    | atB op =>
      have hb' := hb.step hB.keeps op
      exact ⟨ha, hb', (hjoined.symm.step hB.lawful op hop.1 (hop.2.within hcross' hb' ha)).symm⟩
  · have hsound := Link.new_sound cfgA cfgB randomA randomB
    have hstart : ∀ {γ : Type} (m : Medium γ π) (c : γ), m.Of (fun _ => False) c →
        m.Accounts (⟨c, [], []⟩ : Recorded γ) := fun m c h =>
      ⟨fun _ hmem => absurd hmem List.not_mem_nil, h.mono fun _ => False.elim,
        fun _ hmem => absurd hmem List.not_mem_nil⟩
    exact ⟨⟨hstart m a hnoneA, [], TCPConnection.new_framed cfgA randomA⟩,
      ⟨hstart m' b hnoneB, [], TCPConnection.new_framed cfgB randomB⟩, _, _,
      new_holds cfgA randomA hthreadA a hopenA hsound,
      new_holds cfgB randomB hthreadB b hopenB hsound.symm, hsound⟩

end SocketPair

end Packets

theorem TCPSegment.Compact.fits {seg : TCPSegment} (h : seg.Compact) : seg.header.Fits := by
  rw [TCPHeader.Fits, h.doff]
  decide

/-- What an endpoint reads of a segment does not change when checksum and ports are written. -/
theorem same_checksummed {seg seg' : TCPSegment} {sport dport : UInt16} (pseudo : UInt32)
    (h : seg' = { seg with header := { seg.header with sport := sport, dport := dport } }) :
    (seg'.checksummed pseudo).Same seg := by
  subst h
  exact ⟨rfl, rfl, rfl, rfl, rfl, rfl, rfl, rfl⟩

namespace TCPOverIPv4Adapter

/-- The packet has passed any number of routers. -/
def Routed (p' p : List UInt8) : Prop := ∃ k, IPv4Datagram.hops k p' = some p

variable {a a' : TCPOverIPv4Adapter} {seg : TCPSegment} {d : IPv4Datagram}

theorem unwrapPayload_some (h : a.unwrapPayload d = .ok (some seg, a')) :
    ∃ buffer, d.payload.toBuffer = .ok buffer ∧
      ({} : TCPSegment).parse buffer d.header.pseudoCksum = (.noError, seg) := by
  unfold unwrapPayload at h
  split at h
  · simp [pure, Except.pure] at h
  · cases hbuffer : d.payload.toBuffer with
    | error what => simp [hbuffer, bind, Except.bind] at h
    | ok buffer =>
      refine ⟨buffer, rfl, ?_⟩
      simp only [hbuffer, bind, Except.bind, pure, Except.pure] at h
      cases hparse : ({} : TCPSegment).parse buffer d.header.pseudoCksum with
      | mk result seg₀ =>
        simp only [hparse] at h
        repeat' split at h
        all_goals simp_all

/-- The segment that is handed up is the one that the payload is parsed as. -/
theorem unwrapTcpInIp_some (h : a.unwrapTcpInIp d = .ok (some seg, a')) :
    ∃ buffer, d.payload.toBuffer = .ok buffer ∧
      ({} : TCPSegment).parse buffer d.header.pseudoCksum = (.noError, seg) := by
  unfold unwrapTcpInIp at h
  split at h
  · exact unwrapPayload_some h
  · cases hown : a.config.source.ipv4Numeric with
    | error what => simp [hown, bind, Except.bind] at h
    | ok own =>
      simp only [hown, bind, Except.bind] at h
      split at h
      · simp [pure, Except.pure] at h
      · cases hpeer : a.config.destination.ipv4Numeric with
        | error what => simp [hpeer] at h
        | ok peer =>
          simp only [hpeer] at h
          split at h
          · simp [pure, Except.pure] at h
          · exact unwrapPayload_some h

/-- An adapter that wraps a segment has two IPv4 addresses. -/
theorem wrapTcpInIp_some {seg' : TCPSegment} (hf : seg.header.Fits)
    (h : a.wrapTcpInIp seg = .ok (seg', d)) :
    ∃ src dst, d = package src dst (a.addressed seg) := by
  cases hsrc : a.config.source.ipv4 with
  | none => simp [wrapTcpInIp, Address.ipv4Numeric, hsrc, bind, Except.bind] at h
  | some src =>
    cases hdst : a.config.destination.ipv4 with
    | none => simp [wrapTcpInIp, Address.ipv4Numeric, hsrc, hdst, bind, Except.bind] at h
    | some dst =>
      rw [wrapTcpInIp_eq hsrc hdst hf] at h
      simp only [Except.ok.injEq, Prod.mk.injEq] at h
      exact ⟨src, dst, h.2.symm⟩

theorem same_of_routed {seg seg' : TCPSegment} {p p' : List UInt8} (hseg : seg.Compact)
    (hwritten : Encodes seg p') (hrouted : Routed p' p) (hread : Decodes p seg') :
    seg'.Same seg := by
  obtain ⟨x, seg₁, d, out, hwrap, hserialize, rfl⟩ := hwritten
  obtain ⟨k, hhops⟩ := hrouted
  obtain ⟨y, y', d₂, hparse, hunwrap⟩ := hread
  obtain ⟨src, dst, rfl⟩ := wrapTcpInIp_some hseg.fits hwrap
  have hf : (x.addressed seg).header.Fits := hseg.fits
  have hsize : 4 * (x.addressed seg).header.doff.toNat + (x.addressed seg).payload.length ≤
      65515 := by
    have hpayload := hseg.payload
    have hdoff : (x.addressed seg).header.doff = 5 := hseg.doff
    rw [hdoff]
    unfold TCPConfig.maxPayloadSize at hpayload
    change 20 + seg.payload.length ≤ 65515
    omega
  have hreadable : (package src dst (x.addressed seg)).Readable := package_readable hf hsize
  rw [IPv4Datagram.serialize_of_wellFormed hreadable.toWellFormed] at hserialize
  cases hserialize
  obtain ⟨d', hd', ⟨hheader, hpayload⟩, hhops'⟩ := IPv4Datagram.hops_wire hreadable k
  rw [hhops'] at hhops
  cases hhops
  rw [IPv4Datagram.parse_encoded hd'] at hparse
  cases hparse
  obtain ⟨buffer, hbuffer, hsegment⟩ := unwrapTcpInIp_some hunwrap
  have hbytes : buffer = (sealed src dst (x.addressed seg)).header.bytes ++
      (x.addressed seg).payload := by
    rw [IPv4Datagram.received, BufferContents.toBuffer_ofBuffer, hpayload, package,
      BufferContents.concatenate_append, BufferContents.concatenate_ofBuffer,
      BufferContents.concatenate_ofBuffer] at hbuffer
    exact (Except.ok.inj hbuffer).symm
  have hpseudo : d'.received.header.pseudoCksum =
      (carrier src dst (x.addressed seg)).pseudoCksum := by
    rw [IPv4Datagram.received, IPv4Header.checksummed, hheader]
    rfl
  rw [hbytes, hpseudo, sealed, TCPSegment.parse_checksummed hf] at hsegment
  cases hsegment
  exact same_checksummed _ rfl

end TCPOverIPv4Adapter

namespace TCPOverUDPSocketAdapter

theorem same_of_received {seg seg' : TCPSegment} {p : List UInt8} (hseg : seg.Compact)
    (hwritten : medium.Encodes seg p) (hread : medium.Decodes p seg') : seg'.Same seg := by
  obtain ⟨a, out, hserialize, rfl⟩ := hwritten
  have hf : (a.addressed seg).header.Fits := hseg.fits
  rw [TCPSegment.serialize_of_fits hf] at hserialize
  cases hserialize
  have hparse : ({} : TCPSegment).parse _ 0 = (.noError, seg') := hread
  rw [BufferContents.concatenate_append, BufferContents.concatenate_ofBuffer,
    BufferContents.concatenate_ofBuffer, TCPSegment.parse_checksummed hf] at hparse
  cases hparse
  exact same_checksummed _ rfl

end TCPOverUDPSocketAdapter

namespace SocketPair

open TCPOverIPv4Adapter

/-- Nothing but the frame that primes the device has gone out. -/
theorem new_quiet {tap : PacketFD} {eth : EthernetAddress} {ip nextHop : Address}
    {a : TCPOverIPv4OverEthernetAdapter} (htap : tap.given = [])
    (hopen : tap.channel.wrapper.closed = false)
    (hnew : TCPOverIPv4OverEthernetAdapter.new tap eth ip nextHop = .ok a)
    (base : TCPOverIPv4Adapter) :
    TCPOverIPv4OverEthernetAdapter.medium.Of (fun _ => False) { a with base := base } ∧
      a.tap.channel.wrapper.closed = false := by
  have hwrite := ensures_iff.mp (PacketFD.write_ensures tap
    TCPOverIPv4OverEthernetAdapter.blank.serialize) tap rfl
  unfold TCPOverIPv4OverEthernetAdapter.new at hnew
  cases hrun : PacketFD.write TCPOverIPv4OverEthernetAdapter.blank.serialize tap with
  | error e tap' =>
    rw [hrun] at hnew
    cases hnew
  | ok _ tap' =>
    rw [hrun] at hnew hwrite
    cases hnew
    obtain ⟨-, hgiven, hclosed, -⟩ := hwrite
    refine ⟨⟨fun p hp => ?_, fun x d hd => ?_, fun f hf => ?_⟩, hclosed.trans hopen⟩
    · change p ∈ tap'.given.filterMap TCPOverIPv4OverEthernetAdapter.ipPacket at hp
      rw [hgiven, htap, List.nil_append, List.filterMap_cons,
        TCPOverIPv4OverEthernetAdapter.ipPacket_serialize] at hp
      exact absurd hp List.not_mem_nil
    · exact absurd hd List.not_mem_nil
    · exact absurd hf List.not_mem_nil

section Handshake

/-- Every packet has passed k routers. -/
theorem packetsWithin_of_hops {α β : Type} {m : Medium α (List UInt8)} {m' : Medium β (List UInt8)}
    {t : Thread (Recorded α)} {u : Thread (Recorded β)} (k : ℕ)
    (h : ∀ p ∈ m.taken t.socket.datagramAdapter.inner,
      ∃ p' ∈ m'.given u.socket.datagramAdapter.inner, IPv4Datagram.hops k p' = some p)
    (hshort : Link.Short t.taken) : PacketsWithin m m' Routed t u where
  taken p hp := by
    obtain ⟨p', hp', hhops⟩ := h p hp
    exact Or.inr ⟨p', hp', k, hhops⟩
  short := hshort

/-- From the next hop at 0.0.0.5: the answer to an ARP request, then the SYN's answer. -/
def etherReads : List (Option (List UInt8)) :=
  [some [2, 0, 0, 0, 0, 1, 2, 0, 0, 0, 0, 5, 8, 6, 0, 1, 8, 0, 6, 4, 0, 2,
      2, 0, 0, 0, 0, 5, 0, 0, 0, 5, 2, 0, 0, 0, 0, 1, 0, 0, 0, 1],
    some [2, 0, 0, 0, 0, 1, 2, 0, 0, 0, 0, 5, 8, 0,
      69, 0, 0, 40, 0, 0, 64, 0, 127, 6, 251, 205, 0, 0, 0, 2, 0, 0, 0, 1,
      0, 80, 3, 232, 0, 0, 0, 9, 0, 0, 0, 8, 80, 18, 250, 0, 177, 134, 0, 0]]

def etherTap : PacketFD := { channel := { reads := etherReads }, accepts := [true, true, true] }

def etherAddress : EthernetAddress := .ofOctets 2 0 0 0 0 1

/-- The client with a device that has been primed. -/
def etherClient : TCPOverIPv4OverEthernetAdapter where
  tap :=
    { channel := Channel.registerWrite { reads := etherReads }
      accepts := [true, true]
      given := [[0, 0, 0, 0, 0, 0, 0, 0, 0, 0, 0, 0, 0, 0]] }
  interface := { ethernetAddress := etherAddress, ipAddress := ⟨some 1, 0⟩ }
  nextHop := ⟨some 5, 0⟩

/-- The server behind one router. -/
def routedServer : TCPOverIPv4OverTunFdAdapter :=
  { server with
    tun := { channel := { reads := [IPv4Datagram.hop synPacket] }, accepts := [true] } }

/-- The SYN waits until the address of the next hop is known. -/
def routedHandshake : List SocketPairOp :=
  [.atA .connect, .atA sending, .atA receiving, .atB receiving, .atB sending, .atA receiving]

end Handshake

section Lossy

open LossyFdAdapter

/-- Sockets over UDP, both with adapters that drop segments at random. -/
theorem lossy_sockets_connected (calm : Prop) (cfgA cfgB : TCPConfig)
    (randomA randomB : WrappingInt32) {threadA threadB : Channel} (hthreadA : threadA.Fresh)
    (hthreadB : threadB.Fresh) {a b : LossyFdAdapter TCPOverUDPSocketAdapter}
    (hgivenA : a.adapter.sock.given = []) (hopenA : a.adapter.sock.wrapper.closed = false)
    (hgivenB : b.adapter.sock.given = []) (hopenB : b.adapter.sock.wrapper.closed = false)
    {ops : List SocketPairOp}
    (hv : (packetMachine calm (medium TCPOverUDPSocketAdapter.medium)
      (medium TCPOverUDPSocketAdapter.medium) (fun p' p => p' = p)
      TCPOverUDPSocketAdapter.adapter.lossy TCPOverUDPSocketAdapter.adapter.lossy).Valid
        (start cfgA cfgB randomA randomB threadA threadB a b) ops) :
    let n := (packetMachine calm (medium TCPOverUDPSocketAdapter.medium)
      (medium TCPOverUDPSocketAdapter.medium) (fun p' p => p' = p)
      TCPOverUDPSocketAdapter.adapter.lossy TCPOverUDPSocketAdapter.adapter.lossy).exec
        (start cfgA cfgB randomA randomB threadA threadB a b) ops
    Connected calm n.a n.b := by
  have hnone : ∀ l : LossyFdAdapter TCPOverUDPSocketAdapter, l.adapter.sock.given = [] →
      (medium TCPOverUDPSocketAdapter.medium).Of (fun _ => False) l := by
    intro l hgiven
    refine ⟨fun p hp => ?_, trivial⟩
    change p ∈ l.adapter.sock.given at hp
    rw [hgiven] at hp
    exact absurd hp List.not_mem_nil
  have hcross : Crosses (medium TCPOverUDPSocketAdapter.medium)
      (medium TCPOverUDPSocketAdapter.medium) (fun p' p => p' = p) := by
    rintro seg seg' p _ hseg hwritten rfl hread
    exact TCPOverUDPSocketAdapter.same_of_received hseg hwritten hread
  exact connected_of_packets TCPOverUDPSocketAdapter.transports.lossy
    TCPOverUDPSocketAdapter.transports.lossy hcross hcross cfgA cfgB randomA randomB hthreadA
    hthreadB hopenA hopenB (hnone a hgivenA) (hnone b hgivenB) hv

end Lossy

section Retransmission

open LossyFdAdapter

/-- Of the random numbers only the first one is below the loss rate. -/
def lossyClient : LossyFdAdapter TCPOverUDPSocketAdapter where
  adapter := { config := client.base.config, sock := { answers := [some 20] } }
  lossRateUp := 1000
  rand i := if i = 0 then 10 else 5000

def lossyServer : LossyFdAdapter TCPOverUDPSocketAdapter where
  adapter :=
    { config := server.base.config
      listening := true
      sock := { arrivals := [some (⟨some 1, 1000⟩,
        [3, 232, 0, 80, 0, 0, 0, 7, 0, 0, 0, 0, 80, 2, 0, 0, 171, 190, 0, 0])] } }
  rand _ := 0

/-- The SYN is lost, and sent again after a second. -/
def secondSyn : List SocketPairOp :=
  [.atA .connect, .atA sending, .atA (.turn { answer := .returned [], ms := 1000 }), .atA sending,
    .atB receiving]

theorem packetsWithin_of_mem {α β : Type} {m : Medium α (List UInt8)} {m' : Medium β (List UInt8)}
    {t : Thread (Recorded α)} {u : Thread (Recorded β)}
    (h : ∀ p ∈ m.taken t.socket.datagramAdapter.inner,
      p ∈ m'.given u.socket.datagramAdapter.inner)
    (hshort : Link.Short t.taken) : PacketsWithin m m' (fun p' p => p' = p) t u where
  taken p hp := Or.inr ⟨p, h p hp, rfl⟩
  short := hshort

theorem lossy_sockets_connected_second_syn :
    let n := (packetMachine True (medium TCPOverUDPSocketAdapter.medium)
      (medium TCPOverUDPSocketAdapter.medium) (fun p' p => p' = p)
      TCPOverUDPSocketAdapter.adapter.lossy TCPOverUDPSocketAdapter.adapter.lossy).exec
        (start clientConfig serverConfig ⟨0⟩ ⟨0⟩ {} {} lossyClient lossyServer) secondSyn
    Connected True n.a n.b := by
  have hwaiting : (ThreadOp.turn { answer := .returned [], ms := 1000 }).Calm :=
    ⟨fun ⟨flags, hmem, _⟩ => absurd hmem List.not_mem_nil, PollAnswer.noConfusion, rfl⟩
  refine lossy_sockets_connected True clientConfig serverConfig ⟨0⟩ ⟨0⟩ fresh_empty fresh_empty
    rfl rfl rfl rfl ?_
  exact ⟨⟨fun _ => trivial, packetsWithin_of_mem (by decide +kernel) (by decide +kernel)⟩,
    ⟨fun _ => quietTurn_calm (by decide),
      packetsWithin_of_mem (by decide +kernel) (by decide +kernel)⟩,
    ⟨fun _ => hwaiting, packetsWithin_of_mem (by decide +kernel) (by decide +kernel)⟩,
    ⟨fun _ => quietTurn_calm (by decide),
      packetsWithin_of_mem (by decide +kernel) (by decide +kernel)⟩,
    ⟨fun _ => quietTurn_calm (by decide),
      packetsWithin_of_mem (by decide +kernel) (by decide +kernel)⟩, trivial⟩

end Retransmission

end SocketPair

end Sponge
