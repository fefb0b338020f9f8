import Sponge.Adapters

/-!
What the adapters put on the wire and what they take from it.
An adapter turns each segment it is given into packets, at once or, where an address has to be
resolved first, in a later call; and it reads a segment only out of a packet that it has
taken. Both are stated for the adapter with its record of segments, whatever the kernel answers.
-/
namespace Sponge

open Programs

/-- The packets of an adapter: those it has taken and given, what a segment is written as and
what a packet can be read as, and what has to hold of the segments of which the adapter still
holds packets back. -/
structure Medium (α π : Type) where
  taken : α → List π
  given : α → List π
  Encodes : TCPSegment → π → Prop
  Decodes : π → TCPSegment → Prop
  Held : (TCPSegment → Prop) → α → Prop
  held_mono : ∀ {Q Q' : TCPSegment → Prop} {a : α}, (∀ seg, Q seg → Q' seg) → Held Q a → Held Q' a

namespace Medium

variable {α π : Type} {w : Medium α π} {N Q Q' : TCPSegment → Prop} {a a' a'' : α}

/-- All packets, also those held back, are those of segments with Q. -/
structure Of (w : Medium α π) (Q : TCPSegment → Prop) (a : α) : Prop where
  given : ∀ p ∈ w.given a, ∃ seg, Q seg ∧ w.Encodes seg p
  held : w.Held Q a

theorem Of.mono (h : w.Of Q a) (hQ : ∀ seg, Q seg → Q' seg) : w.Of Q' a where
  given p hp := by
    obtain ⟨seg, hseg, hwritten⟩ := h.given p hp
    exact ⟨seg, hQ seg hseg, hwritten⟩
  held := w.held_mono hQ h.held

/-- A call that may write segments with N, and no others. -/
structure Moves (w : Medium α π) (N : TCPSegment → Prop) (a a' : α) : Prop where
  taken : w.taken a <+: w.taken a'
  kept : ∀ Q : TCPSegment → Prop, (∀ seg, N seg → Q seg) → w.Of Q a → w.Of Q a'

theorem Moves.trans (h : w.Moves N a a') (h' : w.Moves N a' a'') : w.Moves N a a'' where
  taken := h.taken.trans h'.taken
  kept Q hnew hQ := h'.kept Q hnew (h.kept Q hnew hQ)

/-- A call that writes nothing. -/
theorem moves_of_given (htaken : w.taken a <+: w.taken a') (hgiven : w.given a' = w.given a)
    (hheld : ∀ Q : TCPSegment → Prop, (∀ seg, N seg → Q seg) → w.Held Q a → w.Held Q a') :
    w.Moves N a a' where
  taken := htaken
  kept Q hnew hQ := ⟨hgiven ▸ hQ.given, hheld Q hnew hQ.held⟩

theorem moves_of_same (htaken : w.taken a' = w.taken a) (hgiven : w.given a' = w.given a)
    (hheld : ∀ Q : TCPSegment → Prop, (∀ seg, N seg → Q seg) → w.Held Q a → w.Held Q a') :
    w.Moves N a a' := moves_of_given (htaken ▸ List.prefix_refl _) hgiven hheld

/-- A segment is written as one packet. -/
theorem moves_of_packet {seg : TCPSegment} {p : π} (htaken : w.taken a' = w.taken a)
    (hgiven : w.given a' = w.given a ++ [p]) (hwritten : w.Encodes seg p)
    (hheld : ∀ Q : TCPSegment → Prop, w.Held Q a → w.Held Q a') : w.Moves (· = seg) a a' where
  taken := htaken ▸ List.prefix_refl _
  kept Q hnew hQ := by
    refine ⟨fun p' hp => ?_, hheld Q hQ.held⟩
    rw [hgiven] at hp
    rcases List.mem_append.mp hp with hold | hlast
    · exact hQ.given p' hold
    · rw [List.mem_singleton.mp hlast]
      exact ⟨seg, hnew seg rfl, hwritten⟩

end Medium

/-- The contract of an adapter. It includes that of the socket's thread. -/
structure Adapter.Transports {α π : Type} (adapter : Adapter α) (w : Medium α π) : Prop where
  read : ∀ a, Ensures (fun a' => a' = a) adapter.read
    (fun seg a' => (adapter.fd a').readCount ≠ (adapter.fd a).readCount ∧
      (adapter.fd a').closed = (adapter.fd a).closed ∧ w.Moves (fun _ => False) a a' ∧
      ∀ s ∈ seg, ∃ p ∈ w.taken a', w.Decodes p s)
    (fun e a' => e.Foreign ∧ w.Moves (fun _ => False) a a')
  write : ∀ seg a, Ensures (fun a' => a' = a) (adapter.write seg)
    (fun _ a' => (adapter.fd a').closed = (adapter.fd a).closed ∧ w.Moves (· = seg) a a')
    (fun e a' => e.Foreign ∧ w.Moves (· = seg) a a')
  tick : ∀ ms a, Ensures (fun a' => a' = a) (adapter.tick ms)
    (fun _ a' => (adapter.fd a').closed = (adapter.fd a).closed ∧ w.Moves (fun _ => False) a a')
    (fun e a' => e.Foreign ∧ w.Moves (fun _ => False) a a')

section Recorded

variable {α π : Type} {adapter : Adapter α} {w : Medium α π}

theorem Adapter.Transports.lawful (h : adapter.Transports w) : adapter.Lawful where
  read a := (h.read a).mono (fun _ => id) (fun _ _ hs => ⟨hs.1, hs.2.1⟩) (fun _ _ hs => hs.1)
  write seg a := (h.write seg a).mono (fun _ => id) (fun _ _ hs => hs.1) (fun _ _ hs => hs.1)
  tick ms a := (h.tick ms a).mono (fun _ => id) (fun _ _ hs => hs.1) (fun _ _ hs => hs.1)

/-- The packets of an adapter are those of the segments on record. -/
structure Medium.Accounts (w : Medium α π) (r : Recorded α) : Prop where
  compact : ∀ seg ∈ r.sent, seg.Compact
  sent : w.Of (· ∈ r.sent) r.inner
  heard : ∀ seg ∈ r.heard, ∃ p ∈ w.taken r.inner, w.Decodes p seg

theorem Medium.Accounts.moves {r r' : Recorded α} {N : TCPSegment → Prop} (h : w.Accounts r)
    (hmoves : w.Moves N r.inner r'.inner) (hcompact : ∀ seg ∈ r'.sent, seg.Compact)
    (hsent : ∀ seg ∈ r.sent, seg ∈ r'.sent) (hnew : ∀ seg, N seg → seg ∈ r'.sent)
    (hheard : r'.heard = r.heard) : w.Accounts r' where
  compact := hcompact
  sent := hmoves.kept _ hnew (h.sent.mono hsent)
  heard seg hseg := by
    obtain ⟨p, hp, hread⟩ := h.heard seg (hheard ▸ hseg)
    exact ⟨p, hmoves.taken.subset hp, hread⟩

/-- An invariant that the calls of an adapter keep, also where they throw. -/
structure Adapter.Keeps (adapter : Adapter α) (I : α → Prop) : Prop where
  read : Ensures I adapter.read (fun _ => I) (fun _ => I)
  write : ∀ seg : TCPSegment, seg.Compact → Ensures I (adapter.write seg) (fun _ => I) (fun _ => I)
  tick : ∀ ms, Ensures I (adapter.tick ms) (fun _ => I) (fun _ => I)

theorem Adapter.Transports.keeps (h : adapter.Transports w) :
    adapter.recorded.Keeps w.Accounts where
  read := by
    refine ensures_of_start fun r hr => ?_
    have hread := zoom_ensures (l := Recorded.innerLens) (s := r) (h.read r.inner)
    refine (hread.mono (fun _ => id) (fun _ _ => id) ?_).bind fun seg => ?_
    · rintro e _ ⟨a, ⟨-, hmoves⟩, rfl⟩
      exact hr.moves hmoves hr.compact (fun _ => id) (fun _ => False.elim) rfl
    · refine ensures_of_start ?_
      rintro _ ⟨a, ⟨-, -, hmoves, hseg⟩, rfl⟩
      refine (ensures_modify (R := fun _ r' => w.Accounts r') ?_).bind fun _ =>
        ensures_pure fun _ => id
      rintro _ rfl
      have hmoved : w.Accounts { r with inner := a } :=
        hr.moves hmoves hr.compact (fun _ => id) (fun _ => False.elim) rfl
      refine ⟨hmoved.compact, hmoved.sent, fun s hs => ?_⟩
      rcases List.mem_append.mp hs with hold | hnew
      · exact hmoved.heard s hold
      · exact hseg s (Option.mem_toList.mp hnew)
  write seg hseg := by
    refine ensures_of_start fun r hr => ?_
    let noted : Recorded α := { r with sent := r.sent ++ [seg] }
    refine (ensures_modify (R := fun _ r' => r' = noted) fun _ hs => hs ▸ rfl).bind fun _ => ?_
    have hmoved : ∀ a, w.Moves (· = seg) r.inner a → w.Accounts { noted with inner := a } := by
      intro a hmoves
      refine hr.moves hmoves ?_ (fun s hs => List.mem_append_left _ hs) ?_ rfl
      · exact List.forall_mem_append.mpr ⟨hr.compact, List.forall_mem_singleton.mpr hseg⟩
      · rintro _ rfl
        exact List.mem_append_right _ (List.mem_singleton_self _)
    refine (zoom_ensures (l := Recorded.innerLens) (s := noted) (h.write seg r.inner)).mono
      (fun _ => id) ?_ ?_
    · rintro _ _ ⟨a, ⟨-, hmoves⟩, rfl⟩
      exact hmoved a hmoves
    · rintro e _ ⟨a, ⟨-, hmoves⟩, rfl⟩
      exact hmoved a hmoves
  tick ms := by
    refine ensures_of_start fun r hr => ?_
    refine (zoom_ensures (l := Recorded.innerLens) (s := r) (h.tick ms r.inner)).mono
      (fun _ => id) ?_ ?_
    · rintro _ _ ⟨a, ⟨-, hmoves⟩, rfl⟩
      exact hr.moves hmoves hr.compact (fun _ => id) (fun _ => False.elim) rfl
    · rintro e _ ⟨a, ⟨-, hmoves⟩, rfl⟩
      exact hr.moves hmoves hr.compact (fun _ => id) (fun _ => False.elim) rfl

end Recorded

namespace TCPOverUDPSocketAdapter

def medium : Medium TCPOverUDPSocketAdapter (List UInt8) where
  taken a := a.sock.taken
  given a := a.sock.given
  Encodes seg p := ∃ (a : TCPOverUDPSocketAdapter) (out : BufferContents),
    (a.addressed seg).serialize 0 = .ok out ∧ out.concatenate = p
  Decodes p seg := ({} : TCPSegment).parse p 0 = (.noError, seg)
  Held _ _ := True
  held_mono _ _ := trivial

/-- Whatever becomes of the datagram, the socket is left as it is. -/
theorem accept_ensures (a : TCPOverUDPSocketAdapter) (source : Address) (payload : List UInt8) :
    Ensures (fun a' => a' = a) (accept source payload)
      (fun seg a' => a'.sock = a.sock ∧ ∀ s ∈ seg, medium.Decodes payload s)
      (fun _ _ => False) := by
  refine ensures_get_bind ?_
  rintro a rfl
  have hnone : ∀ s ∈ (none : Option TCPSegment), medium.Decodes payload s :=
    fun s hs => by simp at hs
  split
  · exact ensures_pure fun _ hs => ⟨hs ▸ rfl, hnone⟩
  · split
    · rename_i seg hparse
      have hsome : ∀ s ∈ some seg, medium.Decodes payload s := by
        rintro s hs
        rw [← Option.mem_some.mp hs]
        exact hparse
      split
      · split
        · refine (ensures_set (R := fun _ a' => a'.sock = a.sock) fun _ _ => rfl).bind fun _ => ?_
          exact ensures_pure fun _ hs => ⟨hs, hsome⟩
        · exact ensures_pure fun _ hs => ⟨hs ▸ rfl, hnone⟩
      · exact ensures_pure fun _ hs => ⟨hs ▸ rfl, hsome⟩
    · exact ensures_pure fun _ hs => ⟨hs ▸ rfl, hnone⟩

theorem transports : adapter.Transports medium where
  read a := by
    have hrecv := zoom_ensures (l := sockLens) (s := a) (UDPSocket.recv_ensures a.sock)
    refine (hrecv.mono (fun _ => id) (fun _ _ => id) ?_).bind fun datagram => ?_
    · rintro e _ ⟨s, ⟨hforeign, htaken, hgiven⟩, rfl⟩
      exact ⟨hforeign, Medium.moves_of_same htaken hgiven fun _ _ => id⟩
    · refine ensures_of_start ?_
      rintro _ ⟨s, ⟨htaken, hgiven, hclosed, hcount⟩, rfl⟩
      refine (accept_ensures { a with sock := s } datagram.1 datagram.2).mono (fun _ => id) ?_
        (fun _ _ => False.elim)
      rintro seg a' ⟨hsock, hseg⟩
      change a'.sock = s at hsock
      subst hsock
      refine ⟨hcount, hclosed, Medium.moves_of_given ⟨_, htaken.symm⟩ hgiven fun _ _ => id,
        fun seg' hs => ⟨datagram.2, ?_, hseg seg' hs⟩⟩
      change datagram.2 ∈ a'.sock.taken
      rw [htaken]
      exact List.mem_append_right _ (List.mem_singleton_self _)
  write seg a := by
    refine ensures_get_bind ?_
    rintro a rfl
    have hsame : medium.Moves (· = seg) a a := Medium.moves_of_same rfl rfl fun _ _ => id
    refine ((raise_ensures (listed_segmentSerialize _ _)).mono (fun _ => id) (fun _ _ => id)
      ?_).bind fun out => ?_
    · rintro e _ ⟨rfl, hforeign⟩
      exact ⟨hforeign, hsame⟩
    · refine ensures_of_start ?_
      rintro _ ⟨rfl, hout⟩
      refine (zoom_ensures (l := sockLens) (UDPSocket.sendto_ensures _ out)).mono (fun _ => id)
        ?_ ?_
      · rintro _ _ ⟨s, ⟨htaken, hgiven, hclosed⟩, rfl⟩
        exact ⟨hclosed, Medium.moves_of_packet htaken hgiven ⟨_, out, hout, rfl⟩ fun _ => id⟩
      · rintro e _ ⟨s, ⟨hforeign, htaken, hgiven⟩, rfl⟩
        exact ⟨hforeign, Medium.moves_of_same htaken hgiven fun _ _ => id⟩
  tick ms a := ensures_pure fun _ hs => ⟨hs ▸ rfl, hs ▸ Medium.moves_of_same rfl rfl fun _ _ => id⟩

end TCPOverUDPSocketAdapter

namespace TCPOverIPv4Adapter

/-- The segment, wrapped by an adapter and serialized, is the packet. -/
def Encodes (seg : TCPSegment) (p : List UInt8) : Prop :=
  ∃ (a : TCPOverIPv4Adapter) (seg' : TCPSegment) (d : IPv4Datagram) (out : BufferContents),
    a.wrapTcpInIp seg = .ok (seg', d) ∧ d.serialize = .ok out ∧ out.concatenate = p

/-- An adapter can take the segment out of the packet. -/
def Decodes (p : List UInt8) (seg : TCPSegment) : Prop :=
  ∃ (a a' : TCPOverIPv4Adapter) (d : IPv4Datagram),
    ({} : IPv4Datagram).parse p = (.noError, d) ∧ a.unwrapTcpInIp d = .ok (some seg, a')

theorem unwrap_ensures (a : TCPOverIPv4Adapter) (d : IPv4Datagram) :
    Ensures (fun a' => a' = a) (unwrap d)
      (fun seg a' => a.unwrapTcpInIp d = .ok (seg, a')) (fun e _ => e.Foreign) := by
  refine ensures_get_bind ?_
  rintro a rfl
  refine ((raise_ensures (P := fun a' => a' = a) (listed_unwrapTcpInIp a d)).mono (fun _ => id)
    (fun _ _ => id) (fun _ _ h => h.2)).bind fun out => ?_
  refine (ensures_set (R := fun _ a' => a' = out.2 ∧ a.unwrapTcpInIp d = .ok out)
    fun _ hs => ⟨rfl, hs.2⟩).bind fun _ => ensures_pure ?_
  rintro _ ⟨rfl, hout⟩
  exact hout

end TCPOverIPv4Adapter

namespace TCPOverIPv4OverTunFdAdapter

def medium : Medium TCPOverIPv4OverTunFdAdapter (List UInt8) where
  taken a := a.tun.taken
  given a := a.tun.given
  Encodes := TCPOverIPv4Adapter.Encodes
  Decodes := TCPOverIPv4Adapter.Decodes
  Held _ _ := True
  held_mono _ _ := trivial

theorem transports : adapter.Transports medium where
  read a := by
    have hread := zoom_ensures (l := tunLens) (s := a) (PacketFD.read_ensures a.tun)
    refine (hread.mono (fun _ => id) (fun _ _ => id) ?_).bind fun packet => ?_
    · rintro e _ ⟨d, ⟨hforeign, htaken, hgiven⟩, rfl⟩
      exact ⟨hforeign, Medium.moves_of_same htaken hgiven fun _ _ => id⟩
    · refine ensures_of_start ?_
      rintro _ ⟨d, ⟨htaken, hgiven, hclosed, hcount⟩, rfl⟩
      have hmoves : ∀ base : TCPOverIPv4Adapter,
          medium.Moves (fun _ => False) a { base := base, tun := d } := fun _ =>
        Medium.moves_of_given ⟨_, htaken.symm⟩ hgiven fun _ _ => id
      split
      · rename_i ipDgram hparse
        refine (zoom_ensures (l := baseLens) (s := tunLens.set d a)
          (TCPOverIPv4Adapter.unwrap_ensures a.base ipDgram)).mono (fun _ => id) ?_ ?_
        · rintro seg _ ⟨base, hseg, rfl⟩
          refine ⟨hcount, hclosed, hmoves base, ?_⟩
          rintro s rfl
          refine ⟨packet, ?_, a.base, base, ipDgram, hparse, hseg⟩
          change packet ∈ d.taken
          rw [htaken]
          exact List.mem_append_right _ (List.mem_singleton_self _)
        · rintro e _ ⟨base, hforeign, rfl⟩
          exact ⟨hforeign, hmoves base⟩
      · refine ensures_pure ?_
        rintro _ rfl
        exact ⟨hcount, hclosed, hmoves a.base, fun s hs => by simp at hs⟩
  write seg a := by
    refine ensures_get_bind ?_
    rintro a rfl
    have hsame : medium.Moves (· = seg) a a := Medium.moves_of_same rfl rfl fun _ _ => id
    have hfailed : ∀ (e : Failure) (a' : TCPOverIPv4OverTunFdAdapter), a' = a ∧ e.Foreign →
        e.Foreign ∧ medium.Moves (· = seg) a a' := by
      rintro e _ ⟨rfl, hforeign⟩
      exact ⟨hforeign, hsame⟩
    refine ((raise_ensures (listed_wrapTcpInIp _ seg)).mono (fun _ => id) (fun _ _ => id)
      hfailed).bind fun wrapped => ?_
    refine ensures_of_start ?_
    rintro _ ⟨rfl, hwrapped⟩
    refine ((raise_ensures (listed_datagramSerialize _)).mono (fun _ => id) (fun _ _ => id)
      hfailed).bind fun packet => ?_
    refine ensures_of_start ?_
    rintro _ ⟨rfl, hpacket⟩
    refine (zoom_ensures (l := tunLens) (PacketFD.write_ensures _ packet)).mono (fun _ => id) ?_ ?_
    · rintro _ _ ⟨d, ⟨htaken, hgiven, hclosed, -⟩, rfl⟩
      exact ⟨hclosed, Medium.moves_of_packet htaken hgiven
        ⟨_, wrapped.1, wrapped.2, packet, hwrapped, hpacket, rfl⟩ fun _ => id⟩
    · rintro e _ ⟨d, ⟨hforeign, htaken, hgiven⟩, rfl⟩
      exact ⟨hforeign, Medium.moves_of_same htaken hgiven fun _ _ => id⟩
  tick ms a := ensures_pure fun _ hs => ⟨hs ▸ rfl, hs ▸ Medium.moves_of_same rfl rfl fun _ _ => id⟩

end TCPOverIPv4OverTunFdAdapter

namespace LossyFdAdapter

variable {α π : Type}

/-- The packets of the adapter below. -/
def medium (w : Medium α π) : Medium (LossyFdAdapter α) π where
  taken l := w.taken l.adapter
  given l := w.given l.adapter
  Encodes := w.Encodes
  Decodes := w.Decodes
  Held Q l := w.Held Q l.adapter
  held_mono := w.held_mono

theorem shouldDrop_ensures (uplink : Bool) (l : LossyFdAdapter α) :
    Ensures (fun l' => l' = l) (shouldDrop uplink) (fun _ l' => l'.adapter = l.adapter)
      (fun _ _ => False) := by
  refine ensures_get_bind ?_
  rintro l rfl
  dsimp only
  generalize (if uplink = true then l.lossRateUp else l.lossRateDn) = loss
  split
  · exact (ensures_set (R := fun _ l' => l'.adapter = l.adapter) fun _ _ => rfl).bind fun _ =>
      ensures_pure fun _ => id
  · exact ensures_pure fun _ hs => hs ▸ rfl

theorem moves_medium {w : Medium α π} {N : TCPSegment → Prop} {l l' : LossyFdAdapter α}
    (h : w.Moves N l.adapter l'.adapter) : (medium w).Moves N l l' where
  taken := h.taken
  kept Q hnew hQ := by
    obtain ⟨hgiven, hheld⟩ := h.kept Q hnew ⟨hQ.given, hQ.held⟩
    exact ⟨hgiven, hheld⟩

end LossyFdAdapter

open LossyFdAdapter in
/-- An adapter that loses packets is an adapter for the same packets. -/
theorem Adapter.Transports.lossy {α π : Type} {adapter : Adapter α} {w : Medium α π}
    (h : adapter.Transports w) : adapter.lossy.Transports (medium w) where
  read l := by
    have hread := zoom_ensures (l := adapterLens) (s := l) (h.read l.adapter)
    refine (hread.mono (fun _ => id) (fun _ _ => id) ?_).bind fun seg => ?_
    · rintro e _ ⟨a, ⟨hforeign, hmoves⟩, rfl⟩
      exact ⟨hforeign, moves_medium hmoves⟩
    · refine ensures_of_start ?_
      rintro _ ⟨a, ⟨hcount, hclosed, hmoves, hseg⟩, rfl⟩
      refine ((shouldDrop_ensures false _).mono (fun _ => id) (fun _ _ => id)
        (fun _ _ => False.elim)).bind fun drop => ?_
      refine ensures_of_start ?_
      rintro ⟨a', dn, up, rand, drawn⟩ hsame
      change a' = a at hsame
      subst hsame
      split
      · refine ensures_pure ?_
        rintro _ rfl
        exact ⟨hcount, hclosed, moves_medium hmoves, fun s hs => by simp at hs⟩
      · refine ensures_pure ?_
        rintro _ rfl
        exact ⟨hcount, hclosed, moves_medium hmoves, hseg⟩
  write seg l := by
    refine ((shouldDrop_ensures true l).mono (fun _ => id) (fun _ _ => id)
      (fun _ _ => False.elim)).bind fun drop => ?_
    refine ensures_of_start ?_
    rintro ⟨a, dn, up, rand, drawn⟩ hsame
    change a = l.adapter at hsame
    subst hsame
    split
    · refine ensures_pure ?_
      rintro _ rfl
      exact ⟨rfl, moves_medium (Medium.moves_of_same rfl rfl fun _ _ => id)⟩
    · refine (zoom_ensures (l := adapterLens) (s := ⟨l.adapter, dn, up, rand, drawn⟩)
        (h.write seg l.adapter)).mono (fun _ => id) ?_ ?_
      · rintro _ _ ⟨a, ⟨hclosed, hmoves⟩, rfl⟩
        exact ⟨hclosed, moves_medium hmoves⟩
      · rintro e _ ⟨a, ⟨hforeign, hmoves⟩, rfl⟩
        exact ⟨hforeign, moves_medium hmoves⟩
  tick ms l := by
    refine (zoom_ensures (l := adapterLens) (h.tick ms l.adapter)).mono (fun _ => id) ?_ ?_
    · rintro _ _ ⟨a, ⟨hclosed, hmoves⟩, rfl⟩
      exact ⟨hclosed, moves_medium hmoves⟩
    · rintro e _ ⟨a, ⟨hforeign, hmoves⟩, rfl⟩
      exact ⟨hforeign, moves_medium hmoves⟩

namespace NetworkInterface

/-- All datagrams that wait, and all that are in frames to be sent, are datagrams with P. -/
structure Laden (P : IPv4Datagram → Prop) (n : NetworkInterface) : Prop where
  pending : ∀ x, ∀ d ∈ n.pending x, P d
  frames : ∀ f ∈ n.framesOut, f.header.type = EthernetHeader.TYPE_IPv4 →
    ∃ d, P d ∧ d.serialize = .ok f.payload

section Laden

variable {P P' : IPv4Datagram → Prop} {n n' : NetworkInterface}

theorem Laden.mono (h : Laden P n) (hP : ∀ d, P d → P' d) : Laden P' n where
  pending x d hd := hP d (h.pending x d hd)
  frames f hf htype := by
    obtain ⟨d, hd, hpayload⟩ := h.frames f hf htype
    exact ⟨d, hP d hd, hpayload⟩

theorem Laden.of_same (h : Laden P n) (hunsent : n'.unsentDatagrams = n.unsentDatagrams)
    (hframes : n'.framesOut = n.framesOut) : Laden P n' where
  pending x d hd := by
    rw [NetworkInterface.pending, hunsent] at hd
    exact h.pending x d hd
  frames := hframes ▸ h.frames

theorem Laden.push (h : Laden P n) {frame : EthernetFrame}
    (hframe : frame.header.type = EthernetHeader.TYPE_IPv4 →
      ∃ d, P d ∧ d.serialize = .ok frame.payload) : Laden P (n.push frame) where
  pending := h.pending
  frames f hf := by
    rcases List.mem_append.mp hf with hold | hnew
    · exact h.frames f hold
    · rw [List.mem_singleton.mp hnew]
      exact hframe

theorem Laden.sendArp (h : Laden P n) (msg : ARPMessage) (dst : EthernetAddress) :
    Laden P (n.sendArp msg dst).1 := by
  unfold NetworkInterface.sendArp
  split
  · exact h
  · exact h.push fun htype =>
      absurd htype (by decide : EthernetHeader.TYPE_ARP ≠ EthernetHeader.TYPE_IPv4)

theorem Laden.request (h : Laden P n) (nextHop : UInt32) : Laden P (n.request nextHop).1 := by
  unfold NetworkInterface.request
  split
  · exact h
  · dsimp only
    split
    · exact h.of_same rfl rfl
    · have hrecorded : Laden P (n.recorded nextHop) := h.of_same rfl rfl
      exact hrecorded.sendArp _ _

theorem Laden.sendDatagram (h : Laden P n) {d : IPv4Datagram} (hd : P d) (nextHop : Address) :
    Laden P (n.sendDatagram d nextHop).1 := by
  unfold NetworkInterface.sendDatagram
  split
  · exact h
  · split
    · split
      · exact h
      · rename_i payload hpayload
        exact (h.push fun _ => ⟨d, hd, hpayload⟩).of_same rfl rfl
    · refine Laden.request ⟨forall_pending_enqueue h.pending _ hd, h.frames⟩ _

theorem Laden.popUnsent (h : Laden P n) (ip : UInt32) : Laden P (n.popUnsent ip) where
  pending x d hd := by
    rw [pending_popUnsent] at hd
    split at hd
    · exact h.pending ip d (List.mem_of_mem_tail hd)
    · exact h.pending x d hd
  frames := h.frames

theorem Laden.flush (h : Laden P n) (ip : UInt32) (bound : ℕ) : Laden P (n.flush ip bound).1 := by
  induction bound generalizing n with
  | zero => exact h
  | succ bound ih =>
    unfold NetworkInterface.flush
    split
    · rename_i d rest hqueue
      have hd : P d := h.pending ip d (by simp [NetworkInterface.pending, hqueue])
      have hsend := h.sendDatagram hd (Address.fromIpv4Numeric ip)
      split
      · rename_i heq
        rw [heq] at hsend
        exact hsend
      · rename_i heq
        rw [heq] at hsend
        exact ih (hsend.popUnsent ip)
    · exact h

theorem Laden.learn (h : Laden P n) (ownIp : UInt32) (msg : ARPMessage) :
    Laden P (n.learn ownIp msg).1 := by
  have hentered : Laden P (n.enter msg) := h.of_same rfl rfl
  have hflush := hentered.flush msg.senderIpAddress
    (((n.enter msg).unsentDatagrams msg.senderIpAddress).getD []).length
  unfold NetworkInterface.learn
  dsimp only
  split
  · rename_i heq
    rw [heq] at hflush
    exact hflush
  · rename_i m heq
    rw [heq] at hflush
    split
    · have hreply := hflush.sendArp (m.replyFor ownIp msg) msg.senderEthernetAddress
      split
      · rename_i heq'
        rw [heq'] at hreply
        exact hreply
      · rename_i heq'
        rw [heq'] at hreply
        exact hreply
    · exact hflush.of_same rfl rfl

theorem Laden.recvFrame (h : Laden P n) (frame : EthernetFrame) :
    Laden P (n.recvFrame frame).1 := by
  rcases n.reaction frame with heq | ⟨d, -, -, -, heq⟩ | ⟨e, -, -, heq⟩ | ⟨ownIp, msg, -, -, -, heq⟩
  · rw [heq]
    exact h
  · rw [heq]
    exact h
  · rw [heq]
    exact h
  · rw [heq]
    exact h.learn ownIp msg

end Laden

theorem learn_passes_nothing (n : NetworkInterface) (ownIp : UInt32) (msg : ARPMessage)
    (d : IPv4Datagram) : (n.learn ownIp msg).2 ≠ .ok (some d) := by
  unfold learn
  dsimp only
  split
  · simp
  · split
    · split <;> simp
    · simp

/-- A datagram is handed up only out of an IPv4 frame that carries it. -/
theorem recvFrame_some {n : NetworkInterface} {frame : EthernetFrame} {d : IPv4Datagram}
    (h : (n.recvFrame frame).2 = .ok (some d)) :
    frame.header.type = EthernetHeader.TYPE_IPv4 ∧
      ({} : IPv4Datagram).parse frame.payload.concatenate = (.noError, d) := by
  rcases n.reaction frame with heq | ⟨d', -, htype, hparse, heq⟩ | ⟨e, -, -, heq⟩ |
    ⟨ownIp, msg, -, -, -, heq⟩
  · rw [heq] at h
    simp at h
  · rw [heq] at h
    simp only [Except.ok.injEq, Option.some.injEq] at h
    exact ⟨htype, h ▸ hparse⟩
  · rw [heq] at h
    simp at h
  · rw [heq] at h
    exact absurd h (n.learn_passes_nothing ownIp msg d)

end NetworkInterface

namespace TCPOverIPv4OverEthernetAdapter

/-- The datagram in an IPv4 frame, as bytes. -/
def ipPacket (bytes : List UInt8) : Option (List UInt8) :=
  match blank.parse bytes with
  | (.noError, frame) =>
    if frame.header.type = EthernetHeader.TYPE_IPv4 then some frame.payload.concatenate else none
  | _ => none

theorem ipPacket_serialize (frame : EthernetFrame) :
    ipPacket frame.serialize.concatenate =
      if frame.header.type = EthernetHeader.TYPE_IPv4 then some frame.payload.concatenate
      else none := by
  rw [ipPacket, EthernetFrame.serialize_concatenate, EthernetFrame.parse_append]
  simp

/-- The datagram around a segment, as a waiting datagram or in a frame. -/
def Wraps (Q : TCPSegment → Prop) (d : IPv4Datagram) : Prop :=
  ∃ (seg : TCPSegment) (a : TCPOverIPv4Adapter) (seg' : TCPSegment),
    Q seg ∧ a.wrapTcpInIp seg = .ok (seg', d)

def medium : Medium TCPOverIPv4OverEthernetAdapter (List UInt8) where
  taken a := a.tap.taken.filterMap ipPacket
  given a := a.tap.given.filterMap ipPacket
  Encodes := TCPOverIPv4Adapter.Encodes
  Decodes := TCPOverIPv4Adapter.Decodes
  Held Q a := a.interface.Laden (Wraps Q)
  held_mono hQ h := h.mono fun _ ⟨seg, a, seg', hseg, hwrap⟩ => ⟨seg, a, seg', hQ seg hseg, hwrap⟩

section Moves

variable {N : TCPSegment → Prop} {a a' : TCPOverIPv4OverEthernetAdapter}

/-- A part of a call that does not read the device. -/
structure Works (N : TCPSegment → Prop) (a a' : TCPOverIPv4OverEthernetAdapter) : Prop where
  moves : medium.Moves N a a'
  taken : a'.tap.taken = a.tap.taken
  closed : a'.tap.channel.wrapper.closed = a.tap.channel.wrapper.closed
  count : a'.tap.channel.wrapper.readCount = a.tap.channel.wrapper.readCount

theorem Works.trans {a'' : TCPOverIPv4OverEthernetAdapter} (h : Works N a a')
    (h' : Works N a' a'') : Works N a a'' :=
  ⟨h.moves.trans h'.moves, h'.taken.trans h.taken, h'.closed.trans h.closed,
    h'.count.trans h.count⟩

/-- The configuration has changed. -/
theorem Works.rebased (h : Works N a a') (base : TCPOverIPv4Adapter) :
    Works N a { a' with base := base } :=
  ⟨h.moves.trans (Medium.moves_of_same rfl rfl fun _ _ => id), h.taken, h.closed, h.count⟩

/-- The interface has been called. -/
theorem works_of_interface (a : TCPOverIPv4OverEthernetAdapter) {n : NetworkInterface}
    (h : ∀ Q : TCPSegment → Prop, (∀ seg, N seg → Q seg) → a.interface.Laden (Wraps Q) →
      n.Laden (Wraps Q)) : Works N a { a with interface := n } :=
  ⟨Medium.moves_of_same rfl rfl h, rfl, rfl, rfl⟩

/-- A frame of the queue has been written, and popped. -/
theorem works_of_frame {frame : EthernetFrame} {queue : List EthernetFrame} {d : PacketFD}
    (hqueue : a.interface.framesOut = frame :: queue) (htaken : d.taken = a.tap.taken)
    (hgiven : d.given = a.tap.given ++ [frame.serialize.concatenate])
    (hclosed : d.channel.wrapper.closed = a.tap.channel.wrapper.closed)
    (hcount : d.channel.wrapper.readCount = a.tap.channel.wrapper.readCount) :
    Works N a { a with
      tap := d, interface := { a.interface with framesOut := queue } } where
  moves := by
    refine ⟨⟨[], ?_⟩, fun Q _ hQ => ⟨fun p hp => ?_, ?_⟩⟩
    · change _ ++ [] = d.taken.filterMap ipPacket
      rw [htaken, List.append_nil]
      rfl
    · change p ∈ d.given.filterMap ipPacket at hp
      rw [hgiven, List.filterMap_append, List.mem_append] at hp
      rcases hp with hold | hnew
      · exact hQ.given p hold
      · rw [List.filterMap_cons, ipPacket_serialize] at hnew
        by_cases htype : frame.header.type = EthernetHeader.TYPE_IPv4
        · rw [if_pos htype] at hnew
          obtain ⟨dgram, ⟨seg, base, seg', hseg, hwrap⟩, hpayload⟩ :=
            hQ.held.frames frame (by rw [hqueue]; exact List.mem_cons_self ..) htype
          rw [List.filterMap_nil] at hnew
          exact ⟨seg, hseg, base, seg', dgram, frame.payload, hwrap, hpayload,
            (List.mem_singleton.mp hnew).symm⟩
        · rw [if_neg htype] at hnew
          simp at hnew
    · refine ⟨hQ.held.pending, fun f hf => hQ.held.frames f ?_⟩
      rw [hqueue]
      exact List.mem_cons_of_mem _ hf
  taken := htaken
  closed := hclosed
  count := hcount

theorem sendFrames_ensures (queue : List EthernetFrame) (a : TCPOverIPv4OverEthernetAdapter)
    (hqueue : a.interface.framesOut = queue) :
    Ensures (fun a' => a' = a) (sendFrames queue) (fun _ a' => Works N a a')
      (fun e a' => e.Foreign ∧ medium.Moves N a a') := by
  induction queue generalizing a with
  | nil =>
    refine ensures_pure ?_
    rintro _ rfl
    exact ⟨Medium.moves_of_same rfl rfl fun _ _ => id, rfl, rfl, rfl⟩
  | cons frame queue ih =>
    have hwrite := zoom_ensures (l := tapLens) (s := a)
      (PacketFD.write_ensures a.tap frame.serialize)
    refine (hwrite.mono (fun _ => id) (fun _ _ => id) ?_).bind fun _ => ?_
    · rintro e _ ⟨d, ⟨hforeign, htaken, hgiven⟩, rfl⟩
      refine ⟨hforeign, Medium.moves_of_same ?_ ?_ fun _ _ => id⟩
      · exact congrArg (List.filterMap ipPacket) htaken
      · exact congrArg (List.filterMap ipPacket) hgiven
    · refine ensures_of_start ?_
      rintro _ ⟨d, ⟨htaken, hgiven, hclosed, hcount⟩, rfl⟩
      let popped : TCPOverIPv4OverEthernetAdapter :=
        { a with tap := d, interface := { a.interface with framesOut := queue } }
      have hworks : Works N a popped := works_of_frame hqueue htaken hgiven hclosed hcount
      refine (ensures_modify (R := fun _ a' => a' = popped) ?_).bind fun _ => ?_
      · rintro _ rfl
        change ({ a with tap := d, interface := { a.interface with
          framesOut := a.interface.framesOut.tail } } : TCPOverIPv4OverEthernetAdapter) = popped
        rw [hqueue]
        rfl
      · refine (ih popped rfl).mono (fun _ => id) (fun _ _ h => hworks.trans h) ?_
        rintro e a' ⟨hforeign, hmoves⟩
        exact ⟨hforeign, hworks.moves.trans hmoves⟩

theorem sendPending_ensures (a : TCPOverIPv4OverEthernetAdapter) :
    Ensures (fun a' => a' = a) sendPending (fun _ a' => Works N a a')
      (fun e a' => e.Foreign ∧ medium.Moves N a a') := by
  refine ensures_get_bind ?_
  rintro a rfl
  exact sendFrames_ensures _ a rfl

/-- A call of the interface that keeps what it is laden with. -/
theorem callInterface_ensures {τ : Type}
    (call : NetworkInterface → NetworkInterface × Except String τ)
    (a : TCPOverIPv4OverEthernetAdapter) (hlisted : Listed (call a.interface).2)
    (h : ∀ Q : TCPSegment → Prop, (∀ seg, N seg → Q seg) → a.interface.Laden (Wraps Q) →
      (call a.interface).1.Laden (Wraps Q)) :
    Ensures (fun a' => a' = a) (callInterface call)
      (fun out a' => Works N a a' ∧ (call a.interface).2 = .ok out)
      (fun e a' => e.Foreign ∧ medium.Moves N a a') := by
  refine ensures_get_bind ?_
  rintro a rfl
  have hworks := works_of_interface a h
  refine (ensures_set (R := fun _ a' => a' = { a with interface := (call a.interface).1 })
    fun _ _ => rfl).bind fun _ => ?_
  refine (raise_ensures hlisted).mono (fun _ => id) ?_ ?_
  · rintro out _ ⟨rfl, hout⟩
    exact ⟨hworks, hout⟩
  · rintro e _ ⟨rfl, hforeign⟩
    exact ⟨hforeign, hworks.moves⟩

end Moves

theorem transports : adapter.Transports medium where
  read a := by
    have hread := zoom_ensures (l := tapLens) (s := a) (PacketFD.read_ensures a.tap)
    refine (hread.mono (fun _ => id) (fun _ _ => id) ?_).bind fun packet => ?_
    · rintro e _ ⟨d, ⟨hforeign, htaken, hgiven⟩, rfl⟩
      refine ⟨hforeign, Medium.moves_of_same ?_ ?_ fun _ _ => id⟩
      · exact congrArg (List.filterMap ipPacket) htaken
      · exact congrArg (List.filterMap ipPacket) hgiven
    · refine ensures_of_start ?_
      rintro _ ⟨d, ⟨htaken, hgiven, hclosed, hcount⟩, rfl⟩
      have hfirst : medium.Moves (fun _ => False) a { a with tap := d } := by
        refine Medium.moves_of_given ⟨[packet].filterMap ipPacket, ?_⟩ ?_ fun _ _ => id
        · exact (List.filterMap_append).symm.trans
            (congrArg (List.filterMap ipPacket) htaken.symm)
        · exact congrArg (List.filterMap ipPacket) hgiven
      have hfailed : ∀ (e : Failure) (a' : TCPOverIPv4OverEthernetAdapter),
          e.Foreign ∧ medium.Moves (fun _ => False) { a with tap := d } a' →
          e.Foreign ∧ medium.Moves (fun _ => False) a a' :=
        fun e a' h => ⟨h.1, hfirst.trans h.2⟩
      split
      · rename_i frame hparse
        refine ((callInterface_ensures (NetworkInterface.recvFrame · frame) { a with tap := d }
          (NetworkInterface.listed_recvFrame _ _) fun Q _ h => h.recvFrame frame).mono
          (fun _ => id) (fun _ _ => id) hfailed).bind fun ipDgram => ?_
        refine ensures_of_start ?_
        rintro a₁ ⟨hcalled, hdgram⟩
        refine ((sendPending_ensures a₁).mono (fun _ => id) (fun _ _ h => hcalled.trans h) ?_).bind
          fun _ => ?_
        · exact fun e a' h => ⟨h.1, hfirst.trans (hcalled.moves.trans h.2)⟩
        refine ensures_of_start fun a₂ hworks => ?_
        split
        · rename_i ipDgram
          obtain ⟨htype, hipv4⟩ := NetworkInterface.recvFrame_some hdgram
          refine (zoom_ensures (l := baseLens) (s := a₂)
            (TCPOverIPv4Adapter.unwrap_ensures a₂.base ipDgram)).mono (fun _ => id) ?_ ?_
          · rintro seg _ ⟨base, hseg, rfl⟩
            refine ⟨hworks.count ▸ hcount, hworks.closed.trans hclosed,
              hfirst.trans (hworks.rebased base).moves, ?_⟩
            rintro s rfl
            refine ⟨frame.payload.concatenate, ?_, a₂.base, base, ipDgram, hipv4, hseg⟩
            change _ ∈ a₂.tap.taken.filterMap ipPacket
            rw [hworks.taken, List.mem_filterMap]
            refine ⟨packet, ?_, ?_⟩
            · change packet ∈ d.taken
              rw [htaken]
              exact List.mem_append_right _ (List.mem_singleton_self _)
            · rw [ipPacket, hparse]
              exact if_pos htype
          · rintro e _ ⟨base, hforeign, rfl⟩
            exact ⟨hforeign, hfirst.trans (hworks.rebased base).moves⟩
        · refine ensures_pure ?_
          rintro _ rfl
          exact ⟨hworks.count ▸ hcount, hworks.closed.trans hclosed, hfirst.trans hworks.moves,
            fun s hs => by simp at hs⟩
      · refine ensures_pure ?_
        rintro _ rfl
        exact ⟨hcount, hclosed, hfirst, fun s hs => by simp at hs⟩
  write seg a := by
    refine ensures_get_bind ?_
    rintro a rfl
    refine ((raise_ensures (listed_wrapTcpInIp _ seg)).mono (fun _ => id) (fun _ _ => id)
      ?_).bind fun wrapped => ?_
    · rintro e _ ⟨rfl, hforeign⟩
      exact ⟨hforeign, Medium.moves_of_same rfl rfl fun _ _ => id⟩
    refine ensures_of_start ?_
    rintro a ⟨rfl, hwrapped⟩
    refine (callInterface_ensures (N := (· = seg))
      (NetworkInterface.sendDatagram · wrapped.2 a.nextHop) a
      (NetworkInterface.listed_sendDatagram _ _ _) fun Q hnew h =>
        h.sendDatagram ⟨seg, a.base, wrapped.1, hnew seg rfl, hwrapped⟩ a.nextHop).bind fun _ => ?_
    refine ensures_of_start ?_
    rintro a₁ ⟨hcalled, -⟩
    refine (sendPending_ensures (N := (· = seg)) a₁).mono (fun _ => id) ?_ ?_
    · exact fun _ _ h => ⟨(hcalled.trans h).closed, (hcalled.trans h).moves⟩
    · exact fun e _ h => ⟨h.1, hcalled.moves.trans h.2⟩
  tick ms a := by
    have hticked : Works (fun _ => False) a { a with interface := a.interface.tick ms } :=
      works_of_interface a fun Q _ h => h.of_same rfl rfl
    refine (ensures_modify (R := fun _ a' => a' = { a with interface := a.interface.tick ms })
      fun _ hs => hs ▸ rfl).bind fun _ => ?_
    refine (sendPending_ensures (N := fun _ => False) _).mono (fun _ => id) ?_ ?_
    · exact fun _ _ h => ⟨(hticked.trans h).closed, (hticked.trans h).moves⟩
    · exact fun e _ h => ⟨h.1, hticked.moves.trans h.2⟩

end TCPOverIPv4OverEthernetAdapter

end Sponge
