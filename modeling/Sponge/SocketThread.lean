import Sponge.SpongeSocket

/-!
What the thread of a socket keeps, whatever the kernel answers.
The adapter is given a record of the segments that have passed in either direction. As long as
the segments that come in are those of a peer, the thread is an endpoint sound with respect
to that peer, with the bytes of the owner on both sides of it.
-/
namespace Sponge

open Programs EventLoop

variable {α : Type}

/-- An adapter with a record: the segments it returned and those it was given. -/
structure Recorded (α : Type) where
  inner : α
  heard : List TCPSegment := []
  sent : List TCPSegment := []

def Recorded.innerLens : Lens (Recorded α) α := ⟨inner, fun a r => { r with inner := a }⟩

/-- A segment counts as sent when the adapter is given it, even if the adapter then throws. -/
def Adapter.recorded (adapter : Adapter α) : Adapter (Recorded α) where
  fd r := adapter.fd r.inner
  read := do
    let seg ← zoom Recorded.innerLens adapter.read
    modify fun r => { r with heard := r.heard ++ seg.toList }
    return seg
  write seg := do
    modify fun r => { r with sent := r.sent ++ [seg] }
    zoom Recorded.innerLens (adapter.write seg)
  tick ms := zoom Recorded.innerLens (adapter.tick ms)

/-- The exceptions that neither the event loop nor the thread itself throws. -/
structure Failure.Foreign (e : Failure) : Prop where
  in_range : e ≠ .outOfRange
  no_busyWait : e ≠ busyWait
  no_acceptedLess : e ≠ TCPSpongeSocket.acceptedLess

theorem Channel.Raised.foreign {e : Failure} (h : Channel.Raised e) : e.Foreign where
  in_range := h.ne_outOfRange
  no_busyWait := h.ne_runtimeError (by simp [complaints])
  no_acceptedLess := h.ne_runtimeError (by simp [complaints])

/-- An adapter reads its descriptor when it is asked to read, never closes it, and keeps the
exceptions of the loop and the thread to them. -/
structure Adapter.Lawful (adapter : Adapter α) : Prop where
  read : ∀ a, Ensures (fun a' => a' = a) adapter.read
    (fun _ a' => (adapter.fd a').readCount ≠ (adapter.fd a).readCount ∧
      (adapter.fd a').closed = (adapter.fd a).closed) (fun e _ => e.Foreign)
  write : ∀ seg a, Ensures (fun a' => a' = a) (adapter.write seg)
    (fun _ a' => (adapter.fd a').closed = (adapter.fd a).closed) (fun e _ => e.Foreign)
  tick : ∀ ms a, Ensures (fun a' => a' = a) (adapter.tick ms)
    (fun _ a' => (adapter.fd a').closed = (adapter.fd a).closed) (fun e _ => e.Foreign)

section Recorded

variable {adapter : Adapter α} (h : adapter.Lawful) (r : Recorded α)
include h

theorem recorded_read :
    Ensures (fun r' => r' = r) adapter.recorded.read
      (fun seg r' => (adapter.fd r'.inner).readCount ≠ (adapter.fd r.inner).readCount ∧
        (adapter.fd r'.inner).closed = (adapter.fd r.inner).closed ∧
        r'.heard = r.heard ++ seg.toList ∧ r'.sent = r.sent)
      (fun e r' => e.Foreign ∧ r'.heard = r.heard ∧ r'.sent = r.sent) := by
  refine ((zoom_ensures (l := Recorded.innerLens) (h.read r.inner)).mono (fun _ => id)
    (fun _ _ => id) ?_).bind fun seg => ?_
  · rintro e _ ⟨a, hforeign, rfl⟩
    exact ⟨hforeign, rfl, rfl⟩
  · refine (ensures_modify (R := fun _ r' => ∃ a,
      ((adapter.fd a).readCount ≠ (adapter.fd r.inner).readCount ∧
        (adapter.fd a).closed = (adapter.fd r.inner).closed) ∧
      r' = { r with inner := a, heard := r.heard ++ seg.toList }) ?_).bind fun _ => ?_
    · rintro _ ⟨a, ha, rfl⟩
      exact ⟨a, ha, rfl⟩
    · refine ensures_pure ?_
      rintro _ ⟨a, ⟨hcount, hclosed⟩, rfl⟩
      exact ⟨hcount, hclosed, rfl, rfl⟩

theorem recorded_write (seg : TCPSegment) :
    Ensures (fun r' => r' = r) (adapter.recorded.write seg)
      (fun _ r' => (adapter.fd r'.inner).closed = (adapter.fd r.inner).closed ∧
        r'.heard = r.heard ∧ r'.sent = r.sent ++ [seg])
      (fun e r' => e.Foreign ∧ r'.heard = r.heard ∧ r'.sent = r.sent ++ [seg]) := by
  let noted : Recorded α := { r with sent := r.sent ++ [seg] }
  refine (ensures_modify (R := fun _ r' => r' = noted) fun _ hr => hr ▸ rfl).bind fun _ => ?_
  refine (zoom_ensures (l := Recorded.innerLens) (s := noted) (h.write seg r.inner)).mono
    (fun _ => id) ?_ ?_
  · rintro _ _ ⟨a, hclosed, rfl⟩
    exact ⟨hclosed, rfl, rfl⟩
  · rintro e _ ⟨a, hforeign, rfl⟩
    exact ⟨hforeign, rfl, rfl⟩

theorem recorded_tick (ms : ℕ) :
    Ensures (fun r' => r' = r) (adapter.recorded.tick ms)
      (fun _ r' => (adapter.fd r'.inner).closed = (adapter.fd r.inner).closed ∧
        r'.heard = r.heard ∧ r'.sent = r.sent)
      (fun e r' => e.Foreign ∧ r'.heard = r.heard ∧ r'.sent = r.sent) := by
  refine (zoom_ensures (l := Recorded.innerLens) (h.tick ms r.inner)).mono (fun _ => id) ?_ ?_
  · rintro _ _ ⟨a, hclosed, rfl⟩
    exact ⟨hclosed, rfl, rfl⟩
  · rintro e _ ⟨a, hforeign, rfl⟩
    exact ⟨hforeign, rfl, rfl⟩

end Recorded

namespace TCPConnection

variable {c : TCPConnection}

theorem tryClosing_inboundStream (c : TCPConnection) :
    c.tryClosingConnection.inboundStream = c.inboundStream := by
  unfold tryClosingConnection
  dsimp only
  split
  · split <;> simp [inboundStream]
  · rfl

theorem write_inboundStream (c : TCPConnection) (data : List UInt8) :
    (c.write data).2.inboundStream = c.inboundStream := by
  unfold write
  dsimp only
  split
  · rfl
  · simp [inboundStream]

theorem tick_keeps_error (h : c.inboundStream.error = true) (ms : ℕ) :
    (c.tick ms).inboundStream.error = true := by
  unfold tick
  split
  · dsimp only
    rw [tryClosing_inboundStream]
    split
    · rfl
    · simpa [inboundStream] using h
  · exact h

theorem segmentReceived_keeps_error (h : c.inboundStream.error = true) (seg : TCPSegment) :
    (c.segmentReceived seg).inboundStream.error = true := by
  have htaken : (c.takeIn seg).inboundStream.error = true := by
    refine ConnectionCalls.takeIn_rule (P := fun d => d.inboundStream.error = true) ?_
      (fun _ _ => rfl) fun d hd => ?_
    · exact (ConnectionStates.segmentReceived_error c.receiver seg).trans h
    · rwa [callSender_inboundStream]
  have hanswer : ((c.takeIn seg).answer seg).inboundStream.error = true := by
    rw [inboundStream, (ConnectionStates.answer_frame (c.takeIn seg) seg).1]
    exact htaken
  unfold segmentReceived
  dsimp only
  split
  · simpa [inboundStream, connect] using hanswer
  · simpa [inboundStream] using hanswer

end TCPConnection

/-- An error of the inbound stream stays. -/
theorem Endpoint.error_kept {x : Endpoint} (h : x.conn.inboundStream.error = true)
    (op : EndpointOp) : (x.step op).conn.inboundStream.error = true := by
  cases op with
  | connect => simpa [Endpoint.step, TCPConnection.connect, TCPConnection.inboundStream] using h
  | write data => exact (congrArg _ (TCPConnection.write_inboundStream x.conn data)).trans h
  | endInputStream => exact (congrArg _ (TCPConnection.tryClosing_inboundStream _)).trans h
  | tick ms => exact TCPConnection.tick_keeps_error h ms
  | deliver seg => exact TCPConnection.segmentReceived_keeps_error h seg
  | read len =>
    change (x.conn.inboundStream.read len).2.error = true
    unfold ByteStream.read
    exact h
  | pop len => exact h

namespace Link

section Persistence

variable {x y : Endpoint}

theorem consumed_grows (x : Endpoint) (op : EndpointOp) : x.consumed <+: (x.step op).consumed := by
  cases op with
  | read len => exact List.prefix_append _ _
  | pop len => exact List.prefix_append _ _
  | connect | write | endInputStream | tick | deliver => exact List.prefix_refl _

theorem buffered_nil (h : Sound x y) (heof : x.conn.inboundStream.eof = true) :
    x.conn.inboundStream.buffered = [] := by
  have hv : x.conn.inboundStream.Valid := h.linked.joined.hears.assembles.rep.output_valid
  rw [← List.length_eq_zero_iff, hv.buffered_length]
  simpa [ByteStream.bufferEmpty] using ByteStream.empty_of_eof heof

/-- An inbound stream read to its end stays so. -/
theorem Sound.eof_kept (h : Sound x y) (op : EndpointOp) (hop : x.Enabled y op)
    (heof : x.conn.inboundStream.eof = true) : (x.step op).conn.inboundStream.eof = true := by
  have hended := ByteStream.ended_of_eof heof
  have hnext := h.step op hop
  have hended' := (h.later op hop).ended hended
  have hall := (h.symm.delivered.complete hended).2
  have hall' := (hnext.symm.delivered.complete hended').2
  have hv : (x.step op).conn.inboundStream.Valid :=
    hnext.linked.joined.hears.assembles.rep.output_valid
  -- all that could be read has been read before
  have hlen : (x.step op).consumed.length + (x.step op).conn.inboundStream.curSize =
      x.consumed.length := by
    rw [← hv.buffered_length, ← List.length_append]
    change (x.step op).assembled.length = _
    rw [hall', ← hall, Endpoint.assembled, buffered_nil h heof, List.append_nil]
  have hle := (consumed_grows x op).length_le
  refine Bool.and_eq_true_iff.mpr ⟨hended', ?_⟩
  simp only [ByteStream.bufferEmpty, beq_iff_eq]
  omega

end Persistence

end Link

namespace TCPSpongeSocket

open Link

/-- The thread as an endpoint whose segments stay in its queue. -/
structure Represents (w : TCPSpongeSocket (Recorded α)) (x : Endpoint) : Prop where
  conn_eq : x.conn = w.tcp.behind w.datagramAdapter.sent
  accepted_eq : x.accepted = w.threadData.taken
  consumed_eq : x.consumed = w.threadData.given
  closed_eq : x.closed = w.outboundShutdown

/-- What is left of that when an exception has ended the thread in the middle of a rule. -/
structure Fallen (w : TCPSpongeSocket (Recorded α)) (x : Endpoint) : Prop where
  sent : ∀ seg ∈ w.datagramAdapter.sent, seg ∈ x.conn.segmentsOut
  accepted : x.accepted <+: w.threadData.taken
  closed : x.closed = true → x.accepted = w.threadData.taken ∧ w.outboundShutdown = true
  given : w.threadData.given <+: x.assembled

/-- Without a reset, the owner has been told of the end once, after everything. -/
structure Tidy (w : TCPSpongeSocket α) : Prop where
  down : w.inboundShutdown = true → w.tcp.inboundStream.error = false →
    w.tcp.inboundStream.eof = true
  once : w.tcp.inboundStream.error = false →
    w.threadData.shutdowns = if w.inboundShutdown then 1 else 0

def Serving (y : Endpoint) (w : TCPSpongeSocket (Recorded α)) : Prop :=
  ∃ x, Represents w x ∧ Sound x y ∧ Tidy w

/-- All segments that came in are segments of the peer, and the owner has written less
than 2^31 - 2 bytes. -/
structure Permitted (y : Endpoint) (w : TCPSpongeSocket (Recorded α)) : Prop where
  heard : ∀ seg ∈ w.datagramAdapter.heard, ∃ seg' ∈ y.conn.segmentsOut, seg.Same seg'
  short : Short w.threadData.taken

section Serving

variable {x y : Endpoint} {w w' : TCPSpongeSocket (Recorded α)}

theorem Permitted.before (h : Permitted y w')
    (hheard : w.datagramAdapter.heard <+: w'.datagramAdapter.heard)
    (htaken : w.threadData.taken <+: w'.threadData.taken) : Permitted y w where
  heard seg hseg := h.heard seg (hheard.subset hseg)
  short := Nat.lt_of_le_of_lt htaken.length_le h.short

theorem Represents.fallen (h : Represents w x) : Fallen w x where
  sent seg hseg := by
    rw [h.conn_eq]
    exact List.mem_append_left _ hseg
  accepted := h.accepted_eq ▸ List.prefix_refl _
  closed hclosed := ⟨h.accepted_eq, h.closed_eq ▸ hclosed⟩
  given := by
    rw [← h.consumed_eq]
    exact List.prefix_append _ _

/-- What is done to the endpoint changes nothing in the dealings with the owner. -/
theorem Tidy.step (h : Tidy w) (hrep : Represents w x) (hsound : Sound x y) (op : EndpointOp)
    (hop : x.Enabled y op) (hstream : w'.tcp.inboundStream = (x.step op).conn.inboundStream)
    (hdown : w'.inboundShutdown = w.inboundShutdown)
    (hshut : w'.threadData.shutdowns = w.threadData.shutdowns) : Tidy w' := by
  have hsame : x.conn.inboundStream = w.tcp.inboundStream := by
    rw [hrep.conn_eq]
    rfl
  have hclear : w'.tcp.inboundStream.error = false → w.tcp.inboundStream.error = false := by
    intro hclear
    by_contra herror
    rw [Bool.not_eq_false, ← hsame] at herror
    have hkept := Endpoint.error_kept herror op
    rw [← hstream, hclear] at hkept
    exact absurd hkept Bool.noConfusion
  refine ⟨fun hdown' herror => ?_, fun herror => ?_⟩
  · rw [hstream]
    refine hsound.eof_kept op hop ?_
    rw [hsame]
    exact h.down (hdown ▸ hdown') (hclear herror)
  · rw [hshut, hdown]
    exact h.once (hclear herror)

theorem Serving.step (h : Serving y w) (op : EndpointOp)
    (hop : ∀ x, Represents w x → Sound x y → x.Enabled y op)
    (hrep : ∀ x, Represents w x → Sound x y → Represents w' (x.step op))
    (hdown : w'.inboundShutdown = w.inboundShutdown)
    (hshut : w'.threadData.shutdowns = w.threadData.shutdowns) : Serving y w' := by
  obtain ⟨x, hx, hsound, htidy⟩ := h
  have hnext := hrep x hx hsound
  refine ⟨x.step op, hnext, hsound.step op (hop x hx hsound), ?_⟩
  refine htidy.step hx hsound op (hop x hx hsound) ?_ hdown hshut
  rw [hnext.conn_eq]
  rfl

/-- Nothing is read of the adapter but the record of what was sent. -/
theorem Serving.of_adapter (h : Serving y w) {r : Recorded α}
    (hsent : r.sent = w.datagramAdapter.sent) : Serving y { w with datagramAdapter := r } := by
  obtain ⟨x, hx, hsound, htidy⟩ := h
  refine ⟨x, ⟨?_, hx.accepted_eq, hx.consumed_eq, hx.closed_eq⟩, hsound, htidy.down, htidy.once⟩
  rw [hx.conn_eq]
  exact congrArg (TCPConnection.behind · w.tcp) hsent.symm

theorem Serving.noteAcked (h : Serving y w) : Serving y w.noteAcked := by
  obtain ⟨x, hx, hsound, htidy⟩ := h
  exact ⟨x, ⟨hx.conn_eq, hx.accepted_eq, hx.consumed_eq, hx.closed_eq⟩, hsound, htidy.down,
    htidy.once⟩

theorem Serving.deliver (h : Serving y w) {seg : Option TCPSegment}
    (hseg : ∀ s ∈ seg, ∃ seg' ∈ y.conn.segmentsOut, s.Same seg') : Serving y (w.deliver seg) := by
  cases seg with
  | none => exact h
  | some seg =>
    obtain ⟨seg', hmem, hsame⟩ := hseg seg rfl
    refine h.step (.deliver seg') (fun _ _ _ => hmem) ?_ rfl rfl
    intro x hx _
    refine ⟨?_, hx.accepted_eq, hx.consumed_eq, hx.closed_eq⟩
    change x.conn.segmentReceived seg' = _
    rw [hx.conn_eq, ← TCPConnection.segmentReceived_same hsame,
      TCPConnection.behind_segmentReceived]
    rfl

theorem Serving.endOutbound (h : Serving y w) :
    Serving y { w with tcp := w.tcp.endInputStream, outboundShutdown := true } := by
  refine h.step .endInputStream (fun _ _ _ => trivial) ?_ rfl rfl
  intro x hx _
  refine ⟨?_, hx.accepted_eq, hx.consumed_eq, rfl⟩
  change x.conn.endInputStream = _
  rw [hx.conn_eq, TCPConnection.behind_endInputStream]

theorem Serving.connect (h : Serving y w) : Serving y { w with tcp := w.tcp.connect } := by
  refine h.step .connect (fun _ _ _ => trivial) ?_ rfl rfl
  intro x hx _
  refine ⟨?_, hx.accepted_eq, hx.consumed_eq, hx.closed_eq⟩
  change x.conn.connect = _
  rw [hx.conn_eq, TCPConnection.behind_connect]

theorem Serving.tick (h : Serving y w) (ms : ℕ) : Serving y { w with tcp := w.tcp.tick ms } := by
  refine h.step (.tick ms) (fun _ _ _ => trivial) ?_ rfl rfl
  intro x hx _
  refine ⟨?_, hx.accepted_eq, hx.consumed_eq, hx.closed_eq⟩
  change x.conn.tick ms = _
  rw [hx.conn_eq, TCPConnection.behind_tick]

/-- The endpoint takes all of the data. -/
theorem Serving.write (h : Serving y w) {c : Channel} {data : List UInt8}
    (hall : (w.tcp.write data).1 = data.length) (htaken : c.taken = w.threadData.taken ++ data)
    (hgiven : c.given = w.threadData.given) (hshut : c.shutdowns = w.threadData.shutdowns)
    (hshort : Short c.taken) :
    Serving y { w with threadData := c, tcp := (w.tcp.write data).2 } := by
  have hwrite : ∀ x, Represents w x → x.step (.write data) =
      { x with
        conn := (w.tcp.write data).2.behind w.datagramAdapter.sent
        accepted := c.taken } := by
    intro x hx
    simp only [Endpoint.step, hx.conn_eq, TCPConnection.behind_write, hall, List.take_length,
      hx.accepted_eq, htaken]
  refine h.step (.write data) ?_ ?_ rfl hshut
  · intro x hx _
    change (x.step (.write data)).accepted.length < _
    rw [hwrite x hx]
    exact hshort
  · intro x hx _
    rw [hwrite x hx]
    exact ⟨rfl, rfl, hx.consumed_eq.trans hgiven.symm, hx.closed_eq⟩

/-- Bytes read from the endpoint are given to the owner. -/
theorem Serving.pop (h : Serving y w) {c : Channel} {n m : ℕ}
    (hn : n ≤ (w.tcp.inboundStream.peekOutput (min m w.tcp.inboundStream.bufferSize)).length)
    (hgiven : c.given = w.threadData.given ++
      (w.tcp.inboundStream.peekOutput (min m w.tcp.inboundStream.bufferSize)).take n)
    (htaken : c.taken = w.threadData.taken) (hshut : c.shutdowns = w.threadData.shutdowns) :
    Serving y { w with
      threadData := c
      tcp := w.tcp.setInbound (w.tcp.inboundStream.popOutput n) } := by
  obtain ⟨x₀, hx₀, hsound₀, -⟩ := id h
  have hvalid : w.tcp.inboundStream.Valid := by
    have hv := hsound₀.linked.joined.hears.assembles.rep.output_valid
    rw [hx₀.conn_eq] at hv
    exact hv
  rw [hvalid.peek_eq_take, List.length_take, hvalid.buffered_length] at hn
  rw [hvalid.peek_eq_take, List.take_take, Nat.min_eq_left (by omega)] at hgiven
  refine h.step (.pop n) ?_ ?_ rfl hshut
  · intro x hx _
    change n ≤ x.conn.inboundStream.bufferSize
    rw [hx.conn_eq]
    exact (by omega : n ≤ w.tcp.inboundStream.curSize)
  · intro x hx _
    refine ⟨?_, hx.accepted_eq.trans htaken.symm, ?_, hx.closed_eq⟩
    · change x.conn.setInbound (x.conn.inboundStream.popOutput n) = _
      rw [hx.conn_eq]
      rfl
    · change x.consumed ++ x.conn.inboundStream.peekOutput n = c.given
      rw [hx.consumed_eq, hgiven, hx.conn_eq, ← hvalid.peek_eq_take]
      rfl

/-- The owner is told of the end. -/
theorem Serving.shutdown (h : Serving y w) {c : Channel}
    (hend : w.tcp.inboundStream.eof = true ∨ w.tcp.inboundStream.error = true)
    (hup : w.tcp.inboundStream.error = false → w.inboundShutdown = false)
    (htaken : c.taken = w.threadData.taken) (hgiven : c.given = w.threadData.given)
    (hshut : c.shutdowns = w.threadData.shutdowns + 1) :
    Serving y { w with threadData := c, inboundShutdown := true } := by
  obtain ⟨x, hx, hsound, htidy⟩ := h
  refine ⟨x, ⟨hx.conn_eq, hx.accepted_eq.trans htaken.symm, hx.consumed_eq.trans hgiven.symm,
    hx.closed_eq⟩, hsound, ?_, ?_⟩
  · intro _ hclear
    exact hend.resolve_right (fun herror => by simp_all)
  · intro hclear
    have honce := htidy.once hclear
    rw [hup hclear] at honce
    exact hshut.trans (congrArg (· + 1) honce)

/-- The whole queue has been sent. -/
theorem Serving.sent (h : Serving y w) {r : Recorded α}
    (hsent : r.sent = w.datagramAdapter.sent ++ w.tcp.segmentsOut) :
    Serving y { w with datagramAdapter := r, tcp := { w.tcp with segmentsOut := [] } } := by
  obtain ⟨x, hx, hsound, htidy⟩ := h
  refine ⟨x, ⟨?_, hx.accepted_eq, hx.consumed_eq, hx.closed_eq⟩, hsound, htidy.down, htidy.once⟩
  rw [hx.conn_eq]
  simp only [TCPConnection.behind, hsent, List.append_nil]

end Serving

/-- The invariant of the thread, while hangups are reported only under H. -/
structure Running (adapter : Adapter α) (H : Prop) (y : Endpoint) (live : List Label)
    (w : TCPSpongeSocket (Recorded α)) : Prop where
  among : live.Sublist rules
  writing : ¬ H → .writeOwner ∈ live ∧ .sendDatagrams ∈ live
  thread_open : w.threadData.wrapper.closed = false
  adapter_open : (adapter.fd w.datagramAdapter.inner).closed = false
  eof_shut : w.threadData.wrapper.eof = true → w.outboundShutdown = true
  serving : Permitted y w → Serving y w

/-- What holds when an exception ends the thread. -/
structure Fails (y : Endpoint) (e : Failure) (w : TCPSpongeSocket (Recorded α)) : Prop where
  in_range : e ≠ .outOfRange
  no_busyWait : e ≠ busyWait
  unsent : Permitted y w → e = acceptedLess → w.tcp.synSent = false
  fallen : Permitted y w → ∃ x, Fallen w x ∧ Sound x y

/-- What the answers of the rules say. -/
def Asks (y : Endpoint) : Label → Bool → TCPSpongeSocket (Recorded α) → Prop
  | .receiveDatagram, b, w => b = false → w.tcp.active = false
  | .readOwner, b, w => b = true → w.outboundShutdown = false
  | .writeOwner, b, w =>
    (b = true → Permitted y w → w.tcp.inboundStream.error = false → w.inboundShutdown = false) ∧
    (b = false → w.tcp.inboundStream.bufferEmpty = true ∧
      (w.tcp.inboundStream.eof = true ∨ w.tcp.inboundStream.error = true →
        w.inboundShutdown = true))
  | .sendDatagrams, b, w => b = false → w.tcp.segmentsOut = []

section Callbacks

variable {adapter : Adapter α} {H : Prop} {y : Endpoint} {live : List Label}
  {w w' : TCPSpongeSocket (Recorded α)}

theorem fails_of_foreign {e : Failure} (h : e.Foreign)
    (hfallen : Permitted y w → ∃ x, Fallen w x ∧ Sound x y) : Fails y e w :=
  ⟨h.in_range, h.no_busyWait, fun _ heq => absurd heq h.no_acceptedLess, hfallen⟩

/-- Rule 1. -/
theorem Running.receiveDatagram (hlaw : adapter.Lawful) (h : Running adapter H y live w) :
    Ensures (fun w' => w' = w) (receiveDatagram adapter.recorded)
      (fun _ w' => Running adapter H y live w' ∧
        (adapter.fd w'.datagramAdapter.inner).readCount ≠
          (adapter.fd w.datagramAdapter.inner).readCount) (Fails y) := by
  refine ((zoom_ensures (l := adapterLens) (s := w)
    (recorded_read hlaw w.datagramAdapter)).mono (fun _ => id) (fun _ _ => id) ?_).bind
    fun seg => ?_
  · rintro e _ ⟨r, ⟨hforeign, hheard, hsent⟩, rfl⟩
    refine fails_of_foreign hforeign fun hperm => ?_
    have hbefore : Permitted y w := hperm.before (hheard ▸ List.prefix_refl _) (List.prefix_refl _)
    obtain ⟨x, hx, hsound, -⟩ := (h.serving hbefore).of_adapter hsent
    exact ⟨x, hx.fallen, hsound⟩
  · refine ensures_modify ?_
    rintro _ ⟨r, ⟨hcount, hclosed, hheard, hsent⟩, rfl⟩
    refine ⟨⟨h.among, h.writing, h.thread_open, hclosed.trans h.adapter_open, h.eof_shut,
      fun hperm => ?_⟩, hcount⟩
    have hbefore : Permitted y w := hperm.before (w := w) ⟨_, hheard.symm⟩ (List.prefix_refl _)
    refine (Serving.deliver ((h.serving hbefore).of_adapter hsent) fun s hs => ?_).noteAcked
    refine hperm.heard s ?_
    change s ∈ r.heard
    rw [hheard]
    exact List.mem_append_right _ (Option.mem_toList.mpr hs)

/-- How the endpoint answers to data from the owner: it takes all of it, unless its SYN has not
been sent. -/
theorem Serving.amount (h : Serving y w) (hopen : w.outboundShutdown = false) {data : List UInt8}
    (hfits : data.length ≤ w.tcp.remainingOutboundCapacity) :
    (w.tcp.write data).1 = data.length ∨
      w.tcp.synSent = false ∧ (w.tcp.write data).2 = w.tcp := by
  obtain ⟨x, hx, hsound, -⟩ := h
  have hinput : w.tcp.sender.stream.inputEnded = false := by
    by_contra hended
    rw [Bool.not_eq_false] at hended
    have hclosed := hsound.ended (by rw [hx.conn_eq]; exact hended)
    rw [hx.closed_eq, hopen] at hclosed
    exact absurd hclosed Bool.noConfusion
  unfold TCPConnection.write
  cases hsent : w.tcp.synSent with
  | false =>
    rw [hinput]
    exact Or.inr ⟨rfl, rfl⟩
  | true =>
    rw [hinput]
    exact Or.inl (Nat.min_eq_left hfits)

/-- Rule 2. -/
theorem Running.readOwner (h : Running adapter H y live w) (hopen : w.outboundShutdown = false) :
    Ensures (fun w' => w' = w) readOwner
      (fun _ w' => Running adapter H y live w' ∧
        w'.threadData.wrapper.readCount ≠ w.threadData.wrapper.readCount) (Fails y) := by
  refine ensures_get_bind ?_
  rintro w rfl
  have hread := zoom_ensures (l := threadLens) (s := w)
    (Channel.read_ensures w.threadData w.tcp.remainingOutboundCapacity)
  have hfell : ∀ c : Channel, w.threadData.taken <+: c.taken → c.given = w.threadData.given →
      Permitted y { w with threadData := c } →
      ∃ x, Fallen { w with threadData := c } x ∧ Sound x y := by
    intro c htaken hgiven hperm
    obtain ⟨x, hx, hsound, -⟩ := h.serving (hperm.before (List.prefix_refl _) htaken)
    refine ⟨x, ⟨hx.fallen.sent, hx.accepted_eq ▸ htaken, fun hclosed => ?_, ?_⟩, hsound⟩
    · rw [hx.closed_eq, hopen] at hclosed
      exact absurd hclosed Bool.noConfusion
    · exact hgiven ▸ hx.fallen.given
  refine (hread.mono (fun _ => id) (fun _ _ => id) ?_).bind fun data => ?_
  · rintro e _ ⟨c, ⟨hraised, htaken, hgiven⟩, rfl⟩
    exact fails_of_foreign hraised.foreign (hfell c htaken hgiven)
  · refine ensures_get_bind ?_
    rintro _ ⟨c, ⟨hfits, htaken, hgiven, hshut, hclosed, hcount⟩, rfl⟩
    let took : TCPSpongeSocket (Recorded α) :=
      { w with threadData := c, tcp := (w.tcp.write data).2 }
    have hserving : (w.tcp.write data).1 = data.length → Permitted y took → Serving y took := by
      intro hall hperm
      have hbefore : Permitted y w := hperm.before (List.prefix_refl _) ⟨data, htaken.symm⟩
      exact (h.serving hbefore).write hall htaken hgiven hshut hperm.short
    refine (ensures_set (R := fun _ w' => w' = took) fun _ _ => rfl).bind fun _ => ?_
    dsimp only
    split
    · rename_i hless
      refine ensures_throw ?_
      rintro _ rfl
      have hunsent : Permitted y took → w.tcp.synSent = false ∧ (w.tcp.write data).2 = w.tcp := by
        intro hperm
        have hbefore : Permitted y w := hperm.before (List.prefix_refl _) ⟨data, htaken.symm⟩
        exact ((h.serving hbefore).amount hopen hfits).resolve_left hless
      refine ⟨by simp [acceptedLess], by simp [acceptedLess, busyWait], ?_, ?_⟩
      · intro hperm _
        obtain ⟨hsent, hsame⟩ := hunsent hperm
        change (w.tcp.write data).2.synSent = false
        rw [hsame]
        exact hsent
      · intro hperm
        have htook : took = { w with threadData := c } := by
          simp only [took, (hunsent hperm).2]
        rw [htook] at hperm ⊢
        exact hfell c ⟨data, htaken.symm⟩ hgiven hperm
    · rename_i hall
      split
      · refine ensures_modify ?_
        rintro _ rfl
        refine ⟨⟨h.among, h.writing, hclosed.trans h.thread_open, h.adapter_open, fun _ => rfl,
          fun hperm => ?_⟩, hcount.trans_ne (Channel.count_ne _)⟩
        have hbefore : Permitted y took := hperm.before (List.prefix_refl _) (List.prefix_refl _)
        exact (hserving (not_not.mp hall) hbefore).endOutbound
      · rename_i hgoing
        refine ensures_pure ?_
        rintro _ rfl
        exact ⟨⟨h.among, h.writing, hclosed.trans h.thread_open, h.adapter_open,
          fun heof => absurd heof hgoing, hserving (not_not.mp hall)⟩,
          hcount.trans_ne (Channel.count_ne _)⟩

/-- Rule 3. It counts one write, and one more for a shutdown. -/
theorem Running.writeOwner (h : Running adapter H y live w)
    (hup : Permitted y w → w.tcp.inboundStream.error = false → w.inboundShutdown = false) :
    Ensures (fun w' => w' = w) writeOwner
      (fun _ w' => Running adapter H y live w' ∧
        w'.threadData.wrapper.writeCount ≠ w.threadData.wrapper.writeCount) (Fails y) := by
  refine ensures_get_bind ?_
  rintro w rfl
  dsimp only
  have hwrite := zoom_ensures (l := threadLens) (s := w) (Channel.write_ensures w.threadData
    (w.tcp.inboundStream.peekOutput (min 65536 w.tcp.inboundStream.bufferSize)))
  refine (hwrite.mono (fun _ => id) (fun _ _ => id) ?_).bind fun n => ?_
  · rintro e _ ⟨c, ⟨hraised, htaken, hgiven⟩, rfl⟩
    refine fails_of_foreign hraised.foreign fun hperm => ?_
    have hbefore : Permitted y w := hperm.before (w := w) (List.prefix_refl _)
      (htaken ▸ List.prefix_refl _)
    obtain ⟨x, hx, hsound, -⟩ := h.serving hbefore
    refine ⟨x, ⟨hx.fallen.sent, ?_, ?_, hgiven.trans ?_⟩, hsound⟩
    · exact htaken ▸ hx.fallen.accepted
    · exact htaken ▸ hx.fallen.closed
    · have hvalid := hsound.linked.joined.hears.assembles.rep.output_valid
      have hsame : x.conn.inboundStream = w.tcp.inboundStream := by
        rw [hx.conn_eq]
        rfl
      rw [show x.conn.receiver.reassembler.output = w.tcp.inboundStream from hsame] at hvalid
      rw [Endpoint.assembled, hx.consumed_eq, hsame, hvalid.peek_eq_take]
      exact (List.prefix_append_right_inj _).mpr (List.take_prefix _ _)
  · refine ensures_of_start ?_
    rintro _ ⟨c, ⟨hn, hgiven, htaken, hshut, heof, hclosed, hcount⟩, rfl⟩
    let popped : TCPSpongeSocket (Recorded α) := { w with
      threadData := c, tcp := w.tcp.setInbound (w.tcp.inboundStream.popOutput n) }
    have hbefore : Permitted y popped → Permitted y w := fun hperm =>
      hperm.before (w := w) (List.prefix_refl _) (htaken ▸ List.prefix_refl _)
    have hserving : Permitted y popped → Serving y popped := fun hperm =>
      (h.serving (hbefore hperm)).pop hn hgiven htaken hshut
    refine (ensures_modify (R := fun _ w' => w' = popped) fun _ hs => hs ▸ rfl).bind fun _ => ?_
    refine ensures_get_bind ?_
    rintro _ rfl
    split
    · rename_i hend
      rw [Bool.or_eq_true] at hend
      have hdown := zoom_ensures (l := threadLens) (s := popped) (Channel.shutdown_ensures c)
      refine (hdown.mono (fun _ => id) (fun _ _ => id) ?_).bind fun _ => ?_
      · rintro e _ ⟨_, ⟨hraised, rfl⟩, rfl⟩
        refine fails_of_foreign hraised.foreign fun hperm => ?_
        obtain ⟨x, hx, hsound, -⟩ := hserving hperm
        exact ⟨x, hx.fallen, hsound⟩
      · refine ensures_modify ?_
        rintro _ ⟨_, ⟨controls, rfl⟩, rfl⟩
        refine ⟨⟨h.among, h.writing, hclosed.trans h.thread_open, h.adapter_open,
          fun hend => h.eof_shut (heof ▸ hend), fun hperm => ?_⟩, ?_⟩
        · have hpopped : Permitted y popped :=
            hperm.before (List.prefix_refl _) (List.prefix_refl _)
          exact (hserving hpopped).shutdown hend (hup (hbefore hpopped)) rfl rfl rfl
        · change c.wrapper.writeCount + 1 ≠ _
          rw [hcount]
          exact Channel.count_twice_ne _
    · refine ensures_pure ?_
      rintro _ rfl
      exact ⟨⟨h.among, h.writing, hclosed.trans h.thread_open, h.adapter_open,
        fun hend => h.eof_shut (heof ▸ hend), hserving⟩, hcount.trans_ne (Channel.count_ne _)⟩

/-- The loop of rule 4. -/
theorem sendQueue_ensures (hlaw : adapter.Lawful) (queue : List TCPSegment)
    (w : TCPSpongeSocket (Recorded α)) (hqueue : w.tcp.segmentsOut = queue) :
    Ensures (fun w' => w' = w) (sendQueue adapter.recorded queue)
      (fun _ w' => ∃ r,
        (adapter.fd r.inner).closed = (adapter.fd w.datagramAdapter.inner).closed ∧
        r.heard = w.datagramAdapter.heard ∧ r.sent = w.datagramAdapter.sent ++ queue ∧
        w' = { w with datagramAdapter := r, tcp := { w.tcp with segmentsOut := [] } })
      (fun e w' => e.Foreign ∧ ∃ r rest, r.heard = w.datagramAdapter.heard ∧
        (∀ seg ∈ r.sent, seg ∈ w.datagramAdapter.sent ++ queue) ∧
        w' = { w with datagramAdapter := r, tcp := { w.tcp with segmentsOut := rest } }) := by
  induction queue generalizing w with
  | nil =>
    refine ensures_pure ?_
    rintro w rfl
    refine ⟨w.datagramAdapter, rfl, rfl, (List.append_nil _).symm, ?_⟩
    rw [← hqueue]
  | cons seg queue ih =>
    have hwrite := zoom_ensures (l := adapterLens) (s := w)
      (recorded_write hlaw w.datagramAdapter seg)
    refine (hwrite.mono (fun _ => id) (fun _ _ => id) ?_).bind fun _ => ?_
    · rintro e _ ⟨r, ⟨hforeign, hheard, hsent⟩, rfl⟩
      refine ⟨hforeign, r, w.tcp.segmentsOut, hheard, fun s hs => ?_, rfl⟩
      rw [hsent] at hs
      rw [List.append_cons]
      exact List.mem_append_left _ hs
    · refine ensures_of_start ?_
      rintro _ ⟨r, ⟨hclosed, hheard, hsent⟩, rfl⟩
      let popped : TCPSpongeSocket (Recorded α) := { w with
        datagramAdapter := r, tcp := { w.tcp with segmentsOut := w.tcp.segmentsOut.tail } }
      refine (ensures_modify (R := fun _ w' => w' = popped) fun _ hs => hs ▸ rfl).bind fun _ => ?_
      have hrest : popped.tcp.segmentsOut = queue := congrArg List.tail hqueue
      refine (ih popped hrest).mono (fun _ => id) ?_ ?_
      · rintro _ _ ⟨r', hclosed', hheard', hsent', rfl⟩
        refine ⟨r', hclosed'.trans hclosed, hheard'.trans hheard, ?_, rfl⟩
        rw [hsent', show popped.datagramAdapter.sent = _ from hsent, List.append_assoc]
        rfl
      · rintro e _ ⟨hforeign, r', rest, hheard', hsent', rfl⟩
        refine ⟨hforeign, r', rest, hheard'.trans hheard, fun s hs => ?_, rfl⟩
        have hmem := hsent' s hs
        rw [show popped.datagramAdapter.sent = _ from hsent] at hmem
        rwa [List.append_cons]

/-- Rule 4. The queue is empty after it, so that there is no more interest. -/
theorem Running.sendDatagrams (hlaw : adapter.Lawful) (h : Running adapter H y live w) :
    Ensures (fun w' => w' = w) (sendDatagrams adapter.recorded)
      (fun _ w' => Running adapter H y live w' ∧ w'.tcp.segmentsOut = []) (Fails y) := by
  refine ensures_get_bind ?_
  rintro w rfl
  refine (sendQueue_ensures hlaw _ w rfl).mono (fun _ => id) ?_ ?_
  · rintro _ _ ⟨r, hclosed, hheard, hsent, rfl⟩
    refine ⟨⟨h.among, h.writing, h.thread_open, hclosed.trans h.adapter_open, h.eof_shut,
      fun hperm => ?_⟩, rfl⟩
    have hbefore : Permitted y w := hperm.before (w := w) (hheard ▸ List.prefix_refl _)
      (List.prefix_refl _)
    exact (h.serving hbefore).sent hsent
  · rintro e _ ⟨hforeign, r, rest, hheard, hsent, rfl⟩
    refine fails_of_foreign hforeign fun hperm => ?_
    have hbefore : Permitted y w := hperm.before (w := w) (hheard ▸ List.prefix_refl _)
      (List.prefix_refl _)
    obtain ⟨x, hx, hsound, -⟩ := h.serving hbefore
    refine ⟨x, ⟨fun seg hseg => ?_, hx.fallen.accepted, hx.fallen.closed, hx.fallen.given⟩, hsound⟩
    rw [hx.conn_eq]
    exact hsent seg hseg

/-- The invariant does not depend on a rule whose cancellation is allowed. -/
theorem Running.erased {before after : List Label} {i : Label}
    (h : Running adapter H y (before ++ i :: after) w)
    (hallowed : H ∨ (table adapter.recorded i).finished w = true) :
    Running adapter H y (before ++ after) w := by
  refine ⟨((List.sublist_cons_self i after).append_left before).trans h.among, fun hnohup => ?_,
    h.thread_open, h.adapter_open, h.eof_shut, h.serving⟩
  have hfinished := hallowed.resolve_left hnohup
  have hwriting := h.writing hnohup
  simp only [List.mem_append, List.mem_cons] at hwriting ⊢
  cases i with
  | receiveDatagram | readOwner => simpa using hwriting
  | writeOwner => simp [Rule.finished, table, h.thread_open] at hfinished
  | sendDatagrams => simp [Rule.finished, table, Adapter.recorded, h.adapter_open] at hfinished

theorem Running.endOutbound (h : Running adapter H y live w) :
    Running adapter H y live
      { w with tcp := w.tcp.endInputStream, outboundShutdown := true } where
  among := h.among
  writing := h.writing
  thread_open := h.thread_open
  adapter_open := h.adapter_open
  eof_shut _ := rfl
  serving hperm :=
    (h.serving (hperm.before (w := w) (List.prefix_refl _) (List.prefix_refl _))).endOutbound

theorem Running.cancel {before after : List Label} {i : Label}
    (h : Running adapter H y (before ++ i :: after) w)
    (hallowed : H ∨ (table adapter.recorded i).finished w = true) :
    Ensures (fun w' => w' = w) (table adapter.recorded i).cancel
      (fun _ => Running adapter H y (before ++ after)) (Fails y) := by
  have herased := h.erased hallowed
  cases i with
  | readOwner => exact ensures_modify fun _ hw => hw ▸ herased.endOutbound
  | receiveDatagram | writeOwner | sendDatagrams => exact ensures_pure fun _ hw => hw ▸ herased

theorem Running.noted (h : Running adapter H y live w) (i : Label) :
    Asks y i ((table adapter.recorded i).interest w) w := by
  cases i with
  | receiveDatagram => exact id
  | readOwner =>
    intro hb
    simp only [table, Bool.and_eq_true, Bool.not_eq_true'] at hb
    exact hb.1.2
  | writeOwner =>
    simp only [Asks, table]
    refine ⟨fun hb hperm hclear => ?_, fun hb => ?_⟩
    · by_contra hdown
      rw [Bool.not_eq_false] at hdown
      obtain ⟨x, -, -, htidy⟩ := h.serving hperm
      have hempty := (Bool.and_eq_true_iff.mp (htidy.down hdown hclear)).2
      simp [hempty, hdown] at hb
    · simp only [Bool.or_eq_false_iff, Bool.not_eq_false', Bool.and_eq_false_iff] at hb
      refine ⟨hb.1, fun hend => ?_⟩
      rcases hb.2 with ⟨heof, herror⟩ | hdown
      · simp [heof, herror] at hend
      · exact hdown
  | sendDatagrams =>
    intro hb
    simpa [table] using hb

theorem endInputStream_inactive {c : TCPConnection} (h : c.active = false) :
    c.endInputStream.active = false := by
  unfold TCPConnection.endInputStream TCPConnection.tryClosingConnection
  dsimp only
  rw [if_neg (by simp [h])]
  exact h

/-- What the rules before rule 3 leave to it. -/
structure Frame (w w' : TCPSpongeSocket (Recorded α)) : Prop where
  heard : w.datagramAdapter.heard <+: w'.datagramAdapter.heard
  taken : w.threadData.taken <+: w'.threadData.taken
  error : w.tcp.inboundStream.error = true → w'.tcp.inboundStream.error = true
  down : w'.inboundShutdown = w.inboundShutdown

theorem Frame.asks (h : Frame w w') (hasks : Asks y .writeOwner true w) :
    Asks y .writeOwner true w' := by
  refine ⟨fun _ hperm hclear => ?_, fun hb => absurd hb Bool.noConfusion⟩
  rw [h.down]
  refine hasks.1 rfl (hperm.before h.heard h.taken) ?_
  by_contra herror
  rw [Bool.not_eq_false] at herror
  exact absurd (hclear.symm.trans (h.error herror)) Bool.noConfusion

theorem endOutbound_frame (w : TCPSpongeSocket (Recorded α)) :
    Frame w { w with tcp := w.tcp.endInputStream, outboundShutdown := true } where
  heard := List.prefix_refl _
  taken := List.prefix_refl _
  error h := by
    change (TCPConnection.tryClosingConnection _).inboundStream.error = true
    rw [TCPConnection.tryClosing_inboundStream]
    exact h
  down := rfl

theorem receiveDatagram_frame (hlaw : adapter.Lawful) (w : TCPSpongeSocket (Recorded α)) :
    Ensures (fun w' => w' = w) (TCPSpongeSocket.receiveDatagram adapter.recorded)
      (fun _ w' => Frame w w' ∧ w'.outboundShutdown = w.outboundShutdown) (fun _ _ => True) := by
  refine ((zoom_ensures (l := adapterLens) (s := w)
    (recorded_read hlaw w.datagramAdapter)).mono (fun _ => id) (fun _ _ => id)
    (fun _ _ _ => trivial)).bind fun seg => ensures_modify ?_
  rintro _ ⟨r, ⟨-, -, hheard, -⟩, rfl⟩
  refine ⟨⟨⟨_, hheard.symm⟩, List.prefix_refl _, fun herror => ?_, rfl⟩, rfl⟩
  cases seg with
  | none => exact herror
  | some seg => exact TCPConnection.segmentReceived_keeps_error herror seg

theorem readOwner_frame (w : TCPSpongeSocket (Recorded α)) :
    Ensures (fun w' => w' = w) TCPSpongeSocket.readOwner (fun _ w' => Frame w w')
      (fun _ _ => True) := by
  refine ensures_get_bind ?_
  rintro w rfl
  have hread := zoom_ensures (l := threadLens) (s := w)
    (Channel.read_ensures w.threadData w.tcp.remainingOutboundCapacity)
  refine (hread.mono (fun _ => id) (fun _ _ => id) (fun _ _ _ => trivial)).bind fun data => ?_
  refine ensures_get_bind ?_
  rintro _ ⟨c, ⟨-, htook⟩, rfl⟩
  let took : TCPSpongeSocket (Recorded α) := { w with threadData := c, tcp := (w.tcp.write data).2 }
  have hframe : Frame w took := by
    refine ⟨List.prefix_refl _, ⟨data, htook.taken.symm⟩, fun herror => ?_, rfl⟩
    change (w.tcp.write data).2.inboundStream.error = true
    rw [TCPConnection.write_inboundStream]
    exact herror
  refine (ensures_set (R := fun _ w' => w' = took) fun _ _ => rfl).bind fun _ => ?_
  dsimp only
  split
  · exact ensures_throw fun _ _ => trivial
  · split
    · refine ensures_modify ?_
      rintro _ rfl
      have hend := endOutbound_frame took
      exact ⟨hframe.heard, hframe.taken, fun herror => hend.error (hframe.error herror), rfl⟩
    · exact ensures_pure fun _ hw => hw ▸ hframe

end Callbacks

/-- The rules of the thread keep the invariant. -/
theorem table_cooperative {adapter : Adapter α} (hlaw : adapter.Lawful) (H : Prop) (y : Endpoint) :
    Cooperative (table adapter.recorded) H (Running adapter H y) (Asks y) (Fails y) where
  noted _ i _ _ h _ := h.noted i
  callback live i _ n := by
    refine ensures_of_start ?_
    rintro w ⟨h, hasks, rfl⟩
    cases i with
    | receiveDatagram => exact (h.receiveDatagram hlaw).post fun _ _ hw => ⟨hw.1, Or.inl hw.2⟩
    | readOwner => exact (h.readOwner (hasks rfl)).post fun _ _ hw => ⟨hw.1, Or.inl hw.2⟩
    | writeOwner => exact (h.writeOwner (hasks.1 rfl)).post fun _ _ hw => ⟨hw.1, Or.inl hw.2⟩
    | sendDatagrams =>
      refine (h.sendDatagrams hlaw).post fun _ w hw => ⟨hw.1, Or.inr (Or.inl ?_)⟩
      simp [table, hw.2]
  cancel_finished before i after := ensures_of_start fun w h => h.1.cancel (Or.inr h.2)
  cancel_defunct hup before i after := ensures_of_start fun w h => h.cancel (Or.inl hup)
  finished_apart live i j horder b := by
    refine ensures_of_start ?_
    rintro w ⟨h, hasks⟩
    have hrules := horder.trans h.among
    cases j with
    | readOwner =>
      cases i with
      | receiveDatagram =>
        exact ensures_modify fun _ hw hb => hw ▸ endInputStream_inactive (hasks hb)
      | readOwner | writeOwner | sendDatagrams => exact absurd hrules (by decide)
    | receiveDatagram | writeOwner | sendDatagrams => exact ensures_pure fun _ hw => hw ▸ hasks
  defunct_apart live i j horder := by
    refine ensures_of_start ?_
    rintro w ⟨h, hasks⟩
    have hrules := horder.trans h.among
    cases j with
    | readOwner =>
      cases i with
      | writeOwner => exact ensures_modify fun _ hw => hw ▸ (endOutbound_frame w).asks hasks
      | sendDatagrams => exact ensures_modify fun _ _ hb => absurd hb Bool.noConfusion
      | receiveDatagram | readOwner => exact absurd hrules (by decide)
    | receiveDatagram | writeOwner | sendDatagrams => exact ensures_pure fun _ hw => hw ▸ hasks
  callback_apart live i j horder := by
    refine ensures_of_start ?_
    rintro w ⟨h, hasks⟩
    have hrules := horder.trans h.among
    cases i with
    | receiveDatagram => exact absurd hrules (by cases j <;> decide)
    | readOwner =>
      cases j with
      | receiveDatagram =>
        exact (receiveDatagram_frame hlaw w).post fun _ _ hw hb => hw.2.trans (hasks hb)
      | readOwner | writeOwner | sendDatagrams => exact absurd hrules (by decide)
    | writeOwner =>
      cases j with
      | receiveDatagram => exact (receiveDatagram_frame hlaw w).post fun _ _ hw => hw.1.asks hasks
      | readOwner => exact (readOwner_frame w).post fun _ _ hw => hw.asks hasks
      | writeOwner | sendDatagrams => exact absurd hrules (by decide)
    | sendDatagrams =>
      exact (ensures_true _).post fun _ _ _ hb => absurd hb Bool.noConfusion
  poll live w h := by
    refine ⟨by simp [pollError], by simp [pollError, busyWait],
      fun _ heq => absurd heq (by simp [pollError, acceptedLess]), fun hperm => ?_⟩
    obtain ⟨x, hx, hsound, -⟩ := h.serving hperm
    exact ⟨x, hx.fallen, hsound⟩

section Turns

variable {adapter : Adapter α} {H : Prop} {y : Endpoint}

theorem Running.tick {live : List Label} {w : TCPSpongeSocket (Recorded α)}
    (hlaw : adapter.Lawful) (h : Running adapter H y live w) (ms : ℕ) :
    Ensures (fun w' => w' = { w with tcp := w.tcp.tick ms })
      (zoom adapterLens (adapter.recorded.tick ms))
      (fun _ => Running adapter H y live) (Fails y) := by
  let ticked : TCPSpongeSocket (Recorded α) := { w with tcp := w.tcp.tick ms }
  have hserving : ∀ r : Recorded α, r.heard = w.datagramAdapter.heard →
      r.sent = w.datagramAdapter.sent → Permitted y { ticked with datagramAdapter := r } →
      Serving y { ticked with datagramAdapter := r } := by
    intro r hheard hsent hperm
    have hbefore : Permitted y w := hperm.before (w := w) (hheard ▸ List.prefix_refl _)
      (List.prefix_refl _)
    exact ((h.serving hbefore).tick ms).of_adapter hsent
  refine (zoom_ensures (l := adapterLens) (s := ticked)
    (recorded_tick hlaw w.datagramAdapter ms)).mono (fun _ => id) ?_ ?_
  · rintro _ _ ⟨r, ⟨hclosed, hheard, hsent⟩, rfl⟩
    exact ⟨h.among, h.writing, h.thread_open, hclosed.trans h.adapter_open, h.eof_shut,
      hserving r hheard hsent⟩
  · rintro e _ ⟨r, ⟨hforeign, hheard, hsent⟩, rfl⟩
    refine fails_of_foreign hforeign fun hperm => ?_
    obtain ⟨x, hx, hsound, -⟩ := hserving r hheard hsent hperm
    exact ⟨x, hx.fallen, hsound⟩

/-- One turn of the loop. It is left for want of interest only when nothing is left to be done. -/
theorem turn_ensures (hlaw : adapter.Lawful) (t : Turn) (hhup : t.answer.HangsUp → H)
    (live : List Label) :
    Ensures (Running adapter H y live) (turn adapter.recorded t live)
      (fun p w => Running adapter H y p.2 w ∧ (p.1 = true →
        t.abort = true ∨ t.answer = .interrupted ∨ ∀ i ∈ p.2, Asks y i false w)) (Fails y) := by
  refine (waitNextEvent_ensures (table_cooperative hlaw H y) hhup live).bind ?_
  rintro ⟨ret, left⟩
  refine ensures_of_start ?_
  rintro w ⟨h, -, hexit⟩
  dsimp only at h hexit ⊢
  split
  · rename_i hstop
    refine ensures_pure ?_
    rintro _ rfl
    refine ⟨h, fun _ => ?_⟩
    rw [Bool.or_eq_true, decide_eq_true_eq] at hstop
    exact hstop.symm.imp_right hexit
  · refine ensures_get_bind ?_
    rintro w rfl
    have hdone : ∀ (P : TCPSpongeSocket (Recorded α) → Prop),
        (∀ w', P w' → Running adapter H y left w') → Ensures P
          (pure (false, left) : EStateM Failure (TCPSpongeSocket (Recorded α)) (Bool × List Label))
          (fun p w => Running adapter H y p.2 w ∧ (p.1 = true →
            t.abort = true ∨ t.answer = .interrupted ∨ ∀ i ∈ p.2, Asks y i false w)) (Fails y) :=
      fun P hP => ensures_pure fun w' hw' => ⟨hP w' hw', fun hb => absurd hb Bool.noConfusion⟩
    split
    · refine (ensures_modify (R := fun _ w' => w' = { w with tcp := w.tcp.tick t.ms })
        fun _ hs => hs ▸ rfl).bind fun _ => ?_
      exact (h.tick hlaw t.ms).bind fun _ => hdone _ fun _ => id
    · exact hdone _ fun _ hw => hw ▸ h

end Turns

end TCPSpongeSocket

end Sponge
