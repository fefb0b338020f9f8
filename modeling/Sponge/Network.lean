import Sponge.LinkCalls

/-!
Two endpoints and the network between them.
The network delivers any segment an endpoint has emitted, any number of times and in
any order, or never; it alters none. Next to each endpoint stand the records of its
owner: the bytes `write` accepted, the bytes read, and whether the outbound stream was
ended. Runs are bounded only by the number of bytes accepted on each side.
-/
namespace Sponge

structure Endpoint where
  conn : TCPConnection
  accepted : List UInt8
  consumed : List UInt8
  closed : Bool

inductive EndpointOp where
  | connect
  | write (data : List UInt8)
  | endInputStream
  | tick (ms : ℕ)
  | deliver (seg : TCPSegment)
  | read (len : ℕ)
  | pop (len : ℕ)

namespace TCPConnection

/-- The reader's side of `inbound_stream()`. -/
def setInbound (c : TCPConnection) (stream : ByteStream) : TCPConnection :=
  { c with receiver := c.receiver.setOutput stream }

end TCPConnection

namespace Endpoint

def new (cfg : TCPConfig) (random : WrappingInt32) : Endpoint :=
  ⟨TCPConnection.new cfg random, [], [], false⟩

def step (x : Endpoint) : EndpointOp → Endpoint
  | .connect => { x with conn := x.conn.connect }
  | .write data =>
    { x with
      conn := (x.conn.write data).2
      accepted := x.accepted ++ data.take (x.conn.write data).1 }
  | .endInputStream => { x with conn := x.conn.endInputStream, closed := true }
  | .tick ms => { x with conn := x.conn.tick ms }
  | .deliver seg => { x with conn := x.conn.segmentReceived seg }
  | .read len =>
    { x with
      conn := x.conn.setInbound (x.conn.inboundStream.read len).2
      consumed := x.consumed ++ (x.conn.inboundStream.read len).1 }
  | .pop len =>
    { x with
      conn := x.conn.setInbound (x.conn.inboundStream.popOutput len)
      consumed := x.consumed ++ x.conn.inboundStream.peekOutput len }

/-- All bytes assembled so far: already read, and buffered. -/
def assembled (x : Endpoint) : List UInt8 := x.consumed ++ x.conn.inboundStream.buffered

/-- Segments come from the peer y; fewer than 2^31 - 2 bytes are accepted. -/
def Enabled (x y : Endpoint) : EndpointOp → Prop
  | .write data => (x.step (.write data)).accepted.length < 2 ^ 31 - 2
  | .deliver seg => seg ∈ y.conn.segmentsOut
  | .pop len => len ≤ x.conn.inboundStream.bufferSize
  | _ => True

instance (x y : Endpoint) (op : EndpointOp) : Decidable (x.Enabled y op) := by
  cases op <;> unfold Enabled <;> infer_instance

end Endpoint

structure Network where
  a : Endpoint
  b : Endpoint

inductive NetworkOp where
  | atA (op : EndpointOp)
  | atB (op : EndpointOp)

namespace Network

open Runs

def new (cfgA cfgB : TCPConfig) (randomA randomB : WrappingInt32) : Network :=
  ⟨Endpoint.new cfgA randomA, Endpoint.new cfgB randomB⟩

/-- Two endpoints whose calls are guarded by this condition. -/
def guarded (G : Endpoint → Endpoint → EndpointOp → Prop) : Machine Network NetworkOp where
  enabled
    | n, .atA op => G n.a n.b op
    | n, .atB op => G n.b n.a op
  step
    | n, .atA op => { n with a := n.a.step op }
    | n, .atB op => { n with b := n.b.step op }

def machine : Machine Network NetworkOp := guarded Endpoint.Enabled

instance (n : Network) (op : NetworkOp) : Decidable (machine.enabled n op) := by
  cases op with
  | atA op => exact inferInstanceAs (Decidable (n.a.Enabled n.b op))
  | atB op => exact inferInstanceAs (Decidable (n.b.Enabled n.a op))

/-- A relation that the steps of either endpoint keep holds along every run. -/
theorem keeps {G : Endpoint → Endpoint → EndpointOp → Prop} {P : Endpoint → Endpoint → Prop}
    (hfirst : ∀ x y op, P x y → G x y op → P (x.step op) y)
    (hsecond : ∀ x y op, P x y → G y x op → P x (y.step op))
    {n : Network} (h : P n.a n.b) {ops : List NetworkOp} (hv : (guarded G).Valid n ops) :
    P ((guarded G).exec n ops).a ((guarded G).exec n ops).b := by
  refine (guarded G).invariant (P := fun n => P n.a n.b) ?_ h hv
  intro n op h hop
  cases op with
  | atA op => exact hfirst _ _ op h hop
  | atB op => exact hsecond _ _ op h hop

end Network

namespace Link

open Words Runs Assembly SenderQueue SenderBooks SenderOutput ConnectionCalls TCPConnection

/-- The link to a fixed peer, seen by an endpoint whose owner has read n bytes and may
have ended the outbound stream. -/
structure Upholds (T : List UInt8) (d : TCPConnection) (n : ℕ) (closed : Bool)
    (S : List UInt8) (c : TCPConnection) : Prop where
  linked : Linked S c T d
  bytesRead_eq : c.inboundStream.bytesRead = n
  ended : c.sender.stream.inputEnded = true → closed = true

theorem upholds_stable (T : List UInt8) (d : TCPConnection) (n : ℕ) (closed : Bool) :
    Stable (Upholds T d n closed) := by
  have hstable := linked_stable T d
  have hfilled : ∀ {S c}, Upholds T d n closed S c →
      c.sender.fillWindow.stream.inputEnded = true → closed = true := by
    intro S c h hend
    obtain ⟨-, ⟨fresh, hfilled⟩, -⟩ := h.linked.joined.speaks.output.ordered.fillWindow
    exact h.ended (hfilled.ended_eq ▸ hend)
  refine ⟨fun S c h => hstable.retx S c h.linked, ?_, ?_, ?_, ?_, ?_, ?_, ?_, ?_, ?_⟩
  · intro S c h
    exact ⟨hstable.fill S c h.linked, h.bytesRead_eq, hfilled h⟩
  · intro S c data h hopen
    have hwrite : Upholds T d n closed (S ++ data.take (c.sender.stream.write data).1)
        (c.callSender (.write data)) :=
      ⟨h.linked.call (.write data) ⟨hopen, by simp⟩ rfl, h.bytesRead_eq, h.ended⟩
    exact ⟨hstable.fill _ _ hwrite.linked, h.bytesRead_eq, hfilled hwrite⟩
  · intro S c ms h
    refine ⟨hstable.count S c ms h.linked, h.bytesRead_eq, ?_⟩
    change (c.sender.tick ms).stream.inputEnded = true → _
    rw [(tick_cases c.sender ms).1.stream_eq]
    exact h.ended
  · intro S c h hsent
    exact ⟨hstable.empty S c h.linked hsent, h.bytesRead_eq, h.ended⟩
  · intro S c rst h
    refine ⟨hstable.emit S c rst h.linked, ?_, ?_⟩
    · simpa [inboundStream] using h.bytesRead_eq
    · simpa using h.ended
  · intro S c h
    exact ⟨hstable.reset S c h.linked, h.bytesRead_eq, h.ended⟩
  · intro S c h
    refine ⟨hstable.switch S c h.linked, ?_, ?_⟩
    · simpa [inboundStream] using h.bytesRead_eq
    · simpa using h.ended
  · intro S c h hin hout
    exact ⟨hstable.close S c h.linked hin hout, h.bytesRead_eq, h.ended⟩
  · intro S c t h
    exact ⟨hstable.timer S c t h.linked, h.bytesRead_eq, h.ended⟩

/-- The invariant of a run, seen from the endpoint x. -/
structure Sound (x y : Endpoint) : Prop where
  linked : Linked x.accepted x.conn y.accepted y.conn
  short : Short x.accepted
  peerShort : Short y.accepted
  taken : x.consumed = y.accepted.take x.conn.inboundStream.bytesRead
  peerTaken : y.consumed = x.accepted.take y.conn.inboundStream.bytesRead
  ended : x.conn.sender.stream.inputEnded = true → x.closed = true
  peerEnded : y.conn.sender.stream.inputEnded = true → y.closed = true

theorem Sound.symm {x y : Endpoint} (h : Sound x y) : Sound y x :=
  ⟨h.linked.symm, h.peerShort, h.short, h.peerTaken, h.taken, h.peerEnded, h.ended⟩

theorem new_sound (cfgA cfgB : TCPConfig) (randomA randomB : WrappingInt32) :
    Sound (Endpoint.new cfgA randomA) (Endpoint.new cfgB randomB) where
  linked := new_linked cfgA cfgB randomA randomB
  short := by simp [Endpoint.new]
  peerShort := by simp [Endpoint.new]
  taken := rfl
  peerTaken := rfl
  ended h := by simp [Endpoint.new, new, TCPSender.new, ByteStream.new, ByteStream.inputEnded] at h
  peerEnded h := by
    simp [Endpoint.new, new, TCPSender.new, ByteStream.new, ByteStream.inputEnded] at h

section Step

variable {x y : Endpoint}

theorem Sound.upholds (h : Sound x y) : Upholds y.accepted y.conn x.conn.inboundStream.bytesRead
    x.closed x.accepted x.conn := ⟨h.linked, rfl, h.ended⟩

/-- A call that reads and writes nothing. -/
theorem Sound.of_upholds (h : Sound x y) {c : TCPConnection} {closed : Bool}
    (hc : Upholds y.accepted y.conn x.conn.inboundStream.bytesRead closed x.accepted c) :
    Sound { x with conn := c, closed := closed } y where
  linked := hc.linked
  short := h.short
  peerShort := h.peerShort
  taken := by
    rw [hc.bytesRead_eq]
    exact h.taken
  peerTaken := h.peerTaken
  ended := hc.ended
  peerEnded := h.peerEnded

theorem Sound.write (h : Sound x y) (data : List UInt8) (hop : x.Enabled y (.write data)) :
    Sound (x.step (.write data)) y := by
  have hc := (upholds_stable _ _ _ _).write h.upholds data
  have hread : y.conn.inboundStream.bytesRead ≤ x.accepted.length := by
    have hheard := h.linked.joined.heard.assembles
    exact Nat.le_trans (hheard.rep.bytesRead_le) hheard.content.first_le
  refine ⟨hc.linked, hop, h.peerShort, ?_, ?_, hc.ended, h.peerEnded⟩
  · change x.consumed = y.accepted.take (x.conn.write data).2.inboundStream.bytesRead
    rw [hc.bytesRead_eq]
    exact h.taken
  · change y.consumed = (x.accepted ++ _).take _
    rw [List.take_append_of_le_length hread]
    exact h.peerTaken

theorem Sound.deliver (h : Sound x y) {seg : TCPSegment} (hop : x.Enabled y (.deliver seg)) :
    Sound (x.step (.deliver seg)) y := by
  apply h.of_upholds
  apply (upholds_stable _ _ _ _).segmentReceived
  have hlinked := h.linked.takeIn h.short h.peerShort hop
  obtain ⟨-, htook⟩ := h.linked.joined.receive h.peerShort hop
  refine ⟨hlinked, ?_, ?_⟩
  · exact takeIn_rule (P := fun c => c.inboundStream.bytesRead = x.conn.inboundStream.bytesRead)
      htook.bytesRead_eq (fun _ hc => hc) (fun c hc => by rwa [callSender_inboundStream])
  · have hord := h.linked.joined.speaks.output.ordered
    refine (takeIn_rule (P := fun c => Ordered c.sender ∧
      (c.sender.stream.inputEnded = true → x.closed = true)) ⟨hord, h.ended⟩ ?_ ?_).2
    · exact fun c hc => ⟨hc.1.setStream hc.1.sane.stream_valid.setError, hc.2⟩
    · intro c hc
      have hsame := hc.1.ackReceived_ended seg.header.ackno seg.header.win
      refine ⟨hc.1.ackReceived _ _, fun hend => hc.2 ?_⟩
      rw [← hsame]
      exact hend

theorem Sound.pop (h : Sound x y) {len : ℕ} (hop : x.Enabled y (.pop len)) :
    Sound (x.step (.pop len)) y := by
  have hlen : len ≤ x.conn.inboundStream.curSize := hop
  have hhears := h.linked.joined.hears
  have hread : (x.conn.inboundStream.popOutput len).bytesRead =
      x.conn.inboundStream.bytesRead + len := by
    change _ + min len _ = _
    rw [Nat.min_eq_left hlen]
    rfl
  refine ⟨⟨⟨h.linked.joined.speaks.setReceiver id, h.linked.joined.peerSpeaks,
    h.linked.joined.heard, hhears.pop hlen, h.linked.joined.confirms⟩, h.linked.confirmed⟩, h.short,
    h.peerShort, ?_, h.peerTaken, h.ended, h.peerEnded⟩
  change x.consumed ++ x.conn.inboundStream.peekOutput len =
    y.accepted.take (x.conn.inboundStream.popOutput len).bytesRead
  rw [hread, h.taken, List.take_add]
  exact congrArg _ (hhears.assembles.peek_eq hlen)

theorem Sound.read (h : Sound x y) (len : ℕ) : Sound (x.step (.read len)) y := by
  have hv : x.conn.inboundStream.Valid := h.linked.joined.hears.assembles.rep.output_valid
  have heq : x.step (.read len) = x.step (.pop (min len x.conn.inboundStream.curSize)) := by
    simp only [Endpoint.step, hv.read_eq]
  rw [heq]
  exact h.pop (Nat.min_le_right len x.conn.inboundStream.curSize)

/-- Whatever one endpoint does, the invariant stays. -/
theorem Sound.step (h : Sound x y) (op : EndpointOp) (hop : x.Enabled y op) :
    Sound (x.step op) y := by
  have hstable := upholds_stable y.accepted y.conn x.conn.inboundStream.bytesRead x.closed
  cases op with
  | connect => exact h.of_upholds (hstable.connect h.upholds)
  | write data => exact h.write data hop
  | endInputStream =>
    apply h.of_upholds
    apply (upholds_stable y.accepted y.conn x.conn.inboundStream.bytesRead true).endInputStream
    exact ⟨h.linked.quietCall .endInput ⟨trivial, by simp⟩ rfl rfl, rfl, fun _ => rfl⟩
  | tick ms => exact h.of_upholds (hstable.tick h.upholds ms)
  | deliver seg => exact h.deliver hop
  | read len => exact h.read len
  | pop len => exact h.pop hop

end Step

theorem sound_of_run (cfgA cfgB : TCPConfig) (randomA randomB : WrappingInt32)
    {ops : List NetworkOp}
    (hv : Network.machine.Valid (Network.new cfgA cfgB randomA randomB) ops) :
    Sound (Network.machine.exec (Network.new cfgA cfgB randomA randomB) ops).a
      (Network.machine.exec (Network.new cfgA cfgB randomA randomB) ops).b := by
  refine Network.keeps ?_ ?_ (new_sound cfgA cfgB randomA randomB) hv
  · exact fun x y op h hop => h.step op hop
  · exact fun x y op h hop => (h.symm.step op hop).symm

end Link

end Sponge
