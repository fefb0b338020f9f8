import Sponge.ConnectionProgress
import Sponge.TCPState

/-!
An endpoint that waits for a SYN.
Segments without a SYN reach the receiver, which drops them, and the sender, which
takes over the window and nothing else: no number is acceptable as an acknowledgment
while nothing was sent. A RST is not dropped. It ends the wait for good.
-/
namespace Sponge.Listening

open SenderQueue TCPConnection

/-- A tick, or a segment without SYN. -/
def Unsynchronized : ConnectionOp → Prop
  | .tick _ => True
  | .segmentReceived seg => seg.header.syn = false
  | _ => False

instance : (op : ConnectionOp) → Decidable (Unsynchronized op)
  | .tick _ => isTrue trivial
  | .segmentReceived seg => inferInstanceAs (Decidable (seg.header.syn = false))
  | .connect | .write _ | .endInputStream | .read _ => isFalse id

def carriesRst : ConnectionOp → Bool
  | .segmentReceived seg => seg.header.rst
  | _ => false

/-- What an observer of a listening endpoint sees. -/
structure StillListening (c : TCPConnection) : Prop where
  state_eq : c.state = TCPState.ofState .listen
  active_eq : c.active = true
  outbound_ok : c.sender.stream.error = false
  inbound_ok : c.inboundStream.error = false
  silent : c.segmentsOut = []

/-- A sender that has sent nothing. Window and timer may have any value. -/
structure Unsent (s : TCPSender) : Prop where
  nextSeqno_eq : s.nextSeqno = 0
  outstanding_nil : s.outstandingSegments = []
  queue_nil : s.segmentsOut = []
  retx_eq : s.nConsecRetransmissions = 0
  stream_open : s.stream.eof = false
  stream_ok : s.stream.error = false

theorem Unsent.ackReceived {s : TCPSender} (h : Unsent s) (ackno : WrappingInt32)
    (win : UInt16) : Unsent (s.ackReceived ackno win) := by
  rcases ackReceived_cases s ackno win with ⟨-, heq⟩ | ⟨ack, -, hlo, hhi, -⟩
  · rw [heq]
    exact ⟨h.nextSeqno_eq, h.outstanding_nil, h.queue_nil, h.retx_eq, h.stream_open, h.stream_ok⟩
  · have hzero := h.nextSeqno_eq
    omega

theorem Unsent.tick {s : TCPSender} (h : Unsent s) (ms : ℕ) : Unsent (s.tick ms) := by
  obtain ⟨hsame, hticked⟩ := tick_cases s ms
  rcases hticked with ⟨-, hqueue, -, hretx⟩ | ⟨oldest, rest, hhead, -, -, -⟩
  · exact ⟨hsame.nextSeqno_eq.trans h.nextSeqno_eq, hsame.outstanding_eq.trans h.outstanding_nil,
      hqueue.trans h.queue_nil, hretx.trans h.retx_eq, hsame.stream_eq ▸ h.stream_open,
      hsame.stream_eq ▸ h.stream_ok⟩
  · rw [h.outstanding_nil] at hhead
    simp at hhead

/-- Nothing has happened to the endpoint. -/
structure Waiting (c : TCPConnection) : Prop where
  sender : Unsent c.sender
  syn_eq : c.receiver.synReceived = false
  inbound_open : c.receiver.streamOut.inputEnded = false
  inbound_ok : c.receiver.streamOut.error = false
  silent : c.segmentsOut = []
  active_eq : c.active = true
  linger_eq : c.lingerAfterStreamsFinish = true

theorem new_waiting (cfg : TCPConfig) (random : WrappingInt32) : Waiting (new cfg random) where
  sender := ⟨rfl, rfl, rfl, rfl, rfl, rfl⟩
  syn_eq := rfl
  inbound_open := rfl
  inbound_ok := rfl
  silent := rfl
  active_eq := rfl
  linger_eq := rfl

section Step

variable {c : TCPConnection}

theorem Waiting.stillListening (h : Waiting c) : StillListening c where
  state_eq := by
    have hsender : TCPState.ofSender c.sender = .closed := by
      simp [TCPState.ofSender, h.sender.stream_ok, TCPSender.nextSeqnoAbsolute,
        h.sender.nextSeqno_eq]
    have hreceiver : TCPState.ofReceiver c.receiver = .listen := by
      simp [TCPState.ofReceiver, h.inbound_ok, TCPReceiver.ackno, h.syn_eq]
    simp [TCPConnection.state, TCPState.ofState, hsender, hreceiver, h.active_eq, h.linger_eq]
  active_eq := h.active_eq
  outbound_ok := h.sender.stream_ok
  inbound_ok := h.inbound_ok
  silent := h.silent

/-- There is nothing to emit. -/
theorem Waiting.sendSegments (h : Waiting c) : Waiting (c.sendSegments false) := by
  rw [sendSegments_of_active h.active_eq]
  refine ⟨?_, h.syn_eq, h.inbound_open, h.inbound_ok, ?_, h.active_eq, h.linger_eq⟩
  · exact ⟨h.sender.nextSeqno_eq, h.sender.outstanding_nil, rfl, h.sender.retx_eq,
      h.sender.stream_open, h.sender.stream_ok⟩
  · simp [h.silent, h.sender.queue_nil]

/-- The inbound stream is open, so there is nothing to close. -/
theorem Waiting.tryClosingConnection (h : Waiting c) : Waiting c.tryClosingConnection := by
  have hsent := h.sendSegments
  have hopen : (c.sendSegments false).istreamDone = false := by
    unfold istreamDone
    rw [hsent.inbound_open, Bool.false_and]
  unfold TCPConnection.tryClosingConnection
  rw [if_pos h.active_eq]
  dsimp only
  rw [if_neg (by simp [hopen])]
  exact hsent

theorem Waiting.tick (h : Waiting c) (ms : ℕ) : Waiting (c.tick ms) := by
  have hcounted : Waiting { c with
      sender := c.sender.tick ms
      lastSegmRecvTimer := Words.wrapAdd 64 c.lastSegmRecvTimer ms } :=
    ⟨h.sender.tick ms, h.syn_eq, h.inbound_open, h.inbound_ok, h.silent, h.active_eq, h.linger_eq⟩
  have hfew : ¬ (c.sender.tick ms).consecutiveRetransmissions > TCPConfig.maxRetxAttempts := by
    simp [TCPSender.consecutiveRetransmissions, (h.sender.tick ms).retx_eq]
  unfold TCPConnection.tick
  rw [if_pos h.active_eq]
  dsimp only
  rw [if_neg hfew]
  exact hcounted.sendSegments.tryClosingConnection

theorem Waiting.takeIn (h : Waiting c) {seg : TCPSegment} (hsyn : seg.header.syn = false)
    (hrst : seg.header.rst = false) : Waiting (c.takeIn seg) := by
  unfold TCPConnection.takeIn
  dsimp only
  rw [Receiving.segmentReceived_ignored h.syn_eq hsyn]
  simp only [hrst, Bool.false_eq_true, if_false]
  split
  · exact ⟨h.sender.ackReceived _ _, h.syn_eq, h.inbound_open, h.inbound_ok, h.silent,
      h.active_eq, h.linger_eq⟩
  · exact ⟨h.sender, h.syn_eq, h.inbound_open, h.inbound_ok, h.silent, h.active_eq, h.linger_eq⟩

theorem Waiting.segmentReceived (h : Waiting c) {seg : TCPSegment}
    (hsyn : seg.header.syn = false) (hrst : seg.header.rst = false) :
    Waiting (c.segmentReceived seg) := by
  have htaken := h.takeIn hsyn hrst
  have hsilent : (c.takeIn seg).synSent = false := by
    simp [synSent, TCPSender.nextSeqnoAbsolute, htaken.sender.nextSeqno_eq]
  have hanswer : (c.takeIn seg).answer seg = c.takeIn seg := if_neg (by simp [hsilent])
  have hmode : (c.takeIn seg).trySwitchingCloseMode = c.takeIn seg :=
    if_neg (by simp [htaken.inbound_open])
  unfold TCPConnection.segmentReceived
  dsimp only
  rw [hanswer, if_neg (by simp [hsyn]), hmode]
  exact htaken

/-- Without RST the wait goes on. -/
theorem Waiting.perform (h : Waiting c) {op : ConnectionOp} (hop : Unsynchronized op)
    (hrst : carriesRst op = false) : Waiting (c.perform op) := by
  cases op with
  | tick ms => exact h.tick ms
  | segmentReceived seg => exact h.segmentReceived hop hrst
  | connect => exact hop.elim
  | write data => exact hop.elim
  | endInputStream => exact hop.elim
  | read len => exact hop.elim

/-- A RST makes any endpoint inactive, one that listens too. -/
theorem segmentReceived_rst {seg : TCPSegment} (hrst : seg.header.rst = true) :
    (c.segmentReceived seg).active = false := by
  rw [segmentReceived_active, hrst]
  exact Bool.and_false _

end Step

theorem listening_iff_of_waiting {c : TCPConnection} (h : Waiting c) (ops : List ConnectionOp)
    (hops : ∀ op ∈ ops, Unsynchronized op) :
    (∀ k, StillListening (calls.exec c (ops.take k))) ↔ ∀ op ∈ ops, carriesRst op = false := by
  induction ops generalizing c with
  | nil => simp [h.stillListening]
  | cons op ops ih =>
    rw [List.forall_mem_cons] at hops ⊢
    constructor
    · intro hall
      have hrst : carriesRst op = false := by
        cases op with
        | segmentReceived seg =>
          cases hseg : seg.header.rst with
          | false => exact hseg
          | true =>
            have hactive := (hall 1).active_eq
            exact absurd (hactive.symm.trans (segmentReceived_rst hseg)) Bool.noConfusion
        | _ => rfl
      exact ⟨hrst, (ih (h.perform hops.1 hrst) hops.2).mp fun k => hall (k + 1)⟩
    · rintro ⟨hrst, hrest⟩ k
      cases k with
      | zero => exact h.stillListening
      | succ k => exact (ih (h.perform hops.1 hrst) hops.2).mpr hrest k

/-- Over ticks and segments without SYN, a fresh endpoint goes on listening exactly as
long as no segment carries a RST. -/
theorem listening_iff_no_rst (cfg : TCPConfig) (random : WrappingInt32) (ops : List ConnectionOp)
    (hops : ∀ op ∈ ops, Unsynchronized op) :
    (∀ k, StillListening (calls.exec (new cfg random) (ops.take k))) ↔
      ∀ op ∈ ops, carriesRst op = false :=
  listening_iff_of_waiting (new_waiting cfg random) ops hops

theorem listening_iff_no_rst_stray_ack :
    StillListening (calls.exec (new ⟨1000, 1, 1, some ⟨0⟩⟩ ⟨0⟩)
      [.tick 5, .segmentReceived ⟨{ ack := true, fin := true, ackno := ⟨1⟩, win := 9 }, [1]⟩,
        .tick (2 ^ 64 - 1)]) :=
  (listening_iff_no_rst ⟨1000, 1, 1, some ⟨0⟩⟩ ⟨0⟩
    [.tick 5, .segmentReceived ⟨{ ack := true, fin := true, ackno := ⟨1⟩, win := 9 }, [1]⟩,
      .tick (2 ^ 64 - 1)] (by decide)).mpr (by decide) 3

/-- One RST, and the endpoint that listens is in the state RESET. -/
theorem rst_ends_listening :
    let c := (new ⟨1000, 1, 1, some ⟨0⟩⟩ ⟨0⟩).segmentReceived ⟨{ rst := true }, []⟩
    c.state = TCPState.ofState .reset ∧ c.active = false ∧ c.sender.stream.error = true ∧
      c.inboundStream.error = true := by
  decide

end Sponge.Listening
