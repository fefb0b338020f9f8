import Sponge.Delivery

/-!
What a clean shutdown says about the peer.
An endpoint that has gone inactive without an error has both streams behind it: the
peer has assembled all it wrote, and it has assembled all the peer wrote. If it does not
linger, the peer knows this too, and goes on knowing it whatever happens later.
-/
namespace Sponge.Link

open Runs Assembly SenderQueue SenderOutput ConnectionCalls TCPConnection

/-- Inactive with neither stream in error. -/
structure CleanlyClosed (x : Endpoint) : Prop where
  inactive : x.conn.active = false
  outbound : x.conn.sender.stream.error = false
  inbound : x.conn.inboundStream.error = false

instance (x : Endpoint) : Decidable (CleanlyClosed x) :=
  decidable_of_iff
    (x.conn.active = false ∧ x.conn.sender.stream.error = false ∧
      x.conn.inboundStream.error = false)
    ⟨fun ⟨h1, h2, h3⟩ => ⟨h1, h2, h3⟩, fun ⟨h1, h2, h3⟩ => ⟨h1, h2, h3⟩⟩

/-- Both streams are complete, and y has ended its own. -/
structure FullyDelivered (x y : Endpoint) : Prop where
  peer_ended : y.conn.inboundStream.inputEnded = true
  peer_has_all : y.assembled = x.accepted
  ended : x.conn.inboundStream.inputEnded = true
  has_all : x.assembled = y.accepted
  peer_closed : y.closed = true

/-- The FIN of y is out, all of y's stream is acknowledged, and no tick repeats any of it. -/
structure Acknowledged (y : Endpoint) : Prop where
  eof : y.conn.sender.stream.eof = true
  fin_sent : y.conn.sender.nextSeqno = y.conn.sender.stream.bytesWritten + 2
  in_flight : y.conn.bytesInFlight = 0
  outstanding : y.conn.sender.outstandingSegments = []
  no_repeat : ∀ ms, (y.conn.sender.tick ms).segmentsOut = y.conn.sender.segmentsOut

section Closing

variable {S : List UInt8} {s : TCPSender} {x y : Endpoint}

/-- A receiver that has acknowledged the FIN has ended its stream. -/
theorem Hears.ended_of_acked {d : TCPConnection} (h : Hears S s d)
    (hack : S.length + 2 ≤ ackPoint d.receiver) : d.receiver.streamOut.inputEnded = true := by
  have hle : d.receiver.streamOut.bytesWritten ≤ S.length := h.assembles.written_le
  by_contra hopen
  have hpoint := ackPoint_of_open (Bool.not_eq_true _ ▸ hopen)
  omega

theorem Sound.finished (h : Sound x y) (hx : CleanlyClosed x) :
    Finished x.accepted x.conn ∧ y.conn.inboundStream.inputEnded = true := by
  rcases h.linked.joined.speaks.closed hx.inactive with herr | hfin
  · exact absurd (herr.symm.trans hx.outbound) Bool.noConfusion
  · refine ⟨hfin, ?_⟩
    obtain ⟨-, hout, hack⟩ := hfin
    have hacked := h.linked.joined.heard.acked
    rw [hack, hout.1] at hacked
    exact h.linked.joined.heard.ended_of_acked hacked

theorem Sound.fullyDelivered (h : Sound x y) (hx : CleanlyClosed x) : FullyDelivered x y := by
  obtain ⟨⟨hended, -, -⟩, hpeer⟩ := h.finished hx
  obtain ⟨hclosed, hall⟩ := h.symm.delivered.complete hended
  exact ⟨hpeer, (h.delivered.complete hpeer).2, hended, hall, hclosed⟩

/-- If x has given up lingering and its FIN has come, y has been acknowledged whole. -/
theorem Sound.acknowledged (h : Sound x y) (hoff : x.conn.lingerAfterStreamsFinish = false)
    (hended : y.conn.inboundStream.inputEnded = true) : Acknowledged y := by
  have hheard := h.linked.joined.heard
  have hhears := h.linked.joined.hears
  obtain ⟨firsts, hbooks⟩ := h.linked.joined.peerSpeaks.output.books
  obtain ⟨hfin, -⟩ := hhears.ended (hhears.linger hoff)
  have hacked := h.linked.joined.confirms (hheard.assembles.ended_iff.mp hended).1 hoff
  have hnil : y.conn.sender.outstandingSegments = [] := hbooks.ordered.nil_iff.mpr hacked
  refine ⟨hfin.2, ?_, ?_, hnil, ?_⟩
  · rw [hfin.1, hbooks.written_eq]
  · have hflight := hbooks.sane.bytesInFlight_eq
    unfold TCPConnection.bytesInFlight
    omega
  · intro ms
    rcases (tick_cases y.conn.sender ms).2 with ⟨-, hsame, -, -⟩ | ⟨e, rest, hhead, -, -, -⟩
    · exact hsame
    · rw [hnil] at hhead
      exact absurd hhead (List.cons_ne_nil e rest).symm

end Closing

/-- What the endpoint c₀ has decided is still decided in c. -/
structure Later (c₀ c : TCPConnection) : Prop where
  linger : c₀.lingerAfterStreamsFinish = false → c.lingerAfterStreamsFinish = false
  ended : c₀.inboundStream.inputEnded = true → c.inboundStream.inputEnded = true

/-- The sender has no part in these decisions. -/
theorem Later.callSender {c₀ c : TCPConnection} (h : Later c₀ c) (op : SenderOp) :
    Later c₀ (c.callSender op) where
  linger := by
    rw [callSender_linger]
    exact h.linger
  ended := by
    rw [callSender_inboundStream]
    exact h.ended

theorem later_stable (c₀ : TCPConnection) (T : List UInt8) (d : TCPConnection) :
    Stable (fun S c => Linked S c T d ∧ Later c₀ c) := by
  have hstable := linked_stable T d
  refine ⟨fun S c h => hstable.retx S c h.1, ?_, ?_, ?_, ?_, ?_, ?_, ?_, ?_, ?_⟩
  · exact fun S c h => ⟨hstable.fill S c h.1, h.2.callSender _⟩
  · exact fun S c data h hopen =>
      ⟨hstable.writeFill S c data h.1 hopen, (h.2.callSender _).callSender _⟩
  · exact fun S c ms h => ⟨hstable.count S c ms h.1, h.2.callSender _⟩
  · exact fun S c h hsent => ⟨hstable.empty S c h.1 hsent, h.2.callSender _⟩
  · intro S c rst h
    refine ⟨hstable.emit S c rst h.1, ?_, ?_⟩
    · simpa using h.2.linger
    · simpa [inboundStream] using h.2.ended
  · exact fun S c h => ⟨hstable.reset S c h.1, h.2.linger, h.2.ended⟩
  · intro S c h
    refine ⟨hstable.switch S c h.1, ?_⟩
    unfold trySwitchingCloseMode
    split
    · exact ⟨fun _ => rfl, h.2.ended⟩
    · exact h.2
  · exact fun S c h hin hout => ⟨hstable.close S c h.1 hin hout, h.2.linger, h.2.ended⟩
  · exact fun S c t h => ⟨hstable.timer S c t h.1, h.2.linger, h.2.ended⟩

section Persistence

variable {x y : Endpoint}

theorem Sound.later_deliver (h : Sound x y) {seg : TCPSegment}
    (hop : x.Enabled y (.deliver seg)) : Later x.conn (x.conn.segmentReceived seg) := by
  have hlinked := h.linked.takeIn h.short h.peerShort hop
  obtain ⟨-, htook⟩ := h.linked.joined.receive h.peerShort hop
  refine ((later_stable x.conn _ _).segmentReceived ⟨hlinked, ?_⟩).2
  refine takeIn_rule ⟨id, htook.ended⟩ (fun _ hc => ⟨hc.linger, hc.ended⟩) ?_
  exact fun _ hc => hc.callSender _

/-- No step of x takes back that it does not linger or that its inbound stream ended. -/
theorem Sound.later (h : Sound x y) (op : EndpointOp) (hop : x.Enabled y op) :
    Later x.conn (x.step op).conn := by
  have hstable := later_stable x.conn y.accepted y.conn
  have hnow : Linked x.accepted x.conn y.accepted y.conn ∧ Later x.conn x.conn :=
    ⟨h.linked, id, id⟩
  cases op with
  | connect => exact (hstable.connect hnow).2
  | write data => exact (hstable.write hnow data).2
  | endInputStream =>
    have hend := h.linked.quietCall .endInput ⟨trivial, by simp⟩ rfl rfl
    exact (hstable.endInputStream ⟨hend, id, id⟩).2
  | tick ms => exact (hstable.tick hnow ms).2
  | deliver seg => exact h.later_deliver hop
  | read len =>
    have hv : x.conn.inboundStream.Valid := h.linked.joined.hears.assembles.rep.output_valid
    simp only [Endpoint.step, hv.read_eq]
    exact ⟨id, id⟩
  | pop len => exact ⟨id, id⟩

end Persistence

/-- x does not linger, and its FIN has come to y. -/
structure PassivelyClosed (x y : Endpoint) : Prop where
  sound : Sound x y
  linger_off : x.conn.lingerAfterStreamsFinish = false
  peer_ended : y.conn.inboundStream.inputEnded = true

section Runs

variable {x y : Endpoint} {n : Network} {ops : List NetworkOp}

theorem PassivelyClosed.step (h : PassivelyClosed x y) (op : EndpointOp)
    (hop : x.Enabled y op) : PassivelyClosed (x.step op) y :=
  ⟨h.sound.step op hop, (h.sound.later op hop).linger h.linger_off, h.peer_ended⟩

theorem PassivelyClosed.peer_step (h : PassivelyClosed x y) (op : EndpointOp)
    (hop : y.Enabled x op) : PassivelyClosed x (y.step op) :=
  ⟨(h.sound.symm.step op hop).symm, h.linger_off,
    (h.sound.symm.later op hop).ended h.peer_ended⟩

theorem PassivelyClosed.run (h : PassivelyClosed n.a n.b) (hv : Network.machine.Valid n ops) :
    PassivelyClosed (Network.machine.exec n ops).a (Network.machine.exec n ops).b :=
  Network.keeps (fun _ _ op h hop => h.step op hop) (fun _ _ op h hop => h.peer_step op hop) h hv

theorem PassivelyClosed.run_symm (h : PassivelyClosed n.b n.a)
    (hv : Network.machine.Valid n ops) :
    PassivelyClosed (Network.machine.exec n ops).b (Network.machine.exec n ops).a :=
  Network.keeps (P := fun y x => PassivelyClosed x y) (fun _ _ op h hop => h.peer_step op hop)
    (fun _ _ op h hop => h.step op hop) h hv

theorem PassivelyClosed.acknowledged (h : PassivelyClosed x y) : Acknowledged y :=
  h.sound.acknowledged h.linger_off h.peer_ended

end Runs

/-- A clean shutdown of either endpoint means full delivery both ways. -/
theorem clean_shutdown_delivered (cfgA cfgB : TCPConfig) (randomA randomB : WrappingInt32)
    (ops : List NetworkOp)
    (hv : Network.machine.Valid (Network.new cfgA cfgB randomA randomB) ops) :
    let n := Network.machine.exec (Network.new cfgA cfgB randomA randomB) ops
    (CleanlyClosed n.a → FullyDelivered n.a n.b) ∧
      (CleanlyClosed n.b → FullyDelivered n.b n.a) := by
  have h := sound_of_run cfgA cfgB randomA randomB hv
  exact ⟨h.fullyDelivered, h.symm.fullyDelivered⟩

/-- A closes first and lingers; both streams arrive in the wrong order. -/
theorem clean_shutdown_delivered_after_linger :
    let n := Network.machine.exec
      (Network.new ⟨1000, 4, 4, some ⟨0⟩⟩ ⟨1000, 4, 4, some ⟨10⟩⟩ ⟨0⟩ ⟨0⟩)
      [.atA .connect,
        .atB (.deliver ⟨{ seqno := ⟨0⟩, syn := true }, []⟩),
        .atA (.deliver ⟨{ seqno := ⟨10⟩, syn := true, ack := true, ackno := ⟨1⟩, win := 4 }, []⟩),
        .atA (.write [1, 2]), .atA .endInputStream,
        .atB (.deliver ⟨{ seqno := ⟨3⟩, fin := true, ack := true, ackno := ⟨11⟩, win := 4 }, []⟩),
        .atB (.deliver ⟨{ seqno := ⟨1⟩, ack := true, ackno := ⟨11⟩, win := 4 }, [1, 2]⟩),
        .atB (.write [3]), .atB .endInputStream,
        .atA (.deliver ⟨{ seqno := ⟨12⟩, fin := true, ack := true, ackno := ⟨4⟩, win := 2 }, []⟩),
        .atA (.deliver ⟨{ seqno := ⟨11⟩, ack := true, ackno := ⟨4⟩, win := 2 }, [3]⟩),
        .atA (.tick 10000)]
    CleanlyClosed n.a ∧ FullyDelivered n.a n.b :=
  ⟨by decide, (clean_shutdown_delivered _ _ _ _ _ (by decide)).1 (by decide)⟩

/-- If an endpoint closes cleanly without lingering after the first operations, its peer
has been acknowledged whole by then, and this is so after all later ones. -/
theorem passive_close_acknowledged (cfgA cfgB : TCPConfig) (randomA randomB : WrappingInt32)
    (ops later : List NetworkOp)
    (hv : Network.machine.Valid (Network.new cfgA cfgB randomA randomB) (ops ++ later)) :
    let n := Network.machine.exec (Network.new cfgA cfgB randomA randomB) ops
    let n' := Network.machine.exec n later
    (CleanlyClosed n.a → n.a.conn.lingerAfterStreamsFinish = false →
      Acknowledged n.b ∧ Acknowledged n'.b) ∧
    (CleanlyClosed n.b → n.b.conn.lingerAfterStreamsFinish = false →
      Acknowledged n.a ∧ Acknowledged n'.a) := by
  obtain ⟨hfirst, hlater⟩ := (Machine.valid_append _ _ _ _).mp hv
  have h := sound_of_run cfgA cfgB randomA randomB hfirst
  refine ⟨fun hclosed hoff => ?_, fun hclosed hoff => ?_⟩
  · have hpassive : PassivelyClosed _ _ := ⟨h, hoff, (h.finished hclosed).2⟩
    exact ⟨hpassive.acknowledged, (hpassive.run hlater).acknowledged⟩
  · have hpassive : PassivelyClosed _ _ := ⟨h.symm, hoff, (h.symm.finished hclosed).2⟩
    exact ⟨hpassive.acknowledged, (hpassive.run_symm hlater).acknowledged⟩

/-- B closes first, so A need not linger; then time goes by at B. -/
theorem passive_close_acknowledged_by_tick :
    let n := Network.machine.exec
      (Network.new ⟨1000, 4, 4, some ⟨0⟩⟩ ⟨1000, 4, 4, some ⟨10⟩⟩ ⟨0⟩ ⟨0⟩)
      [.atA .connect,
        .atB (.deliver ⟨{ seqno := ⟨0⟩, syn := true }, []⟩),
        .atA (.deliver ⟨{ seqno := ⟨10⟩, syn := true, ack := true, ackno := ⟨1⟩, win := 4 }, []⟩),
        .atB (.deliver ⟨{ seqno := ⟨1⟩, ack := true, ackno := ⟨11⟩, win := 4 }, []⟩),
        .atB .endInputStream,
        .atA (.deliver ⟨{ seqno := ⟨11⟩, fin := true, ack := true, ackno := ⟨1⟩, win := 4 }, []⟩),
        .atA .endInputStream,
        .atB (.deliver ⟨{ seqno := ⟨1⟩, fin := true, ack := true, ackno := ⟨12⟩, win := 4 }, []⟩),
        .atA (.deliver ⟨{ seqno := ⟨12⟩, ack := true, ackno := ⟨2⟩, win := 4 }, []⟩),
        .atA (.tick 0)]
    CleanlyClosed n.a ∧ n.a.conn.lingerAfterStreamsFinish = false ∧ Acknowledged n.b ∧
      Acknowledged (Network.machine.exec n [.atB (.tick 1000)]).b :=
  ⟨by decide, by decide,
    (passive_close_acknowledged _ _ _ _ _ [.atB (.tick 1000)] (by decide)).1 (by decide)
      (by decide)⟩

end Sponge.Link
