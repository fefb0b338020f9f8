import Sponge.Network

/-!
End-to-end safety of the two streams.
What an endpoint has assembled is a prefix of what its peer's `write` accepted, and all
of it once the inbound stream has ended. What it has not assembled yet, the peer still
holds: in an outstanding segment or in the buffer of the outbound stream.
-/
namespace Sponge.Link

open Assembly SenderBooks SenderOutput

/-- The stream from x to y is safe: no byte is lost, altered, repeated or out of place. -/
structure Delivered (x y : Endpoint) : Prop where
  isPrefix : y.assembled <+: x.accepted
  complete : y.conn.inboundStream.inputEnded = true →
    x.closed = true ∧ y.assembled = x.accepted

/-- What x still holds for y: everything y has not assembled, at its own position. -/
structure Retains (x y : Endpoint) : Prop where
  acked : x.conn.sender.absAckno ≤
    if y.conn.receiver.synReceived then
      1 + y.assembled.length + (if y.conn.inboundStream.inputEnded then 1 else 0)
    else 0
  bytes : ∀ p b, x.accepted[p]? = some b → y.assembled.length ≤ p →
    (∃ e ∈ x.conn.sender.outstandingSegments, e.seqno - 1 ≤ p ∧
        e.segment.payload[p - (e.seqno - 1)]? = some b) ∨
      (x.conn.sender.stream.bytesRead ≤ p ∧
        x.conn.sender.stream.buffered[p - x.conn.sender.stream.bytesRead]? = some b)
  fin : (∃ seg ∈ x.conn.segmentsOut, seg.header.fin = true) ∨
      x.conn.sender.nextSeqno = x.conn.sender.stream.bytesWritten + 2 →
    y.conn.inboundStream.inputEnded = false →
    ∃ e ∈ x.conn.sender.outstandingSegments, e.segment.header.fin = true

section Facts

variable {x y : Endpoint}

theorem Sound.assembled_eq (h : Sound x y) :
    y.assembled = x.accepted.take y.conn.inboundStream.bytesWritten := by
  have hheard := h.linked.joined.heard.assembles
  unfold Endpoint.assembled
  rw [h.peerTaken, show y.conn.inboundStream.bytesWritten = _ from hheard.rep.first_eq.symm]
  exact hheard.taken_append_buffered

theorem Sound.assembled_length (h : Sound x y) :
    y.assembled.length = y.conn.inboundStream.bytesWritten := by
  have hle : y.conn.inboundStream.bytesWritten ≤ x.accepted.length :=
    h.linked.joined.heard.assembles.written_le
  rw [h.assembled_eq, List.length_take]
  omega

theorem Sound.delivered (h : Sound x y) : Delivered x y where
  isPrefix := by
    rw [h.assembled_eq]
    exact List.take_prefix _ _
  complete hended := by
    obtain ⟨hfin, hall⟩ := h.linked.joined.heard.ended hended
    refine ⟨h.ended ?_, ?_⟩
    · exact ByteStream.ended_of_eof hfin.2
    · rw [h.assembled_eq]
      exact List.take_of_length_le (Nat.le_of_eq hall.symm)

/-- An unfinished inbound stream is acknowledged up to the bytes written at most. -/
theorem ackPoint_of_open {r : TCPReceiver} (h : r.streamOut.inputEnded = false) :
    ackPoint r ≤ r.streamOut.bytesWritten + 1 := by
  unfold ackPoint
  rw [h, if_neg Bool.false_ne_true]
  split <;> omega

theorem Sound.retains (h : Sound x y) : Retains x y := by
  obtain ⟨firsts, hbooks⟩ := h.linked.joined.speaks.output.books
  have hheard := h.linked.joined.heard
  have hacked := hheard.acked
  have hlen := h.assembled_length
  have hwritten : y.conn.inboundStream.bytesWritten ≤ x.accepted.length :=
    hheard.assembles.written_le
  refine ⟨?_, ?_, ?_⟩
  · rw [hlen, Nat.add_comm 1]
    exact hacked
  · intro p b hb hp
    apply hbooks.holds_byte hb
    have hlt := (List.getElem?_eq_some_iff.mp hb).1
    cases hended : y.conn.inboundStream.inputEnded with
    | true =>
      have hall : y.conn.inboundStream.bytesWritten = x.accepted.length := (hheard.ended hended).2
      omega
    | false =>
      have hopen := ackPoint_of_open hended
      change _ ≤ y.conn.inboundStream.bytesWritten + 1 at hopen
      omega
  · intro hout hopen
    have hopen' := ackPoint_of_open hopen
    change _ ≤ y.conn.inboundStream.bytesWritten + 1 at hopen'
    have hw := hbooks.written_eq
    apply hbooks.holds_fin _ (by omega)
    rcases hout with ⟨seg, hseg, hfin⟩ | hnext
    · exact ((h.linked.joined.speaks.emitted seg hseg).fin_out hfin).1
    · omega

end Facts

/-- Along every run of the two endpoints both streams are safe. -/
theorem streams_delivered (cfgA cfgB : TCPConfig) (randomA randomB : WrappingInt32)
    (ops : List NetworkOp)
    (hv : Network.machine.Valid (Network.new cfgA cfgB randomA randomB) ops) :
    let n := Network.machine.exec (Network.new cfgA cfgB randomA randomB) ops
    Delivered n.a n.b ∧ Delivered n.b n.a := by
  have h := sound_of_run cfgA cfgB randomA randomB hv
  exact ⟨h.delivered, h.symm.delivered⟩

/-- The FIN overtakes the data, and one byte is read. -/
theorem streams_delivered_reordered :
    let n := Network.machine.exec
      (Network.new ⟨1000, 4, 4, some ⟨0⟩⟩ ⟨1000, 4, 4, some ⟨10⟩⟩ ⟨0⟩ ⟨0⟩)
      [.atA .connect,
        .atB (.deliver ⟨{ seqno := ⟨0⟩, syn := true }, []⟩),
        .atA (.deliver ⟨{ seqno := ⟨10⟩, syn := true, ack := true, ackno := ⟨1⟩, win := 4 }, []⟩),
        .atA (.write [1, 2]), .atA .endInputStream,
        .atB (.deliver ⟨{ seqno := ⟨3⟩, fin := true, ack := true, ackno := ⟨11⟩, win := 4 }, []⟩),
        .atB (.deliver ⟨{ seqno := ⟨1⟩, ack := true, ackno := ⟨11⟩, win := 4 }, [1, 2]⟩),
        .atB (.read 1)]
    Delivered n.a n.b ∧ Delivered n.b n.a :=
  streams_delivered _ _ _ _ _ (by decide)

/-- Along every run both endpoints hold on to what the other one has not assembled. -/
theorem undelivered_retained (cfgA cfgB : TCPConfig) (randomA randomB : WrappingInt32)
    (ops : List NetworkOp)
    (hv : Network.machine.Valid (Network.new cfgA cfgB randomA randomB) ops) :
    let n := Network.machine.exec (Network.new cfgA cfgB randomA randomB) ops
    Retains n.a n.b ∧ Retains n.b n.a := by
  have h := sound_of_run cfgA cfgB randomA randomB hv
  exact ⟨h.retains, h.symm.retains⟩

/-- The FIN has arrived and the data before it has not. -/
theorem undelivered_retained_behind_fin :
    let n := Network.machine.exec
      (Network.new ⟨1000, 4, 4, some ⟨0⟩⟩ ⟨1000, 4, 4, some ⟨10⟩⟩ ⟨0⟩ ⟨0⟩)
      [.atA .connect,
        .atB (.deliver ⟨{ seqno := ⟨0⟩, syn := true }, []⟩),
        .atA (.deliver ⟨{ seqno := ⟨10⟩, syn := true, ack := true, ackno := ⟨1⟩, win := 4 }, []⟩),
        .atA (.write [1, 2]), .atA .endInputStream,
        .atB (.deliver ⟨{ seqno := ⟨3⟩, fin := true, ack := true, ackno := ⟨11⟩, win := 4 }, []⟩)]
    Retains n.a n.b ∧ Retains n.b n.a :=
  undelivered_retained _ _ _ _ _ (by decide)

end Sponge.Link
