import Sponge.Link

/-!
Two endpoints stay linked whatever either of them does.
S and c are the accepted bytes and the state of one endpoint, T and d those of its
peer. Every call of c keeps the link, and so does taking in any segment that d has
emitted, however old.
-/
namespace Sponge.Link

open Words Assembly SenderQueue SenderBooks SenderOutput ConnectionCalls TCPConnection

/-- If the FIN of d has come and d has given up lingering, c has been acknowledged whole. -/
def Confirmed (c d : TCPConnection) : Prop :=
  c.receiver.reassembler.eofSet = true → d.lingerAfterStreamsFinish = false →
    c.sender.absAckno = c.sender.nextSeqno

/-- The link, except for what an incoming FIN confirms. -/
structure Joined (S : List UInt8) (c : TCPConnection) (T : List UInt8) (d : TCPConnection) :
    Prop where
  speaks : Speaks S c
  peerSpeaks : Speaks T d
  heard : Hears S c.sender d
  hears : Hears T d.sender c
  confirms : Confirmed d c

structure Linked (S : List UInt8) (c : TCPConnection) (T : List UInt8) (d : TCPConnection) :
    Prop where
  joined : Joined S c T d
  confirmed : Confirmed c d

theorem Linked.symm {S T : List UInt8} {c d : TCPConnection} (h : Linked S c T d) :
    Linked T d S c :=
  ⟨⟨h.joined.peerSpeaks, h.joined.speaks, h.joined.hears, h.joined.heard, h.confirmed⟩,
    h.joined.confirms⟩

theorem new_linked (cfg cfg' : TCPConfig) (random random' : WrappingInt32) :
    Linked [] (new cfg random) [] (new cfg' random') where
  joined := ⟨new_speaks _ _, new_speaks _ _, new_hears _ rfl _ _, new_hears _ rfl _ _,
    fun h => by simp [new, TCPReceiver.new, StreamReassembler.new] at h⟩
  confirmed h := by simp [new, TCPReceiver.new, StreamReassembler.new] at h

section Moves

variable {S T : List UInt8} {c d : TCPConnection}

/-- Only receiver, record and linger flag of the hearer matter. -/
theorem Hears.of_same {s : TCPSender} {d' : TCPConnection} (h : Hears S s d)
    (hr : d'.receiver = d.receiver) (hs : d'.segmentsOut = d.segmentsOut)
    (hl : d'.lingerAfterStreamsFinish = d.lingerAfterStreamsFinish) : Hears S s d' := by
  obtain ⟨h1, h2, h3, h4, h5, h6, h7, h8⟩ := h
  rw [← hr] at h1 h2 h3 h4 h5 h6 h7
  rw [← hs] at h5 h8
  rw [← hl] at h7 h8
  exact ⟨h1, h2, h3, h4, h5, h6, h7, h8⟩

theorem Joined.call (h : Joined S c T d) (op : SenderOp) (hop : Proper c.sender op)
    (hack : (c.sender.apply op).absAckno ≤ ackPoint d.receiver) :
    Joined (S ++ c.sender.acceptedBy op) (c.callSender op) T d where
  speaks := h.speaks.call op hop
  peerSpeaks := h.peerSpeaks
  heard := h.heard.forward (h.speaks.output.apply op hop).2 hack
  hears := h.hears.of_same rfl rfl rfl
  confirms := h.confirms

theorem Linked.call (h : Linked S c T d) (op : SenderOp) (hop : Proper c.sender op)
    (hno : (c.sender.apply op).absAckno = c.sender.absAckno) :
    Linked (S ++ c.sender.acceptedBy op) (c.callSender op) T d := by
  have hacked := h.joined.heard.acked
  refine ⟨h.joined.call op hop (by omega), ?_⟩
  intro heof hoff
  obtain ⟨hfin, -⟩ := h.joined.heard.ended (h.joined.heard.linger hoff)
  obtain ⟨-, hfin'⟩ := (h.joined.speaks.output.apply op hop).2.fin_out hfin
  have hold := h.confirmed heof hoff
  change (c.sender.apply op).absAckno = (c.sender.apply op).nextSeqno
  rw [hno, hold, hfin.1, hfin'.1]

/-- A call of the sender that writes nothing and is no acknowledgment. -/
theorem Linked.quietCall (h : Linked S c T d) (op : SenderOp) (hop : Proper c.sender op)
    (hno : (c.sender.apply op).absAckno = c.sender.absAckno) (hnil : c.sender.acceptedBy op = []) :
    Linked S (c.callSender op) T d := by
  have hcall := h.call op hop hno
  rw [hnil, List.append_nil] at hcall
  exact hcall

theorem Linked.fill (h : Linked S c T d) : Linked S (c.callSender .fillWindow) T d := by
  obtain ⟨-, ⟨fresh, hfilled⟩, -⟩ := h.joined.speaks.output.ordered.fillWindow
  exact h.quietCall .fillWindow ⟨trivial, by simp⟩ hfilled.absAckno_eq rfl

theorem Joined.reset (h : Joined S c T d) : Joined S c.reset T d where
  speaks := h.speaks.reset
  peerSpeaks := h.peerSpeaks
  heard := h.heard.forward (h.speaks.output.call .setError ⟨trivial, by simp⟩ rfl).2 h.heard.acked
  hears := h.hears.reset
  confirms := h.confirms

theorem Linked.emit (h : Linked S c T d) (rst : Bool) : Linked S (c.sendSegments rst) T d := by
  have hspeaks := h.joined.speaks.emit rst
  have hhears := h.joined.hears.emit
    (fun seg hseg => (h.joined.speaks.output.queued seg hseg).2) rst
  cases hactive : c.active with
  | false =>
    rw [sendSegments_of_inactive hactive]
    exact h
  | true =>
    rw [sendSegments_of_active hactive] at hspeaks hhears ⊢
    exact ⟨⟨hspeaks, h.joined.peerSpeaks, h.joined.heard.forward (Forward.of_parts rfl rfl rfl)
      h.joined.heard.acked, hhears, h.joined.confirms⟩, h.confirmed⟩

theorem Linked.switch (h : Linked S c T d) : Linked S c.trySwitchingCloseMode T d := by
  have hspeaks := h.joined.speaks
  have hhears := h.joined.hears.switch
    (fun seg hseg hfin => ((hspeaks.emitted seg hseg).fin_out hfin).2)
  by_cases hnow : (!c.sender.stream.eof && c.receiver.streamOut.inputEnded) = true
  · have hoff : c.trySwitchingCloseMode = { c with lingerAfterStreamsFinish := false } :=
      if_pos hnow
    rw [hoff] at hhears ⊢
    refine ⟨⟨⟨hspeaks.output, hspeaks.emitted, hspeaks.closed⟩, h.joined.peerSpeaks,
      h.joined.heard, hhears, ?_⟩, h.confirmed⟩
    intro heof _
    have hfin := (h.joined.heard.fin heof).2
    simp [hfin] at hnow
  · have hsame : c.trySwitchingCloseMode = c := if_neg hnow
    rw [hsame]
    exact h

theorem Linked.close (h : Linked S c T d) (hin : c.istreamDone = true)
    (hout : c.ostreamDone = true) : Linked S { c with active := false } T d :=
  ⟨⟨h.joined.speaks.close hin hout, h.joined.peerSpeaks, h.joined.heard,
    h.joined.hears.of_same rfl rfl rfl, h.joined.confirms⟩, h.confirmed⟩

theorem Linked.timer (h : Linked S c T d) (t : ℕ) :
    Linked S { c with lastSegmRecvTimer := t } T d :=
  ⟨⟨⟨h.joined.speaks.output, h.joined.speaks.emitted, h.joined.speaks.closed⟩,
    h.joined.peerSpeaks, h.joined.heard, h.joined.hears.of_same rfl rfl rfl, h.joined.confirms⟩,
    h.confirmed⟩

end Moves

theorem linked_stable (T : List UInt8) (d : TCPConnection) :
    Stable (fun S c => Linked S c T d) where
  retx _ _ h := h.joined.speaks.output.retx
  fill _ _ h := h.fill
  writeFill S c data h hopen := (h.call (.write data) ⟨hopen, by simp⟩ rfl).fill
  count _ c ms h :=
    h.quietCall (.tick ms) ⟨trivial, by simp⟩ (tick_cases c.sender ms).1.absAckno_eq rfl
  empty _ _ h hsent := h.quietCall .sendEmptySegment ⟨trivial, fun _ => hsent⟩ rfl rfl
  emit _ _ rst h := h.emit rst
  reset _ _ h := ⟨h.joined.reset, h.confirmed⟩
  switch _ _ h := h.switch
  close _ _ h hin hout := h.close hin hout
  timer _ _ t h := h.timer t

section TakeIn

variable {S T : List UInt8} {c d : TCPConnection} {seg : TCPSegment}

/-- Acknowledgments of the peer arrive as what they were when they were sent. -/
theorem unwrap_ack (hS : Short S) {s : TCPSender} {a : ℕ} (hack : s.absAckno ≤ S.length + 2)
    (ha : a ≤ S.length + 2) : unwrap (wrap a s.isn) s.isn s.absAckno = a := by
  unfold Short at hS
  exact unwrap_wrap s.isn (by omega) (by omega) (by omega) (by omega)

/-- Once the FIN is out, an acknowledgment of everything confirms everything. -/
theorem ackReceived_confirms {s : TCPSender} (hout : Output S s) (hfin : FinOut S s)
    (ackno : WrappingInt32) (win : UInt16)
    (hack : s.absAckno = s.nextSeqno ∨ unwrap ackno s.isn s.absAckno = S.length + 2) :
    (s.ackReceived ackno win).absAckno = (s.ackReceived ackno win).nextSeqno := by
  obtain ⟨firsts, hbooks⟩ := hout.books
  obtain ⟨-, hfin'⟩ := (Forward.ackReceived hbooks ackno win).fin_out hfin
  have hle := hbooks.sane.ack_le
  have hnext := hfin.1
  rw [hfin'.1]
  rcases ackReceived_cases s ackno win with ⟨hbad, heq⟩ | ⟨ack, hval, hlo, hhi, heq⟩
  · rw [heq]
    change s.absAckno = S.length + 2
    omega
  · obtain ⟨fresh, -, hfilled, -⟩ :=
      ((hbooks.setWindow win.toNat_lt).acknowledge hlo hhi).fillWindow
    rw [heq, hfilled.absAckno_eq]
    change ack = S.length + 2
    have hlo' : s.absAckno < ack := hlo
    have hhi' : ack ≤ s.nextSeqno := hhi
    omega

/-- The segment goes to the receiver first. -/
theorem Joined.receive (h : Joined S c T d) (hT : Short T) (hseg : seg ∈ d.segmentsOut) :
    Joined S { c with receiver := c.receiver.segmentReceived seg, lastSegmRecvTimer := 0 } T d ∧
      TookIn T d.sender.isn seg c.receiver (c.receiver.segmentReceived seg) := by
  obtain ⟨⟨v, hv, hpiece⟩, hfin⟩ := h.peerSpeaks.emitted seg hseg
  obtain ⟨firsts, hbooks⟩ := h.peerSpeaks.output.books
  have hnext : v ≤ T.length + 2 := by
    have hread := hbooks.bytesRead_le
    rcases hbooks.position with ⟨hzero, -⟩ | hmid | ⟨hend, -⟩ <;> omega
  have ht := h.hears.tookIn hT hnext hpiece
  exact ⟨⟨h.speaks.setReceiver ht.ended, h.peerSpeaks, h.heard, h.hears.receive 0 ht hfin,
    h.confirms⟩, ht⟩

/-- Then its acknowledgment goes to the sender. -/
theorem Joined.acknowledged (h : Joined S c T d) (hS : Short S) (hseg : seg ∈ d.segmentsOut)
    (hack : seg.header.ack = true) :
    Joined S (c.callSender (.ackReceived seg.header.ackno seg.header.win)) T d := by
  obtain ⟨a, ha, hackno⟩ := h.heard.acks seg hseg hack
  have hpoint := h.heard.ackPoint_le
  have hacked := h.heard.acked
  have hcall := h.call (.ackReceived seg.header.ackno seg.header.win) ⟨trivial, by simp⟩ ?_
  · simpa [TCPSender.acceptedBy] using hcall
  · rcases absAckno_apply h.speaks.output.ordered
      (.ackReceived seg.header.ackno seg.header.win) with
      hno | ⟨ackno, win, hop, -, -, hnew⟩
    · omega
    · cases hop
      rw [hnew, hackno, unwrap_ack hS (by omega) (by omega)]
      exact ha

/-- A FIN of a peer that will not linger acknowledges all we have sent, unless it is known
already; c' is c after the receiver has had the segment. -/
theorem Linked.confirmed_by (h : Linked S c T d) (hS : Short S) (hT : Short T)
    (hseg : seg ∈ d.segmentsOut) {c' : TCPConnection} (hjoined : Joined S c' T d)
    (hack : c'.sender.absAckno = c.sender.absAckno)
    (hnext : c'.sender.nextSeqno = c.sender.nextSeqno)
    (heof : (c.receiver.segmentReceived seg).reassembler.eofSet = true)
    (hoff : d.lingerAfterStreamsFinish = false) :
    FinOut S c'.sender ∧ (c'.sender.absAckno = c'.sender.nextSeqno ∨ (seg.header.ack = true ∧
      unwrap seg.header.ackno c'.sender.isn c'.sender.absAckno = S.length + 2)) := by
  obtain ⟨-, htook⟩ := h.joined.receive hT hseg
  have hacked := hjoined.heard.acked
  have hpoint := hjoined.heard.ackPoint_le
  refine ⟨(hjoined.heard.ended (hjoined.heard.linger hoff)).1, ?_⟩
  rcases htook.eof heof with hold | hfin
  · left
    rw [hack, hnext]
    exact h.confirmed hold hoff
  · right
    obtain ⟨hisack, hackno⟩ := hjoined.heard.fin_acks hoff seg hseg hfin
    rw [hackno]
    exact ⟨hisack, unwrap_ack hS (by omega) (Nat.le_refl _)⟩

/-- Taking in any segment the peer has emitted keeps the link. -/
theorem Linked.takeIn (h : Linked S c T d) (hS : Short S) (hT : Short T)
    (hseg : seg ∈ d.segmentsOut) : Linked S (c.takeIn seg) T d := by
  obtain ⟨hrecv, -⟩ := h.joined.receive hT hseg
  refine takeIn_cases (P := fun c' => Joined S c' T d ∧
    c'.sender.absAckno = c.sender.absAckno ∧ c'.sender.nextSeqno = c.sender.nextSeqno ∧
    c'.receiver.reassembler.eofSet = (c.receiver.segmentReceived seg).reassembler.eofSet)
    (Q := fun c' => Linked S c' T d) ⟨hrecv, rfl, rfl, rfl⟩ ?_ ?_ ?_
  · rintro c' ⟨hjoined, hack, hnext, heq⟩
    exact ⟨hjoined.reset, hack, hnext, heq⟩
  · rintro hisack c' ⟨hjoined, hack, hnext, heq⟩
    refine ⟨hjoined.acknowledged hS hseg hisack, ?_⟩
    intro heof hoff
    rw [callSender_receiver, heq] at heof
    obtain ⟨hfin, hwhole⟩ := h.confirmed_by hS hT hseg hjoined hack hnext heof hoff
    apply ackReceived_confirms hjoined.speaks.output hfin
    rcases hwhole with hdone | ⟨-, hall⟩
    · exact Or.inl hdone
    · exact Or.inr hall
  · rintro hnoack c' ⟨hjoined, hack, hnext, heq⟩
    refine ⟨hjoined, ?_⟩
    intro heof hoff
    rw [heq] at heof
    obtain ⟨-, hwhole⟩ := h.confirmed_by hS hT hseg hjoined hack hnext heof hoff
    rcases hwhole with hdone | ⟨hisack, -⟩
    · exact hdone
    · exact absurd hisack hnoack

end TakeIn

end Sponge.Link
