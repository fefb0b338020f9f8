import Sponge.ConnectionProgress

/-!
What an endpoint emits, whatever it receives.
All the calls of an endpoint emit through `sendSegments`, and none of them changes the
receiver once it has emitted: what goes out in a call carries the acknowledgment number
and the window that hold when the call returns. An active endpoint leaves nothing
queued between calls, so that the segments emitted in answer to a segment are its
answer alone.
-/
namespace Sponge.Emission

open Words Tiling SenderLoop SenderQueue SenderBooks SenderOutput ConnectionCalls
  ConnectionProgress TCPConnection

/-- The header says what a receiver with this acknowledgment number and window would say. -/
structure Stamped (ackno : Option WrappingInt32) (window : ℕ) (seg : TCPSegment) : Prop where
  ack_iff : seg.header.ack = true ↔ ackno.isSome = true
  ackno_eq : seg.header.ack = true → ackno = some seg.header.ackno
  win_eq : seg.header.ack = true → seg.header.win = UInt16.ofNat window

section Stamp

variable {c : TCPConnection}

/-- What a stamp leaves alone. -/
theorem stamp_frame (c : TCPConnection) (rst : Bool) (seg : TCPSegment) :
    (c.stamp rst seg).header.seqno = seg.header.seqno ∧
      (c.stamp rst seg).lengthInSequenceSpace = seg.lengthInSequenceSpace := by
  unfold stamp
  cases c.receiver.ackno <;> cases rst <;> exact ⟨rfl, rfl⟩

theorem stamp_stamped {seg : TCPSegment} (hplain : seg.header.Plain) (rst : Bool) :
    Stamped c.receiver.ackno c.receiver.windowSize (c.stamp rst seg) := by
  have hno : seg.header.ack = false := by
    rw [show seg.header = _ from hplain]
  unfold stamp
  cases hack : c.receiver.ackno with
  | none => cases rst <;> exact ⟨by simp [hno], by simp [hno], by simp [hno]⟩
  | some ackno => cases rst <;> exact ⟨by simp, fun _ => rfl, fun _ => rfl⟩

end Stamp

theorem Stamped.acks {ackno : WrappingInt32} {window : ℕ} {seg : TCPSegment}
    (h : Stamped (some ackno) window seg) : seg.header.ack = true ∧ seg.header.ackno = ackno := by
  have hack := h.ack_iff.mpr rfl
  exact ⟨hack, (Option.some.inj (h.ackno_eq hack)).symm⟩

section Emitting

/-- From `base` on, only segments with this stamp have been emitted. -/
structure Emitting (base : List TCPSegment) (ackno : Option WrappingInt32) (window : ℕ)
    (S : List UInt8) (c : TCPConnection) : Prop where
  lively : Lively S c
  ackno_eq : c.receiver.ackno = ackno
  window_eq : c.receiver.windowSize = window
  emitted : ∃ out, c.segmentsOut = base ++ out ∧ ∀ seg ∈ out, Stamped ackno window seg

variable {base : List TCPSegment} {ackno : Option WrappingInt32} {window : ℕ}
  {S : List UInt8} {c : TCPConnection}

theorem Emitting.emit (h : Emitting base ackno window S c) (rst : Bool) :
    Emitting base ackno window S (c.sendSegments rst) := by
  refine ⟨lively_stable.emit S c rst h.lively, ?_, ?_, ?_⟩
  · rw [sendSegments_receiver]
    exact h.ackno_eq
  · rw [sendSegments_receiver]
    exact h.window_eq
  · obtain ⟨out, hout, hstamped⟩ := h.emitted
    cases hactive : c.active with
    | false =>
      rw [sendSegments_of_inactive hactive]
      exact ⟨out, hout, hstamped⟩
    | true =>
      rw [sendSegments_segmentsOut c hactive, hout, List.append_assoc]
      refine ⟨_, rfl, ?_⟩
      intro seg hseg
      rcases List.mem_append.mp hseg with hold | hnew
      · exact hstamped seg hold
      · obtain ⟨plain, hqueued, rfl⟩ := List.mem_map.mp hnew
        rw [← h.ackno_eq, ← h.window_eq]
        exact stamp_stamped (h.lively.1.queued plain hqueued).2 rst

/-- A call of the sender emits nothing by itself. -/
theorem Emitting.callSender {S' : List UInt8} {op : SenderOp} (h : Emitting base ackno window S c)
    (hlively : Lively S' (c.callSender op)) : Emitting base ackno window S' (c.callSender op) :=
  ⟨hlively, h.ackno_eq, h.window_eq, h.emitted⟩

theorem emitting_stable (base : List TCPSegment) (ackno : Option WrappingInt32) (window : ℕ) :
    Stable (Emitting base ackno window) where
  retx S c h := lively_stable.retx S c h.lively
  fill S c h := h.callSender (lively_stable.fill S c h.lively)
  writeFill S c data h hopen :=
    ⟨lively_stable.writeFill S c data h.lively hopen, h.ackno_eq, h.window_eq, h.emitted⟩
  count S c ms h := h.callSender (lively_stable.count S c ms h.lively)
  empty S c h hsent := h.callSender (lively_stable.empty S c h.lively hsent)
  emit S c rst h := h.emit rst
  reset S c h := ⟨lively_stable.reset S c h.lively, h.ackno_eq, h.window_eq, h.emitted⟩
  switch S c h := by
    have hlively := lively_stable.switch S c h.lively
    unfold trySwitchingCloseMode at hlively ⊢
    split
    · exact ⟨h.lively, h.ackno_eq, h.window_eq, h.emitted⟩
    · exact h
  close S c h _ _ := ⟨h.lively, h.ackno_eq, h.window_eq, h.emitted⟩
  timer S c t h := ⟨h.lively, h.ackno_eq, h.window_eq, h.emitted⟩

theorem emitting_refl (h : Lively S c) :
    Emitting c.segmentsOut c.receiver.ackno c.receiver.windowSize S c :=
  ⟨h, rfl, rfl, [], by simp, by simp⟩

/-- Taking in a segment moves the receiver first, then nothing but the sender. -/
theorem emitting_takeIn (h : Lively S c) (seg : TCPSegment) :
    Emitting c.segmentsOut (c.receiver.segmentReceived seg).ackno
      (c.receiver.segmentReceived seg).windowSize S (c.takeIn seg) := by
  refine takeIn_rule (P := Emitting _ _ _ S) ⟨h, rfl, rfl, [], by simp, by simp⟩
    (fun c hc => (emitting_stable _ _ _).reset S c hc) ?_
  intro c hc
  refine hc.callSender ⟨?_, hc.lively.2.ackReceived hc.lively.1.ordered _ _⟩
  exact (hc.lively.1.call (.ackReceived seg.header.ackno seg.header.win) ⟨trivial, by simp⟩ rfl).1

/-- What a call emits carries the acknowledgment number and the window at its end. -/
theorem perform_emits (h : Lively S c) (op : ConnectionOp) :
    ∃ out, (c.perform op).segmentsOut = c.segmentsOut ++ out ∧
      ∀ seg ∈ out,
        Stamped (c.perform op).receiver.ackno (c.perform op).receiver.windowSize seg := by
  have hfinish : ∀ {base ackno window S' c'}, Emitting base ackno window S' c' →
      ∃ out, c'.segmentsOut = base ++ out ∧
        ∀ seg ∈ out, Stamped c'.receiver.ackno c'.receiver.windowSize seg := by
    intro base ackno window S' c' hc
    rw [hc.ackno_eq, hc.window_eq]
    exact hc.emitted
  have hrefl := emitting_refl h
  have hstable := emitting_stable c.segmentsOut c.receiver.ackno c.receiver.windowSize
  cases op with
  | connect => exact hfinish (hstable.connect hrefl)
  | write data => exact hfinish (hstable.write hrefl data)
  | endInputStream =>
    have hended := (h.1.call .endInput ⟨trivial, by simp⟩ rfl).1
    have hfill : Lively S ((c.callSender .endInput).callSender .fillWindow) := Lively.fill hended
    have hemit : Emitting c.segmentsOut c.receiver.ackno c.receiver.windowSize S
        ((c.callSender .endInput).callSender .fillWindow) :=
      ⟨hfill, rfl, rfl, [], (List.append_nil _).symm, by simp⟩
    exact hfinish (hstable.tryClosingConnection hemit)
  | tick ms => exact hfinish (hstable.tick hrefl ms)
  | segmentReceived seg =>
    exact hfinish ((emitting_stable _ _ _).segmentReceived (emitting_takeIn h seg))
  | read len => exact ⟨[], by simp [perform], by simp⟩

end Emitting

section Receiver

variable {S : List UInt8} {c : TCPConnection} {P : TCPReceiver → Prop}

theorem receiver_stable (herror : ∀ r, P r → P (r.setOutput r.streamOut.setError)) :
    Stable (fun S c => Lively S c ∧ P c.receiver) where
  retx S c h := lively_stable.retx S c h.1
  fill S c h := ⟨lively_stable.fill S c h.1, by simpa using h.2⟩
  writeFill S c data h hopen := ⟨lively_stable.writeFill S c data h.1 hopen, by simpa using h.2⟩
  count S c ms h := ⟨lively_stable.count S c ms h.1, by simpa using h.2⟩
  empty S c h hsent := ⟨lively_stable.empty S c h.1 hsent, by simpa using h.2⟩
  emit S c rst h := ⟨lively_stable.emit S c rst h.1, by simpa using h.2⟩
  reset S c h := ⟨lively_stable.reset S c h.1, herror _ h.2⟩
  switch S c h := ⟨lively_stable.switch S c h.1, by simpa using h.2⟩
  close _ _ h _ _ := h
  timer _ _ _ h := h

/-- Segments, reads and error marks are all that reaches the receiver. -/
theorem perform_receiver_rule {op : ConnectionOp} (h : Lively S c) (hp : P c.receiver)
    (herror : ∀ r, P r → P (r.setOutput r.streamOut.setError))
    (hseg : ∀ seg, op = .segmentReceived seg → P (c.receiver.segmentReceived seg))
    (hread : ∀ len, op = .read len →
      P (c.receiver.setOutput (c.receiver.streamOut.read len).2)) :
    P (c.perform op).receiver := by
  have hstable := receiver_stable (P := P) herror
  cases op with
  | connect => exact (hstable.connect (S := S) ⟨h, hp⟩).2
  | write data => exact (hstable.write (S := S) ⟨h, hp⟩ data).2
  | endInputStream =>
    have hended := (h.1.call .endInput ⟨trivial, by simp⟩ rfl).1
    have hfill : Lively S ((c.callSender .endInput).callSender .fillWindow) := Lively.fill hended
    exact (hstable.tryClosingConnection (S := S) ⟨hfill, by simpa using hp⟩).2
  | tick ms => exact (hstable.tick (S := S) ⟨h, hp⟩ ms).2
  | segmentReceived seg =>
    have htaken : Lively S (c.takeIn seg) ∧ P (c.takeIn seg).receiver := by
      refine ⟨h.takeIn seg, ?_⟩
      refine takeIn_rule (P := fun c => P c.receiver) (hseg seg rfl) (fun c hc => herror _ hc) ?_
      intro c hc
      simpa using hc
    exact (hstable.segmentReceived htaken).2
  | read len => exact hread len rfl

end Receiver

section Flushed

variable {S : List UInt8} {c : TCPConnection}

/-- An active endpoint leaves nothing in the queue of its sender. -/
def Flushed (c : TCPConnection) : Prop := c.active = true → c.sender.segmentsOut = []

theorem flushed_sendSegments (c : TCPConnection) (rst : Bool) : Flushed (c.sendSegments rst) := by
  intro hactive
  cases hc : c.active with
  | true => rw [sendSegments_of_active hc]
  | false =>
    rw [sendSegments_of_inactive hc, hc] at hactive
    simp at hactive

theorem flushed_tryClosing (c : TCPConnection) : Flushed c.tryClosingConnection := by
  unfold tryClosingConnection
  split
  · dsimp only
    split
    · intro hactive
      simp at hactive
    · exact flushed_sendSegments c false
  · rename_i hoff
    intro hactive
    exact absurd hactive hoff

/-- The sender has queued new segments only, from the next sequence number on. -/
structure QueuedNew (s : TCPSender) (fresh : List OrderedSegment) (s' : TCPSender) : Prop where
  queue_eq : s'.segmentsOut = s.segmentsOut ++ fresh.map OrderedSegment.segment
  tiles : Consecutive s.nextSeqno fresh s'.nextSeqno
  seqno_eq : ∀ e ∈ fresh, e.segment.header.seqno = wrap e.seqno s.isn

theorem QueuedNew.none (s : TCPSender) : QueuedNew s [] s := ⟨by simp, rfl, by simp⟩

theorem queuedNew_ackReceived {s : TCPSender} (h : Output S s) (ackno : WrappingInt32)
    (win : UInt16) : ∃ fresh, QueuedNew s fresh (s.ackReceived ackno win) := by
  rcases ackReceived_cases s ackno win with ⟨-, heq⟩ | ⟨ack, -, hlo, hhi, heq⟩
  · rw [heq]
    exact ⟨[], by simp, rfl, by simp⟩
  · obtain ⟨firsts, hbooks⟩ := h.books
    obtain ⟨fresh, hafter, hfilled, -⟩ :=
      ((hbooks.setWindow win.toNat_lt).acknowledge hlo hhi).fillWindow
    rw [heq]
    refine ⟨fresh, hfilled.segmentsOut_eq, hfilled.tiles, ?_⟩
    intro e he
    rw [(hafter.honest e (List.mem_append_right _ he)).seqno_eq, hfilled.isn_eq]
    rfl

theorem queuedNew_takeIn (h : Output S c.sender) (seg : TCPSegment) :
    ∃ fresh, QueuedNew c.sender fresh (c.takeIn seg).sender := by
  have herror : Output S (c.sender.setStream c.sender.stream.setError) :=
    (h.call .setError ⟨trivial, by simp⟩ rfl).1
  unfold TCPConnection.takeIn
  dsimp only
  split <;> split
  · obtain ⟨fresh, hnew⟩ := queuedNew_ackReceived herror seg.header.ackno seg.header.win
    exact ⟨fresh, hnew.queue_eq, hnew.tiles, hnew.seqno_eq⟩
  · exact queuedNew_ackReceived h seg.header.ackno seg.header.win
  · exact ⟨[], by simp [reset, TCPSender.setStream], rfl, by simp⟩
  · exact ⟨[], QueuedNew.none c.sender⟩

/-- What is numbered from zero to zero is nothing. -/
theorem fresh_nil {fresh : List OrderedSegment} {a b : ℕ} (h : Consecutive a fresh b)
    (hzero : b = 0) : fresh = [] := by
  cases fresh with
  | nil => rfl
  | cons e rest =>
    have hle := (h.bounds (List.mem_cons_self ..)).2
    have hpos := h.length_pos (List.mem_cons_self ..)
    omega

theorem answer_of_not_sent {seg : TCPSegment} (h : c.synSent = false) : c.answer seg = c :=
  if_neg (by simp [h])

/-- Before the SYN is out nothing is queued, so the queue stays as it was. -/
theorem takeIn_unsent (h : Lively S c) {seg : TCPSegment} (hsent : (c.takeIn seg).synSent = false) :
    (c.takeIn seg).sender.segmentsOut = c.sender.segmentsOut ∧ c.synSent = false := by
  have hzero : (c.takeIn seg).sender.nextSeqno = 0 := by
    simpa [synSent, TCPSender.nextSeqnoAbsolute] using hsent
  obtain ⟨fresh, hnew⟩ := queuedNew_takeIn h.1 seg
  have hnil := fresh_nil hnew.tiles hzero
  have hle := hnew.tiles.le
  refine ⟨by simp [hnew.queue_eq, hnil], decide_eq_false ?_⟩
  unfold TCPSender.nextSeqnoAbsolute
  omega

theorem Flushed.segmentReceived (h : Flushed c) (hlively : Lively S c) (seg : TCPSegment) :
    Flushed (c.segmentReceived seg) := by
  have hanswer : Flushed ((c.takeIn seg).answer seg) := by
    cases hsent : (c.takeIn seg).synSent with
    | true =>
      unfold TCPConnection.answer
      rw [if_pos hsent]
      exact flushed_sendSegments _ false
    | false =>
      rw [answer_of_not_sent hsent]
      intro hactive
      rw [takeIn_active, Bool.and_eq_true] at hactive
      rw [(takeIn_unsent hlively hsent).1]
      exact h hactive.1
  have hswitch : ∀ c : TCPConnection, Flushed c → Flushed c.trySwitchingCloseMode := by
    intro c hc
    unfold trySwitchingCloseMode
    split <;> exact hc
  unfold TCPConnection.segmentReceived
  dsimp only
  apply hswitch
  split
  · exact flushed_sendSegments _ false
  · exact hanswer

theorem Flushed.perform (h : Flushed c) (hlively : Lively S c) (op : ConnectionOp) :
    Flushed (c.perform op) := by
  cases op with
  | connect => exact flushed_sendSegments _ false
  | write data =>
    change Flushed (c.write data).2
    unfold TCPConnection.write
    split
    · exact h
    · exact flushed_sendSegments _ false
  | endInputStream => exact flushed_tryClosing _
  | tick ms =>
    change Flushed (c.tick ms)
    unfold TCPConnection.tick
    split
    · exact flushed_tryClosing _
    · exact h
  | segmentReceived seg => exact h.segmentReceived hlively seg
  | read len => exact h

theorem reachable (cfg : TCPConfig) (random : WrappingInt32) (ops : List ConnectionOp) :
    ∃ S, Lively S (calls.exec (new cfg random) ops) ∧
      Flushed (calls.exec (new cfg random) ops) := by
  induction ops using List.reverseRecOn with
  | nil => exact ⟨[], new_lively cfg random, fun _ => rfl⟩
  | append_singleton ops op ih =>
    obtain ⟨S, hlively, hflushed⟩ := ih
    obtain ⟨S', hnext⟩ := hlively.perform op
    rw [Runs.Machine.exec_snoc]
    exact ⟨S', hnext, hflushed.perform hlively op⟩

end Flushed

section Answer

variable {S : List UInt8} {c : TCPConnection} {seg : TCPSegment}

/-- How an active endpoint answers a segment: with an acknowledgment whenever there is
something to acknowledge, and never with a bare one to a bare one. -/
structure Answered (c : TCPConnection) (seg : TCPSegment) (out : List TCPSegment) : Prop where
  appended : (c.segmentReceived seg).segmentsOut = c.segmentsOut ++ out
  answers : (0 < seg.lengthInSequenceSpace ∧ c.synSent = true) ∨ seg.header.syn = true → out ≠ []
  acks : ∀ ackno, (c.segmentReceived seg).receiver.ackno = some ackno →
    ∀ s ∈ out, s.header.ack = true ∧ s.header.ackno = ackno
  quiet : seg.lengthInSequenceSpace = 0 → ∀ s ∈ out, 0 < s.lengthInSequenceSpace ∧
    ∃ v, c.sender.nextSeqno ≤ v ∧
      v + s.lengthInSequenceSpace ≤ (c.segmentReceived seg).sender.nextSeqno ∧
      s.header.seqno = wrap v c.sender.isn

/-- The segments in the queue when `answer` emits it. -/
def reply (s : TCPSender) (seg : TCPSegment) : List TCPSegment :=
  if seg.lengthInSequenceSpace > 0 && s.segmentsOut.isEmpty then s.sendEmptySegment.segmentsOut
  else s.segmentsOut

theorem answer_of_sent (seg : TCPSegment) (hactive : c.active = true) (hsent : c.synSent = true) :
    (c.answer seg).segmentsOut = c.segmentsOut ++ (reply c.sender seg).map (c.stamp false) ∧
      (c.answer seg).sender.nextSeqno = c.sender.nextSeqno := by
  unfold TCPConnection.answer reply
  rw [if_pos hsent]
  dsimp only
  split
  · rw [sendSegments_of_active (by exact hactive)]
    exact ⟨rfl, rfl⟩
  · rw [sendSegments_of_active hactive]
    exact ⟨rfl, rfl⟩

/-- After `fill_window` the SYN is out: a closed window counts as one byte. -/
theorem fillWindow_sends_syn {s : TCPSender} (h : Ordered s) : 0 < s.fillWindow.nextSeqno := by
  obtain ⟨hord, -, hstop⟩ := h.fillWindow
  have hack := hord.sane.ack_le
  rcases Nat.eq_zero_or_pos s.fillWindow.nextSeqno with hzero | hpos
  · have hpending : Pending s.fillWindow := by
      refine ⟨?_, Or.inl hzero⟩
      simp only [TCPSender.finSent, hzero, Bool.and_eq_false_iff, decide_eq_false_iff_not]
      right
      omega
    exact absurd ((hord.sane.sends_iff_of_idle (by omega)).mpr hpending) hstop
  · exact hpos

theorem fillWindow_queue_ne_nil {s : TCPSender} (h : Output S s) (hzero : s.nextSeqno = 0) :
    s.fillWindow.segmentsOut ≠ [] := by
  have hpos := fillWindow_sends_syn h.ordered
  obtain ⟨-, ⟨fresh, hfilled⟩, -⟩ := h.ordered.fillWindow
  have htiles := hfilled.tiles
  cases fresh with
  | nil =>
    have hsame : s.nextSeqno = s.fillWindow.nextSeqno := htiles
    omega
  | cons e rest =>
    rw [hfilled.segmentsOut_eq]
    simp

theorem segmentReceived_of_sent (hactive : (c.takeIn seg).active = true)
    (hsent : (c.takeIn seg).synSent = true) :
    (c.segmentReceived seg).segmentsOut = c.segmentsOut ++
        (reply (c.takeIn seg).sender seg).map ((c.takeIn seg).stamp false) ∧
      (c.segmentReceived seg).sender.nextSeqno = (c.takeIn seg).sender.nextSeqno := by
  obtain ⟨hout, hnext⟩ := answer_of_sent seg hactive hsent
  have hstill : ((c.takeIn seg).answer seg).synSent = true := by
    unfold synSent TCPSender.nextSeqnoAbsolute at hsent ⊢
    rw [hnext]
    exact hsent
  unfold TCPConnection.segmentReceived
  dsimp only
  rw [if_neg (by simp [hstill]), trySwitchingCloseMode_segmentsOut, trySwitchingCloseMode_sender,
    hout, takeIn_segmentsOut]
  exact ⟨rfl, hnext⟩

/-- Before its SYN is out, an endpoint answers a SYN by connecting and nothing else. -/
theorem segmentReceived_of_unsent (hactive : (c.takeIn seg).active = true)
    (hsent : (c.takeIn seg).synSent = false) :
    (c.segmentReceived seg).segmentsOut = c.segmentsOut ++
      if seg.header.syn then
        (c.takeIn seg).sender.fillWindow.segmentsOut.map ((c.takeIn seg).stamp false) else [] := by
  unfold TCPConnection.segmentReceived
  dsimp only
  rw [trySwitchingCloseMode_segmentsOut, answer_of_not_sent hsent, hsent, Bool.not_false,
    Bool.and_true]
  split
  · unfold TCPConnection.connect
    rw [sendSegments_segmentsOut _ (by exact hactive)]
    change (c.takeIn seg).segmentsOut ++ _ = _
    rw [takeIn_segmentsOut]
    rfl
  · rw [takeIn_segmentsOut, List.append_nil]

/-- A queue that holds only what `takeIn` has sent is all new data. -/
theorem quiet_of_sent {fresh : List OrderedSegment} (hqueue : c.sender.segmentsOut = [])
    (hnew : QueuedNew c.sender fresh (c.takeIn seg).sender)
    (hempty : seg.lengthInSequenceSpace = 0) {s : TCPSegment}
    (hs : s ∈ (reply (c.takeIn seg).sender seg).map ((c.takeIn seg).stamp false)) :
    0 < s.lengthInSequenceSpace ∧ ∃ v, c.sender.nextSeqno ≤ v ∧
      v + s.lengthInSequenceSpace ≤ (c.takeIn seg).sender.nextSeqno ∧
      s.header.seqno = wrap v c.sender.isn := by
  have hreply : reply (c.takeIn seg).sender seg = fresh.map OrderedSegment.segment := by
    unfold reply
    rw [if_neg (by simp [hempty]), hnew.queue_eq, hqueue, List.nil_append]
  rw [hreply] at hs
  obtain ⟨plain, hplain, rfl⟩ := List.mem_map.mp hs
  obtain ⟨e, he, rfl⟩ := List.mem_map.mp hplain
  obtain ⟨hseqno, hlen⟩ := stamp_frame (c.takeIn seg) false e.segment
  rw [hseqno, hlen]
  have hbounds := hnew.tiles.bounds he
  exact ⟨hnew.tiles.length_pos he, e.seqno, hbounds.1, hbounds.2, hnew.seqno_eq e he⟩

theorem reply_ne_nil (s : TCPSender) (hpos : 0 < seg.lengthInSequenceSpace) :
    reply s seg ≠ [] := by
  unfold reply TCPSender.sendEmptySegment
  cases hout : s.segmentsOut with
  | nil => simp [hpos]
  | cons first rest => simp

theorem length_pos_of_syn (hsyn : seg.header.syn = true) : 0 < seg.lengthInSequenceSpace := by
  unfold TCPSegment.lengthInSequenceSpace
  rw [if_pos hsyn]
  omega

/-- What is emitted acknowledges what the receiver has after the segment. -/
theorem segmentReceived_acks (h : Lively S c) (seg : TCPSegment) :
    ∃ out, (c.segmentReceived seg).segmentsOut = c.segmentsOut ++ out ∧
      ∀ ackno, (c.segmentReceived seg).receiver.ackno = some ackno →
        ∀ s ∈ out, s.header.ack = true ∧ s.header.ackno = ackno := by
  obtain ⟨out, happended, hstamped⟩ := perform_emits h (.segmentReceived seg)
  refine ⟨out, happended, ?_⟩
  intro ackno hackno s hs
  have hstamp : Stamped (c.segmentReceived seg).receiver.ackno _ s := hstamped s hs
  rw [hackno] at hstamp
  exact hstamp.acks

theorem answered_of_sent (h : Lively S c) (hqueue : c.sender.segmentsOut = [])
    (hactive : (c.takeIn seg).active = true) (hsent : (c.takeIn seg).synSent = true) :
    ∃ out, Answered c seg out := by
  obtain ⟨out, happended, hacks⟩ := segmentReceived_acks h seg
  obtain ⟨fresh, hnew⟩ := queuedNew_takeIn h.1 seg
  obtain ⟨hout, hnext⟩ := segmentReceived_of_sent hactive hsent
  have heq := List.append_cancel_left (happended.symm.trans hout)
  refine ⟨out, happended, ?_, hacks, ?_⟩
  · intro hcase
    have hpos : 0 < seg.lengthInSequenceSpace := hcase.elim (fun h => h.1) length_pos_of_syn
    rw [heq]
    simpa using reply_ne_nil _ hpos
  · intro hempty s hs
    rw [hnext]
    exact quiet_of_sent hqueue hnew hempty (heq ▸ hs)

/-- With the SYN still to send there is nothing but a SYN to answer. -/
theorem answered_of_unsent (h : Lively S c) (hactive : (c.takeIn seg).active = true)
    (hsent : (c.takeIn seg).synSent = false) : ∃ out, Answered c seg out := by
  obtain ⟨out, happended, hacks⟩ := segmentReceived_acks h seg
  have hout := segmentReceived_of_unsent hactive hsent
  have heq := List.append_cancel_left (happended.symm.trans hout)
  obtain ⟨-, hbefore⟩ := takeIn_unsent h hsent
  refine ⟨out, happended, ?_, hacks, ?_⟩
  · intro hcase
    have hsyn : seg.header.syn = true := by
      rcases hcase with h | h
      · rw [hbefore] at h
        simp at h
      · exact h
    rw [heq, if_pos hsyn]
    simpa using fillWindow_queue_ne_nil (h.takeIn seg).1
      (by simpa [synSent, TCPSender.nextSeqnoAbsolute] using hsent)
  · intro hempty s hs
    have hsyn : ¬seg.header.syn = true := by
      intro hsyn
      exact absurd hempty (length_pos_of_syn hsyn).ne'
    rw [heq, if_neg hsyn] at hs
    simp at hs

/-- Every answer of every reachable active endpoint to a segment without RST. -/
theorem ack_discipline (cfg : TCPConfig) (random : WrappingInt32) (ops : List ConnectionOp)
    (seg : TCPSegment) (hactive : (calls.exec (new cfg random) ops).active = true)
    (hrst : seg.header.rst = false) :
    ∃ out, Answered (calls.exec (new cfg random) ops) seg out := by
  obtain ⟨S, hlively, hflushed⟩ := reachable cfg random ops
  generalize calls.exec (new cfg random) ops = c at *
  have hstill : (c.takeIn seg).active = true := by
    rw [takeIn_active, hactive, hrst]
    rfl
  cases hsent : (c.takeIn seg).synSent with
  | true => exact answered_of_sent hlively (hflushed hactive) hstill hsent
  | false => exact answered_of_unsent hlively hstill hsent

theorem ack_discipline_repeated_syn :
    ∃ out, Answered (calls.exec (new ⟨1000, 1, 1, some ⟨0⟩⟩ ⟨0⟩)
      [.segmentReceived ⟨{ seqno := ⟨7⟩, syn := true }, []⟩])
      ⟨{ seqno := ⟨7⟩, syn := true }, []⟩ out :=
  ack_discipline ⟨1000, 1, 1, some ⟨0⟩⟩ ⟨0⟩ [.segmentReceived ⟨{ seqno := ⟨7⟩, syn := true }, []⟩]
    ⟨{ seqno := ⟨7⟩, syn := true }, []⟩ (by decide) (by decide)

end Answer

end Sponge.Emission
