import Sponge.Handshake
import Sponge.RetryTimeout
import Sponge.SilentPeer

/-!
The record of an endpoint: the segments it has emitted or queued.
Apart from empty segments these are copies of first transmissions, and each first
transmission has a copy among them. An endpoint that is still active has emitted no RST
and has not used up its retries. What its peer has got lies below its next sequence
number.
-/
namespace Sponge.Record

open Words Tiling SenderLoop SenderQueue SenderBooks SenderRuns SenderOutput ConnectionCalls
  ConnectionProgress Emission Reassembly Link TCPConnection

/-- The second segment carries the piece of the stream that the first one carries. -/
structure Copy (seg seg' : TCPSegment) : Prop where
  seqno_eq : seg'.header.seqno = seg.header.seqno
  syn_eq : seg'.header.syn = seg.header.syn
  fin_eq : seg'.header.fin = seg.header.fin
  payload_eq : seg'.payload = seg.payload

theorem Copy.refl (seg : TCPSegment) : Copy seg seg := ⟨rfl, rfl, rfl, rfl⟩

theorem Copy.stamp {seg seg' : TCPSegment} (h : Copy seg seg') (c : TCPConnection) (rst : Bool) :
    Copy seg (c.stamp rst seg') := by
  obtain ⟨h1, h2, h3, h4⟩ := h
  unfold TCPConnection.stamp
  cases c.receiver.ackno <;> cases rst <;> exact ⟨h1, h2, h3, h4⟩

theorem Copy.length_eq {seg seg' : TCPSegment} (h : Copy seg seg') :
    seg'.lengthInSequenceSpace = seg.lengthInSequenceSpace := by
  unfold TCPSegment.lengthInSequenceSpace
  rw [h.syn_eq, h.fin_eq, h.payload_eq]

theorem Copy.honest {seg seg' : TCPSegment} (h : Copy seg seg') {isn : WrappingInt32}
    {S : List UInt8} {v : ℕ} (hpiece : HonestPiece isn S v seg) : HonestPiece isn S v seg' where
  seqno_eq := h.seqno_eq.trans hpiece.seqno_eq
  syn_iff := h.syn_eq ▸ hpiece.syn_iff
  excerpt := h.payload_eq ▸ hpiece.excerpt
  fin_last := by
    rw [h.fin_eq, h.payload_eq]
    exact hpiece.fin_last

/-- Emitted, or queued to be emitted. -/
def said (c : TCPConnection) : List TCPSegment := c.segmentsOut ++ c.sender.segmentsOut

/-- A copy of a first transmission, or a segment with neither payload nor flags. -/
inductive Repeats (firsts : List OrderedSegment) (s : TCPSender) (seg : TCPSegment) : Prop
  | first (e : OrderedSegment) (mem : e ∈ firsts) (copy : Copy e.segment seg)
  | empty (v : ℕ) (le : v ≤ s.nextSeqno) (copy : Copy { header := { seqno := wrap v s.isn } } seg)
      (pos : 0 < v)

structure Kept (S : List UInt8) (firsts : List OrderedSegment) (c : TCPConnection) : Prop where
  output : Output S c.sender
  books : Books S firsts c.sender
  repeats : ∀ seg ∈ said c, Repeats firsts c.sender seg
  copied : ∀ e ∈ firsts, ∃ seg ∈ said c, Copy e.segment seg

theorem new_kept (cfg : TCPConfig) (random : WrappingInt32) : Kept [] [] (new cfg random) where
  output := new_output _ _ _ _
  books := new_books _ _ _ _
  repeats seg hseg := by simp [said, new, TCPSender.new] at hseg
  copied e he := by simp at he

section Moves

variable {S : List UInt8} {firsts firsts' : List OrderedSegment} {c c' : TCPConnection}
  {s s' : TCPSender} {seg : TCPSegment}

theorem Repeats.grow (h : Repeats firsts s seg) (hsub : firsts ⊆ firsts') (hisn : s'.isn = s.isn)
    (hnext : s.nextSeqno ≤ s'.nextSeqno) : Repeats firsts' s' seg := by
  cases h with
  | first e mem copy => exact .first e (hsub mem) copy
  | empty v le copy pos => exact .empty v (Nat.le_trans le hnext) (hisn ▸ copy) pos

theorem Repeats.stamp (h : Repeats firsts s seg) (rst : Bool) :
    Repeats firsts s (c.stamp rst seg) := by
  cases h with
  | first e mem copy => exact .first e mem (copy.stamp c rst)
  | empty v le copy pos => exact .empty v le (copy.stamp c rst) pos

/-- Where the piece of a recorded segment lies. -/
theorem Repeats.piece (h : Repeats firsts s seg) (hbooks : Books S firsts s) :
    ∃ v, HonestPiece s.isn S v seg ∧ v + seg.lengthInSequenceSpace ≤ s.nextSeqno := by
  cases h with
  | first e mem copy =>
    refine ⟨e.seqno, copy.honest (hbooks.honest e mem), ?_⟩
    rw [copy.length_eq]
    exact (hbooks.tiles.bounds mem).2
  | empty v le copy pos =>
    refine ⟨v, copy.honest ⟨rfl, ?_, List.nil_prefix, fun hfin => by simp at hfin⟩, ?_⟩
    · exact ⟨fun hsyn => by simp at hsyn, fun hzero => by omega⟩
    · rw [copy.length_eq]
      exact le

/-- The queue of the sender only grows, as long as nobody pops from it. -/
theorem apply_queue (hord : Ordered s) {op : SenderOp} (hop : op ≠ .popSegment) :
    ∃ out, (s.apply op).segmentsOut = s.segmentsOut ++ out := by
  have hnone : ∀ t : TCPSender, t.segmentsOut = s.segmentsOut →
      ∃ out, t.segmentsOut = s.segmentsOut ++ out := fun t ht => ⟨[], by rw [ht, List.append_nil]⟩
  cases op with
  | fillWindow =>
    obtain ⟨-, ⟨fresh, hfilled⟩, -⟩ := hord.fillWindow
    exact ⟨_, hfilled.segmentsOut_eq⟩
  | ackReceived ackno win =>
    rcases ackReceived_cases s ackno win with ⟨-, heq⟩ | ⟨ack, -, hlo, hhi, heq⟩
    · exact hnone _ (by rw [TCPSender.apply, heq])
    · obtain ⟨-, ⟨fresh, hfilled⟩, -⟩ :=
        ((hord.setWindow win.toNat_lt).acknowledge hlo hhi).fillWindow
      exact ⟨_, by rw [TCPSender.apply, heq]; exact hfilled.segmentsOut_eq⟩
  | tick ms =>
    rcases (tick_cases s ms).2 with ⟨-, hsame, -, -⟩ | ⟨oldest, rest, -, -, hpush, -⟩
    · exact hnone _ hsame
    · exact ⟨_, hpush⟩
  | sendEmptySegment => exact ⟨_, rfl⟩
  | popSegment => exact absurd rfl hop
  | write data => exact hnone _ rfl
  | endInput => exact hnone _ rfl
  | setError => exact hnone _ rfl

/-- Every call of the sender keeps the record, with the new segments among the firsts. -/
theorem Kept.call (h : Kept S firsts c) (op : SenderOp) (hop : Proper c.sender op)
    (hpop : op ≠ .popSegment) : Kept (S ++ c.sender.acceptedBy op)
      (firsts ++ newEntries c.sender (c.sender.apply op)) (c.callSender op) := by
  obtain ⟨hout, hforward⟩ := h.output.apply op hop
  obtain ⟨hbooks, ⟨rest, hpush, hrest⟩, hqueue⟩ := callEffect h.books op hop.1
  obtain ⟨out, hout_eq⟩ := apply_queue h.books.ordered hpop
  have hpushed : pushed c.sender (c.sender.apply op) = out := pushed_of_append hout_eq
  have hgrow : ∀ seg, Repeats firsts c.sender seg →
      Repeats (firsts ++ newEntries c.sender (c.sender.apply op)) (c.sender.apply op) seg :=
    fun seg hseg => hseg.grow (List.subset_append_left _ _) hforward.isn_eq hforward.next_le
  refine ⟨hout, hbooks, ?_, ?_⟩
  · intro seg hseg
    rcases List.mem_append.mp hseg with hold | hnew
    · exact hgrow seg (h.repeats seg (List.mem_append_left _ hold))
    rcases hqueue seg hnew with hold | hnew
    · exact hgrow seg (h.repeats seg (List.mem_append_right _ hold))
    rw [hpush] at hnew
    rcases List.mem_append.mp hnew with hfirst | hagain
    · obtain ⟨e, he, rfl⟩ := List.mem_map.mp hfirst
      exact .first e (List.mem_append_right _ he) (Copy.refl _)
    · rcases hrest seg hagain with ⟨e, he, rfl⟩ | ⟨hempty, rfl⟩
      · have hmem := h.books.suffix.subset (List.mem_of_mem_head? he)
        exact .first e (List.mem_append_left _ hmem) (Copy.refl _)
      · exact hgrow _ (.empty _ (Nat.le_refl _) (Copy.refl _) (hop.2 hempty))
  · intro e he
    have hsaid : said (c.callSender op) = said c ++ out := by
      unfold said
      rw [callSender_segmentsOut, List.append_assoc]
      exact congrArg _ hout_eq
    rw [hsaid]
    rcases List.mem_append.mp he with hold | hnew
    · obtain ⟨seg, hseg, hcopy⟩ := h.copied e hold
      exact ⟨seg, List.mem_append_left _ hseg, hcopy⟩
    · refine ⟨e.segment, List.mem_append_right _ ?_, Copy.refl _⟩
      rw [← hpushed, hpush]
      exact List.mem_append_left _ (List.mem_map_of_mem hnew)

/-- Emitting moves the queue into the record of emitted segments. -/
theorem Kept.emit (h : Kept S firsts c) (rst : Bool) : Kept S firsts (c.sendSegments rst) := by
  cases hactive : c.active with
  | false =>
    rw [sendSegments_of_inactive hactive]
    exact h
  | true =>
    rw [sendSegments_of_active hactive]
    have hsaid : said { c with
        sender := { c.sender with segmentsOut := [] }
        segmentsOut := c.segmentsOut ++ c.sender.segmentsOut.map (c.stamp rst) } =
        c.segmentsOut ++ c.sender.segmentsOut.map (c.stamp rst) := List.append_nil _
    refine ⟨h.output.drain, h.books.of_same ⟨rfl, rfl, rfl, rfl, rfl, rfl, rfl⟩, ?_, ?_⟩
    · rw [hsaid]
      intro seg hseg
      rcases List.mem_append.mp hseg with hold | hnew
      · exact (h.repeats seg (List.mem_append_left _ hold)).grow (List.Subset.refl _) rfl
          (Nat.le_refl _)
      · obtain ⟨seg', hmem, rfl⟩ := List.mem_map.mp hnew
        exact ((h.repeats seg' (List.mem_append_right _ hmem)).stamp rst).grow
          (List.Subset.refl _) rfl (Nat.le_refl _)
    · intro e he
      obtain ⟨seg, hseg, hcopy⟩ := h.copied e he
      rw [hsaid]
      rcases List.mem_append.mp hseg with hold | hqueued
      · exact ⟨seg, List.mem_append_left _ hold, hcopy⟩
      · exact ⟨_, List.mem_append_right _ (List.mem_map_of_mem hqueued), hcopy.stamp c rst⟩

/-- Only the sender and the emitted segments matter. -/
theorem Kept.of_same (h : Kept S firsts c) (hs : c'.sender = c.sender)
    (ho : c'.segmentsOut = c.segmentsOut) : Kept S firsts c' := by
  obtain ⟨h1, h2, h3, h4⟩ := h
  have hsaid : said c' = said c := by
    unfold said
    rw [hs, ho]
  rw [← hs] at h1 h2 h3
  rw [← hsaid] at h3 h4
  exact ⟨h1, h2, h3, h4⟩

end Moves

/-- The record is kept for some list of first transmissions. -/
def Documented (S : List UInt8) (c : TCPConnection) : Prop := ∃ firsts, Kept S firsts c

section Calls

variable {S : List UInt8} {c c' : TCPConnection}

theorem Documented.call (h : Documented S c) (op : SenderOp) (hop : Proper c.sender op)
    (hpop : op ≠ .popSegment) : Documented (S ++ c.sender.acceptedBy op) (c.callSender op) := by
  obtain ⟨firsts, hkept⟩ := h
  exact ⟨_, hkept.call op hop hpop⟩

theorem Documented.quietCall (h : Documented S c) (op : SenderOp) (hop : Proper c.sender op)
    (hpop : op ≠ .popSegment) (hnil : c.sender.acceptedBy op = []) :
    Documented S (c.callSender op) := by
  have hcall := h.call op hop hpop
  rw [hnil, List.append_nil] at hcall
  exact hcall

theorem Documented.of_same (h : Documented S c) (hs : c'.sender = c.sender)
    (ho : c'.segmentsOut = c.segmentsOut) : Documented S c' := by
  obtain ⟨firsts, hkept⟩ := h
  exact ⟨firsts, hkept.of_same hs ho⟩

theorem Documented.reset (h : Documented S c) : Documented S c.reset :=
  (h.quietCall .setError ⟨trivial, by simp⟩ (by simp) rfl).of_same rfl rfl

theorem documented_stable : Stable Documented where
  retx _ _ h := by
    obtain ⟨firsts, hkept⟩ := h
    exact hkept.output.retx
  fill _ _ h := h.quietCall .fillWindow ⟨trivial, by simp⟩ (by simp) rfl
  writeFill _ _ data h hopen :=
    (h.call (.write data) ⟨hopen, by simp⟩ (by simp)).quietCall .fillWindow ⟨trivial, by simp⟩
      (by simp) rfl
  count _ _ ms h := h.quietCall (.tick ms) ⟨trivial, by simp⟩ (by simp) rfl
  empty _ _ h hsent := h.quietCall .sendEmptySegment ⟨trivial, fun _ => hsent⟩ (by simp) rfl
  emit _ _ rst h := by
    obtain ⟨firsts, hkept⟩ := h
    exact ⟨firsts, hkept.emit rst⟩
  reset _ _ h := h.reset
  switch _ c h := h.of_same (trySwitchingCloseMode_sender c) (trySwitchingCloseMode_segmentsOut c)
  close _ _ h _ _ := h.of_same rfl rfl
  timer _ _ _ h := h.of_same rfl rfl

theorem Documented.takeIn (h : Documented S c) (seg : TCPSegment) :
    Documented S (c.takeIn seg) := by
  refine takeIn_rule (h.of_same rfl rfl) (fun c hc => hc.reset) ?_
  intro c hc
  exact hc.quietCall (.ackReceived seg.header.ackno seg.header.win) ⟨trivial, by simp⟩ (by simp) rfl

end Calls

section Active

variable {S : List UInt8} {c : TCPConnection}

/-- An active endpoint has emitted no RST. -/
def Unreset (c : TCPConnection) : Prop :=
  c.active = true → ∀ seg ∈ c.segmentsOut, seg.header.rst = false

theorem Unreset.emit (h : Unreset c) (hout : Output S c.sender) :
    Unreset (c.sendSegments false) := by
  intro hactive
  rw [sendSegments_active] at hactive
  rw [sendSegments_of_active hactive]
  refine List.forall_mem_append.mpr ⟨h hactive, ?_⟩
  rw [List.forall_mem_map]
  exact fun seg hseg => SilentPeer.stamp_rst c false (hout.queued seg hseg).2

theorem Unreset.of_same {c' : TCPConnection} (h : Unreset c)
    (ha : c'.active = true → c.active = true) (ho : c'.segmentsOut = c.segmentsOut) :
    Unreset c' := by
  intro hactive
  rw [ho]
  exact h (ha hactive)

theorem Unreset.tryClosingConnection (h : Unreset c) (hout : Output S c.sender) :
    Unreset c.tryClosingConnection := by
  unfold TCPConnection.tryClosingConnection
  split
  · dsimp only
    split
    · intro hactive
      simp at hactive
    · exact h.emit hout
  · exact h

theorem Unreset.segmentReceived (h : Unreset c) (hlively : Lively S c) (seg : TCPSegment) :
    Unreset (c.segmentReceived seg) := by
  have htaken : Unreset (c.takeIn seg) := by
    apply h.of_same _ (takeIn_segmentsOut c seg)
    rw [takeIn_active, Bool.and_eq_true]
    exact And.left
  have hanswer : Unreset ((c.takeIn seg).answer seg) := by
    unfold TCPConnection.answer
    split
    · rename_i hsent
      have hpos : 0 < (c.takeIn seg).sender.nextSeqno := of_decide_eq_true hsent
      dsimp only
      split
      · exact (htaken.of_same id rfl : Unreset ((c.takeIn seg).callSender .sendEmptySegment)).emit
          (lively_stable.empty S _ (hlively.takeIn seg) hpos).1
      · exact htaken.emit (hlively.takeIn seg).1
    · exact htaken
  unfold TCPConnection.segmentReceived
  dsimp only
  refine Unreset.of_same ?_ ?_ (trySwitchingCloseMode_segmentsOut _)
  · split
    · have hfilled := lively_stable.fill S _ (lively_stable.answer (hlively.takeIn seg) seg)
      exact (hanswer.of_same id rfl :
        Unreset (((c.takeIn seg).answer seg).callSender .fillWindow)).emit hfilled.1
    · exact hanswer
  · rw [trySwitchingCloseMode_active]
    exact id

/-- A tick emits a RST only when it gives up. -/
theorem Unreset.tick (h : Unreset c) (hlively : Lively S c) (ms : ℕ) : Unreset (c.tick ms) := by
  intro hactive
  obtain ⟨hbefore, hfew, -⟩ := RetryTimeout.tick_of_active hactive
  have hcounted := lively_stable.timer S _ (wrapAdd 64 c.lastSegmRecvTimer ms)
    (lively_stable.count S c ms hlively)
  have hunreset : Unreset { c.callSender (.tick ms) with
      lastSegmRecvTimer := wrapAdd 64 c.lastSegmRecvTimer ms } := h.of_same id rfl
  revert hactive
  change Unreset (c.tick ms)
  unfold TCPConnection.tick
  rw [if_pos hbefore]
  dsimp only
  rw [if_neg (Nat.not_lt.mpr hfew)]
  exact (hunreset.emit hcounted.1).tryClosingConnection (lively_stable.emit S _ false hcounted).1

theorem Unreset.perform (h : Unreset c) (hlively : Lively S c) (op : ConnectionOp) :
    Unreset (c.perform op) := by
  cases op with
  | connect =>
    exact (h.of_same id rfl : Unreset (c.callSender .fillWindow)).emit
      (lively_stable.fill S c hlively).1
  | write data =>
    change Unreset (c.write data).2
    unfold TCPConnection.write
    split
    · exact h
    · rename_i hopen
      simp only [Bool.or_eq_true, not_or, Bool.not_eq_true] at hopen
      exact (h.of_same id rfl :
        Unreset ((c.callSender (.write data)).callSender .fillWindow)).emit
        (lively_stable.writeFill S c data hlively hopen.1).1
  | endInputStream =>
    have hended := (hlively.1.call .endInput ⟨trivial, by simp⟩ rfl).1
    have hfill : Lively S ((c.callSender .endInput).callSender .fillWindow) := Lively.fill hended
    exact (h.of_same id rfl :
      Unreset ((c.callSender .endInput).callSender .fillWindow)).tryClosingConnection hfill.1
  | tick ms => exact h.tick hlively ms
  | segmentReceived seg => exact h.segmentReceived hlively seg
  | read len => exact h

/-- The retries of a sender are within their limit. -/
def Few (s : TCPSender) : Prop := s.nConsecRetransmissions ≤ TCPConfig.maxRetxAttempts

theorem few_paced : RetryTimeout.Paced Few where
  queue _ _ h := h
  stream _ _ h := h
  fill s hord h := by
    obtain ⟨-, ⟨fresh, hfilled⟩, -⟩ := hord.fillWindow
    unfold Few
    rw [hfilled.retx_eq]
    exact h

theorem Few.ackReceived {s : TCPSender} (h : Few s) (hord : Ordered s) (ackno : WrappingInt32)
    (win : UInt16) : Few (s.ackReceived ackno win) := by
  rcases ackReceived_cases s ackno win with ⟨-, heq⟩ | ⟨ack, -, hlo, hhi, heq⟩
  · rw [heq]
    exact h
  · rw [heq]
    exact few_paced.fill _ ((hord.setWindow win.toNat_lt).acknowledge hlo hhi) (Nat.zero_le _)

theorem Few.tick {s : TCPSender} (h : Few s) {ms : ℕ}
    (hle : (s.tick ms).consecutiveRetransmissions ≤ TCPConfig.maxRetxAttempts) :
    Few (s.tick ms) := by
  have hone := RetryTimeout.tick_retx_le s ms
  unfold Few TCPConfig.maxRetxAttempts at *
  unfold TCPSender.consecutiveRetransmissions at hle
  omega

theorem Few.perform (h : c.active = true → Few c.sender) (hlively : Lively S c) (op : ConnectionOp)
    (hactive : (c.perform op).active = true) : Few (c.perform op).sender := by
  have hfew := h (RetryTimeout.active_of_perform hactive)
  apply few_paced.perform hlively hfew hactive
  · exact fun ms _ hle => hfew.tick hle
  · exact fun seg _ _ _ => hfew.ackReceived hlively.1.ordered _ _

end Active

section Receiver

theorem segmentReceived_capacity (r : TCPReceiver) (seg : TCPSegment) :
    (r.segmentReceived seg).reassembler.capacity = r.reassembler.capacity := by
  unfold TCPReceiver.segmentReceived
  dsimp only
  split
  · rw [TCPReceiver.noteSyn_reassembler]
  · rw [TCPReceiver.noteSyn_reassembler]
    refine pushSubstring_rule _ _ _ (P := fun q => q.capacity = r.reassembler.capacity) rfl ?_
      (fun _ _ _ hq => hq) ?_ ?_
    · intro q hq
      unfold StreamReassembler.markEof
      split <;> exact hq
    · intro q chunk hq
      unfold StreamReassembler.place
      split <;> exact hq
    · intro q hq
      unfold StreamReassembler.checkEof
      split <;> exact hq

variable {c : TCPConnection} {seg : TCPSegment}

/-- A segment without RST reaches the receiver and nothing else does. -/
theorem segmentReceived_receiver (hrst : seg.header.rst = false) :
    (c.segmentReceived seg).receiver = c.receiver.segmentReceived seg := by
  have htaken : (c.takeIn seg).receiver = c.receiver.segmentReceived seg := by
    unfold takeIn
    simp only [hrst, Bool.false_eq_true, if_false]
    split <;> rfl
  unfold TCPConnection.segmentReceived
  dsimp only
  rw [trySwitchingCloseMode_receiver]
  split
  · unfold TCPConnection.connect
    rw [sendSegments_receiver]
    exact (ConnectionStates.answer_frame (c.takeIn seg) seg).1.trans htaken
  · exact (ConnectionStates.answer_frame (c.takeIn seg) seg).1.trans htaken

end Receiver

section Progress

variable {S : List UInt8} {c : TCPConnection}

/-- The sequence numbers in use and the end of the input are not taken back. -/
structure Reached (next : ℕ) (ended : Bool) (S : List UInt8) (c : TCPConnection) : Prop where
  lively : Lively S c
  next_le : next ≤ c.sender.nextSeqno
  ended : ended = true → c.sender.stream.inputEnded = true

theorem Reached.of_sender {next : ℕ} {ended : Bool} {S' : List UInt8} {c' : TCPConnection}
    (h : Reached next ended S c) (hlively : Lively S' c')
    (hnext : c.sender.nextSeqno ≤ c'.sender.nextSeqno)
    (hended : c'.sender.stream.inputEnded = c.sender.stream.inputEnded) :
    Reached next ended S' c' :=
  ⟨hlively, Nat.le_trans h.next_le hnext, fun hend => hended.trans (h.ended hend)⟩

theorem reached_stable (next : ℕ) (ended : Bool) : Stable (Reached next ended) where
  retx S c h := lively_stable.retx S c h.lively
  fill S c h := by
    obtain ⟨-, ⟨fresh, hfilled⟩, -⟩ := h.lively.1.ordered.fillWindow
    exact h.of_sender (lively_stable.fill S c h.lively) hfilled.tiles.le hfilled.ended_eq
  writeFill S c data h hopen := by
    have hvalid := h.lively.1.ordered.sane.stream_valid.write_valid data
    obtain ⟨-, ⟨fresh, hfilled⟩, -⟩ := (h.lively.1.ordered.setStream hvalid).fillWindow
    exact h.of_sender (lively_stable.writeFill S c data h.lively hopen) hfilled.tiles.le
      hfilled.ended_eq
  count S c ms h := by
    have hsame := (tick_cases c.sender ms).1
    exact h.of_sender (lively_stable.count S c ms h.lively) (Nat.le_of_eq hsame.nextSeqno_eq.symm)
      (congrArg ByteStream.inputEnded hsame.stream_eq)
  empty S c h hsent :=
    h.of_sender (lively_stable.empty S c h.lively hsent) (Nat.le_refl _) rfl
  emit S c rst h := h.of_sender (lively_stable.emit S c rst h.lively)
    (Nat.le_of_eq (ConnectionStates.sendSegments_nextSeqno c rst).symm)
    (congrArg ByteStream.inputEnded (sendSegments_stream c rst))
  reset S c h := h.of_sender (lively_stable.reset S c h.lively) (Nat.le_refl _) rfl
  switch S c h := by
    have hsame := trySwitchingCloseMode_sender c
    refine h.of_sender (lively_stable.switch S c h.lively) ?_ ?_
    · rw [hsame]
    · rw [hsame]
  close S c h hin hout :=
    h.of_sender (lively_stable.close S c h.lively hin hout) (Nat.le_refl _) rfl
  timer S c t h := h.of_sender (lively_stable.timer S c t h.lively) (Nat.le_refl _) rfl

theorem Reached.takeIn {next : ℕ} {ended : Bool} (h : Reached next ended S c) (seg : TCPSegment) :
    Reached next ended S (c.takeIn seg) := by
  refine takeIn_rule (h.of_sender h.lively (Nat.le_refl _) rfl)
    (fun c hc => (reached_stable next ended).reset S c hc) ?_
  intro c hc
  obtain ⟨hout, hforward⟩ := hc.lively.1.call
    (.ackReceived seg.header.ackno seg.header.win) ⟨trivial, by simp⟩ rfl
  exact hc.of_sender ⟨hout, hc.lively.2.ackReceived hc.lively.1.ordered _ _⟩ hforward.next_le
    (hc.lively.1.ordered.ackReceived_ended _ _)

/-- After the acknowledgment the rest of a call does not move the acknowledgment number. -/
theorem segmentReceived_absAckno (h : Lively S c) (seg : TCPSegment) :
    (c.segmentReceived seg).sender.absAckno = (c.takeIn seg).sender.absAckno := by
  rcases segmentReceived_requeued c seg with ⟨out, heq⟩ | ⟨s, ⟨out, rfl⟩, -, ⟨out', heq⟩⟩
  · rw [heq]
  · have hord : Ordered { (c.takeIn seg).sender with segmentsOut := out } :=
      (h.takeIn seg).1.ordered.of_same ⟨rfl, rfl, rfl, rfl, rfl, rfl, rfl⟩
    obtain ⟨-, ⟨fresh, hfilled⟩, -⟩ := hord.fillWindow
    rw [heq]
    exact hfilled.absAckno_eq

/-- The acknowledgment number is not taken back. -/
theorem absAckno_le_segmentReceived (h : Lively S c) (seg : TCPSegment) :
    c.sender.absAckno ≤ (c.segmentReceived seg).sender.absAckno := by
  rw [segmentReceived_absAckno h seg]
  refine (takeIn_rule (P := fun d => Lively S d ∧ c.sender.absAckno ≤ d.sender.absAckno)
    ⟨h, Nat.le_refl _⟩ (fun d hd => ⟨lively_stable.reset S d hd.1, hd.2⟩) ?_).2
  rintro d ⟨hd, hle⟩
  have hcall := (hd.1.call (.ackReceived seg.header.ackno seg.header.win) ⟨trivial, by simp⟩ rfl).1
  refine ⟨⟨hcall, hd.2.ackReceived hd.1.ordered _ _⟩, ?_⟩
  rcases absAckno_apply hd.1.ordered (.ackReceived seg.header.ackno seg.header.win) with
    hsame | ⟨ackno, win, -, hlt, -, hnew⟩
  · exact hle.trans (Nat.le_of_eq hsame.symm)
  · exact hle.trans (Nat.le_of_lt (hnew ▸ hlt))

end Progress

end Sponge.Record
