import Sponge.SenderRuns

/-!
What the sender hands to its endpoint.
Every segment it queues is an honest piece of the outbound stream, at or below the next
sequence number, with a plain header, and carries the FIN only when the stream has been
sent to its end. Calls only move forward, so that this stays true of segments that have
left the queue long ago.
-/
namespace Sponge.SenderOutput

open SenderLoop SenderQueue SenderBooks SenderRuns TCPSender

/-- The stream has been read to its end and the FIN has its number. -/
def FinOut (S : List UInt8) (s : TCPSender) : Prop :=
  s.nextSeqno = S.length + 2 ∧ s.stream.eof = true

structure Sendable (S : List UInt8) (s : TCPSender) (seg : TCPSegment) : Prop where
  piece : ∃ v, v ≤ s.nextSeqno ∧ HonestPiece s.isn S v seg
  fin_out : seg.header.fin = true → FinOut S s

structure Forward (S : List UInt8) (s : TCPSender) (S' : List UInt8) (s' : TCPSender) :
    Prop where
  grow : S <+: S'
  isn_eq : s'.isn = s.isn
  next_le : s.nextSeqno ≤ s'.nextSeqno
  fin_out : FinOut S s → S' = S ∧ FinOut S s'
  error : s.stream.error = true → s'.stream.error = true

/-- The calls an endpoint makes: a write only before the end of the input, an empty
segment only after the SYN. -/
def Proper (s : TCPSender) (op : SenderOp) : Prop :=
  s.Allowed op ∧ (op = .sendEmptySegment → 0 < s.nextSeqno)

structure Output (S : List UInt8) (s : TCPSender) : Prop where
  books : ∃ firsts, Books S firsts s
  queued : ∀ seg ∈ s.segmentsOut, Sendable S s seg ∧ seg.header.Plain
  retx : s.nConsecRetransmissions ≠ 0 → 0 < s.nextSeqno

theorem new_output (capacity : ℕ) (rto : UInt16) (fixedIsn : Option WrappingInt32)
    (random : WrappingInt32) : Output [] (new capacity rto fixedIsn random) where
  books := ⟨[], new_books capacity rto fixedIsn random⟩
  queued seg hseg := by simp [new] at hseg
  retx h := by simp [new] at h

section Call

variable {S S' : List UInt8} {firsts : List OrderedSegment} {s s' : TCPSender} {seg : TCPSegment}

theorem Sendable.forward (h : Sendable S s seg) (hf : Forward S s S' s') : Sendable S' s' seg := by
  obtain ⟨v, hv, hpiece⟩ := h.piece
  have hle := hf.next_le
  refine ⟨⟨v, by omega, ?_⟩, ?_⟩
  · rw [hf.isn_eq]
    exact hpiece.grow hf.grow (fun hfin => (hf.fin_out (h.fin_out hfin)).1)
  · intro hfin
    obtain ⟨hsame, hout⟩ := hf.fin_out (h.fin_out hfin)
    rw [hsame]
    exact hout

/-- Queue, timer and window do not matter. -/
theorem Forward.of_parts (hisn : s'.isn = s.isn) (hnext : s'.nextSeqno = s.nextSeqno)
    (hstream : s'.stream = s.stream) : Forward S s S s' where
  grow := List.prefix_refl S
  isn_eq := hisn
  next_le := Nat.le_of_eq hnext.symm
  fin_out h := by
    unfold FinOut
    rw [hnext, hstream]
    exact ⟨rfl, h⟩
  error := by
    rw [hstream]
    exact id

/-- Once the FIN is out, `fill_window` has nothing to do. -/
theorem FinOut.fillWindow_eq (h : Books S firsts s) (hfin : FinOut S s) : s.fillWindow = s := by
  apply fillWindow_of_not_sends h.stream_valid
  intro hs
  have hsent : s.finSent = true := by
    have hw := h.written_eq
    have hnext := hfin.1
    simp only [finSent, hfin.2, Bool.true_and, decide_eq_true_eq]
    omega
  rw [hs.2.1] at hsent
  simp at hsent

theorem Forward.fillWindow (h : Books S firsts s) : Forward S s S s.fillWindow := by
  obtain ⟨fresh, -, hfilled, -⟩ := h.fillWindow
  refine ⟨List.prefix_refl S, hfilled.isn_eq, hfilled.tiles.le, ?_, ?_⟩
  · intro hfin
    rw [hfin.fillWindow_eq h]
    exact ⟨rfl, hfin⟩
  · rw [hfilled.error_eq]
    exact id

theorem Forward.trans {S'' : List UInt8} {s'' : TCPSender} (h : Forward S s S' s')
    (h' : Forward S' s' S'' s'') : Forward S s S'' s'' where
  grow := h.grow.trans h'.grow
  isn_eq := h'.isn_eq.trans h.isn_eq
  next_le := Nat.le_trans h.next_le h'.next_le
  fin_out hfin := by
    obtain ⟨hsame, hout⟩ := h.fin_out hfin
    have hlater := h'.fin_out (by rw [hsame]; exact hout)
    rw [hsame] at hlater
    exact hlater
  error he := h'.error (h.error he)

theorem Forward.ackReceived (h : Books S firsts s) (ackno : WrappingInt32) (win : UInt16) :
    Forward S s S (s.ackReceived ackno win) := by
  rcases ackReceived_cases s ackno win with ⟨-, heq⟩ | ⟨ack, -, hlo, hhi, heq⟩
  · rw [heq]
    exact Forward.of_parts rfl rfl rfl
  · rw [heq]
    have hbooks := (h.setWindow win.toNat_lt).acknowledge hlo hhi
    have hack : Forward S s S (TCPSender.acknowledge { s with windowSize := win.toNat } ack) :=
      Forward.of_parts rfl rfl rfl
    exact hack.trans (Forward.fillWindow hbooks)

/-- Every call moves the sender forward. -/
theorem forward (h : Books S firsts s) (op : SenderOp) (hop : s.Allowed op) :
    Forward S s (S ++ s.acceptedBy op) (s.apply op) := by
  have hnil : S ++ [] = S := List.append_nil S
  cases op with
  | write data =>
    refine ⟨List.prefix_append _ _, rfl, Nat.le_refl _, ?_, id⟩
    intro hfin
    have hopen : s.stream.inputEnded = false := hop
    have heof := hfin.2
    simp [ByteStream.eof, hopen] at heof
  | endInput =>
    refine ⟨List.prefix_append _ _, rfl, Nat.le_refl _, ?_, id⟩
    intro hfin
    refine ⟨hnil, hfin.1, ?_⟩
    change s.stream.endInput.eof = true
    rw [ByteStream.endInput_of_eof hfin.2]
    exact hfin.2
  | fillWindow => exact hnil.symm ▸ Forward.fillWindow h
  | ackReceived ackno win => exact hnil.symm ▸ Forward.ackReceived h ackno win
  | tick ms =>
    have hsame := (tick_cases s ms).1
    exact hnil.symm ▸ Forward.of_parts hsame.isn_eq hsame.nextSeqno_eq hsame.stream_eq
  | sendEmptySegment => exact hnil.symm ▸ Forward.of_parts rfl rfl rfl
  | popSegment => exact hnil.symm ▸ Forward.of_parts rfl rfl rfl
  | setError =>
    refine ⟨List.prefix_append _ _, rfl, Nat.le_refl _, fun hfin => ⟨hnil, hfin⟩, fun _ => rfl⟩

/-- A segment in the books can be sent. -/
theorem sendable_of_mem (h : Books S firsts s) {e : OrderedSegment} (he : e ∈ firsts) :
    Sendable S s e.segment ∧ e.segment.header.Plain := by
  have hle := (h.tiles.bounds he).2
  exact ⟨⟨⟨e.seqno, by omega, h.honest e he⟩, h.fin_closes he⟩, h.plain e he⟩

theorem sendable_empty (h : 0 < s.nextSeqno) : Sendable S s (emptySegment s) ∧
    (emptySegment s).header.Plain := by
  have hpiece : HonestPiece s.isn S s.nextSeqno (emptySegment s) := by
    refine ⟨rfl, ?_, List.nil_prefix, ?_⟩
    · constructor
      · intro hsyn
        simp [emptySegment] at hsyn
      · intro hzero
        omega
    · intro hfin
      simp [emptySegment] at hfin
  exact ⟨⟨⟨s.nextSeqno, Nat.le_refl _, hpiece⟩, fun hfin => by simp [emptySegment] at hfin⟩, rfl⟩

/-- Every call leaves only such segments in the queue. -/
theorem queued_apply (h : Books S firsts s) (op : SenderOp) (hop : Proper s op)
    (hq : ∀ seg ∈ s.segmentsOut, Sendable S s seg ∧ seg.header.Plain) :
    ∀ seg ∈ (s.apply op).segmentsOut,
      Sendable (S ++ s.acceptedBy op) (s.apply op) seg ∧ seg.header.Plain := by
  obtain ⟨hbooks, ⟨rest, hpush, hrest⟩, hqueue⟩ := callEffect h op hop.1
  have hf := forward h op hop.1
  intro seg hseg
  rcases hqueue seg hseg with hold | hnew
  · exact ⟨(hq seg hold).1.forward hf, (hq seg hold).2⟩
  · rw [hpush] at hnew
    rcases List.mem_append.mp hnew with hfirst | hagain
    · obtain ⟨e, he, rfl⟩ := List.mem_map.mp hfirst
      exact sendable_of_mem hbooks (List.mem_append_right _ he)
    · rcases hrest seg hagain with ⟨e, he, rfl⟩ | ⟨hop', rfl⟩
      · have hmem := h.suffix.subset (List.mem_of_mem_head? he)
        exact sendable_of_mem hbooks (List.mem_append_left _ hmem)
      · obtain ⟨hsend, hplain⟩ := sendable_empty (S := S) (hop.2 hop')
        exact ⟨hsend.forward hf, hplain⟩

/-- Who has retransmitted has sent something. -/
theorem retx_apply (h : Ordered s) (op : SenderOp)
    (hr : s.nConsecRetransmissions ≠ 0 → 0 < s.nextSeqno) :
    (s.apply op).nConsecRetransmissions ≠ 0 → 0 < (s.apply op).nextSeqno := by
  cases op with
  | fillWindow =>
    obtain ⟨-, ⟨fresh, hfilled⟩, -⟩ := h.fillWindow
    intro hne
    have hne' : s.nConsecRetransmissions ≠ 0 := hfilled.retx_eq ▸ hne
    exact Nat.lt_of_lt_of_le (hr hne') hfilled.tiles.le
  | ackReceived ackno win =>
    change (s.ackReceived ackno win).nConsecRetransmissions ≠ 0 →
      0 < (s.ackReceived ackno win).nextSeqno
    rcases ackReceived_cases s ackno win with ⟨-, heq⟩ | ⟨ack, -, hlo, hhi, heq⟩
    · rw [heq]
      exact hr
    · obtain ⟨-, ⟨fresh, hfilled⟩, -⟩ :=
        ((h.setWindow win.toNat_lt).acknowledge hlo hhi).fillWindow
      intro hne
      rw [heq, hfilled.retx_eq] at hne
      exact absurd rfl hne
  | tick ms =>
    obtain ⟨hsame, hticked⟩ := tick_cases s ms
    change (s.tick ms).nConsecRetransmissions ≠ 0 → 0 < (s.tick ms).nextSeqno
    rw [hsame.nextSeqno_eq]
    rcases hticked with ⟨-, -, -, hcount⟩ | ⟨e, rest, hout, -, -, -⟩
    · rw [hcount]
      exact hr
    · have hlt := (h.below (hout ▸ List.mem_cons_self ..)).2
      intro _
      omega
  | write data => exact hr
  | endInput => exact hr
  | sendEmptySegment => exact hr
  | popSegment => exact hr
  | setError => exact hr

theorem Output.apply (h : Output S s) (op : SenderOp) (hop : Proper s op) :
    Output (S ++ s.acceptedBy op) (s.apply op) ∧
      Forward S s (S ++ s.acceptedBy op) (s.apply op) := by
  obtain ⟨firsts, hbooks⟩ := h.books
  refine ⟨⟨⟨_, (callEffect hbooks op hop.1).books⟩, queued_apply hbooks op hop h.queued,
    retx_apply hbooks.ordered op h.retx⟩, forward hbooks op hop.1⟩

/-- A call that writes nothing. -/
theorem Output.call (h : Output S s) (op : SenderOp) (hop : Proper s op)
    (hnil : s.acceptedBy op = []) : Output S (s.apply op) ∧ Forward S s S (s.apply op) := by
  have happ := h.apply op hop
  rw [hnil, List.append_nil] at happ
  exact happ

/-- The endpoint takes over all that is queued. -/
theorem Output.drain (h : Output S s) : Output S { s with segmentsOut := [] } := by
  obtain ⟨firsts, hbooks⟩ := h.books
  refine ⟨⟨firsts, hbooks.of_same ⟨rfl, rfl, rfl, rfl, rfl, rfl, rfl⟩⟩, ?_, h.retx⟩
  intro seg hseg
  simp at hseg

theorem Output.ordered (h : Output S s) : Ordered s := by
  obtain ⟨firsts, hbooks⟩ := h.books
  exact hbooks.ordered

theorem Output.outstanding_plain (h : Output S s) {e : OrderedSegment}
    (he : e ∈ s.outstandingSegments) : e.segment.header.Plain := by
  obtain ⟨firsts, hbooks⟩ := h.books
  exact hbooks.plain e (hbooks.suffix.subset he)

/-- Only an acceptable acknowledgment moves the acknowledgment number. -/
theorem absAckno_apply (h : Ordered s) (op : SenderOp) :
    (s.apply op).absAckno = s.absAckno ∨
      ∃ ackno win, op = .ackReceived ackno win ∧ s.absAckno < unwrap ackno s.isn s.absAckno ∧
        unwrap ackno s.isn s.absAckno ≤ s.nextSeqno ∧
        (s.apply op).absAckno = unwrap ackno s.isn s.absAckno := by
  cases op with
  | fillWindow =>
    obtain ⟨-, ⟨fresh, hfilled⟩, -⟩ := h.fillWindow
    exact Or.inl hfilled.absAckno_eq
  | ackReceived ackno win =>
    change (s.ackReceived ackno win).absAckno = _ ∨ _
    rcases ackReceived_cases s ackno win with ⟨-, heq⟩ | ⟨ack, hack, hlo, hhi, heq⟩
    · rw [heq]
      exact Or.inl rfl
    · obtain ⟨-, ⟨fresh, hfilled⟩, -⟩ :=
        ((h.setWindow win.toNat_lt).acknowledge hlo hhi).fillWindow
      right
      refine ⟨ackno, win, rfl, by omega, by omega, ?_⟩
      change (s.ackReceived ackno win).absAckno = _
      rw [heq, hfilled.absAckno_eq]
      exact hack
  | tick ms => exact Or.inl (tick_cases s ms).1.absAckno_eq
  | write data => exact Or.inl rfl
  | endInput => exact Or.inl rfl
  | sendEmptySegment => exact Or.inl rfl
  | popSegment => exact Or.inl rfl
  | setError => exact Or.inl rfl

end Call

end Sponge.SenderOutput
