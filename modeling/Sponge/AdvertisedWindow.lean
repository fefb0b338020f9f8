import Sponge.AcknoAdvance
import Sponge.Emission
import Sponge.Link
import Sponge.ReassemblyBound

/-!
The window that an endpoint advertises, whatever it receives.
The right edge of the window is the first byte that may not be sent yet. It is fixed by
the bytes read and the capacity and moves only forward. The header has 16 bits for the
window: with a larger capacity the endpoint advertises what is left of it modulo 2^16.
-/
namespace Sponge.AdvertisedWindow

open Reassembly ReassemblyBound Link ConnectionProgress Emission TCPConnection

/-- The segments that a call emits. -/
def emitted (c : TCPConnection) (op : ConnectionOp) : List TCPSegment :=
  (c.perform op).segmentsOut.drop c.segmentsOut.length

/-- The segment acknowledges what the receiver has and offers at most what it takes. -/
structure Truthful (isn : WrappingInt32) (r : TCPReceiver) (seg : TCPSegment) : Prop where
  ackno_eq : seg.header.ackno = wrap (ackPoint r) isn
  win_le : seg.header.win.toNat ≤ r.windowSize
  closed : seg.header.win = 0 → r.windowSize = 0

/-- The absolute right edges that the acknowledgments of a call announce. -/
def rightEdges (c : TCPConnection) (op : ConnectionOp) : List ℕ :=
  ((emitted c op).filter (fun seg => seg.header.ack)).map
    (fun seg => ackPoint (c.perform op).receiver + seg.header.win.toNat)

def edges : TCPConnection → List ConnectionOp → List ℕ
  | _, [] => []
  | c, op :: ops => rightEdges c op ++ edges (c.perform op) ops

/-- All SYNs that are received carry this number. -/
def SynsAt (isn : WrappingInt32) (ops : List ConnectionOp) : Prop :=
  ∀ seg, .segmentReceived seg ∈ ops → seg.header.syn = true → seg.header.seqno = isn

structure AlwaysTruthful (isn : WrappingInt32) (c : TCPConnection) (ops : List ConnectionOp) :
    Prop where
  truthful : ∀ before op after, ops = before ++ op :: after →
    ∀ seg ∈ emitted (calls.exec c before) op, seg.header.ack = true →
      Truthful isn ((calls.exec c before).perform op).receiver seg
  edges_le : (edges c ops).Pairwise (· ≤ ·)

section Receiver

variable {capacity : ℕ} {isn : WrappingInt32} {r : TCPReceiver}

/-- The receiver of a run: in order, of this capacity, counting from this number. -/
structure Counts (capacity : ℕ) (isn : WrappingInt32) (r : TCPReceiver) : Prop where
  sized : Sized capacity r.reassembler
  isn_eq : r.synReceived = true → r.isn = isn

theorem Counts.window_eq (h : Counts capacity isn r) :
    r.windowSize + r.streamOut.bufferSize = capacity := by
  have hvalid : r.streamOut.Valid := h.sized.rep.output_valid
  have hcap : r.streamOut.maxCapacity = capacity :=
    h.sized.rep.capacity_eq.trans h.sized.capacity_eq
  have hsize := hvalid.size_le
  unfold TCPReceiver.windowSize ByteStream.bufferSize
  rw [hvalid.remainingCapacity_eq]
  omega

theorem Counts.setError (h : Counts capacity isn r) :
    Counts capacity isn (r.setOutput r.streamOut.setError) :=
  ⟨⟨h.sized.rep.setError, h.sized.capacity_eq⟩, h.isn_eq⟩

theorem Counts.read (h : Counts capacity isn r) (len : ℕ) :
    Counts capacity isn (r.setOutput (r.streamOut.read len).2) :=
  ⟨h.sized.step (.read len) trivial, h.isn_eq⟩

theorem Counts.segmentReceived (h : Counts capacity isn r) (seg : TCPSegment)
    (hseg : seg.header.syn = true → seg.header.seqno = isn) :
    Counts capacity isn (r.segmentReceived seg) := by
  refine ⟨?_, ?_⟩
  · unfold TCPReceiver.segmentReceived
    dsimp only
    split
    · rw [TCPReceiver.noteSyn_reassembler]
      exact h.sized
    · rw [TCPReceiver.noteSyn_reassembler]
      exact h.sized.step (.push _ _ _) trivial
  · rw [AcknoAdvance.segmentReceived_synReceived, AcknoAdvance.segmentReceived_isn]
    intro hsyn
    split
    · exact hseg ‹_›
    · rename_i hno
      exact h.isn_eq (by simpa [hno] using hsyn)

/-- The right edge of the window, SYN or not. -/
def bound (capacity : ℕ) (r : TCPReceiver) : ℕ :=
  r.streamOut.bytesRead + 1 + capacity + (if r.streamOut.inputEnded then 1 else 0)

theorem Counts.bound_eq (h : Counts capacity isn r) (hsyn : r.synReceived = true) :
    ackPoint r + r.windowSize = bound capacity r := by
  have hwindow := h.window_eq
  have hvalid : r.streamOut.Valid := h.sized.rep.output_valid
  have hwritten := hvalid.written_eq
  unfold ackPoint bound ByteStream.bytesRead ByteStream.bytesWritten
  unfold ByteStream.bufferSize at hwindow
  rw [if_pos hsyn]
  omega

/-- What moves the right edge: bytes that are read and the end of the stream. -/
def Further (r r' : TCPReceiver) : Prop :=
  r.streamOut.bytesRead ≤ r'.streamOut.bytesRead ∧
    (r.streamOut.inputEnded = true → r'.streamOut.inputEnded = true)

theorem Further.bound_le {r' : TCPReceiver} (h : Further r r') :
    bound capacity r ≤ bound capacity r' := by
  have hread := h.1
  unfold bound
  cases hend : r.streamOut.inputEnded with
  | true =>
    rw [h.2 hend]
    omega
  | false =>
    simp only [Bool.false_eq_true, if_false]
    omega

theorem further_segmentReceived (r : TCPReceiver) (seg : TCPSegment) :
    Further r (r.segmentReceived seg) := by
  refine AcknoAdvance.segmentReceived_output_rule seg
    (P := fun out => r.streamOut.bytesRead ≤ out.bytesRead ∧
      (r.streamOut.inputEnded = true → out.inputEnded = true)) ⟨Nat.le_refl _, id⟩ ?_ ?_
  · intro out bytes h
    exact h
  · intro out h
    exact ⟨h.1, fun _ => rfl⟩

end Receiver

section Run

variable {capacity : ℕ} {isn : WrappingInt32} {S : List UInt8} {c : TCPConnection}

/-- What holds of the endpoint in every state. -/
structure Announcing (capacity : ℕ) (isn : WrappingInt32) (c : TCPConnection) : Prop where
  lively : ∃ S, Lively S c
  counts : Counts capacity isn c.receiver

theorem Announcing.perform (h : Announcing capacity isn c) {op : ConnectionOp}
    (hop : ∀ seg, op = .segmentReceived seg → seg.header.syn = true → seg.header.seqno = isn) :
    Announcing capacity isn (c.perform op) ∧ Further c.receiver (c.perform op).receiver := by
  obtain ⟨S, hlively⟩ := h.lively
  refine ⟨⟨hlively.perform op, ?_⟩, ?_⟩
  · exact perform_receiver_rule hlively h.counts (fun r hr => hr.setError)
      (fun seg heq => h.counts.segmentReceived seg (hop seg heq)) (fun len _ => h.counts.read len)
  · refine perform_receiver_rule hlively (P := Further c.receiver) ⟨Nat.le_refl _, id⟩
      (fun r hr => hr) (fun seg _ => further_segmentReceived c.receiver seg) ?_
    intro len _
    exact ⟨Nat.le_add_right _ _, id⟩

theorem Announcing.run (h : Announcing capacity isn c) {ops : List ConnectionOp}
    (hops : SynsAt isn ops) : Announcing capacity isn (calls.exec c ops) := by
  induction ops generalizing c with
  | nil => exact h
  | cons op ops ih =>
    refine ih (h.perform ?_).1 (fun seg hmem => hops seg (List.mem_cons_of_mem _ hmem))
    intro seg heq
    exact hops seg (by simp [heq])

/-- A window that fits into 16 bits is advertised as it is. -/
theorem Announcing.emits (h : Announcing capacity isn c) (hcap : capacity ≤ 65535)
    {op : ConnectionOp}
    (hop : ∀ seg, op = .segmentReceived seg → seg.header.syn = true → seg.header.seqno = isn)
    {seg : TCPSegment} (hseg : seg ∈ emitted c op) (hack : seg.header.ack = true) :
    (c.perform op).receiver.synReceived = true ∧
      seg.header.ackno = wrap (ackPoint (c.perform op).receiver) isn ∧
      seg.header.win.toNat = (c.perform op).receiver.windowSize := by
  obtain ⟨S, hlively⟩ := h.lively
  obtain ⟨out, hout, hstamped⟩ := perform_emits hlively op
  have hcounts := (h.perform hop).1.counts
  have hmem : seg ∈ out := by
    unfold emitted at hseg
    rwa [hout, List.drop_left] at hseg
  have hstamp := hstamped seg hmem
  have hackno := hstamp.ackno_eq hack
  have hsyn : (c.perform op).receiver.synReceived = true := by
    rw [← AcknoAdvance.ackno_isSome]
    exact hstamp.ack_iff.mp hack
  refine ⟨hsyn, ?_, ?_⟩
  · rw [Link.ackno_eq, if_pos hsyn, hcounts.isn_eq hsyn] at hackno
    exact (Option.some.inj hackno).symm
  · have hwindow := hcounts.window_eq
    rw [hstamp.win_eq hack, UInt16.toNat_ofNat_of_lt']
    change _ < 65536
    omega

theorem Announcing.rightEdges_eq (h : Announcing capacity isn c) (hcap : capacity ≤ 65535)
    {op : ConnectionOp}
    (hop : ∀ seg, op = .segmentReceived seg → seg.header.syn = true → seg.header.seqno = isn) :
    ∀ e ∈ rightEdges c op, e = bound capacity (c.perform op).receiver := by
  intro e he
  obtain ⟨seg, hseg, rfl⟩ := List.mem_map.mp he
  obtain ⟨hmem, hack⟩ := List.mem_filter.mp hseg
  obtain ⟨hsyn, -, hwin⟩ := h.emits hcap hop hmem hack
  rw [hwin]
  exact (h.perform hop).1.counts.bound_eq hsyn

/-- All later edges are at or past the edge of now, and in order. -/
theorem Announcing.edges_ordered (h : Announcing capacity isn c) (hcap : capacity ≤ 65535)
    {ops : List ConnectionOp} (hops : SynsAt isn ops) :
    (∀ e ∈ edges c ops, bound capacity c.receiver ≤ e) ∧ (edges c ops).Pairwise (· ≤ ·) := by
  induction ops generalizing c with
  | nil => simp [edges]
  | cons op ops ih =>
    have hop : ∀ seg, op = .segmentReceived seg → seg.header.syn = true →
        seg.header.seqno = isn := fun seg heq => hops seg (by simp [heq])
    obtain ⟨hnext, hfurther⟩ := h.perform hop
    have hle : bound capacity c.receiver ≤ bound capacity (c.perform op).receiver :=
      hfurther.bound_le
    have hhere := h.rightEdges_eq hcap hop
    obtain ⟨hlater, hsorted⟩ := ih hnext (fun seg hmem => hops seg (List.mem_cons_of_mem _ hmem))
    constructor
    · intro e he
      rcases List.mem_append.mp he with hfirst | hrest
      · rw [hhere e hfirst]
        exact hle
      · exact Nat.le_trans hle (hlater e hrest)
    · refine List.pairwise_append.mpr ⟨?_, hsorted, ?_⟩
      · apply List.pairwise_of_forall_mem_list
        intro e he e' he'
        rw [hhere e he, hhere e' he']
      · intro e he e' he'
        rw [hhere e he]
        exact hlater e' he'

theorem new_announcing (cfg : TCPConfig) (random isn : WrappingInt32) :
    Announcing cfg.recvCapacity isn (new cfg random) where
  lively := ⟨[], new_lively cfg random⟩
  counts := ⟨⟨new_rep _, rfl⟩, fun h => by simp [new, TCPReceiver.new] at h⟩

theorem alwaysTruthful_of_small {cfg : TCPConfig} (hcap : cfg.recvCapacity ≤ 65535)
    (random isn : WrappingInt32) {ops : List ConnectionOp} (hops : SynsAt isn ops) :
    AlwaysTruthful isn (new cfg random) ops where
  truthful := by
    rintro before op after rfl seg hseg hack
    have hbefore : Announcing cfg.recvCapacity isn (calls.exec (new cfg random) before) :=
      (new_announcing cfg random isn).run fun s hmem => hops s (List.mem_append_left _ hmem)
    have hop : ∀ s, op = .segmentReceived s → s.header.syn = true → s.header.seqno = isn :=
      fun s heq => hops s (by simp [heq])
    obtain ⟨-, hackno, hwin⟩ := hbefore.emits hcap hop hseg hack
    refine ⟨hackno, Nat.le_of_eq hwin, ?_⟩
    intro hzero
    rw [← hwin, hzero]
    rfl
  edges_le := ((new_announcing cfg random isn).edges_ordered hcap hops).2

end Run

section Large

variable {cfg : TCPConfig} {n : ℕ}

/-- A SYN with this many bytes behind it. -/
def laden (n : ℕ) : TCPSegment := ⟨{ syn := true }, List.replicate n 0⟩

theorem laden_pushed {capacity : ℕ} (hn : n ≤ capacity) (hpos : 0 < capacity) :
    ((StreamReassembler.new capacity).pushSubstring (List.replicate n 0) 0 false).output.curSize =
      n := by
  simp [StreamReassembler.pushSubstring, StreamReassembler.new, StreamReassembler.markEof,
    StreamReassembler.inWindow, StreamReassembler.firstUnacceptable, StreamReassembler.merge,
    StreamReassembler.mergeLoop, StreamReassembler.place, StreamReassembler.trimToWindow,
    StreamReassembler.checkEof, ByteStream.new, ByteStream.bufferSize, ByteStream.inputEnded,
    ByteStream.write, ByteStream.remainingCapacity, hpos, Nat.not_lt.mpr hn]
  exact hn

theorem laden_received (capacity n : ℕ) :
    ((TCPReceiver.new capacity).segmentReceived (laden n)).reassembler =
      (StreamReassembler.new capacity).pushSubstring (List.replicate n 0) 0 false := by
  have hwritten : (TCPReceiver.new capacity).streamOut.bytesWritten = 0 := rfl
  have hpiece : HonestPiece ⟨0⟩ (List.replicate n 0) 0 (laden n) :=
    ⟨by simp [laden], by simp [laden], List.prefix_refl _, by simp [laden]⟩
  rw [Receiving.segmentReceived_honest hpiece (by simp [TCPReceiver.new]) (by simp [laden])
    (by omega) (by omega) (by omega) (by omega)]
  rfl

/-- The bytes behind the SYN are what the window has lost. -/
theorem laden_window (random : WrappingInt32) (hn : n ≤ cfg.recvCapacity)
    (hpos : 0 < cfg.recvCapacity) :
    ((new cfg random).segmentReceived (laden n)).receiver.windowSize + n = cfg.recvCapacity := by
  have hemitting := (emitting_stable _ _ _).segmentReceived
    (emitting_takeIn (new_lively cfg random) (laden n))
  have hcounts : Counts cfg.recvCapacity ⟨0⟩
      ((TCPReceiver.new cfg.recvCapacity).segmentReceived (laden n)) :=
    (new_announcing cfg random ⟨0⟩).counts.segmentReceived (laden n) (fun _ => rfl)
  have hsize : ((TCPReceiver.new cfg.recvCapacity).segmentReceived (laden n)).streamOut.bufferSize =
      n := by
    unfold TCPReceiver.streamOut ByteStream.bufferSize
    rw [laden_received, laden_pushed hn hpos]
  have hwindow := hcounts.window_eq
  rw [hemitting.window_eq]
  change ((TCPReceiver.new cfg.recvCapacity).segmentReceived (laden n)).windowSize + n = _
  omega

theorem laden_emitted (cfg : TCPConfig) (random : WrappingInt32) (n : ℕ) :
    emitted (new cfg random) (.segmentReceived (laden n)) ≠ [] := by
  have hactive : ((new cfg random).takeIn (laden n)).active = true := by
    rw [takeIn_active]
    rfl
  have hsender : ((new cfg random).takeIn (laden n)).sender = (new cfg random).sender := by
    unfold takeIn
    rfl
  have hzero : (new cfg random).sender.nextSeqno = 0 := rfl
  have hsent : ((new cfg random).takeIn (laden n)).synSent = false := by
    simp [synSent, hsender, TCPSender.nextSeqnoAbsolute, hzero]
  have hout : (((new cfg random).perform (.segmentReceived (laden n))).segmentsOut) = _ :=
    segmentReceived_of_unsent hactive hsent
  unfold emitted
  rw [hout, List.drop_left, if_pos (show (laden n).header.syn = true from rfl), hsender]
  simpa using fillWindow_queue_ne_nil (new_lively cfg random).1 hzero

/-- With a larger capacity some SYN leaves a multiple of 2^16 as window, and zero is
advertised for it. -/
theorem not_alwaysTruthful_of_large (random : WrappingInt32) (hcap : 65535 < cfg.recvCapacity) :
    ¬ AlwaysTruthful ⟨0⟩ (new cfg random)
      [.segmentReceived (laden (cfg.recvCapacity % 65536))] := by
  intro h
  generalize hn : cfg.recvCapacity % 65536 = n at h
  have hwindow := laden_window random (show n ≤ cfg.recvCapacity by omega) (by omega)
  obtain ⟨seg, rest, hseg⟩ := List.exists_cons_of_ne_nil (laden_emitted cfg random n)
  have hmem : seg ∈ emitted (new cfg random) (.segmentReceived (laden n)) := by
    rw [hseg]
    exact List.mem_cons_self ..
  obtain ⟨out, hout, hstamped⟩ :=
    perform_emits (new_lively cfg random) (.segmentReceived (laden n))
  have hstamp := hstamped seg (by
    unfold emitted at hmem
    rwa [hout, List.drop_left] at hmem)
  have hsyn : ((new cfg random).segmentReceived (laden n)).receiver.ackno.isSome = true := by
    have hemitting := (emitting_stable _ _ _).segmentReceived
      (emitting_takeIn (new_lively cfg random) (laden n))
    rw [hemitting.ackno_eq, AcknoAdvance.ackno_isSome, AcknoAdvance.segmentReceived_synReceived]
    exact Bool.or_true _
  have hack := hstamp.ack_iff.mpr hsyn
  have hzero : seg.header.win = 0 := by
    rw [hstamp.win_eq hack]
    apply UInt16.toNat_inj.mp
    change ((new cfg random).segmentReceived (laden n)).receiver.windowSize % 65536 = 0
    omega
  have hclosed : ((new cfg random).segmentReceived (laden n)).receiver.windowSize = 0 :=
    (h.truthful [] _ [] rfl seg hmem hack).closed hzero
  omega

end Large

/-- Every run is truthful exactly if the capacity fits into the header's 16 bits. -/
theorem window_truthful_iff_capacity (cfg : TCPConfig) (random : WrappingInt32) :
    (∀ isn ops, SynsAt isn ops → AlwaysTruthful isn (new cfg random) ops) ↔
      cfg.recvCapacity ≤ 65535 := by
  constructor
  · intro h
    by_contra hlarge
    refine not_alwaysTruthful_of_large random (by omega) (h ⟨0⟩ _ ?_)
    intro seg hmem _
    have heq : seg = laden (cfg.recvCapacity % 65536) := by simpa using hmem
    rw [heq]
    rfl
  · intro hcap isn ops hops
    exact alwaysTruthful_of_small hcap random isn hops

/-- The SYN is answered with a window of zero while 65536 bytes fit. -/
theorem whole_window_cut :
    let c := (new ⟨1000, 65536, 1, some ⟨0⟩⟩ ⟨0⟩).segmentReceived ⟨{ syn := true }, []⟩
    c.receiver.windowSize = 65536 ∧
      c.segmentsOut.map (fun seg => (seg.header.ack, seg.header.win)) = [(true, 0)] := by
  decide

end Sponge.AdvertisedWindow
