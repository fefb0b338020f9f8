import Sponge.ConnectionProgress
import Sponge.Runs

/-!
The retransmission timeout and the count of retries.
The two move together: a retry in an open window doubles one and raises the other, and
an acknowledgment that completes a segment resets both. One that advances into the
oldest segment without completing it resets the count alone, so that after a retry the
timeout stays where the retries have left it. Where that does not happen, the timeout of
an active endpoint is always the initial one times two to the number of retries.
-/
namespace Sponge.RetryTimeout

open Words Runs SenderLoop SenderQueue SenderOutput ConnectionCalls ConnectionProgress
  TCPConnection

section Calls

/-- A property of the sender that does not look at its queue or its stream and that
`fill_window` keeps. -/
structure Paced (P : TCPSender → Prop) : Prop where
  queue : ∀ s out, P s → P { s with segmentsOut := out }
  stream : ∀ s stream, P s → P (s.setStream stream)
  fill : ∀ s, Ordered s → P s → P s.fillWindow

variable {S : List UInt8} {c : TCPConnection} {op : ConnectionOp} {P : TCPSender → Prop}

theorem Paced.requeued (h : Paced P) {s s' : TCPSender} (hs : Requeued s s') (hp : P s) : P s' := by
  obtain ⟨out, rfl⟩ := hs
  exact h.queue s out hp

/-- Trying to close leaves an inactive endpoint inactive. -/
theorem active_of_tryClosing (h : c.tryClosingConnection.active = true) : c.active = true := by
  unfold tryClosingConnection at h
  split at h
  · assumption
  · exact h

/-- An endpoint that is active after a tick was so before, has not reached the limit of
its retries, and has done nothing to its sender but let it tick. -/
theorem tick_of_active {ms : ℕ} (h : (c.tick ms).active = true) :
    c.active = true ∧
      (c.sender.tick ms).consecutiveRetransmissions ≤ TCPConfig.maxRetxAttempts ∧
      Requeued (c.sender.tick ms) (c.tick ms).sender := by
  unfold TCPConnection.tick at h ⊢
  split at h
  · rename_i hactive
    rw [if_pos hactive]
    dsimp only at h ⊢
    split at h
    · have hdown := active_of_tryClosing h
      simp [giveUp, reset] at hdown
    · rename_i hfew
      rw [if_neg hfew]
      exact ⟨hactive, Nat.le_of_not_lt hfew,
        (sendSegments_requeued { c with
          sender := c.sender.tick ms
          lastSegmRecvTimer := wrapAdd 64 c.lastSegmRecvTimer ms } false).trans
          (tryClosing_requeued _)⟩
  · rename_i hinactive
    exact absurd h hinactive

theorem active_of_perform (h : (c.perform op).active = true) : c.active = true := by
  cases op with
  | connect => exact (sendSegments_active (c.callSender .fillWindow) false).symm.trans h
  | write data =>
    change (c.write data).2.active = true at h
    unfold TCPConnection.write at h
    split at h
    · exact h
    · exact (sendSegments_active
        ((c.callSender (.write data)).callSender .fillWindow) false).symm.trans h
  | endInputStream =>
    exact active_of_tryClosing (c := (c.callSender .endInput).callSender .fillWindow) h
  | tick ms => exact (tick_of_active h).1
  | segmentReceived seg =>
    change (c.segmentReceived seg).active = true at h
    rw [segmentReceived_active, Bool.and_eq_true] at h
    exact h.1
  | read len => exact h

/-- The rule for such a property: left to show are ticks below the limit of retries and
the acknowledgments of segments without RST. -/
theorem Paced.perform (h : Paced P) (hlively : Lively S c) (hp : P c.sender)
    (hactive : (c.perform op).active = true)
    (htick : ∀ ms, op = .tick ms →
      (c.sender.tick ms).consecutiveRetransmissions ≤ TCPConfig.maxRetxAttempts →
      P (c.sender.tick ms))
    (hack : ∀ seg, op = .segmentReceived seg → seg.header.rst = false → seg.header.ack = true →
      P (c.sender.ackReceived seg.header.ackno seg.header.win)) :
    P (c.perform op).sender := by
  have hord := hlively.1.ordered
  cases op with
  | connect =>
    exact h.requeued (sendSegments_requeued (c.callSender .fillWindow) false) (h.fill _ hord hp)
  | write data =>
    change P (c.write data).2.sender
    unfold TCPConnection.write
    split
    · exact hp
    · have hstream := h.stream c.sender (c.sender.stream.write data).2 hp
      have hvalid := hord.setStream (hord.sane.stream_valid.write_valid data)
      exact h.requeued (sendSegments_requeued
        ((c.callSender (.write data)).callSender .fillWindow) false) (h.fill _ hvalid hstream)
  | endInputStream =>
    have hstream := h.stream c.sender c.sender.stream.endInput hp
    have hvalid := hord.setStream hord.sane.stream_valid.endInput
    exact h.requeued (tryClosing_requeued ((c.callSender .endInput).callSender .fillWindow))
      (h.fill _ hvalid hstream)
  | tick ms =>
    obtain ⟨-, hfew, hsame⟩ := tick_of_active hactive
    exact h.requeued hsame (htick ms rfl hfew)
  | segmentReceived seg =>
    change (c.segmentReceived seg).active = true at hactive
    rw [segmentReceived_active, Bool.and_eq_true, Bool.not_eq_true'] at hactive
    have htaken : P (c.takeIn seg).sender := by
      rw [takeIn_sender hactive.2]
      split
      · rename_i hflag
        exact hack seg rfl hactive.2 hflag
      · exact hp
    rcases segmentReceived_requeued c seg with hsame | ⟨s, hs, -, hfilled⟩
    · exact h.requeued hsame htaken
    · have hvalid : Ordered s := by
        obtain ⟨out, rfl⟩ := hs
        exact (hlively.takeIn seg).1.ordered.of_same ⟨rfl, rfl, rfl, rfl, rfl, rfl, rfl⟩
      exact h.requeued hfilled (h.fill s hvalid (h.requeued hs htaken))
  | read len => exact hp

end Calls

section Sender

variable {rto : ℕ} {s : TCPSender}

/-- The retries are within their limit, and while something is outstanding the timer has
not expired, unless its timeout has been doubled to zero. -/
structure Alert (rto : ℕ) (s : TCPSender) : Prop where
  rto_eq : s.initialRetransmissionTimeout = rto
  few : s.nConsecRetransmissions ≤ TCPConfig.maxRetxAttempts
  running : s.outstandingSegments ≠ [] →
    s.timer.timeElapsed < s.timer.timeout ∨ s.timer.timeout = 0

/-- The timeout is the initial one, doubled with every retry. -/
structure Matched (rto : ℕ) (s : TCPSender) : Prop extends Alert rto s where
  timeout_eq : s.timer.timeout = rto * 2 ^ s.nConsecRetransmissions
  idle : s.outstandingSegments = [] → s.nConsecRetransmissions = 0

theorem Matched.timeout_pos (h : Matched rto s) (hrto : 0 < rto) : 0 < s.timer.timeout := by
  rw [h.timeout_eq]
  exact Nat.mul_pos hrto (Nat.two_pow_pos _)

/-- A matched timer is running while something is outstanding. -/
theorem Matched.not_expired (h : Matched rto s) (hrto : 0 < rto)
    (hne : s.outstandingSegments ≠ []) : ¬ s.timer.expired = true := by
  have hpos := h.timeout_pos hrto
  have hrunning := h.running hne
  intro hexp
  have hle : s.timer.timeElapsed ≥ s.timer.timeout := of_decide_eq_true hexp
  omega

/-- A timeout that has been doubled for each of the few retries can be doubled once more. -/
theorem doubled_lt {attempts : ℕ} (hfew : attempts ≤ TCPConfig.maxRetxAttempts)
    (hrto : rto < 2 ^ 16) : rto * 2 ^ attempts * 2 < 2 ^ 64 := by
  have hpow : 2 ^ attempts ≤ 2 ^ 8 := Nat.pow_le_pow_right (by decide) hfew
  have hmul : rto * 2 ^ attempts ≤ rto * 2 ^ 8 := Nat.mul_le_mul_left rto hpow
  omega

theorem Alert.fill (hrto : 0 < rto) (hord : Ordered s) (h : Alert rto s) :
    Alert rto s.fillWindow := by
  obtain ⟨-, ⟨fresh, hfilled⟩, -⟩ := hord.fillWindow
  refine ⟨hfilled.rto_eq.trans h.rto_eq, hfilled.retx_eq ▸ h.few, ?_⟩
  intro hne
  rw [hfilled.timer_eq, h.rto_eq]
  split
  · exact Or.inl hrto
  · rename_i hkept
    by_cases hout : s.outstandingSegments = []
    · have hfresh : fresh ≠ [] := by
        intro hnil
        rw [hfilled.outstanding_eq, hout, hnil] at hne
        exact hne rfl
      left
      by_contra hover
      exact hkept ⟨hfresh, decide_eq_true (Nat.le_of_not_lt hover)⟩
    · exact h.running hout

theorem Matched.fill (hrto : 0 < rto) (hord : Ordered s) (h : Matched rto s) :
    Matched rto s.fillWindow := by
  obtain ⟨-, ⟨fresh, hfilled⟩, -⟩ := hord.fillWindow
  refine ⟨h.toAlert.fill hrto hord, ?_, ?_⟩
  · rw [hfilled.timer_eq, hfilled.retx_eq, h.rto_eq]
    split
    · rename_i hstart
      have hout : s.outstandingSegments = [] := by
        by_contra hne
        exact h.not_expired hrto hne hstart.2
      rw [h.idle hout, Nat.pow_zero, Nat.mul_one]
    · exact h.timeout_eq
  · intro hnil
    rw [hfilled.outstanding_eq, List.append_eq_nil_iff] at hnil
    rw [hfilled.retx_eq]
    exact h.idle hnil.1

/-- At most one retry is counted in a tick. -/
theorem tick_retx_le (s : TCPSender) (ms : ℕ) :
    (s.tick ms).nConsecRetransmissions ≤ s.nConsecRetransmissions + 1 := by
  by_cases hstill : s.outstandingSegments = [] ∨
      wrapAdd 64 s.timer.timeElapsed ms < s.timer.timeout
  · rw [tick_of_still hstill]
    exact Nat.le_add_right _ 1
  · obtain ⟨hne, hexp⟩ := not_or.mp hstill
    obtain ⟨oldest, rest, hout⟩ := List.exists_cons_of_ne_nil hne
    rw [tick_of_expired hout (Nat.le_of_not_lt hexp)]
    dsimp only
    split <;> omega

/-- The count is far from where 32 bits would end. -/
theorem Alert.consecutive_tick (h : Alert rto s) (ms : ℕ) :
    (s.tick ms).consecutiveRetransmissions = (s.tick ms).nConsecRetransmissions := by
  have hle := tick_retx_le s ms
  have hfew := h.few
  unfold TCPConfig.maxRetxAttempts at hfew
  exact Nat.mod_eq_of_lt (by omega)

theorem Alert.consecutive_eq (h : Alert rto s) :
    s.consecutiveRetransmissions = s.nConsecRetransmissions := by
  have hfew := h.few
  unfold TCPConfig.maxRetxAttempts at hfew
  exact Nat.mod_eq_of_lt (by omega)

/-- A tick below the limit of retries. -/
theorem Alert.tick (h : Alert rto s) {ms : ℕ}
    (hfew : (s.tick ms).consecutiveRetransmissions ≤ TCPConfig.maxRetxAttempts) :
    Alert rto (s.tick ms) := by
  rw [h.consecutive_tick] at hfew
  refine ⟨(tick_cases s ms).1.rto_eq.trans h.rto_eq, hfew, ?_⟩
  intro hne
  rw [(tick_cases s ms).1.outstanding_eq] at hne
  rcases (tick_cases s ms).2 with ⟨hstill, -, htimer, -⟩ | ⟨-, -, -, -, -, htimer⟩
  · rw [htimer]
    exact Or.inl (hstill.resolve_left hne)
  · rw [htimer]
    exact (Nat.eq_zero_or_pos _).symm

theorem Matched.tick (hrto : rto < 2 ^ 16) (h : Matched rto s) {ms : ℕ}
    (hfew : (s.tick ms).consecutiveRetransmissions ≤ TCPConfig.maxRetxAttempts) :
    Matched rto (s.tick ms) := by
  have halert := h.toAlert.tick hfew
  by_cases hstill : s.outstandingSegments = [] ∨
      wrapAdd 64 s.timer.timeElapsed ms < s.timer.timeout
  · rw [tick_of_still hstill] at halert ⊢
    exact ⟨halert, h.timeout_eq, h.idle⟩
  · obtain ⟨hne, hexp⟩ := not_or.mp hstill
    obtain ⟨oldest, rest, hout⟩ := List.exists_cons_of_ne_nil hne
    rw [tick_of_expired hout (Nat.le_of_not_lt hexp)] at halert ⊢
    refine ⟨halert, ?_, fun hnil => absurd hnil hne⟩
    dsimp only
    split
    · rw [h.timeout_eq, Nat.mod_eq_of_lt (doubled_lt h.few hrto), Nat.pow_succ, Nat.mul_assoc]
    · exact h.timeout_eq

/-- The acknowledgment advances. -/
def Advances (s : TCPSender) (ackno : WrappingInt32) : Prop :=
  s.absAckno < unwrap ackno s.isn s.absAckno ∧ unwrap ackno s.isn s.absAckno ≤ s.nextSeqno

instance (s : TCPSender) (ackno : WrappingInt32) : Decidable (Advances s ackno) :=
  inferInstanceAs (Decidable (_ ∧ _))

/-- It advances, but not to the end of the oldest outstanding segment. -/
def Partly (s : TCPSender) (ackno : WrappingInt32) : Prop :=
  Advances s ackno ∧ ∃ oldest ∈ s.outstandingSegments.head?,
    unwrap ackno s.isn s.absAckno < oldest.seqno + oldest.length

instance (s : TCPSender) (ackno : WrappingInt32) : Decidable (Partly s ackno) :=
  inferInstanceAs (Decidable (_ ∧ _))

/-- What an advancing acknowledgment does before the window is filled: the count is reset,
and the timer as well unless the oldest segment is covered only in part. -/
structure Acknowledged (s : TCPSender) (ackno : WrappingInt32) (t : TCPSender) : Prop where
  rto_eq : t.initialRetransmissionTimeout = s.initialRetransmissionTimeout
  retx_eq : t.nConsecRetransmissions = 0
  timer_eq : (Partly s ackno ∧ t.outstandingSegments = s.outstandingSegments ∧
      t.timer = s.timer) ∨
    (¬ Partly s ackno ∧ t.timer = ⟨0, s.initialRetransmissionTimeout⟩)

theorem ackReceived_fills {ackno : WrappingInt32} (hord : Ordered s) (h : Advances s ackno)
    (win : UInt16) :
    ∃ t, Ordered t ∧ Acknowledged s ackno t ∧ s.ackReceived ackno win = t.fillWindow := by
  rcases ackReceived_cases s ackno win with ⟨hno, -⟩ | ⟨ack, hack, hlo, hhi, heq⟩
  · exact absurd h hno
  · have hwin := hord.setWindow win.toNat_lt
    have hacked := hwin.acknowledge hlo hhi
    refine ⟨_, hacked, ⟨rfl, rfl, ?_⟩, heq⟩
    by_cases hpartly : Partly s ackno
    · left
      obtain ⟨-, oldest, hhead, hlt⟩ := id hpartly
      obtain ⟨rest, hout⟩ := List.head?_eq_some_iff.mp hhead
      rw [← hack] at hlt
      have hkeep : TCPSender.eraseAcked ack s.initialRetransmissionTimeout s.outstandingSegments
          s.timer = (s.outstandingSegments, s.timer) := by
        rw [hout]
        exact if_neg (Nat.not_le.mpr hlt)
      exact ⟨hpartly, congrArg Prod.fst hkeep, congrArg Prod.snd hkeep⟩
    · right
      refine ⟨hpartly, ?_⟩
      rcases (hwin.acknowledge_effect hlo).2 with ⟨hsame, -⟩ | hstart
      · obtain ⟨oldest, rest, hout⟩ := hord.exists_oldest (Nat.lt_of_lt_of_le hlo hhi)
        have hlt : ack < oldest.seqno + oldest.length :=
          hacked.unacked oldest rest (hsame.trans hout)
        rw [hack] at hlt
        exact absurd ⟨h, oldest, by simp [hout], hlt⟩ hpartly
      · exact hstart

theorem Acknowledged.alert {ackno : WrappingInt32} {t : TCPSender} (h : Acknowledged s ackno t)
    (hrto : 0 < rto) (halert : Alert rto s) : Alert rto t := by
  refine ⟨h.rto_eq.trans halert.rto_eq, h.retx_eq ▸ Nat.zero_le _, ?_⟩
  intro hne
  rcases h.timer_eq with ⟨-, hout, htimer⟩ | ⟨-, htimer⟩
  · rw [htimer]
    exact halert.running (hout ▸ hne)
  · rw [htimer, halert.rto_eq]
    exact Or.inl hrto

/-- The timeout matches afterwards if it did before and there was no retry to forget. -/
theorem Acknowledged.matched {ackno : WrappingInt32} {t : TCPSender} (h : Acknowledged s ackno t)
    (hrto : 0 < rto) (hmatched : Matched rto s)
    (hpartly : Partly s ackno → s.nConsecRetransmissions = 0) : Matched rto t := by
  refine ⟨h.alert hrto hmatched.toAlert, ?_, fun _ => h.retx_eq⟩
  rcases h.timer_eq with ⟨hpart, -, htimer⟩ | ⟨-, htimer⟩
  · rw [htimer, hmatched.timeout_eq, h.retx_eq, hpartly hpart]
  · rw [htimer, h.retx_eq, hmatched.rto_eq, Nat.pow_zero, Nat.mul_one]

theorem Alert.ackReceived (hrto : 0 < rto) (hord : Ordered s) (h : Alert rto s)
    (ackno : WrappingInt32) (win : UInt16) : Alert rto (s.ackReceived ackno win) := by
  by_cases hadv : Advances s ackno
  · obtain ⟨t, ht, hacked, heq⟩ := ackReceived_fills hord hadv win
    rw [heq]
    exact (hacked.alert hrto h).fill hrto ht
  · rw [ackReceived_of_not_advances hadv win]
    exact ⟨h.rto_eq, h.few, h.running⟩

theorem Matched.ackReceived (hrto : 0 < rto) (hord : Ordered s) (h : Matched rto s)
    {ackno : WrappingInt32} (win : UInt16)
    (hpartly : Partly s ackno → s.nConsecRetransmissions = 0) :
    Matched rto (s.ackReceived ackno win) := by
  by_cases hadv : Advances s ackno
  · obtain ⟨t, ht, hacked, heq⟩ := ackReceived_fills hord hadv win
    rw [heq]
    exact (hacked.matched hrto h hpartly).fill hrto ht
  · rw [ackReceived_of_not_advances hadv win]
    exact ⟨⟨h.rto_eq, h.few, h.running⟩, h.timeout_eq, h.idle⟩

/-- An acknowledgment of part of the oldest segment keeps the timeout. -/
theorem Matched.ackReceived_partly (hrto : 0 < rto) (hord : Ordered s) (h : Matched rto s)
    {ackno : WrappingInt32} (win : UInt16) (hpartly : Partly s ackno) :
    (s.ackReceived ackno win).timer.timeout = s.timer.timeout := by
  obtain ⟨t, ht, hacked, heq⟩ := ackReceived_fills hord hpartly.1 win
  obtain ⟨-, ⟨fresh, hfilled⟩, -⟩ := ht.fillWindow
  rw [heq, hfilled.timer_eq]
  rcases hacked.timer_eq with ⟨-, hout, htimer⟩ | ⟨hno, -⟩
  · have hne : s.outstandingSegments ≠ [] := by
      obtain ⟨-, oldest, hhead, -⟩ := hpartly
      exact List.ne_nil_of_mem (List.mem_of_mem_head? hhead)
    have hrun := h.not_expired hrto hne
    rw [htimer, if_neg (fun hboth => hrun hboth.2)]
  · exact absurd hpartly hno

theorem new_matched (capacity : ℕ) (rto : UInt16) (fixedIsn : Option WrappingInt32)
    (random : WrappingInt32) : Matched rto.toNat (TCPSender.new capacity rto fixedIsn random) where
  rto_eq := rfl
  few := Nat.zero_le _
  running h := absurd rfl h
  timeout_eq := (Nat.mul_one _).symm
  idle _ := rfl

end Sender

section Endpoint

variable {rto : ℕ} {S : List UInt8} {c : TCPConnection}

theorem alert_paced (hrto : 0 < rto) : Paced (Alert rto) where
  queue _ _ h := ⟨h.rto_eq, h.few, h.running⟩
  stream _ _ h := ⟨h.rto_eq, h.few, h.running⟩
  fill _ hord h := h.fill hrto hord

theorem matched_paced (hrto : 0 < rto) : Paced (Matched rto) where
  queue _ _ h := ⟨⟨h.rto_eq, h.few, h.running⟩, h.timeout_eq, h.idle⟩
  stream _ _ h := ⟨⟨h.rto_eq, h.few, h.running⟩, h.timeout_eq, h.idle⟩
  fill _ hord h := h.fill hrto hord

/-- However an active endpoint has got where it is. -/
theorem alert_reachable (cfg : TCPConfig) (random : WrappingInt32) (ops : List ConnectionOp)
    (hrto : 1 ≤ cfg.rtTimeout.toNat) (hactive : (calls.exec (new cfg random) ops).active = true) :
    Alert cfg.rtTimeout.toNat (calls.exec (new cfg random) ops).sender := by
  induction ops using List.reverseRecOn with
  | nil => exact (new_matched _ _ _ _).toAlert
  | append_singleton ops op ih =>
    obtain ⟨S, hlively⟩ := (new_lively cfg random).run ops
    rw [Machine.exec_snoc] at hactive ⊢
    have halert := ih (active_of_perform hactive)
    apply (alert_paced hrto).perform hlively halert hactive
    · intro ms _ hfew
      exact halert.tick hfew
    · intro seg _ _ _
      exact halert.ackReceived hrto hlively.1.ordered _ _

/-- A segment without RST that acknowledges the oldest segment in part. -/
def PartlyAcks (c : TCPConnection) : ConnectionOp → Prop
  | .segmentReceived seg => c.active = true ∧ seg.header.rst = false ∧ seg.header.ack = true ∧
      Partly c.sender seg.header.ackno
  | _ => False

instance (c : TCPConnection) : (op : ConnectionOp) → Decidable (PartlyAcks c op)
  | .segmentReceived _ => inferInstanceAs (Decidable (_ ∧ _))
  | .connect | .write _ | .endInputStream | .tick _ | .read _ => isFalse id

/-- A retry is not forgotten for a part of a segment. -/
def Remembers (c : TCPConnection) (op : ConnectionOp) : Prop :=
  PartlyAcks c op → c.sender.consecutiveRetransmissions = 0

instance (c : TCPConnection) (op : ConnectionOp) : Decidable (Remembers c op) :=
  inferInstanceAs (Decidable (_ → _))

/-- The timeout of an active endpoint is the initial one times two to the number of
retries, as a number of unbounded size. -/
def InStep (rto : ℕ) (c : TCPConnection) : Prop :=
  c.active = true →
    c.sender.timer.timeout = rto * 2 ^ c.sender.consecutiveRetransmissions ∧
      rto * 2 ^ c.sender.consecutiveRetransmissions < 2 ^ 64

instance (rto : ℕ) (c : TCPConnection) : Decidable (InStep rto c) :=
  inferInstanceAs (Decidable (_ → _))

/-- What a run keeps as long as every call remembers its retries. -/
def Steady (rto : ℕ) (c : TCPConnection) : Prop :=
  (∃ S, Lively S c) ∧ (c.active = true → Matched rto c.sender)

theorem Steady.inStep (hrto : rto < 2 ^ 16) (h : Steady rto c) : InStep rto c := by
  intro hactive
  have hmatched := h.2 hactive
  have hbound := doubled_lt hmatched.few hrto
  rw [hmatched.consecutive_eq, hmatched.timeout_eq]
  exact ⟨rfl, by omega⟩

theorem Steady.perform (hpos : 0 < rto) (hrto : rto < 2 ^ 16) (h : Steady rto c)
    {op : ConnectionOp} (hop : Remembers c op) : Steady rto (c.perform op) := by
  obtain ⟨⟨S, hlively⟩, hmatched⟩ := h
  refine ⟨hlively.perform op, ?_⟩
  intro hactive
  have hbefore := active_of_perform hactive
  have hm := hmatched hbefore
  apply (matched_paced hpos).perform hlively hm hactive
  · intro ms _ hfew
    exact hm.tick hrto hfew
  · intro seg hseg hrst hack
    apply hm.ackReceived hpos hlively.1.ordered
    intro hpartly
    rw [← hm.consecutive_eq]
    apply hop
    rw [hseg]
    exact ⟨hbefore, hrst, hack, hpartly⟩

/-- An advancing acknowledgment resets the count. -/
theorem segmentReceived_retx (hlively : Lively S c) {seg : TCPSegment}
    (hack : seg.header.ack = true) (hadv : Advances c.sender seg.header.ackno)
    (hactive : (c.segmentReceived seg).active = true) :
    (c.segmentReceived seg).sender.consecutiveRetransmissions = 0 := by
  rw [segmentReceived_active, Bool.and_eq_true, Bool.not_eq_true'] at hactive
  have hsent : c.synSent = true := decide_eq_true (Nat.lt_of_lt_of_le
    (Nat.lt_of_le_of_lt (Nat.zero_le _) hadv.1) hadv.2)
  obtain ⟨t, ht, hacked, heq⟩ := ackReceived_fills hlively.1.ordered hadv seg.header.win
  obtain ⟨-, ⟨fresh, hfilled⟩, -⟩ := ht.fillWindow
  rw [(segmentReceived_sender hlively.1 hsent hactive.2 hack).retx_eq, heq]
  unfold TCPSender.consecutiveRetransmissions
  rw [hfilled.retx_eq, hacked.retx_eq, Nat.zero_mod]

/-- A forgotten retry puts the timeout out of step at once. -/
theorem Steady.out_of_step (hpos : 0 < rto) (h : Steady rto c) {op : ConnectionOp}
    (hop : ¬ Remembers c op) : ¬ InStep rto (c.perform op) := by
  obtain ⟨⟨S, hlively⟩, hmatched⟩ := h
  obtain ⟨hacks, hcount⟩ := Classical.not_imp.mp hop
  cases op with
  | segmentReceived seg =>
    obtain ⟨hactive, hrst, hack, hpartly⟩ := hacks
    have hm := hmatched hactive
    have hsent : c.synSent = true := decide_eq_true (Nat.lt_of_lt_of_le
      (Nat.lt_of_le_of_lt (Nat.zero_le _) hpartly.1.1) hpartly.1.2)
    have hkept := hm.ackReceived_partly hpos hlively.1.ordered seg.header.win hpartly
    have hsender := segmentReceived_sender hlively.1 hsent hrst hack
    have hstill : (c.segmentReceived seg).active = true := by
      rw [segmentReceived_active, hactive, hrst]
      rfl
    intro hstep
    have heq : (c.segmentReceived seg).sender.timer.timeout =
        rto * 2 ^ (c.segmentReceived seg).sender.consecutiveRetransmissions := (hstep hstill).1
    rw [hsender.timer_eq, hkept, segmentReceived_retx hlively hack hpartly.1 hstill,
      hm.timeout_eq, Nat.mul_left_cancel_iff hpos, ← hm.consecutive_eq] at heq
    exact hcount (Nat.pow_right_injective (Nat.le_refl 2) heq)
  | _ => exact hacks.elim

/-- All along a run the timeout is in step with the retries, and an acknowledgment that
advances brings it back to its initial value. -/
structure TimeoutMatches (rto : ℕ) (c : TCPConnection) (ops : List ConnectionOp) : Prop where
  in_step : ∀ pre, pre <+: ops → InStep rto (calls.exec c pre)
  restored : ∀ pre seg, pre ++ [.segmentReceived seg] <+: ops → seg.header.ack = true →
    Advances (calls.exec c pre).sender seg.header.ackno →
    ((calls.exec c pre).segmentReceived seg).active = true →
    ((calls.exec c pre).segmentReceived seg).sender.timer.timeout = rto

/-- Over every run of an endpoint, whatever it receives, the timeout matches the retries
exactly if no retry is forgotten for a part of the oldest segment. -/
theorem timeout_matches_iff (cfg : TCPConfig) (random : WrappingInt32) (ops : List ConnectionOp)
    (hrto : 1 ≤ cfg.rtTimeout.toNat) :
    TimeoutMatches cfg.rtTimeout.toNat (new cfg random) ops ↔
      ∀ pre op, pre ++ [op] <+: ops → Remembers (calls.exec (new cfg random) pre) op := by
  have hlt : cfg.rtTimeout.toNat < 2 ^ 16 := cfg.rtTimeout.toNat_lt
  have hnew : Steady cfg.rtTimeout.toNat (new cfg random) :=
    ⟨⟨[], new_lively cfg random⟩, fun _ => new_matched _ _ _ _⟩
  have hiff := calls.always_iff_passes (P := Steady cfg.rtTimeout.toNat)
    (Q := InStep cfg.rtTimeout.toNat) (T := Remembers) (fun _ h => h.inStep hlt)
    (fun _ _ h _ hop => h.perform hrto hlt hop) (fun _ _ h _ hop => h.out_of_step hrto hop) hnew
    (calls.valid_of_total (fun _ _ => trivial) _ ops)
  rw [← hiff]
  constructor
  · intro h
    exact h.in_step
  · intro hstep
    refine ⟨hstep, ?_⟩
    intro pre seg hpre hack hadv hactive
    obtain ⟨S, hlively⟩ := (new_lively cfg random).run pre
    have hafter := hstep _ hpre
    rw [Machine.exec_snoc] at hafter
    change InStep _ ((calls.exec (new cfg random) pre).segmentReceived seg) at hafter
    rw [(hafter hactive).1, segmentReceived_retx hlively hack hadv hactive, Nat.pow_zero,
      Nat.mul_one]

/-- Two bytes go out and are sent again after the first timeout. -/
def retried : List ConnectionOp :=
  [.connect, .segmentReceived ⟨{ ackno := ⟨1⟩, ack := true, win := 10 }, []⟩, .write [1, 2],
    .tick 1000]

/-- An acknowledgment of both bytes brings the timeout back. -/
theorem timeout_matches_iff_completed :
    TimeoutMatches 1000 (new ⟨1000, 1, 2, some ⟨0⟩⟩ ⟨0⟩)
      (retried ++ [.segmentReceived ⟨{ ackno := ⟨3⟩, ack := true, win := 10 }, []⟩]) := by
  refine (timeout_matches_iff ⟨1000, 1, 2, some ⟨0⟩⟩ ⟨0⟩ _ (by decide)).mpr ?_
  unfold retried
  simp only [List.cons_append, List.nil_append, Machine.forall_snoc_prefix_cons]
  exact ⟨by decide, by decide, by decide, by decide, by decide, Machine.forall_snoc_prefix_nil⟩

/-- An acknowledgment of the first byte leaves a timeout of two seconds and no retry. -/
theorem part_keeps_timeout :
    ¬ TimeoutMatches 1000 (new ⟨1000, 1, 2, some ⟨0⟩⟩ ⟨0⟩)
      (retried ++ [.segmentReceived ⟨{ ackno := ⟨2⟩, ack := true, win := 10 }, []⟩]) := by
  intro hall
  have hstep := hall.in_step _ (List.prefix_refl _)
  revert hstep
  decide

end Endpoint

end Sponge.RetryTimeout
