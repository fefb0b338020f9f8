import Sponge.Backoff
import Sponge.Emission
import Sponge.RetryTimeout

/-!
An endpoint whose peer has fallen silent.
With something in flight and the window open, an endpoint that only ticks is the machine
of `Backoff`: its messages are the oldest outstanding segment, stamped with what the
receiver knows, and at the end the same segment with RST. The sender's timer and its
count of retries are the state of that machine.
-/
namespace Sponge.SilentPeer

open Words Runs Backoff SenderQueue ConnectionCalls ConnectionProgress Emission RetryTimeout
  TCPConnection

/-- An endpoint that only ticks, with the segments each tick emits. While it is active no
tick wraps the timer. -/
def ticking : Transducer TCPConnection ℕ (List TCPSegment) where
  enabled c ms := c.active = true → c.sender.timer.timeElapsed + ms < 2 ^ 64
  step := TCPConnection.tick
  reply c ms := (c.tick ms).segmentsOut.drop c.segmentsOut.length

section Tick

variable {c : TCPConnection} {ms : ℕ}

theorem reply_of_append {out : List TCPSegment}
    (h : (c.tick ms).segmentsOut = c.segmentsOut ++ out) : ticking.reply c ms = out := by
  unfold ticking
  dsimp only
  rw [h, List.drop_left]

/-- With something in flight and nothing queued there is no closing. -/
theorem tryClosing_of_busy (hqueue : c.sender.segmentsOut = []) (hflight : c.bytesInFlight ≠ 0) :
    c.tryClosingConnection = c := by
  have hsend : c.sendSegments false = c := by
    unfold sendSegments
    split
    · rw [hqueue, List.map_nil, List.append_nil, ← hqueue]
    · rfl
  have hopen : c.ostreamDone = false := by
    simp only [ostreamDone, Bool.and_eq_false_iff, beq_eq_false_iff_ne]
    exact Or.inr hflight
  unfold tryClosingConnection
  split
  · dsimp only
    rw [hsend, hopen, Bool.and_false, if_neg Bool.false_ne_true]
  · rfl

/-- A tick within the limit of retries only lets the sender tick and emits its queue. -/
theorem tick_within (hactive : c.active = true) (hflight : c.bytesInFlight ≠ 0)
    (hfew : (c.sender.tick ms).consecutiveRetransmissions ≤ TCPConfig.maxRetxAttempts) :
    c.tick ms = { c with
      sender := { c.sender.tick ms with segmentsOut := [] }
      segmentsOut := c.segmentsOut ++ (c.sender.tick ms).segmentsOut.map (c.stamp false)
      lastSegmRecvTimer := wrapAdd 64 c.lastSegmRecvTimer ms } := by
  have hsame := (tick_cases c.sender ms).1
  unfold TCPConnection.tick
  rw [if_pos hactive]
  dsimp only
  rw [if_neg (Nat.not_lt.mpr hfew), sendSegments_of_active (by exact hactive), tryClosing_of_busy]
  · rfl
  · rfl
  · unfold TCPConnection.bytesInFlight TCPSender.bytesInFlight at hflight ⊢
    dsimp only
    rw [hsame.nextSeqno_eq, hsame.absAckno_eq]
    exact hflight

/-- Past the limit both streams fail and the endpoint goes inactive. -/
theorem tick_beyond (hactive : c.active = true)
    (hmany : TCPConfig.maxRetxAttempts < (c.sender.tick ms).consecutiveRetransmissions) :
    (c.tick ms).active = false ∧ (c.tick ms).sender.stream.error = true ∧
      (c.tick ms).inboundStream.error = true := by
  have hdown : ∀ c : TCPConnection, c.giveUp.tryClosingConnection = c.giveUp :=
    fun c => if_neg Bool.false_ne_true
  unfold TCPConnection.tick
  rw [if_pos hactive]
  dsimp only
  rw [if_pos hmany, hdown]
  exact ⟨rfl, rfl, rfl⟩

theorem tick_of_inactive (h : c.active = false) (ms : ℕ) : c.tick ms = c := by
  unfold TCPConnection.tick
  rw [h, if_neg Bool.false_ne_true]

end Tick

theorem stamp_rst (c : TCPConnection) (rst : Bool) {seg : TCPSegment} (h : seg.header.Plain) :
    (c.stamp rst seg).header.rst = rst := by
  have hno : seg.header.rst = false := by
    rw [show seg.header = _ from h]
  unfold stamp
  cases rst with
  | true => rfl
  | false => cases c.receiver.ackno <;> exact hno

section Track

/-- The endpoint waits for an answer to its oldest segment. -/
structure Unanswered (rto : ℕ) (oldest : OrderedSegment) (copy last : TCPSegment)
    (c : TCPConnection) (elapsed timeout attempts : ℕ) : Prop where
  active : c.active = true
  queue : c.sender.segmentsOut = []
  head : ∃ rest, c.sender.outstandingSegments = oldest :: rest
  inFlight : c.bytesInFlight ≠ 0
  open_window : c.sender.windowSize > 0
  timer_eq : c.sender.timer = ⟨elapsed, timeout⟩
  retx_eq : c.sender.nConsecRetransmissions = attempts
  few : attempts ≤ TCPConfig.maxRetxAttempts
  timeout_eq : timeout = rto * 2 ^ attempts
  copy_eq : c.stamp false oldest.segment = copy
  last_eq : c.stamp true oldest.segment = last

/-- How the states of the endpoint and of the machine belong together. -/
def Tracks (rto : ℕ) (oldest : OrderedSegment) (copy last : TCPSegment) (c : TCPConnection) :
    Phase → Prop
  | .waiting elapsed timeout attempts =>
    Unanswered rto oldest copy last c elapsed timeout attempts
  | .stopped => c.active = false ∧ c.sender.stream.error = true ∧ c.inboundStream.error = true

variable {rto : ℕ} {oldest : OrderedSegment} {copy last : TCPSegment} {c : TCPConnection}
  {elapsed timeout attempts ms : ℕ}

/-- Before the first retry, from wherever the timer stands. -/
theorem unanswered_start {rest : List OrderedSegment} (hactive : c.active = true)
    (hqueue : c.sender.segmentsOut = []) (hout : c.sender.outstandingSegments = oldest :: rest)
    (hflight : c.bytesInFlight ≠ 0) (hwindow : 0 < c.sender.windowSize)
    (hcount : c.sender.nConsecRetransmissions = 0) (htimeout : c.sender.timer.timeout = rto) :
    Unanswered rto oldest (c.stamp false oldest.segment) (c.stamp true oldest.segment) c
      c.sender.timer.timeElapsed c.sender.timer.timeout 0 where
  active := hactive
  queue := hqueue
  head := ⟨rest, hout⟩
  inFlight := hflight
  open_window := hwindow
  timer_eq := rfl
  retx_eq := hcount
  few := Nat.zero_le _
  timeout_eq := htimeout.trans (Nat.mul_one rto).symm
  copy_eq := rfl
  last_eq := rfl

/-- What the sender does in a tick within the limit shows in the endpoint. -/
theorem Unanswered.within (h : Unanswered rto oldest copy last c elapsed timeout attempts)
    {out : List TCPSegment} {elapsed' timeout' attempts' : ℕ}
    (htick : c.sender.tick ms = { c.sender with
      segmentsOut := out, timer := ⟨elapsed', timeout'⟩, nConsecRetransmissions := attempts' })
    (hfew : attempts' ≤ TCPConfig.maxRetxAttempts) (htimeout : timeout' = rto * 2 ^ attempts') :
    ticking.reply c ms = out.map (c.stamp false) ∧
      Unanswered rto oldest copy last (c.tick ms) elapsed' timeout' attempts' := by
  have hcount : (c.sender.tick ms).consecutiveRetransmissions ≤ TCPConfig.maxRetxAttempts := by
    rw [htick]
    exact Nat.le_trans (Nat.mod_le _ _) hfew
  have hall := tick_within h.active h.inFlight hcount
  rw [htick] at hall
  refine ⟨reply_of_append (by rw [hall]), ?_⟩
  rw [hall]
  exact
    { active := h.active
      queue := rfl
      head := h.head
      inFlight := h.inFlight
      open_window := h.open_window
      timer_eq := rfl
      retx_eq := rfl
      few := hfew
      timeout_eq := htimeout
      copy_eq := h.copy_eq
      last_eq := h.last_eq }

section Sum

variable (h : Unanswered rto oldest copy last c elapsed timeout attempts)
  (hwrap : elapsed + ms < 2 ^ 64)

include h hwrap

theorem Unanswered.wrapAdd_eq : wrapAdd 64 c.sender.timer.timeElapsed ms = elapsed + ms := by
  rw [h.timer_eq]
  exact wrapAdd_of_lt hwrap

/-- Before the timeout a tick is silent. -/
theorem Unanswered.early (hearly : elapsed + ms < timeout) :
    ticking.reply c ms = [] ∧
      Unanswered rto oldest copy last (c.tick ms) (elapsed + ms) timeout attempts := by
  have hsum := h.wrapAdd_eq hwrap
  have hstill : wrapAdd 64 c.sender.timer.timeElapsed ms < c.sender.timer.timeout := by
    rw [hsum, h.timer_eq]
    exact hearly
  have htick : c.sender.tick ms = { c.sender with
      segmentsOut := []
      timer := ⟨elapsed + ms, timeout⟩
      nConsecRetransmissions := attempts } := by
    rw [tick_of_still (Or.inr hstill), hsum, h.timer_eq, ← h.queue, ← h.retx_eq]
  exact h.within htick h.few h.timeout_eq

theorem Unanswered.expired (hdue : timeout ≤ elapsed + ms) :
    c.sender.timer.timeout ≤ wrapAdd 64 c.sender.timer.timeElapsed ms := by
  rw [h.wrapAdd_eq hwrap, h.timer_eq]
  exact hdue

/-- At the timeout the sender queues the oldest segment, counts and doubles. -/
theorem Unanswered.sender_due (hrto : rto < 2 ^ 16) (hdue : timeout ≤ elapsed + ms) :
    c.sender.tick ms = { c.sender with
      segmentsOut := [oldest.segment], timer := ⟨0, timeout * 2⟩,
      nConsecRetransmissions := attempts + 1 } := by
  obtain ⟨rest, hhead⟩ := h.head
  have hdouble : timeout * 2 % 2 ^ 64 = timeout * 2 := by
    rw [h.timeout_eq]
    exact Nat.mod_eq_of_lt (doubled_lt h.few hrto)
  rw [tick_of_expired hhead (h.expired hwrap hdue), if_pos h.open_window, if_pos h.open_window,
    h.queue, h.timer_eq, h.retx_eq, hdouble]
  rfl

theorem Unanswered.due (hrto : rto < 2 ^ 16) (hdue : timeout ≤ elapsed + ms)
    (hmore : attempts < TCPConfig.maxRetxAttempts) :
    ticking.reply c ms = [copy] ∧
      Unanswered rto oldest copy last (c.tick ms) 0 (timeout * 2) (attempts + 1) := by
  have hnext := h.within (h.sender_due hwrap hrto hdue) hmore
    (by rw [h.timeout_eq, Nat.pow_succ, Nat.mul_assoc])
  rw [List.map_singleton, h.copy_eq] at hnext
  exact hnext

/-- The timeout after the last attempt sends the RST. -/
theorem Unanswered.spent (hrto : rto < 2 ^ 16) (hdue : timeout ≤ elapsed + ms)
    (hspent : ¬ attempts < TCPConfig.maxRetxAttempts) :
    ticking.reply c ms = [last] ∧ Tracks rto oldest copy last (c.tick ms) .stopped := by
  obtain ⟨rest, hhead⟩ := h.head
  have hexp := h.expired hwrap hdue
  have hfew := h.few
  have hmany : TCPConfig.maxRetxAttempts < (c.sender.tick ms).consecutiveRetransmissions := by
    rw [h.sender_due hwrap hrto hdue]
    unfold TCPSender.consecutiveRetransmissions TCPConfig.maxRetxAttempts at *
    dsimp only
    omega
  refine ⟨reply_of_append ?_, tick_beyond h.active hmany⟩
  rw [tick_emits h.active hhead hexp, decide_eq_true hmany, h.queue, ← h.last_eq]
  rfl

end Sum

/-- One tick of both. -/
theorem Tracks.tick {p : Phase} (hrto : rto < 2 ^ 16) (h : Tracks rto oldest copy last c p)
    (hwrap : ticking.enabled c ms) :
    ticking.reply c ms = reply TCPConfig.maxRetxAttempts copy last p ms ∧
      Tracks rto oldest copy last (c.tick ms) (step TCPConfig.maxRetxAttempts p ms) := by
  cases p with
  | stopped =>
    have hsame := tick_of_inactive h.1 ms
    refine ⟨reply_of_append (by rw [hsame]; exact (List.append_nil _).symm), ?_⟩
    rw [hsame]
    exact h
  | waiting elapsed timeout attempts =>
    have hu : Unanswered rto oldest copy last c elapsed timeout attempts := h
    have hsum : elapsed + ms < 2 ^ 64 := by
      have hlt := hwrap hu.active
      rw [hu.timer_eq] at hlt
      exact hlt
    by_cases hearly : elapsed + ms < timeout
    · rw [(tick_early copy last hearly).1, (tick_early copy last hearly).2]
      exact hu.early hsum hearly
    · have hdue := Nat.le_of_not_lt hearly
      by_cases hmore : attempts < TCPConfig.maxRetxAttempts
      · rw [(tick_due copy last hdue hmore).1, (tick_due copy last hdue hmore).2]
        exact hu.due hsum hrto hdue hmore
      · rw [(tick_spent copy last hdue hmore).1, (tick_spent copy last hdue hmore).2]
        exact hu.spent hsum hrto hdue hmore

/-- The endpoint does what the machine does. -/
theorem ticking_simulates (hrto : rto < 2 ^ 16) :
    Transducer.Simulation ticking (backoff TCPConfig.maxRetxAttempts copy last)
      (Tracks rto oldest copy last) where
  enabled _ _ _ _ _ := trivial
  reply _ _ _ h hwrap := (h.tick hrto hwrap).1
  step _ _ _ h hwrap := (h.tick hrto hwrap).2

/-- Ticks that sum up to less than the range of the timer do not wrap it. -/
theorem valid_of_total (hrto : rto < 2 ^ 16) {p : Phase} (h : Tracks rto oldest copy last c p)
    (ticks : List ℕ) (htotal : p.elapsed + ticks.sum < 2 ^ 64) : ticking.Valid c ticks := by
  induction ticks generalizing c p with
  | nil => exact trivial
  | cons ms ticks ih =>
    rw [List.sum_cons] at htotal
    have hwrap : ticking.enabled c ms := by
      intro hactive
      cases p with
      | stopped =>
        rw [h.1] at hactive
        exact absurd hactive Bool.false_ne_true
      | waiting elapsed timeout attempts =>
        have helapsed : c.sender.timer.timeElapsed = elapsed := by
          rw [h.timer_eq]
        change elapsed + _ < _ at htotal
        omega
    have hle := step_elapsed_le TCPConfig.maxRetxAttempts p ms
    exact ⟨hwrap, ih (h.tick hrto hwrap).2 (by omega)⟩

end Track

/-- What the machine's phase says about the endpoint. -/
def Shows (c : TCPConnection) : Phase → Prop
  | .waiting elapsed timeout attempts => c.active = true ∧ c.sender.timer = ⟨elapsed, timeout⟩ ∧
      c.sender.consecutiveRetransmissions = attempts
  | .stopped => c.active = false ∧ c.sender.stream.error = true ∧ c.inboundStream.error = true

theorem Tracks.shows {rto : ℕ} {oldest : OrderedSegment} {copy last : TCPSegment}
    {c : TCPConnection} {p : Phase} (h : Tracks rto oldest copy last c p) : Shows c p := by
  cases p with
  | stopped => exact h
  | waiting elapsed timeout attempts =>
    have hu : Unanswered rto oldest copy last c elapsed timeout attempts := h
    have hfew := hu.few
    unfold TCPConfig.maxRetxAttempts at hfew
    refine ⟨hu.active, hu.timer_eq, ?_⟩
    unfold TCPSender.consecutiveRetransmissions
    rw [hu.retx_eq]
    exact Nat.mod_eq_of_lt (by omega)

/-- The phase of the machine after some ticks, from the endpoint's timer on. -/
def phaseAfter (c : TCPConnection) (copy last : TCPSegment) (ticks : List ℕ) : Phase :=
  (backoff TCPConfig.maxRetxAttempts copy last).exec
    (.waiting c.sender.timer.timeElapsed c.sender.timer.timeout 0) ticks

/-- An endpoint that ticks backs off and gives up. Its messages are copies of the oldest
segment without RST, and one copy with RST at the end. -/
structure BacksOff (c : TCPConnection) (copy last : TCPSegment) (ticks : List ℕ) : Prop where
  copy_plain : copy.header.rst = false
  last_reset : last.header.rst = true
  paced : ticking.replies c ticks = (backoff TCPConfig.maxRetxAttempts copy last).replies
    (.waiting c.sender.timer.timeElapsed c.sender.timer.timeout 0) ticks
  single : ∀ out ∈ ticking.replies c ticks, out.length ≤ 1
  sent : Sent TCPConfig.maxRetxAttempts copy last 0 (ticking.replies c ticks).flatten
    (phaseAfter c copy last ticks)
  shows : Shows (ticking.exec c ticks) (phaseAfter c copy last ticks)

/-- The endpoint has come about by calls of any kind. -/
def Reached (cfg : TCPConfig) (c : TCPConnection) : Prop :=
  ∃ random ops, c = calls.exec (new cfg random) ops

/-- Every reachable active endpoint with something in flight, an open window, no retry
yet and the initial timeout, over ticks of any sizes. -/
theorem silent_peer_backoff (cfg : TCPConfig) {c : TCPConnection} (hc : Reached cfg c)
    (hrto : 1 ≤ cfg.rtTimeout.toNat) (hactive : c.active = true) (hflight : 0 < c.bytesInFlight)
    (hwindow : 0 < c.sender.windowSize) (hretx : c.sender.consecutiveRetransmissions = 0)
    (htimeout : c.sender.timer.timeout = cfg.rtTimeout.toNat) (ticks : List ℕ)
    (htotal : ticks.sum < 2 ^ 63) :
    ∃ oldest, c.sender.outstandingSegments.head? = some oldest ∧
      BacksOff c (c.stamp false oldest.segment) (c.stamp true oldest.segment) ticks := by
  obtain ⟨random, ops, rfl⟩ := hc
  obtain ⟨S, hlively, hflushed⟩ := reachable cfg random ops
  have halert := alert_reachable cfg random ops hrto hactive
  generalize calls.exec (new cfg random) ops = c at *
  have hord := hlively.1.ordered
  have hbytes := hord.sane.bytesInFlight_eq
  have hflight' : 0 < c.sender.bytesInFlight := hflight
  obtain ⟨oldest, rest, hout⟩ := hord.exists_oldest (by omega)
  have hlt : cfg.rtTimeout.toNat < 2 ^ 16 := cfg.rtTimeout.toNat_lt
  have hcount : c.sender.nConsecRetransmissions = 0 := halert.consecutive_eq.symm.trans hretx
  have hplain : oldest.segment.header.Plain := hlively.1.outstanding_plain (by simp [hout])
  have htracks : Tracks cfg.rtTimeout.toNat oldest (c.stamp false oldest.segment)
      (c.stamp true oldest.segment) c
      (.waiting c.sender.timer.timeElapsed c.sender.timer.timeout 0) :=
    unanswered_start hactive (hflushed hactive) hout (Nat.ne_of_gt hflight) hwindow hcount htimeout
  -- the timer has not expired, so it has counted less than the initial timeout
  have hearly : c.sender.timer.timeElapsed < 2 ^ 16 := by
    rcases halert.running (by simp [hout]) with hless | hzero
    · omega
    · omega
  have hvalid := valid_of_total hlt htracks ticks
    (by change c.sender.timer.timeElapsed + _ < _; omega)
  obtain ⟨-, hreplies, hend⟩ := (ticking_simulates hlt).run htracks hvalid
  refine ⟨oldest, by rw [hout]; rfl, stamp_rst c false hplain, stamp_rst c true hplain, hreplies,
    ?_, ?_, hend.shows⟩
  · rw [hreplies]
    exact replies_length_le _ ticks
  · rw [hreplies]
    exact sent_of_waiting _ _ (Nat.zero_le _) ticks

/-- A SYN that nobody answers, with ticks of half a second and more. -/
theorem silent_peer_backoff_syn :
    ∃ oldest, (calls.exec (new ⟨1000, 1, 1, some ⟨0⟩⟩ ⟨0⟩)
        [.connect]).sender.outstandingSegments.head? = some oldest ∧
      BacksOff (calls.exec (new ⟨1000, 1, 1, some ⟨0⟩⟩ ⟨0⟩) [.connect])
        ((calls.exec (new ⟨1000, 1, 1, some ⟨0⟩⟩ ⟨0⟩) [.connect]).stamp false oldest.segment)
        ((calls.exec (new ⟨1000, 1, 1, some ⟨0⟩⟩ ⟨0⟩) [.connect]).stamp true oldest.segment)
        [500, 600, 1999, 1, 9000] :=
  silent_peer_backoff ⟨1000, 1, 1, some ⟨0⟩⟩ ⟨⟨0⟩, [.connect], rfl⟩ (by decide) (by decide)
    (by decide) (by decide) (by decide) (by decide) [500, 600, 1999, 1, 9000] (by decide)

end Sponge.SilentPeer
