import Sponge.Runs
import Sponge.SenderQueue

/-!
When retransmissions come.
The owner's clock is the sum of the milliseconds passed to `tick`. The log keeps, newest
first, the clock reading at every push of a segment of the queue, under its absolute
sequence number. The timer also runs while nothing is outstanding, and a segment sent
then joins a timeout that began before it; a doubled timeout can wrap to zero. Where
neither happens, no segment is retransmitted within the initial timeout of its last push.
-/
namespace Sponge.SenderTimer

open Words Runs SenderLoop SenderQueue TCPSender

/-- The milliseconds a call adds to the owner's clock. -/
def elapsedBy : SenderOp → ℕ
  | .tick ms => ms
  | _ => 0

/-- The segment a call pushes again. -/
def retransmitted (s : TCPSender) : SenderOp → Option OrderedSegment
  | .tick ms =>
    if (s.tick ms).segmentsOut = s.segmentsOut then none else s.outstandingSegments.head?
  | _ => none

structure Timed where
  sender : TCPSender
  clock : ℕ
  log : List (ℕ × ℕ)

namespace Timed

def new (sender : TCPSender) : Timed := ⟨sender, 0, []⟩

def step (w : Timed) (op : SenderOp) : Timed :=
  let clock := w.clock + elapsedBy op
  let pushes := (retransmitted w.sender op).toList ++ newEntries w.sender (w.sender.apply op)
  ⟨w.sender.apply op, clock, pushes.map (fun e => (e.seqno, clock)) ++ w.log⟩

end Timed

/-- A segment sent with nothing outstanding finds a timer that has not begun or is not
running, and a timeout about to double does not wrap. -/
def TimerReady (s : TCPSender) : SenderOp → Prop
  | .fillWindow => s.outstandingSegments = [] → Pending s →
      s.timer.timeElapsed = 0 ∨ s.timer.timeout ≤ s.timer.timeElapsed
  | .tick ms => s.outstandingSegments ≠ [] → 0 < s.windowSize →
      s.timer.timeout ≤ wrapAdd 64 s.timer.timeElapsed ms → s.timer.timeout < 2 ^ 63
  | _ => True

instance (s : TCPSender) : (op : SenderOp) → Decidable (TimerReady s op)
  | .fillWindow | .tick _ => inferInstanceAs (Decidable (_ → _))
  | .write _ | .endInput | .setError | .ackReceived _ _ | .sendEmptySegment | .popSegment =>
    isTrue trivial

def machine : Machine Timed SenderOp where
  enabled w op := TimerReady w.sender op
  step := Timed.step

instance (w : Timed) (op : SenderOp) : Decidable (machine.enabled w op) :=
  inferInstanceAs (Decidable (TimerReady w.sender op))

/-- The retransmission comes at least the initial timeout after the last push. -/
def OnTime (rto : ℕ) (w : Timed) (op : SenderOp) : Prop :=
  ∀ e ∈ retransmitted w.sender op,
    ∃ t, w.log.lookup e.seqno = some t ∧ t + rto ≤ w.clock + elapsedBy op

/-- The timer has not run longer than the oldest segment has waited. -/
structure Punctual (rto : ℕ) (w : Timed) : Prop where
  ordered : Ordered w.sender
  rto_eq : w.sender.initialRetransmissionTimeout = rto
  timeout_ge : rto ≤ w.sender.timer.timeout
  past : ∀ p ∈ w.log, p.2 ≤ w.clock
  logged : ∀ e ∈ w.sender.outstandingSegments, ∃ t, w.log.lookup e.seqno = some t
  oldest : ∀ e ∈ w.sender.outstandingSegments.head?, ∀ t, w.log.lookup e.seqno = some t →
    t + w.sender.timer.timeElapsed ≤ w.clock

theorem new_punctual (capacity : ℕ) (rto : UInt16) (fixedIsn : Option WrappingInt32)
    (random : WrappingInt32) :
    Punctual rto.toNat (Timed.new (new capacity rto fixedIsn random)) where
  ordered := new_ordered capacity rto fixedIsn random
  rto_eq := rfl
  timeout_ge := Nat.le_refl _
  past p hp := by simp [Timed.new] at hp
  logged e he := by simp [Timed.new, new] at he
  oldest e he := by simp [Timed.new, new] at he

section Log

variable {es : List OrderedSegment} {log : List (ℕ × ℕ)} {clock q : ℕ}

theorem mem_of_lookup {t : ℕ} (h : log.lookup q = some t) : (q, t) ∈ log := by
  obtain ⟨front, back, rfl, -⟩ := List.lookup_eq_some_iff.mp h
  simp

theorem lookup_of_other (h : ∀ e ∈ es, e.seqno ≠ q) :
    (es.map (fun e => (e.seqno, clock)) ++ log).lookup q = log.lookup q := by
  induction es with
  | nil => rfl
  | cons e es ih =>
    obtain ⟨hne, hrest⟩ := List.forall_mem_cons.mp h
    have hq : (q == e.seqno) = false := by simpa using Ne.symm hne
    simp only [List.map_cons, List.cons_append, List.lookup_cons, hq]
    exact ih hrest

theorem lookup_of_mem {e : OrderedSegment} (he : e ∈ es) :
    (es.map (fun e => (e.seqno, clock)) ++ log).lookup e.seqno = some clock := by
  induction es with
  | nil => simp at he
  | cons x es ih =>
    simp only [List.map_cons, List.cons_append, List.lookup_cons]
    cases hx : e.seqno == x.seqno with
    | true => rfl
    | false =>
      rcases List.mem_cons.mp he with rfl | hmem
      · simp at hx
      · exact ih hmem

end Log

/-- A call that takes no time logs the new segments only. -/
theorem step_of_untimed (w : Timed) (op : SenderOp) {s' : TCPSender}
    (happ : w.sender.apply op = s') (hnone : retransmitted w.sender op = none)
    (hzero : elapsedBy op = 0) :
    w.step op = ⟨s', w.clock, (newEntries w.sender s').map (fun e => (e.seqno, w.clock)) ++
      w.log⟩ := by
  unfold Timed.step
  rw [happ, hnone, hzero]
  rfl

namespace Punctual

variable {rto : ℕ} {w : Timed}

/-- A call that may erase a front of the queue and send new segments, in no time. The
timer starts anew, or the oldest segment is still the same and has not waited less. -/
theorem of_sends (h : Punctual rto w) {s' : TCPSender} {kept fresh : List OrderedSegment}
    (hord : Ordered s') (hrto : s'.initialRetransmissionTimeout = rto)
    (htimeout : rto ≤ s'.timer.timeout) (hkept : kept <:+ w.sender.outstandingSegments)
    (hout : s'.outstandingSegments = kept ++ fresh)
    (hfresh : ∀ e ∈ fresh, w.sender.nextSeqno ≤ e.seqno)
    (htimer : s'.timer.timeElapsed = 0 ∨
      (s'.timer.timeElapsed ≤ w.sender.timer.timeElapsed ∧
        s'.outstandingSegments.head? = w.sender.outstandingSegments.head?)) :
    Punctual rto ⟨s', w.clock, fresh.map (fun e => (e.seqno, w.clock)) ++ w.log⟩ := by
  have hpast : ∀ p ∈ fresh.map (fun e => (e.seqno, w.clock)) ++ w.log, p.2 ≤ w.clock := by
    intro p hp
    rcases List.mem_append.mp hp with hnew | hold
    · obtain ⟨e, -, rfl⟩ := List.mem_map.mp hnew
      exact Nat.le_refl _
    · exact h.past p hold
  have hother : ∀ e ∈ w.sender.outstandingSegments,
      (fresh.map (fun e => (e.seqno, w.clock)) ++ w.log).lookup e.seqno =
        w.log.lookup e.seqno := by
    intro e he
    apply lookup_of_other
    intro x hx
    have hge := hfresh x hx
    have hlt := (h.ordered.below he).2
    omega
  refine ⟨hord, hrto, htimeout, hpast, ?_, ?_⟩
  · intro e he
    change e ∈ s'.outstandingSegments at he
    rw [hout] at he
    rcases List.mem_append.mp he with hold | hnew
    · have hmem := hkept.subset hold
      obtain ⟨t, ht⟩ := h.logged e hmem
      exact ⟨t, (hother e hmem).trans ht⟩
    · exact ⟨w.clock, lookup_of_mem hnew⟩
  · intro e he t ht
    change t + s'.timer.timeElapsed ≤ w.clock
    rcases htimer with hzero | ⟨hle, hhead⟩
    · have hpush := hpast _ (mem_of_lookup ht)
      dsimp only at hpush
      omega
    · change e ∈ s'.outstandingSegments.head? at he
      rw [hhead] at he
      have hmem := List.mem_of_mem_head? he
      have hold := h.oldest e he t ((hother e hmem).symm.trans ht)
      omega

/-- A call that leaves queue and timer alone. -/
theorem of_quiet (h : Punctual rto w) {s' : TCPSender} (hord : Ordered s')
    (hrto : s'.initialRetransmissionTimeout = w.sender.initialRetransmissionTimeout)
    (htimer : s'.timer = w.sender.timer)
    (hout : s'.outstandingSegments = w.sender.outstandingSegments) :
    Punctual rto ⟨s', w.clock, (newEntries w.sender s').map (fun e => (e.seqno, w.clock)) ++
      w.log⟩ := by
  have hsame : s'.outstandingSegments = w.sender.outstandingSegments ++ [] := by
    rw [hout, List.append_nil]
  rw [h.ordered.newEntries_nil hout]
  refine h.of_sends hord (hrto.trans h.rto_eq) ?_ (List.suffix_refl _) hsame ?_ ?_
  · rw [htimer]
    exact h.timeout_ge
  · simp
  · rw [htimer, hout]
    exact Or.inr ⟨Nat.le_refl _, rfl⟩

/-- `fill_window`, called in a state q that differs from the one before the call by
what an acknowledgment does. -/
theorem of_filled (h : Punctual rto w) {q s' : TCPSender} {fresh : List OrderedSegment}
    (hfilled : Filled q fresh s') (hord : Ordered s')
    (hrto : q.initialRetransmissionTimeout = rto) (hnext : q.nextSeqno = w.sender.nextSeqno)
    (hkept : q.outstandingSegments <:+ w.sender.outstandingSegments)
    (htimeout : rto ≤ q.timer.timeout)
    (htimer : (q.timer.timeElapsed = 0 ∨ (fresh ≠ [] ∧ q.timer.expired = true)) ∨
      (q.timer = w.sender.timer ∧ q.outstandingSegments = w.sender.outstandingSegments ∧
        (fresh = [] ∨ q.outstandingSegments ≠ []))) :
    Punctual rto ⟨s', w.clock, (newEntries w.sender s').map (fun e => (e.seqno, w.clock)) ++
      w.log⟩ := by
  have htiles : Consecutive w.sender.nextSeqno fresh s'.nextSeqno := hnext ▸ hfilled.tiles
  have hstart : s'.timer = ⟨0, rto⟩ ∨ s'.timer = q.timer := by
    rw [hfilled.timer_eq, hrto]
    split
    · exact Or.inl rfl
    · exact Or.inr rfl
  rw [h.ordered.newEntries_eq hkept hfilled.outstanding_eq htiles]
  refine h.of_sends hord (hfilled.rto_eq.trans hrto) ?_ hkept hfilled.outstanding_eq
    (fun e he => (htiles.bounds he).1) ?_
  · rcases hstart with hnew | hold
    · rw [hnew]
    · rw [hold]
      exact htimeout
  · rcases htimer with (hzero | hexp) | ⟨hsame, hout, hhead⟩
    · left
      rcases hstart with hnew | hold
      · rw [hnew]
      · rw [hold]
        exact hzero
    · left
      rw [hfilled.timer_eq, if_pos hexp]
    · right
      refine ⟨?_, ?_⟩
      · rcases hstart with hnew | hold
        · rw [hnew]
          exact Nat.zero_le _
        · rw [hold, hsame]
      · rw [hfilled.outstanding_eq, hout]
        rcases hhead with hnone | hsome
        · rw [hnone, List.append_nil]
        · rw [hout] at hsome
          exact List.head?_append_of_ne_nil _ hsome

theorem fillWindow (h : Punctual rto w) (hready : TimerReady w.sender .fillWindow) :
    Punctual rto (w.step .fillWindow) := by
  obtain ⟨hord, ⟨fresh, hfilled⟩, -⟩ := h.ordered.fillWindow
  refine h.of_filled hfilled hord h.rto_eq rfl (List.suffix_refl _) h.timeout_ge ?_
  by_cases hfresh : fresh = []
  · exact Or.inr ⟨rfl, rfl, Or.inl hfresh⟩
  · by_cases hnil : w.sender.outstandingSegments = []
    · left
      have hs : Sends w.sender := by
        by_contra hno
        have hsame := fillWindow_of_not_sends h.ordered.sane.stream_valid hno
        have hout := hfilled.outstanding_eq
        rw [hsame, hnil] at hout
        exact hfresh (by simpa using hout.symm)
      have hpending := (h.ordered.sane.sends_iff_of_idle (h.ordered.nil_iff.mp hnil)).mp hs
      rcases hready hnil hpending with hzero | hexp
      · exact Or.inl hzero
      · exact Or.inr ⟨hfresh, decide_eq_true hexp⟩
    · exact Or.inr ⟨rfl, rfl, Or.inr hnil⟩

theorem ackReceived (h : Punctual rto w) (ackno : WrappingInt32) (win : UInt16) :
    Punctual rto (w.step (.ackReceived ackno win)) := by
  have hord := h.ordered.ackReceived ackno win
  have hwin := h.ordered.setWindow win.toNat_lt
  rcases ackReceived_cases w.sender ackno win with ⟨-, heq⟩ | ⟨ack, -, hlo, hhi, heq⟩
  · rw [step_of_untimed w (.ackReceived ackno win) heq rfl rfl]
    exact h.of_quiet hwin rfl rfl rfl
  · obtain ⟨-, ⟨fresh, hfilled⟩, -⟩ := (hwin.acknowledge hlo hhi).fillWindow
    obtain ⟨hsuf, heffect⟩ := hwin.acknowledge_effect hlo
    rw [step_of_untimed w (.ackReceived ackno win) heq rfl rfl]
    rw [heq] at hord
    refine h.of_filled hfilled hord h.rto_eq rfl hsuf ?_ ?_
    · rcases heffect with ⟨-, hsame⟩ | hstart
      · rw [hsame]
        exact h.timeout_ge
      · rw [hstart]
        exact Nat.le_of_eq h.rto_eq.symm
    · rcases heffect with ⟨hout, hsame⟩ | hstart
      · refine Or.inr ⟨hsame, hout, Or.inr ?_⟩
        intro hnil
        rw [hout] at hnil
        have hidle := h.ordered.nil_iff.mp hnil
        have hlo' : w.sender.absAckno < ack := hlo
        omega
      · left
        left
        rw [hstart]

/-- A tick sends nothing new: it logs what it repeats. -/
theorem step_tick (h : Punctual rto w) (ms : ℕ) :
    w.step (.tick ms) = ⟨w.sender.tick ms, w.clock + ms, (retransmitted w.sender
      (.tick ms)).toList.map (fun e => (e.seqno, w.clock + ms)) ++ w.log⟩ := by
  have hnew : newEntries w.sender (w.sender.tick ms) = [] :=
    h.ordered.newEntries_nil (tick_cases w.sender ms).1.outstanding_eq
  unfold Timed.step
  simp only [elapsedBy, apply, hnew, List.append_nil]

theorem tick_counted (h : Punctual rto w) {ms : ℕ}
    (hquiet : (w.sender.tick ms).segmentsOut = w.sender.segmentsOut)
    (htimer : (w.sender.tick ms).timer =
      ⟨wrapAdd 64 w.sender.timer.timeElapsed ms, w.sender.timer.timeout⟩) :
    Punctual rto (w.step (.tick ms)) ∧ OnTime rto w (.tick ms) := by
  have hsame := (tick_cases w.sender ms).1
  have hnone : retransmitted w.sender (.tick ms) = none := if_pos hquiet
  refine ⟨?_, ?_⟩
  · rw [h.step_tick, hnone]
    refine ⟨h.ordered.of_same hsame, hsame.rto_eq.trans h.rto_eq, ?_, ?_, ?_, ?_⟩
    · rw [htimer]
      exact h.timeout_ge
    · exact fun p hp => Nat.le_add_right_of_le (h.past p hp)
    · rw [hsame.outstanding_eq]
      exact h.logged
    · rw [hsame.outstanding_eq, htimer]
      intro e he t ht
      have hold := h.oldest e he t ht
      have hle := wrapAdd_le 64 w.sender.timer.timeElapsed ms
      dsimp only
      omega
  · intro e he
    rw [hnone] at he
    simp at he

/-- The repeated segment is logged anew, and the timer starts again with it. -/
theorem tick_repeated (h : Punctual rto w) {ms : ℕ} {e : OrderedSegment}
    (hrepeat : retransmitted w.sender (.tick ms) = some e)
    (hzero : (w.sender.tick ms).timer.timeElapsed = 0)
    (htimeout : rto ≤ (w.sender.tick ms).timer.timeout) :
    Punctual rto (w.step (.tick ms)) := by
  have hsame := (tick_cases w.sender ms).1
  have hpast : ∀ p ∈ [e].map (fun e => (e.seqno, w.clock + ms)) ++ w.log,
      p.2 ≤ w.clock + ms := by
    intro p hp
    rcases List.mem_append.mp hp with hone | hold
    · simp only [List.map_cons, List.map_nil, List.mem_singleton] at hone
      rw [hone]
    · exact Nat.le_add_right_of_le (h.past p hold)
  rw [h.step_tick, hrepeat]
  refine ⟨h.ordered.of_same hsame, hsame.rto_eq.trans h.rto_eq, htimeout, hpast, ?_, ?_⟩
  · rw [hsame.outstanding_eq]
    intro x hx
    by_cases hxe : x.seqno = e.seqno
    · exact ⟨_, by rw [hxe]; exact lookup_of_mem (List.mem_singleton.mpr rfl)⟩
    · obtain ⟨t, ht⟩ := h.logged x hx
      refine ⟨t, (lookup_of_other ?_).trans ht⟩
      simpa using Ne.symm hxe
  · intro x hx t ht
    rw [hzero]
    exact hpast _ (mem_of_lookup ht)

/-- A tick only counts, or repeats the oldest segment in time. -/
theorem tick (h : Punctual rto w) (ms : ℕ) (hready : TimerReady w.sender (.tick ms)) :
    Punctual rto (w.step (.tick ms)) ∧ OnTime rto w (.tick ms) := by
  have hge := h.timeout_ge
  have hle := wrapAdd_le 64 w.sender.timer.timeElapsed ms
  rcases (tick_cases w.sender ms).2 with
    ⟨-, hquiet, htimer, -⟩ | ⟨e, rest, hout, hexp, hpush, htimer⟩
  · exact h.tick_counted hquiet htimer
  · have hrepeat : retransmitted w.sender (.tick ms) = some e := by
      have hne : ¬ (w.sender.tick ms).segmentsOut = w.sender.segmentsOut := by
        rw [hpush]
        simp
      change (if _ then _ else w.sender.outstandingSegments.head?) = _
      rw [if_neg hne, hout]
      rfl
    refine ⟨h.tick_repeated hrepeat (by rw [htimer]) ?_, ?_⟩
    · rw [htimer]
      dsimp only
      split
      · rename_i hopen
        have hsmall := hready (by simp [hout]) hopen hexp
        omega
      · exact hge
    · intro x hx
      rw [hrepeat] at hx
      have hxe : e = x := by simpa using hx
      obtain ⟨t, ht⟩ := h.logged e (by simp [hout])
      have hold := h.oldest e (by simp [hout]) t ht
      refine ⟨t, by rw [← hxe]; exact ht, ?_⟩
      change t + rto ≤ w.clock + ms
      omega

/-- Every call keeps the invariant and retransmits on time. -/
theorem step (h : Punctual rto w) (op : SenderOp) (hready : TimerReady w.sender op) :
    Punctual rto (w.step op) ∧ OnTime rto w op := by
  have hord := h.ordered.apply op
  have hnone : ∀ e ∈ (none : Option OrderedSegment),
      ∃ t, w.log.lookup e.seqno = some t ∧ t + rto ≤ w.clock := by simp
  cases op with
  | fillWindow => exact ⟨h.fillWindow hready, hnone⟩
  | ackReceived ackno win => exact ⟨h.ackReceived ackno win, hnone⟩
  | tick ms => exact h.tick ms hready
  | write data => exact ⟨h.of_quiet hord rfl rfl rfl, hnone⟩
  | endInput => exact ⟨h.of_quiet hord rfl rfl rfl, hnone⟩
  | sendEmptySegment => exact ⟨h.of_quiet hord rfl rfl rfl, hnone⟩
  | popSegment => exact ⟨h.of_quiet hord rfl rfl rfl, hnone⟩
  | setError => exact ⟨h.of_quiet hord rfl rfl rfl, hnone⟩

end Punctual

/-- In every run in which each call finds the timer ready, whatever a call retransmits
was last pushed at least the initial timeout before. -/
theorem retransmits_on_time (capacity : ℕ) (rto : UInt16) (fixedIsn : Option WrappingInt32)
    (random : WrappingInt32) (ops : List SenderOp) (op : SenderOp)
    (hv : machine.Valid (Timed.new (new capacity rto fixedIsn random)) (ops ++ [op])) :
    OnTime rto.toNat (machine.exec (Timed.new (new capacity rto fixedIsn random)) ops) op := by
  obtain ⟨hrun, hlast, -⟩ := (machine.valid_append _ _ _).mp hv
  have hinv := machine.invariant (P := Punctual rto.toNat)
    (fun _ op h hready => (h.step op hready).1) (new_punctual capacity rto fixedIsn random) hrun
  exact (hinv.step op hlast).2

theorem retransmits_on_time_of_syn :
    OnTime 1000 (machine.exec (Timed.new (new 1 1000 (some ⟨0⟩) ⟨0⟩)) [.fillWindow, .tick 900])
      (.tick 100) :=
  retransmits_on_time 1 1000 (some ⟨0⟩) ⟨0⟩ [.fillWindow, .tick 900] (.tick 100) (by decide)

def synSegment : TCPSegment := ⟨{ seqno := ⟨0⟩, syn := true }, []⟩

/-- A SYN sent when 900 of 1000 milliseconds have gone by is repeated after another 100. -/
theorem syn_repeated_early :
    ¬ ∀ ops op, OnTime 1000 (machine.exec (Timed.new (new 1 1000 (some ⟨0⟩) ⟨0⟩)) ops) op := by
  intro hall
  have hlate := hall [.tick 900, .fillWindow] (.tick 100) ⟨0, synSegment⟩ (by decide)
  obtain ⟨t, ht, hle⟩ := hlate
  have hpush : (machine.exec (Timed.new (new 1 1000 (some ⟨0⟩) ⟨0⟩))
      [.tick 900, .fillWindow]).log.lookup 0 = some 900 := by decide
  rw [hpush] at ht
  cases ht
  revert hle
  decide

end Sponge.SenderTimer
