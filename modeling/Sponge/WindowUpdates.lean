import Sponge.ConnectionProgress
import Sponge.WindowFill

/-!
What an acknowledgment does to the window.
`ack_received` takes the advertised window over before it looks at the acknowledgment
number, and returns before `fill_window` unless the number advances. So an outdated or
impossible acknowledgment is without effect only where it announces the window in force,
and a window announced again with the same number is not filled until something else
calls `fill_window`.
-/
namespace Sponge.WindowUpdates

open SenderLoop SenderQueue SenderWindow SenderOutput WindowFill ConnectionCalls
  ConnectionProgress TCPSender

/-- The number lies between the last acknowledgment and the next sequence number. -/
def Acceptable (s : TCPSender) (ackno : WrappingInt32) : Prop :=
  s.absAckno ≤ unwrap ackno s.isn s.absAckno ∧ unwrap ackno s.isn s.absAckno ≤ s.nextSeqno

instance (s : TCPSender) (ackno : WrappingInt32) : Decidable (Acceptable s ackno) :=
  inferInstanceAs (Decidable (_ ∧ _))

section Stale

/-- Whatever is called later, it ends as if the acknowledgment had not come. -/
def Inert (s : TCPSender) (ackno : WrappingInt32) (win : UInt16) : Prop :=
  ∀ later, calls.exec (s.ackReceived ackno win) later = calls.exec s later

/-- Only the window is taken from an acknowledgment that is not acceptable. -/
theorem ackReceived_of_stale {s : TCPSender} {ackno : WrappingInt32} (h : ¬ Acceptable s ackno)
    (win : UInt16) : s.ackReceived ackno win = { s with windowSize := win.toNat } := by
  apply ackReceived_of_not_advances
  rintro ⟨hlo, hhi⟩
  exact h ⟨Nat.le_of_lt hlo, hhi⟩

/-- In every reachable state, an outdated or impossible acknowledgment goes unnoticed
exactly where it announces the window that is in force already. -/
theorem stale_ack_inert_iff (capacity : ℕ) (rto : UInt16) (fixedIsn : Option WrappingInt32)
    (random : WrappingInt32) (ops : List SenderOp) (ackno : WrappingInt32) (win : UInt16)
    (hstale : ¬ Acceptable (calls.exec (new capacity rto fixedIsn random) ops) ackno) :
    Inert (calls.exec (new capacity rto fixedIsn random) ops) ackno win ↔
      win.toNat = (calls.exec (new capacity rto fixedIsn random) ops).windowSize := by
  generalize calls.exec (new capacity rto fixedIsn random) ops = s at hstale ⊢
  unfold Inert
  rw [ackReceived_of_stale hstale win]
  constructor
  · intro hinert
    exact congrArg TCPSender.windowSize (hinert [])
  · intro hwin later
    rw [hwin]

/-- Two bytes are written and the window holds one of them. -/
def oneByteOut : List SenderOp := [.fillWindow, .ackReceived ⟨1⟩ 1, .write [1, 2], .fillWindow]

theorem stale_ack_inert_iff_same_window :
    Inert (calls.exec (new 2 1000 (some ⟨0⟩) ⟨0⟩) oneByteOut) ⟨0⟩ 1 :=
  (stale_ack_inert_iff 2 1000 (some ⟨0⟩) ⟨0⟩ oneByteOut ⟨0⟩ 1 (by decide)).mpr (by decide)

/-- An acknowledgment from before the SYN was acknowledged opens the window for the
second byte. -/
theorem stale_ack_opens_window :
    ¬ ∀ ackno win, ¬ Acceptable (calls.exec (new 2 1000 (some ⟨0⟩) ⟨0⟩) oneByteOut) ackno →
      Inert (calls.exec (new 2 1000 (some ⟨0⟩) ⟨0⟩) oneByteOut) ackno win := by
  intro hall
  have hsame := congrArg TCPSender.nextSeqno (hall ⟨0⟩ 10 (by decide) [.fillWindow])
  revert hsame
  decide

end Stale

section Exploit

/-- The window is used up, or there is nothing left to send: no byte and no FIN. -/
def Exploits (s : TCPSender) (window : ℕ) : Prop :=
  max window 1 ≤ s.bytesInFlight ∨
    s.stream.bufferSize = 0 ∧ (s.stream.inputEnded = true → s.finSent = true)

instance (s : TCPSender) (window : ℕ) : Decidable (Exploits s window) :=
  inferInstanceAs (Decidable (_ ∨ _))

theorem exploits_of_exhausted {s : TCPSender} (h : Sane s) (hex : Exhausted s) :
    Exploits s s.windowSize := by
  have hflight := h.bytesInFlight_eq
  rcases hex with hedge | hdone
  · left
    unfold windowEdge at hedge
    omega
  · exact Or.inr hdone

theorem exploits_requeued {s s' : TCPSender} (h : Requeued s s') (window : ℕ) :
    Exploits s' window ↔ Exploits s window := by
  obtain ⟨out, rfl⟩ := h
  exact Iff.rfl

/-- An acceptable acknowledgment fills its window if it advances, and else leaves things
as they are. -/
theorem ackReceived_exploits_iff {s : TCPSender} (h : Ordered s) {ackno : WrappingInt32}
    (hacc : Acceptable s ackno) (win : UInt16) :
    Exploits (s.ackReceived ackno win) win.toNat ↔
      s.absAckno < unwrap ackno s.isn s.absAckno ∨ Exploits s win.toNat := by
  rcases ackReceived_cases s ackno win with ⟨hstay, heq⟩ | ⟨ack, hack, hlo, hhi, heq⟩
  · have hno : ¬ s.absAckno < unwrap ackno s.isn s.absAckno :=
      fun hlo => hstay ⟨hlo, hacc.2⟩
    rw [heq, or_iff_right hno]
    exact Iff.rfl
  · obtain ⟨hord, ⟨fresh, hfilled⟩, hstop⟩ :=
      ((h.setWindow win.toNat_lt).acknowledge hlo hhi).fillWindow
    have hwindow := hfilled.windowSize_eq
    have hfull := exploits_of_exhausted hord.sane (exhausted_of_not_sends hord.sane hstop)
    rw [hwindow] at hfull
    rw [heq, ← hack]
    exact iff_of_true hfull (Or.inl hlo)

/-- For every reachable endpoint that has sent its SYN, and every acceptable
acknowledgment: the announced window is exploited exactly if the number advances, or if
it was exploited before the segment came. -/
theorem window_exploited_iff (cfg : TCPConfig) (random : WrappingInt32) (ops : List ConnectionOp)
    (seg : TCPSegment)
    (hsent : (TCPConnection.calls.exec (TCPConnection.new cfg random) ops).synSent = true)
    (hrst : seg.header.rst = false) (hack : seg.header.ack = true)
    (hacc : Acceptable (TCPConnection.calls.exec (TCPConnection.new cfg random) ops).sender
      seg.header.ackno) :
    let c := TCPConnection.calls.exec (TCPConnection.new cfg random) ops
    Exploits (c.segmentReceived seg).sender seg.header.win.toNat ↔
      c.sender.absAckno < unwrap seg.header.ackno c.sender.isn c.sender.absAckno ∨
        Exploits c.sender seg.header.win.toNat := by
  obtain ⟨S, hlively⟩ := (new_lively cfg random).run ops
  intro c
  change Lively S c at hlively
  rw [exploits_requeued (segmentReceived_sender hlively.1 hsent hrst hack)]
  exact ackReceived_exploits_iff hlively.1.ordered hacc seg.header.win

/-- An endpoint whose peer announces a window of one, and which has written two bytes. -/
def oneOfTwoSent : List ConnectionOp :=
  [.connect, .segmentReceived ⟨{ ackno := ⟨1⟩, ack := true, win := 1 }, []⟩, .write [1, 2]]

theorem window_exploited_iff_advancing :
    let c := TCPConnection.calls.exec (TCPConnection.new ⟨1000, 1, 2, some ⟨0⟩⟩ ⟨0⟩) oneOfTwoSent
    Exploits (c.segmentReceived ⟨{ ackno := ⟨2⟩, ack := true, win := 10 }, []⟩).sender 10 :=
  (window_exploited_iff ⟨1000, 1, 2, some ⟨0⟩⟩ ⟨0⟩ oneOfTwoSent
    ⟨{ ackno := ⟨2⟩, ack := true, win := 10 }, []⟩ (by decide) (by decide) (by decide)
    (by decide)).mpr (by decide)

/-- The same number with a window of ten leaves the second byte where it is. -/
theorem window_update_unexploited :
    let c := TCPConnection.calls.exec (TCPConnection.new ⟨1000, 1, 2, some ⟨0⟩⟩ ⟨0⟩) oneOfTwoSent
    let seg : TCPSegment := ⟨{ ackno := ⟨1⟩, ack := true, win := 10 }, []⟩
    c.active = true ∧ c.synSent = true ∧ Acceptable c.sender seg.header.ackno ∧
      ¬ Exploits (c.segmentReceived seg).sender 10 := by
  decide

end Exploit

end Sponge.WindowUpdates
