import Sponge.Transducers

/-!
A sender that repeats one message to a silent peer.
It waits for a timeout, sends the message again and doubles the timeout; after a
limited number of attempts the next timeout makes it send a last message and stop. Time
comes in ticks of any size.
-/
namespace Sponge.Backoff

open Runs

inductive Phase where
  | waiting (elapsed timeout attempts : ℕ)
  | stopped

/-- The time on the timer of a sender that waits. -/
def Phase.elapsed : Phase → ℕ
  | .waiting elapsed _ _ => elapsed
  | .stopped => 0

section Machine

variable {α : Type*} (limit : ℕ) (again last : α)

def step : Phase → ℕ → Phase
  | .waiting elapsed timeout attempts, ms =>
    if elapsed + ms < timeout then .waiting (elapsed + ms) timeout attempts
    else if attempts < limit then .waiting 0 (timeout * 2) (attempts + 1)
    else .stopped
  | .stopped, _ => .stopped

/-- The messages of one tick. -/
def reply : Phase → ℕ → List α
  | .waiting elapsed timeout attempts, ms =>
    if elapsed + ms < timeout then []
    else if attempts < limit then [again]
    else [last]
  | .stopped, _ => []

def backoff : Transducer Phase ℕ (List α) where
  enabled _ _ := True
  step := step limit
  reply := reply limit again last

variable {limit again last}

section Tick

variable {elapsed timeout attempts ms : ℕ} (again last)

theorem tick_early (h : elapsed + ms < timeout) :
    reply limit again last (.waiting elapsed timeout attempts) ms = [] ∧
      step limit (.waiting elapsed timeout attempts) ms =
        .waiting (elapsed + ms) timeout attempts :=
  ⟨if_pos h, if_pos h⟩

theorem tick_due (h : timeout ≤ elapsed + ms) (hmore : attempts < limit) :
    reply limit again last (.waiting elapsed timeout attempts) ms = [again] ∧
      step limit (.waiting elapsed timeout attempts) ms =
        .waiting 0 (timeout * 2) (attempts + 1) :=
  ⟨(if_neg (Nat.not_lt.mpr h)).trans (if_pos hmore),
    (if_neg (Nat.not_lt.mpr h)).trans (if_pos hmore)⟩

theorem tick_spent (h : timeout ≤ elapsed + ms) (hspent : ¬ attempts < limit) :
    reply limit again last (.waiting elapsed timeout attempts) ms = [last] ∧
      step limit (.waiting elapsed timeout attempts) ms = .stopped :=
  ⟨(if_neg (Nat.not_lt.mpr h)).trans (if_neg hspent),
    (if_neg (Nat.not_lt.mpr h)).trans (if_neg hspent)⟩

end Tick

/-- A tick adds no more to the timer than its length. -/
theorem step_elapsed_le (limit : ℕ) (p : Phase) (ms : ℕ) :
    (step limit p ms).elapsed ≤ p.elapsed + ms := by
  cases p with
  | stopped => exact Nat.zero_le _
  | waiting elapsed timeout attempts =>
    simp only [step]
    split
    · exact Nat.le_refl _
    · split <;> exact Nat.zero_le _

theorem reply_length_le (p : Phase) (ms : ℕ) : (reply limit again last p ms).length ≤ 1 := by
  cases p with
  | stopped => exact Nat.zero_le 1
  | waiting elapsed timeout attempts =>
    by_cases hearly : elapsed + ms < timeout
    · rw [(tick_early again last hearly).1]
      exact Nat.zero_le 1
    · have hdue := Nat.le_of_not_lt hearly
      by_cases hmore : attempts < limit
      · rw [(tick_due again last hdue hmore).1]
        exact Nat.le_refl 1
      · rw [(tick_spent again last hdue hmore).1]
        exact Nat.le_refl 1

/-- No tick sends more than one message. -/
theorem replies_length_le (p : Phase) (ticks : List ℕ) :
    ∀ out ∈ (backoff limit again last).replies p ticks, out.length ≤ 1 := by
  induction ticks generalizing p with
  | nil => simp [Transducer.replies]
  | cons ms ticks ih =>
    exact List.forall_mem_cons.mpr ⟨reply_length_le p ms, ih (step limit p ms)⟩

/-- Whoever has stopped stays silent. -/
theorem stopped_silent (limit : ℕ) (again last : α) (ticks : List ℕ) :
    ((backoff limit again last).replies .stopped ticks).flatten = [] ∧
      (backoff limit again last).exec .stopped ticks = .stopped := by
  induction ticks with
  | nil => exact ⟨rfl, rfl⟩
  | cons ms ticks ih => exact ih

/-- What has been sent by the time a phase is reached, from a number of attempts on: one
message for each further attempt, and the last message if all attempts are spent. -/
def Sent (limit : ℕ) (again last : α) (attempts : ℕ) (out : List α) : Phase → Prop
  | .waiting _ _ now => ∃ k, now = attempts + k ∧ now ≤ limit ∧ out = List.replicate k again
  | .stopped => ∃ k, limit = attempts + k ∧ out = List.replicate k again ++ [last]

/-- One more attempt before the others. -/
theorem Sent.cons {attempts : ℕ} {out : List α} {p : Phase}
    (h : Sent limit again last (attempts + 1) out p) :
    Sent limit again last attempts (again :: out) p := by
  cases p with
  | waiting elapsed timeout now =>
    obtain ⟨k, hnow, hlimit, hout⟩ := h
    exact ⟨k + 1, by omega, hlimit, by rw [hout, List.replicate_succ]⟩
  | stopped =>
    obtain ⟨k, hlimit, hout⟩ := h
    exact ⟨k + 1, by omega, by rw [hout, List.replicate_succ, List.cons_append]⟩

/-- Over any ticks, from a phase within the limit of attempts. -/
theorem sent_of_waiting (elapsed timeout : ℕ) {attempts : ℕ} (hlimit : attempts ≤ limit)
    (ticks : List ℕ) :
    Sent limit again last attempts
      ((backoff limit again last).replies (.waiting elapsed timeout attempts) ticks).flatten
      ((backoff limit again last).exec (.waiting elapsed timeout attempts) ticks) := by
  induction ticks generalizing elapsed timeout attempts with
  | nil => exact ⟨0, rfl, hlimit, rfl⟩
  | cons ms ticks ih =>
    change Sent limit again last attempts
      (reply limit again last (.waiting elapsed timeout attempts) ms ++
        ((backoff limit again last).replies (step limit (.waiting elapsed timeout attempts) ms)
          ticks).flatten)
      ((backoff limit again last).exec (step limit (.waiting elapsed timeout attempts) ms) ticks)
    by_cases hearly : elapsed + ms < timeout
    · rw [(tick_early again last hearly).1, (tick_early again last hearly).2]
      exact ih _ _ hlimit
    · have hdue := Nat.le_of_not_lt hearly
      by_cases hmore : attempts < limit
      · rw [(tick_due again last hdue hmore).1, (tick_due again last hdue hmore).2]
        exact (ih 0 (timeout * 2) hmore).cons
      · obtain ⟨hsilent, hstopped⟩ := stopped_silent limit again last ticks
        rw [(tick_spent again last hdue hmore).1, (tick_spent again last hdue hmore).2, hsilent,
          hstopped]
        exact ⟨0, by omega, rfl⟩

end Machine

end Sponge.Backoff
