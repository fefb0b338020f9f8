import Sponge.Transducers

/-!
Bounded first-in first-out queues over an arbitrary type.
A write appends the items that fit and reports their number; a peek shows items of
the front; a read removes what a peek would show; a pop removes items unseen. Over a
run, what was removed and what is left make up what was accepted.
-/
namespace Sponge.BoundedQueue

open Runs

variable {α : Type*} {capacity : ℕ}

inductive Request (α : Type*) where
  | write (items : List α)
  | peek (n : ℕ)
  | read (n : ℕ)
  | pop (n : ℕ)
  | close

inductive Reply (α : Type*) where
  | count (n : ℕ)
  | items (front : List α)
  | done

structure Queue (α : Type*) (capacity : ℕ) where
  contents : List α
  fits : contents.length ≤ capacity

namespace Queue

def empty (capacity : ℕ) : Queue α capacity := ⟨[], Nat.zero_le _⟩

/-- The number of items of the list that find room. -/
def accepts (q : Queue α capacity) (items : List α) : ℕ :=
  min items.length (capacity - q.contents.length)

def write (q : Queue α capacity) (items : List α) : Queue α capacity where
  contents := q.contents ++ items.take (q.accepts items)
  fits := by
    have hfits := q.fits
    rw [List.length_append, List.length_take]
    unfold accepts
    omega

def drop (q : Queue α capacity) (n : ℕ) : Queue α capacity where
  contents := q.contents.drop n
  fits := by
    have hfits := q.fits
    rw [List.length_drop]
    omega

def step (q : Queue α capacity) : Request α → Queue α capacity
  | .write items => q.write items
  | .peek _ => q
  | .read n => q.drop n
  | .pop n => q.drop n
  | .close => q

def reply (q : Queue α capacity) : Request α → Reply α
  | .write items => .count (q.accepts items)
  | .peek n => .items (q.contents.take n)
  | .read n => .items (q.contents.take n)
  | .pop _ => .done
  | .close => .done

/-- Only what is there can be popped. -/
def Allows (q : Queue α capacity) : Request α → Prop
  | .pop n => n ≤ q.contents.length
  | _ => True

/-- The items a request puts into the queue. -/
def accepted (q : Queue α capacity) : Request α → List α
  | .write items => items.take (q.accepts items)
  | _ => []

/-- The items a request takes out of the queue. -/
def removed (q : Queue α capacity) : Request α → List α
  | .read n => q.contents.take n
  | .pop n => q.contents.take n
  | _ => []

theorem removed_append_step (q : Queue α capacity) (op : Request α) :
    q.removed op ++ (q.step op).contents = q.contents ++ q.accepted op := by
  cases op with
  | write items => rfl
  | peek n => exact (List.append_nil _).symm
  | read n => exact (List.take_append_drop n _).trans (List.append_nil _).symm
  | pop n => exact (List.take_append_drop n _).trans (List.append_nil _).symm
  | close => exact (List.append_nil _).symm

end Queue

/-- The queue as a machine with replies. -/
def queue (α : Type*) (capacity : ℕ) : Transducer (Queue α capacity) (Request α) (Reply α) where
  enabled := Queue.Allows
  step := Queue.step
  reply := Queue.reply

def allAccepted (q : Queue α capacity) : List (Request α) → List α
  | [] => []
  | op :: ops => q.accepted op ++ allAccepted (q.step op) ops

def allRemoved (q : Queue α capacity) : List (Request α) → List α
  | [] => []
  | op :: ops => q.removed op ++ allRemoved (q.step op) ops

/-- Nothing is lost, made up or reordered between the two ends of the queue. -/
theorem allRemoved_append_contents (q : Queue α capacity) (ops : List (Request α)) :
    allRemoved q ops ++ ((queue α capacity).exec q ops).contents =
      q.contents ++ allAccepted q ops := by
  induction ops generalizing q with
  | nil => exact (List.append_nil _).symm
  | cons op ops ih =>
    calc (q.removed op ++ allRemoved (q.step op) ops) ++
          ((queue α capacity).exec (q.step op) ops).contents
        = q.removed op ++ ((q.step op).contents ++ allAccepted (q.step op) ops) := by
          rw [List.append_assoc, ih]
      _ = (q.contents ++ q.accepted op) ++ allAccepted (q.step op) ops := by
          rw [← List.append_assoc, q.removed_append_step]
      _ = q.contents ++ (q.accepted op ++ allAccepted (q.step op) ops) :=
          List.append_assoc ..

end Sponge.BoundedQueue
