import Sponge.BufferLists
import Sponge.EventLoop

/-!
File descriptors with the kernel behind them.
What the system calls will return is listed in advance, so that a statement about all
channels is one about all kernels; a list that has run out is a call that fails. Next to it
stand the bytes that have passed in either direction.
-/
namespace Sponge

open Programs

structure Channel where
  wrapper : FDWrapper := {}
  reads : List (Option (List UInt8)) := []
  writes : List (Option ℕ) := []
  controls : List Bool := []
  taken : List UInt8 := []
  given : List UInt8 := []
  shutdowns : ℕ := 0

namespace Channel

/-- Nothing has been done with the descriptor yet. -/
structure Fresh (c : Channel) : Prop where
  eof : c.wrapper.eof = false
  closed : c.wrapper.closed = false
  taken : c.taken = []
  given : c.given = []
  shutdowns : c.shutdowns = 0

/-- The maximum size of a read. -/
def BUFFER_SIZE : ℕ := 1024 * 1024

/-- `read` has returned; the eof flag is set before the length is checked. -/
def received (c : Channel) (limit : ℕ) (data : List UInt8) (reads : List (Option (List UInt8))) :
    Channel :=
  { c with
    reads := reads
    taken := c.taken ++ data
    wrapper := { c.wrapper with eof := c.wrapper.eof || (decide (limit > 0) && data.isEmpty) } }

def registerRead (c : Channel) : Channel :=
  { c with wrapper := { c.wrapper with readCount := c.wrapper.readCount + 1 } }

def registerWrite (c : Channel) : Channel :=
  { c with wrapper := { c.wrapper with writeCount := c.wrapper.writeCount + 1 } }

def read (limit : ℕ) : EStateM Failure Channel (List UInt8) := do
  let sizeToRead := min BUFFER_SIZE limit
  let c ← get
  match c.reads with
  | [] => throw (.unixError "read")
  | none :: reads =>
    set { c with reads := reads }
    throw (.unixError "read")
  | some data :: reads =>
    set (c.received limit data reads)
    if data.length > sizeToRead then
      throw (.runtimeError "read() read more than requested")
    modify registerRead
    return data

/-- A call that is not to write all, so that the kernel is asked once. -/
def write (data : List UInt8) : EStateM Failure Channel ℕ := do
  let c ← get
  match c.writes with
  | [] => throw (.unixError "writev")
  | answer :: writes =>
    let (result, sent) := FileDescriptor.write ⟨[data]⟩ false [answer]
    set { c with writes := writes, given := c.given ++ sent }
    match result with
    | .returned n =>
      modify registerWrite
      return n
    | .threw what => throw (.runtimeError what)
    | .systemError => throw (.unixError "writev")
    | .waiting => throw (.unixError "writev")

/-- `shutdown` with SHUT_WR. -/
def shutdown : EStateM Failure Channel Unit := do
  let c ← get
  match c.controls with
  | true :: controls =>
    set { c with controls := controls, shutdowns := c.shutdowns + 1 }
    modify registerWrite
  | _ => throw (.unixError "shutdown")

def close : EStateM Failure Channel Unit := do
  let c ← get
  match c.controls with
  | true :: controls =>
    set { c with
      controls := controls
      shutdowns := c.shutdowns + 1
      wrapper := { c.wrapper with eof := true, closed := true } }
  | _ => throw (.unixError "close")

/-- What a descriptor says when the kernel has not kept to the rules. -/
def complaints : List String :=
  ["read() read more than requested", "write returned 0 given non-empty input buffer",
    "write wrote more than length of input buffer"]

/-- The exceptions that a descriptor throws. -/
def Raised (e : Failure) : Prop :=
  (∃ attempt, e = .unixError attempt) ∨ ∃ what ∈ complaints, e = .runtimeError what

theorem Raised.ne_outOfRange {e : Failure} (h : Raised e) : e ≠ .outOfRange := by
  rcases h with ⟨attempt, rfl⟩ | ⟨what, -, rfl⟩ <;> exact Failure.noConfusion

theorem Raised.ne_runtimeError {e : Failure} (h : Raised e) {what : String}
    (hother : what ∉ complaints) : e ≠ .runtimeError what := by
  rcases h with ⟨attempt, rfl⟩ | ⟨what', hmem, rfl⟩
  · exact Failure.noConfusion
  · rintro heq
    exact hother (Failure.runtimeError.inj heq ▸ hmem)

theorem raised_unixError (attempt : String) : Raised (.unixError attempt) :=
  Or.inl ⟨attempt, rfl⟩

/-- What a read does to a descriptor. -/
structure Took (c : Channel) (data : List UInt8) (c' : Channel) : Prop where
  taken : c'.taken = c.taken ++ data
  given : c'.given = c.given
  shutdowns : c'.shutdowns = c.shutdowns
  closed : c'.wrapper.closed = c.wrapper.closed
  count : c'.wrapper.readCount = c.wrapper.readCount + 1

/-- What a write does to a descriptor. -/
structure Gave (c : Channel) (data : List UInt8) (c' : Channel) : Prop where
  given : c'.given = c.given ++ data
  taken : c'.taken = c.taken
  shutdowns : c'.shutdowns = c.shutdowns
  eof : c'.wrapper.eof = c.wrapper.eof
  closed : c'.wrapper.closed = c.wrapper.closed
  count : c'.wrapper.writeCount = c.wrapper.writeCount + 1

/-- Counting one call more is seen, also when the counter wraps. -/
theorem count_ne (n : UInt32) : n + 1 ≠ n := by
  intro h
  have := congrArg (· - n) h
  simp at this

theorem count_twice_ne (n : UInt32) : n + 1 + 1 ≠ n := by
  intro h
  have := congrArg (· - n) h
  simp [UInt32.add_assoc] at this

variable (c : Channel)

theorem read_ensures (limit : ℕ) :
    Ensures (fun c' => c' = c) (read limit)
      (fun data c' => data.length ≤ limit ∧ Took c data c')
      (fun e c' => Raised e ∧ c.taken <+: c'.taken ∧ c'.given = c.given) := by
  refine ensures_get_bind ?_
  rintro c rfl
  split
  · refine ensures_throw ?_
    rintro c rfl
    exact ⟨raised_unixError _, List.prefix_refl _, rfl⟩
  · rename_i reads _
    refine (ensures_set (R := fun _ c' => c' = { c with reads := reads }) fun _ _ => rfl).bind
      fun _ => ?_
    refine ensures_throw ?_
    rintro _ rfl
    exact ⟨raised_unixError _, List.prefix_refl _, rfl⟩
  · rename_i data reads _
    refine (ensures_set (R := fun _ c' => c' = c.received limit data reads) fun _ _ => rfl).bind
      fun _ => ?_
    split
    · refine ensures_throw ?_
      rintro _ rfl
      exact ⟨Or.inr ⟨_, by simp [complaints], rfl⟩, List.prefix_append _ _, rfl⟩
    · rename_i hle
      refine (ensures_modify (R := fun _ c' => c' = (c.received limit data reads).registerRead)
        fun _ hs => hs ▸ rfl).bind fun _ => ?_
      refine ensures_pure ?_
      rintro _ rfl
      exact ⟨by omega, rfl, rfl, rfl, rfl, rfl⟩

/-- How a call ends that asks the kernel once. -/
theorem write_once (data : List UInt8) (answer : Option ℕ) :
    (∃ n ≤ data.length,
        FileDescriptor.write ⟨[data]⟩ false [answer] = (.returned n, data.take n)) ∨
      (∃ what n, Raised (.runtimeError what) ∧
        FileDescriptor.write ⟨[data]⟩ false [answer] = (.threw what, data.take n)) ∨
      FileDescriptor.write ⟨[data]⟩ false [answer] = (.systemError, []) := by
  have hbytes : (⟨[data]⟩ : BufferViewList).bytes = data := by
    simp [BufferViewList.bytes, Pieces.joined]
  have hsize : (⟨[data]⟩ : BufferViewList).size = data.length := by simp [BufferViewList.size]
  cases answer with
  | none => exact Or.inr (Or.inr rfl)
  | some n =>
    unfold FileDescriptor.write FileDescriptor.writeLoop
    rw [hbytes, hsize]
    split
    · exact Or.inr (Or.inl ⟨_, 0, Or.inr ⟨_, by simp [complaints], rfl⟩, rfl⟩)
    · split
      · exact Or.inr (Or.inl ⟨_, n, Or.inr ⟨_, by simp [complaints], rfl⟩, rfl⟩)
      · rename_i hmore
        have hle := Nat.not_lt.mp hmore
        obtain ⟨rest, hremoved, -⟩ := BufferViewList.removePrefix_of_le (hsize ▸ hle)
        refine Or.inl ⟨n, hle, ?_⟩
        rw [hremoved]
        simp

theorem write_ensures (data : List UInt8) :
    Ensures (fun c' => c' = c) (write data)
      (fun n c' => n ≤ data.length ∧ Gave c (data.take n) c')
      (fun e c' => Raised e ∧ c'.taken = c.taken ∧ c'.given <+: c.given ++ data) := by
  refine ensures_get_bind ?_
  rintro c rfl
  split
  · refine ensures_throw ?_
    rintro c rfl
    exact ⟨raised_unixError _, rfl, List.prefix_append _ _⟩
  · rename_i answer writes _
    let sent (n : ℕ) : Channel := { c with writes := writes, given := c.given ++ data.take n }
    have hset : ∀ n, Ensures (fun c' => c' = c) (set (sent n) : EStateM Failure Channel Unit)
        (fun _ c' => c' = sent n)
        (fun e c' => Raised e ∧ c'.taken = c.taken ∧ c'.given <+: c.given ++ data) :=
      fun n => ensures_set fun _ _ => rfl
    have hfailed : ∀ e n, Raised e → ∀ c', c' = sent n →
        Raised e ∧ c'.taken = c.taken ∧ c'.given <+: c.given ++ data := by
      rintro e n hraised _ rfl
      exact ⟨hraised, rfl, (List.prefix_append_right_inj _).mpr (List.take_prefix _ _)⟩
    rcases write_once data answer with ⟨n, hle, heq⟩ | ⟨what, n, hraised, heq⟩ | heq
    · rw [heq]
      refine (hset n).bind fun _ => ?_
      refine (ensures_modify (R := fun _ c' => c' = (sent n).registerWrite)
        fun _ hs => hs ▸ rfl).bind fun _ => ?_
      refine ensures_pure ?_
      rintro _ rfl
      exact ⟨hle, rfl, rfl, rfl, rfl, rfl, rfl⟩
    · rw [heq]
      exact (hset n).bind fun _ => ensures_throw (hfailed _ n hraised)
    · rw [heq]
      refine ((hset 0).pre fun _ => id).bind fun _ => ?_
      exact ensures_throw (hfailed _ 0 (raised_unixError _))

theorem shutdown_ensures :
    Ensures (fun c' => c' = c) shutdown
      (fun _ c' => ∃ controls,
        c' = registerWrite { c with controls := controls, shutdowns := c.shutdowns + 1 })
      (fun e c' => Raised e ∧ c' = c) := by
  refine ensures_get_bind ?_
  rintro c rfl
  split
  · rename_i controls _
    refine (ensures_set (R := fun _ c' => c' = { c with
      controls := controls, shutdowns := c.shutdowns + 1 }) fun _ _ => rfl).bind fun _ => ?_
    exact ensures_modify fun _ hs => ⟨controls, hs ▸ rfl⟩
  · exact ensures_throw fun _ hs => ⟨raised_unixError _, hs⟩

theorem close_ensures :
    Ensures (fun c' => c' = c) close
      (fun _ c' => ∃ controls, c' = { c with
        controls := controls
        shutdowns := c.shutdowns + 1
        wrapper := { c.wrapper with eof := true, closed := true } })
      (fun e c' => Raised e ∧ c' = c) := by
  refine ensures_get_bind ?_
  rintro c rfl
  split
  · rename_i controls _
    exact ensures_set fun _ _ => ⟨controls, rfl⟩
  · exact ensures_throw fun _ hs => ⟨raised_unixError _, hs⟩

end Channel

end Sponge
