import Sponge.ByteStream
import Sponge.Descriptors

/-!
The bidirectional copy between the standard streams and a socket.
Each direction is a pipe: a descriptor to read from, a byte stream, a descriptor to write to.
The four rules of the loop work on the two pipes, which share the socket. What has been
written is at any time the beginning of what has been read, the rest is in the byte stream;
a descriptor is shut down once, after all of it.
-/
namespace Sponge

open Programs EventLoop

/-- One direction of the copy. -/
structure Pipe where
  source : Channel
  stream : ByteStream
  sink : Channel
  down : Bool

namespace Pipe

def sourceLens : Lens Pipe Channel := ⟨source, fun c p => { p with source := c }⟩

def sinkLens : Lens Pipe Channel := ⟨sink, fun c p => { p with sink := c }⟩

def maxCopyLength : ℕ := 65536

def bufferSize : ℕ := 1048576

/-- Read from a descriptor into the byte stream. -/
def fetch : EStateM Failure Pipe Unit := do
  let data ← zoom sourceLens (Channel.read (← get).stream.remainingCapacity)
  modify fun p => { p with stream := (p.stream.write data).2 }
  if (← get).source.wrapper.eof then
    modify fun p => { p with stream := p.stream.endInput }

/-- Write from the byte stream to a descriptor, and shut the descriptor down at the end. -/
def drain (finish : EStateM Failure Channel Unit) : EStateM Failure Pipe Unit := do
  let p ← get
  let bytesToWrite := min maxCopyLength p.stream.bufferSize
  let bytesWritten ← zoom sinkLens (Channel.write (p.stream.peekOutput bytesToWrite))
  modify fun p => { p with stream := p.stream.popOutput bytesWritten }
  if (← get).stream.eof then
    zoom sinkLens finish
    modify fun p => { p with down := true }

def endInput : EStateM Failure Pipe Unit :=
  modify fun p => { p with stream := p.stream.endInput }

/-- There is something to write, or the end to be passed on. -/
def wantsToWrite (p : Pipe) : Bool := !p.stream.bufferEmpty || (p.stream.eof && !p.down)

end Pipe

structure StreamCopy where
  input : Channel
  output : Channel
  socket : Channel
  outbound : ByteStream
  inbound : ByteStream
  outboundShutdown : Bool
  inboundShutdown : Bool

namespace StreamCopy

def start (input output socket : Channel) : StreamCopy where
  input := input
  output := output
  socket := socket
  outbound := ByteStream.new Pipe.bufferSize
  inbound := ByteStream.new Pipe.bufferSize
  outboundShutdown := false
  inboundShutdown := false

def outboundPipe : Lens StreamCopy Pipe where
  get w := ⟨w.input, w.outbound, w.socket, w.outboundShutdown⟩
  set p w :=
    { w with input := p.source, outbound := p.stream, socket := p.sink, outboundShutdown := p.down }

def inboundPipe : Lens StreamCopy Pipe where
  get w := ⟨w.socket, w.inbound, w.output, w.inboundShutdown⟩
  set p w :=
    { w with socket := p.source, inbound := p.stream, output := p.sink, inboundShutdown := p.down }

/-- The four rules, in the order in which they are added. -/
inductive Label where
  | readInput
  | writeSocket
  | readSocket
  | writeOutput
  deriving DecidableEq, Repr

def rules : List Label := [.readInput, .writeSocket, .readSocket, .writeOutput]

/-- Room in the first stream, and no error in either. -/
def wantsToRead (stream other : ByteStream) : Bool :=
  !stream.error && decide (stream.remainingCapacity > 0) && !other.error

def table : Label → Rule StreamCopy
  | .readInput =>
    { fd := fun w => w.input.wrapper
      direction := .In
      callback := zoom outboundPipe Pipe.fetch
      interest := fun w => wantsToRead w.outbound w.inbound
      cancel := zoom outboundPipe Pipe.endInput }
  | .writeSocket =>
    { fd := fun w => w.socket.wrapper
      direction := .Out
      callback := zoom outboundPipe (Pipe.drain Channel.shutdown)
      interest := fun w => (outboundPipe.get w).wantsToWrite
      cancel := zoom outboundPipe Pipe.endInput }
  | .readSocket =>
    { fd := fun w => w.socket.wrapper
      direction := .In
      callback := zoom inboundPipe Pipe.fetch
      interest := fun w => wantsToRead w.inbound w.outbound
      cancel := zoom inboundPipe Pipe.endInput }
  | .writeOutput =>
    { fd := fun w => w.output.wrapper
      direction := .Out
      callback := zoom inboundPipe (Pipe.drain Channel.close)
      interest := fun w => (inboundPipe.get w).wantsToWrite
      cancel := zoom inboundPipe Pipe.endInput }

/-- The loop, as far as `poll` answers. -/
def bidirectionalStreamCopy (answers : List PollAnswer) :
    EStateM Failure StreamCopy (Bool × List Label) :=
  rounds table answers rules

end StreamCopy

namespace Pipe

/-- What holds of a pipe while its two rules are there or not; under H a rule may have gone
for a hangup. -/
structure Flows (H reading writing : Prop) (p : Pipe) : Prop where
  valid : p.stream.Valid
  capacity_eq : p.stream.maxCapacity = bufferSize
  no_error : p.stream.error = false
  flow : p.source.taken = p.sink.given ++ p.stream.buffered
  eof_ended : p.source.wrapper.eof = true → p.stream.inputEnded = true
  unread_ended : ¬ reading → p.stream.inputEnded = true
  ended_eof : p.stream.inputEnded = true → writing → reading → p.source.wrapper.eof = true
  down_eof : p.down = true → p.stream.eof = true ∧ (reading → p.source.wrapper.eof = true)
  once : p.sink.shutdowns = if p.down then 1 else 0
  unread_eof : ¬ H → ¬ reading → p.source.wrapper.eof = true
  unwritten_down : ¬ H → ¬ writing → p.down = true

section Flows

variable {H reading writing : Prop} {p : Pipe}

theorem Flows.integrity (h : Flows H reading writing p) : p.sink.given <+: p.source.taken := by
  rw [h.flow]
  exact List.prefix_append _ _

theorem Flows.new {source sink : Channel} (hsource : source.Fresh) (hsink : sink.Fresh)
    (hreading : reading) (hwriting : writing) :
    Flows H reading writing ⟨source, ByteStream.new bufferSize, sink, false⟩ := by
  have hgoing : ¬ source.wrapper.eof = true := by
    rw [hsource.eof]
    exact Bool.noConfusion
  refine ⟨ByteStream.new_valid _, rfl, rfl, ?_, fun heof => absurd heof hgoing,
    fun hnot => absurd hreading hnot, fun hended => absurd hended Bool.noConfusion,
    fun hdown => absurd hdown Bool.noConfusion, hsink.shutdowns,
    fun _ hnot => absurd hreading hnot, fun _ hnot => absurd hwriting hnot⟩
  change source.taken = sink.given ++ (ByteStream.new bufferSize).buffered
  rw [hsource.taken, hsink.given]
  rfl

/-- The pipe reads the source only by its bytes and its eof flag. -/
theorem Flows.of_source (h : Flows H reading writing p) {c : Channel}
    (htaken : c.taken = p.source.taken) (heof : c.wrapper.eof = p.source.wrapper.eof) :
    Flows H reading writing { p with source := c } := by
  obtain ⟨h1, h2, h3, h4, h5, h6, h7, h8, h9, h10, h11⟩ := h
  rw [← heof] at h5 h7 h8 h10
  exact ⟨h1, h2, h3, htaken.trans h4, h5, h6, h7, h8, h9, h10, h11⟩

/-- The pipe reads the sink only by its bytes and the number of shutdowns. -/
theorem Flows.of_sink (h : Flows H reading writing p) {c : Channel}
    (hgiven : c.given = p.sink.given) (hshut : c.shutdowns = p.sink.shutdowns) :
    Flows H reading writing { p with sink := c } := by
  obtain ⟨h1, h2, h3, h4, h5, h6, h7, h8, h9, h10, h11⟩ := h
  rw [← hshut] at h9
  rw [← hgiven] at h4
  exact ⟨h1, h2, h3, h4, h5, h6, h7, h8, h9, h10, h11⟩

/-- After a shutdown nothing is left. -/
theorem Flows.all_written (h : Flows H reading writing p) (hdown : p.down = true) :
    p.sink.given = p.source.taken := by
  have hempty := ByteStream.empty_of_eof (h.down_eof hdown).1
  have hnone : p.stream.buffered = [] := by
    rw [← List.length_eq_zero_iff, h.valid.buffered_length]
    simpa [ByteStream.bufferEmpty] using hempty
  rw [h.flow, hnone, List.append_nil]

theorem Flows.shutdowns_le (h : Flows H reading writing p) : p.sink.shutdowns ≤ 1 := by
  rw [h.once]
  split <;> omega

theorem Flows.shut_all_written (h : Flows H reading writing p) (hshut : p.sink.shutdowns = 1) :
    p.sink.given = p.source.taken := by
  refine h.all_written ?_
  by_contra hup
  rw [h.once, if_neg hup] at hshut
  exact absurd hshut (by decide)

/-- While the source is read and has not ended, the sink is not shut down. -/
theorem Flows.going (h : Flows H reading writing p) (hreading : reading)
    (hgoing : p.source.wrapper.eof = false) : p.down = false := by
  by_contra hdown
  have heof := (h.down_eof (Bool.not_eq_false _ ▸ hdown)).2 hreading
  exact absurd (hgoing.symm.trans heof) Bool.noConfusion

/-- The stream after the data and, perhaps, the end of the input. -/
def taking (stream : ByteStream) (data : List UInt8) (ended : Bool) : ByteStream :=
  if ended then (stream.write data).2.endInput else (stream.write data).2

theorem taking_buffered {stream : ByteStream} (h : stream.Valid) {data : List UInt8}
    (hfits : data.length ≤ stream.remainingCapacity) (ended : Bool) :
    (taking stream data ended).buffered = stream.buffered ++ data := by
  have hall : (stream.write data).1 = data.length := Nat.min_eq_left hfits
  have hwrite := h.write_buffered data
  rw [hall, List.take_length] at hwrite
  cases ended with
  | false => exact hwrite
  | true => exact hwrite

/-- Bytes are read into the stream, and the end of the input is noted. -/
theorem Flows.fetched (h : Flows H reading writing p) (hreading : reading)
    (hgoing : p.source.wrapper.eof = false) {data : List UInt8}
    (hfits : data.length ≤ p.stream.remainingCapacity) {c : Channel}
    (htaken : c.taken = p.source.taken ++ data) :
    Flows H reading writing
      { p with source := c, stream := taking p.stream data c.wrapper.eof } := by
  have hvalid := h.valid.write_valid data
  have hup := h.going hreading hgoing
  have hended : (taking p.stream data c.wrapper.eof).inputEnded =
      (p.stream.inputEnded || c.wrapper.eof) := by
    cases c.wrapper.eof with
    | false => exact (Bool.or_false _).symm
    | true => exact (Bool.or_true _).symm
  refine ⟨?_, ?_, ?_, ?_, ?_, fun hnot => absurd hreading hnot, ?_, ?_, h.once,
    fun _ hnot => absurd hreading hnot, h.unwritten_down⟩
  · unfold taking
    split
    · exact hvalid.endInput
    · exact hvalid
  · unfold taking
    split <;> exact h.capacity_eq
  · unfold taking
    split <;> exact h.no_error
  · change c.taken = p.sink.given ++ (taking p.stream data c.wrapper.eof).buffered
    rw [taking_buffered h.valid hfits, htaken, h.flow, List.append_assoc]
  · intro heof
    change c.wrapper.eof = true at heof
    change (taking p.stream data c.wrapper.eof).inputEnded = true
    rw [hended, heof, Bool.or_true]
  · intro hend hwriting _
    change (taking p.stream data c.wrapper.eof).inputEnded = true at hend
    rw [hended, Bool.or_eq_true] at hend
    rcases hend with hold | hnew
    · have heof := h.ended_eof hold hwriting hreading
      exact absurd (hgoing.symm.trans heof) Bool.noConfusion
    · exact hnew
  · intro hdown
    exact absurd (hup.symm.trans hdown) Bool.noConfusion

/-- Bytes are written from the stream. -/
theorem Flows.drained (h : Flows H reading writing p) (hup : p.down = false) {n : ℕ}
    (hn : n ≤ p.stream.curSize) {c : Channel}
    (hgiven : c.given = p.sink.given ++ p.stream.buffered.take n)
    (hshut : c.shutdowns = p.sink.shutdowns) :
    Flows H reading writing { p with sink := c, stream := p.stream.popOutput n } := by
  refine ⟨h.valid.popOutput_valid hn, h.capacity_eq, h.no_error, ?_, h.eof_ended, h.unread_ended,
    h.ended_eof, ?_, hshut.trans h.once, h.unread_eof, h.unwritten_down⟩
  · change p.source.taken = c.given ++ (p.stream.popOutput n).buffered
    rw [h.valid.popOutput_buffered hn, hgiven, List.append_assoc, List.take_append_drop, h.flow]
  · intro hdown
    exact absurd (hup.symm.trans hdown) Bool.noConfusion

/-- The sink is shut down when all has been written. -/
theorem Flows.finished (h : Flows H reading writing p) (hwriting : writing) (hup : p.down = false)
    (heof : p.stream.eof = true) {c : Channel} (hgiven : c.given = p.sink.given)
    (hshut : c.shutdowns = p.sink.shutdowns + 1) :
    Flows H reading writing { p with sink := c, down := true } := by
  have hinput : p.stream.inputEnded = true := ByteStream.ended_of_eof heof
  refine ⟨h.valid, h.capacity_eq, h.no_error, ?_, h.eof_ended, h.unread_ended, h.ended_eof,
    fun _ => ⟨heof, h.ended_eof hinput hwriting⟩, ?_, h.unread_eof, fun _ _ => rfl⟩
  · change p.source.taken = c.given ++ p.stream.buffered
    rw [hgiven, h.flow]
  · have honce := h.once
    rw [hup] at honce
    exact hshut.trans (congrArg (· + 1) honce)

theorem Flows.endInput (h : Flows H reading writing p) {reading' writing' : Prop}
    (hended : writing' → reading' → p.source.wrapper.eof = true)
    (hreading : reading' → reading) (hunread : ¬ H → ¬ reading' → p.source.wrapper.eof = true)
    (hunwritten : ¬ H → ¬ writing' → p.down = true) :
    Flows H reading' writing' { p with stream := p.stream.endInput } where
  valid := h.valid.endInput
  capacity_eq := h.capacity_eq
  no_error := h.no_error
  flow := h.flow
  eof_ended _ := rfl
  unread_ended _ := rfl
  ended_eof _ := hended
  down_eof hdown := by
    obtain ⟨heof, hrest⟩ := h.down_eof hdown
    refine ⟨?_, fun hr => hrest (hreading hr)⟩
    change p.stream.endInput.eof = true
    rw [ByteStream.endInput_of_eof heof]
    exact heof
  once := h.once
  unread_eof := hunread
  unwritten_down := hunwritten

end Flows

section Programs

variable (p : Pipe)

theorem fetch_ensures :
    Ensures (fun p' => p' = p) fetch
      (fun _ p' => ∃ data c, data.length ≤ p.stream.remainingCapacity ∧ p.source.Took data c ∧
        p' = { p with source := c, stream := taking p.stream data c.wrapper.eof })
      (fun e p' => Channel.Raised e ∧ ∃ c, p.source.taken <+: c.taken ∧
        c.given = p.source.given ∧ p' = { p with source := c }) := by
  refine ensures_get_bind ?_
  rintro p rfl
  have hread := zoom_ensures (l := sourceLens) (s := p)
    (Channel.read_ensures p.source p.stream.remainingCapacity)
  refine (hread.mono (fun _ => id) (fun _ _ => id) ?_).bind fun data => ?_
  · rintro e p' ⟨c, ⟨hraised, htaken, hgiven⟩, rfl⟩
    exact ⟨hraised, c, htaken, hgiven, rfl⟩
  · refine ensures_of_start ?_
    rintro p' ⟨c, ⟨hfits, htook⟩, rfl⟩
    refine (ensures_modify (R := fun _ p' => p' = { p with
      source := c, stream := (p.stream.write data).2 }) fun _ hs => hs ▸ rfl).bind fun _ => ?_
    refine ensures_get_bind ?_
    rintro _ rfl
    split
    · rename_i heof
      refine ensures_modify ?_
      rintro _ rfl
      refine ⟨data, c, hfits, htook, ?_⟩
      unfold taking
      rw [if_pos heof]
    · rename_i heof
      refine ensures_pure ?_
      rintro _ rfl
      refine ⟨data, c, hfits, htook, ?_⟩
      unfold taking
      rw [if_neg heof]

theorem drain_ensures {finish : EStateM Failure Channel Unit} {R : Channel → Channel → Prop}
    (hfinish : ∀ c, Ensures (fun c' => c' = c) finish (fun _ c' => R c c')
      (fun e c' => Channel.Raised e ∧ c' = c)) (hvalid : p.stream.Valid) :
    Ensures (fun p' => p' = p) (drain finish)
      (fun _ p' => ∃ n c, n ≤ p.stream.curSize ∧ p.sink.Gave (p.stream.buffered.take n) c ∧
        (((p.stream.popOutput n).eof = false ∧
            p' = { p with sink := c, stream := p.stream.popOutput n }) ∨
          ((p.stream.popOutput n).eof = true ∧ ∃ c', R c c' ∧
            p' = { p with sink := c', stream := p.stream.popOutput n, down := true })))
      (fun e p' => Channel.Raised e ∧ p'.source = p.source ∧ p'.sink.taken = p.sink.taken ∧
        p'.sink.given <+: p.sink.given ++ p.stream.buffered) := by
  refine ensures_get_bind ?_
  rintro p rfl
  let bytesToWrite := min maxCopyLength p.stream.bufferSize
  have hpeek : p.stream.peekOutput bytesToWrite = p.stream.buffered.take bytesToWrite :=
    hvalid.peek_eq_take _
  have hwrite := zoom_ensures (l := sinkLens) (s := p)
    (Channel.write_ensures p.sink (p.stream.peekOutput bytesToWrite))
  refine (hwrite.mono (fun _ => id) (fun _ _ => id) ?_).bind fun n => ?_
  · rintro e p' ⟨c, ⟨hraised, htaken, hgiven⟩, rfl⟩
    refine ⟨hraised, rfl, htaken, hgiven.trans ?_⟩
    rw [hpeek]
    exact (List.prefix_append_right_inj _).mpr (List.take_prefix _ _)
  · refine ensures_of_start ?_
    rintro p' ⟨c, ⟨hlen, hgave⟩, rfl⟩
    rw [hpeek, List.length_take, hvalid.buffered_length] at hlen
    rw [hpeek, List.take_take, Nat.min_eq_left (by omega)] at hgave
    have hfits : n ≤ p.stream.curSize := by omega
    let popped : Pipe := { p with sink := c, stream := p.stream.popOutput n }
    refine (ensures_modify (R := fun _ p' => p' = popped) fun _ hs => hs ▸ rfl).bind fun _ => ?_
    refine ensures_get_bind ?_
    rintro _ rfl
    split
    · rename_i heof
      have hzoom := zoom_ensures (l := sinkLens) (s := popped) (hfinish c)
      refine (hzoom.mono (fun _ => id) (fun _ _ => id) ?_).bind fun _ => ?_
      · rintro e p' ⟨c, ⟨hraised, rfl⟩, rfl⟩
        refine ⟨hraised, rfl, hgave.taken, ?_⟩
        change c.given <+: _
        rw [hgave.given]
        exact (List.prefix_append_right_inj _).mpr (List.take_prefix _ _)
      · refine ensures_modify ?_
        rintro _ ⟨c', hR, rfl⟩
        exact ⟨n, c, hfits, hgave, Or.inr ⟨heof, c', hR, rfl⟩⟩
    · rename_i heof
      refine ensures_pure ?_
      rintro _ rfl
      exact ⟨n, c, hfits, hgave, Or.inl ⟨Bool.not_eq_true _ ▸ heof, rfl⟩⟩

end Programs

/-- What the answer of a reading rule says. -/
def MayRead (b : Bool) (p : Pipe) : Prop :=
  p.source.wrapper.eof = false ∧ (b = false → p.stream.remainingCapacity = 0)

/-- What the answer of a writing rule says. -/
def MayWrite (b : Bool) (p : Pipe) : Prop :=
  (b = true → p.down = false) ∧
    (b = false → p.stream.bufferEmpty = true ∧ (p.stream.eof = true → p.down = true))

section Interest

variable {H reading writing : Prop} {p : Pipe}

theorem Flows.mayRead (h : Flows H reading writing p) {other : ByteStream}
    (hother : other.error = false) (hgoing : p.source.wrapper.eof = false) :
    MayRead (StreamCopy.wantsToRead p.stream other) p := by
  refine ⟨hgoing, fun hidle => ?_⟩
  simp only [StreamCopy.wantsToRead, h.no_error, hother, Bool.not_false, Bool.true_and,
    Bool.and_true, decide_eq_false_iff_not] at hidle
  omega

theorem Flows.mayWrite (h : Flows H reading writing p) : MayWrite p.wantsToWrite p := by
  unfold MayWrite wantsToWrite
  cases hdown : p.down with
  | true =>
    have hempty := ByteStream.empty_of_eof (h.down_eof hdown).1
    simp [hempty]
  | false => cases p.stream.bufferEmpty <;> cases p.stream.eof <;> simp

theorem wantsToWrite_down (hdown : p.down = true) (heof : p.stream.eof = true) :
    p.wantsToWrite = false := by
  have hempty := ByteStream.empty_of_eof heof
  simp [wantsToWrite, hempty, hdown]

/-- When neither rule has anything to do, all is done. -/
theorem Flows.complete (h : Flows H reading writing p) (hnohup : ¬ H)
    (hread : reading → MayRead false p) (hwrite : writing → MayWrite false p) :
    p.source.wrapper.eof = true ∧ p.sink.given = p.source.taken ∧ p.sink.shutdowns = 1 := by
  have heof : p.source.wrapper.eof = true := by
    by_contra hgoing
    have hreading : reading := by
      by_contra hnot
      exact hgoing (h.unread_eof hnohup hnot)
    have hwriting : writing := by
      by_contra hnot
      exact hgoing ((h.down_eof (h.unwritten_down hnohup hnot)).2 hreading)
    -- the stream is full and empty
    have hfull := (hread hreading).2 rfl
    have hempty := ((hwrite hwriting).2 rfl).1
    rw [h.valid.remainingCapacity_eq, h.capacity_eq] at hfull
    have hzero : p.stream.curSize = 0 := by simpa [ByteStream.bufferEmpty] using hempty
    unfold bufferSize at hfull
    omega
  have hdown : p.down = true := by
    by_cases hwriting : writing
    · obtain ⟨hempty, hdown⟩ := (hwrite hwriting).2 rfl
      exact hdown (Bool.and_eq_true_iff.mpr ⟨h.eof_ended heof, hempty⟩)
    · exact h.unwritten_down hnohup hwriting
  exact ⟨heof, h.all_written hdown, h.once.trans (if_pos hdown)⟩

end Interest

end Pipe

namespace StreamCopy

/-- The invariant: both pipes flow, the two descriptors at the ends and the socket are apart,
and only the output is ever closed. -/
structure Copying (H : Prop) (live : List Label) (w : StreamCopy) : Prop where
  among : live.Sublist rules
  outbound : (outboundPipe.get w).Flows H (.readInput ∈ live) (.writeSocket ∈ live)
  inbound : (inboundPipe.get w).Flows H (.readSocket ∈ live) (.writeOutput ∈ live)
  input_open : w.input.wrapper.closed = false
  socket_open : w.socket.wrapper.closed = false
  output_closed : w.output.wrapper.closed = w.inboundShutdown

/-- What the answers of the rules say. -/
def Asks : Label → Bool → StreamCopy → Prop
  | .readInput, b, w => (outboundPipe.get w).MayRead b
  | .writeSocket, b, w => (outboundPipe.get w).MayWrite b
  | .readSocket, b, w => (inboundPipe.get w).MayRead b
  | .writeOutput, b, w => (inboundPipe.get w).MayWrite b

/-- What holds also when an exception ends the loop; it is not one by which the event loop
finds fault with the rules. -/
def Thrown (e : Failure) (w : StreamCopy) : Prop :=
  (e ≠ .outOfRange ∧ e ≠ busyWait) ∧
    w.socket.given <+: w.input.taken ∧ w.output.given <+: w.socket.taken

theorem not_loop {e : Failure} (h : Channel.Raised e) : e ≠ .outOfRange ∧ e ≠ busyWait :=
  ⟨h.ne_outOfRange, h.ne_runtimeError (by simp [Channel.complaints])⟩

section Copying

variable {H : Prop} {live : List Label} {w : StreamCopy}

theorem Copying.noted (h : Copying H live w) (i : Label)
    (hgoing : (table i).finished w = false) : Asks i ((table i).interest w) w := by
  cases i with
  | readInput =>
    refine h.outbound.mayRead h.inbound.no_error ?_
    change w.input.wrapper.eof = false
    simpa [Rule.finished, table, h.input_open] using hgoing
  | writeSocket => exact h.outbound.mayWrite
  | readSocket =>
    refine h.inbound.mayRead h.outbound.no_error ?_
    change w.socket.wrapper.eof = false
    simpa [Rule.finished, table, h.socket_open] using hgoing
  | writeOutput => exact h.inbound.mayWrite

/-- A pipe that has read. -/
theorem Copying.readInput (h : Copying H live w) (hlive : .readInput ∈ live)
    (hgoing : w.input.wrapper.eof = false) :
    Ensures (fun w' => w' = w) (table .readInput).callback
      (fun _ w' => Copying H live w' ∧
        (table .readInput).serviceCount w' ≠ (table .readInput).serviceCount w) Thrown := by
  refine (zoom_ensures (Pipe.fetch_ensures (outboundPipe.get w))).mono (fun _ => id) ?_ ?_
  · rintro _ _ ⟨_, ⟨data, c, hfits, htook, rfl⟩, rfl⟩
    refine ⟨⟨h.among, h.outbound.fetched hlive hgoing hfits htook.taken, h.inbound,
      htook.closed.trans h.input_open, h.socket_open, h.output_closed⟩, ?_⟩
    exact htook.count.trans_ne (Channel.count_ne _)
  · rintro e _ ⟨_, ⟨hraised, c, htaken, hgiven, rfl⟩, rfl⟩
    exact ⟨not_loop hraised, h.outbound.integrity.trans htaken, h.inbound.integrity⟩

theorem Copying.readSocket (h : Copying H live w) (hlive : .readSocket ∈ live)
    (hgoing : w.socket.wrapper.eof = false) :
    Ensures (fun w' => w' = w) (table .readSocket).callback
      (fun _ w' => Copying H live w' ∧
        (table .readSocket).serviceCount w' ≠ (table .readSocket).serviceCount w) Thrown := by
  refine (zoom_ensures (Pipe.fetch_ensures (inboundPipe.get w))).mono (fun _ => id) ?_ ?_
  · rintro _ _ ⟨_, ⟨data, c, hfits, htook, rfl⟩, rfl⟩
    refine ⟨⟨h.among, h.outbound.of_sink htook.given htook.shutdowns,
      h.inbound.fetched hlive hgoing hfits htook.taken, h.input_open,
      htook.closed.trans h.socket_open, h.output_closed⟩, ?_⟩
    exact htook.count.trans_ne (Channel.count_ne _)
  · rintro e _ ⟨_, ⟨hraised, c, htaken, hgiven, rfl⟩, rfl⟩
    refine ⟨not_loop hraised, ?_, h.inbound.integrity.trans htaken⟩
    exact hgiven.symm ▸ h.outbound.integrity

theorem Copying.writeSocket (h : Copying H live w) (hlive : .writeSocket ∈ live)
    (hup : w.outboundShutdown = false) :
    Ensures (fun w' => w' = w) (table .writeSocket).callback
      (fun _ w' => Copying H live w' ∧
        ((table .writeSocket).serviceCount w' ≠ (table .writeSocket).serviceCount w ∨
          (table .writeSocket).interest w' = false)) Thrown := by
  refine (zoom_ensures (Pipe.drain_ensures (outboundPipe.get w) Channel.shutdown_ensures
    h.outbound.valid)).mono (fun _ => id) ?_ ?_
  · rintro _ _ ⟨_, ⟨n, c, hfits, hgave, ⟨-, rfl⟩ | ⟨heof, _, ⟨controls, rfl⟩, rfl⟩⟩, rfl⟩
    · refine ⟨⟨h.among, h.outbound.drained hup hfits hgave.given hgave.shutdowns,
        h.inbound.of_source hgave.taken hgave.eof, h.input_open, hgave.closed.trans h.socket_open,
        h.output_closed⟩, Or.inl ?_⟩
      exact hgave.count.trans_ne (Channel.count_ne _)
    · have hdrained := h.outbound.drained hup hfits hgave.given hgave.shutdowns
      refine ⟨⟨h.among, hdrained.finished hlive hup heof rfl rfl,
        h.inbound.of_source hgave.taken hgave.eof,
        h.input_open, hgave.closed.trans h.socket_open, h.output_closed⟩, Or.inr ?_⟩
      exact Pipe.wantsToWrite_down rfl heof
  · rintro e _ ⟨p', ⟨hraised, hsource, htaken, hgiven⟩, rfl⟩
    refine ⟨not_loop hraised, ?_, ?_⟩
    · change p'.sink.given <+: p'.source.taken
      rw [hsource, h.outbound.flow]
      exact hgiven
    · change w.output.given <+: p'.sink.taken
      rw [htaken]
      exact h.inbound.integrity

theorem Copying.writeOutput (h : Copying H live w) (hlive : .writeOutput ∈ live)
    (hup : w.inboundShutdown = false) :
    Ensures (fun w' => w' = w) (table .writeOutput).callback
      (fun _ w' => Copying H live w' ∧
        ((table .writeOutput).serviceCount w' ≠ (table .writeOutput).serviceCount w ∨
          (table .writeOutput).interest w' = false)) Thrown := by
  refine (zoom_ensures (Pipe.drain_ensures (inboundPipe.get w) Channel.close_ensures
    h.inbound.valid)).mono (fun _ => id) ?_ ?_
  · rintro _ _ ⟨_, ⟨n, c, hfits, hgave, ⟨-, rfl⟩ | ⟨heof, _, ⟨controls, rfl⟩, rfl⟩⟩, rfl⟩
    · refine ⟨⟨h.among, h.outbound, h.inbound.drained hup hfits hgave.given hgave.shutdowns,
        h.input_open, h.socket_open, hgave.closed.trans h.output_closed⟩, Or.inl ?_⟩
      exact hgave.count.trans_ne (Channel.count_ne _)
    · have hdrained := h.inbound.drained hup hfits hgave.given hgave.shutdowns
      refine ⟨⟨h.among, h.outbound, hdrained.finished hlive hup heof rfl rfl, h.input_open,
        h.socket_open, rfl⟩, Or.inr ?_⟩
      exact Pipe.wantsToWrite_down rfl heof
  · rintro e _ ⟨p', ⟨hraised, hsource, htaken, hgiven⟩, rfl⟩
    refine ⟨not_loop hraised, ?_, ?_⟩
    · change p'.source.given <+: w.input.taken
      rw [hsource]
      exact h.outbound.integrity
    · change p'.sink.given <+: p'.source.taken
      rw [hsource, h.inbound.flow]
      exact hgiven

/-- A rule is there once, so that it is gone when it is erased. -/
theorem Copying.erased {before after : List Label} {i : Label}
    (h : Copying H (before ++ i :: after) w) :
    (before ++ after).Sublist rules ∧ i ∉ before ++ after ∧
      ∀ j, j ≠ i → (j ∈ before ++ i :: after ↔ j ∈ before ++ after) := by
  have hdistinct : (before ++ i :: after).Nodup := h.among.nodup (by decide)
  refine ⟨((List.sublist_cons_self i after).append_left before).trans h.among, ?_, ?_⟩
  · exact (List.nodup_middle.mp hdistinct |> List.nodup_cons.mp).1
  · intro j hj
    simp [hj]

theorem endOutbound_ensures {P : StreamCopy → Prop} {E : Failure → StreamCopy → Prop}
    (h : P { w with outbound := w.outbound.endInput }) :
    Ensures (fun w' => w' = w) (zoom outboundPipe Pipe.endInput) (fun _ => P) E :=
  ensures_iff.mpr fun _ hw => hw ▸ h

theorem endInbound_ensures {P : StreamCopy → Prop} {E : Failure → StreamCopy → Prop}
    (h : P { w with inbound := w.inbound.endInput }) :
    Ensures (fun w' => w' = w) (zoom inboundPipe Pipe.endInput) (fun _ => P) E :=
  ensures_iff.mpr fun _ hw => hw ▸ h

/-- A rule is cancelled for a hangup or because it is finished. -/
theorem Copying.cancel {before after : List Label} {i : Label}
    (h : Copying H (before ++ i :: after) w) (hallowed : H ∨ (table i).finished w = true) :
    Ensures (fun w' => w' = w) (table i).cancel (fun _ => Copying H (before ++ after)) Thrown := by
  obtain ⟨hamong, hgone, hother⟩ := h.erased
  have hfinished := hallowed.resolve_left
  have hout := h.outbound
  have hin := h.inbound
  cases i with
  | readInput =>
    have hend : ¬ H → w.input.wrapper.eof = true := fun hnohup => by
      simpa [Rule.finished, table, h.input_open] using hfinished hnohup
    rw [hother .readSocket (by simp), hother .writeOutput (by simp)] at hin
    rw [hother .writeSocket (by simp)] at hout
    refine endOutbound_ensures ⟨hamong, ?_, hin, h.input_open, h.socket_open, h.output_closed⟩
    exact hout.endInput (fun _ hr => absurd hr hgone) (fun hr => absurd hr hgone)
      (fun hnohup _ => hend hnohup) hout.unwritten_down
  | writeSocket =>
    have hdown : H := by
      by_contra hnohup
      simpa [Rule.finished, table, h.socket_open] using hfinished hnohup
    rw [hother .readSocket (by simp), hother .writeOutput (by simp)] at hin
    rw [hother .readInput (by simp)] at hout
    refine endOutbound_ensures ⟨hamong, ?_, hin, h.input_open, h.socket_open, h.output_closed⟩
    exact hout.endInput (fun hw => absurd hw hgone) id hout.unread_eof
      (fun hnohup => absurd hdown hnohup)
  | readSocket =>
    have hend : ¬ H → w.socket.wrapper.eof = true := fun hnohup => by
      simpa [Rule.finished, table, h.socket_open] using hfinished hnohup
    rw [hother .readInput (by simp), hother .writeSocket (by simp)] at hout
    rw [hother .writeOutput (by simp)] at hin
    refine endInbound_ensures ⟨hamong, hout, ?_, h.input_open, h.socket_open, h.output_closed⟩
    exact hin.endInput (fun _ hr => absurd hr hgone) (fun hr => absurd hr hgone)
      (fun hnohup _ => hend hnohup) hin.unwritten_down
  | writeOutput =>
    have hdown : ¬ H → w.inboundShutdown = true := fun hnohup => by
      simpa [Rule.finished, table, h.output_closed] using hfinished hnohup
    rw [hother .readInput (by simp), hother .writeSocket (by simp)] at hout
    rw [hother .readSocket (by simp)] at hin
    refine endInbound_ensures ⟨hamong, hout, ?_, h.input_open, h.socket_open, h.output_closed⟩
    exact hin.endInput (fun hw => absurd hw hgone) id hin.unread_eof
      (fun hnohup _ => hdown hnohup)

/-- Why the callback of a rule would not do. -/
def stopped : Label → StreamCopy → Bool
  | .readInput, w => w.input.wrapper.eof
  | .writeSocket, w => w.outboundShutdown
  | .readSocket, w => w.socket.wrapper.eof
  | .writeOutput, w => w.inboundShutdown

theorem asks_true (i : Label) : Asks i true w ↔ stopped i w = false := by
  cases i <;> simp [Asks, stopped, Pipe.MayRead, Pipe.MayWrite, outboundPipe, inboundPipe]

/-- The end of an input matters only to the writing rule of its pipe, which comes after the
reading one. -/
theorem asks_cancel {i j : Label} {b : Bool} (h : b = true ∨ [i, j].Sublist rules)
    (hasks : Asks i b w) :
    Ensures (fun w' => w' = w) (table j).cancel (fun _ => Asks i b) (fun _ _ => True) := by
  rcases h with rfl | horder
  · rw [asks_true] at hasks
    cases j with
    | readInput | writeSocket =>
      refine endOutbound_ensures ((asks_true i).mpr ?_)
      cases i <;> exact hasks
    | readSocket | writeOutput =>
      refine endInbound_ensures ((asks_true i).mpr ?_)
      cases i <;> exact hasks
  · cases i with
    | readInput | readSocket =>
      cases j with
      | readInput | writeSocket => exact endOutbound_ensures hasks
      | readSocket | writeOutput => exact endInbound_ensures hasks
    | writeSocket =>
      cases j with
      | readInput | writeSocket => exact absurd horder (by decide)
      | readSocket | writeOutput => exact endInbound_ensures hasks
    | writeOutput => cases j <;> exact absurd horder (by decide)

/-- A callback does not stop a rule that comes after it. -/
theorem Copying.callback_apart (h : Copying H live w) {i j : Label}
    (horder : [j, i].Sublist rules) :
    Ensures (fun w' => w' = w) (table j).callback (fun _ w' => stopped i w' = stopped i w)
      (fun _ _ => True) := by
  cases j with
  | readInput =>
    refine (zoom_ensures (Pipe.fetch_ensures _)).mono (fun _ => id) ?_ (fun _ _ _ => trivial)
    rintro _ _ ⟨_, ⟨data, c, hfits, htook, rfl⟩, rfl⟩
    cases i with
    | readInput => exact absurd horder (by decide)
    | writeSocket | readSocket | writeOutput => rfl
  | writeSocket =>
    refine (zoom_ensures (Pipe.drain_ensures _ Channel.shutdown_ensures h.outbound.valid)).mono
      (fun _ => id) ?_ (fun _ _ _ => trivial)
    rintro _ _ ⟨_, ⟨n, c, hfits, hgave, ⟨-, rfl⟩ | ⟨heof, _, ⟨controls, rfl⟩, rfl⟩⟩, rfl⟩
    all_goals
      cases i with
      | readInput | writeSocket => exact absurd horder (by decide)
      | readSocket => exact hgave.eof
      | writeOutput => rfl
  | readSocket =>
    refine (zoom_ensures (Pipe.fetch_ensures _)).mono (fun _ => id) ?_ (fun _ _ _ => trivial)
    rintro _ _ ⟨_, ⟨data, c, hfits, htook, rfl⟩, rfl⟩
    cases i with
    | readInput | writeSocket | readSocket => exact absurd horder (by decide)
    | writeOutput => rfl
  | writeOutput => cases i <;> exact absurd horder (by decide)

theorem table_cooperative : Cooperative table H (Copying H) Asks Thrown where
  noted _ i _ _ h := h.noted i
  callback live i hlive n := by
    refine ensures_of_start ?_
    rintro w ⟨h, hasks, rfl⟩
    have hgoing := (asks_true i).mp hasks
    cases i with
    | readInput => exact (h.readInput hlive hgoing).post fun _ _ hw => ⟨hw.1, Or.inl hw.2⟩
    | writeSocket =>
      exact (h.writeSocket hlive hgoing).post fun _ _ hw => ⟨hw.1, hw.2.imp_right Or.inl⟩
    | readSocket => exact (h.readSocket hlive hgoing).post fun _ _ hw => ⟨hw.1, Or.inl hw.2⟩
    | writeOutput =>
      exact (h.writeOutput hlive hgoing).post fun _ _ hw => ⟨hw.1, hw.2.imp_right Or.inl⟩
  cancel_finished before i after := ensures_of_start fun w h => h.1.cancel (Or.inr h.2)
  cancel_defunct hup before i after := ensures_of_start fun w h => h.cancel (Or.inl hup)
  finished_apart live i j horder b :=
    ensures_of_start fun w h => asks_cancel (Or.inr (horder.trans h.1.among)) h.2
  defunct_apart live i j horder := ensures_of_start fun w h => asks_cancel (Or.inl rfl) h.2
  callback_apart live i j horder := by
    refine ensures_of_start ?_
    rintro w ⟨h, hasks⟩
    refine (h.callback_apart (horder.trans h.among)).post fun _ w' hsame => ?_
    rw [asks_true] at hasks ⊢
    exact hsame.trans hasks
  poll live w h :=
    ⟨⟨by simp [pollError], by simp [pollError, busyWait]⟩, h.outbound.integrity,
      h.inbound.integrity⟩

theorem start_copying {input output socket : Channel} (hinput : input.Fresh)
    (houtput : output.Fresh) (hsocket : socket.Fresh) :
    Copying H rules (start input output socket) where
  among := List.Sublist.refl _
  outbound := Pipe.Flows.new hinput hsocket (by decide) (by decide)
  inbound := Pipe.Flows.new hsocket houtput (by decide) (by decide)
  input_open := hinput.closed
  socket_open := hsocket.closed
  output_closed := houtput.closed

end Copying

/-- What is written is the beginning of what is read, whether the loop goes on, ends or throws;
a descriptor is shut down at most once, after everything. -/
def InOrder {α : Type} : EStateM.Result Failure StreamCopy α → Prop
  | .ok _ w =>
    w.socket.given <+: w.input.taken ∧ w.output.given <+: w.socket.taken ∧
    w.socket.shutdowns ≤ 1 ∧ w.output.shutdowns ≤ 1 ∧
    (w.socket.shutdowns = 1 → w.socket.given = w.input.taken) ∧
    (w.output.shutdowns = 1 → w.output.given = w.socket.taken)
  | .error e w =>
    w.socket.given <+: w.input.taken ∧ w.output.given <+: w.socket.taken ∧
    e ≠ .outOfRange ∧ e ≠ busyWait

/-- A loop that exits has copied everything, and both sides have ended. -/
def AllCopied {α : Type} (result : EStateM.Result Failure StreamCopy (Bool × α)) : Prop :=
  ∀ left w, result = .ok (true, left) w →
    w.input.wrapper.eof = true ∧ w.socket.wrapper.eof = true ∧
    w.socket.given = w.input.taken ∧ w.output.given = w.socket.taken ∧
    w.socket.shutdowns = 1 ∧ w.output.shutdowns = 1

/-- In every run, with whatever the kernel answers, the socket gets the beginning of what is
read from the input, and the output the beginning of what is read from the socket. A descriptor
is shut down at most once and only after everything. The loop does not end by the exceptions
of the event loop itself: a busy wait, or an index outside the vector. -/
theorem copies_in_order (answers : List PollAnswer) {input output socket : Channel}
    (hinput : input.Fresh) (houtput : output.Fresh) (hsocket : socket.Fresh) :
    InOrder (bidirectionalStreamCopy answers (start input output socket)) := by
  have hend := ensures_iff.mp (rounds_ensures (table_cooperative (H := True)) answers
    (fun _ _ _ => trivial) rules) _ (start_copying hinput houtput hsocket)
  unfold bidirectionalStreamCopy
  cases hrun : rounds table answers rules (start input output socket) with
  | ok p w =>
    rw [hrun] at hend
    obtain ⟨-, hout, hin, -⟩ := hend.1
    exact ⟨hout.integrity, hin.integrity, hout.shutdowns_le, hin.shutdowns_le,
      hout.shut_all_written, hin.shut_all_written⟩
  | error e w =>
    rw [hrun] at hend
    exact ⟨hend.2.1, hend.2.2, hend.1⟩

/-- Two bytes are typed and the output hangs up. -/
theorem copies_in_order_hangup :
    InOrder (bidirectionalStreamCopy
      [.returned [{ pollIn := true }], .returned [{}, { pollOut := true }, {}, { pollHup := true }]]
      (start { reads := [some [104, 105]] } {} { writes := [some 2] })) :=
  copies_in_order _ ⟨rfl, rfl, rfl, rfl, rfl⟩ ⟨rfl, rfl, rfl, rfl, rfl⟩ ⟨rfl, rfl, rfl, rfl, rfl⟩

/-- Without hangups and signals, the loop ends only when both sides have ended, all that was
read has been written, and both writing ends have been shut down. -/
theorem copies_all (answers : List PollAnswer) {input output socket : Channel}
    (hinput : input.Fresh) (houtput : output.Fresh) (hsocket : socket.Fresh)
    (hnohup : ∀ answer ∈ answers, ¬ answer.HangsUp) (hnosignal : .interrupted ∉ answers) :
    AllCopied (bidirectionalStreamCopy answers (start input output socket)) := by
  have hend := ensures_iff.mp (rounds_ensures (table_cooperative (H := False)) answers
    (fun answer hmem hup => hnohup answer hmem hup) rules) _
    (start_copying hinput houtput hsocket)
  intro left w hrun
  unfold bidirectionalStreamCopy at hrun
  rw [hrun] at hend
  obtain ⟨⟨-, hout, hin, -⟩, -, hexit⟩ := hend
  have hidle := (hexit rfl).resolve_left hnosignal
  obtain ⟨heof, hall, hshut⟩ := hout.complete id (hidle _) (hidle _)
  obtain ⟨heof', hall', hshut'⟩ := hin.complete id (hidle _) (hidle _)
  exact ⟨heof, heof', hall, hall', hshut, hshut'⟩

/-- Two bytes are typed and one comes back, then both sides end. -/
theorem copies_all_greeting :
    let result := bidirectionalStreamCopy
      [.returned [{ pollIn := true }, {}, { pollIn := true }],
        .returned [{ pollIn := true }, { pollOut := true }, { pollIn := true },
          { pollOut := true }],
        .returned []]
      (start { reads := [some [104, 105], some []] } { writes := [some 1], controls := [true] }
        { reads := [some [33], some []], writes := [some 2], controls := [true] })
    (match result with
      | .ok (left, _) w => left && w.input.taken == [104, 105] && w.socket.taken == [33]
      | .error _ _ => false) = true ∧ AllCopied result :=
  ⟨by decide +kernel,
    copies_all _ ⟨rfl, rfl, rfl, rfl, rfl⟩ ⟨rfl, rfl, rfl, rfl, rfl⟩ ⟨rfl, rfl, rfl, rfl, rfl⟩
      (by simp [PollAnswer.HangsUp]) (by simp)⟩

end StreamCopy

end Sponge
