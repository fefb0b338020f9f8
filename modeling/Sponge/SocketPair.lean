import Sponge.AdapterPackets

/-!
Two sockets and whatever is between their adapters.
Each thread takes its turns in any order with those of the other; a turn is one step, since
in a turn everything that is read from the network is read before anything is written. The
network may lose, repeat and reorder: what an adapter returns has been given to the adapter of
the other side before. Whatever the kernels answer, the owner on one side reads the beginning of
what the owner on the other side wrote, and all of it before a clean end.
-/
namespace Sponge

open Programs EventLoop Link TCPSpongeSocket

/-- The thread of a socket: it runs, and may have left its loop; or an exception has ended it. -/
inductive Thread (α : Type) where
  | running (left : Bool) (live : List Label) (w : TCPSpongeSocket α)
  | failed (e : Failure) (w : TCPSpongeSocket α)

inductive ThreadOp where
  | connect
  | turn (t : Turn)

/-- No hangup is reported, no signal comes, and the owner does not abort. -/
def ThreadOp.Calm : ThreadOp → Prop
  | .connect => True
  | .turn t => ¬ t.answer.HangsUp ∧ t.answer ≠ .interrupted ∧ t.abort = false

namespace Thread

variable {α : Type}

def socket : Thread α → TCPSpongeSocket α
  | .running _ _ w => w
  | .failed _ w => w

/-- Bytes that came from the owner. -/
def taken (t : Thread α) : List UInt8 := t.socket.threadData.taken

/-- Bytes that went to the owner. -/
def given (t : Thread α) : List UInt8 := t.socket.threadData.given

def step (adapter : Adapter α) : Thread α → ThreadOp → Thread α
  | .failed e w, _ => .failed e w
  | .running _ live w, .connect => .running false live { w with tcp := w.tcp.connect }
  | .running _ live w, .turn t =>
    match turn adapter t live w with
    | .ok (left, live) w => .running left live w
    | .error e w => .failed e w

/-- The owner has been told of the end, and there was no reset. -/
def CleanEnd : Thread α → Prop
  | .running _ _ w => w.inboundShutdown = true ∧ w.tcp.inboundStream.error = false
  | .failed _ _ => False

/-- What a loop that ends in this state returns. -/
def result : Thread α → EStateM.Result Failure (TCPSpongeSocket α) (List Label)
  | .running _ live w => .ok live w
  | .failed e w => .error e w

end Thread

section Loop

variable {α : Type} (adapter : Adapter α) (condition : TCPSpongeSocket α → Bool)

theorem step_turn {left : Bool} {live : List Label} {w : TCPSpongeSocket α} {t : Turn} :
    (Thread.running left live w).step adapter (.turn t) =
      match turn adapter t live w with
      | .ok (left, live) w => .running left live w
      | .error e w => .failed e w := rfl

theorem tcpLoop_cons (t : Turn) (turns : List Turn) (live : List Label) (w : TCPSpongeSocket α) :
    tcpLoop adapter condition (t :: turns) live w =
      if condition w then
        match turn adapter t live w with
        | .ok (true, live) w => .ok live w
        | .ok (false, live) w => tcpLoop adapter condition turns live w
        | .error e w => .error e w
      else .ok live w := by
  change (if condition w then _ else _ : EStateM _ _ _) w = _
  cases condition w with
  | false => rfl
  | true =>
    change EStateM.bind (turn adapter t live) _ w = _
    rw [EStateM.bind]
    cases turn adapter t live w with
    | error e w' => rfl
    | ok p w' =>
      obtain ⟨stop, live'⟩ := p
      cases stop <;> rfl

/-- A loop is a series of turns of the thread, which ends when the condition fails, when the
loop is left or with an exception. -/
theorem tcpLoop_eq_steps (turns : List Turn) (left : Bool) (live : List Label)
    (w : TCPSpongeSocket α) :
    ∃ taken, taken <+: turns ∧ tcpLoop adapter condition turns live w =
      ((taken.map ThreadOp.turn).foldl (Thread.step adapter) (.running left live w)).result := by
  induction turns generalizing left live w with
  | nil => exact ⟨[], List.nil_prefix, rfl⟩
  | cons t turns ih =>
    rw [tcpLoop_cons]
    cases condition w with
    | false => exact ⟨[], List.nil_prefix, rfl⟩
    | true =>
      have hfirst : [t] <+: t :: turns := List.prefix_append [t] turns
      cases hturn : turn adapter t live w with
      | error e w' => exact ⟨[t], hfirst, by simp [step_turn, hturn, Thread.result]⟩
      | ok p w' =>
        obtain ⟨stop, live'⟩ := p
        cases stop with
        | true => exact ⟨[t], hfirst, by simp [step_turn, hturn, Thread.result]⟩
        | false =>
          obtain ⟨taken, htaken, heq⟩ := ih false live' w'
          refine ⟨t :: taken, List.cons_prefix_cons.mpr ⟨rfl, htaken⟩, ?_⟩
          simp [step_turn, hturn, heq]

end Loop

/-- What is between the two sides: a segment that comes out at one has gone in at the other.
The owner has written less than 2^31 - 2 bytes. -/
structure Within {α β : Type} (t : Thread (Recorded α)) (u : Thread (Recorded β)) : Prop where
  heard : ∀ seg ∈ t.socket.datagramAdapter.heard,
    ∃ seg' ∈ u.socket.datagramAdapter.sent, seg.Same seg'
  short : Short t.taken

instance {α β : Type} (t : Thread (Recorded α)) (u : Thread (Recorded β)) :
    Decidable (Within t u) :=
  decidable_of_iff ((∀ seg ∈ t.socket.datagramAdapter.heard,
      ∃ seg' ∈ u.socket.datagramAdapter.sent, seg.Same seg') ∧ Short t.taken)
    ⟨fun h => ⟨h.1, h.2⟩, fun h => ⟨h.heard, h.short⟩⟩

structure SocketPair (α β : Type) where
  a : Thread (Recorded α)
  b : Thread (Recorded β)

inductive SocketPairOp where
  | atA (op : ThreadOp)
  | atB (op : ThreadOp)

namespace SocketPair

open Runs

variable {α β : Type}

/-- The two threads. If the run is to be calm, so are its turns. -/
def machine (calm : Prop) (adapterA : Adapter α) (adapterB : Adapter β) :
    Machine (SocketPair α β) SocketPairOp where
  enabled
    | n, .atA op => (calm → op.Calm) ∧ Within (n.a.step adapterA.recorded op) n.b
    | n, .atB op => (calm → op.Calm) ∧ Within (n.b.step adapterB.recorded op) n.a
  step
    | n, .atA op => { n with a := n.a.step adapterA.recorded op }
    | n, .atB op => { n with b := n.b.step adapterB.recorded op }

/-- Both sockets just after their connections have been set up. -/
def start (cfgA cfgB : TCPConfig) (randomA randomB : WrappingInt32) (threadA threadB : Channel)
    (adapterA : α) (adapterB : β) : SocketPair α β where
  a := .running false rules (initializeTCP cfgA randomA threadA ⟨adapterA, [], []⟩)
  b := .running false rules (initializeTCP cfgB randomB threadB ⟨adapterB, [], []⟩)

end SocketPair

section Pair

variable {α β : Type} {calm : Prop} {adapterA : Adapter α} {adapterB : Adapter β}

/-- The invariant of a thread that stands for an endpoint. -/
def Holds (calm : Prop) (adapter : Adapter α) : Thread (Recorded α) → Endpoint → Prop
  | .running left live w, x => Represents w x ∧ Tidy w ∧
    ∃ y, Running adapter (¬ calm) y live w ∧
      (calm → left = true → ∀ i ∈ live, Asks y i false w)
  | .failed e w, x => Fallen w x ∧ e ≠ .outOfRange ∧ e ≠ busyWait ∧
    (e = acceptedLess → w.tcp.synSent = false)

theorem Holds.fallen {t : Thread (Recorded α)} {x : Endpoint} (h : Holds calm adapterA t x) :
    Fallen t.socket x := by
  cases t with
  | running left live w => exact h.1.fallen
  | failed e w => exact h.1

/-- Both threads stand for endpoints that are sound with respect to each other. -/
def Joined (calm : Prop) (adapterA : Adapter α) (adapterB : Adapter β)
    (t : Thread (Recorded α)) (u : Thread (Recorded β)) : Prop :=
  ∃ x y, Holds calm adapterA t x ∧ Holds calm adapterB u y ∧ Sound x y

theorem Joined.symm {t : Thread (Recorded α)} {u : Thread (Recorded β)}
    (h : Joined calm adapterA adapterB t u) : Joined calm adapterB adapterA u t := by
  obtain ⟨x, y, hx, hy, hsound⟩ := h
  exact ⟨y, x, hy, hx, hsound.symm⟩

theorem Within.permitted {t : Thread (Recorded α)} {u : Thread (Recorded β)} (h : Within t u)
    {y : Endpoint} (hy : Fallen u.socket y) : Permitted y t.socket where
  heard seg hseg := by
    obtain ⟨seg', hsent, hsame⟩ := h.heard seg hseg
    exact ⟨seg', hy.sent seg' hsent, hsame⟩
  short := h.short

/-- What one side does keeps the two joined. -/
theorem Joined.step (hlaw : adapterA.Lawful) {t : Thread (Recorded α)} {u : Thread (Recorded β)}
    (h : Joined calm adapterA adapterB t u) (op : ThreadOp) (hcalm : calm → op.Calm)
    (hwithin : Within (t.step adapterA.recorded op) u) :
    Joined calm adapterA adapterB (t.step adapterA.recorded op) u := by
  obtain ⟨x, y, hx, hy, hsound⟩ := h
  have hperm := hwithin.permitted hy.fallen
  cases t with
  | failed e w => exact ⟨x, y, hx, hy, hsound⟩
  | running left live w =>
    obtain ⟨hrep, htidy, y₀, hrunning, -⟩ := hx
    have hserving : Serving y w := ⟨x, hrep, hsound, htidy⟩
    cases op with
    | connect =>
      obtain ⟨x', hrep', hsound', htidy'⟩ := hserving.connect
      refine ⟨x', y, ⟨hrep', htidy', y, ?_, fun _ hleft => absurd hleft Bool.noConfusion⟩, hy,
        hsound'⟩
      exact { hrunning with serving := fun _ => ⟨x', hrep', hsound', htidy'⟩ }
    | turn t =>
      have hnow : Running adapterA (¬ calm) y live w :=
        { hrunning with serving := fun _ => hserving }
      have hhup : t.answer.HangsUp → ¬ calm := fun hup hc => (hcalm hc).1 hup
      have hturn := ensures_iff.mp (turn_ensures (y := y) hlaw t hhup live) w hnow
      rw [step_turn] at hperm ⊢
      cases hrun : turn adapterA.recorded t live w with
      | ok p w' =>
        rw [hrun] at hturn hperm
        obtain ⟨x', hrep', hsound', htidy'⟩ := hturn.1.serving hperm
        refine ⟨x', y, ⟨hrep', htidy', y, hturn.1, fun hc hleft => ?_⟩, hy, hsound'⟩
        obtain ⟨-, hsignal, habort⟩ := hcalm hc
        rcases hturn.2 hleft with hab | hint | hasks
        · exact absurd (hab.symm.trans habort) Bool.noConfusion
        · exact absurd hint hsignal
        · exact hasks
      | error e w' =>
        rw [hrun] at hturn hperm
        obtain ⟨x', hfallen, hsound'⟩ := hturn.fallen hperm
        exact ⟨x', y, ⟨hfallen, hturn.in_range, hturn.no_busyWait, hturn.unsent hperm⟩, hy, hsound'⟩

section Start

variable (cfg : TCPConfig) (random : WrappingInt32) {thread : Channel} (hthread : thread.Fresh)
  (a : α)
include hthread

theorem new_represents :
    Represents (initializeTCP cfg random thread (⟨a, [], []⟩ : Recorded α))
      (Endpoint.new cfg random) :=
  ⟨rfl, hthread.taken.symm, hthread.given.symm, rfl⟩

theorem new_tidy : Tidy (initializeTCP cfg random thread a) :=
  ⟨fun hdown => absurd hdown Bool.noConfusion, fun _ => hthread.shutdowns⟩

theorem new_holds (hopen : (adapterA.fd a).closed = false) {y : Endpoint}
    (hsound : Sound (Endpoint.new cfg random) y) :
    Holds calm adapterA (.running false rules (initializeTCP cfg random thread ⟨a, [], []⟩))
      (Endpoint.new cfg random) := by
  have hrep := new_represents cfg random hthread a
  have htidy := new_tidy cfg random hthread (⟨a, [], []⟩ : Recorded α)
  have heof : thread.wrapper.eof = true → False := fun heof =>
    absurd (hthread.eof.symm.trans heof) Bool.noConfusion
  refine ⟨hrep, htidy, y, ?_, fun _ hleft => absurd hleft Bool.noConfusion⟩
  exact ⟨List.Sublist.refl _, fun _ => ⟨by decide, by decide⟩, hthread.closed, hopen,
    fun hend => (heof hend).elim, fun _ => ⟨_, hrep, hsound, htidy⟩⟩

end Start

/-- What passes from the owner of one socket to the owner of the other. -/
structure Passes (t : Thread (Recorded α)) (u : Thread (Recorded β)) : Prop where
  isPrefix : u.given <+: t.taken
  complete : u.CleanEnd → u.given = t.taken ∧ t.socket.outboundShutdown = true

/-- A thread tells its owner of the end once. Where an exception ends it, this is not for a
busy wait or an index outside the vector, and the endpoint has refused bytes only if its SYN
had not been sent. -/
def Behaves : Thread (Recorded α) → Prop
  | .running _ _ w => w.tcp.inboundStream.error = false →
    w.threadData.shutdowns = if w.inboundShutdown then 1 else 0
  | .failed e w => e ≠ .outOfRange ∧ e ≠ busyWait ∧ (e = acceptedLess → w.tcp.synSent = false)

/-- A thread that has left its loop has nothing left to send or to pass on. If the endpoint was
closed cleanly, each side has all that the owner of the other wrote. -/
def Departs (t : Thread (Recorded α)) (u : Thread (Recorded β)) : Prop :=
  ∀ live w, u = .running true live w →
    w.tcp.segmentsOut = [] ∧ w.tcp.inboundStream.bufferEmpty = true ∧
    (w.tcp.active = false → w.tcp.sender.stream.error = false →
      w.tcp.inboundStream.error = false →
      u.given = t.taken ∧ w.threadData.shutdowns = 1 ∧
      ∀ left live' w', t = .running left live' w' →
        t.given ++ w'.tcp.inboundStream.buffered = u.taken)

section Consequences

variable {t : Thread (Recorded α)} {u : Thread (Recorded β)}

theorem assembled_of_empty {w : TCPSpongeSocket (Recorded β)} {x y : Endpoint}
    (hrep : Represents w y) (hsound : Sound x y)
    (hempty : w.tcp.inboundStream.bufferEmpty = true) : y.assembled = w.threadData.given := by
  have hsame : y.conn.inboundStream = w.tcp.inboundStream := by
    rw [hrep.conn_eq]
    rfl
  have hv : y.conn.inboundStream.Valid :=
    hsound.linked.joined.heard.assembles.rep.output_valid
  have hnone : y.conn.inboundStream.buffered = [] := by
    rw [← List.length_eq_zero_iff, hv.buffered_length, hsame]
    simpa [ByteStream.bufferEmpty] using hempty
  rw [Endpoint.assembled, hnone, List.append_nil, hrep.consumed_eq]

theorem Joined.passes (h : Joined calm adapterA adapterB t u) : Passes t u := by
  obtain ⟨x, y, hx, hy, hsound⟩ := h
  have hdelivered := hsound.delivered
  refine ⟨(hy.fallen.given.trans hdelivered.isPrefix).trans hx.fallen.accepted, fun hclean => ?_⟩
  cases u with
  | failed e w => exact hclean.elim
  | running left live w =>
    obtain ⟨hrep, htidy, -⟩ := hy
    have heof := Bool.and_eq_true_iff.mp (htidy.down hclean.1 hclean.2)
    have hended : y.conn.inboundStream.inputEnded = true := by
      rw [hrep.conn_eq]
      exact heof.1
    obtain ⟨hclosed, hall⟩ := hdelivered.complete hended
    obtain ⟨haccepted, hshut⟩ := hx.fallen.closed hclosed
    refine ⟨?_, hshut⟩
    rw [assembled_of_empty hrep hsound heof.2] at hall
    exact hall.trans haccepted

theorem Joined.behaves (h : Joined calm adapterA adapterB t u) : Behaves u := by
  obtain ⟨x, y, -, hy, -⟩ := h
  cases u with
  | running left live w => exact hy.2.1.once
  | failed e w => exact hy.2

theorem Joined.departs (h : Joined True adapterA adapterB t u) : Departs t u := by
  rintro live w rfl
  obtain ⟨x, y, hx, ⟨hrep, htidy, y₀, hrunning, hidle⟩, hsound⟩ := h
  obtain ⟨hwrite, hsend⟩ := hrunning.writing fun hno => hno trivial
  have hasks := hidle trivial rfl
  obtain ⟨hempty, htold⟩ := (hasks _ hwrite).2 rfl
  refine ⟨hasks _ hsend rfl, hempty, fun hinactive hout hin => ?_⟩
  have hclean : CleanlyClosed y :=
    ⟨hrep.conn_eq ▸ hinactive, hrep.conn_eq ▸ hout, hrep.conn_eq ▸ hin⟩
  have hfull := hsound.symm.fullyDelivered hclean
  have hended : w.tcp.inboundStream.inputEnded = true := by
    have hend := hfull.ended
    rw [hrep.conn_eq] at hend
    exact hend
  have hdown := htold (Or.inl (Bool.and_eq_true_iff.mpr ⟨hended, hempty⟩))
  refine ⟨?_, (htidy.once hin).trans (if_pos hdown), ?_⟩
  · have hall := hfull.has_all
    rw [assembled_of_empty hrep hsound hempty] at hall
    exact hall.trans (hx.fallen.closed hfull.peer_closed).1
  · rintro left live' w' rfl
    have hall := hfull.peer_has_all
    have hrep' : Represents w' x := hx.1
    rw [Endpoint.assembled, hrep'.conn_eq, hrep'.consumed_eq, hrep.accepted_eq] at hall
    exact hall

/-- What the owners of two sockets can rely on, the last part in a calm run. -/
structure Connected (calm : Prop) (t : Thread (Recorded α)) (u : Thread (Recorded β)) : Prop where
  there : Passes t u
  back : Passes u t
  behave : Behaves t ∧ Behaves u
  depart : calm → Departs t u ∧ Departs u t

theorem Joined.connected (h : Joined calm adapterA adapterB t u) : Connected calm t u where
  there := h.passes
  back := h.symm.passes
  behave := ⟨h.symm.behaves, h.behaves⟩
  depart hcalm := by
    have heq : calm = True := eq_true hcalm
    subst heq
    exact ⟨h.departs, h.symm.departs⟩

end Consequences

end Pair

namespace SocketPair

open Runs

variable {α β : Type} {adapterA : Adapter α} {adapterB : Adapter β}

theorem joined_of_run {calm : Prop} (hlawA : adapterA.Lawful) (hlawB : adapterB.Lawful)
    (cfgA cfgB : TCPConfig) (randomA randomB : WrappingInt32) {threadA threadB : Channel} {a : α}
    {b : β} (hthreadA : threadA.Fresh) (hthreadB : threadB.Fresh)
    (hopenA : (adapterA.fd a).closed = false) (hopenB : (adapterB.fd b).closed = false)
    {ops : List SocketPairOp}
    (hv : (machine calm adapterA adapterB).Valid
      (start cfgA cfgB randomA randomB threadA threadB a b) ops) :
    let n := (machine calm adapterA adapterB).exec
      (start cfgA cfgB randomA randomB threadA threadB a b) ops
    Joined calm adapterA adapterB n.a n.b := by
  have hsound := new_sound cfgA cfgB randomA randomB
  refine (machine calm adapterA adapterB).invariant
    (P := fun n => Joined calm adapterA adapterB n.a n.b) ?_ ?_ hv
  · intro n op h hop
    cases op with
    | atA op => exact h.step hlawA op hop.1 hop.2
    | atB op => exact (h.symm.step hlawB op hop.1 hop.2).symm
  · exact ⟨_, _, new_holds cfgA randomA hthreadA a hopenA hsound,
      new_holds cfgB randomB hthreadB b hopenB hsound.symm, hsound⟩

/-- Two sockets with any adapters, after any run in which segments come out only where they
have gone in. -/
theorem sockets_connected (calm : Prop) (hlawA : adapterA.Lawful) (hlawB : adapterB.Lawful)
    (cfgA cfgB : TCPConfig) (randomA randomB : WrappingInt32) {threadA threadB : Channel} {a : α}
    {b : β} (hthreadA : threadA.Fresh) (hthreadB : threadB.Fresh)
    (hopenA : (adapterA.fd a).closed = false) (hopenB : (adapterB.fd b).closed = false)
    {ops : List SocketPairOp}
    (hv : (machine calm adapterA adapterB).Valid
      (start cfgA cfgB randomA randomB threadA threadB a b) ops) :
    let n := (machine calm adapterA adapterB).exec
      (start cfgA cfgB randomA randomB threadA threadB a b) ops
    Connected calm n.a n.b :=
  (joined_of_run hlawA hlawB cfgA cfgB randomA randomB hthreadA hthreadB hopenA hopenB
    hv).connected

section Handshake

/-- A SYN from 0.0.0.1:1000 to 0.0.0.2:80, in a datagram. -/
def synPacket : List UInt8 :=
  [69, 0, 0, 40, 0, 0, 64, 0, 128, 6, 250, 205, 0, 0, 0, 1, 0, 0, 0, 2,
    3, 232, 0, 80, 0, 0, 0, 7, 0, 0, 0, 0, 80, 2, 0, 0, 171, 161, 0, 0]

/-- The answer. -/
def synAckPacket : List UInt8 :=
  [69, 0, 0, 40, 0, 0, 64, 0, 128, 6, 250, 205, 0, 0, 0, 2, 0, 0, 0, 1,
    0, 80, 3, 232, 0, 0, 0, 9, 0, 0, 0, 8, 80, 18, 250, 0, 177, 134, 0, 0]

def client : TCPOverIPv4OverTunFdAdapter where
  base := ⟨⟨⟨some 1, 1000⟩, ⟨some 2, 80⟩⟩, false⟩
  tun := { channel := { reads := [some synAckPacket] }, accepts := [true] }

/-- It listens on port 80. -/
def server : TCPOverIPv4OverTunFdAdapter where
  base := ⟨⟨⟨some 0, 80⟩, {}⟩, true⟩
  tun := { channel := { reads := [some synPacket] }, accepts := [true] }

/-- A turn in which `poll` reports these flags, and nothing else happens. -/
def quietTurn (revents : List Revents) : ThreadOp := .turn { answer := .returned revents }

def receiving : ThreadOp := quietTurn [{ pollIn := true }]

def sending : ThreadOp := quietTurn [{}, {}, {}, { pollOut := true }]

theorem quietTurn_calm {revents : List Revents} (h : ∀ flags ∈ revents, flags.pollHup = false) :
    (quietTurn revents).Calm := by
  refine ⟨?_, PollAnswer.noConfusion, rfl⟩
  rintro ⟨flags, hmem, hup⟩
  exact absurd (hup.symm.trans (h flags hmem)) Bool.noConfusion

/-- The SYN and its answer. -/
def handshake : List SocketPairOp :=
  [.atA .connect, .atA sending, .atB receiving, .atB sending, .atA receiving]

def clientConfig : TCPConfig := { fixedIsn := some ⟨7⟩ }

def serverConfig : TCPConfig := { fixedIsn := some ⟨9⟩ }

theorem fresh_empty : ({} : Channel).Fresh := ⟨rfl, rfl, rfl, rfl, rfl⟩

open TCPOverIPv4OverTunFdAdapter in
theorem sockets_connected_handshake :
    let n := (machine True adapter adapter).exec
      (start clientConfig serverConfig ⟨0⟩ ⟨0⟩ {} {} client server) handshake
    Connected True n.a n.b :=
  sockets_connected True transports.lawful transports.lawful clientConfig serverConfig ⟨0⟩ ⟨0⟩
    fresh_empty fresh_empty rfl rfl
    ⟨⟨fun _ => trivial, by decide +kernel⟩,
      ⟨fun _ => quietTurn_calm (by decide), by decide +kernel⟩,
      ⟨fun _ => quietTurn_calm (by decide), by decide +kernel⟩,
      ⟨fun _ => quietTurn_calm (by decide), by decide +kernel⟩,
      ⟨fun _ => quietTurn_calm (by decide), by decide +kernel⟩, trivial⟩

end Handshake

end SocketPair

end Sponge
