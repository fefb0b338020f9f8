import Sponge.Runs
import Sponge.TCPOverIP

/-!
One adapter serves one connection.
An adapter that listens drops datagrams until a SYN for its port comes. The ends of that
SYN become its own ends, and from then on it passes the segments between these two ends
and nothing else. A datagram that it does not pass leaves no trace in it.
-/
namespace Sponge.TCPOverIPv4Adapter

open Runs

/-- The datagram has been parsed from some packet. -/
def Parsed (d : IPv4Datagram) : Prop :=
  ∃ packet, ({} : IPv4Datagram).parse packet = (.noError, d)

/-- The two ends of a segment: source address and port, destination address and port. -/
structure Ends where
  src : UInt32
  sport : UInt16
  dst : UInt32
  dport : UInt16
  deriving DecidableEq, Repr

def ends (d : IPv4Datagram) (seg : TCPSegment) : Ends :=
  ⟨d.header.src, seg.header.sport, d.header.dst, seg.header.dport⟩

/-- The adapter of a connection with these ends. -/
def serving (e : Ends) : TCPOverIPv4Adapter :=
  ⟨⟨⟨some e.dst, e.dport⟩, ⟨some e.src, e.sport⟩⟩, false⟩

/-- What `unwrap_tcp_in_ip` can do with a datagram. -/
inductive Outcome (a : TCPOverIPv4Adapter) (d : IPv4Datagram) :
    Option TCPSegment → TCPOverIPv4Adapter → Prop where
  | ignored : Outcome a d none a
  | adopted {seg : TCPSegment} (hlistening : a.listening = true) (hsyn : seg.header.syn = true)
      (hrst : seg.header.rst = false) (hdport : seg.header.dport = a.config.source.port) :
      Outcome a d (some seg) (serving (ends d seg))
  | passed {seg : TCPSegment} (hlistening : a.listening = false)
      (hdst : a.config.source.ipv4 = some d.header.dst)
      (hsrc : a.config.destination.ipv4 = some d.header.src)
      (hdport : seg.header.dport = a.config.source.port)
      (hsport : seg.header.sport = a.config.destination.port) : Outcome a d (some seg) a

theorem Parsed.toBuffer {d : IPv4Datagram} (h : Parsed d) :
    ∃ buffer, d.payload.toBuffer = .ok buffer := by
  obtain ⟨packet, hparse⟩ := h
  have hsnd := IPv4Datagram.parse_snd {} packet
  rw [hparse] at hsnd
  rw [show d = _ from hsnd]
  exact ⟨_, rfl⟩

variable {a : TCPOverIPv4Adapter} {d : IPv4Datagram}

/-- Behind the test of the addresses, which an adapter that listens leaves out. -/
theorem unwrapPayload_outcome (hd : Parsed d)
    (hends : a.listening = false → a.config.source.ipv4 = some d.header.dst ∧
      a.config.destination.ipv4 = some d.header.src) :
    ∃ out a', a.unwrapPayload d = .ok (out, a') ∧ Outcome a d out a' := by
  obtain ⟨buffer, hbuffer⟩ := hd.toBuffer
  by_cases hproto : d.header.proto = IPv4Header.PROTO_TCP
  case neg => exact ⟨none, a, by simp [unwrapPayload, hproto, pure, Except.pure], .ignored⟩
  obtain ⟨result, seg, hparse⟩ : ∃ result seg,
      ({} : TCPSegment).parse buffer d.header.pseudoCksum = (result, seg) := ⟨_, _, rfl⟩
  by_cases hok : result = .noError
  case neg =>
    exact ⟨none, a, by simp [unwrapPayload, hproto, hbuffer, hparse, hok, bind, Except.bind, pure,
      Except.pure], .ignored⟩
  by_cases hdport : seg.header.dport = a.config.source.port
  case neg =>
    exact ⟨none, a, by simp [unwrapPayload, hproto, hbuffer, hparse, hok, hdport, bind, Except.bind,
      pure, Except.pure], .ignored⟩
  cases hlistening : a.listening with
  | true =>
    by_cases hopens : seg.header.syn = true ∧ seg.header.rst = false
    · refine ⟨some seg, serving (ends d seg), ?_, .adopted hlistening hopens.1 hopens.2 hdport⟩
      simp [unwrapPayload, hproto, hbuffer, hparse, hok, hdport, hlistening, hopens, serving, ends,
        bind, Except.bind, pure, Except.pure]
    · have hno : ¬ (seg.header.syn && !seg.header.rst) = true := by simpa using hopens
      refine ⟨none, a, ?_, .ignored⟩
      simp [unwrapPayload, hproto, hbuffer, hparse, hok, hdport, hlistening, hno, bind,
        Except.bind, pure, Except.pure]
  | false =>
    by_cases hsport : seg.header.sport = a.config.destination.port
    · obtain ⟨hdst, hsrc⟩ := hends hlistening
      refine ⟨some seg, a, ?_, .passed hlistening hdst hsrc hdport hsport⟩
      simp [unwrapPayload, hproto, hbuffer, hparse, hok, hdport, hlistening, hsport, bind,
        Except.bind, pure, Except.pure]
    · refine ⟨none, a, ?_, .ignored⟩
      simp [unwrapPayload, hproto, hbuffer, hparse, hok, hdport, hlistening, hsport, bind,
        Except.bind, pure, Except.pure]

/-- Neither an adapter that listens nor one that serves a connection throws. -/
theorem unwrapTcpInIp_outcome (hd : Parsed d)
    (ha : a.listening = true ∨ ∃ e, a = serving e) :
    ∃ out a', a.unwrapTcpInIp d = .ok (out, a') ∧ Outcome a d out a' := by
  rcases ha with hlistening | ⟨e, rfl⟩
  · rw [unwrapTcpInIp, if_pos hlistening]
    exact unwrapPayload_outcome hd fun hoff => by simp [hlistening] at hoff
  · by_cases hdst : d.header.dst = e.dst
    case neg =>
      refine ⟨none, serving e, ?_, .ignored⟩
      simp [unwrapTcpInIp, serving, Address.ipv4Numeric, hdst, bind, Except.bind, pure,
        Except.pure]
    by_cases hsrc : d.header.src = e.src
    case neg =>
      refine ⟨none, serving e, ?_, .ignored⟩
      simp [unwrapTcpInIp, serving, Address.ipv4Numeric, hdst, hsrc, bind, Except.bind, pure,
        Except.pure]
    have hpayload : (serving e).unwrapTcpInIp d = (serving e).unwrapPayload d := by
      simp [unwrapTcpInIp, serving, Address.ipv4Numeric, hdst, hsrc, bind, Except.bind]
    rw [hpayload]
    exact unwrapPayload_outcome hd fun _ => ⟨congrArg some hdst.symm, congrArg some hsrc.symm⟩

/-- The segment returned for a datagram; nothing where the call throws. -/
def returned (a : TCPOverIPv4Adapter) (d : IPv4Datagram) : Option TCPSegment :=
  match a.unwrapTcpInIp d with
  | .ok (out, _) => out
  | .error _ => none

def after (a : TCPOverIPv4Adapter) (d : IPv4Datagram) : TCPOverIPv4Adapter :=
  match a.unwrapTcpInIp d with
  | .ok (_, a') => a'
  | .error _ => a

/-- An adapter that is given parsed datagrams. -/
def machine : Machine TCPOverIPv4Adapter IPv4Datagram where
  enabled _ d := Parsed d
  step := after

/-- The datagrams whose segments were returned, with these segments. -/
def delivered (a : TCPOverIPv4Adapter) : List IPv4Datagram → List (IPv4Datagram × TCPSegment)
  | [] => []
  | d :: ds =>
    match a.returned d with
    | some seg => (d, seg) :: delivered (a.after d) ds
    | none => delivered (a.after d) ds

theorem outcome (hd : Parsed d) (ha : a.listening = true ∨ ∃ e, a = serving e) :
    a.unwrapTcpInIp d = .ok (a.returned d, a.after d) ∧
      Outcome a d (a.returned d) (a.after d) := by
  obtain ⟨out, a', hunwrap, houtcome⟩ := unwrapTcpInIp_outcome hd ha
  have hreturned : a.returned d = out := by simp [returned, hunwrap]
  have hafter : a.after d = a' := by simp [after, hunwrap]
  rw [hreturned, hafter]
  exact ⟨hunwrap, houtcome⟩

/-- A connection is served for good, and only segments between its ends are returned. -/
theorem serving_step (e : Ends) (hd : Parsed d) :
    (serving e).after d = serving e ∧
      ∀ seg, (serving e).returned d = some seg → ends d seg = e := by
  obtain ⟨-, houtcome⟩ := outcome hd (Or.inr ⟨e, rfl⟩)
  generalize hafter : (serving e).after d = a' at houtcome
  generalize hreturned : (serving e).returned d = out at houtcome
  cases houtcome with
  | ignored => exact ⟨rfl, fun seg hseg => by simp at hseg⟩
  | adopted hlistening _ _ _ => simp [serving] at hlistening
  | @passed seg _ hdst hsrc hdport hsport =>
    refine ⟨rfl, ?_⟩
    intro seg' hseg
    cases hseg
    rw [ends, hdport, hsport, ← Option.some.inj hdst, ← Option.some.inj hsrc]
    rfl

theorem serving_run (e : Ends) {ds : List IPv4Datagram} (hv : machine.Valid (serving e) ds) :
    machine.exec (serving e) ds = serving e ∧
      ∀ x ∈ delivered (serving e) ds, ends x.1 x.2 = e := by
  induction ds with
  | nil => exact ⟨rfl, fun x hx => by simp [delivered] at hx⟩
  | cons d ds ih =>
    obtain ⟨hd, hrest⟩ := hv
    obtain ⟨hafter, hends⟩ := serving_step e hd
    have hstep : machine.step (serving e) d = serving e := hafter
    rw [hstep] at hrest
    obtain ⟨hexec, hall⟩ := ih hrest
    refine ⟨?_, ?_⟩
    · rw [Machine.exec_cons, hstep, hexec]
    · intro x hx
      rw [delivered, hafter] at hx
      cases hreturned : (serving e).returned d with
      | none =>
        rw [hreturned] at hx
        exact hall x hx
      | some seg =>
        rw [hreturned] at hx
        rcases List.mem_cons.mp hx with rfl | hx
        · exact hends seg hreturned
        · exact hall x hx

/-- An adapter that listens goes on listening, or has found its connection. -/
theorem listening_step (hlistening : a.listening = true) (hd : Parsed d) :
    (a.returned d = none ∧ a.after d = a) ∨
      ∃ seg, a.returned d = some seg ∧ a.after d = serving (ends d seg) ∧
        seg.header.syn = true ∧ seg.header.rst = false ∧
        seg.header.dport = a.config.source.port := by
  obtain ⟨-, houtcome⟩ := outcome hd (Or.inl hlistening)
  generalize a.after d = a' at houtcome ⊢
  generalize a.returned d = out at houtcome ⊢
  cases houtcome with
  | ignored => exact Or.inl ⟨rfl, rfl⟩
  | adopted _ hsyn hrst hdport => exact Or.inr ⟨_, rfl, rfl, hsyn, hrst, hdport⟩
  | passed hoff _ _ _ _ => simp [hlistening] at hoff

/-- All that the adapter a does with the datagrams belongs to one connection to the port. -/
structure Exclusive (a : TCPOverIPv4Adapter) (port : UInt16) (ds : List IPv4Datagram) :
    Prop where
  first : ∀ d seg rest, delivered a ds = (d, seg) :: rest →
    seg.header.syn = true ∧ seg.header.rst = false ∧ seg.header.dport = port
  same : ∀ x ∈ delivered a ds, ∀ y ∈ delivered a ds, ends x.1 x.2 = ends y.1 y.2
  settled : delivered a ds ≠ [] → (machine.exec a ds).listening = false
  untouched : ∀ before d rest, ds = before ++ d :: rest → ∃ out a',
    (machine.exec a before).unwrapTcpInIp d = .ok (out, a') ∧
      (out = none → a' = machine.exec a before)

theorem Outcome.untouched {out : Option TCPSegment} {a' : TCPOverIPv4Adapter}
    (h : Outcome a d out a') (hnone : out = none) : a' = a := by
  cases h with
  | ignored => rfl
  | adopted _ _ _ _ => simp at hnone
  | passed _ _ _ _ _ => rfl

/-- After any datagrams the adapter listens as before or serves a connection. -/
theorem listening_run (hlistening : a.listening = true) {ds : List IPv4Datagram}
    (hv : machine.Valid a ds) :
    machine.exec a ds = a ∨ ∃ e, machine.exec a ds = serving e := by
  induction ds with
  | nil => exact Or.inl rfl
  | cons d ds ih =>
    obtain ⟨hd, hrest⟩ := hv
    rw [Machine.exec_cons]
    rcases listening_step hlistening hd with ⟨-, hafter⟩ | ⟨seg, -, hafter, -⟩
    · rw [show machine.step a d = a from hafter] at hrest ⊢
      exact ih hrest
    · rw [show machine.step a d = _ from hafter] at hrest ⊢
      exact Or.inr ⟨_, (serving_run _ hrest).1⟩

theorem unwrap_untouched (hlistening : a.listening = true) {before rest : List IPv4Datagram}
    (hv : machine.Valid a (before ++ d :: rest)) :
    ∃ out a', (machine.exec a before).unwrapTcpInIp d = .ok (out, a') ∧
      (out = none → a' = machine.exec a before) := by
  obtain ⟨hbefore, hd, -⟩ := (machine.valid_append _ _ _).mp hv
  have hstate : (machine.exec a before).listening = true ∨
      ∃ e, machine.exec a before = serving e := by
    rcases listening_run hlistening hbefore with hsame | hserving
    · rw [hsame]
      exact Or.inl hlistening
    · exact Or.inr hserving
  obtain ⟨out, a', hunwrap, houtcome⟩ := unwrapTcpInIp_outcome hd hstate
  exact ⟨out, a', hunwrap, houtcome.untouched⟩

/-- Either nothing has been returned yet, or all that was returned follows the first SYN. -/
theorem listening_delivered (hlistening : a.listening = true) {ds : List IPv4Datagram}
    (hv : machine.Valid a ds) :
    delivered a ds = [] ∨ ∃ d seg rest, delivered a ds = (d, seg) :: rest ∧
      (seg.header.syn = true ∧ seg.header.rst = false ∧
        seg.header.dport = a.config.source.port) ∧
      (∀ x ∈ rest, ends x.1 x.2 = ends d seg) ∧ machine.exec a ds = serving (ends d seg) := by
  induction ds with
  | nil => exact Or.inl rfl
  | cons d ds ih =>
    obtain ⟨hd, hrest⟩ := hv
    rw [Machine.exec_cons, delivered]
    rcases listening_step hlistening hd with ⟨hnone, hafter⟩ | ⟨seg, hsome, hafter, hopens⟩
    · rw [show machine.step a d = a from hafter] at hrest ⊢
      rw [hnone, hafter]
      exact ih hrest
    · rw [show machine.step a d = _ from hafter] at hrest ⊢
      obtain ⟨hexec, hall⟩ := serving_run _ hrest
      rw [hsome, hafter]
      exact Or.inr ⟨d, seg, _, rfl, hopens, hall, hexec⟩

theorem valid_of_parsed (a : TCPOverIPv4Adapter) {ds : List IPv4Datagram}
    (hds : ∀ d ∈ ds, Parsed d) : machine.Valid a ds := by
  induction ds generalizing a with
  | nil => trivial
  | cons d ds ih =>
    obtain ⟨hd, hrest⟩ := List.forall_mem_cons.mp hds
    exact ⟨hd, ih _ hrest⟩

/-- An adapter that starts to listen serves one connection, whatever datagrams come. -/
theorem one_connection (hlistening : a.listening = true) {ds : List IPv4Datagram}
    (hds : ∀ d ∈ ds, Parsed d) : Exclusive a a.config.source.port ds := by
  have hv := valid_of_parsed a hds
  have huntouched : ∀ before d rest, ds = before ++ d :: rest → ∃ out a',
      (machine.exec a before).unwrapTcpInIp d = .ok (out, a') ∧
        (out = none → a' = machine.exec a before) := by
    intro before d rest hsplit
    rw [hsplit] at hv
    exact unwrap_untouched hlistening hv
  rcases listening_delivered hlistening hv with hnone | ⟨d, seg, rest, hsome, hopens, hall, hexec⟩
  · refine ⟨?_, ?_, ?_, huntouched⟩
    · simp [hnone]
    · simp [hnone]
    · exact fun hne => absurd hnone hne
  · have hends : ∀ x ∈ delivered a ds, ends x.1 x.2 = ends d seg := by
      rw [hsome]
      exact List.forall_mem_cons.mpr ⟨rfl, hall⟩
    refine ⟨?_, ?_, ?_, huntouched⟩
    · intro d' seg' rest' heq
      rw [hsome] at heq
      cases heq
      exact hopens
    · intro x hx y hy
      rw [hends x hx, hends y hy]
    · intro _
      rw [hexec]
      rfl

/-- A SYN from a host to our port 80 at address 2. -/
def knock (src : UInt32) : IPv4Datagram :=
  (package src 2 ⟨{ sport := 9, dport := 80, syn := true }, []⟩).received

theorem one_connection_knocks :
    Exclusive ⟨⟨⟨some 0, 80⟩, {}⟩, true⟩ 80 [knock 1, knock 3] := by
  refine one_connection (a := ⟨⟨⟨some 0, 80⟩, {}⟩, true⟩) rfl ?_
  intro d hd
  have hread : ∀ src, Parsed (knock src) := by
    intro src
    exact ⟨_, IPv4Datagram.parse_encoded (package_readable ⟨by decide, by decide⟩ (by decide)) {}⟩
  rcases List.mem_cons.mp hd with rfl | hd
  · exact hread 1
  · rw [List.mem_singleton.mp hd]
    exact hread 3

end Sponge.TCPOverIPv4Adapter
