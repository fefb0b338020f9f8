import Sponge.IPv4Datagram
import Sponge.TCPSegment

/-!
TCP segments in IPv4 datagrams.
The segment's checksum covers the segment and a pseudo-header made of the IPv4
header's addresses, protocol and payload length; the datagram's checksum covers
the IPv4 header alone. A router on the way rewrites only the second one.
-/
namespace Sponge

open Octets

/-- A socket address, reduced to the IPv4 number it holds, if it holds one, and the port. -/
structure Address where
  ipv4 : Option UInt32 := some 0
  port : UInt16 := 0
  deriving DecidableEq, Repr

namespace Address

def ipv4Numeric (a : Address) : Except String UInt32 :=
  match a.ipv4 with
  | some ip => .ok ip
  | none => .error "ipv4_numeric called on non-IPV4 address"

def fromIpv4Numeric (ipAddress : UInt32) : Address := ⟨some ipAddress, 0⟩

end Address

namespace TCPHeader

def LENGTH : ℕ := 20

/-- The reads of `TCPHeader::parse`, which set every field. -/
def readFields (p : NetParser) : TCPHeader × NetParser :=
  let (sport, p) := p.u16
  let (dport, p) := p.u16
  let (seqno, p) := p.u32
  let (ackno, p) := p.u32
  let (doff, p) := p.u8
  let (flB, p) := p.u8
  let (win, p) := p.u16
  let (cksum, p) := p.u16
  let (uptr, p) := p.u16
  ({ sport, dport
     seqno := ⟨seqno⟩
     ackno := ⟨ackno⟩
     doff := doff >>> 4
     urg := flB &&& 0b00100000 != 0
     ack := flB &&& 0b00010000 != 0
     psh := flB &&& 0b00001000 != 0
     rst := flB &&& 0b00000100 != 0
     syn := flB &&& 0b00000010 != 0
     fin := flB &&& 0b00000001 != 0
     win, cksum, uptr }, p)

def parse (p : NetParser) : ParseResult × TCPHeader × NetParser :=
  let (h, p) := readFields p
  if h.doff < 5 then (.headerTooShort, h, p)
  else
    let p := p.removePrefix (h.doff.toNat * 4 - LENGTH)
    if p.error ≠ .noError then (p.error, h, p) else (.noError, h, p)

/-- The byte of flags. -/
def flB (h : TCPHeader) : UInt8 :=
  (if h.urg then 0b00100000 else 0) ||| (if h.ack then 0b00010000 else 0) |||
    (if h.psh then 0b00001000 else 0) ||| (if h.rst then 0b00000100 else 0) |||
    (if h.syn then 0b00000010 else 0) ||| (if h.fin then 0b00000001 else 0)

def beforeChecksum (h : TCPHeader) : List UInt8 :=
  NetUnparser.u16 h.sport ++ NetUnparser.u16 h.dport ++ NetUnparser.u32 h.seqno.rawValue ++
    NetUnparser.u32 h.ackno.rawValue ++ NetUnparser.u8 (h.doff <<< 4) ++ NetUnparser.u8 h.flB ++
    NetUnparser.u16 h.win

/-- The bytes of a header that passes the sanity check of `serialize`. -/
def bytes (h : TCPHeader) : List UInt8 :=
  resize (h.beforeChecksum ++ NetUnparser.u16 h.cksum ++ NetUnparser.u16 h.uptr)
    (4 * h.doff.toNat)

def serialize (h : TCPHeader) : Except String (List UInt8) :=
  if h.doff < 5 then .error "TCP header too short" else .ok h.bytes

/-- A data offset that counts the fields and fits its four bits. -/
def Fits (h : TCPHeader) : Prop := 5 ≤ h.doff ∧ h.doff ≤ 15

theorem Fits.doff_le {h : TCPHeader} (hf : h.Fits) : 5 ≤ h.doff.toNat ∧ h.doff.toNat ≤ 15 :=
  ⟨UInt8.le_iff_toNat_le.mp hf.1, UInt8.le_iff_toNat_le.mp hf.2⟩

theorem serialize_of_fits {h : TCPHeader} (hf : h.Fits) : h.serialize = .ok h.bytes :=
  if_neg (UInt8.not_lt.mpr hf.1)

@[simp] theorem beforeChecksum_length (h : TCPHeader) : h.beforeChecksum.length = 16 := by
  simp [beforeChecksum]

theorem bytes_eq {h : TCPHeader} (hf : h.Fits) :
    h.bytes = h.beforeChecksum ++ (NetUnparser.u16 h.cksum ++
      (NetUnparser.u16 h.uptr ++ List.replicate (4 * h.doff.toNat - 20) 0)) := by
  obtain ⟨hmin, -⟩ := hf.doff_le
  have hfields : (h.beforeChecksum ++ NetUnparser.u16 h.cksum ++
      NetUnparser.u16 h.uptr).length = 20 := by simp
  rw [bytes, resize_of_le (by omega), hfields]
  simp only [List.append_assoc]

theorem bytes_length {h : TCPHeader} (hf : h.Fits) : h.bytes.length = 4 * h.doff.toNat := by
  obtain ⟨hmin, -⟩ := hf.doff_le
  rw [bytes_eq hf]
  simp only [List.length_append, beforeChecksum_length, NetUnparser.u16_length,
    List.length_replicate]
  omega

theorem doff_shift {doff : UInt8} (h : doff ≤ 15) : (doff <<< 4) >>> 4 = doff := by
  refine Words.byte_le_cases h ?_
  decide

/-- Every flag is read back from its own bit. -/
theorem flB_bits (h : TCPHeader) :
    (h.flB &&& 0b00100000 != 0) = h.urg ∧ (h.flB &&& 0b00010000 != 0) = h.ack ∧
      (h.flB &&& 0b00001000 != 0) = h.psh ∧ (h.flB &&& 0b00000100 != 0) = h.rst ∧
      (h.flB &&& 0b00000010 != 0) = h.syn ∧ (h.flB &&& 0b00000001 != 0) = h.fin := by
  simp only [flB]
  generalize h.urg = urg, h.ack = ack, h.psh = psh, h.rst = rst, h.syn = syn, h.fin = fin
  revert urg ack psh rst syn fin
  decide

theorem readFields_bytes {h : TCPHeader} (hf : h.Fits) (rest : List UInt8) :
    readFields ⟨h.bytes ++ rest, .noError⟩ =
      (h, ⟨List.replicate (4 * h.doff.toNat - 20) 0 ++ rest, .noError⟩) := by
  obtain ⟨hurg, hack, hpsh, hrst, hsyn, hfin⟩ := flB_bits h
  rw [bytes_eq hf]
  simp only [readFields, beforeChecksum, List.append_assoc, NetParser.u8_unparse,
    NetParser.u16_unparse, NetParser.u32_unparse, doff_shift hf.2, hurg, hack, hpsh, hrst, hsyn,
    hfin]

/-- The header parser gives back a header that was written and leaves the payload. -/
theorem parse_bytes {h : TCPHeader} (hf : h.Fits) (rest : List UInt8) :
    parse ⟨h.bytes ++ rest, .noError⟩ = (.noError, h, ⟨rest, .noError⟩) := by
  have hskip := NetParser.removePrefix_append
    (List.length_replicate (n := 4 * h.doff.toNat - 20) (a := (0 : UInt8))) rest
  have hoptions : h.doff.toNat * 4 - LENGTH = 4 * h.doff.toNat - 20 := by
    rw [Nat.mul_comm, LENGTH]
  unfold parse
  rw [readFields_bytes hf]
  simp only
  rw [if_neg (UInt8.not_lt.mpr hf.1), hoptions, hskip, if_neg (by simp)]

end TCPHeader

namespace TCPSegment

def parse (seg : TCPSegment) (buffer : List UInt8) (datagramLayerChecksum : UInt32) :
    ParseResult × TCPSegment :=
  let check := ({ sum := datagramLayerChecksum } : InternetChecksum).add buffer
  if check.value ≠ 0 then (.badChecksum, seg)
  else
    let (_, header, p) := TCPHeader.parse ⟨buffer, .noError⟩
    (p.error, { header, payload := p.buffer })

def serialize (seg : TCPSegment) (datagramLayerChecksum : UInt32) :
    Except String BufferContents := do
  let headerZeroChecksum ← { seg.header with cksum := 0 }.serialize
  let check := (({ sum := datagramLayerChecksum } : InternetChecksum).add
    headerZeroChecksum).add seg.payload
  let headerOut ← { seg.header with cksum := check.value }.serialize
  return (BufferContents.ofBuffer headerOut).append (BufferContents.ofBuffer seg.payload)

/-- The segment with the checksum that `serialize` computes for it. -/
def checksummed (seg : TCPSegment) (datagramLayerChecksum : UInt32) : TCPSegment :=
  { seg with header := { seg.header with
      cksum := (({ sum := datagramLayerChecksum } : InternetChecksum).add
        ({ seg.header with cksum := 0 }.bytes ++ seg.payload)).value } }

theorem serialize_of_fits {seg : TCPSegment} (hf : seg.header.Fits) (pseudo : UInt32) :
    seg.serialize pseudo =
      .ok ((BufferContents.ofBuffer (seg.checksummed pseudo).header.bytes).append
        (BufferContents.ofBuffer seg.payload)) := by
  have hzero : ({ seg.header with cksum := 0 } : TCPHeader).serialize =
      .ok { seg.header with cksum := 0 }.bytes := TCPHeader.serialize_of_fits hf
  have hfull : (seg.checksummed pseudo).header.serialize =
      .ok (seg.checksummed pseudo).header.bytes := TCPHeader.serialize_of_fits hf
  rw [checksummed, ← InternetChecksum.add_append] at hfull
  simp only [serialize, hzero, bind, Except.bind, hfull]
  rw [checksummed, ← InternetChecksum.add_append]
  rfl

/-- The checksum over a segment that carries its own checksum is zero. -/
theorem checksummed_value {seg : TCPSegment} (hf : seg.header.Fits) (pseudo : UInt32) :
    (({ sum := pseudo } : InternetChecksum).add
      ((seg.checksummed pseudo).header.bytes ++ seg.payload)).value = 0 := by
  have hzero := TCPHeader.bytes_eq (show TCPHeader.Fits { seg.header with cksum := 0 } from hf)
  rw [TCPHeader.bytes_eq (show (seg.checksummed pseudo).header.Fits from hf)]
  simp only [List.append_assoc]
  apply InternetChecksum.value_self
  · rw [TCPHeader.beforeChecksum_length]
  · rw [checksummed, hzero]
    simp only [List.append_assoc]
    rfl

theorem parse_checksummed {seg : TCPSegment} (hf : seg.header.Fits) (pseudo : UInt32)
    (seg₀ : TCPSegment) :
    seg₀.parse ((seg.checksummed pseudo).header.bytes ++ seg.payload) pseudo =
      (.noError, seg.checksummed pseudo) := by
  have hcheck := checksummed_value hf pseudo
  have hparse := TCPHeader.parse_bytes (show (seg.checksummed pseudo).header.Fits from hf)
    seg.payload
  rw [parse]
  simp only [hcheck, hparse]
  rfl

end TCPSegment

structure FdAdapterConfig where
  source : Address := {}
  destination : Address := {}
  deriving DecidableEq, Repr

structure TCPOverIPv4Adapter where
  config : FdAdapterConfig := {}
  listening : Bool := false
  deriving DecidableEq, Repr

namespace TCPOverIPv4Adapter

/-- The part of `unwrap_tcp_in_ip` behind the check of the addresses. -/
def unwrapPayload (a : TCPOverIPv4Adapter) (ipDgram : IPv4Datagram) :
    Except String (Option TCPSegment × TCPOverIPv4Adapter) := do
  if ipDgram.header.proto ≠ IPv4Header.PROTO_TCP then return (none, a)
  let payload ← ipDgram.payload.toBuffer
  let (result, tcpSeg) := ({} : TCPSegment).parse payload ipDgram.header.pseudoCksum
  if result ≠ .noError then return (none, a)
  if tcpSeg.header.dport ≠ a.config.source.port then return (none, a)
  if a.listening && !(tcpSeg.header.syn && !tcpSeg.header.rst) then return (none, a)
  -- the first SYN decides who the peer is, and which of our addresses answers it
  let a := if a.listening then
      { config :=
          { source := ⟨some ipDgram.header.dst, a.config.source.port⟩
            destination := ⟨some ipDgram.header.src, tcpSeg.header.sport⟩ }
        listening := false }
    else a
  if tcpSeg.header.sport ≠ a.config.destination.port then return (none, a)
  return (some tcpSeg, a)

/-- The segment in a datagram for this connection, if there is one, and the adapter
afterwards. Where it throws, the adapter is unchanged. -/
def unwrapTcpInIp (a : TCPOverIPv4Adapter) (ipDgram : IPv4Datagram) :
    Except String (Option TCPSegment × TCPOverIPv4Adapter) :=
  if a.listening then a.unwrapPayload ipDgram
  else do
    let own ← a.config.source.ipv4Numeric
    if ipDgram.header.dst ≠ own then return (none, a)
    let peer ← a.config.destination.ipv4Numeric
    if ipDgram.header.src ≠ peer then return (none, a)
    a.unwrapPayload ipDgram

/-- The segment with the port numbers of the connection. -/
def addressed (a : TCPOverIPv4Adapter) (seg : TCPSegment) : TCPSegment :=
  { seg with header := { seg.header with
      sport := a.config.source.port, dport := a.config.destination.port } }

/-- The IPv4 header of a datagram from src to dst around a segment. -/
def carrier (src dst : UInt32) (seg : TCPSegment) : IPv4Header :=
  { src, dst
    len := UInt16.ofNat
      (({} : IPv4Header).hlen.toNat * 4 + seg.header.doff.toNat * 4 + seg.payload.length) }

/-- The segment with its ports set, and the datagram around it. -/
def wrapTcpInIp (a : TCPOverIPv4Adapter) (seg : TCPSegment) :
    Except String (TCPSegment × IPv4Datagram) := do
  let seg := a.addressed seg
  let src ← a.config.source.ipv4Numeric
  let dst ← a.config.destination.ipv4Numeric
  let header := carrier src dst seg
  let payload ← seg.serialize header.pseudoCksum
  return (seg, ⟨header, payload⟩)

end TCPOverIPv4Adapter

namespace IPv4Datagram

/-- One router on the way: parse, decrement the time to live, serialize. Nothing comes
out where the parser reports an error or the serializer throws. -/
def hop (packet : List UInt8) : Option (List UInt8) :=
  match ({} : IPv4Datagram).parse packet with
  | (.noError, d) =>
    match d.decrementTtl.serialize with
    | .ok out => some out.concatenate
    | .error _ => none
  | _ => none

def hops : ℕ → List UInt8 → Option (List UInt8)
  | 0, packet => some packet
  | k + 1, packet => (hop packet).bind (hops k)

/-- The datagram d' is d up to the time to live, the header checksum, and the pieces of
the payload. -/
def Forwarded (d d' : IPv4Datagram) : Prop :=
  d'.header = { d.header with ttl := d'.header.ttl, cksum := d'.header.cksum } ∧
    d'.payload.concatenate = d.payload.concatenate

theorem Forwarded.trans {d d' d'' : IPv4Datagram} (h : Forwarded d d') (h' : Forwarded d' d'') :
    Forwarded d d'' := by
  obtain ⟨hheader, hpayload⟩ := h
  obtain ⟨hheader', hpayload'⟩ := h'
  refine ⟨?_, hpayload'.trans hpayload⟩
  rw [hheader] at hheader'
  exact hheader'

theorem hop_wire {d : IPv4Datagram} (hd : d.Readable) :
    ∃ d' : IPv4Datagram, d'.Readable ∧ Forwarded d d' ∧
      hop d.encoded.concatenate = some d'.encoded.concatenate := by
  have hparse := parse_encoded hd {}
  have hpayload : d.received.decrementTtl.payload.concatenate = d.payload.concatenate :=
    BufferContents.concatenate_ofBuffer _
  have hreadable : d.received.decrementTtl.Readable :=
    { sendable := hd.sendable
      size_eq := by
        rw [BufferContents.size_eq, hpayload, ← BufferContents.size_eq]
        exact hd.size_eq
      fits := hd.fits
      covers := hd.covers }
  refine ⟨_, hreadable, ⟨rfl, hpayload⟩, ?_⟩
  rw [hop, hparse]
  simp only [serialize_of_wellFormed hreadable.toWellFormed]

theorem hops_wire {d : IPv4Datagram} (hd : d.Readable) (k : ℕ) :
    ∃ d' : IPv4Datagram, d'.Readable ∧ Forwarded d d' ∧
      hops k d.encoded.concatenate = some d'.encoded.concatenate := by
  induction k generalizing d with
  | zero => exact ⟨d, hd, ⟨rfl, rfl⟩, rfl⟩
  | succ k ih =>
    obtain ⟨d', hd', hforward, hhop⟩ := hop_wire hd
    obtain ⟨d'', hd'', hforward', hhops⟩ := ih hd'
    refine ⟨d'', hd'', hforward.trans hforward', ?_⟩
    rw [hops, hhop, Option.bind_some, hhops]

end IPv4Datagram

namespace TCPOverIPv4Adapter

variable {x y : TCPOverIPv4Adapter} {src dst : UInt32} {seg : TCPSegment}

theorem carrier_payloadLength (hsize : 4 * seg.header.doff.toNat + seg.payload.length ≤ 65515) :
    (carrier src dst seg).payloadLength.toNat =
      4 * seg.header.doff.toNat + seg.payload.length := by
  have hhlen : ({} : IPv4Header).hlen.toNat * 4 = 20 := rfl
  have hlen : (carrier src dst seg).len.toNat =
      20 + seg.header.doff.toNat * 4 + seg.payload.length := by
    rw [carrier, hhlen, UInt16.toNat_ofNat', Nat.mod_eq_of_lt (by omega)]
  have hoctets : (4 * (carrier src dst seg).hlen.toUInt16).toNat = 20 := rfl
  rw [IPv4Header.payloadLength, UInt16.toNat_sub, hlen, hoctets]
  omega

/-- The segment with the checksum over the pseudo-header of the datagram around it. -/
def sealed (src dst : UInt32) (seg : TCPSegment) : TCPSegment :=
  seg.checksummed (carrier src dst seg).pseudoCksum

/-- The datagram around a segment. -/
def package (src dst : UInt32) (seg : TCPSegment) : IPv4Datagram :=
  ⟨carrier src dst seg, (BufferContents.ofBuffer (sealed src dst seg).header.bytes).append
    (BufferContents.ofBuffer seg.payload)⟩

theorem wrapTcpInIp_eq (hsrc : x.config.source.ipv4 = some src)
    (hdst : x.config.destination.ipv4 = some dst) (hf : seg.header.Fits) :
    x.wrapTcpInIp seg = .ok (x.addressed seg, package src dst (x.addressed seg)) := by
  have hserialize := TCPSegment.serialize_of_fits (show (x.addressed seg).header.Fits from hf)
    (carrier src dst (x.addressed seg)).pseudoCksum
  simp only [wrapTcpInIp, Address.ipv4Numeric, hsrc, hdst, bind, Except.bind, hserialize]
  rfl

/-- The mirrored adapter takes the segment out of every datagram that carries its bytes. -/
theorem unwrapTcpInIp_eq (hy : y.listening = false) (hown : y.config.source.ipv4 = some dst)
    (hpeer : y.config.destination.ipv4 = some src)
    (hdport : seg.header.dport = y.config.source.port)
    (hsport : seg.header.sport = y.config.destination.port)
    (hf : seg.header.Fits) {d : IPv4Datagram}
    (hheader : d.header = { carrier src dst seg with ttl := d.header.ttl, cksum := d.header.cksum })
    (hpayload : d.payload.toBuffer = .ok ((sealed src dst seg).header.bytes ++ seg.payload)) :
    y.unwrapTcpInIp d = .ok (some (sealed src dst seg), y) := by
  have hpseudo : d.header.pseudoCksum = (carrier src dst seg).pseudoCksum := by
    rw [hheader]
    rfl
  have hproto : d.header.proto = IPv4Header.PROTO_TCP := by
    rw [hheader]
    rfl
  have hdst : d.header.dst = dst := by
    rw [hheader]
    rfl
  have hsrc : d.header.src = src := by
    rw [hheader]
    rfl
  have hparse : ({} : TCPSegment).parse ((sealed src dst seg).header.bytes ++ seg.payload)
      (carrier src dst seg).pseudoCksum = (.noError, sealed src dst seg) :=
    TCPSegment.parse_checksummed hf _ {}
  have hdport' : (sealed src dst seg).header.dport = y.config.source.port := hdport
  have hsport' : (sealed src dst seg).header.sport = y.config.destination.port := hsport
  simp [unwrapTcpInIp, unwrapPayload, hy, Address.ipv4Numeric, hown, hpeer, hdst, hsrc, hproto,
    hpayload, hpseudo, hparse, hdport', hsport', bind, Except.bind, pure, Except.pure]

theorem package_readable (hf : seg.header.Fits)
    (hsize : 4 * seg.header.doff.toNat + seg.payload.length ≤ 65515) :
    (package src dst seg).Readable where
  sendable := ⟨rfl, show (5 : UInt8) ≤ 5 by decide⟩
  size_eq := by
    have hbytes := TCPHeader.bytes_length (show (sealed src dst seg).header.Fits from hf)
    rw [package, BufferContents.size_eq, BufferContents.concatenate_append,
      BufferContents.concatenate_ofBuffer, BufferContents.concatenate_ofBuffer, List.length_append,
      hbytes, carrier_payloadLength hsize]
    rfl
  fits := ⟨show (5 : UInt8) ≤ 15 by decide, show (0 : UInt16) < 8192 by decide⟩
  covers := Or.inl rfl

/-- A segment survives the stack: wrapped by one adapter, carried over any number of
routers and unwrapped by the mirrored adapter, it is the same segment up to its
checksum and the port numbers of the connection. -/
theorem segment_survives {x y : TCPOverIPv4Adapter} {src dst : UInt32}
    (hy : y.listening = false) (hsource : x.config.source = y.config.destination)
    (hdestination : x.config.destination = y.config.source)
    (hsrc : x.config.source.ipv4 = some src) (hdst : x.config.destination.ipv4 = some dst)
    {seg : TCPSegment} (hmin : 5 ≤ seg.header.doff) (hmax : seg.header.doff ≤ 15)
    (hsize : 4 * seg.header.doff.toNat + seg.payload.length ≤ 65515) (k : ℕ) :
    ∃ seg' dgram out packet dgram' cksum,
      x.wrapTcpInIp seg = .ok (seg', dgram) ∧ dgram.serialize = .ok out ∧
        IPv4Datagram.hops k out.concatenate = some packet ∧
        ({} : IPv4Datagram).parse packet = (.noError, dgram') ∧
        y.unwrapTcpInIp dgram' = .ok (some { seg with header := { seg.header with
          sport := x.config.source.port, dport := y.config.source.port, cksum } }, y) := by
  have hf : (x.addressed seg).header.Fits := ⟨hmin, hmax⟩
  have hreadable : (package src dst (x.addressed seg)).Readable := package_readable hf hsize
  obtain ⟨d, hd, ⟨hheader, hpayload⟩, hhops⟩ := IPv4Datagram.hops_wire hreadable k
  have hbytes : d.received.payload.toBuffer =
      .ok ((sealed src dst (x.addressed seg)).header.bytes ++ (x.addressed seg).payload) := by
    rw [IPv4Datagram.received, BufferContents.toBuffer_ofBuffer, hpayload, package,
      BufferContents.concatenate_append, BufferContents.concatenate_ofBuffer,
      BufferContents.concatenate_ofBuffer]
  have hunwrap := unwrapTcpInIp_eq hy (hdestination ▸ hdst) (hsource ▸ hsrc)
    (congrArg Address.port hdestination) (congrArg Address.port hsource) hf
    (show d.received.header = { carrier src dst (x.addressed seg) with
      ttl := d.received.header.ttl, cksum := d.received.header.cksum } by
        rw [IPv4Datagram.received, IPv4Header.checksummed, hheader]
        rfl) hbytes
  refine ⟨_, _, _, _, _, (sealed src dst (x.addressed seg)).header.cksum,
    wrapTcpInIp_eq hsrc hdst hf, IPv4Datagram.serialize_of_wellFormed hreadable.toWellFormed,
    hhops, IPv4Datagram.parse_encoded hd {}, ?_⟩
  rw [hunwrap, ← hdestination]
  rfl

theorem segment_survives_three_hops :
    ∃ seg' dgram out packet dgram' cksum,
      (⟨⟨⟨some 1, 1000⟩, ⟨some 2, 80⟩⟩, false⟩ : TCPOverIPv4Adapter).wrapTcpInIp
          { header := { doff := 6, syn := true }, payload := [7, 8, 9] } = .ok (seg', dgram) ∧
        dgram.serialize = .ok out ∧
        IPv4Datagram.hops 3 out.concatenate = some packet ∧
        ({} : IPv4Datagram).parse packet = (.noError, dgram') ∧
        (⟨⟨⟨some 2, 80⟩, ⟨some 1, 1000⟩⟩, false⟩ : TCPOverIPv4Adapter).unwrapTcpInIp dgram' =
          .ok (some { header := { sport := 1000, dport := 80, doff := 6, syn := true, cksum }
                      payload := [7, 8, 9] }, ⟨⟨⟨some 2, 80⟩, ⟨some 1, 1000⟩⟩, false⟩) :=
  segment_survives rfl rfl rfl rfl rfl (by decide) (by decide) (by decide) 3

end TCPOverIPv4Adapter

end Sponge
