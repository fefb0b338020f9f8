import Sponge.NetParser

/-!
IPv4 headers and datagrams, and what survives serializing and parsing.
`IPv4Datagram.parse` does not look at the result of the header's own parser: it
asks only for the right payload size and for a parser without an error.
-/
namespace Sponge

open Octets

structure IPv4Header where
  ver : UInt8 := 4
  hlen : UInt8 := 5
  tos : UInt8 := 0
  len : UInt16 := 0
  id : UInt16 := 0
  df : Bool := true
  mf : Bool := false
  offset : UInt16 := 0
  ttl : UInt8 := 128
  proto : UInt8 := 6
  cksum : UInt16 := 0
  src : UInt32 := 0
  dst : UInt32 := 0
  deriving DecidableEq, Repr

namespace IPv4Header

def LENGTH : ℕ := 20

def PROTO_TCP : UInt8 := 6

/-- The reads of `IPv4Header::parse`, which set every field. -/
def readFields (p : NetParser) : IPv4Header × NetParser :=
  let (firstByte, p) := p.u8
  let (tos, p) := p.u8
  let (len, p) := p.u16
  let (id, p) := p.u16
  let (foVal, p) := p.u16
  let (ttl, p) := p.u8
  let (proto, p) := p.u8
  let (cksum, p) := p.u16
  let (src, p) := p.u32
  let (dst, p) := p.u32
  ({ ver := firstByte >>> 4
     hlen := firstByte &&& 0x0f
     tos, len, id
     df := foVal &&& 0x4000 != 0
     mf := foVal &&& 0x2000 != 0
     offset := foVal &&& 0x1fff
     ttl, proto, cksum, src, dst }, p)

/-- Parsing into the header h: the result, the new header, and the parser afterwards. -/
def parse (h : IPv4Header) (p : NetParser) : ParseResult × IPv4Header × NetParser :=
  let dataSize := p.buffer.length
  if dataSize < LENGTH then (.packetTooShort, h, p)
  else
    let (h, q) := readFields p
    if dataSize < 4 * h.hlen.toNat then (.packetTooShort, h, q)
    else if h.ver ≠ 4 then (.wrongIPVersion, h, q)
    else if h.hlen < 5 then (.headerTooShort, h, q)
    else if dataSize ≠ h.len.toNat then (.truncatedPacket, h, q)
    else
      let q := q.removePrefix (h.hlen.toNat * 4 - LENGTH)
      if q.error ≠ .noError then (q.error, h, q)
      else if (({} : InternetChecksum).add (p.buffer.take (4 * h.hlen.toNat))).value ≠ 0 then
        (.badChecksum, h, q)
      else (.noError, h, q)

/-- The flags and the fragment offset in one word. -/
def foVal (h : IPv4Header) : UInt16 :=
  (if h.df then 0x4000 else 0) ||| (if h.mf then 0x2000 else 0) ||| (h.offset &&& 0x1fff)

def beforeChecksum (h : IPv4Header) : List UInt8 :=
  NetUnparser.u8 ((h.ver <<< 4) ||| (h.hlen &&& 0xf)) ++ NetUnparser.u8 h.tos ++
    NetUnparser.u16 h.len ++ NetUnparser.u16 h.id ++ NetUnparser.u16 h.foVal ++
    NetUnparser.u8 h.ttl ++ NetUnparser.u8 h.proto

def addresses (h : IPv4Header) : List UInt8 :=
  NetUnparser.u32 h.src ++ NetUnparser.u32 h.dst

/-- The bytes of a header that passes the sanity checks of `serialize`. -/
def bytes (h : IPv4Header) : List UInt8 :=
  resize (h.beforeChecksum ++ NetUnparser.u16 h.cksum ++ h.addresses) (4 * h.hlen.toNat)

def serialize (h : IPv4Header) : Except String (List UInt8) :=
  if h.ver ≠ 4 then .error "wrong IP version"
  else if 4 * h.hlen.toNat < LENGTH then .error "IP header too short"
  else .ok h.bytes

def payloadLength (h : IPv4Header) : UInt16 := h.len - 4 * h.hlen.toUInt16

def pseudoCksum (h : IPv4Header) : UInt32 :=
  ((h.src >>> 16) + (h.src &&& (0xffff : UInt32))) +
    ((h.dst >>> 16) + (h.dst &&& (0xffff : UInt32))) +
    h.proto.toUInt32 + h.payloadLength.toUInt32

/-- The pseudo-header is a sum of six numbers below 2^16, one of them a byte. -/
theorem pseudoCksum_le (h : IPv4Header) : h.pseudoCksum.toNat ≤ 327930 := by
  have hhigh : ∀ ip : UInt32, (ip >>> 16).toNat ≤ 65535 := by
    intro ip
    have hip := ip.toNat_lt
    rw [UInt32.toNat_shiftRight, Nat.shiftRight_eq_div_pow]
    exact Nat.le_of_lt_succ (Nat.div_lt_of_lt_mul hip)
  have hlow : ∀ ip : UInt32, (ip &&& 0xffff).toNat ≤ 65535 := by
    intro ip
    rw [UInt32.toNat_and]
    exact Nat.and_le_right
  have hsrc := hhigh h.src
  have hsrc' := hlow h.src
  have hdst := hhigh h.dst
  have hdst' := hlow h.dst
  have hproto := h.proto.toNat_lt
  have hlen := h.payloadLength.toNat_lt
  simp only [pseudoCksum, UInt32.toNat_add, UInt8.toNat_toUInt32, UInt16.toNat_toUInt32]
  omega

/-- The header with the checksum that `IPv4Datagram::serialize` computes for it. -/
def checksummed (h : IPv4Header) : IPv4Header :=
  { h with cksum := (({} : InternetChecksum).add { h with cksum := 0 }.bytes).value }

/-- A header that `serialize` writes out. -/
def Sendable (h : IPv4Header) : Prop := h.ver = 4 ∧ 5 ≤ h.hlen

instance (h : IPv4Header) : Decidable h.Sendable :=
  inferInstanceAs (Decidable (_ ∧ _))

/-- Fields that fit the bits they are written to. -/
def Fits (h : IPv4Header) : Prop := h.hlen ≤ 15 ∧ h.offset < 8192

instance (h : IPv4Header) : Decidable h.Fits :=
  inferInstanceAs (Decidable (_ ∧ _))

theorem Sendable.hlen_le {h : IPv4Header} (hs : h.Sendable) : 20 ≤ 4 * h.hlen.toNat := by
  have hhlen := UInt8.le_iff_toNat_le.mp hs.2
  have hfive : (5 : UInt8).toNat = 5 := rfl
  omega

theorem serialize_of_sendable {h : IPv4Header} (hs : h.Sendable) :
    h.serialize = .ok h.bytes := by
  have hhlen := hs.hlen_le
  rw [serialize, if_neg (by simp [hs.1]), if_neg (by simp only [LENGTH]; omega)]

theorem serialize_of_not_sendable {h : IPv4Header} (hs : ¬ h.Sendable) :
    ∃ e, h.serialize = .error e := by
  unfold serialize
  by_cases hver : h.ver = 4
  · have hhlen : ¬ 5 ≤ h.hlen := fun hle => hs ⟨hver, hle⟩
    have hlt := UInt8.lt_iff_toNat_lt.mp (UInt8.not_le.mp hhlen)
    have hfive : (5 : UInt8).toNat = 5 := rfl
    have hshort : 4 * h.hlen.toNat < LENGTH := by
      rw [LENGTH]
      omega
    exact ⟨_, by rw [if_neg (not_not_intro hver), if_pos hshort]⟩
  · exact ⟨_, if_pos hver⟩

@[simp] theorem beforeChecksum_length (h : IPv4Header) : h.beforeChecksum.length = 10 := by
  simp [beforeChecksum]

@[simp] theorem addresses_length (h : IPv4Header) : h.addresses.length = 8 := by
  simp [addresses]

/-- The written header: the fields, with the checksum in the middle, and zeros for the options. -/
theorem bytes_eq {h : IPv4Header} (hs : h.Sendable) :
    h.bytes = h.beforeChecksum ++ (NetUnparser.u16 h.cksum ++
      (h.addresses ++ List.replicate (4 * h.hlen.toNat - 20) 0)) := by
  have hhlen := hs.hlen_le
  rw [bytes, resize_of_le (by simpa using hhlen)]
  simp

theorem bytes_length {h : IPv4Header} (hs : h.Sendable) : h.bytes.length = 4 * h.hlen.toNat := by
  have hhlen := hs.hlen_le
  rw [bytes_eq hs]
  simp
  omega

theorem or_and_mask (a b mask : UInt16) : (a ||| b) &&& mask = (a &&& mask) ||| (b &&& mask) := by
  apply UInt16.toBitVec_inj.mp
  apply BitVec.eq_of_getLsbD_eq
  intro i hi
  simp [Bool.and_or_distrib_right]

theorem foVal_and (h : IPv4Header) {mask : UInt16} (hmask : 0x1fff &&& mask = 0) :
    h.foVal &&& mask =
      ((if h.df then 0x4000 else 0) ||| (if h.mf then 0x2000 else 0)) &&& mask := by
  rw [foVal, or_and_mask, UInt16.and_assoc, hmask, UInt16.and_zero, UInt16.or_zero]

theorem foVal_df (h : IPv4Header) : (h.foVal &&& 0x4000 != 0) = h.df := by
  rw [foVal_and h rfl]
  cases h.df <;> cases h.mf <;> rfl

theorem foVal_mf (h : IPv4Header) : (h.foVal &&& 0x2000 != 0) = h.mf := by
  rw [foVal_and h rfl]
  cases h.df <;> cases h.mf <;> rfl

theorem foVal_offset {h : IPv4Header} (hf : h.Fits) : h.foVal &&& 0x1fff = h.offset := by
  have hlow : h.offset &&& 0x1fff = h.offset := by
    apply UInt16.toNat_inj.mp
    rw [UInt16.toNat_and]
    exact (Nat.and_two_pow_sub_one_eq_mod h.offset.toNat 13).trans
      (Nat.mod_eq_of_lt (UInt16.lt_iff_toNat_lt.mp hf.2))
  have hflags : ((if h.df then 0x4000 else 0) ||| (if h.mf then 0x2000 else 0)) &&& 0x1fff =
      (0 : UInt16) := by
    cases h.df <;> cases h.mf <;> rfl
  rw [foVal, or_and_mask, hflags, hlow, hlow, UInt16.zero_or]

/-- Two half bytes come back from the byte that holds both. -/
theorem nibbles {low : UInt8} (h : low ≤ 15) :
    (((4 : UInt8) <<< 4) ||| (low &&& 0xf)) >>> 4 = 4 ∧
      (((4 : UInt8) <<< 4) ||| (low &&& 0xf)) &&& 0x0f = low := by
  refine Words.byte_le_cases h ?_
  decide

theorem readFields_bytes {h : IPv4Header} (hs : h.Sendable) (hf : h.Fits) (rest : List UInt8) :
    readFields ⟨h.bytes ++ rest, .noError⟩ =
      (h, ⟨List.replicate (4 * h.hlen.toNat - 20) 0 ++ rest, .noError⟩) := by
  obtain ⟨hver, hhlen⟩ := nibbles hf.1
  rw [bytes_eq hs]
  simp only [readFields, beforeChecksum, addresses, List.append_assoc, NetParser.u8_unparse,
    NetParser.u16_unparse, NetParser.u32_unparse, foVal_df, foVal_mf, foVal_offset hf, hs.1,
    hver, hhlen]
  obtain ⟨ver, hlen, tos, len, id, df, mf, offset, ttl, proto, cksum, src, dst⟩ := h
  simp only [Prod.mk.injEq, mk.injEq, and_true]
  exact hs.1.symm

theorem checksummed_sendable {h : IPv4Header} (hs : h.Sendable) : h.checksummed.Sendable := hs

theorem checksummed_fits {h : IPv4Header} (hf : h.Fits) : h.checksummed.Fits := hf

/-- The checksum over a header that carries its own checksum is zero. -/
theorem checksummed_value {h : IPv4Header} (hs : h.Sendable) :
    (({} : InternetChecksum).add h.checksummed.bytes).value = 0 := by
  have hzero := bytes_eq (show Sendable { h with cksum := 0 } from hs)
  rw [bytes_eq (checksummed_sendable hs)]
  apply InternetChecksum.value_self
  · rw [beforeChecksum_length]
  · rw [checksummed, hzero]
    rfl

/-- The header parser accepts a header with a right checksum and leaves the payload. -/
theorem parse_bytes {h : IPv4Header} (hs : h.Sendable) (hf : h.Fits) {rest : List UInt8}
    (hcheck : (({} : InternetChecksum).add h.bytes).value = 0)
    (hlen : 4 * h.hlen.toNat + rest.length = h.len.toNat) (h₀ : IPv4Header) :
    parse h₀ ⟨h.bytes ++ rest, .noError⟩ = (.noError, h, ⟨rest, .noError⟩) := by
  have hhlen := hs.hlen_le
  have hlength := bytes_length hs
  have hsize : (h.bytes ++ rest).length = h.len.toNat := by
    rw [List.length_append, hlength, hlen]
  have hskip := NetParser.removePrefix_append
    (List.length_replicate (n := 4 * h.hlen.toNat - 20) (a := (0 : UInt8))) rest
  have hoptions : h.hlen.toNat * 4 - LENGTH = 4 * h.hlen.toNat - 20 := by
    rw [Nat.mul_comm, LENGTH]
  unfold parse
  rw [hsize, if_neg (by rw [LENGTH]; omega), readFields_bytes hs hf]
  simp only
  rw [if_neg (by omega), if_neg (by simp [hs.1]), if_neg (UInt8.not_lt.mpr hs.2),
    if_neg (by simp), hoptions, hskip, if_neg (by simp), List.take_left' hlength,
    if_neg (by simp [hcheck])]

/-- Where the size of the packet is not the total length, the options are not skipped. -/
theorem parse_bytes_truncated {h : IPv4Header} (hs : h.Sendable) (hf : h.Fits) {rest : List UInt8}
    (hlen : 4 * h.hlen.toNat + rest.length ≠ h.len.toNat) (h₀ : IPv4Header) :
    parse h₀ ⟨h.bytes ++ rest, .noError⟩ = (.truncatedPacket, h,
      ⟨List.replicate (4 * h.hlen.toNat - 20) 0 ++ rest, .noError⟩) := by
  have hhlen := hs.hlen_le
  have hsize : (h.bytes ++ rest).length = 4 * h.hlen.toNat + rest.length := by
    rw [List.length_append, bytes_length hs]
  unfold parse
  rw [hsize, if_neg (by rw [LENGTH]; omega), readFields_bytes hs hf]
  simp only
  rw [if_neg (by omega), if_neg (by simp [hs.1]), if_neg (UInt8.not_lt.mpr hs.2), if_pos hlen]

theorem readFields_first (b : UInt8) (rest : List UInt8) :
    (readFields ⟨b :: rest, .noError⟩).1.ver = b >>> 4 ∧
      (readFields ⟨b :: rest, .noError⟩).1.hlen = b &&& 0x0f := by
  simp only [readFields, NetParser.u8_cons, and_self]

theorem readFields_ttl {h : IPv4Header} (hs : h.Sendable) (rest : List UInt8) :
    (readFields ⟨h.bytes ++ rest, .noError⟩).1.ttl = h.ttl := by
  rw [bytes_eq hs]
  simp only [readFields, beforeChecksum, addresses, List.append_assoc, NetParser.u8_unparse,
    NetParser.u16_unparse, NetParser.u32_unparse]

/-- Whatever the header parser reports, it has read the fields; all it may do besides is
to skip the options. -/
theorem parse_rule (h₀ : IPv4Header) {p : NetParser} (hsize : LENGTH ≤ p.buffer.length) :
    (parse h₀ p).2 = readFields p ∨
      (parse h₀ p).2 = ((readFields p).1,
        (readFields p).2.removePrefix ((readFields p).1.hlen.toNat * 4 - LENGTH)) := by
  unfold parse
  rw [if_neg (Nat.not_lt.mpr hsize)]
  obtain ⟨h, q⟩ := readFields p
  simp only
  split
  · exact Or.inl rfl
  · split
    · exact Or.inl rfl
    · split
      · exact Or.inl rfl
      · split
        · exact Or.inl rfl
        · right
          split
          · rfl
          · split <;> rfl

/-- A header without options is read and the payload left, even where the parser reports
an error. -/
theorem parse_bytes_plain {h : IPv4Header} (hs : h.Sendable) (hf : h.Fits) (hplain : h.hlen = 5)
    (rest : List UInt8) (h₀ : IPv4Header) :
    (parse h₀ ⟨h.bytes ++ rest, .noError⟩).2 = (h, ⟨rest, .noError⟩) := by
  have hhlen : h.hlen.toNat = 5 := by rw [hplain]; rfl
  have hfields : readFields ⟨h.bytes ++ rest, .noError⟩ = (h, ⟨rest, .noError⟩) := by
    rw [readFields_bytes hs hf rest, hhlen]
    rfl
  have hsize : LENGTH ≤ (h.bytes ++ rest).length := by
    rw [List.length_append, bytes_length hs, hhlen, LENGTH]
    omega
  rcases parse_rule h₀ (p := ⟨h.bytes ++ rest, .noError⟩) hsize with hstop | hskip
  · rw [hstop, hfields]
  · rw [hskip, hfields, hhlen]
    exact congrArg (Prod.mk h) (@NetParser.removePrefix_append [] 0 rfl rest)

end IPv4Header

structure IPv4Datagram where
  header : IPv4Header := {}
  payload : BufferContents := {}
  deriving DecidableEq, Repr

namespace IPv4Datagram

def parse (d : IPv4Datagram) (buffer : List UInt8) : ParseResult × IPv4Datagram :=
  let (_, header, p) := d.header.parse ⟨buffer, .noError⟩
  let payload := BufferContents.ofBuffer p.buffer
  if payload.size ≠ header.payloadLength.toNat then (.packetTooShort, ⟨header, payload⟩)
  else (p.error, ⟨header, payload⟩)

def serialize (d : IPv4Datagram) : Except String BufferContents :=
  if d.payload.size ≠ d.header.payloadLength.toNat then
    .error "IPv4Datagram::serialize: payload is wrong size"
  else do
    let headerZeroChecksum ← { d.header with cksum := 0 }.serialize
    let check := ({} : InternetChecksum).add headerZeroChecksum
    let headerOut ← { d.header with cksum := check.value }.serialize
    return (BufferContents.ofBuffer headerOut).append d.payload

def decrementTtl (d : IPv4Datagram) : IPv4Datagram :=
  { d with header := { d.header with ttl := d.header.ttl - 1 } }

/-- A datagram that `serialize` writes out. -/
structure WellFormed (d : IPv4Datagram) : Prop where
  sendable : d.header.Sendable
  size_eq : d.payload.size = d.header.payloadLength.toNat

instance (d : IPv4Datagram) : Decidable d.WellFormed :=
  decidable_of_iff (d.header.Sendable ∧ d.payload.size = d.header.payloadLength.toNat)
    ⟨fun h => ⟨h.1, h.2⟩, fun h => ⟨h.1, h.2⟩⟩

/-- What a well-formed datagram is serialized to. -/
def encoded (d : IPv4Datagram) : BufferContents :=
  (BufferContents.ofBuffer d.header.checksummed.bytes).append d.payload

theorem encoded_concatenate (d : IPv4Datagram) :
    d.encoded.concatenate = d.header.checksummed.bytes ++ d.payload.concatenate := by
  rw [encoded, BufferContents.concatenate_append, BufferContents.concatenate_ofBuffer]

theorem serialize_of_wellFormed {d : IPv4Datagram} (hd : d.WellFormed) :
    d.serialize = .ok d.encoded := by
  have hzero : ({ d.header with cksum := 0 } : IPv4Header).serialize =
      .ok { d.header with cksum := 0 }.bytes := IPv4Header.serialize_of_sendable hd.sendable
  have hfull : d.header.checksummed.serialize = .ok d.header.checksummed.bytes :=
    IPv4Header.serialize_of_sendable hd.sendable
  rw [IPv4Header.checksummed] at hfull
  rw [serialize, if_neg (by simp [hd.size_eq]), hzero]
  simp only [bind, Except.bind, hfull]
  rfl

/-- A datagram whose header also fits its bits, and whose total length covers the header.
Without options the length is not looked at. -/
structure Readable (d : IPv4Datagram) : Prop extends d.WellFormed where
  fits : d.header.Fits
  covers : d.header.hlen = 5 ∨ 4 * d.header.hlen.toNat ≤ d.header.len.toNat

instance (d : IPv4Datagram) : Decidable d.Readable :=
  decidable_of_iff (d.WellFormed ∧ d.header.Fits ∧
      (d.header.hlen = 5 ∨ 4 * d.header.hlen.toNat ≤ d.header.len.toNat))
    ⟨fun h => ⟨h.1, h.2.1, h.2.2⟩, fun h => ⟨h.toWellFormed, h.fits, h.covers⟩⟩

/-- The datagram a receiver makes of the bytes of d: the checksum is filled in, and the
payload is in one piece. -/
def received (d : IPv4Datagram) : IPv4Datagram :=
  ⟨d.header.checksummed, BufferContents.ofBuffer d.payload.concatenate⟩

theorem Readable.total {d : IPv4Datagram} (hd : d.Readable)
    (hcovers : 4 * d.header.hlen.toNat ≤ d.header.len.toNat) :
    4 * d.header.hlen.toNat + d.payload.concatenate.length = d.header.len.toNat := by
  have hhlen : d.header.hlen.toNat ≤ 15 := UInt8.le_iff_toNat_le.mp hd.fits.1
  have hlen := d.header.len.toNat_lt
  have hoctets : (4 * d.header.hlen.toUInt16).toNat = 4 * d.header.hlen.toNat := by
    rw [UInt16.toNat_mul, UInt8.toNat_toUInt16]
    have hfour : (4 : UInt16).toNat = 4 := rfl
    rw [hfour]
    omega
  have hsize := hd.size_eq
  rw [BufferContents.size_eq, IPv4Header.payloadLength, UInt16.toNat_sub, hoctets] at hsize
  omega

/-- Whoever parses the bytes of a readable datagram receives it, without an error. -/
theorem parse_encoded {d : IPv4Datagram} (hd : d.Readable) (d₀ : IPv4Datagram) :
    d₀.parse d.encoded.concatenate = (.noError, d.received) := by
  have hparse : (d₀.header.parse
      ⟨d.header.checksummed.bytes ++ d.payload.concatenate, .noError⟩).2 =
      (d.header.checksummed, ⟨d.payload.concatenate, .noError⟩) := by
    rcases hd.covers with hplain | hcovers
    · exact IPv4Header.parse_bytes_plain (IPv4Header.checksummed_sendable hd.sendable)
        (IPv4Header.checksummed_fits hd.fits) hplain _ _
    · rw [IPv4Header.parse_bytes (IPv4Header.checksummed_sendable hd.sendable)
        (IPv4Header.checksummed_fits hd.fits)
        (IPv4Header.checksummed_value hd.sendable) (hd.total hcovers)]
  have hsize : (BufferContents.ofBuffer d.payload.concatenate).size =
      d.header.checksummed.payloadLength.toNat := by
    rw [BufferContents.size_eq, BufferContents.concatenate_ofBuffer, ← BufferContents.size_eq]
    exact hd.size_eq
  rw [encoded_concatenate]
  simp only [parse, hparse]
  rw [if_neg (by simp [hsize])]
  rfl

/-- With options and a total length that does not cover the header, the size of the payload
wraps, and the receiver takes the options for payload and finds the size wrong. -/
theorem parse_encoded_of_short {d : IPv4Datagram} (hd : d.WellFormed) (hf : d.header.Fits)
    (hoptions : 5 < d.header.hlen.toNat)
    (hlen : d.header.len.toNat < 4 * d.header.hlen.toNat) (d₀ : IPv4Datagram) :
    (d₀.parse d.encoded.concatenate).1 = .packetTooShort := by
  have hparse := IPv4Header.parse_bytes_truncated (IPv4Header.checksummed_sendable hd.sendable)
    (IPv4Header.checksummed_fits hf)
    (show 4 * d.header.hlen.toNat + d.payload.concatenate.length ≠ d.header.len.toNat by omega)
    d₀.header
  have hsize : d.payload.concatenate.length = d.header.checksummed.payloadLength.toNat := by
    rw [← BufferContents.size_eq]
    exact hd.size_eq
  have hoptions' : 5 < d.header.checksummed.hlen.toNat := hoptions
  have hwrong : (BufferContents.ofBuffer
      (List.replicate (4 * d.header.checksummed.hlen.toNat - 20) 0 ++
        d.payload.concatenate)).size ≠ d.header.checksummed.payloadLength.toNat := by
    rw [BufferContents.size_eq, BufferContents.concatenate_ofBuffer, List.length_append,
      List.length_replicate, hsize]
    omega
  rw [encoded_concatenate]
  simp only [parse, hparse]
  rw [if_pos hwrong]

/-- The first byte of a packet says version 4 and a header of at least five words. -/
def VersionFour (packet : List UInt8) : Prop :=
  ∃ b rest, packet = b :: rest ∧ b >>> 4 = 4 ∧ 5 ≤ b &&& 0x0f

theorem parse_snd (d₀ : IPv4Datagram) (packet : List UInt8) :
    (d₀.parse packet).2 = ⟨(d₀.header.parse ⟨packet, .noError⟩).2.1,
      BufferContents.ofBuffer (d₀.header.parse ⟨packet, .noError⟩).2.2.buffer⟩ := by
  unfold parse
  obtain ⟨result, header, p⟩ := d₀.header.parse ⟨packet, .noError⟩
  simp only
  split <;> rfl

/-- A packet that is long enough gives the header its fields, accepted or not. -/
theorem parse_header (d₀ : IPv4Datagram) {packet : List UInt8}
    (hsize : IPv4Header.LENGTH ≤ packet.length) :
    (d₀.parse packet).2.header = (IPv4Header.readFields ⟨packet, .noError⟩).1 := by
  rw [parse_snd]
  rcases IPv4Header.parse_rule d₀.header (p := ⟨packet, .noError⟩) hsize with hstop | hskip
  · simp only [hstop]
  · simp only [hskip]

/-- What the parser accepts has the payload size its header tells. -/
theorem size_of_parse {d₀ d : IPv4Datagram} {packet : List UInt8}
    (hparse : d₀.parse packet = (.noError, d)) :
    d.payload.size = d.header.payloadLength.toNat := by
  unfold parse at hparse
  obtain ⟨result, header, p⟩ := d₀.header.parse ⟨packet, .noError⟩
  simp only at hparse
  split at hparse
  · exact absurd (Prod.mk.inj hparse).1 (by decide)
  · rename_i hsize
    rw [← (Prod.mk.inj hparse).2]
    exact Decidable.of_not_not hsize

/-- A packet that is too short for a header is not accepted. -/
theorem parse_of_short {packet : List UInt8} (h : packet.length < IPv4Header.LENGTH) :
    ({} : IPv4Datagram).parse packet = (.packetTooShort, ⟨{}, BufferContents.ofBuffer packet⟩) := by
  have hheader : ({} : IPv4Header).parse ⟨packet, .noError⟩ =
      (.packetTooShort, {}, ⟨packet, .noError⟩) := by
    unfold IPv4Header.parse
    rw [if_pos h]
  -- the default header tells a payload of 65516 bytes
  have hdefault : ({} : IPv4Header).payloadLength.toNat = 65516 := rfl
  have hwrong : (BufferContents.ofBuffer packet).size ≠ ({} : IPv4Header).payloadLength.toNat := by
    rw [BufferContents.size_eq, BufferContents.concatenate_ofBuffer, hdefault]
    rw [IPv4Header.LENGTH] at h
    omega
  unfold parse
  simp only [hheader]
  rw [if_pos hwrong]

/-- A packet with the right first byte that a fresh datagram accepts is well-formed. -/
theorem wellFormed_of_parse {d : IPv4Datagram} {packet : List UInt8}
    (hparse : ({} : IPv4Datagram).parse packet = (.noError, d)) (hfour : VersionFour packet) :
    d.WellFormed := by
  refine ⟨?_, size_of_parse hparse⟩
  obtain ⟨b, rest, rfl, hver, hhlen⟩ := hfour
  by_cases hshort : (b :: rest).length < IPv4Header.LENGTH
  · rw [parse_of_short hshort] at hparse
    exact absurd (Prod.mk.inj hparse).1 (by decide)
  · have hfields := parse_header {} (Nat.not_lt.mp hshort)
    rw [hparse] at hfields
    change d.header = _ at hfields
    obtain ⟨hfirst, hsecond⟩ := IPv4Header.readFields_first b rest
    rw [IPv4Header.Sendable, hfields, hfirst, hsecond]
    exact ⟨hver, hhlen⟩

theorem wellFormed_of_serialize {d : IPv4Datagram} {payload : BufferContents}
    (h : d.serialize = .ok payload) : d.WellFormed := by
  unfold serialize at h
  by_cases hsize : d.payload.size = d.header.payloadLength.toNat
  · rw [if_neg (not_not_intro hsize)] at h
    refine ⟨?_, hsize⟩
    by_contra hsendable
    obtain ⟨e, he⟩ := IPv4Header.serialize_of_not_sendable
      (h := { d.header with cksum := 0 }) hsendable
    rw [he] at h
    exact absurd h (by simp [bind, Except.bind])
  · rw [if_pos hsize] at h
    exact absurd h (by simp)

theorem serialize_of_not_wellFormed {d : IPv4Datagram} (h : ¬ d.WellFormed) :
    ∃ e, d.serialize = .error e := by
  cases hout : d.serialize with
  | ok out => exact absurd (wellFormed_of_serialize hout) h
  | error e => exact ⟨e, rfl⟩

/-- Whatever a receiver makes of the bytes of a datagram, it reads its time to live. -/
theorem parse_ttl {d : IPv4Datagram} (hd : d.WellFormed) (d₀ : IPv4Datagram) :
    (d₀.parse d.encoded.concatenate).2.header.ttl = d.header.ttl := by
  have hs := IPv4Header.checksummed_sendable hd.sendable
  have hsize : IPv4Header.LENGTH ≤
      (d.header.checksummed.bytes ++ d.payload.concatenate).length := by
    have hhlen := hs.hlen_le
    rw [List.length_append, IPv4Header.bytes_length hs, IPv4Header.LENGTH]
    omega
  rw [encoded_concatenate, parse_header d₀ hsize]
  exact IPv4Header.readFields_ttl hs _

end IPv4Datagram

end Sponge
