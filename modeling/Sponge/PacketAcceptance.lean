import Sponge.PacketCodec

/-!
Which bytes the parsers of datagrams and segments accept.
Both ignore what the header's own parser reports and ask the parser object for
its error. So a datagram with a bad checksum is accepted, and so is one whose
header was given up on early, if what is left after twenty bytes happens to have
the size the header tells. A segment is accepted with a data offset below five.
-/
namespace Sponge

open Octets

section Reads

-- the reads are kept folded, so that the two chains of reads are compared step by step
attribute [local irreducible] NetParser.u8 NetParser.u16 NetParser.u32

theorem IPv4Header.readFields_snd (p : NetParser) :
    (readFields p).2 = p.u8.2.u8.2.u16.2.u16.2.u16.2.u8.2.u8.2.u16.2.u32.2.u32.2 := rfl

theorem TCPHeader.readFields_snd (p : NetParser) :
    (readFields p).2 = p.u16.2.u16.2.u32.2.u32.2.u8.2.u8.2.u16.2.u16.2.u16.2 := rfl

end Reads

namespace IPv4Header

/-- The version, the length of the header in words, and the total length, as they stand in
the bytes of a packet. -/
def versionOf (packet : List UInt8) : UInt8 := packet.headD 0 >>> 4

def headerWords (packet : List UInt8) : ℕ := (packet.headD 0 &&& 0x0f).toNat

def totalLength (packet : List UInt8) : ℕ := ofBigEndian ((packet.drop 2).take 2)

theorem headerWords_le (packet : List UInt8) : headerWords packet ≤ 15 := by
  rw [headerWords, UInt8.toNat_and]
  exact Nat.and_le_right

theorem totalLength_lt (packet : List UInt8) : totalLength packet < 2 ^ 16 :=
  calc totalLength packet < 256 ^ ((packet.drop 2).take 2).length := ofBigEndian_lt _
    _ ≤ 256 ^ 2 := Nat.pow_le_pow_right (by decide) (List.length_take_le 2 _)

theorem totalLength_append (first tos : UInt8) (len : UInt16) (rest : List UInt8) :
    totalLength (NetUnparser.u8 first ++ (NetUnparser.u8 tos ++ (NetUnparser.u16 len ++ rest))) =
      len.toNat := by
  have hlen := len.toNat_lt
  have htake : ((NetUnparser.u8 first ++ (NetUnparser.u8 tos ++
      (NetUnparser.u16 len ++ rest))).drop 2).take 2 = NetUnparser.u16 len := by
    simp [NetUnparser.u8_eq, List.take_left' (NetUnparser.u16_length len)]
  rw [totalLength, htake, NetUnparser.u16,
    ofBigEndian_bigEndian (show len.toNat < 256 ^ 2 by omega)]

theorem readFields_consumes (p : NetParser) : p.Consumes LENGTH (readFields p).2 := by
  rw [readFields_snd]
  exact (((((((((NetParser.u8_consumes _).trans (NetParser.u8_consumes _)).trans
    (NetParser.u16_consumes _)).trans (NetParser.u16_consumes _)).trans
    (NetParser.u16_consumes _)).trans (NetParser.u8_consumes _)).trans
    (NetParser.u8_consumes _)).trans (NetParser.u16_consumes _)).trans
    (NetParser.u32_consumes _)).trans (NetParser.u32_consumes _)

/-- What the reads make of a packet with room for a header. -/
theorem readFields_of_le {packet : List UInt8} (h : LENGTH ≤ packet.length) :
    (readFields ⟨packet, .noError⟩).1.ver = versionOf packet ∧
      (readFields ⟨packet, .noError⟩).1.hlen.toNat = headerWords packet ∧
      (readFields ⟨packet, .noError⟩).1.len.toNat = totalLength packet ∧
      (readFields ⟨packet, .noError⟩).2 = ⟨packet.drop LENGTH, .noError⟩ := by
  have htaken := readFields_consumes ⟨packet, .noError⟩
  -- each field takes its bytes off the front; the numbers are what is left behind it
  obtain ⟨first, _, h₁, rfl⟩ := NetUnparser.exists_u8 (n := 19) h
  obtain ⟨tos, _, h₂, rfl⟩ := NetUnparser.exists_u8 (n := 18) h₁
  obtain ⟨len, _, h₃, rfl⟩ := NetUnparser.exists_u16 (n := 16) h₂
  obtain ⟨id, _, h₄, rfl⟩ := NetUnparser.exists_u16 (n := 14) h₃
  obtain ⟨foVal, _, h₅, rfl⟩ := NetUnparser.exists_u16 (n := 12) h₄
  obtain ⟨ttl, _, h₆, rfl⟩ := NetUnparser.exists_u8 (n := 11) h₅
  obtain ⟨proto, _, h₇, rfl⟩ := NetUnparser.exists_u8 (n := 10) h₆
  obtain ⟨cksum, _, h₈, rfl⟩ := NetUnparser.exists_u16 (n := 8) h₇
  obtain ⟨src, _, h₉, rfl⟩ := NetUnparser.exists_u32 (n := 4) h₈
  obtain ⟨dst, rest, -, rfl⟩ := NetUnparser.exists_u32 (n := 0) h₉
  simp only [readFields, NetParser.u8_unparse, NetParser.u16_unparse, NetParser.u32_unparse]
    at htaken ⊢
  refine ⟨?_, ?_, ?_, ?_⟩
  · simp [versionOf, NetUnparser.u8_eq]
  · simp [headerWords, NetUnparser.u8_eq]
  · rw [totalLength_append]
  · rw [← (htaken rfl).2.2]

/-- The checks of the header parser that come before the options are skipped. -/
def Framed (packet : List UInt8) : Prop :=
  versionOf packet = 4 ∧ 5 ≤ headerWords packet ∧ 4 * headerWords packet ≤ packet.length ∧
    totalLength packet = packet.length

instance (packet : List UInt8) : Decidable (Framed packet) :=
  inferInstanceAs (Decidable (_ ∧ _))

/-- The checksum over as many bytes as the header says it has. -/
def headerChecksum (packet : List UInt8) : UInt16 :=
  (({} : InternetChecksum).add (packet.take (4 * headerWords packet))).value

theorem parse_of_framed {packet : List UInt8} (h : LENGTH ≤ packet.length)
    (hframed : Framed packet) (h₀ : IPv4Header) :
    (parse h₀ ⟨packet, .noError⟩).2 = ((readFields ⟨packet, .noError⟩).1,
      ⟨packet.drop (4 * headerWords packet), .noError⟩) := by
  obtain ⟨hver, hhlen, hlen, hparser⟩ := readFields_of_le h
  obtain ⟨hfour, hfive, hcovers, htotal⟩ := hframed
  have hwords : ¬ (readFields ⟨packet, .noError⟩).1.hlen < 5 := by
    rw [UInt8.lt_iff_toNat_lt, hhlen]
    exact Nat.not_lt.mpr hfive
  have hskip : (NetParser.mk (packet.drop LENGTH) .noError).removePrefix
      (headerWords packet * 4 - LENGTH) = ⟨packet.drop (4 * headerWords packet), .noError⟩ := by
    have hleft : headerWords packet * 4 - LENGTH ≤ (packet.drop LENGTH).length := by
      rw [List.length_drop]
      omega
    have hall : LENGTH + (headerWords packet * 4 - LENGTH) = 4 * headerWords packet := by
      rw [LENGTH]
      omega
    rw [NetParser.removePrefix_of_le hleft, List.drop_drop, hall]
  unfold parse
  rw [if_neg (Nat.not_lt.mpr h)]
  generalize readFields ⟨packet, .noError⟩ = fields at hver hhlen hlen hparser hwords ⊢
  obtain ⟨header, p⟩ := fields
  simp only at hver hhlen hlen hparser hwords ⊢
  rw [if_neg (by omega), if_neg (by simp [hver, hfour]), if_neg hwords, if_neg (by omega), hparser,
    hhlen, hskip, if_neg (by simp)]
  split <;> rfl

/-- A header that fails one of these checks is left where its fields ended. -/
theorem parse_of_not_framed {packet : List UInt8} (h : LENGTH ≤ packet.length)
    (hframed : ¬ Framed packet) (h₀ : IPv4Header) :
    (parse h₀ ⟨packet, .noError⟩).2 = ((readFields ⟨packet, .noError⟩).1,
      ⟨packet.drop LENGTH, .noError⟩) := by
  obtain ⟨hver, hhlen, hlen, hparser⟩ := readFields_of_le h
  unfold parse
  rw [if_neg (Nat.not_lt.mpr h)]
  generalize readFields ⟨packet, .noError⟩ = fields at hver hhlen hlen hparser ⊢
  obtain ⟨header, p⟩ := fields
  simp only at hver hhlen hlen hparser ⊢
  split
  · rw [hparser]
  · rename_i hcovers
    split
    · rw [hparser]
    · rename_i hfour
      split
      · rw [hparser]
      · rename_i hfive
        split
        · rw [hparser]
        · rename_i htotal
          rw [UInt8.lt_iff_toNat_lt, hhlen] at hfive
          rw [hver] at hfour
          exact absurd ⟨Decidable.of_not_not hfour, Nat.not_lt.mp hfive, by omega, by omega⟩
            hframed

end IPv4Header

namespace IPv4Datagram

open IPv4Header

/-- The bytes of a valid datagram. -/
def Valid (packet : List UInt8) : Prop :=
  IPv4Header.LENGTH ≤ packet.length ∧ Framed packet ∧ headerChecksum packet = 0

/-- The 16-bit difference that the parser takes for the length of the payload. -/
def wrappedPayload (packet : List UInt8) : ℕ :=
  (2 ^ 16 - 4 * headerWords packet + totalLength packet) % 2 ^ 16

theorem payloadLength_readFields {packet : List UInt8}
    (h : IPv4Header.LENGTH ≤ packet.length) :
    (readFields ⟨packet, .noError⟩).1.payloadLength.toNat = wrappedPayload packet := by
  obtain ⟨-, hhlen, hlen, -⟩ := readFields_of_le h
  have hle := headerWords_le packet
  have hfour : (4 : UInt16).toNat = 4 := rfl
  have hmod : 4 * headerWords packet % 2 ^ 16 = 4 * headerWords packet :=
    Nat.mod_eq_of_lt (by omega)
  rw [payloadLength, UInt16.toNat_sub, UInt16.toNat_mul, UInt8.toNat_toUInt16, hhlen, hlen, hfour,
    hmod, wrappedPayload]

/-- Where the parser stops: behind the options, or behind the fields. -/
def payloadStart (packet : List UInt8) : ℕ :=
  if Framed packet then 4 * headerWords packet else IPv4Header.LENGTH

/-- The outcome for a packet with room for a header. -/
theorem parse_of_le {packet : List UInt8} (h : IPv4Header.LENGTH ≤ packet.length)
    (d₀ : IPv4Datagram) :
    d₀.parse packet =
      (if packet.length - payloadStart packet = wrappedPayload packet then .noError
        else .packetTooShort,
        ⟨(readFields ⟨packet, .noError⟩).1,
          BufferContents.ofBuffer (packet.drop (payloadStart packet))⟩) := by
  have hheader : (d₀.header.parse ⟨packet, .noError⟩).2 = ((readFields ⟨packet, .noError⟩).1,
      ⟨packet.drop (payloadStart packet), .noError⟩) := by
    by_cases hframed : Framed packet
    · rw [parse_of_framed h hframed, payloadStart, if_pos hframed]
    · rw [parse_of_not_framed h hframed, payloadStart, if_neg hframed]
  have hsize := payloadLength_readFields h
  unfold parse
  generalize d₀.header.parse ⟨packet, .noError⟩ = outcome at hheader ⊢
  simp only [hheader]
  simp only [BufferContents.size_eq, BufferContents.concatenate_ofBuffer, List.length_drop, hsize]
  by_cases hright : packet.length - payloadStart packet = wrappedPayload packet
  · rw [if_neg (not_not_intro hright), if_pos hright]
  · rw [if_pos hright, if_neg hright]

/-- What a fresh datagram accepts: a framed packet with any checksum, or one that was given
up on with the right number of bytes left. -/
theorem parse_accepts_datagram_iff (packet : List UInt8) :
    (({} : IPv4Datagram).parse packet).1 = .noError ↔
      IPv4Header.LENGTH ≤ packet.length ∧
        (Framed packet ∨ packet.length - IPv4Header.LENGTH = wrappedPayload packet) := by
  by_cases h : IPv4Header.LENGTH ≤ packet.length
  · have hsize : packet.length - payloadStart packet = wrappedPayload packet ↔
        Framed packet ∨ packet.length - IPv4Header.LENGTH = wrappedPayload packet := by
      by_cases hframed : Framed packet
      · have hlt : packet.length < 2 ^ 16 := by
          rw [← hframed.2.2.2]
          exact totalLength_lt packet
        rw [payloadStart, if_pos hframed, wrappedPayload, hframed.2.2.2]
        have hcovers := hframed.2.2.1
        have hle := headerWords_le packet
        simp only [hframed, true_or, iff_true]
        omega
      · rw [payloadStart, if_neg hframed]
        simp only [hframed, false_or]
    rw [parse_of_le h, ← hsize]
    simp only [h, true_and]
    split <;> simp_all
  · rw [parse_of_short (Nat.not_le.mp h)]
    simp [h]

/-- On these bytes a fresh datagram accepts just what is valid, takes the payload behind the
header, and can be serialized again. -/
def ExactOn (packet : List UInt8) : Prop :=
  ((({} : IPv4Datagram).parse packet).1 = .noError ↔ Valid packet) ∧
    ((({} : IPv4Datagram).parse packet).1 = .noError →
      (({} : IPv4Datagram).parse packet).2.payload.concatenate =
          packet.drop (4 * headerWords packet) ∧
        ∃ out, (({} : IPv4Datagram).parse packet).2.serialize = .ok out)

/-- Bytes that are accepted though they are not valid. -/
def SlipsThrough (packet : List UInt8) : Prop :=
  IPv4Header.LENGTH ≤ packet.length ∧
    ((Framed packet ∧ headerChecksum packet ≠ 0) ∨
      (¬ Framed packet ∧ packet.length - IPv4Header.LENGTH = wrappedPayload packet))

theorem versionFour_of_framed {packet : List UInt8} (h : IPv4Header.LENGTH ≤ packet.length)
    (hframed : Framed packet) : VersionFour packet := by
  cases packet with
  | nil => exact absurd h (by decide)
  | cons b rest => exact ⟨b, rest, rfl, hframed.1, UInt8.le_iff_toNat_le.mpr hframed.2.1⟩

/-- The parser is exact on all packets but those that slip through. -/
theorem parse_exact_iff (packet : List UInt8) : ExactOn packet ↔ ¬ SlipsThrough packet := by
  have haccepts := parse_accepts_datagram_iff packet
  refine ⟨?_, ?_⟩
  · rintro hexact ⟨hsize, hslips⟩
    rcases hslips with ⟨hframed, hcheck⟩ | ⟨hframed, hleft⟩
    · exact hcheck (hexact.1.mp (haccepts.mpr ⟨hsize, Or.inl hframed⟩)).2.2
    · exact hframed (hexact.1.mp (haccepts.mpr ⟨hsize, Or.inr hleft⟩)).2.1
  · intro hslips
    have hvalid : (({} : IPv4Datagram).parse packet).1 = .noError → Valid packet := by
      intro hparse
      obtain ⟨hsize, hcases⟩ := haccepts.mp hparse
      by_cases hframed : Framed packet
      · refine ⟨hsize, hframed, ?_⟩
        by_contra hcheck
        exact hslips ⟨hsize, Or.inl ⟨hframed, hcheck⟩⟩
      · exact absurd ⟨hsize, Or.inr ⟨hframed, hcases.resolve_left hframed⟩⟩ hslips
    refine ⟨⟨hvalid, fun h => haccepts.mpr ⟨h.1, Or.inl h.2.1⟩⟩, ?_⟩
    intro hparse
    obtain ⟨hsize, hframed, -⟩ := hvalid hparse
    refine ⟨?_, ?_⟩
    · rw [parse_of_le hsize, payloadStart, if_pos hframed, BufferContents.concatenate_ofBuffer]
    · exact ⟨_, serialize_of_wellFormed
        (wellFormed_of_parse (Prod.ext hparse rfl) (versionFour_of_framed hsize hframed))⟩

/-- Twenty zero bytes, which do not even tell version 4, and a header whose checksum is wrong
are accepted. -/
theorem invalid_accepted :
    let zeros : List UInt8 := List.replicate 20 0
    let plain : List UInt8 := [0x45, 0, 0, 20] ++ List.replicate 16 0
    ((({} : IPv4Datagram).parse zeros).1 = .noError ∧ versionOf zeros ≠ 4) ∧
      (({} : IPv4Datagram).parse plain).1 = .noError ∧ headerChecksum plain ≠ 0 := by
  refine ⟨⟨(parse_accepts_datagram_iff _).mpr ⟨by decide, Or.inr (by decide)⟩, by decide⟩,
    (parse_accepts_datagram_iff _).mpr ⟨by decide, Or.inl (by decide)⟩, ?_⟩
  rw [headerChecksum, ne_eq, InternetChecksum.value_eq_zero_iff, InternetChecksum.add_sum]
  unfold foldCarries
  decide

end IPv4Datagram

namespace TCPHeader

/-- The data offset as it stands in the bytes of a packet. -/
def dataOffset (packet : List UInt8) : UInt8 := packet.getD 12 0 >>> 4

theorem readFields_consumes (p : NetParser) : p.Consumes LENGTH (readFields p).2 := by
  rw [readFields_snd]
  exact ((((((((NetParser.u16_consumes _).trans (NetParser.u16_consumes _)).trans
    (NetParser.u32_consumes _)).trans (NetParser.u32_consumes _)).trans
    (NetParser.u8_consumes _)).trans (NetParser.u8_consumes _)).trans
    (NetParser.u16_consumes _)).trans (NetParser.u16_consumes _)).trans
    (NetParser.u16_consumes _)

/-- What the reads make of a packet with room for a header. -/
theorem readFields_of_le {packet : List UInt8} (h : LENGTH ≤ packet.length) :
    (readFields ⟨packet, .noError⟩).1.doff = dataOffset packet ∧
      (readFields ⟨packet, .noError⟩).2 = ⟨packet.drop LENGTH, .noError⟩ := by
  have htaken := readFields_consumes ⟨packet, .noError⟩
  obtain ⟨sport, _, h₁, rfl⟩ := NetUnparser.exists_u16 (n := 18) h
  obtain ⟨dport, _, h₂, rfl⟩ := NetUnparser.exists_u16 (n := 16) h₁
  obtain ⟨seqno, _, h₃, rfl⟩ := NetUnparser.exists_u32 (n := 12) h₂
  obtain ⟨ackno, _, h₄, rfl⟩ := NetUnparser.exists_u32 (n := 8) h₃
  obtain ⟨doff, _, h₅, rfl⟩ := NetUnparser.exists_u8 (n := 7) h₄
  obtain ⟨flB, _, h₆, rfl⟩ := NetUnparser.exists_u8 (n := 6) h₅
  obtain ⟨win, _, h₇, rfl⟩ := NetUnparser.exists_u16 (n := 4) h₆
  obtain ⟨cksum, _, h₈, rfl⟩ := NetUnparser.exists_u16 (n := 2) h₇
  obtain ⟨uptr, rest, -, rfl⟩ := NetUnparser.exists_u16 (n := 0) h₈
  simp only [readFields, NetParser.u8_unparse, NetParser.u16_unparse, NetParser.u32_unparse]
    at htaken ⊢
  refine ⟨?_, ?_⟩
  · simp [dataOffset, NetUnparser.u8_eq, List.getElem?_append]
  · rw [← (htaken rfl).2.2]

/-- Where the parser stops: behind the options, or behind the fields. -/
def payloadStart (packet : List UInt8) : ℕ :=
  if dataOffset packet < 5 then LENGTH else 4 * (dataOffset packet).toNat

theorem parse_of_le {packet : List UInt8} (h : LENGTH ≤ packet.length)
    (hstart : payloadStart packet ≤ packet.length) :
    (parse ⟨packet, .noError⟩).2 = ((readFields ⟨packet, .noError⟩).1,
      ⟨packet.drop (payloadStart packet), .noError⟩) := by
  obtain ⟨hdoff, hparser⟩ := readFields_of_le h
  unfold parse
  generalize readFields ⟨packet, .noError⟩ = fields at hdoff hparser ⊢
  simp only [hdoff, hparser]
  by_cases hshort : dataOffset packet < 5
  · rw [if_pos hshort, payloadStart, if_pos hshort]
  · have hfive := UInt8.le_iff_toNat_le.mp (UInt8.not_lt.mp hshort)
    have hfive' : (5 : UInt8).toNat = 5 := rfl
    rw [payloadStart, if_neg hshort] at hstart ⊢
    have hall : LENGTH + ((dataOffset packet).toNat * 4 - LENGTH) =
        4 * (dataOffset packet).toNat := by
      rw [LENGTH]
      omega
    have hleft : (dataOffset packet).toNat * 4 - LENGTH ≤ (packet.drop LENGTH).length := by
      rw [List.length_drop]
      omega
    rw [if_neg hshort, NetParser.removePrefix_of_le hleft, List.drop_drop, hall]
    rfl

/-- Without an error, the fields and the options were there. -/
theorem le_of_parse_noError {packet : List UInt8}
    (h : (parse ⟨packet, .noError⟩).2.2.error = .noError) :
    LENGTH ≤ packet.length ∧ payloadStart packet ≤ packet.length := by
  have htaken := readFields_consumes ⟨packet, .noError⟩
  have hdoff := @readFields_of_le packet
  unfold parse at h
  generalize readFields ⟨packet, .noError⟩ = fields at htaken hdoff h
  obtain ⟨header, p⟩ := fields
  simp only at htaken hdoff h
  split at h
  · obtain ⟨-, hlength, -⟩ := htaken h
    refine ⟨hlength, ?_⟩
    rename_i hshort
    rw [(hdoff hlength).1] at hshort
    rw [payloadStart, if_pos hshort]
    exact hlength
  · rename_i hshort
    have hend : (p.removePrefix (header.doff.toNat * 4 - LENGTH)).error = .noError := by
      split at h <;> exact h
    obtain ⟨-, hall, -⟩ := htaken.trans (NetParser.removePrefix_consumes p _) hend
    have hlength : LENGTH ≤ packet.length := Nat.le_trans (Nat.le_add_right _ _) hall
    refine ⟨hlength, ?_⟩
    rw [(hdoff hlength).1] at hshort hall
    rw [payloadStart, if_neg hshort]
    change LENGTH + ((dataOffset packet).toNat * 4 - LENGTH) ≤ packet.length at hall
    omega

theorem dataOffset_le (packet : List UInt8) : dataOffset packet ≤ 15 := by
  have hlt := (packet.getD 12 0).toNat_lt
  have hshift : (dataOffset packet).toNat = (packet.getD 12 0).toNat / 16 := by
    rw [dataOffset, UInt8.toNat_shiftRight, Nat.shiftRight_eq_div_pow]
    rfl
  rw [UInt8.le_iff_toNat_le, hshift]
  exact Nat.le_of_lt_succ (Nat.div_lt_of_lt_mul hlt)

end TCPHeader

namespace TCPSegment

open TCPHeader

/-- The bytes of a valid segment behind a pseudo-header. -/
def Valid (packet : List UInt8) (pseudo : UInt32) : Prop :=
  (({ sum := pseudo } : InternetChecksum).add packet).value = 0 ∧
    TCPHeader.LENGTH ≤ packet.length ∧ 5 ≤ dataOffset packet ∧
    4 * (dataOffset packet).toNat ≤ packet.length

/-- What is accepted: a segment with the right checksum and room for its header, where the
header counts twenty bytes if the data offset is too small. -/
theorem parse_accepts_segment_iff (seg₀ : TCPSegment) (packet : List UInt8) (pseudo : UInt32) :
    (seg₀.parse packet pseudo).1 = .noError ↔
      (({ sum := pseudo } : InternetChecksum).add packet).value = 0 ∧
        TCPHeader.LENGTH ≤ packet.length ∧ payloadStart packet ≤ packet.length := by
  by_cases hcheck : (({ sum := pseudo } : InternetChecksum).add packet).value = 0
  · have hparse : (seg₀.parse packet pseudo).1 =
        (TCPHeader.parse ⟨packet, .noError⟩).2.2.error := by
      unfold parse
      rw [if_neg (not_not_intro hcheck)]
    rw [hparse]
    simp only [hcheck, true_and]
    refine ⟨le_of_parse_noError, ?_⟩
    rintro ⟨hlength, hstart⟩
    rw [TCPHeader.parse_of_le hlength hstart]
  · rw [parse_of_badChecksum hcheck]
    simp [hcheck]

/-- On these bytes the parser accepts just what is valid, takes the payload behind the header,
and makes a segment that can be serialized again. -/
def ExactOn (seg₀ : TCPSegment) (packet : List UInt8) (pseudo : UInt32) : Prop :=
  ((seg₀.parse packet pseudo).1 = .noError ↔ Valid packet pseudo) ∧
    ((seg₀.parse packet pseudo).1 = .noError →
      (seg₀.parse packet pseudo).2.payload = packet.drop (4 * (dataOffset packet).toNat) ∧
        ∀ pseudo', ∃ out, (seg₀.parse packet pseudo).2.serialize pseudo' = .ok out)

/-- The parser is exact on all packets but those of right checksum and length with a data
offset below five. -/
theorem parse_exact_unless_short (seg₀ : TCPSegment) (packet : List UInt8) (pseudo : UInt32) :
    seg₀.ExactOn packet pseudo ↔
      ¬ ((({ sum := pseudo } : InternetChecksum).add packet).value = 0 ∧
        TCPHeader.LENGTH ≤ packet.length ∧ dataOffset packet < 5) := by
  have haccepts := parse_accepts_segment_iff seg₀ packet pseudo
  refine ⟨?_, ?_⟩
  · rintro hexact ⟨hcheck, hlength, hshort⟩
    have hstart : payloadStart packet ≤ packet.length := by
      rw [payloadStart, if_pos hshort]
      exact hlength
    have hparse := haccepts.mpr ⟨hcheck, hlength, hstart⟩
    exact UInt8.not_lt.mpr (hexact.1.mp hparse).2.2.1 hshort
  · intro hslips
    have hvalid : (seg₀.parse packet pseudo).1 = .noError ↔ Valid packet pseudo := by
      rw [haccepts, Valid]
      refine and_congr_right fun hcheck => and_congr_right fun hlength => ?_
      have hshort : ¬ dataOffset packet < 5 := fun h => hslips ⟨hcheck, hlength, h⟩
      rw [payloadStart, if_neg hshort]
      simp only [UInt8.not_lt.mp hshort, true_and]
    refine ⟨hvalid, ?_⟩
    intro hparse
    obtain ⟨hcheck, hlength, hfive, hstart⟩ := hvalid.mp hparse
    have hoptions : payloadStart packet = 4 * (dataOffset packet).toNat :=
      if_neg (UInt8.not_lt.mpr hfive)
    have hheader := TCPHeader.parse_of_le hlength (hoptions ▸ hstart)
    have hdoff := (readFields_of_le hlength).1
    have hseg : (seg₀.parse packet pseudo).2 =
        { header := (readFields ⟨packet, .noError⟩).1
          payload := packet.drop (4 * (dataOffset packet).toNat) } := by
      unfold parse
      rw [if_neg (not_not_intro hcheck)]
      simp only [hheader, hoptions]
    rw [hseg]
    refine ⟨rfl, ?_⟩
    intro pseudo'
    have hfits : (readFields ⟨packet, .noError⟩).1.Fits := by
      rw [TCPHeader.Fits, hdoff]
      exact ⟨hfive, dataOffset_le packet⟩
    generalize (readFields ⟨packet, .noError⟩).1 = header at hfits ⊢
    exact ⟨_, @serialize_of_fits ⟨header, _⟩ hfits pseudo'⟩

/-- Twenty bytes that sum up to all ones are accepted with a data offset of zero. -/
theorem short_offset_accepted :
    let packet : List UInt8 := [255, 255] ++ List.replicate 18 0
    (({} : TCPSegment).parse packet 0).1 = .noError ∧ dataOffset packet < 5 := by
  refine ⟨(parse_accepts_segment_iff {} _ 0).mpr ⟨?_, by decide, by decide⟩, by decide⟩
  rw [InternetChecksum.value_eq_zero_iff, InternetChecksum.add_sum]
  unfold foldCarries
  decide

end TCPSegment

end Sponge
