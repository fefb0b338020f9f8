import Sponge.TCPOverIP

/-!
Writing packets and reading them again.
A segment comes back from its bytes for every pseudo-header and every payload,
also where the 32-bit sum of the checksum wraps. A datagram comes back where its
total length covers header and payload. As long as the sum does not wrap, the
checksum also finds every single bit that was flipped on the way.
-/
namespace Sponge

open Octets

namespace InternetChecksum

/-- The sum from a start and over data that together stay within 32 bits. -/
theorem add_sum_of_lt {start : UInt32} {data : List UInt8}
    (h : start.toNat + 65280 * data.length < 2 ^ 32) :
    (({ sum := start } : InternetChecksum).add data).sum.toNat =
      start.toNat + wordSum false data := by
  have hle := wordSum_le false data
  have hsum := add_sum { sum := start } data
  change _ = (start.toNat + wordSum false data) % 2 ^ 32 at hsum
  rwa [Nat.mod_eq_of_lt (by omega)] at hsum

/-- Data of checksum zero does not keep it when one bit is flipped. -/
theorem value_flipBit_ne_zero {start : UInt32} {data : List UInt8} {i : ℕ}
    (h : start.toNat + 65280 * data.length < 2 ^ 32)
    (hvalue : (({ sum := start } : InternetChecksum).add data).value = 0)
    (hi : i < 8 * data.length) :
    (({ sum := start } : InternetChecksum).add (flipBit i data)).value ≠ 0 := by
  have hflipped : start.toNat + 65280 * (flipBit i data).length < 2 ^ 32 := by
    rw [flipBit_length]
    exact h
  rw [value_eq_zero_iff, add_sum_of_lt h] at hvalue
  rw [ne_eq, value_eq_zero_iff, add_sum_of_lt hflipped]
  obtain ⟨j, hj, hapart⟩ := wordSum_flipBit false hi
  exact foldCarries_ne_of_two_pow hj (by omega) hvalue

end InternetChecksum

namespace TCPSegment

/-- The bytes of a segment as they go out, checksum included. -/
def wire (seg : TCPSegment) (datagramLayerChecksum : UInt32) : List UInt8 :=
  (seg.checksummed datagramLayerChecksum).header.bytes ++ seg.payload

theorem serialize_wire {seg : TCPSegment} (hf : seg.header.Fits) (pseudo : UInt32) :
    ∃ out, seg.serialize pseudo = .ok out ∧ out.concatenate = seg.wire pseudo := by
  refine ⟨_, serialize_of_fits hf pseudo, ?_⟩
  rw [BufferContents.concatenate_append, BufferContents.concatenate_ofBuffer,
    BufferContents.concatenate_ofBuffer, wire]

theorem length_of_serialize {seg : TCPSegment} (hf : seg.header.Fits) {pseudo : UInt32}
    {out : BufferContents} (hout : seg.serialize pseudo = .ok out) :
    out.concatenate.length = 4 * seg.header.doff.toNat + seg.payload.length := by
  obtain ⟨out', hout', hwire⟩ := serialize_wire hf pseudo
  obtain rfl : out = out' := Except.ok.inj (hout.symm.trans hout')
  have hbytes := TCPHeader.bytes_length (show (seg.checksummed pseudo).header.Fits from hf)
  rw [hwire, wire, List.length_append, hbytes]
  rfl

/-- Whoever parses what was written with the same pseudo-header gets the segment back; only
the checksum is the one that was filled in. -/
theorem parse_serialize_segment {seg : TCPSegment} (hmin : 5 ≤ seg.header.doff)
    (hmax : seg.header.doff ≤ 15) (pseudo : UInt32) (seg₀ : TCPSegment) :
    ∃ out cksum, seg.serialize pseudo = .ok out ∧
      seg₀.parse out.concatenate pseudo =
        (.noError, { seg with header := { seg.header with cksum } }) := by
  obtain ⟨out, hout, hwire⟩ := serialize_wire ⟨hmin, hmax⟩ pseudo
  refine ⟨out, (seg.checksummed pseudo).header.cksum, hout, ?_⟩
  rw [hwire]
  exact parse_checksummed ⟨hmin, hmax⟩ pseudo seg₀

/-- With a start from which the sum of the written segment wraps. -/
theorem parse_serialize_wrapping :
    ∃ out cksum, ({ payload := [255, 255] } : TCPSegment).serialize 0xffffffff = .ok out ∧
      ({} : TCPSegment).parse out.concatenate 0xffffffff =
        (.noError, { header := { cksum }, payload := [255, 255] }) :=
  @parse_serialize_segment { payload := [255, 255] } (by decide) (by decide) 0xffffffff {}

theorem parse_of_badChecksum {seg₀ : TCPSegment} {buffer : List UInt8} {pseudo : UInt32}
    (h : (({ sum := pseudo } : InternetChecksum).add buffer).value ≠ 0) :
    seg₀.parse buffer pseudo = (.badChecksum, seg₀) := by
  unfold parse
  rw [if_pos h]

/-- The sum over a packet of at most 65535 bytes behind a pseudo-header does not wrap, so a
flipped bit shows in the checksum. -/
theorem flipBit_detected {seg : TCPSegment} (hmin : 5 ≤ seg.header.doff)
    (hmax : seg.header.doff ≤ 15) (h : IPv4Header) :
    ∃ out, seg.serialize h.pseudoCksum = .ok out ∧
      (out.concatenate.length ≤ 65535 → ∀ i < 8 * out.concatenate.length, ∀ seg₀ : TCPSegment,
        (seg₀.parse (flipBit i out.concatenate) h.pseudoCksum).1 = .badChecksum) := by
  obtain ⟨out, hout, hwire⟩ := serialize_wire ⟨hmin, hmax⟩ h.pseudoCksum
  refine ⟨out, hout, ?_⟩
  intro hsize i hi seg₀
  have hpseudo := h.pseudoCksum_le
  have hvalue : (({ sum := h.pseudoCksum } : InternetChecksum).add
      (seg.wire h.pseudoCksum)).value = 0 := checksummed_value ⟨hmin, hmax⟩ h.pseudoCksum
  rw [hwire] at hsize hi ⊢
  have hflipped := InternetChecksum.value_flipBit_ne_zero (by omega) hvalue hi
  rw [parse_of_badChecksum hflipped]

theorem flipBit_detected_syn :
    ∃ out, ({ header := { syn := true }, payload := [1] } : TCPSegment).serialize
        (IPv4Header.pseudoCksum {}) = .ok out ∧
      ∀ i < 8 * 21, ∀ seg₀ : TCPSegment,
        (seg₀.parse (flipBit i out.concatenate) (IPv4Header.pseudoCksum {})).1 =
          .badChecksum := by
  obtain ⟨out, hout, hdetected⟩ :=
    @flipBit_detected { header := { syn := true }, payload := [1] } (by decide) (by decide) {}
  refine ⟨out, hout, ?_⟩
  have hlength := length_of_serialize ⟨by decide, by decide⟩ hout
  change out.concatenate.length = 21 at hlength
  rw [hlength] at hdetected
  exact hdetected (by decide)

end TCPSegment

namespace IPv4Datagram

/-- A datagram whose total length is that of its header and its payload. -/
theorem Readable.of_total {d : IPv4Datagram} (hd : d.WellFormed) (hf : d.header.Fits)
    (hlen : d.header.len.toNat = 4 * d.header.hlen.toNat + d.payload.size) : d.Readable :=
  { hd with
    fits := hf
    covers := Or.inr (by omega) }

/-- Whoever parses what was written gets the datagram back, with its checksum filled in, and
what is not well-formed is not written. -/
theorem parse_serialize_datagram :
    (∀ d d₀ : IPv4Datagram, d.header.ver = 4 → 5 ≤ d.header.hlen → d.header.hlen ≤ 15 →
      d.header.offset < 8192 → d.payload.size = d.header.payloadLength.toNat →
      d.header.len.toNat = 4 * d.header.hlen.toNat + d.payload.size →
      ∃ out cksum, d.serialize = .ok out ∧ (d₀.parse out.concatenate).1 = .noError ∧
        (d₀.parse out.concatenate).2.header = { d.header with cksum } ∧
        (d₀.parse out.concatenate).2.payload.concatenate = d.payload.concatenate) ∧
    ∀ d : IPv4Datagram, d.header.ver ≠ 4 ∨ d.header.hlen < 5 ∨
      d.payload.size ≠ d.header.payloadLength.toNat → ∃ e, d.serialize = .error e := by
  refine ⟨?_, ?_⟩
  · intro d d₀ hver hmin hmax hoffset hsize hlen
    have hd : d.WellFormed := ⟨⟨hver, hmin⟩, hsize⟩
    have hparse := parse_encoded (Readable.of_total hd ⟨hmax, hoffset⟩ hlen) d₀
    refine ⟨d.encoded, d.header.checksummed.cksum, serialize_of_wellFormed hd, ?_⟩
    rw [hparse]
    exact ⟨rfl, rfl, BufferContents.concatenate_ofBuffer _⟩
  · intro d hwrong
    apply serialize_of_not_wellFormed
    intro hd
    rcases hwrong with hver | hhlen | hsize
    · exact hver hd.sendable.1
    · exact UInt8.not_lt.mpr hd.sendable.2 hhlen
    · exact hsize hd.size_eq

/-- A header with four bytes of options and three bytes of payload. -/
theorem parse_serialize_options :
    let d : IPv4Datagram := ⟨{ hlen := 6, len := 27, mf := true, offset := 8191 },
      BufferContents.ofBuffer [1, 2, 3]⟩
    ∃ out cksum, d.serialize = .ok out ∧ (parse {} out.concatenate).1 = .noError ∧
      (parse {} out.concatenate).2.header = { d.header with cksum } ∧
      (parse {} out.concatenate).2.payload.concatenate = d.payload.concatenate :=
  parse_serialize_datagram.1 _ {} (by decide) (by decide) (by decide) (by decide) (by decide)
    (by decide)

end IPv4Datagram

end Sponge
