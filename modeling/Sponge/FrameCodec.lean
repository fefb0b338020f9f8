import Sponge.ARPMessage

/-!
The wire form of Ethernet frames and ARP messages.
Both parsers are compared with the writers in both directions: what was written
is read back, and what was accepted is written again as it came. The parser of
frames does not look at the result of the header's own parser, so a frame that
is too short for a header is accepted as payload.
-/
namespace Sponge

namespace NetUnparser

theorem u16_append_inj {a b : UInt16} {xs ys : List UInt8} :
    u16 a ++ xs = u16 b ++ ys ↔ a = b ∧ xs = ys := by
  refine ⟨?_, ?_⟩
  · intro h
    have hread := NetParser.u16_unparse a xs
    rw [h, NetParser.u16_unparse] at hread
    obtain ⟨hval, hparser⟩ := Prod.mk.inj hread
    exact ⟨hval.symm, (NetParser.mk.inj hparser).1.symm⟩
  · rintro ⟨rfl, rfl⟩
    rfl

theorem u8_append_inj {a b : UInt8} {xs ys : List UInt8} :
    u8 a ++ xs = u8 b ++ ys ↔ a = b ∧ xs = ys := by
  simp only [u8_eq, List.singleton_append, List.cons.injEq]

end NetUnparser

namespace EthernetHeader

def LENGTH : ℕ := 14

/-- Parsing into the header h: the result, the new header, and the parser afterwards. -/
def parse (h : EthernetHeader) (p : NetParser) : ParseResult × EthernetHeader × NetParser :=
  if p.buffer.length < LENGTH then (.packetTooShort, h, p)
  else
    let (dst, p) := p.ethernetAddress
    let (src, p) := p.ethernetAddress
    let (type, p) := p.u16
    (p.error, { dst, src, type }, p)

def serialize (h : EthernetHeader) : List UInt8 :=
  h.dst.unparse ++ h.src.unparse ++ NetUnparser.u16 h.type

theorem serialize_length (h : EthernetHeader) : h.serialize.length = LENGTH := by
  simp only [serialize, LENGTH, List.length_append, EthernetAddress.unparse_length,
    NetUnparser.u16_length]

theorem parse_serialize (h h₀ : EthernetHeader) (rest : List UInt8) :
    h₀.parse ⟨h.serialize ++ rest, .noError⟩ = (.noError, h, ⟨rest, .noError⟩) := by
  have hlength : ¬ (h.serialize ++ rest).length < LENGTH := by
    rw [List.length_append, serialize_length]
    omega
  unfold parse
  rw [if_neg hlength]
  simp only [serialize, List.append_assoc, NetParser.ethernetAddress_unparse,
    NetParser.u16_unparse]

/-- A short packet is reported, but neither the header nor the parser is touched. -/
theorem parse_of_short (h₀ : EthernetHeader) {p : NetParser} (hshort : p.buffer.length < LENGTH) :
    h₀.parse p = (.packetTooShort, h₀, p) := if_pos hshort

theorem exists_serialize {buffer : List UInt8} (hlength : LENGTH ≤ buffer.length) :
    ∃ (h : EthernetHeader) (rest : List UInt8), buffer = h.serialize ++ rest := by
  obtain ⟨dst, afterDst, hdst, rfl⟩ := EthernetAddress.exists_unparse (n := 8) hlength
  obtain ⟨src, afterSrc, hsrc, rfl⟩ := EthernetAddress.exists_unparse (n := 2) hdst
  obtain ⟨type, rest, -, rfl⟩ := NetUnparser.exists_u16 (n := 0) hsrc
  refine ⟨⟨dst, src, type⟩, rest, ?_⟩
  simp only [serialize, List.append_assoc]

end EthernetHeader

namespace EthernetFrame

def parse (f : EthernetFrame) (buffer : List UInt8) : ParseResult × EthernetFrame :=
  let (_, header, p) := f.header.parse ⟨buffer, .noError⟩
  (p.error, { header, payload := BufferContents.ofBuffer p.buffer })

def serialize (f : EthernetFrame) : BufferContents :=
  (BufferContents.ofBuffer f.header.serialize).append f.payload

theorem serialize_concatenate (f : EthernetFrame) :
    f.serialize.concatenate = f.header.serialize ++ f.payload.concatenate := by
  rw [serialize, BufferContents.concatenate_append, BufferContents.concatenate_ofBuffer]

theorem parse_append (f₀ : EthernetFrame) (h : EthernetHeader) (rest : List UInt8) :
    f₀.parse (h.serialize ++ rest) = (.noError, ⟨h, BufferContents.ofBuffer rest⟩) := by
  simp only [parse, EthernetHeader.parse_serialize]

/-- A packet without room for a header is taken for a frame that is all payload. -/
theorem parse_of_short (f₀ : EthernetFrame) {buffer : List UInt8}
    (hshort : buffer.length < EthernetHeader.LENGTH) :
    f₀.parse buffer = (.noError, ⟨f₀.header, BufferContents.ofBuffer buffer⟩) := by
  have hheader := EthernetHeader.parse_of_short f₀.header
    (show (NetParser.mk buffer .noError).buffer.length < EthernetHeader.LENGTH from hshort)
  simp only [parse, hheader]

/-- On these bytes the parser accepts just what has a header, and accepts it as it came. -/
def ExactOn (f₀ : EthernetFrame) (buffer : List UInt8) : Prop :=
  ((f₀.parse buffer).1 = .noError ↔ EthernetHeader.LENGTH ≤ buffer.length) ∧
    ((f₀.parse buffer).1 = .noError → (f₀.parse buffer).2.serialize.concatenate = buffer)

theorem exactOn_of_header (f₀ : EthernetFrame) {buffer : List UInt8}
    (hlength : EthernetHeader.LENGTH ≤ buffer.length) : f₀.ExactOn buffer := by
  obtain ⟨h, rest, rfl⟩ := EthernetHeader.exists_serialize hlength
  have hparse := parse_append f₀ h rest
  refine ⟨?_, ?_⟩
  · simp only [hparse, hlength]
  · intro _
    rw [hparse, serialize_concatenate, BufferContents.concatenate_ofBuffer]

/-- What was written is read back, whatever the frame read into. Of the other direction only
the packets without room for a header fall out. -/
theorem codec_exact_iff (f f₀ : EthernetFrame) (buffer : List UInt8) :
    (∃ g, f₀.parse f.serialize.concatenate = (.noError, g) ∧
      g.header.dst = f.header.dst ∧ g.header.src = f.header.src ∧
      g.header.type = f.header.type ∧ g.payload.concatenate = f.payload.concatenate) ∧
    (f₀.ExactOn buffer ↔ EthernetHeader.LENGTH ≤ buffer.length) := by
  refine ⟨?_, ?_, exactOn_of_header f₀⟩
  · refine ⟨⟨f.header, BufferContents.ofBuffer f.payload.concatenate⟩, ?_, rfl, rfl, rfl, ?_⟩
    · rw [serialize_concatenate, parse_append]
    · exact BufferContents.concatenate_ofBuffer _
  · intro hexact
    by_contra hshort
    have hparse := parse_of_short f₀ (Nat.not_le.mp hshort)
    exact hshort (hexact.1.mp (congrArg Prod.fst hparse))

/-- Nothing at all is accepted as a frame, and written as the header that was there before. -/
theorem parse_empty_accepted :
    let f₀ : EthernetFrame := ⟨⟨ETHERNET_BROADCAST, .zero, EthernetHeader.TYPE_ARP⟩, {}⟩
    (f₀.parse []).1 = .noError ∧ ([] : List UInt8).length < EthernetHeader.LENGTH ∧
      (f₀.parse []).2.serialize.concatenate ≠ [] := by
  decide

end EthernetFrame

namespace ARPMessage

theorem serialize_of_unsupported {m : ARPMessage} (h : m.supported = false) :
    ∃ e, m.serialize = .error e := by
  unfold serialize
  rw [h]
  exact ⟨_, rfl⟩

/-- A packet that is long enough begins with the bytes of some message. -/
theorem exists_bytes {buffer : List UInt8} (hlength : LENGTH ≤ buffer.length) :
    ∃ (m : ARPMessage) (rest : List UInt8), buffer = m.bytes ++ rest := by
  -- each field takes its bytes off the front; the numbers are what is left behind it
  obtain ⟨hardwareType, _, h₁, rfl⟩ := NetUnparser.exists_u16 (n := 26) hlength
  obtain ⟨protocolType, _, h₂, rfl⟩ := NetUnparser.exists_u16 (n := 24) h₁
  obtain ⟨hardwareAddressSize, _, h₃, rfl⟩ := NetUnparser.exists_u8 (n := 23) h₂
  obtain ⟨protocolAddressSize, _, h₄, rfl⟩ := NetUnparser.exists_u8 (n := 22) h₃
  obtain ⟨opcode, _, h₅, rfl⟩ := NetUnparser.exists_u16 (n := 20) h₄
  obtain ⟨senderEthernetAddress, _, h₆, rfl⟩ := EthernetAddress.exists_unparse (n := 14) h₅
  obtain ⟨senderIpAddress, _, h₇, rfl⟩ := NetUnparser.exists_u32 (n := 10) h₆
  obtain ⟨targetEthernetAddress, _, h₈, rfl⟩ := EthernetAddress.exists_unparse (n := 4) h₇
  obtain ⟨targetIpAddress, rest, -, rfl⟩ := NetUnparser.exists_u32 (n := 0) h₈
  refine ⟨⟨hardwareType, protocolType, hardwareAddressSize, protocolAddressSize, opcode,
    senderEthernetAddress, senderIpAddress, targetEthernetAddress, targetIpAddress⟩, rest, ?_⟩
  simp only [bytes, List.append_assoc]

/-- The eight bytes in front of the addresses: Ethernet, IPv4, addresses of six and of four
bytes, and the operation. -/
def start (opcode : UInt8) : List UInt8 := [0, 1, 8, 0, 6, 4, 0, opcode]

theorem start_eq {opcode : UInt8} (h : opcode = 1 ∨ opcode = 2) :
    start opcode = NetUnparser.u16 TYPE_ETHERNET ++ (NetUnparser.u16 EthernetHeader.TYPE_IPv4 ++
      (NetUnparser.u8 6 ++ (NetUnparser.u8 4 ++ (NetUnparser.u16 opcode.toUInt16 ++ [])))) := by
  rcases h with rfl | rfl <;> decide

theorem take_start (m : ARPMessage) (rest : List UInt8) :
    (m.bytes ++ rest).take 8 =
      NetUnparser.u16 m.hardwareType ++ (NetUnparser.u16 m.protocolType ++
        (NetUnparser.u8 m.hardwareAddressSize ++ (NetUnparser.u8 m.protocolAddressSize ++
          (NetUnparser.u16 m.opcode ++ [])))) := by
  simp only [bytes, List.append_assoc, List.take_append, List.take_of_length_le,
    NetUnparser.u16_length, NetUnparser.u8_length, Nat.reduceSub, Nat.reduceLeDiff,
    Nat.zero_sub, List.take_zero, List.append_nil]

theorem take_start_eq_iff {opcode : UInt8} (h : opcode = 1 ∨ opcode = 2) (m : ARPMessage)
    (rest : List UInt8) :
    (m.bytes ++ rest).take 8 = start opcode ↔
      m.hardwareType = TYPE_ETHERNET ∧ m.protocolType = EthernetHeader.TYPE_IPv4 ∧
        m.hardwareAddressSize = 6 ∧ m.protocolAddressSize = 4 ∧ m.opcode = opcode.toUInt16 := by
  rw [take_start, start_eq h]
  simp only [NetUnparser.u16_append_inj, NetUnparser.u8_append_inj, and_true]

theorem supported_iff (m : ARPMessage) (rest : List UInt8) :
    m.supported = true ↔
      (m.bytes ++ rest).take 8 = start 1 ∨ (m.bytes ++ rest).take 8 = start 2 := by
  rw [take_start_eq_iff (Or.inl rfl), take_start_eq_iff (Or.inr rfl)]
  simp only [supported, Bool.and_eq_true, Bool.or_eq_true, beq_iff_eq]
  change _ ↔ (_ ∧ _ ∧ _ ∧ _ ∧ m.opcode = OPCODE_REQUEST) ∨ (_ ∧ _ ∧ _ ∧ _ ∧ m.opcode = OPCODE_REPLY)
  tauto

/-- The parser accepts exactly what has the length and the right start. -/
theorem parse_accepts_iff (m₀ : ARPMessage) (buffer : List UInt8) :
    (m₀.parse buffer).1 = .noError ↔
      LENGTH ≤ buffer.length ∧ (buffer.take 8 = start 1 ∨ buffer.take 8 = start 2) := by
  by_cases hlength : LENGTH ≤ buffer.length
  · obtain ⟨m, rest, rfl⟩ := exists_bytes hlength
    rw [parse_append, ← supported_iff m rest]
    by_cases hsupported : m.supported = true <;> simp only [hsupported, hlength, if_true, if_false,
      true_and, reduceCtorEq]
  · rw [parse_of_short m₀ (Nat.not_le.mp hlength)]
    simp [hlength]

/-- What was accepted is written as it came, without what followed. -/
theorem serialize_of_parse {m₀ m : ARPMessage} {buffer : List UInt8}
    (hparse : m₀.parse buffer = (.noError, m)) : m.serialize = .ok (buffer.take LENGTH) := by
  have hlength := ((parse_accepts_iff m₀ buffer).mp (congrArg Prod.fst hparse)).1
  obtain ⟨m', rest, rfl⟩ := exists_bytes hlength
  rw [parse_append] at hparse
  split at hparse
  · rename_i hsupported
    obtain ⟨-, rfl⟩ := Prod.mk.inj hparse
    rw [serialize_of_supported hsupported, List.take_left' (bytes_length m')]
  · exact absurd (Prod.mk.inj hparse).1 (by decide)

/-- Reading undoes writing, only supported messages are written, and writing undoes reading
on all that is accepted. -/
theorem codec_exact :
    (∀ m m₀ : ARPMessage, m.supported = true →
      ∃ bytes, m.serialize = .ok bytes ∧ m₀.parse bytes = (.noError, m)) ∧
    (∀ m : ARPMessage, m.supported = false → ∃ e, m.serialize = .error e) ∧
    ∀ (m₀ : ARPMessage) (buffer : List UInt8),
      ((m₀.parse buffer).1 = .noError ↔
        28 ≤ buffer.length ∧
          (buffer.take 8 = [0, 1, 8, 0, 6, 4, 0, 1] ∨ buffer.take 8 = [0, 1, 8, 0, 6, 4, 0, 2])) ∧
      ((m₀.parse buffer).1 = .noError →
        (m₀.parse buffer).2.serialize = .ok (buffer.take 28)) := by
  refine ⟨?_, ?_, ?_⟩
  · intro m m₀ hsupported
    exact ⟨m.bytes, serialize_of_supported hsupported, parse_bytes hsupported m₀⟩
  · intro m hunsupported
    exact serialize_of_unsupported hunsupported
  · intro m₀ buffer
    refine ⟨parse_accepts_iff m₀ buffer, ?_⟩
    intro haccepted
    exact serialize_of_parse (Prod.ext haccepted rfl)

theorem codec_exact_request :
    let m : ARPMessage := { opcode := OPCODE_REQUEST, targetIpAddress := 7 }
    ∃ bytes, m.serialize = .ok bytes ∧ parse {} bytes = (.noError, m) :=
  codec_exact.1 _ {} (by decide)

end ARPMessage

end Sponge
