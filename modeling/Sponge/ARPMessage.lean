import Sponge.NetParser

/-!
Ethernet frames and the ARP messages in them.
-/
namespace Sponge

structure EthernetAddress where
  bytes : List UInt8
  length_eq : bytes.length = 6
  deriving DecidableEq, Repr

namespace EthernetAddress

def ofOctets (a b c d e f : UInt8) : EthernetAddress := ⟨[a, b, c, d, e, f], rfl⟩

def zero : EthernetAddress := ofOctets 0 0 0 0 0 0

/-- The loop that writes an address byte by byte. -/
def unparse (a : EthernetAddress) : List UInt8 := a.bytes.flatMap NetUnparser.u8

theorem unparse_eq (a : EthernetAddress) : a.unparse = a.bytes := by
  have hbyte : NetUnparser.u8 = fun val => [val] := funext NetUnparser.u8_eq
  rw [unparse, hbyte, List.flatMap_singleton' a.bytes]

@[simp] theorem unparse_length (a : EthernetAddress) : a.unparse.length = 6 := by
  rw [unparse_eq, a.length_eq]

theorem exists_unparse {n : ℕ} {buffer : List UInt8} (h : 6 + n ≤ buffer.length) :
    ∃ (a : EthernetAddress) (rest : List UInt8),
      n ≤ rest.length ∧ buffer = a.unparse ++ rest := by
  have hlength : (buffer.take 6).length = 6 := List.length_take_of_le (by omega)
  refine ⟨⟨buffer.take 6, hlength⟩, buffer.drop 6, ?_, ?_⟩
  · rw [List.length_drop]
    omega
  · rw [unparse_eq, List.take_append_drop]

end EthernetAddress

def ETHERNET_BROADCAST : EthernetAddress := .ofOctets 0xff 0xff 0xff 0xff 0xff 0xff

namespace NetParser

/-- The loop that reads n bytes one by one. -/
def octets : ℕ → NetParser → List UInt8 × NetParser
  | 0, p => ([], p)
  | n + 1, p =>
    let (byte, p) := p.u8
    let (bytes, p) := octets n p
    (byte :: bytes, p)

theorem octets_length (n : ℕ) (p : NetParser) : (octets n p).1.length = n := by
  induction n generalizing p with
  | zero => rfl
  | succ n ih => simp [octets, ih]

def ethernetAddress (p : NetParser) : EthernetAddress × NetParser :=
  (⟨(octets 6 p).1, octets_length 6 p⟩, (octets 6 p).2)

theorem octets_unparse (bs rest : List UInt8) :
    octets bs.length ⟨bs.flatMap NetUnparser.u8 ++ rest, .noError⟩ =
      (bs, ⟨rest, .noError⟩) := by
  induction bs with
  | nil => rfl
  | cons b bs ih => simp [octets, ih]

@[simp] theorem ethernetAddress_unparse (a : EthernetAddress) (rest : List UInt8) :
    (NetParser.mk (a.unparse ++ rest) .noError).ethernetAddress =
      (a, ⟨rest, .noError⟩) := by
  have hread := octets_unparse a.bytes rest
  rw [a.length_eq] at hread
  simp only [ethernetAddress, EthernetAddress.unparse, hread]

end NetParser

structure EthernetHeader where
  dst : EthernetAddress
  src : EthernetAddress
  type : UInt16
  deriving DecidableEq, Repr

namespace EthernetHeader

def TYPE_IPv4 : UInt16 := 0x800

def TYPE_ARP : UInt16 := 0x806

end EthernetHeader

structure EthernetFrame where
  header : EthernetHeader
  payload : BufferContents := {}
  deriving DecidableEq, Repr

structure ARPMessage where
  hardwareType : UInt16 := 1
  protocolType : UInt16 := EthernetHeader.TYPE_IPv4
  hardwareAddressSize : UInt8 := 6
  protocolAddressSize : UInt8 := 4
  opcode : UInt16 := 0
  senderEthernetAddress : EthernetAddress := EthernetAddress.zero
  senderIpAddress : UInt32 := 0
  targetEthernetAddress : EthernetAddress := EthernetAddress.zero
  targetIpAddress : UInt32 := 0
  deriving DecidableEq, Repr

namespace ARPMessage

def LENGTH : ℕ := 28

def TYPE_ETHERNET : UInt16 := 1

def OPCODE_REQUEST : UInt16 := 1

def OPCODE_REPLY : UInt16 := 2

def supported (m : ARPMessage) : Bool :=
  m.hardwareType == TYPE_ETHERNET && m.protocolType == EthernetHeader.TYPE_IPv4 &&
    m.hardwareAddressSize == 6 && m.protocolAddressSize == 4 &&
    (m.opcode == OPCODE_REQUEST || m.opcode == OPCODE_REPLY)

def parse (m : ARPMessage) (buffer : List UInt8) : ParseResult × ARPMessage :=
  let p : NetParser := ⟨buffer, .noError⟩
  if p.buffer.length < LENGTH then (.packetTooShort, m)
  else
    let (hardwareType, p) := p.u16
    let (protocolType, p) := p.u16
    let (hardwareAddressSize, p) := p.u8
    let (protocolAddressSize, p) := p.u8
    let (opcode, p) := p.u16
    let m := { m with
      hardwareType, protocolType, hardwareAddressSize, protocolAddressSize, opcode }
    if !m.supported then (.unsupported, m)
    else
      let (senderEthernetAddress, p) := p.ethernetAddress
      let (senderIpAddress, p) := p.u32
      let (targetEthernetAddress, p) := p.ethernetAddress
      let (targetIpAddress, p) := p.u32
      (p.error, { m with
        senderEthernetAddress, senderIpAddress, targetEthernetAddress, targetIpAddress })

/-- The bytes of a message that passes the check of `serialize`. -/
def bytes (m : ARPMessage) : List UInt8 :=
  NetUnparser.u16 m.hardwareType ++ NetUnparser.u16 m.protocolType ++
    NetUnparser.u8 m.hardwareAddressSize ++ NetUnparser.u8 m.protocolAddressSize ++
    NetUnparser.u16 m.opcode ++ m.senderEthernetAddress.unparse ++
    NetUnparser.u32 m.senderIpAddress ++ m.targetEthernetAddress.unparse ++
    NetUnparser.u32 m.targetIpAddress

def serialize (m : ARPMessage) : Except String (List UInt8) :=
  if !m.supported then
    .error ("ARPMessage::serialize(): unsupported field combination " ++
      "(must be Ethernet/IP, and request or reply)")
  else .ok m.bytes

theorem bytes_length (m : ARPMessage) : m.bytes.length = LENGTH := by
  simp only [bytes, LENGTH, List.length_append, NetUnparser.u16_length, NetUnparser.u8_length,
    NetUnparser.u32_length, EthernetAddress.unparse_length]

theorem serialize_of_supported {m : ARPMessage} (h : m.supported = true) :
    m.serialize = .ok m.bytes := by
  rw [serialize, h]
  rfl

theorem parse_of_short (m₀ : ARPMessage) {buffer : List UInt8} (h : buffer.length < LENGTH) :
    m₀.parse buffer = (.packetTooShort, m₀) := by
  unfold parse
  rw [if_pos h]

/-- What the first five reads of `parse` make of the message being overwritten. -/
def prelude (m₀ m : ARPMessage) : ARPMessage :=
  { m₀ with
    hardwareType := m.hardwareType, protocolType := m.protocolType
    hardwareAddressSize := m.hardwareAddressSize, protocolAddressSize := m.protocolAddressSize
    opcode := m.opcode }

/-- The bytes of any message are read back, up to the check; what follows them is ignored. -/
theorem parse_append (m m₀ : ARPMessage) (rest : List UInt8) :
    m₀.parse (m.bytes ++ rest) =
      if m.supported = true then (.noError, m) else (.unsupported, m₀.prelude m) := by
  have hlength : ¬ (m.bytes ++ rest).length < LENGTH := by
    rw [List.length_append, bytes_length]
    omega
  have hsupported : (m₀.prelude m).supported = m.supported := rfl
  unfold parse
  rw [if_neg hlength]
  simp only [bytes, List.append_assoc, NetParser.u16_unparse, NetParser.u8_unparse,
    NetParser.u32_unparse, NetParser.ethernetAddress_unparse]
  change (if !(m₀.prelude m).supported then _ else _) = _
  rw [hsupported]
  cases m.supported <;> rfl

/-- Every supported message is read back from its bytes. -/
theorem parse_bytes {m : ARPMessage} (h : m.supported = true) (m₀ : ARPMessage) :
    m₀.parse m.bytes = (.noError, m) := by
  have hread := parse_append m m₀ []
  rwa [List.append_nil, if_pos h] at hread

end ARPMessage

end Sponge
