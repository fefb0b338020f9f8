import Sponge.Excerpts
import Sponge.WrappingIntegers

/-!
TCP segments, as the endpoints exchange them, and the configuration of an
endpoint. The header has all the fields of the source; ports, data offset,
checksum and urgent pointer keep their defaults in the segments an endpoint makes.
`HonestPiece` ties a segment to the stream it is cut from.
-/
namespace Sponge

open Excerpts

structure TCPHeader where
  sport : UInt16 := 0
  dport : UInt16 := 0
  seqno : WrappingInt32 := ⟨0⟩
  ackno : WrappingInt32 := ⟨0⟩
  doff : UInt8 := 5
  urg : Bool := false
  ack : Bool := false
  psh : Bool := false
  rst : Bool := false
  syn : Bool := false
  fin : Bool := false
  win : UInt16 := 0
  cksum : UInt16 := 0
  uptr : UInt16 := 0
  deriving DecidableEq, Repr

/-- Nothing is set but the sequence number and the flags SYN and FIN. -/
def TCPHeader.Plain (h : TCPHeader) : Prop :=
  h = { seqno := h.seqno, syn := h.syn, fin := h.fin }

structure TCPSegment where
  header : TCPHeader := {}
  payload : List UInt8 := []
  deriving DecidableEq, Repr

namespace TCPSegment

/-- Payload bytes, plus one for SYN and one for FIN. -/
def lengthInSequenceSpace (seg : TCPSegment) : ℕ :=
  seg.payload.length + (if seg.header.syn then 1 else 0) + (if seg.header.fin then 1 else 0)

end TCPSegment

/-- The segment carries, at absolute sequence number v, a piece of the stream S whose
SYN has number 0, whose bytes have the numbers from 1 on, and whose FIN comes last. -/
structure HonestPiece (isn : WrappingInt32) (S : List UInt8) (v : ℕ) (seg : TCPSegment) :
    Prop where
  seqno_eq : seg.header.seqno = wrap v isn
  syn_iff : seg.header.syn = true ↔ v = 0
  excerpt : IsExcerpt S (v - 1) seg.payload
  fin_last : seg.header.fin = true → v - 1 + seg.payload.length = S.length

instance (isn : WrappingInt32) (S : List UInt8) (v : ℕ) (seg : TCPSegment) :
    Decidable (HonestPiece isn S v seg) :=
  decidable_of_iff
    (seg.header.seqno = wrap v isn ∧ (seg.header.syn = true ↔ v = 0) ∧
      IsExcerpt S (v - 1) seg.payload ∧
      (seg.header.fin = true → v - 1 + seg.payload.length = S.length))
    ⟨fun h => ⟨h.1, h.2.1, h.2.2.1, h.2.2.2⟩,
      fun h => ⟨h.seqno_eq, h.syn_iff, h.excerpt, h.fin_last⟩⟩

/-- The SYN takes a number exactly at 0. -/
theorem HonestPiece.length_eq {isn : WrappingInt32} {S : List UInt8} {v : ℕ} {seg : TCPSegment}
    (h : HonestPiece isn S v seg) : seg.lengthInSequenceSpace =
      seg.payload.length + (if v = 0 then 1 else 0) + (if seg.header.fin then 1 else 0) := by
  unfold TCPSegment.lengthInSequenceSpace
  simp only [h.syn_iff]

theorem HonestPiece.grow {isn : WrappingInt32} {S T : List UInt8} {v : ℕ} {seg : TCPSegment}
    (h : HonestPiece isn S v seg) (hST : S <+: T) (hfin : seg.header.fin = true → T = S) :
    HonestPiece isn T v seg where
  seqno_eq := h.seqno_eq
  syn_iff := h.syn_iff
  excerpt := h.excerpt.grow hST
  fin_last hf := by
    rw [hfin hf]
    exact h.fin_last hf

structure TCPConfig where
  rtTimeout : UInt16 := 1000
  recvCapacity : ℕ := 64000
  sendCapacity : ℕ := 64000
  fixedIsn : Option WrappingInt32 := none
  deriving DecidableEq, Repr

namespace TCPConfig

def maxPayloadSize : ℕ := 1000

def maxRetxAttempts : ℕ := 8

end TCPConfig

end Sponge
