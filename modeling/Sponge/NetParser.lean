import Sponge.Octets
import Sponge.Words

/-!
Reading and writing packets: buffers, the parser, the checksum.
The parser remembers the first thing that went wrong as its error and returns
zeros from then on, without consuming anything. An exception is an `Except`
value with the text of the exception.
-/
namespace Sponge

open Octets

inductive ParseResult where
  | noError
  | badChecksum
  | packetTooShort
  | wrongIPVersion
  | headerTooShort
  | truncatedPacket
  | unsupported
  deriving DecidableEq, Repr

/-- What a `BufferList` holds: a string in several pieces, without their storage. -/
structure BufferContents where
  buffers : List (List UInt8) := []
  deriving DecidableEq, Repr

namespace BufferContents

def ofBuffer (buffer : List UInt8) : BufferContents := ⟨[buffer]⟩

def append (b other : BufferContents) : BufferContents := ⟨b.buffers ++ other.buffers⟩

def size (b : BufferContents) : ℕ := (b.buffers.map List.length).sum

def concatenate (b : BufferContents) : List UInt8 := b.buffers.flatten

/-- The conversion to one `Buffer`, which the source allows for at most one piece. -/
def toBuffer (b : BufferContents) : Except String (List UInt8) :=
  match b.buffers with
  | [] => .ok []
  | [buffer] => .ok buffer
  | _ => .error
      "BufferList: please use concatenate() to combine a multi-Buffer BufferList into one Buffer"

theorem size_eq (b : BufferContents) : b.size = b.concatenate.length := by
  rw [size, concatenate, List.length_flatten]

@[simp] theorem concatenate_ofBuffer (buffer : List UInt8) :
    (ofBuffer buffer).concatenate = buffer := by
  simp [ofBuffer, concatenate]

@[simp] theorem toBuffer_ofBuffer (buffer : List UInt8) :
    (ofBuffer buffer).toBuffer = .ok buffer := rfl

@[simp] theorem concatenate_append (b other : BufferContents) :
    (b.append other).concatenate = b.concatenate ++ other.concatenate := by
  simp [append, concatenate]

end BufferContents

structure NetParser where
  buffer : List UInt8
  error : ParseResult := .noError
  deriving DecidableEq, Repr

namespace NetParser

def checkSize (p : NetParser) (size : ℕ) : NetParser :=
  if p.buffer.length < size then { p with error := .packetTooShort } else p

def parseInt (p : NetParser) (len : ℕ) : ℕ × NetParser :=
  let p := p.checkSize len
  if p.error ≠ .noError then (0, p)
  else (ofBigEndian (p.buffer.take len), { p with buffer := p.buffer.drop len })

def u32 (p : NetParser) : UInt32 × NetParser :=
  let (v, p) := p.parseInt 4
  (UInt32.ofNat v, p)

def u16 (p : NetParser) : UInt16 × NetParser :=
  let (v, p) := p.parseInt 2
  (UInt16.ofNat v, p)

def u8 (p : NetParser) : UInt8 × NetParser :=
  let (v, p) := p.parseInt 1
  (UInt8.ofNat v, p)

def removePrefix (p : NetParser) (n : ℕ) : NetParser :=
  let p := p.checkSize n
  if p.error ≠ .noError then p else { p with buffer := p.buffer.drop n }

end NetParser

namespace NetUnparser

def u32 (val : UInt32) : List UInt8 := bigEndian 4 val.toNat

def u16 (val : UInt16) : List UInt8 := bigEndian 2 val.toNat

def u8 (val : UInt8) : List UInt8 := bigEndian 1 val.toNat

@[simp] theorem u32_length (val : UInt32) : (u32 val).length = 4 := bigEndian_length _ _

@[simp] theorem u16_length (val : UInt16) : (u16 val).length = 2 := bigEndian_length _ _

@[simp] theorem u8_length (val : UInt8) : (u8 val).length = 1 := bigEndian_length _ _

theorem u8_eq (val : UInt8) : u8 val = [val] := by
  simp [u8, bigEndian]

/-- A buffer that is long enough begins with a number written in any given number of bytes,
with n bytes left behind it. -/
theorem exists_bigEndian {len n : ℕ} {buffer : List UInt8} (h : len + n ≤ buffer.length) :
    ∃ v rest, v < 256 ^ len ∧ n ≤ rest.length ∧ buffer = bigEndian len v ++ rest := by
  have hlen : (buffer.take len).length = len := List.length_take_of_le (by omega)
  have hlt := ofBigEndian_lt (buffer.take len)
  have hwrite := bigEndian_ofBigEndian (buffer.take len)
  rw [hlen] at hlt hwrite
  refine ⟨_, buffer.drop len, hlt, ?_, by rw [hwrite, List.take_append_drop]⟩
  rw [List.length_drop]
  omega

theorem exists_u32 {n : ℕ} {buffer : List UInt8} (h : 4 + n ≤ buffer.length) :
    ∃ val rest, n ≤ rest.length ∧ buffer = u32 val ++ rest := by
  obtain ⟨v, rest, hlt, hrest, hbuffer⟩ := exists_bigEndian h
  refine ⟨UInt32.ofNat v, rest, hrest, ?_⟩
  rw [u32, UInt32.toNat_ofNat_of_lt' hlt]
  exact hbuffer

theorem exists_u16 {n : ℕ} {buffer : List UInt8} (h : 2 + n ≤ buffer.length) :
    ∃ val rest, n ≤ rest.length ∧ buffer = u16 val ++ rest := by
  obtain ⟨v, rest, hlt, hrest, hbuffer⟩ := exists_bigEndian h
  refine ⟨UInt16.ofNat v, rest, hrest, ?_⟩
  rw [u16, UInt16.toNat_ofNat_of_lt' hlt]
  exact hbuffer

theorem exists_u8 {n : ℕ} {buffer : List UInt8} (h : 1 + n ≤ buffer.length) :
    ∃ val rest, n ≤ rest.length ∧ buffer = u8 val ++ rest := by
  obtain ⟨v, rest, hlt, hrest, hbuffer⟩ := exists_bigEndian h
  refine ⟨UInt8.ofNat v, rest, hrest, ?_⟩
  rw [u8, UInt8.toNat_ofNat_of_lt' hlt]
  exact hbuffer

end NetUnparser

namespace NetParser

theorem checkSize_of_le {p : NetParser} {size : ℕ} (h : size ≤ p.buffer.length) :
    p.checkSize size = p := if_neg (Nat.not_lt.mpr h)

theorem parseInt_of_le {buffer : List UInt8} {len : ℕ} (h : len ≤ buffer.length) :
    (NetParser.mk buffer .noError).parseInt len =
      (ofBigEndian (buffer.take len), ⟨buffer.drop len, .noError⟩) := by
  rw [parseInt, checkSize_of_le h]
  simp

/-- The parser reads back what was written in as many bytes, and leaves the rest. -/
theorem parseInt_bigEndian {len v : ℕ} (h : v < 256 ^ len) (rest : List UInt8) :
    (NetParser.mk (bigEndian len v ++ rest) .noError).parseInt len =
      (v, ⟨rest, .noError⟩) := by
  rw [parseInt_of_le (by simp), List.take_left' (bigEndian_length len v),
    List.drop_left' (bigEndian_length len v), ofBigEndian_bigEndian h]

@[simp] theorem u32_unparse (val : UInt32) (rest : List UInt8) :
    (NetParser.mk (NetUnparser.u32 val ++ rest) .noError).u32 = (val, ⟨rest, .noError⟩) := by
  have hval := val.toNat_lt
  simp [u32, NetUnparser.u32, parseInt_bigEndian (show val.toNat < 256 ^ 4 by omega)]

@[simp] theorem u16_unparse (val : UInt16) (rest : List UInt8) :
    (NetParser.mk (NetUnparser.u16 val ++ rest) .noError).u16 = (val, ⟨rest, .noError⟩) := by
  have hval := val.toNat_lt
  simp [u16, NetUnparser.u16, parseInt_bigEndian (show val.toNat < 256 ^ 2 by omega)]

@[simp] theorem u8_unparse (val : UInt8) (rest : List UInt8) :
    (NetParser.mk (NetUnparser.u8 val ++ rest) .noError).u8 = (val, ⟨rest, .noError⟩) := by
  have hval := val.toNat_lt
  simp [u8, NetUnparser.u8, parseInt_bigEndian (show val.toNat < 256 ^ 1 by omega)]

theorem u8_cons (b : UInt8) (rest : List UInt8) :
    (NetParser.mk (b :: rest) .noError).u8 = (b, ⟨rest, .noError⟩) := by
  rw [u8, parseInt_of_le (by simp)]
  simp [ofBigEndian]

/-- Skipping a prefix that is there. -/
theorem removePrefix_of_le {buffer : List UInt8} {n : ℕ} (h : n ≤ buffer.length) :
    (NetParser.mk buffer .noError).removePrefix n = ⟨buffer.drop n, .noError⟩ := by
  rw [removePrefix, checkSize_of_le h]
  simp

theorem removePrefix_append {skipped : List UInt8} {n : ℕ} (h : skipped.length = n)
    (rest : List UInt8) :
    (NetParser.mk (skipped ++ rest) .noError).removePrefix n = ⟨rest, .noError⟩ := by
  rw [removePrefix_of_le (by simp [h]), List.drop_left' h]

/-- Reads of n bytes in all, from p to q: if they ended without an error, they began without
one, found these bytes and took them. -/
def Consumes (n : ℕ) (p q : NetParser) : Prop :=
  q.error = .noError →
    p.error = .noError ∧ n ≤ p.buffer.length ∧ q.buffer = p.buffer.drop n

theorem Consumes.trans {m n : ℕ} {p q r : NetParser} (hpq : Consumes m p q)
    (hqr : Consumes n q r) : Consumes (m + n) p r := by
  intro hr
  obtain ⟨hq, hn, hrest⟩ := hqr hr
  obtain ⟨hp, hm, htaken⟩ := hpq hq
  rw [htaken, List.length_drop] at hn
  refine ⟨hp, by omega, ?_⟩
  rw [hrest, htaken, List.drop_drop]

theorem checkSize_noError {p : NetParser} {size : ℕ} (h : (p.checkSize size).error = .noError) :
    p.error = .noError ∧ size ≤ p.buffer.length := by
  unfold checkSize at h
  split at h
  · simp only [reduceCtorEq] at h
  · exact ⟨h, by omega⟩

@[simp] theorem checkSize_buffer (p : NetParser) (size : ℕ) :
    (p.checkSize size).buffer = p.buffer := by
  unfold checkSize
  split <;> rfl

theorem parseInt_consumes (p : NetParser) (len : ℕ) : Consumes len p (p.parseInt len).2 := by
  intro h
  simp only [parseInt] at h ⊢
  split at h
  · contradiction
  · rename_i hsize
    obtain ⟨hp, hlen⟩ := checkSize_noError (Decidable.of_not_not hsize)
    refine ⟨hp, hlen, ?_⟩
    rw [if_neg hsize, checkSize_buffer]

theorem removePrefix_consumes (p : NetParser) (n : ℕ) : Consumes n p (p.removePrefix n) := by
  intro h
  simp only [removePrefix] at h ⊢
  split at h
  · contradiction
  · rename_i hsize
    obtain ⟨hp, hlen⟩ := checkSize_noError (Decidable.of_not_not hsize)
    refine ⟨hp, hlen, ?_⟩
    rw [if_neg hsize, checkSize_buffer]

theorem u32_consumes (p : NetParser) : Consumes 4 p p.u32.2 := parseInt_consumes p 4

theorem u16_consumes (p : NetParser) : Consumes 2 p p.u16.2 := parseInt_consumes p 2

theorem u8_consumes (p : NetParser) : Consumes 1 p p.u8.2 := parseInt_consumes p 1

end NetParser

/-- `string::resize`: cut off, or filled up with zeros. -/
def resize (s : List UInt8) (n : ℕ) : List UInt8 :=
  s.take n ++ List.replicate (n - s.length) 0

theorem resize_of_le {s : List UInt8} {n : ℕ} (h : s.length ≤ n) :
    resize s n = s ++ List.replicate (n - s.length) 0 := by
  rw [resize, List.take_of_length_le h]

structure InternetChecksum where
  sum : UInt32 := 0
  parity : Bool := false
  deriving DecidableEq, Repr

namespace InternetChecksum

def addByte (c : InternetChecksum) (b : UInt8) : InternetChecksum :=
  let val : UInt16 := if c.parity then b.toUInt16 else b.toUInt16 <<< 8
  { sum := c.sum + val.toUInt32, parity := !c.parity }

def add (c : InternetChecksum) (data : List UInt8) : InternetChecksum :=
  data.foldl addByte c

/-- The loop of the source on the 32-bit sum is `foldCarries`; it ends for every sum. -/
def value (c : InternetChecksum) : UInt16 :=
  ~~~ UInt16.ofNat (foldCarries c.sum.toNat)

theorem add_append (c : InternetChecksum) (xs ys : List UInt8) :
    (c.add xs).add ys = c.add (xs ++ ys) := List.foldl_append.symm

theorem addByte_sum (c : InternetChecksum) (b : UInt8) :
    (c.addByte b).sum.toNat =
      (c.sum.toNat + (if c.parity then b.toNat else 256 * b.toNat)) % 2 ^ 32 := by
  have hb := b.toNat_lt
  have hhigh : b.toNat <<< 8 % 65536 = 256 * b.toNat := by
    rw [Nat.shiftLeft_eq]
    omega
  cases hp : c.parity <;> simp [addByte, hp, UInt32.toNat_add, hhigh]

theorem add_sum (c : InternetChecksum) (data : List UInt8) :
    (c.add data).sum.toNat = (c.sum.toNat + wordSum c.parity data) % 2 ^ 32 := by
  induction data generalizing c with
  | nil =>
    have hsum := c.sum.toNat_lt
    simp [add, wordSum, Nat.mod_eq_of_lt hsum]
  | cons b bs ih =>
    have hstep : (c.add (b :: bs)) = (c.addByte b).add bs := rfl
    have hparity : (c.addByte b).parity = !c.parity := rfl
    rw [hstep, ih, addByte_sum, hparity, wordSum, Nat.mod_add_mod, Nat.add_assoc]

/-- The value is the complement of the folded sum. -/
theorem value_toNat (c : InternetChecksum) : c.value.toNat = 65535 - foldCarries c.sum.toNat := by
  have hle := foldCarries_le c.sum.toNat
  rw [value, UInt16.toNat_not, UInt16.toNat_ofNat', Nat.mod_eq_of_lt (by omega)]
  rfl

theorem value_eq_zero_iff (c : InternetChecksum) :
    c.value = 0 ↔ foldCarries c.sum.toNat = 65535 := by
  have hle := foldCarries_le c.sum.toNat
  have hzero : (0 : UInt16).toNat = 0 := rfl
  rw [← UInt16.toNat_inj, value_toNat, hzero]
  omega

/-- Data that carries its own checksum in a word behind an even number of bytes has
the checksum zero, also where the 32-bit sum wraps: the complement does not make it wrap
once more. -/
theorem value_self {initialSum : UInt32} {pre post : List UInt8} {c : UInt16}
    (hpre : pre.length % 2 = 0)
    (hc : c = (({ sum := initialSum } : InternetChecksum).add
      (pre ++ (NetUnparser.u16 0 ++ post))).value) :
    (({ sum := initialSum } : InternetChecksum).add
      (pre ++ (NetUnparser.u16 c ++ post))).value = 0 := by
  have hzero := add_sum { sum := initialSum } (pre ++ (NetUnparser.u16 0 ++ post))
  have hfull := add_sum { sum := initialSum } (pre ++ (NetUnparser.u16 c ++ post))
  have hvalue := value_toNat (({ sum := initialSum } : InternetChecksum).add
    (pre ++ (NetUnparser.u16 0 ++ post)))
  rw [NetUnparser.u16, wordSum_field hpre c.toNat_lt post] at hfull
  rw [← hc] at hvalue
  have hlt := add_complement_lt (UInt32.toNat_lt (({ sum := initialSum } : InternetChecksum).add
    (pre ++ (NetUnparser.u16 0 ++ post))).sum)
  have hones := foldCarries_complement (({ sum := initialSum } : InternetChecksum).add
    (pre ++ (NetUnparser.u16 0 ++ post))).sum.toNat
  rw [value_eq_zero_iff, NetUnparser.u16, hfull, ← Nat.add_assoc, ← Nat.mod_add_mod]
  have hsame : (initialSum.toNat + wordSum false (pre ++ (bigEndian 2 0 ++ post))) % 2 ^ 32 =
      (({ sum := initialSum } : InternetChecksum).add
        (pre ++ (NetUnparser.u16 0 ++ post))).sum.toNat := hzero.symm
  rw [hsame, hvalue, Nat.mod_eq_of_lt hlt, hones]

theorem foldl_add (c : InternetChecksum) (pieces : List (List UInt8)) :
    pieces.foldl add c = c.add pieces.flatten := by
  induction pieces generalizing c with
  | nil => rfl
  | cons piece pieces ih => rw [List.foldl_cons, ih, List.flatten_cons, add_append]

/-- However the bytes are cut into pieces, the sum is that of their 16-bit words, and the value
is the complement of their ones'-complement sum. -/
theorem value_of_pieces {initialSum : UInt32} {pieces : List (List UInt8)}
    (hinitial : initialSum.toNat < 2 ^ 20) (hlength : pieces.flatten.length ≤ 65535) :
    let c := pieces.foldl add { sum := initialSum }
    c.sum.toNat = initialSum.toNat + (words pieces.flatten).sum ∧
      c.value = ~~~ UInt16.ofNat (onesSum initialSum.toNat (words pieces.flatten)) := by
  intro c
  have hsum : c.sum.toNat = initialSum.toNat + (words pieces.flatten).sum := by
    have hle := wordSum_le false pieces.flatten
    have hwrapped := add_sum { sum := initialSum } pieces.flatten
    rw [Nat.mod_eq_of_lt (by simp only; omega), wordSum_eq_sum_words] at hwrapped
    rw [← hwrapped, ← foldl_add]
  refine ⟨hsum, ?_⟩
  rw [value, hsum, onesSum_eq (by omega) (words_lt _)]

/-- Odd pieces, an empty one, and a start with a carry. -/
theorem value_of_pieces_odd :
    let c := [[1, 2, 3], [], [4], [5]].foldl add { sum := 0x10001 }
    c.sum.toNat = 0x10001 + (0x0102 + 0x0304 + 0x0500) ∧
      c.value = ~~~ UInt16.ofNat (onesSum 0x10001 [0x0102, 0x0304, 0x0500]) :=
  @value_of_pieces 0x10001 [[1, 2, 3], [], [4], [5]] (by decide) (by decide)

end InternetChecksum

end Sponge
