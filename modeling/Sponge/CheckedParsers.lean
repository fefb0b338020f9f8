import Mathlib.Data.Vector.Defs
import Sponge.FrameCodec
import Sponge.IPv4Datagram
import Sponge.TCPOverIP

/-!
The packet parsers on the buffers of the source.
A `Buffer` is a shared string and an offset; it throws where an index or a
prefix is out of range. Here the parsers are written over such buffers, and
whatever could go wrong is a `Fault`: the two exceptions, a subtraction that
would wrap, and a read past the end. None of them occurs: on every buffer each
parser does what its counterpart over lists of bytes does.
-/
namespace Sponge

open Octets

inductive Fault where
  | outOfRangeAt
  | outOfRangeRemovePrefix
  | underflow
  | readPastEnd
  deriving DecidableEq, Repr

/-- The subtraction of two `size_t`, where it does not wrap. -/
def minus (a b : ℕ) : Except Fault ℕ :=
  if a < b then .error .underflow else .ok (a - b)

theorem minus_of_le {a b : ℕ} (h : b ≤ a) : minus a b = .ok (a - b) := if_neg (Nat.not_lt.mpr h)

/-- A string that may be gone, of which the first bytes have been discarded. -/
structure Buffer where
  storage : Option (List UInt8) := none
  startingOffset : ℕ := 0
  offset_le : ∀ s ∈ storage, startingOffset ≤ s.length

namespace Buffer

def ofString (s : List UInt8) : Buffer := ⟨some s, 0, fun _ _ => Nat.zero_le _⟩

def str (b : Buffer) : List UInt8 :=
  match b.storage with
  | none => []
  | some s => s.drop b.startingOffset

def size (b : Buffer) : ℕ := b.str.length

/-- `Buffer::at`, which checks the index. -/
def atIndex (b : Buffer) (n : ℕ) : Except Fault UInt8 :=
  match b.str[n]? with
  | some c => .ok c
  | none => .error .outOfRangeAt

theorem offset_add_le {b : Buffer} {n : ℕ} (h : n ≤ b.size) :
    ∀ s ∈ b.storage, b.startingOffset + n ≤ s.length := by
  intro s hs
  have hoffset := b.offset_le s hs
  rw [size, str, Option.mem_def.mp hs, List.length_drop] at h
  omega

/-- Discards n bytes, and the whole string once none of it is left. -/
def removePrefix (b : Buffer) (n : ℕ) : Except Fault Buffer :=
  if h : b.size < n then .error .outOfRangeRemovePrefix
  else if b.storage.map List.length = some (b.startingOffset + n) then
    .ok ⟨none, b.startingOffset + n, fun _ hs => absurd hs (Option.not_mem_none _)⟩
  else .ok ⟨b.storage, b.startingOffset + n, offset_add_le (Nat.not_lt.mp h)⟩

/-- The view of the first n bytes that is handed to the checksum. Nothing checks that there
are as many. -/
def firstBytes (b : Buffer) (n : ℕ) : Except Fault (List UInt8) :=
  if b.size < n then .error .readPastEnd else .ok (b.str.take n)

theorem atIndex_of_lt {b : Buffer} {n : ℕ} (h : n < b.str.length) :
    b.atIndex n = .ok b.str[n] := by
  simp only [atIndex, List.getElem?_eq_getElem h]

theorem removePrefix_of_le {b : Buffer} {n : ℕ} (h : n ≤ b.size) :
    ∃ b', b.removePrefix n = .ok b' ∧ b'.str = b.str.drop n := by
  have hrange : ¬ b.size < n := Nat.not_lt.mpr h
  unfold removePrefix
  rw [dif_neg hrange]
  split
  · rename_i hgone
    obtain ⟨s, hs, hlength⟩ := Option.map_eq_some_iff.mp hgone
    refine ⟨_, rfl, ?_⟩
    simp only [str, hs, List.drop_drop]
    rw [List.drop_eq_nil_of_le (Nat.le_of_eq hlength)]
  · refine ⟨_, rfl, ?_⟩
    obtain ⟨storage, offset, hoffset⟩ := b
    cases storage with
    | none => simp only [str, List.drop_nil]
    | some s => simp only [str, List.drop_drop]

end Buffer

/-- `NetParser` over a `Buffer`. -/
structure BufferParser where
  buffer : Buffer
  error : ParseResult := .noError

namespace BufferParser

/-- What the parser over lists of bytes sees of this one. -/
def view (p : BufferParser) : NetParser := ⟨p.buffer.str, p.error⟩

def checkSize (p : BufferParser) (size : ℕ) : BufferParser :=
  if p.buffer.size < size then { p with error := .packetTooShort } else p

/-- The loop of `_parse_int` over the indices from i on, with n rounds to go. -/
def readFrom (b : Buffer) : ℕ → ℕ → ℕ → Except Fault ℕ
  | _, 0, ret => .ok ret
  | i, n + 1, ret => do
    let byte ← b.atIndex i
    readFrom b (i + 1) n (256 * ret + byte.toNat)

def parseInt (p : BufferParser) (len : ℕ) : Except Fault (ℕ × BufferParser) :=
  let p := p.checkSize len
  if p.error ≠ .noError then .ok (0, p)
  else do
    let ret ← readFrom p.buffer 0 len 0
    let buffer ← p.buffer.removePrefix len
    return (ret, { p with buffer })

def u32 (p : BufferParser) : Except Fault (UInt32 × BufferParser) := do
  let (v, p) ← p.parseInt 4
  return (UInt32.ofNat v, p)

def u16 (p : BufferParser) : Except Fault (UInt16 × BufferParser) := do
  let (v, p) ← p.parseInt 2
  return (UInt16.ofNat v, p)

def u8 (p : BufferParser) : Except Fault (UInt8 × BufferParser) := do
  let (v, p) ← p.parseInt 1
  return (UInt8.ofNat v, p)

def removePrefix (p : BufferParser) (n : ℕ) : Except Fault BufferParser :=
  let p := p.checkSize n
  if p.error ≠ .noError then .ok p
  else do
    let buffer ← p.buffer.removePrefix n
    return { p with buffer }

/-- The loop that reads n bytes one by one. -/
def octets : (n : ℕ) → BufferParser → Except Fault (List.Vector UInt8 n × BufferParser)
  | 0, p => .ok (List.Vector.nil, p)
  | n + 1, p => do
    let (byte, p) ← p.u8
    let (bytes, p) ← octets n p
    return (List.Vector.cons byte bytes, p)

def ethernetAddress (p : BufferParser) : Except Fault (EthernetAddress × BufferParser) := do
  let (bytes, p) ← octets 6 p
  return (⟨bytes.toList, bytes.toList_length⟩, p)

@[simp] theorem checkSize_view (p : BufferParser) (size : ℕ) :
    (p.checkSize size).view = p.view.checkSize size := by
  unfold checkSize NetParser.checkSize
  rw [apply_ite view]
  rfl

theorem checkSize_buffer (p : BufferParser) (size : ℕ) : (p.checkSize size).buffer = p.buffer := by
  unfold checkSize
  split <;> rfl

/-- The loop folds the bytes it finds, as long as they are there. -/
theorem readFrom_eq (b : Buffer) {i n : ℕ} (ret : ℕ) (h : i + n ≤ b.str.length) :
    readFrom b i n ret =
      .ok (((b.str.drop i).take n).foldl (fun v byte => 256 * v + byte.toNat) ret) := by
  induction n generalizing i ret with
  | zero => simp only [readFrom, List.take_zero, List.foldl_nil]
  | succ n ih =>
    have hi : i < b.str.length := by omega
    rw [readFrom, Buffer.atIndex_of_lt hi, List.drop_eq_getElem_cons hi, List.take_succ_cons,
      List.foldl_cons, ← ih _ (by omega)]
    rfl

/-- The outcome r over buffers is without a fault, and what s says over lists of bytes. -/
def Follows {α : Type} (r : Except Fault (α × BufferParser)) (s : α × NetParser) : Prop :=
  ∃ a q, r = .ok (a, q) ∧ s = (a, q.view)

/-- The same for a parser of headers, which also reports a result. -/
def Ends {α : Type} (r : Except Fault (ParseResult × α × BufferParser))
    (s : ParseResult × α × NetParser) : Prop :=
  ∃ result a q, r = .ok (result, a, q) ∧ s = (result, a, q.view)

theorem Ends.return {α : Type} (result : ParseResult) (a : α) (q : BufferParser) :
    Ends (pure (result, a, q)) (result, a, q.view) := ⟨result, a, q, rfl, rfl⟩

/-- Both take the same branch. -/
theorem Ends.ite {α : Type} {c : Prop} [Decidable c]
    {r r' : Except Fault (ParseResult × α × BufferParser)} {s s' : ParseResult × α × NetParser}
    (hthen : c → Ends r s) (helse : ¬ c → Ends r' s') :
    Ends (if c then r else r') (if c then s else s') := by
  by_cases h : c
  · rw [if_pos h, if_pos h]
    exact hthen h
  · rw [if_neg h, if_neg h]
    exact helse h

theorem checkSize_noError {p : BufferParser} {size : ℕ}
    (h : (p.checkSize size).error = .noError) :
    p.error = .noError ∧ size ≤ p.buffer.size ∧ p.checkSize size = p := by
  unfold checkSize at h ⊢
  split at h
  · simp only [reduceCtorEq] at h
  · rename_i hsize
    exact ⟨h, Nat.not_lt.mp hsize, if_neg hsize⟩

/-- A number is read from the bytes that are there, or there is an error and nothing moves. -/
theorem parseInt_spec (p : BufferParser) (len : ℕ) :
    (∃ buffer, p.parseInt len = .ok (ofBigEndian (p.buffer.str.take len), ⟨buffer, .noError⟩) ∧
      p.error = .noError ∧ len ≤ p.buffer.size ∧ buffer.str = p.buffer.str.drop len) ∨
    (p.parseInt len = .ok (0, p.checkSize len) ∧ (p.checkSize len).error ≠ .noError) := by
  by_cases herror : (p.checkSize len).error = .noError
  · left
    obtain ⟨hp, hsize, hsame⟩ := checkSize_noError herror
    obtain ⟨buffer, hremove, hstr⟩ := Buffer.removePrefix_of_le hsize
    have hread := readFrom_eq p.buffer 0 (i := 0) (n := len) (by rw [Nat.zero_add]; exact hsize)
    refine ⟨buffer, ?_, hp, hsize, hstr⟩
    simp only [parseInt, hsame, hp, ne_eq, not_true_eq_false, if_false, hread, hremove,
      List.drop_zero]
    rfl
  · right
    refine ⟨?_, herror⟩
    simp only [parseInt, ne_eq, herror, not_false_eq_true, if_true]

/-- A prefix is skipped that is there, or there is an error and nothing moves. -/
theorem removePrefix_spec (p : BufferParser) (n : ℕ) :
    (∃ buffer, p.removePrefix n = .ok ⟨buffer, .noError⟩ ∧
      p.error = .noError ∧ n ≤ p.buffer.size ∧ buffer.str = p.buffer.str.drop n) ∨
    (p.removePrefix n = .ok (p.checkSize n) ∧ (p.checkSize n).error ≠ .noError) := by
  by_cases herror : (p.checkSize n).error = .noError
  · left
    obtain ⟨hp, hsize, hsame⟩ := checkSize_noError herror
    obtain ⟨buffer, hremove, hstr⟩ := Buffer.removePrefix_of_le hsize
    refine ⟨buffer, ?_, hp, hsize, hstr⟩
    simp only [removePrefix, hsame, hp, ne_eq, not_true_eq_false, if_false, hremove]
    rfl
  · right
    refine ⟨?_, herror⟩
    simp only [removePrefix, ne_eq, herror, not_false_eq_true, if_true]

theorem view_of_noError {p : BufferParser} (h : p.error = .noError) :
    p.view = ⟨p.buffer.str, .noError⟩ := by
  rw [view, h]

theorem parseInt_follows (p : BufferParser) (len : ℕ) :
    Follows (p.parseInt len) (p.view.parseInt len) := by
  rcases p.parseInt_spec len with ⟨buffer, hread, hp, hsize, hstr⟩ | ⟨hread, herror⟩
  · refine ⟨_, _, hread, ?_⟩
    rw [view_of_noError hp, NetParser.parseInt_of_le hsize, ← hstr]
    rfl
  · refine ⟨_, _, hread, ?_⟩
    have hview : (p.view.checkSize len).error ≠ .noError := by
      rw [← checkSize_view]
      exact herror
    simp only [NetParser.parseInt, ne_eq, hview, not_false_eq_true, if_true, checkSize_view]

theorem removePrefix_follows (p : BufferParser) (n : ℕ) :
    ∃ q, p.removePrefix n = .ok q ∧ p.view.removePrefix n = q.view := by
  rcases p.removePrefix_spec n with ⟨buffer, hskip, hp, hsize, hstr⟩ | ⟨hskip, herror⟩
  · refine ⟨_, hskip, ?_⟩
    rw [view_of_noError hp, NetParser.removePrefix_of_le hsize, ← hstr]
    rfl
  · refine ⟨_, hskip, ?_⟩
    have hview : (p.view.checkSize n).error ≠ .noError := by
      rw [← checkSize_view]
      exact herror
    simp only [NetParser.removePrefix, ne_eq, hview, not_false_eq_true, if_true, checkSize_view]

theorem u32_follows (p : BufferParser) : Follows p.u32 p.view.u32 := by
  obtain ⟨v, q, hread, hview⟩ := parseInt_follows p 4
  simp only [u32, NetParser.u32, hread, hview]
  exact ⟨_, _, rfl, rfl⟩

theorem u16_follows (p : BufferParser) : Follows p.u16 p.view.u16 := by
  obtain ⟨v, q, hread, hview⟩ := parseInt_follows p 2
  simp only [u16, NetParser.u16, hread, hview]
  exact ⟨_, _, rfl, rfl⟩

theorem u8_follows (p : BufferParser) : Follows p.u8 p.view.u8 := by
  obtain ⟨v, q, hread, hview⟩ := parseInt_follows p 1
  simp only [u8, NetParser.u8, hread, hview]
  exact ⟨_, _, rfl, rfl⟩

theorem octets_follows (n : ℕ) (p : BufferParser) :
    ∃ bytes q, octets n p = .ok (bytes, q) ∧
      NetParser.octets n p.view = (bytes.toList, q.view) := by
  induction n generalizing p with
  | zero => exact ⟨List.Vector.nil, p, rfl, rfl⟩
  | succ n ih =>
    obtain ⟨byte, p₁, hread, hview⟩ := u8_follows p
    obtain ⟨bytes, p₂, hread', hview'⟩ := ih p₁
    refine ⟨List.Vector.cons byte bytes, p₂, ?_, ?_⟩
    · simp only [octets, hread, hread', bind, Except.bind]
      rfl
    · simp only [NetParser.octets, hview, hview', List.Vector.toList_cons]

theorem ethernetAddress_follows (p : BufferParser) :
    Follows p.ethernetAddress p.view.ethernetAddress := by
  obtain ⟨bytes, q, hread, hview⟩ := octets_follows 6 p
  refine ⟨⟨bytes.toList, bytes.toList_length⟩, q, ?_, ?_⟩
  · simp only [ethernetAddress, hread]
    rfl
  · simp only [NetParser.ethernetAddress, hview]

/-- One use of the parser. -/
inductive Read where
  | u32
  | u16
  | u8
  | removePrefix (n : ℕ)
  deriving DecidableEq, Repr

/-- The number that is read; skipping counts as reading zero. -/
def read (p : BufferParser) : Read → Except Fault (ℕ × BufferParser)
  | .u32 => do
    let (v, p) ← p.u32
    return (v.toNat, p)
  | .u16 => do
    let (v, p) ← p.u16
    return (v.toNat, p)
  | .u8 => do
    let (v, p) ← p.u8
    return (v.toNat, p)
  | .removePrefix n => do
    let p ← p.removePrefix n
    return (0, p)

def readAll (p : BufferParser) : List Read → Except Fault (List ℕ × BufferParser)
  | [] => .ok ([], p)
  | r :: rs => do
    let (v, p) ← p.read r
    let (vs, p) ← readAll p rs
    return (v :: vs, p)

/-- What a read of v from p to q may be: a success from a parser without an error, or a zero
that leaves the buffer. -/
def Outcome (p : BufferParser) (v : ℕ) (q : BufferParser) : Prop :=
  (p.error = .noError ∧ q.error = .noError) ∨
    (q.error ≠ .noError ∧ v = 0 ∧ q.buffer = p.buffer)

theorem parseInt_outcome (p : BufferParser) (len : ℕ) :
    ∃ v q, p.parseInt len = .ok (v, q) ∧ Outcome p v q := by
  rcases p.parseInt_spec len with ⟨buffer, hread, hp, -⟩ | ⟨hread, herror⟩
  · exact ⟨_, _, hread, Or.inl ⟨hp, rfl⟩⟩
  · exact ⟨_, _, hread, Or.inr ⟨herror, rfl, checkSize_buffer p len⟩⟩

theorem removePrefix_outcome (p : BufferParser) (n : ℕ) :
    ∃ q, p.removePrefix n = .ok q ∧ Outcome p 0 q := by
  rcases p.removePrefix_spec n with ⟨buffer, hskip, hp, -⟩ | ⟨hskip, herror⟩
  · exact ⟨_, hskip, Or.inl ⟨hp, rfl⟩⟩
  · exact ⟨_, hskip, Or.inr ⟨herror, rfl, checkSize_buffer p n⟩⟩

/-- Narrowing the number to the type that is read keeps the outcome. -/
theorem Outcome.narrow {p q : BufferParser} {v : ℕ} (h : Outcome p v q) (f : ℕ → ℕ)
    (hf : f 0 = 0) : Outcome p (f v) q := by
  rcases h with hok | ⟨herror, hzero, hbuffer⟩
  · exact Or.inl hok
  · exact Or.inr ⟨herror, by rw [hzero, hf], hbuffer⟩

theorem read_outcome (p : BufferParser) (r : Read) :
    ∃ v q, p.read r = .ok (v, q) ∧ Outcome p v q := by
  cases r with
  | u32 =>
    obtain ⟨v, q, hread, houtcome⟩ := p.parseInt_outcome 4
    refine ⟨_, q, ?_, houtcome.narrow (fun v => (UInt32.ofNat v).toNat) rfl⟩
    simp only [read, u32, hread]
    rfl
  | u16 =>
    obtain ⟨v, q, hread, houtcome⟩ := p.parseInt_outcome 2
    refine ⟨_, q, ?_, houtcome.narrow (fun v => (UInt16.ofNat v).toNat) rfl⟩
    simp only [read, u16, hread]
    rfl
  | u8 =>
    obtain ⟨v, q, hread, houtcome⟩ := p.parseInt_outcome 1
    refine ⟨_, q, ?_, houtcome.narrow (fun v => (UInt8.ofNat v).toNat) rfl⟩
    simp only [read, u8, hread]
    rfl
  | removePrefix n =>
    obtain ⟨q, hskip, houtcome⟩ := p.removePrefix_outcome n
    refine ⟨0, q, ?_, houtcome⟩
    simp only [read, hskip]
    rfl

/-- An error stays: whatever is read afterwards is zero, and the buffer is left. -/
theorem readAll_of_error {p : BufferParser} (h : p.error ≠ .noError) (rs : List Read) :
    ∃ q, p.readAll rs = .ok (rs.map fun _ => 0, q) ∧ q.buffer = p.buffer := by
  induction rs generalizing p with
  | nil => exact ⟨p, rfl, rfl⟩
  | cons r rs ih =>
    obtain ⟨v, p₁, hread, houtcome⟩ := p.read_outcome r
    rcases houtcome with ⟨hnone, -⟩ | ⟨herror, rfl, hbuffer⟩
    · exact absurd hnone h
    · obtain ⟨q, hrest, hq⟩ := ih herror
      refine ⟨q, ?_, hq.trans hbuffer⟩
      simp only [readAll, hread, hrest, bind, Except.bind]
      rfl

end BufferParser

namespace TCPHeader

def readFieldsChecked (p : BufferParser) : Except Fault (TCPHeader × BufferParser) := do
  let (sport, p) ← p.u16
  let (dport, p) ← p.u16
  let (seqno, p) ← p.u32
  let (ackno, p) ← p.u32
  let (doff, p) ← p.u8
  let (flB, p) ← p.u8
  let (win, p) ← p.u16
  let (cksum, p) ← p.u16
  let (uptr, p) ← p.u16
  return ({ sport, dport
            seqno := ⟨seqno⟩
            ackno := ⟨ackno⟩
            doff := doff >>> 4
            urg := flB &&& 0b00100000 != 0
            ack := flB &&& 0b00010000 != 0
            psh := flB &&& 0b00001000 != 0
            rst := flB &&& 0b00000100 != 0
            syn := flB &&& 0b00000010 != 0
            fin := flB &&& 0b00000001 != 0
            win, cksum, uptr }, p)

def parseChecked (p : BufferParser) : Except Fault (ParseResult × TCPHeader × BufferParser) := do
  let (h, p) ← readFieldsChecked p
  if h.doff < 5 then return (.headerTooShort, h, p)
  let skipped ← minus (h.doff.toNat * 4) LENGTH
  let p ← p.removePrefix skipped
  if p.error ≠ .noError then return (p.error, h, p)
  return (.noError, h, p)

theorem readFieldsChecked_follows (p : BufferParser) :
    BufferParser.Follows (readFieldsChecked p) (readFields p.view) := by
  obtain ⟨sport, p₁, h₁, t₁⟩ := p.u16_follows
  obtain ⟨dport, p₂, h₂, t₂⟩ := p₁.u16_follows
  obtain ⟨seqno, p₃, h₃, t₃⟩ := p₂.u32_follows
  obtain ⟨ackno, p₄, h₄, t₄⟩ := p₃.u32_follows
  obtain ⟨doff, p₅, h₅, t₅⟩ := p₄.u8_follows
  obtain ⟨flB, p₆, h₆, t₆⟩ := p₅.u8_follows
  obtain ⟨win, p₇, h₇, t₇⟩ := p₆.u16_follows
  obtain ⟨cksum, p₈, h₈, t₈⟩ := p₇.u16_follows
  obtain ⟨uptr, p₉, h₉, t₉⟩ := p₈.u16_follows
  simp only [readFieldsChecked, readFields, h₁, h₂, h₃, h₄, h₅, h₆, h₇, h₈, h₉, t₁, t₂, t₃, t₄, t₅,
    t₆, t₇, t₈, t₉, bind, Except.bind]
  exact ⟨_, _, rfl, rfl⟩

/-- The data offset is at least five where twenty is taken from four times it. -/
theorem parseChecked_ends (p : BufferParser) :
    BufferParser.Ends (parseChecked p) (parse p.view) := by
  obtain ⟨h, q, hread, tread⟩ := readFieldsChecked_follows p
  simp only [parseChecked, parse, hread, tread, bind, Except.bind]
  refine BufferParser.Ends.ite (fun _ => BufferParser.Ends.return _ _ _) fun hshort => ?_
  have hfive : 5 ≤ h.doff.toNat := UInt8.le_iff_toNat_le.mp (UInt8.not_lt.mp hshort)
  have hminus : minus (h.doff.toNat * 4) LENGTH = .ok (h.doff.toNat * 4 - LENGTH) :=
    minus_of_le (by rw [LENGTH]; omega)
  obtain ⟨q', hskip, tskip⟩ := q.removePrefix_follows (h.doff.toNat * 4 - LENGTH)
  simp only [hminus, hskip, tskip]
  exact BufferParser.Ends.ite (fun _ => BufferParser.Ends.return _ _ _)
    fun _ => BufferParser.Ends.return _ _ _

end TCPHeader

namespace TCPSegment

def parseChecked (seg : TCPSegment) (buffer : Buffer) (datagramLayerChecksum : UInt32) :
    Except Fault (ParseResult × TCPSegment) := do
  let check := ({ sum := datagramLayerChecksum } : InternetChecksum).add buffer.str
  if check.value ≠ 0 then return (.badChecksum, seg)
  let (_, header, p) ← TCPHeader.parseChecked ⟨buffer, .noError⟩
  return (p.error, { header, payload := p.buffer.str })

theorem parseChecked_eq (seg : TCPSegment) (buffer : Buffer) (pseudo : UInt32) :
    seg.parseChecked buffer pseudo = .ok (seg.parse buffer.str pseudo) := by
  obtain ⟨result, header, p, hheader, theader⟩ := TCPHeader.parseChecked_ends ⟨buffer, .noError⟩
  change TCPHeader.parse ⟨buffer.str, .noError⟩ = _ at theader
  unfold parseChecked parse
  by_cases hcheck : (({ sum := pseudo } : InternetChecksum).add buffer.str).value = 0
  · simp only [hcheck, ne_eq, not_true_eq_false, if_false, hheader, theader]
    rfl
  · simp only [hcheck, ne_eq, not_false_eq_true, if_true]
    rfl

end TCPSegment

namespace IPv4Header

def readFieldsChecked (p : BufferParser) : Except Fault (IPv4Header × BufferParser) := do
  let (firstByte, p) ← p.u8
  let (tos, p) ← p.u8
  let (len, p) ← p.u16
  let (id, p) ← p.u16
  let (foVal, p) ← p.u16
  let (ttl, p) ← p.u8
  let (proto, p) ← p.u8
  let (cksum, p) ← p.u16
  let (src, p) ← p.u32
  let (dst, p) ← p.u32
  return ({ ver := firstByte >>> 4
            hlen := firstByte &&& 0x0f
            tos, len, id
            df := foVal &&& 0x4000 != 0
            mf := foVal &&& 0x2000 != 0
            offset := foVal &&& 0x1fff
            ttl, proto, cksum, src, dst }, p)

def parseChecked (h : IPv4Header) (p : BufferParser) :
    Except Fault (ParseResult × IPv4Header × BufferParser) := do
  let originalSerializedVersion := p.buffer
  let dataSize := p.buffer.size
  if dataSize < LENGTH then return (.packetTooShort, h, p)
  let (h, p) ← readFieldsChecked p
  if dataSize < 4 * h.hlen.toNat then return (.packetTooShort, h, p)
  if h.ver ≠ 4 then return (.wrongIPVersion, h, p)
  if h.hlen < 5 then return (.headerTooShort, h, p)
  if dataSize ≠ h.len.toNat then return (.truncatedPacket, h, p)
  let skipped ← minus (h.hlen.toNat * 4) LENGTH
  let p ← p.removePrefix skipped
  if p.error ≠ .noError then return (p.error, h, p)
  let covered ← originalSerializedVersion.firstBytes (4 * h.hlen.toNat)
  if (({} : InternetChecksum).add covered).value ≠ 0 then return (.badChecksum, h, p)
  return (.noError, h, p)

theorem readFieldsChecked_follows (p : BufferParser) :
    BufferParser.Follows (readFieldsChecked p) (readFields p.view) := by
  obtain ⟨firstByte, p₁, h₁, t₁⟩ := p.u8_follows
  obtain ⟨tos, p₂, h₂, t₂⟩ := p₁.u8_follows
  obtain ⟨len, p₃, h₃, t₃⟩ := p₂.u16_follows
  obtain ⟨id, p₄, h₄, t₄⟩ := p₃.u16_follows
  obtain ⟨foVal, p₅, h₅, t₅⟩ := p₄.u16_follows
  obtain ⟨ttl, p₆, h₆, t₆⟩ := p₅.u8_follows
  obtain ⟨proto, p₇, h₇, t₇⟩ := p₆.u8_follows
  obtain ⟨cksum, p₈, h₈, t₈⟩ := p₇.u16_follows
  obtain ⟨src, p₉, h₉, t₉⟩ := p₈.u32_follows
  obtain ⟨dst, p₁₀, h₁₀, t₁₀⟩ := p₉.u32_follows
  simp only [readFieldsChecked, readFields, h₁, h₂, h₃, h₄, h₅, h₆, h₇, h₈, h₉, h₁₀, t₁, t₂, t₃,
    t₄, t₅, t₆, t₇, t₈, t₉, t₁₀, bind, Except.bind]
  exact ⟨_, _, rfl, rfl⟩

/-- The first bytes that the checksum covers are those of the buffer before it was read. -/
theorem parseChecked_ends (h₀ : IPv4Header) (p : BufferParser) :
    BufferParser.Ends (h₀.parseChecked p) (h₀.parse p.view) := by
  obtain ⟨h, q, hread, tread⟩ := readFieldsChecked_follows p
  simp only [parseChecked, parse, hread, tread, bind, Except.bind]
  refine BufferParser.Ends.ite (fun _ => BufferParser.Ends.return _ _ _) fun _ => ?_
  refine BufferParser.Ends.ite (fun _ => BufferParser.Ends.return _ _ _) fun hcovers => ?_
  refine BufferParser.Ends.ite (fun _ => BufferParser.Ends.return _ _ _) fun _ => ?_
  refine BufferParser.Ends.ite (fun _ => BufferParser.Ends.return _ _ _) fun hshort => ?_
  refine BufferParser.Ends.ite (fun _ => BufferParser.Ends.return _ _ _) fun _ => ?_
  have hfive : 5 ≤ h.hlen.toNat := UInt8.le_iff_toNat_le.mp (UInt8.not_lt.mp hshort)
  have hminus : minus (h.hlen.toNat * 4) LENGTH = .ok (h.hlen.toNat * 4 - LENGTH) :=
    minus_of_le (by rw [LENGTH]; omega)
  have hcovered : p.buffer.firstBytes (4 * h.hlen.toNat) =
      .ok (p.buffer.str.take (4 * h.hlen.toNat)) := if_neg hcovers
  obtain ⟨q', hskip, tskip⟩ := q.removePrefix_follows (h.hlen.toNat * 4 - LENGTH)
  simp only [hminus, hskip, tskip]
  refine BufferParser.Ends.ite (fun _ => BufferParser.Ends.return _ _ _) fun _ => ?_
  simp only [hcovered]
  exact BufferParser.Ends.ite (fun _ => BufferParser.Ends.return _ _ _)
    fun _ => BufferParser.Ends.return _ _ _

end IPv4Header

namespace IPv4Datagram

def parseChecked (d : IPv4Datagram) (buffer : Buffer) :
    Except Fault (ParseResult × IPv4Datagram) := do
  let (_, header, p) ← d.header.parseChecked ⟨buffer, .noError⟩
  let payload := BufferContents.ofBuffer p.buffer.str
  if payload.size ≠ header.payloadLength.toNat then return (.packetTooShort, ⟨header, payload⟩)
  return (p.error, ⟨header, payload⟩)

theorem parseChecked_eq (d : IPv4Datagram) (buffer : Buffer) :
    d.parseChecked buffer = .ok (d.parse buffer.str) := by
  obtain ⟨result, header, p, hheader, theader⟩ := d.header.parseChecked_ends ⟨buffer, .noError⟩
  change d.header.parse ⟨buffer.str, .noError⟩ = _ at theader
  simp only [parseChecked, parse, hheader, theader, bind, Except.bind]
  rw [apply_ite Except.ok]
  rfl

end IPv4Datagram

namespace EthernetHeader

def parseChecked (h : EthernetHeader) (p : BufferParser) :
    Except Fault (ParseResult × EthernetHeader × BufferParser) := do
  if p.buffer.size < LENGTH then return (.packetTooShort, h, p)
  let (dst, p) ← p.ethernetAddress
  let (src, p) ← p.ethernetAddress
  let (type, p) ← p.u16
  return (p.error, { dst, src, type }, p)

theorem parseChecked_ends (h₀ : EthernetHeader) (p : BufferParser) :
    BufferParser.Ends (h₀.parseChecked p) (h₀.parse p.view) := by
  obtain ⟨dst, p₁, h₁, t₁⟩ := p.ethernetAddress_follows
  obtain ⟨src, p₂, h₂, t₂⟩ := p₁.ethernetAddress_follows
  obtain ⟨type, p₃, h₃, t₃⟩ := p₂.u16_follows
  simp only [parseChecked, parse, h₁, h₂, h₃, t₁, t₂, t₃, bind, Except.bind]
  exact BufferParser.Ends.ite (fun _ => BufferParser.Ends.return _ _ _)
    fun _ => BufferParser.Ends.return _ _ _

end EthernetHeader

namespace EthernetFrame

def parseChecked (f : EthernetFrame) (buffer : Buffer) :
    Except Fault (ParseResult × EthernetFrame) := do
  let (_, header, p) ← f.header.parseChecked ⟨buffer, .noError⟩
  return (p.error, { header, payload := BufferContents.ofBuffer p.buffer.str })

theorem parseChecked_eq (f : EthernetFrame) (buffer : Buffer) :
    f.parseChecked buffer = .ok (f.parse buffer.str) := by
  obtain ⟨result, header, p, hheader, theader⟩ := f.header.parseChecked_ends ⟨buffer, .noError⟩
  change f.header.parse ⟨buffer.str, .noError⟩ = _ at theader
  simp only [parseChecked, parse, hheader, theader, bind, Except.bind]
  rfl

end EthernetFrame

namespace ARPMessage

def parseChecked (m : ARPMessage) (buffer : Buffer) : Except Fault (ParseResult × ARPMessage) := do
  let p : BufferParser := ⟨buffer, .noError⟩
  if p.buffer.size < LENGTH then return (.packetTooShort, m)
  let (hardwareType, p) ← p.u16
  let (protocolType, p) ← p.u16
  let (hardwareAddressSize, p) ← p.u8
  let (protocolAddressSize, p) ← p.u8
  let (opcode, p) ← p.u16
  let m := { m with
    hardwareType, protocolType, hardwareAddressSize, protocolAddressSize, opcode }
  if !m.supported then return (.unsupported, m)
  let (senderEthernetAddress, p) ← p.ethernetAddress
  let (senderIpAddress, p) ← p.u32
  let (targetEthernetAddress, p) ← p.ethernetAddress
  let (targetIpAddress, p) ← p.u32
  return (p.error, { m with
    senderEthernetAddress, senderIpAddress, targetEthernetAddress, targetIpAddress })

theorem parseChecked_eq (m : ARPMessage) (buffer : Buffer) :
    m.parseChecked buffer = .ok (m.parse buffer.str) := by
  obtain ⟨hardwareType, p₁, h₁, t₁⟩ := (BufferParser.mk buffer .noError).u16_follows
  obtain ⟨protocolType, p₂, h₂, t₂⟩ := p₁.u16_follows
  obtain ⟨hardwareAddressSize, p₃, h₃, t₃⟩ := p₂.u8_follows
  obtain ⟨protocolAddressSize, p₄, h₄, t₄⟩ := p₃.u8_follows
  obtain ⟨opcode, p₅, h₅, t₅⟩ := p₄.u16_follows
  obtain ⟨senderEthernetAddress, p₆, h₆, t₆⟩ := p₅.ethernetAddress_follows
  obtain ⟨senderIpAddress, p₇, h₇, t₇⟩ := p₆.u32_follows
  obtain ⟨targetEthernetAddress, p₈, h₈, t₈⟩ := p₇.ethernetAddress_follows
  obtain ⟨targetIpAddress, p₉, h₉, t₉⟩ := p₈.u32_follows
  change (NetParser.mk buffer.str .noError).u16 = _ at t₁
  simp only [parseChecked, parse, h₁, h₂, h₃, h₄, h₅, h₆, h₇, h₈, h₉, t₁, t₂, t₃, t₄, t₅, t₆, t₇,
    t₈, t₉, bind, Except.bind]
  rw [apply_ite Except.ok, apply_ite Except.ok]
  rfl

end ARPMessage

/-- Every string of bytes can be in a buffer. No parser has a fault on any buffer, and what it
returns is what its counterpart over lists of bytes returns. No read has a fault either, and
once one has failed, everything read later is zero and the buffer stays as it is. -/
theorem parsers_safe :
    (∀ s : List UInt8, (Buffer.ofString s).str = s) ∧
    (∀ (seg : TCPSegment) (buffer : Buffer) (pseudo : UInt32),
      seg.parseChecked buffer pseudo = .ok (seg.parse buffer.str pseudo)) ∧
    (∀ (d : IPv4Datagram) (buffer : Buffer), d.parseChecked buffer = .ok (d.parse buffer.str)) ∧
    (∀ (f : EthernetFrame) (buffer : Buffer), f.parseChecked buffer = .ok (f.parse buffer.str)) ∧
    (∀ (m : ARPMessage) (buffer : Buffer), m.parseChecked buffer = .ok (m.parse buffer.str)) ∧
    ∀ (p : BufferParser) (r : BufferParser.Read), ∃ v q, p.read r = .ok (v, q) ∧
      (q.error ≠ .noError → v = 0 ∧ q.buffer = p.buffer ∧
        ∀ rs, ∃ q', q.readAll rs = .ok (rs.map fun _ => 0, q') ∧ q'.buffer = q.buffer) := by
  refine ⟨fun _ => rfl, TCPSegment.parseChecked_eq, IPv4Datagram.parseChecked_eq,
    EthernetFrame.parseChecked_eq, ARPMessage.parseChecked_eq, ?_⟩
  intro p r
  obtain ⟨v, q, hread, houtcome⟩ := p.read_outcome r
  refine ⟨v, q, hread, ?_⟩
  intro herror
  rcases houtcome with ⟨-, hnone⟩ | ⟨-, hzero, hbuffer⟩
  · exact absurd hnone herror
  · exact ⟨hzero, hbuffer, BufferParser.readAll_of_error herror⟩

end Sponge
