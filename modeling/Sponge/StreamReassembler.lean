import Sponge.ByteStream

/-!
The stream reassembler: out-of-order excerpts of a stream become one byte stream.
Bytes that cannot be written yet wait in a list of chunks. `merge` folds every
waiting chunk that touches the new one into it, so that waiting chunks never
touch each other, and `pushSubstring` trims the new chunk to the window first.
-/
namespace Sponge

open Words

structure Chunk where
  data : List UInt8
  index : ℕ
  deriving DecidableEq, Repr

namespace Chunk

/-- The position just past the chunk. -/
def stop (c : Chunk) : ℕ := c.index + c.data.length

end Chunk

structure StreamReassembler where
  output : ByteStream
  capacity : ℕ
  unasmb : List Chunk
  firstUnasmb : ℕ
  nUnasmbBytes : ℕ
  eofSet : Bool
  lastByte : ℕ
  deriving DecidableEq, Repr

/-- What the loop of `merge` returns: `false` on an early exit, the chunks left in
the list, the new chunk as extended so far, and the count of waiting bytes. -/
structure MergeResult where
  proceed : Bool
  chunks : List Chunk
  newChunk : Chunk
  nUnasmbBytes : ℕ
  deriving DecidableEq, Repr

namespace StreamReassembler

/-- For a positive capacity, as `ByteStream.new`. -/
def new (capacity : ℕ) : StreamReassembler where
  output := ByteStream.new capacity
  capacity := capacity
  unasmb := []
  firstUnasmb := 0
  nUnasmbBytes := 0
  eofSet := false
  lastByte := 0

/-- The loop of `merge`. The bounds `new0` and `new1` are those of the chunk as it
came in, also after it has been extended. -/
def mergeLoop (new0 new1 : ℕ) : List Chunk → Chunk → ℕ → MergeResult
  | [], newChunk, n => ⟨true, [], newChunk, n⟩
  | cur :: rest, newChunk, n =>
    if cur.index ≤ new0 ∧ new1 ≤ cur.stop then
      ⟨false, cur :: rest, newChunk, n⟩
    else if new0 ≤ cur.index ∧ cur.stop ≤ new1 then
      mergeLoop new0 new1 rest newChunk (wrapSub 64 n cur.data.length)
    else if cur.index ≤ new0 ∧ new0 ≤ cur.stop then
      mergeLoop new0 new1 rest
        ⟨cur.data.take (new0 - cur.index) ++ newChunk.data, cur.index⟩
        (wrapSub 64 n cur.data.length)
    else if new0 ≤ cur.index ∧ cur.index ≤ new1 then
      mergeLoop new0 new1 rest
        ⟨newChunk.data ++ cur.data.drop (new1 - cur.index), newChunk.index⟩
        (wrapSub 64 n cur.data.length)
    else
      let r := mergeLoop new0 new1 rest newChunk n
      { r with chunks := cur :: r.chunks }

def merge (chunks : List Chunk) (newChunk : Chunk) (n : ℕ) : MergeResult :=
  mergeLoop newChunk.index newChunk.stop chunks newChunk n

/-- The first position past the receiver's window. -/
def firstUnacceptable (r : StreamReassembler) : ℕ :=
  wrapSub 64 (r.firstUnasmb + r.capacity) r.output.bufferSize

/-- The part of the substring that lies in the window: chopped at the back first,
then at the front. -/
def trimToWindow (r : StreamReassembler) (data : List UInt8) (index : ℕ) : Chunk :=
  let data := if index + data.length > r.firstUnacceptable then
    data.take (r.firstUnacceptable - index) else data
  if index < r.firstUnasmb then ⟨data.drop (r.firstUnasmb - index), r.firstUnasmb⟩
  else ⟨data, index⟩

/-- A chunk at the front of the window is written out, any other one waits. -/
def place (r : StreamReassembler) (newChunk : Chunk) : StreamReassembler :=
  if newChunk.index = r.firstUnasmb then
    { r with
      output := (r.output.write newChunk.data).2
      firstUnasmb := r.firstUnasmb + newChunk.data.length }
  else
    { r with
      nUnasmbBytes := r.nUnasmbBytes + newChunk.data.length
      unasmb := r.unasmb ++ [newChunk] }

/-- The test for the end of the stream, made after the output may have grown. -/
def checkEof (r : StreamReassembler) : StreamReassembler :=
  if r.eofSet ∧ r.lastByte ≤ r.firstUnasmb then { r with output := r.output.endInput } else r

/-- Record where the stream ends. The sum may wrap: the index comes from the wire. -/
def markEof (r : StreamReassembler) (data : List UInt8) (index : ℕ) (eof : Bool) :
    StreamReassembler :=
  if eof then { r with eofSet := true, lastByte := wrapAdd 64 index data.length } else r

/-- Some part of the substring is in the window, or it is empty at its border. -/
def inWindow (r : StreamReassembler) (data : List UInt8) (index : ℕ) : Prop :=
  wrapAdd 64 index data.length ≥ r.firstUnasmb ∧ index < r.firstUnacceptable

instance (r : StreamReassembler) (data : List UInt8) (index : ℕ) :
    Decidable (r.inWindow data index) :=
  inferInstanceAs (Decidable (_ ∧ _))

/-- A substring that is already stored returns before the test for the end. -/
def pushSubstring (r : StreamReassembler) (data : List UInt8) (index : ℕ) (eof : Bool) :
    StreamReassembler :=
  if r.output.inputEnded then r
  else
    let r := r.markEof data index eof
    if r.inWindow data index then
      let m := merge r.unasmb (r.trimToWindow data index) r.nUnasmbBytes
      let r := { r with unasmb := m.chunks, nUnasmbBytes := m.nUnasmbBytes }
      if !m.proceed then r
      else (r.place m.newChunk).checkEof
    else r.checkEof

def unassembledBytes (r : StreamReassembler) : ℕ := r.nUnasmbBytes

def empty (r : StreamReassembler) : Bool := r.unasmb.isEmpty

end StreamReassembler

end Sponge
