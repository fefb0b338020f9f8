import Sponge.Reassembly

/-!
The reassembler on pieces of one stream.
`Assembles S` holds of a reassembler that has been fed with excerpts of S only: the
output and every waiting chunk stand in S at their positions, and the output ends
exactly with S. A push adds the positions of the excerpt that lie in the window.
-/
namespace Sponge.Assembly

open Words Excerpts StreamReassembler ChunkMerge Reassembly

/-- The reassembler has been fed with excerpts of S only. -/
structure Assembles (S : List UInt8) (r : StreamReassembler) : Prop where
  rep : Rep r
  content : Content S r
  last_eq : r.eofSet = true → r.lastByte = S.length
  ended_iff : r.output.inputEnded = true ↔ r.eofSet = true ∧ r.firstUnasmb = S.length

theorem new_assembles (S : List UInt8) (capacity : ℕ) : Assembles S (new capacity) where
  rep := new_rep capacity
  content := ⟨Nat.zero_le _, by simp [new, ByteStream.buffered, ByteStream.peekOutput,
    ByteStream.new, ByteStream.bufferSize], fun c hc => by simp [new] at hc⟩
  last_eq h := by simp [new] at h
  ended_iff := by simp [new, ByteStream.new, ByteStream.inputEnded]

/-- The stream may grow as long as its end has not been announced. -/
theorem Assembles.grow {S T : List UInt8} {r : StreamReassembler} (h : Assembles S r)
    (hST : S <+: T) (heof : r.eofSet = true → T = S) : Assembles T r := by
  cases hset : r.eofSet with
  | true =>
    rw [heof hset]
    exact h
  | false =>
    have hlen := hST.length_le
    have hfirst := h.content.first_le
    refine ⟨h.rep, ⟨by omega, ?_, ?_⟩, ?_, ?_⟩
    · obtain ⟨t, rfl⟩ := hST
      rw [h.content.output_eq, List.take_append_of_le_length hfirst]
    · intro c hc
      exact (h.content.excerpts c hc).grow hST
    · intro hset'
      simp [hset] at hset'
    · have hended := h.ended_iff
      simp only [hset, Bool.false_eq_true, false_and, iff_false] at hended ⊢
      exact hended

section Honest

variable {S : List UInt8} {r : StreamReassembler}

/-- The test for the end of the stream establishes `ended_iff`. -/
theorem Assembles.of_checkEof (hrep : Rep r) (hcontent : Content S r)
    (hlast : r.eofSet = true → r.lastByte = S.length)
    (hended : r.output.inputEnded = true → r.eofSet = true ∧ r.firstUnasmb = S.length) :
    Assembles S r.checkEof := by
  have hle := hcontent.first_le
  unfold checkEof
  by_cases heof : r.eofSet = true ∧ r.lastByte ≤ r.firstUnasmb
  · rw [if_pos heof]
    have hall : r.firstUnasmb = S.length := by
      have := hlast heof.1
      omega
    exact ⟨hrep.endOutput, ⟨hle, hcontent.output_eq, hcontent.excerpts⟩, hlast,
      fun _ => ⟨heof.1, hall⟩, fun _ => rfl⟩
  · rw [if_neg heof]
    refine ⟨hrep, hcontent, hlast, hended, ?_⟩
    intro hboth
    refine absurd ⟨hboth.1, ?_⟩ heof
    have := hlast hboth.1
    omega

/-- What a push of an excerpt of S leads to. -/
structure PushEffect (S : List UInt8) (r : StreamReassembler) (index len : ℕ) (eof : Bool)
    (r' : StreamReassembler) : Prop where
  assembles : Assembles S r'
  held_iff : ∀ p, Held r' p ↔ Held r p ∨
    (r.firstUnasmb ≤ p ∧ p < r.output.bytesRead + r.capacity ∧ index ≤ p ∧ p < index + len)
  capacity_eq : r'.capacity = r.capacity
  bytesRead_eq : r'.output.bytesRead = r.output.bytesRead
  eofSet_eq : r'.eofSet = (r.eofSet || eof)
  first_le : r.firstUnasmb ≤ r'.firstUnasmb

theorem checkEof_held (r : StreamReassembler) (p : ℕ) : Held r.checkEof p ↔ Held r p := by
  unfold checkEof
  split <;> rfl

theorem checkEof_frame (r : StreamReassembler) :
    r.checkEof.capacity = r.capacity ∧ r.checkEof.output.bytesRead = r.output.bytesRead ∧
      r.checkEof.eofSet = r.eofSet ∧ r.checkEof.firstUnasmb = r.firstUnasmb := by
  unfold checkEof
  split <;> exact ⟨rfl, rfl, rfl, rfl⟩

theorem markEof_frame (r : StreamReassembler) (data : List UInt8) (index : ℕ) (eof : Bool) :
    (r.markEof data index eof).output = r.output ∧
      (r.markEof data index eof).capacity = r.capacity ∧
      (r.markEof data index eof).unasmb = r.unasmb ∧
      (r.markEof data index eof).firstUnasmb = r.firstUnasmb ∧
      (r.markEof data index eof).eofSet = (r.eofSet || eof) := by
  cases eof
  · exact ⟨rfl, rfl, rfl, rfl, by simp [markEof]⟩
  · exact ⟨rfl, rfl, rfl, rfl, by simp [markEof]⟩

theorem markEof_held (r : StreamReassembler) (data : List UInt8) (index : ℕ) (eof : Bool) (p : ℕ) :
    Held (r.markEof data index eof) p ↔ Held r p := by
  obtain ⟨-, -, hlist, hfirst, -⟩ := markEof_frame r data index eof
  unfold Held
  rw [hfirst, hlist]

section Push

variable {data : List UInt8} {index : ℕ} {eof : Bool}

/-- The end of an excerpt does not wrap. -/
theorem excerpt_sum (hS : S.length < 2 ^ 64) (hindex : index < 2 ^ 64)
    (hexc : IsExcerpt S index data) : wrapAdd 64 index data.length = index + data.length := by
  apply wrapAdd_of_lt
  by_cases hd : data = []
  · simpa [hd] using hindex
  · have := hexc.stop_le hd
    omega

theorem Assembles.markEof_content (h : Assembles S r) :
    Content S (r.markEof data index eof) := by
  obtain ⟨hout, -, hlist, hfirst, -⟩ := markEof_frame r data index eof
  exact ⟨by rw [hfirst]; exact h.content.first_le, by rw [hout, hfirst]; exact h.content.output_eq,
    by rw [hlist]; exact h.content.excerpts⟩

theorem Assembles.markEof_last (h : Assembles S r)
    (hsum : wrapAdd 64 index data.length = index + data.length)
    (heof : eof = true → index + data.length = S.length) :
    (r.markEof data index eof).eofSet = true →
      (r.markEof data index eof).lastByte = S.length := by
  cases eof with
  | false => exact h.last_eq
  | true => exact fun _ => hsum.trans (heof rfl)

/-- After the end of the output nothing of S is missing. -/
theorem Assembles.push_ended (h : Assembles S r) (hended : r.output.inputEnded = true)
    (hexc : IsExcerpt S index data) :
    PushEffect S r index data.length eof (r.pushSubstring data index eof) := by
  obtain ⟨hset, hfirst⟩ := h.ended_iff.mp hended
  have heq : r.pushSubstring data index eof = r := by
    unfold pushSubstring
    exact if_pos hended
  rw [heq]
  refine ⟨h, ?_, rfl, rfl, by simp [hset], Nat.le_refl _⟩
  intro p
  constructor
  · exact Or.inl
  · intro hp
    rcases hp with hp | ⟨h1, h2, h3, h4⟩
    · exact hp
    · have := hexc.lt_length h3 h4
      omega

/-- The substring has been stored as the chunk c, and the end of the stream is tested. -/
theorem Assembles.push_stored (h : Assembles S r) (hopen : r.output.inputEnded = false)
    (hlast : (r.markEof data index eof).eofSet = true →
      (r.markEof data index eof).lastByte = S.length)
    {c : Chunk} {r' : StreamReassembler} (hst : Stored (r.markEof data index eof) c r')
    (hexc : IsExcerpt S c.index c.data)
    (hmem : ∀ p, (c.index ≤ p ∧ p < c.stop) ↔ r.firstUnasmb ≤ p ∧
      p < r.output.bytesRead + r.capacity ∧ index ≤ p ∧ p < index + data.length) :
    PushEffect S r index data.length eof r'.checkEof := by
  obtain ⟨hout, hcap, -, hfirst, hset⟩ := markEof_frame r data index eof
  obtain ⟨hc1, hc2, hc3, hc4⟩ := checkEof_frame r'
  have hassembles : Assembles S r'.checkEof := by
    apply Assembles.of_checkEof hst.rep (hst.content S h.markEof_content hexc)
    · rw [hst.eofSet_eq, hst.lastByte_eq]
      exact hlast
    · rw [hst.ended_eq, hout, hopen]
      exact fun hfalse => absurd hfalse Bool.false_ne_true
  refine ⟨hassembles, ?_, ?_, ?_, ?_, ?_⟩
  · intro p
    rw [checkEof_held, hst.held_iff, markEof_held, hmem]
  · rw [hc1, hst.capacity_eq, hcap]
  · rw [hc2, hst.bytesRead_eq, hout]
  · rw [hc3, hst.eofSet_eq, hset]
  · rw [hc4, ← hfirst]
    exact hst.first_le

/-- A stored chunk contains the new one: the skipped test would have failed, since the
containing chunk still waits. -/
theorem Assembles.push_contained (h : Assembles S r) (hopen : r.output.inputEnded = false)
    (hlast : (r.markEof data index eof).eofSet = true →
      (r.markEof data index eof).lastByte = S.length)
    (heof : eof = true → index + data.length = S.length) {c : Chunk}
    (htrim : Trimmed (r.markEof data index eof) data index c)
    (hcon : ∃ d ∈ r.unasmb, Contains c.index c.stop d) :
    PushEffect S r index data.length eof (r.markEof data index eof) := by
  obtain ⟨hout, hcap, hlist, hfirst, hset⟩ := markEof_frame r data index eof
  have hrep := h.rep.markEof data index eof
  have hbehind : ¬ ((r.markEof data index eof).eofSet = true ∧ r.firstUnasmb = S.length) := by
    intro hboth
    obtain ⟨d, hd, hin, -⟩ := hcon
    have hlt := h.rep.first_lt d hd
    cases eof with
    | false =>
      have hended := h.ended_iff.mpr hboth
      rw [hopen] at hended
      exact absurd hended Bool.false_ne_true
    | true =>
      have hend := heof rfl
      have hfront := htrim.index_eq (by rw [hfirst]; omega)
      rw [hfirst] at hfront
      omega
  have hst := stored_of_contains hrep (by rw [hlist]; exact hcon)
  refine ⟨⟨hrep, h.markEof_content, hlast, ?_⟩, ?_, hcap, by rw [hout], hset, by rw [hfirst]⟩
  · rw [hout, hopen, hfirst]
    exact ⟨fun hfalse => absurd hfalse Bool.false_ne_true, fun hboth => absurd hboth hbehind⟩
  · intro p
    rw [hst.held_iff, markEof_held, htrim.mem_iff, hfirst, hout, hcap]

/-- A push of an excerpt of S keeps `Assembles` and adds the positions in the window. -/
theorem Assembles.push (h : Assembles S r)
    (hS : S.length < 2 ^ 64) (hindex : index < 2 ^ 64) (hexc : IsExcerpt S index data)
    (heof : eof = true → index + data.length = S.length) :
    PushEffect S r index data.length eof (r.pushSubstring data index eof) := by
  cases hopen : r.output.inputEnded with
  | true => exact h.push_ended hopen hexc
  | false =>
    have hsum := excerpt_sum hS hindex hexc
    have hrep := h.rep.markEof data index eof
    have hlast := h.markEof_last hsum heof
    obtain ⟨hout, hcap, -, hfirst, -⟩ := markEof_frame r data index eof
    rcases push_cases data index eof h.rep hopen with
      ⟨r', hwin, hst, heq⟩ | ⟨hwin, hcon, heq⟩ | ⟨hwin, heq⟩
    · have htrim := hrep.trimmed data hwin.2
      rw [heq]
      refine h.push_stored hopen hlast hst (htrim.excerpt S hexc) ?_
      intro p
      rw [htrim.mem_iff, hfirst, hout, hcap]
    · rw [heq]
      exact h.push_contained hopen hlast heof (hrep.trimmed data hwin.2) hcon
    · -- outside of the window nothing is stored
      rw [heq]
      refine h.push_stored hopen hlast (stored_nil hrep 0) (IsExcerpt.nil S 0) ?_
      intro p
      unfold inWindow at hwin
      rw [hsum, hrep.firstUnacceptable_eq, hfirst, hout, hcap] at hwin
      simp only [Chunk.stop, List.length_nil]
      omega

end Push

/-- The reader takes bytes off the front of the output. -/
theorem Assembles.pop (h : Assembles S r) {len : ℕ} (hlen : len ≤ r.output.curSize) :
    Assembles S { r with output := r.output.popOutput len } := by
  refine ⟨h.rep.pop hlen, ⟨h.content.first_le, ?_, h.content.excerpts⟩, h.last_eq, h.ended_iff⟩
  change (r.output.popOutput len).buffered =
    (S.take r.firstUnasmb).drop (r.output.nBytesRead + min len r.output.curSize)
  rw [h.rep.output_valid.popOutput_buffered hlen, h.content.output_eq, List.drop_drop,
    Nat.min_eq_left hlen]
  rfl

/-- What has been read and what is buffered make up the assembled prefix. -/
theorem Assembles.taken_append_buffered (h : Assembles S r) :
    S.take r.output.bytesRead ++ r.output.buffered = S.take r.firstUnasmb := by
  have hle := h.rep.bytesRead_le
  have htake : S.take r.output.bytesRead = (S.take r.firstUnasmb).take r.output.bytesRead := by
    rw [List.take_take, Nat.min_eq_left hle]
  rw [h.content.output_eq, htake, List.take_append_drop]

theorem Assembles.setError (h : Assembles S r) :
    Assembles S { r with output := r.output.setError } :=
  ⟨h.rep.setError, ⟨h.content.first_le, h.content.output_eq, h.content.excerpts⟩, h.last_eq,
    h.ended_iff⟩

/-- An ended output has all of S. -/
theorem Assembles.written_of_ended (h : Assembles S r) (hended : r.output.inputEnded = true) :
    r.output.bytesWritten = S.length := by
  rw [← h.rep.first_eq]
  exact (h.ended_iff.mp hended).2

theorem Assembles.written_le (h : Assembles S r) : r.output.bytesWritten ≤ S.length := by
  rw [← h.rep.first_eq]
  exact h.content.first_le

/-- A push never takes back the end of the output. -/
theorem PushEffect.ended {r' : StreamReassembler} {index len : ℕ} {eof : Bool}
    (h : PushEffect S r index len eof r') (hr : Assembles S r)
    (hended : r.output.inputEnded = true) : r'.output.inputEnded = true := by
  obtain ⟨heof, hall⟩ := hr.ended_iff.mp hended
  have hfirst := h.first_le
  have hle := h.assembles.content.first_le
  rw [h.assembles.ended_iff, h.eofSet_eq, heof]
  exact ⟨rfl, by omega⟩

/-- The bytes a reader sees next, in terms of the stream. -/
theorem Assembles.peek_eq (h : Assembles S r) {len : ℕ} (hlen : len ≤ r.output.curSize) :
    r.output.peekOutput len = (S.drop r.output.bytesRead).take len := by
  have hw := h.rep.output_valid.written_eq
  have hf := h.rep.first_eq
  rw [h.rep.output_valid.peek_eq_take, h.content.output_eq, List.drop_take, List.take_take]
  congr 1
  simp only [ByteStream.bytesWritten, ByteStream.bytesRead] at *
  omega

end Honest

end Sponge.Assembly
