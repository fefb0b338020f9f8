import Sponge.CheckedParsers
import Sponge.Pieces
import Sponge.Transducers

/-!
Lists of buffers, lists of views, and writing one out in several goes.
`BufferList` and `BufferViewList` discard bytes from the front by the same loop, one over
buffers that throw, one over plain views. Both keep the string that their pieces make up,
whatever the pieces are; so a writer that gets rid of a part at a time sends every byte once.
-/
namespace Sponge

open Runs Pieces

/-- `std::out_of_range` with its text. -/
structure OutOfRange where
  what : String
  deriving DecidableEq, Repr

/-- Buffers that make up one string. -/
structure BufferList where
  buffers : List Buffer := []

namespace BufferList

def append (b other : BufferList) : BufferList := ⟨b.buffers ++ other.buffers⟩

def size (b : BufferList) : ℕ := (b.buffers.map Buffer.size).sum

def concatenate (b : BufferList) : List UInt8 := joined Buffer.str b.buffers

/-- `Buffer::remove_prefix`, as the loop below calls it. -/
def cutFront (front : Buffer) (n : ℕ) : Except OutOfRange Buffer :=
  (front.removePrefix n).mapError fun _ => ⟨"Buffer::remove_prefix"⟩

/-- Returns normally or throws; the list has changed in both cases. -/
def removePrefix (b : BufferList) (n : ℕ) : Except OutOfRange Unit × BufferList :=
  let (result, buffers) :=
    removeFront Buffer.size cutFront ⟨"BufferList::remove_prefix"⟩ n b.buffers
  (result, ⟨buffers⟩)

theorem cuts : Cuts Buffer.str Buffer.size cutFront where
  size_eq _ := rfl
  cut_eq front n hn := by
    obtain ⟨front', hremoved, hstr⟩ := Buffer.removePrefix_of_le (Nat.le_of_lt hn)
    exact ⟨front', by rw [cutFront, hremoved]; rfl, hstr⟩

theorem size_eq (b : BufferList) : b.size = b.concatenate.length := cuts.sum_sizes b.buffers

@[simp] theorem concatenate_append (b other : BufferList) :
    (b.append other).concatenate = b.concatenate ++ other.concatenate := joined_append _ _

theorem removePrefix_of_le {b : BufferList} {n : ℕ} (h : n ≤ b.size) :
    ∃ b', b.removePrefix n = (.ok (), b') ∧ b'.concatenate = b.concatenate.drop n := by
  rw [size_eq] at h
  obtain ⟨buffers, hremoved, hjoined⟩ := cuts.removeFront_of_le ⟨"BufferList::remove_prefix"⟩ h
  exact ⟨⟨buffers⟩, by rw [removePrefix, hremoved], hjoined⟩

theorem removePrefix_of_lt {b : BufferList} {n : ℕ} (h : b.size < n) :
    b.removePrefix n = (.error ⟨"BufferList::remove_prefix"⟩, {}) := by
  rw [size_eq] at h
  rw [removePrefix, cuts.removeFront_of_lt _ h]

/-- The strings of the buffers, which are all that the packet codecs look at. -/
def contents (b : BufferList) : BufferContents := ⟨b.buffers.map Buffer.str⟩

theorem contents_append (b other : BufferList) :
    (b.append other).contents = b.contents.append other.contents := by
  simp [contents, append, BufferContents.append]

theorem contents_concatenate (b : BufferList) : b.contents.concatenate = b.concatenate := rfl

theorem contents_size (b : BufferList) : b.contents.size = b.size := by
  rw [BufferContents.size_eq, contents_concatenate, size_eq]

end BufferList

/-- Views of strings that someone else keeps. -/
structure BufferViewList where
  views : List (List UInt8)
  deriving DecidableEq, Repr

namespace BufferViewList

def ofBufferList (buffers : BufferList) : BufferViewList := ⟨buffers.buffers.map Buffer.str⟩

def size (v : BufferViewList) : ℕ := (v.views.map List.length).sum

/-- `string_view::remove_prefix`, which checks nothing. -/
def cutFront (front : List UInt8) (n : ℕ) : Except OutOfRange (List UInt8) := .ok (front.drop n)

def removePrefix (v : BufferViewList) (n : ℕ) : Except OutOfRange Unit × BufferViewList :=
  let (result, views) :=
    removeFront List.length cutFront ⟨"BufferListView::remove_prefix"⟩ n v.views
  (result, ⟨views⟩)

/-- The bytes that the pieces of `as_iovecs` point to, in their order. -/
def bytes (v : BufferViewList) : List UInt8 := joined id v.views

theorem cuts : Cuts id List.length cutFront where
  size_eq _ := rfl
  cut_eq front n _ := ⟨front.drop n, rfl, rfl⟩

theorem size_eq (v : BufferViewList) : v.size = v.bytes.length := cuts.sum_sizes v.views

theorem bytes_ofBufferList (b : BufferList) : (ofBufferList b).bytes = b.concatenate := by
  simp [ofBufferList, bytes, joined, BufferList.concatenate]

theorem removePrefix_of_le {v : BufferViewList} {n : ℕ} (h : n ≤ v.size) :
    ∃ v', v.removePrefix n = (.ok (), v') ∧ v'.bytes = v.bytes.drop n := by
  rw [size_eq] at h
  obtain ⟨views, hremoved, hjoined⟩ :=
    cuts.removeFront_of_le ⟨"BufferListView::remove_prefix"⟩ h
  exact ⟨⟨views⟩, by rw [removePrefix, hremoved], hjoined⟩

theorem removePrefix_of_lt {v : BufferViewList} {n : ℕ} (h : v.size < n) :
    v.removePrefix n = (.error ⟨"BufferListView::remove_prefix"⟩, ⟨[]⟩) := by
  rw [size_eq] at h
  rw [removePrefix, cuts.removeFront_of_lt _ h]

end BufferViewList

namespace BufferList

inductive Edit where
  | append (other : BufferList)
  | removePrefix (n : ℕ)

def edit (b : BufferList) : Edit → Except OutOfRange Unit × BufferList
  | .append other => (.ok (), b.append other)
  | .removePrefix n => b.removePrefix n

/-- The same edit of one string. What is removed past its end leaves nothing. -/
def editString (s : List UInt8) : Edit → Except OutOfRange Unit × List UInt8
  | .append other => (.ok (), s ++ other.concatenate)
  | .removePrefix n =>
    (if n ≤ s.length then .ok () else .error ⟨"BufferList::remove_prefix"⟩, s.drop n)

/-- A caller who catches the exception goes on with the list as it was left. -/
def edits : Transducer BufferList Edit (Except OutOfRange Unit) where
  enabled _ _ := True
  step b e := (b.edit e).2
  reply b e := (b.edit e).1

def stringEdits : Transducer (List UInt8) Edit (Except OutOfRange Unit) where
  enabled _ _ := True
  step s e := (editString s e).2
  reply s e := (editString s e).1

theorem edit_eq (b : BufferList) (e : Edit) :
    (b.edit e).1 = (editString b.concatenate e).1 ∧
      (b.edit e).2.concatenate = (editString b.concatenate e).2 := by
  cases e with
  | append other => exact ⟨rfl, concatenate_append b other⟩
  | removePrefix n =>
    have hsize := b.size_eq
    simp only [edit, editString]
    by_cases hn : n ≤ b.size
    · obtain ⟨b', hremoved, hjoined⟩ := removePrefix_of_le hn
      rw [hremoved, if_pos (hsize ▸ hn)]
      exact ⟨rfl, hjoined⟩
    · have hlt := Nat.not_le.mp hn
      rw [removePrefix_of_lt hlt, if_neg (hsize ▸ hn), List.drop_of_length_le (by omega)]
      exact ⟨rfl, rfl⟩

theorem edits_simulate :
    Transducer.Simulation edits stringEdits (fun b s => b.concatenate = s) where
  enabled _ _ _ _ _ := trivial
  reply b _ e h _ := h ▸ (b.edit_eq e).1
  step b _ e h _ := h ▸ (b.edit_eq e).2

/-- However a list of buffers has been put together and used up, it is the string that the
same edits make, and the next removal treats it and its views as that string. -/
theorem behaves_like_string (es : List Edit) (n : ℕ) :
    let b := edits.exec {} es
    let v := BufferViewList.ofBufferList b
    b.concatenate = stringEdits.exec [] es ∧ b.size = b.concatenate.length ∧
      (n ≤ b.size → ∃ b' v', b.removePrefix n = (.ok (), b') ∧ v.removePrefix n = (.ok (), v') ∧
        b'.concatenate = b.concatenate.drop n ∧ v'.bytes = b'.concatenate) ∧
      (b.size < n → (b.removePrefix n).1 = .error ⟨"BufferList::remove_prefix"⟩ ∧
        (v.removePrefix n).1 = .error ⟨"BufferListView::remove_prefix"⟩) := by
  intro b v
  have hvalid := edits.valid_of_total (fun _ _ => trivial) {} es
  obtain ⟨-, -, hstring⟩ := edits_simulate.run (s := {}) rfl hvalid
  have hbytes : v.bytes = b.concatenate := BufferViewList.bytes_ofBufferList b
  have hsame : v.size = b.size := by rw [v.size_eq, hbytes, b.size_eq]
  refine ⟨hstring, b.size_eq, ?_, ?_⟩
  · intro hn
    obtain ⟨b', hb, hdropped⟩ := removePrefix_of_le hn
    obtain ⟨v', hv, hdropped'⟩ := BufferViewList.removePrefix_of_le (hsame ▸ hn)
    exact ⟨b', v', hb, hv, hdropped, by rw [hdropped', hbytes, hdropped]⟩
  · intro hn
    rw [removePrefix_of_lt hn, BufferViewList.removePrefix_of_lt (hsame ▸ hn)]
    exact ⟨rfl, rfl⟩

end BufferList

namespace FileDescriptor

/-- How a call of `write` ends. It waits while `writev` has not returned, and a failed system
call throws with a text that depends on the cause. -/
inductive WriteResult where
  | returned (totalBytesWritten : ℕ)
  | threw (what : String)
  | systemError
  | waiting
  deriving DecidableEq, Repr

/-- The loop of `write`, given what `writev` returns each time; none is a failure. The second
component is what the kernel has taken. -/
def writeLoop (writeAll : Bool) : List (Option ℕ) → ℕ → BufferViewList → WriteResult × List UInt8
  | [], _, _ => (.waiting, [])
  | none :: _, _, _ => (.systemError, [])
  | some bytesWritten :: answers, total, buffer =>
    if bytesWritten = 0 ∧ buffer.size ≠ 0 then
      (.threw "write returned 0 given non-empty input buffer", [])
    else if bytesWritten > buffer.size then
      (.threw "write wrote more than length of input buffer", buffer.bytes.take bytesWritten)
    else
      match buffer.removePrefix bytesWritten with
      | (.error e, _) => (.threw e.what, buffer.bytes.take bytesWritten)
      | (.ok _, rest) =>
        if writeAll ∧ rest.size ≠ 0 then
          let (result, taken) := writeLoop writeAll answers (total + bytesWritten) rest
          (result, buffer.bytes.take bytesWritten ++ taken)
        else (.returned (total + bytesWritten), buffer.bytes.take bytesWritten)

def write (buffer : BufferViewList) (writeAll : Bool) (answers : List (Option ℕ)) :
    WriteResult × List UInt8 :=
  writeLoop writeAll answers 0 buffer

/-- What the kernel has taken is what comes first, and all of it once a call that is to write
all returns. The removal never fails, and every answer but the last brings the end nearer. -/
structure Sends (writeAll : Bool) (answers : List (Option ℕ)) (total : ℕ)
    (buffer : BufferViewList) (result : WriteResult) (taken : List UInt8) : Prop where
  in_order : taken <+: buffer.bytes
  counted : ∀ n, result = .returned n → n = total + taken.length
  complete : ∀ n, result = .returned n → writeAll = true → taken = buffer.bytes
  in_range : result ≠ .threw "BufferListView::remove_prefix"
  progress : result = .waiting → answers.length ≤ taken.length

namespace Sends

variable {writeAll : Bool} {answers : List (Option ℕ)} {total n : ℕ} {buffer rest : BufferViewList}

/-- An exception, whatever has been taken before. -/
theorem threw {what : String} {taken : List UInt8} (hin : taken <+: buffer.bytes)
    (hwhat : what ≠ "BufferListView::remove_prefix") :
    Sends writeAll answers total buffer (.threw what) taken where
  in_order := hin
  counted _ h := absurd h (by simp)
  complete _ h := absurd h (by simp)
  in_range h := hwhat (WriteResult.threw.inj h)
  progress h := absurd h (by simp)

/-- The last round takes n bytes. -/
theorem last (hn : n ≤ buffer.size) (hall : writeAll = true → n = buffer.size) :
    Sends writeAll answers total buffer (.returned (total + n)) (buffer.bytes.take n) where
  in_order := List.take_prefix _ _
  counted m h := by
    rw [List.length_take_of_le (buffer.size_eq ▸ hn)]
    exact (WriteResult.returned.inj h).symm
  complete _ _ h := by
    have hsize := buffer.size_eq
    have hn := hall h
    exact List.take_of_length_le (by omega)
  in_range := by simp
  progress h := absurd h (by simp)

/-- A round that takes n bytes, and what comes of the rest. -/
theorem again (hpos : 0 < n) (hn : n ≤ buffer.size) (hrest : rest.bytes = buffer.bytes.drop n)
    {result : WriteResult} {taken : List UInt8}
    (h : Sends writeAll answers (total + n) rest result taken) :
    Sends writeAll (some n :: answers) total buffer result (buffer.bytes.take n ++ taken) := by
  have htaken : (buffer.bytes.take n).length = n :=
    List.length_take_of_le (buffer.size_eq ▸ hn)
  have hwhole : buffer.bytes.take n ++ rest.bytes = buffer.bytes := by
    rw [hrest, List.take_append_drop]
  refine ⟨?_, ?_, ?_, h.in_range, ?_⟩
  · have hin := (List.prefix_append_right_inj (buffer.bytes.take n)).mpr h.in_order
    rw [hwhole] at hin
    exact hin
  · intro m hm
    rw [h.counted m hm, List.length_append, htaken, Nat.add_assoc]
  · intro m hm hall
    rw [h.complete m hm hall, hwhole]
  · intro hwaiting
    have hprogress := h.progress hwaiting
    rw [List.length_append, htaken, List.length_cons]
    omega

end Sends

theorem writeLoop_sends (writeAll : Bool) (answers : List (Option ℕ)) (total : ℕ)
    (buffer : BufferViewList) :
    Sends writeAll answers total buffer (writeLoop writeAll answers total buffer).1
      (writeLoop writeAll answers total buffer).2 := by
  induction answers generalizing total buffer with
  | nil => exact ⟨List.nil_prefix, by simp [writeLoop], by simp [writeLoop], by simp [writeLoop],
      by simp [writeLoop]⟩
  | cons answer answers ih =>
    cases answer with
    | none => exact ⟨List.nil_prefix, by simp [writeLoop], by simp [writeLoop],
        by simp [writeLoop], by simp [writeLoop]⟩
    | some n =>
      by_cases hzero : n = 0 ∧ buffer.size ≠ 0
      · rw [writeLoop, if_pos hzero]
        exact Sends.threw List.nil_prefix (by simp)
      · by_cases hmore : n > buffer.size
        · rw [writeLoop, if_neg hzero, if_pos hmore]
          exact Sends.threw (List.take_prefix _ _) (by simp)
        · have hn := Nat.not_lt.mp hmore
          obtain ⟨rest, hremoved, hbytes⟩ := BufferViewList.removePrefix_of_le hn
          have hsize := buffer.size_eq
          have hrest := rest.size_eq
          rw [hbytes, List.length_drop] at hrest
          simp only [writeLoop, if_neg hzero, if_neg hmore, hremoved]
          split
          · rename_i hagain
            exact Sends.again (by omega) hn hbytes (ih (total + n) rest)
          · rename_i hlast
            refine Sends.last hn ?_
            intro hall
            by_contra hleft
            exact hlast ⟨hall, by omega⟩

/-- Nothing is sent twice and nothing is left out, in whatever portions the kernel takes it. -/
theorem write_sends (buffer : BufferViewList) (writeAll : Bool) (answers : List (Option ℕ)) :
    Sends writeAll answers 0 buffer (write buffer writeAll answers).1
      (write buffer writeAll answers).2 :=
  writeLoop_sends writeAll answers 0 buffer

end FileDescriptor

end Sponge
