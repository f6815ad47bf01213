import Runspace.Wire.Decoder

/-!
# Buffers — the bytes of a decoder in place

A decoder need not move its bytes whenever it takes a record off. A buffer leaves the consumed ones
where they are, remembers where the others start, and clears the consumed ones away when the next
chunk comes.

* `Decoder.Answer`, `Decoder.ask`: what a decoder says when it is asked for the next record;
* `Buffer`, `Buffer.extend`, `Buffer.ask`, `Buffer.buffered`;
* **`Buffer.unconsumed_extend`**, **`Buffer.ask_unconsumed`**: a buffer takes in and says what the
  decoder of its unconsumed bytes does.
-/

namespace Runspace

/-! ## Answers -/

/-- What a decoder says when it is asked for the next record: the record, or that more bytes are
needed, or why the stream is corrupt. -/
abbrev Decoder.Answer := Except WireFault (Option Fragment)

/-- Asks for the next record, which is taken off. -/
def Decoder.ask (d : Decoder) : Decoder × Answer :=
  match d.next with
  | .incomplete => (d, .ok none)
  | .fragment f rest => (rest, .ok (some f))
  | .corrupt fault => (d, .error fault)

namespace Decoder

variable {d rest : Decoder} {f : Fragment} {fault : WireFault}

theorem ask_of_incomplete (h : d.next = .incomplete) : d.ask = (d, .ok none) := by rw [ask, h]

theorem ask_of_fragment (h : d.next = .fragment f rest) : d.ask = (rest, .ok (some f)) := by
  rw [ask, h]

theorem ask_of_corrupt (h : d.next = .corrupt fault) : d.ask = (d, .error fault) := by rw [ask, h]

end Decoder

/-! ## Buffers -/

/-- The bytes received, of which those at the front may have been consumed. -/
structure Buffer where
  /-- Those bytes, oldest first. -/
  bytes : Bytes := []
  start : Nat := 0
  start_le : start ≤ bytes.length := by exact Nat.zero_le _

namespace Buffer

/-- A buffer that has received nothing. -/
def empty : Buffer := {}

/-- The decoder of the bytes that were not consumed. -/
def unconsumed (b : Buffer) : Decoder := ⟨b.bytes.drop b.start⟩

/-- The number of bytes received and not yet consumed. -/
def buffered (b : Buffer) : Nat := b.bytes.length - b.start

/-- Takes in a chunk, after the consumed bytes were cleared away. -/
def extend (b : Buffer) (chunk : Bytes) : Buffer :=
  if 0 < b.start then { bytes := b.bytes.drop b.start ++ chunk }
  else { b with
    bytes := b.bytes ++ chunk
    start_le := by rw [List.length_append]; exact Nat.le_add_right_of_le b.start_le }

/-- Asks for the next record, over which the start moves. -/
def ask (b : Buffer) : Buffer × Decoder.Answer :=
  match h : b.unconsumed.next with
  | .incomplete => (b, .ok none)
  | .fragment f _ =>
    ({ b with
      start := b.start + f.encodedLength
      start_le := by
        have hlen := congrArg List.length (Decoder.record_append_of_next h).1
        rw [List.length_append, f.length_record, unconsumed, List.length_drop] at hlen
        have := b.start_le
        have : 0 < f.encodedLength := Nat.lt_add_right _ (by decide)
        omega }, .ok (some f))
  | .corrupt fault => (b, .error fault)

@[simp] theorem buffered_unconsumed (b : Buffer) : b.unconsumed.buffered = b.buffered :=
  List.length_drop

@[simp] theorem unconsumed_extend (b : Buffer) (chunk : Bytes) :
    (b.extend chunk).unconsumed = b.unconsumed.extend chunk := by
  unfold extend
  split
  · rfl
  · next hstart =>
    have hzero : b.start = 0 := Nat.eq_zero_of_not_pos hstart
    simp [unconsumed, Decoder.extend, hzero]

/-- **A buffer answers what the decoder of its unconsumed bytes answers.** -/
theorem ask_unconsumed (b : Buffer) : b.unconsumed.ask = (b.ask.1.unconsumed, b.ask.2) := by
  unfold ask
  split
  · next h => exact Decoder.ask_of_incomplete h
  · next f rest h =>
    have hrest : b.unconsumed.pending.drop f.encodedLength = rest.pending := by
      rw [← (Decoder.record_append_of_next h).1, ← f.length_record, List.drop_left]
    rw [Decoder.ask_of_fragment h]
    exact Prod.ext (congrArg Decoder.mk (hrest.symm.trans List.drop_drop)) rfl
  · next h => exact Decoder.ask_of_corrupt h

end Buffer

end Runspace
