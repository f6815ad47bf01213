import Runspace.Wire.Fragment

/-!
# The record decoder — fragments out of a chunked byte stream

Bytes arrive in chunks whose boundaries carry no meaning. A decoder holds the bytes received and
not yet consumed, and takes one record after another off their front.

* `Header.read?`: the five numbers of a header, from the first twenty-nine bytes;
* `Decoder.next`: the next record and the decoder after it, or that more bytes are needed, or why
  the stream is corrupt. What it says depends on the unconsumed bytes alone, and a fault consumes
  nothing, so a corrupt stream stays corrupt;
* `Decoder.drain`: the records that are complete, in order;
* **`Decoder.next_record`** and **`Decoder.record_append_of_next`**: a record that is written is
  taken off, and what is taken off is the record as it was written.
-/

namespace Runspace

/-! ## Headers -/

/-- The numbers of a record's header. -/
structure Header where
  objectId : UInt64
  fragmentId : UInt64
  target : UInt64
  /-- The flags, of which the lowest marks the end of the message. -/
  flags : UInt8
  length : Nat

/-- The header at the front of a byte string that is long enough for one. -/
def Header.read? (bs : Bytes) : Option Header :=
  let h := bs.take headerLength
  if h.length < headerLength then none
  else some {
    objectId := UInt64.ofNat (ofLE (h.take 8))
    fragmentId := UInt64.ofNat (ofLE ((h.drop 8).take 8))
    target := UInt64.ofNat (ofLE ((h.drop 16).take 8))
    flags := h.getD 24 0
    length := ofLE ((h.drop 25).take 4) }

/-- A header is acceptable if it sets no flag but the lowest and announces no oversized payload;
the flags are looked at first. -/
def Header.fault? (h : Header) : Option WireFault :=
  if 1 < h.flags.toNat then some (.reservedFlags h.flags)
  else if maxFragmentPayload < h.length then some (.payloadTooLarge h.length maxFragmentPayload)
  else none

theorem Header.read?_header (f : Fragment) (rest : Bytes)
    (h : f.payload.length ≤ maxFragmentPayload) :
    Header.read? (f.header ++ rest) = some {
      objectId := f.objectId, fragmentId := f.fragmentId, target := f.target.raw
      flags := if f.isEnd then 1 else 0, length := f.payload.length } := by
  have hlen := f.length_header
  have htake : (f.header ++ rest).take headerLength = f.header := by
    rw [← hlen, List.take_left]
  have h8 (x : UInt64) : (leBytes 8 x.toNat).length = 8 := length_leBytes 8 _
  have hpay : f.payload.length < Nat.pow 256 4 := by
    simp only [maxFragmentPayload] at h
    exact Nat.lt_of_le_of_lt h (by decide)
  have h16 {l : Bytes} : l.drop 16 = (l.drop 8).drop 8 := by rw [List.drop_drop]
  have h24 {l : Bytes} : l.drop 24 = (l.drop 16).drop 8 := by rw [List.drop_drop]
  have h25 {l : Bytes} : l.drop 25 = (l.drop 24).drop 1 := by rw [List.drop_drop]
  unfold read?
  simp only [htake, hlen, Nat.lt_irrefl, if_false, Option.some.injEq, Header.mk.injEq]
  unfold Fragment.header
  refine ⟨?_, ?_, ?_, ?_, ?_⟩
  · rw [List.take_left' (h8 _), ofNat_ofLE_leBytes]
  · rw [List.drop_left' (h8 _), List.take_left' (h8 _), ofNat_ofLE_leBytes]
  · rw [h16, List.drop_left' (h8 _), List.drop_left' (h8 _), List.take_left' (h8 _),
      ofNat_ofLE_leBytes]
  · simp [List.getD_eq_getElem?_getD]
  · rw [h25, h24, h16, List.drop_left' (h8 _), List.drop_left' (h8 _), List.drop_left' (h8 _),
      List.drop_one, List.tail_cons, List.take_of_length_le (Nat.le_of_eq (length_leBytes 4 _)),
      ofLE_leBytes hpay]

/-- The bytes of a header are determined by what it says. -/
theorem Header.take_of_read? {bs : Bytes} {h : Header} (hr : Header.read? bs = some h) :
    headerLength ≤ bs.length ∧ bs.take headerLength =
      leBytes 8 h.objectId.toNat ++ (leBytes 8 h.fragmentId.toNat ++
        (leBytes 8 h.target.toNat ++ h.flags :: leBytes 4 h.length)) := by
  unfold read? at hr
  dsimp only at hr
  split at hr
  · cases hr
  · next hge =>
    have hlen : (bs.take headerLength).length = 29 := by
      rw [List.length_take] at hge ⊢
      simp only [headerLength] at hge ⊢
      omega
    refine ⟨?_, ?_⟩
    · rw [List.length_take] at hlen
      simp only [headerLength] at hlen ⊢
      omega
    generalize bs.take headerLength = hd at hr hlen
    cases hr
    have h4 : leBytes 4 (ofLE ((hd.drop 25).take 4)) = (hd.drop 25).take 4 := by
      have hl : ((hd.drop 25).take 4).length = 4 := by simp [hlen]
      simpa only [hl] using leBytes_ofLE ((hd.drop 25).take 4)
    have hflag : hd.getD 24 0 :: (hd.drop 25).take 4 = hd.drop 24 := by
      rw [List.take_of_length_le (by simp [hlen]),
        List.drop_eq_getElem_cons (by omega : 24 < hd.length), List.getD_eq_getElem?_getD,
        List.getElem?_eq_getElem (by omega : 24 < hd.length), Option.getD_some]
    have h16 : (hd.drop 16).take 8 ++ hd.drop 24 = hd.drop 16 := by
      rw [show 24 = 16 + 8 from rfl, ← List.drop_drop, List.take_append_drop]
    have h8 : (hd.drop 8).take 8 ++ hd.drop 16 = hd.drop 8 := by
      rw [show 16 = 8 + 8 from rfl, ← List.drop_drop, List.take_append_drop]
    rw [leBytes_ofNat_ofLE (by simp [hlen]), leBytes_ofNat_ofLE (by simp [hlen]),
      leBytes_ofNat_ofLE (by simp [hlen]), h4, hflag, h16, h8, List.take_append_drop]

/-! ## The decoder -/

/-- The bytes received and not yet consumed. -/
structure Decoder where
  /-- Those bytes, oldest first. -/
  pending : Bytes := []

namespace Decoder

/-- What the unconsumed bytes say. -/
inductive Step where
  | incomplete
  | fragment (f : Fragment) (rest : Decoder)
  | corrupt (fault : WireFault)

/-- A decoder that has received nothing. -/
def empty : Decoder := ⟨[]⟩

/-- Takes in a chunk. -/
def extend (d : Decoder) (chunk : Bytes) : Decoder := ⟨d.pending ++ chunk⟩

/-- The number of bytes received and not yet consumed. -/
def buffered (d : Decoder) : Nat := d.pending.length

/-- The next record, if the unconsumed bytes hold all of it. -/
def next (d : Decoder) : Step :=
  match Header.read? d.pending with
  | none => .incomplete
  | some h =>
    match h.fault? with
    | some fault => .corrupt fault
    | none =>
      let payload := (d.pending.drop headerLength).take h.length
      if payload.length < h.length then .incomplete
      else .fragment
        { objectId := h.objectId, fragmentId := h.fragmentId, target := Target.ofRaw h.target
          isEnd := h.flags == 1, payload }
        ⟨d.pending.drop (headerLength + h.length)⟩

/-- **A record at the front of the unconsumed bytes is taken off.** -/
theorem next_record (f : Fragment) (rest : Bytes) (h : f.payload.length ≤ maxFragmentPayload) :
    (⟨f.record ++ rest⟩ : Decoder).next = .fragment f ⟨rest⟩ := by
  have hread := Header.read?_header f (f.payload ++ rest) h
  rw [← List.append_assoc, ← Fragment.record] at hread
  have hflag (b : Bool) : (if b then (1 : UInt8) else 0).toNat ≤ 1 := by cases b <;> decide
  have hend (b : Bool) : ((if b then (1 : UInt8) else 0) == 1) = b := by cases b <;> decide
  have hdrop : (f.record ++ rest).drop headerLength = f.payload ++ rest := by
    rw [Fragment.record, List.append_assoc, ← f.length_header, List.drop_left]
  unfold next
  simp only [hread, Header.fault?, Nat.not_lt.2 (hflag _), Nat.not_lt.2 h, if_false, hdrop,
    List.take_left, Nat.lt_irrefl, ← List.drop_drop, List.drop_left, hend, Target.ofRaw_raw]

/-- **A record that is taken off is the front of the unconsumed bytes.** -/
theorem record_append_of_next {d rest : Decoder} {f : Fragment} (h : d.next = .fragment f rest) :
    f.record ++ rest.pending = d.pending ∧ f.payload.length ≤ maxFragmentPayload := by
  unfold next at h
  split at h
  · cases h
  · next hd hr =>
    obtain ⟨hlen, htake⟩ := Header.take_of_read? hr
    split at h
    · cases h
    · next hf =>
      dsimp only at h
      split at h
      · cases h
      · next hpay =>
        injection h with hfrag hrest
        subst hfrag hrest
        have hplen : ((d.pending.drop headerLength).take hd.length).length = hd.length := by
          rw [List.length_take] at hpay ⊢
          omega
        unfold Header.fault? at hf
        split at hf
        · cases hf
        · next hflags =>
          split at hf
          · cases hf
          · next hmax =>
            refine ⟨?_, ?_⟩
            · have hflag : (if (hd.flags == 1) = true then (1 : UInt8) else 0) = hd.flags := by
                have hcases : hd.flags = 0 ∨ hd.flags = 1 := by
                  rcases Nat.le_one_iff_eq_zero_or_eq_one.1 (Nat.le_of_not_lt hflags) with h0 | h1
                  · exact .inl (UInt8.toNat_inj.1 h0)
                  · exact .inr (UInt8.toNat_inj.1 h1)
                rcases hcases with h0 | h1
                · rw [h0]; decide
                · rw [h1]; decide
              simp only [Fragment.record, Fragment.header, Target.raw_ofRaw, hplen, hflag]
              rw [← htake, List.append_assoc, ← List.drop_drop, List.take_append_drop,
                List.take_append_drop]
            · rw [hplen]
              exact Nat.le_of_not_lt hmax

theorem buffered_lt_of_next {d rest : Decoder} {f : Fragment}
    (h : d.next = .fragment f rest) : rest.buffered < d.buffered := by
  have hlen := congrArg List.length (record_append_of_next h).1
  rw [List.length_append, f.length_record, Fragment.encodedLength] at hlen
  simp only [buffered, headerLength] at hlen ⊢
  omega

/-- What stopped a decoder from yielding more records. -/
inductive Stop where
  | incomplete (rest : Decoder)
  /-- The stream is corrupt; this decoder still holds the offending bytes. -/
  | corrupt (fault : WireFault) (rest : Decoder)

/-- The decoder that is left after a stop. -/
def Stop.rest : Stop → Decoder
  | .incomplete rest => rest
  | .corrupt _ rest => rest

/-- All complete records at the front of the unconsumed bytes, and what stopped the decoder. -/
def drain (d : Decoder) : List Fragment × Stop :=
  match _h : d.next with
  | .incomplete => ([], .incomplete d)
  | .corrupt fault => ([], .corrupt fault d)
  | .fragment f rest =>
    let (fs, stop) := drain rest
    (f :: fs, stop)
termination_by d.buffered
decreasing_by exact buffered_lt_of_next _h

end Decoder

end Runspace
