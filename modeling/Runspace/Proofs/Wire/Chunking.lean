import Runspace.Wire.Decoder

/-!
# Chunking — records do not depend on where the bytes are cut

What a decoder has found in the bytes so far, a record or a fault, more bytes do not change. So the
records of a byte string, and whether it is corrupt, are the same however it arrives.

* `Decoder.drain_extend`: draining, taking in a chunk and draining again is draining once;
* `Decoder.drainChunks`: what a reader finds that drains after each chunk;
* **`Decoder.drainChunks_eq`**: it finds what there is in all the bytes at once;
* **`Decoder.pending_drain`**, **`Decoder.drain_records`**: the records found are the front of the
  bytes, and records that are written are found.
-/

namespace Runspace

/-- A header is read from the first bytes alone. -/
theorem Header.read?_append {bs : Bytes} {h : Header} (hr : Header.read? bs = some h)
    (more : Bytes) : Header.read? (bs ++ more) = some h := by
  have hlen := (Header.take_of_read? hr).1
  unfold Header.read? at hr ⊢
  rwa [List.take_append_of_le_length hlen]

namespace Decoder

/-! ## One step -/

section Step

variable {d rest : Decoder} {f : Fragment} {fault : WireFault}

theorem extend_extend (d : Decoder) (a b : Bytes) :
    (d.extend a).extend b = d.extend (a ++ b) := by
  rw [extend, extend, extend, List.append_assoc]

@[simp] theorem extend_nil (d : Decoder) : d.extend [] = d := by
  rw [extend, List.append_nil]

/-- A record that was found is found with more bytes after it. -/
theorem next_extend_of_fragment (h : d.next = .fragment f rest) (more : Bytes) :
    (d.extend more).next = .fragment f (rest.extend more) := by
  obtain ⟨hpending, hlen⟩ := record_append_of_next h
  rw [extend, ← hpending, List.append_assoc]
  exact next_record f _ hlen

theorem next_extend_of_corrupt (h : d.next = .corrupt fault) (more : Bytes) :
    (d.extend more).next = .corrupt fault := by
  unfold next at h ⊢
  cases hr : Header.read? d.pending with
  | none =>
    rw [hr] at h
    cases h
  | some hd =>
    rw [extend, Header.read?_append hr]
    rw [hr] at h
    dsimp only at h ⊢
    split at h
    · exact h
    · split at h <;> cases h

end Step

/-! ## Draining -/

section Drain

variable {d rest : Decoder} {f : Fragment} {fault : WireFault}

theorem drain_of_incomplete (h : d.next = .incomplete) : d.drain = ([], .incomplete d) := by
  rw [drain]
  split
  · rfl
  · next h' => cases h.symm.trans h'
  · next h' => cases h.symm.trans h'

theorem drain_of_corrupt (h : d.next = .corrupt fault) : d.drain = ([], .corrupt fault d) := by
  rw [drain]
  split
  · next h' => cases h.symm.trans h'
  · next h' =>
    cases h.symm.trans h'
    rfl
  · next h' => cases h.symm.trans h'

theorem drain_of_fragment (h : d.next = .fragment f rest) :
    d.drain = (f :: rest.drain.1, rest.drain.2) := by
  rw [drain]
  split
  · next h' => cases h.symm.trans h'
  · next h' => cases h.symm.trans h'
  · next h' =>
    cases h.symm.trans h'
    rfl

/-- Records are taken off one after another, until there is none. -/
theorem drain_induction {motive : Decoder → Prop}
    (incomplete : ∀ d, d.next = .incomplete → motive d)
    (corrupt : ∀ d fault, d.next = .corrupt fault → motive d)
    (fragment : ∀ d f rest, d.next = .fragment f rest → motive rest → motive d) (d : Decoder) :
    motive d := by
  cases h : d.next with
  | incomplete => exact incomplete d h
  | corrupt fault => exact corrupt d fault h
  | fragment f rest => exact fragment d f rest h (drain_induction incomplete corrupt fragment rest)
termination_by d.buffered
decreasing_by exact buffered_lt_of_next h

/-- What a stopped decoder finds in more bytes: nothing after a fault. -/
def Stop.drainMore (more : Bytes) : Stop → List Fragment × Stop
  | .incomplete rest => (rest.extend more).drain
  | .corrupt fault rest => ([], .corrupt fault (rest.extend more))

/-- **Draining before a chunk and again after it finds what draining once after it finds.** -/
theorem drain_extend (d : Decoder) (more : Bytes) :
    (d.extend more).drain =
      (d.drain.1 ++ (d.drain.2.drainMore more).1, (d.drain.2.drainMore more).2) := by
  induction d using drain_induction with
  | incomplete d h =>
    rw [drain_of_incomplete h]
    rfl
  | corrupt d fault h =>
    rw [drain_of_corrupt h, drain_of_corrupt (next_extend_of_corrupt h more)]
    rfl
  | fragment d f rest h ih =>
    rw [drain_of_fragment h, drain_of_fragment (next_extend_of_fragment h more), ih]
    rfl

theorem drain_of_stop (h : d.drain.2 = .incomplete rest) : rest.drain = ([], .incomplete rest) := by
  induction d using drain_induction with
  | incomplete d hn =>
    rw [drain_of_incomplete hn] at h
    cases h
    exact drain_of_incomplete hn
  | corrupt d fault hn =>
    rw [drain_of_corrupt hn] at h
    cases h
  | fragment d f rest' hn ih =>
    rw [drain_of_fragment hn] at h
    exact ih h

end Drain

/-! ## Chunks -/

/-- The fault that stopped a decoder, or the number of bytes that it was left with. -/
def Stop.verdict : Stop → WireFault ⊕ Nat
  | .incomplete rest => .inr rest.buffered
  | .corrupt fault _ => .inl fault

/-- All records of some chunks, taken off after each, and what stopped the decoder. -/
def drainChunks (d : Decoder) : List Bytes → List Fragment × Stop
  | [] => ([], .incomplete d)
  | chunk :: chunks =>
    match (d.extend chunk).drain with
    | (fs, .incomplete rest) => (fs ++ (rest.drainChunks chunks).1, (rest.drainChunks chunks).2)
    | (fs, .corrupt fault rest) => (fs, .corrupt fault rest)

/-- **Chunks hold the records and the fault of the bytes that they make up,** and leave as many
bytes over. -/
theorem drainChunks_eq {d : Decoder} (hd : d.drain = ([], .incomplete d)) (chunks : List Bytes) :
    (d.drainChunks chunks).1 = (d.extend chunks.flatten).drain.1 ∧
      (d.drainChunks chunks).2.verdict = (d.extend chunks.flatten).drain.2.verdict := by
  induction chunks generalizing d with
  | nil => simp [drainChunks, hd]
  | cons chunk chunks ih =>
    have hall := drain_extend (d.extend chunk) chunks.flatten
    rw [extend_extend] at hall
    rw [drainChunks, List.flatten_cons, hall]
    cases hstop : (d.extend chunk).drain with
    | mk fs stop =>
      cases stop with
      | incomplete rest =>
        obtain ⟨hfs, hverdict⟩ := ih (drain_of_stop (congrArg Prod.snd hstop))
        dsimp only [Stop.drainMore]
        rw [hfs, hverdict]
        exact ⟨rfl, rfl⟩
      | corrupt fault rest =>
        dsimp only [Stop.drainMore]
        rw [List.append_nil]
        exact ⟨rfl, rfl⟩

/-! ## Records -/

theorem pending_drain (d : Decoder) :
    (d.drain.1.map Fragment.record).flatten ++ d.drain.2.rest.pending = d.pending ∧
      (∀ f ∈ d.drain.1, f.payload.length ≤ maxFragmentPayload) ∧
      d.drain.2.rest.drain = ([], d.drain.2) := by
  induction d using drain_induction with
  | incomplete d h => simp [drain_of_incomplete h, Stop.rest]
  | corrupt d fault h => simp [drain_of_corrupt h, Stop.rest]
  | fragment d f rest h ih =>
    obtain ⟨hpending, hlen⟩ := record_append_of_next h
    obtain ⟨hrest, hall, hstop⟩ := ih
    rw [drain_of_fragment h]
    refine ⟨?_, ?_, hstop⟩
    · rw [List.map_cons, List.flatten_cons, List.append_assoc, hrest, hpending]
    · intro g hg
      rcases List.mem_cons.1 hg with rfl | hg
      · exact hlen
      · exact hall g hg

/-- **Records that are written are found,** with what is found in the bytes after them. -/
theorem drain_records {fs : List Fragment} (h : ∀ f ∈ fs, f.payload.length ≤ maxFragmentPayload)
    (rest : Bytes) :
    (⟨(fs.map Fragment.record).flatten ++ rest⟩ : Decoder).drain =
      (fs ++ (⟨rest⟩ : Decoder).drain.1, (⟨rest⟩ : Decoder).drain.2) := by
  induction fs with
  | nil => rfl
  | cons f fs ih =>
    have hnext := next_record f ((fs.map Fragment.record).flatten ++ rest) (h f (by simp))
    rw [List.map_cons, List.flatten_cons, List.append_assoc, drain_of_fragment hnext,
      ih fun g hg => h g (by simp [hg])]
    rfl

/-- However written records are cut, they are found, and nothing is left over. -/
theorem drainChunks_records {fs : List Fragment}
    (h : ∀ f ∈ fs, f.payload.length ≤ maxFragmentPayload) {chunks : List Bytes}
    (hchunks : chunks.flatten = (fs.map Fragment.record).flatten) :
    empty.drainChunks chunks = (fs, .incomplete empty) := by
  have hempty : empty.drain = ([], .incomplete empty) := drain_of_incomplete rfl
  have hall : (empty.extend chunks.flatten).drain = (fs, .incomplete empty) := by
    have hdrain := drain_records h []
    rw [List.append_nil, show (⟨[]⟩ : Decoder) = empty from rfl, hempty, List.append_nil] at hdrain
    rw [extend, hchunks]
    exact hdrain
  obtain ⟨hfs, hverdict⟩ := drainChunks_eq hempty chunks
  rw [hall] at hfs hverdict
  generalize empty.drainChunks chunks = found at hfs hverdict
  obtain ⟨gs, stop⟩ := found
  cases stop with
  | corrupt fault rest => cases hverdict
  | incomplete rest =>
    have hnil : rest.pending = [] := List.length_eq_zero_iff.1 (Sum.inr.inj hverdict)
    have hrest : rest = empty := congrArg Decoder.mk hnil
    dsimp only at hfs
    rw [hfs, hrest]

end Decoder

end Runspace
