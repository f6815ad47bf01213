import Runspace.Proofs.Wire.Delivery

/-!
# Pieces — a message is cut into full pieces and what is left

* **`length_chunks`**, `chunks_eq_append`: how many pieces there are, and that all but the last are
  full;
* `numberPieces_append`: only the last piece is marked as the end;
* `Splitter.pushAll`, **`Splitter.pushAll_fst`**: what a splitter makes of some messages in order;
* **`splitMessage_partitions`**: the fragments of every message, and that they fit into records.
-/

namespace Runspace

/-! ## Cutting -/

section Cutting

variable {α : Type}

/-- **There are as many pieces as the length needs,** each full piece counted once. -/
theorem length_chunks (k : Nat) (l : List α) :
    (chunks k l).length = (l.length + max 1 k - 1) / max 1 k := by
  have hpos : 0 < max 1 k := by omega
  fun_induction chunks k l with
  | case1 =>
    rw [List.length_nil, List.length_nil, Nat.div_eq_of_lt]
    omega
  | case2 a rest ih =>
    rw [List.length_cons, ih, List.length_drop, List.length_cons]
    have hrest : rest.length + 1 + max 1 k - 1 = rest.length + max 1 k := by omega
    rw [hrest, Nat.add_div_right _ hpos]
    by_cases hle : rest.length ≤ k - 1
    · -- all that is left fits into the first piece
      rw [Nat.div_eq_of_lt (by omega), Nat.div_eq_of_lt (by omega)]
    · have hleft : rest.length - (k - 1) + max 1 k - 1 = rest.length := by omega
      rw [hleft]

theorem chunks_eq_append {k : Nat} {l : List α} (hl : l ≠ []) :
    ∃ front last, chunks k l = front ++ [last] ∧ (∀ p ∈ front, p.length = max 1 k) ∧
      0 < last.length ∧ last.length ≤ max 1 k := by
  fun_induction chunks k l with
  | case1 => exact absurd rfl hl
  | case2 a rest ih =>
    by_cases hrest : rest.drop (k - 1) = []
    · refine ⟨[], a :: rest.take (k - 1), ?_, fun p hp => absurd hp List.not_mem_nil,
        Nat.succ_pos _, ?_⟩
      · rw [hrest, chunks]
        rfl
      · rw [List.length_cons, List.length_take]
        omega
    · obtain ⟨front, last, heq, hfull, hlast⟩ := ih hrest
      refine ⟨(a :: rest.take (k - 1)) :: front, last, by rw [heq, List.cons_append], ?_, hlast⟩
      have hlong : k - 1 < rest.length := Nat.lt_of_not_le fun h =>
        hrest (List.drop_eq_nil_iff.2 h)
      refine List.forall_mem_cons.2 ⟨?_, hfull⟩
      rw [List.length_cons, List.length_take]
      omega

end Cutting

/-! ## Numbering -/

section Numbering

variable (objectId : UInt64) (target : Target)

theorem map_payload_numberPieces (index : Nat) (pieces : List Bytes) :
    (numberPieces objectId target index pieces).map (·.payload) = pieces := by
  induction pieces generalizing index with
  | nil => rfl
  | cons piece rest ih => rw [numberPieces, List.map_cons, ih]

theorem map_fragmentId_numberPieces (index : Nat) (pieces : List Bytes) :
    (numberPieces objectId target index pieces).map (·.fragmentId) =
      (List.range' index pieces.length).map UInt64.ofNat := by
  induction pieces generalizing index with
  | nil => rfl
  | cons piece rest ih =>
    rw [numberPieces, List.map_cons, ih, List.length_cons, List.range'_succ, List.map_cons]

variable {objectId target} in
theorem header_of_mem_numberPieces {index : Nat} {pieces : List Bytes} {f : Fragment}
    (h : f ∈ numberPieces objectId target index pieces) :
    f.objectId = objectId ∧ f.target = target := by
  induction pieces generalizing index with
  | nil => cases h
  | cons piece rest ih =>
    rcases List.mem_cons.1 h with rfl | h
    · exact ⟨rfl, rfl⟩
    · exact ih h

theorem numberPieces_append (index : Nat) (front : List Bytes) (last : Bytes) :
    ∃ fs f, numberPieces objectId target index (front ++ [last]) = fs ++ [f] ∧
      fs.map (·.payload) = front ∧ f.payload = last ∧ (∀ g ∈ fs, g.isEnd = false) ∧
      f.isEnd = true := by
  induction front generalizing index with
  | nil => exact ⟨[], _, rfl, rfl, rfl, nofun, rfl⟩
  | cons piece front ih =>
    obtain ⟨fs, f, heq, hfront, hlast, hfs, hf⟩ := ih (index + 1)
    refine ⟨_ :: fs, f, congrArg (List.cons _) heq, ?_, hlast, ?_, hf⟩
    · rw [List.map_cons, hfront]
    · exact List.forall_mem_cons.2 ⟨by simp, hfs⟩

end Numbering

/-! ## Splitters -/

namespace Splitter

/-- The fragments of some messages in order, and the splitter for those after them. -/
def pushAll (s : Splitter) : List (Target × Bytes) → List Fragment × Splitter
  | [] => ([], s)
  | (target, message) :: rest =>
    let (fragments, s') := s.push target message
    let (others, s'') := s'.pushAll rest
    (fragments ++ others, s'')

/-- **A splitter numbers the messages from the next number on.** -/
theorem pushAll_fst (s : Splitter) (bodies : List (Target × Bytes)) :
    (s.pushAll bodies).1 = splitAll s.maxPayload s.nextObject bodies := by
  induction bodies generalizing s with
  | nil => rfl
  | cons b bodies ih => rw [splitAll_cons, ← ih { s with nextObject := s.nextObject + 1 }]; rfl

theorem encode_of_mem_pushAll {size : Nat} {s : Splitter} (hs : new? size = some s)
    {bodies : List (Target × Bytes)} {f : Fragment} (hf : f ∈ (s.pushAll bodies).1) :
    f.encode = .ok f.record := by
  unfold new? at hs
  split at hs
  · next hvalid =>
    cases hs
    rw [pushAll_fst] at hf
    have hsize : size ≤ maxFragmentPayload := by
      simp only [validFragmentSize, Bool.and_eq_true, decide_eq_true_eq] at hvalid
      exact hvalid.2
    exact if_pos (payload_le_of_mem_splitAll hsize hf)
  · cases hs

end Splitter

/-! ## Messages -/

/-- The pieces of a message: full ones and a last one, which is empty only if the message is. -/
theorem splitMessage_eq_append (objectId : UInt64) (target : Target) (message : Bytes)
    (maxPayload : Nat) : ∃ front last,
      splitMessage objectId target message maxPayload =
        numberPieces objectId target 0 (front ++ [last]) ∧
      (front ++ [last]).flatten = message ∧
      (front ++ [last]).length =
        max 1 ((message.length + max 1 maxPayload - 1) / max 1 maxPayload) ∧
      (∀ p ∈ front, p.length = max 1 maxPayload) ∧ last.length ≤ max 1 maxPayload ∧
      (last = [] ↔ message = []) := by
  cases message with
  | nil =>
    refine ⟨[], [], rfl, rfl, ?_, nofun, Nat.zero_le _, Iff.rfl⟩
    rw [List.length_nil, Nat.div_eq_of_lt (by omega)]
    rfl
  | cons b message =>
    have hne : b :: message ≠ [] := List.cons_ne_nil b message
    obtain ⟨front, last, heq, hfull, hpos, hle⟩ := chunks_eq_append (k := maxPayload) hne
    refine ⟨front, last, congrArg (numberPieces objectId target 0) heq, ?_, ?_, hfull, hle, ?_⟩
    · rw [← heq, flatten_chunks]
    · have hsome : 1 ≤ (front ++ [last]).length := by simp
      rw [← heq] at hsome ⊢
      rw [length_chunks] at hsome ⊢
      exact (Nat.max_eq_right hsome).symm
    · exact iff_of_false (List.ne_nil_of_length_pos hpos) hne

/-- **The fragments of every message.**

A message is cut into as many pieces as its length needs, and into one if it is empty. The payloads
make the message up, and every fragment carries its number and its target. The fragments are
numbered 0, 1, 2, … in order, as far as these numbers fit, which they do for every message of fewer
than 2^64 bytes. All but the last are full and not marked as the end; the last is marked, and empty
only if the message is. A splitter whose size may be chosen makes only fragments that have a
record. -/
theorem splitMessage_partitions (objectId : UInt64) (target : Target) (message : Bytes)
    (maxPayload : Nat) :
    let k := max 1 maxPayload
    let fs := splitMessage objectId target message maxPayload
    fs.length = max 1 ((message.length + k - 1) / k) ∧
      (fs.map (·.payload)).flatten = message ∧
      (∀ f ∈ fs, f.objectId = objectId ∧ f.target = target) ∧
      fs.map (·.fragmentId) = (List.range fs.length).map UInt64.ofNat ∧
      (message.length < UInt64.size → fs.map (·.fragmentId.toNat) = List.range fs.length) ∧
      (∃ front last, fs = front ++ [last] ∧
        (∀ f ∈ front, f.isEnd = false ∧ f.payload.length = k) ∧
        last.isEnd = true ∧ last.payload.length ≤ k ∧ (last.payload = [] ↔ message = [])) ∧
      ∀ (size : Nat) (s : Splitter), Splitter.new? size = some s →
        ∀ bodies, ∀ f ∈ (s.pushAll bodies).1, f.encode = .ok f.record := by
  intro k fs
  obtain ⟨front, last, heq, hflat, hcount, hfull, hle, hempty⟩ :=
    splitMessage_eq_append objectId target message maxPayload
  have hfs : fs = numberPieces objectId target 0 (front ++ [last]) := heq
  have hpayloads : fs.map (·.payload) = front ++ [last] := by
    rw [hfs, map_payload_numberPieces]
  have hlength : fs.length = (front ++ [last]).length := by rw [← hpayloads, List.length_map]
  have hids : fs.map (·.fragmentId) = (List.range fs.length).map UInt64.ofNat := by
    rw [hlength, List.range_eq_range', ← map_fragmentId_numberPieces objectId target, ← hfs]
  refine ⟨hlength.trans hcount, hpayloads ▸ hflat, ?_, hids, fun hsize => ?_, ?_,
    fun size s hs bodies f hf => Splitter.encode_of_mem_pushAll hs hf⟩
  · intro f hf
    rw [hfs] at hf
    exact header_of_mem_numberPieces hf
  · have hfits : fs.length ≤ UInt64.size := by
      have hpieces := length_chunks_le maxPayload message
      rw [length_chunks] at hpieces
      have hone : 1 ≤ UInt64.size := by decide
      rw [hlength, hcount]
      omega
    calc fs.map (·.fragmentId.toNat) = (fs.map (·.fragmentId)).map UInt64.toNat :=
        (List.map_map (f := fun f : Fragment => f.fragmentId) (g := UInt64.toNat)).symm
      _ = (List.range fs.length).map fun i => (UInt64.ofNat i).toNat := by
        rw [hids, List.map_map]
        rfl
      _ = (List.range fs.length).map id := List.map_congr_left fun i hi =>
        Nat.mod_eq_of_lt (Nat.lt_of_lt_of_le (List.mem_range.1 hi) hfits)
      _ = List.range fs.length := List.map_id _
  · obtain ⟨gs, g, hgs, hfront, hlast, hopen, hend⟩ :=
      numberPieces_append objectId target 0 front last
    refine ⟨gs, g, hfs.trans hgs, fun f hf => ⟨hopen f hf, hfull _ ?_⟩, hend, ?_, ?_⟩
    · exact hfront ▸ List.mem_map_of_mem hf
    · rw [hlast]
      exact hle
    · rw [hlast]
      exact hempty

/-- A message of five bytes in pieces of two, and an empty message by a splitter of the smallest
size. -/
theorem splitMessage_partitions_five :
    let fs := splitMessage 7 .pool [1, 2, 3, 4, 5] 2
    [1, 2, 3, 4, 5].length < UInt64.size ∧ fs.map (·.fragmentId.toNat) = [0, 1, 2] ∧
      fs.map (·.payload) = [[1, 2], [3, 4], [5]] ∧ fs.map (·.isEnd) = [false, false, true] ∧
      ∃ s, Splitter.new? 64 = some s ∧
        ∀ f ∈ (s.pushAll [(.pool, []), (.pool, [1])]).1, f.encode = .ok f.record := by
  intro fs
  obtain ⟨-, -, -, -, hids, -, hencode⟩ := splitMessage_partitions 7 .pool [1, 2, 3, 4, 5] 2
  have hfs : fs.length = 3 := by simp [fs, splitMessage, chunks, numberPieces]
  refine ⟨by decide, ?_, ?_, ?_, { maxPayload := 64 }, rfl, hencode 64 _ rfl _⟩
  · have := hids (by decide)
    rwa [show (splitMessage 7 .pool [1, 2, 3, 4, 5] 2).length = 3 from hfs] at this
  · simp [fs, splitMessage, chunks, numberPieces]
  · simp [fs, splitMessage, chunks, numberPieces]

end Runspace
