import Runspace.Proofs.Wire.Chunking
import Runspace.Wire.Buffer

/-!
# Calls — a decoder under any calls

Chunks are taken in and records are asked for in any order. After any calls the records yielded and
the bytes not consumed make up what was received, so what a decoder yields of the records of some
fragments is known from the number of bytes alone.

* `Call`, `Decoder.replay`, `Buffer.replay`: calls in order, with the answers;
  **`Buffer.replay_eq`**: a buffer answers what a decoder does;
* `AcceptsHeader`, **`Decoder.next_cases`**: what the unconsumed bytes get for an answer;
* **`Decoder.records_append_of_replay`**: no byte is lost or invented;
* `Decoder.Awaits`, **`Decoder.Awaits.replay`**: a decoder that receives the records of some
  fragments, cut short anywhere;
* **`Buffer.fragments_of_calls`**, **`Buffer.accounts_of_calls`**: both for the bytes in place.
-/

namespace Runspace

/-! ## Calls -/

/-- What can be asked of a decoder. -/
inductive Call where
  | extend (chunk : Bytes)
  | next

namespace Call

variable {σ τ : Type}

/-- Some calls in order, with the answers to those that ask. -/
def replay (extend : σ → Bytes → σ) (ask : σ → σ × Decoder.Answer) (s : σ) :
    List Call → σ × List Decoder.Answer
  | [] => (s, [])
  | .extend chunk :: calls => replay extend ask (extend s chunk) calls
  | .next :: calls =>
    let (s, answer) := ask s
    let (s, answers) := replay extend ask s calls
    (s, answer :: answers)

/-- The bytes that some calls bring. -/
def received (calls : List Call) : Bytes :=
  calls.flatMap fun
    | .extend chunk => chunk
    | .next => []

/-- The fragments among some answers. -/
def yielded (answers : List Decoder.Answer) : List Fragment :=
  answers.filterMap fun
    | .ok (some f) => some f
    | _ => none

theorem received_append (before after : List Call) :
    received (before ++ after) = received before ++ received after := List.flatMap_append ..

theorem received_replicate_next (n : Nat) : received (List.replicate n .next) = [] := by
  induction n with
  | zero => rfl
  | succ n ih => exact ih

theorem replay_append (extend : σ → Bytes → σ) (ask : σ → σ × Decoder.Answer) (s : σ)
    (before after : List Call) :
    replay extend ask s (before ++ after) =
      ((replay extend ask (replay extend ask s before).1 after).1,
        (replay extend ask s before).2 ++ (replay extend ask (replay extend ask s before).1 after).2)
    := by
  induction before generalizing s with
  | nil => rfl
  | cons call before ih =>
    cases call with
    | extend chunk => exact ih (extend s chunk)
    | next => simp only [List.cons_append, replay, ih]

/-- Two machines of which one is a view of the other answer alike. -/
theorem replay_view {extend : σ → Bytes → σ} {ask : σ → σ × Decoder.Answer}
    {extend' : τ → Bytes → τ} {ask' : τ → τ × Decoder.Answer} (view : σ → τ)
    (hextend : ∀ s chunk, view (extend s chunk) = extend' (view s) chunk)
    (hask : ∀ s, ask' (view s) = (view (ask s).1, (ask s).2)) (s : σ) (calls : List Call) :
    replay extend' ask' (view s) calls =
      (view (replay extend ask s calls).1, (replay extend ask s calls).2) := by
  induction calls generalizing s with
  | nil => rfl
  | cons call calls ih =>
    cases call with
    | extend chunk =>
      rw [replay, ← hextend, ih]
      rfl
    | next => simp only [replay, hask, ih]

end Call

/-- Some calls of a decoder in order. -/
def Decoder.replay (d : Decoder) (calls : List Call) : Decoder × List Answer :=
  Call.replay extend ask d calls

/-- Some calls of a buffer in order. -/
def Buffer.replay (b : Buffer) (calls : List Call) : Buffer × List Decoder.Answer :=
  Call.replay extend ask b calls

/-- **A buffer answers any calls as the decoder of its unconsumed bytes does.** -/
theorem Buffer.replay_eq (b : Buffer) (calls : List Call) :
    b.unconsumed.replay calls = ((b.replay calls).1.unconsumed, (b.replay calls).2) :=
  Call.replay_view unconsumed unconsumed_extend ask_unconsumed b calls

open Call

/-! ## What the unconsumed bytes say -/

/-- The byte at which a header has its flags. -/
def flagsAt (bs : Bytes) : UInt8 := bs.getD 24 0

/-- The number at which a header announces the length of its payload. -/
def lengthAt (bs : Bytes) : Nat := ofLE ((bs.drop 25).take 4)

/-- Whether a header sets no flag but the lowest and announces no oversized payload. -/
def AcceptsHeader (bs : Bytes) : Prop := flagsAt bs &&& 0xFE = 0 ∧ lengthAt bs ≤ maxFragmentPayload

instance (bs : Bytes) : Decidable (AcceptsHeader bs) := inferInstanceAs (Decidable (_ ∧ _))

/-- Why a header is refused: the flags are looked at first. -/
def refusalAt (bs : Bytes) : WireFault :=
  if flagsAt bs &&& 0xFE = 0 then .payloadTooLarge (lengthAt bs) maxFragmentPayload
  else .reservedFlags (flagsAt bs)

theorem and_reserved_eq_zero_iff (flags : UInt8) : flags &&& 0xFE = 0 ↔ flags.toNat ≤ 1 := by
  have hall : ∀ n : Fin 256, n.val &&& 254 = 0 ↔ n.val ≤ 1 := by decide +kernel
  rw [← UInt8.toNat_inj, UInt8.toNat_and]
  exact hall ⟨flags.toNat, flags.toNat_lt⟩

theorem Header.length_of_read?_eq_none {bs : Bytes} (hr : Header.read? bs = none) :
    bs.length < headerLength := by
  unfold read? at hr
  dsimp only at hr
  split at hr
  · next hlt =>
    rw [List.length_take] at hlt
    omega
  · cases hr

theorem Header.fields_of_read? {bs : Bytes} {h : Header} (hr : Header.read? bs = some h) :
    h.flags = flagsAt bs ∧ h.length = lengthAt bs := by
  unfold read? at hr
  dsimp only at hr
  split at hr
  · cases hr
  · cases hr
    constructor
    · simp [flagsAt, List.getD_eq_getElem?_getD, headerLength]
    · simp [lengthAt, List.drop_take, List.take_take, headerLength]

namespace Decoder

variable {d rest : Decoder} {f : Fragment} {fault : WireFault}

/-- **What the unconsumed bytes say depends on their header,** and on whether its payload is there:
a header with a reserved flag or an oversized payload is refused before that. -/
theorem next_cases (d : Decoder) :
    (d.next = .incomplete ∧ (d.buffered < headerLength ∨
      AcceptsHeader d.pending ∧ d.buffered < headerLength + lengthAt d.pending)) ∨
    (∃ f rest, d.next = .fragment f rest ∧ AcceptsHeader d.pending ∧
      headerLength + lengthAt d.pending ≤ d.buffered) ∨
    d.next = .corrupt (refusalAt d.pending) ∧ headerLength ≤ d.buffered ∧
      ¬ AcceptsHeader d.pending := by
  cases hr : Header.read? d.pending with
  | none =>
    refine .inl ⟨?_, .inl (Header.length_of_read?_eq_none hr)⟩
    rw [next, hr]
  | some h =>
    have hlong : headerLength ≤ d.buffered := (Header.take_of_read? hr).1
    obtain ⟨hflags, hlength⟩ := Header.fields_of_read? hr
    simp only [AcceptsHeader, refusalAt, ← hflags, ← hlength, and_reserved_eq_zero_iff]
    unfold next Header.fault?
    rw [hr]
    dsimp only
    by_cases hf : 1 < h.flags.toNat
    · rw [if_pos hf, if_neg (Nat.not_le.2 hf)]
      exact .inr (.inr ⟨rfl, hlong, fun ha => absurd ha.1 (Nat.not_le.2 hf)⟩)
    · rw [if_neg hf, if_pos (Nat.not_lt.1 hf)]
      by_cases hm : maxFragmentPayload < h.length
      · rw [if_pos hm]
        exact .inr (.inr ⟨rfl, hlong, fun ha => absurd ha.2 (Nat.not_le.2 hm)⟩)
      · have haccept := And.intro (Nat.not_lt.1 hf) (Nat.not_lt.1 hm)
        rw [if_neg hm]
        dsimp only
        rw [List.length_take, List.length_drop]
        unfold buffered at hlong ⊢
        split
        · next hshort => exact .inl ⟨rfl, .inr ⟨haccept, by omega⟩⟩
        · next hshort => exact .inr (.inl ⟨_, _, rfl, haccept, by omega⟩)

theorem ask_eq_none_iff (d : Decoder) : d.ask.2 = .ok none ↔ d.buffered < headerLength ∨
    AcceptsHeader d.pending ∧ d.buffered < headerLength + lengthAt d.pending := by
  rcases d.next_cases with ⟨h, hs⟩ | ⟨f, rest, h, ha, hs⟩ | ⟨h, hl, ha⟩
  · simpa only [ask_of_incomplete h, true_iff] using hs
  · rw [ask_of_fragment h]
    refine iff_of_false (by simp) ?_
    omega
  · rw [ask_of_corrupt h]
    refine iff_of_false (by simp) ?_
    rintro (hs | ⟨hs, -⟩)
    · omega
    · exact ha hs

theorem ask_eq_error_iff (d : Decoder) (fault : WireFault) : d.ask.2 = .error fault ↔
    headerLength ≤ d.buffered ∧ ¬ AcceptsHeader d.pending ∧ fault = refusalAt d.pending := by
  rcases d.next_cases with ⟨h, hs⟩ | ⟨f, rest, h, ha, -⟩ | ⟨h, hl, ha⟩
  · rw [ask_of_incomplete h]
    refine iff_of_false (by simp) ?_
    rintro ⟨hl, ha, -⟩
    rcases hs with hs | hs
    · omega
    · exact ha hs.1
  · rw [ask_of_fragment h]
    exact iff_of_false (by simp) fun hs => hs.2.1 ha
  · rw [ask_of_corrupt h]
    simp [hl, ha, eq_comm]

theorem next_of_ask_error (h : d.ask.2 = .error fault) : d.next = .corrupt fault := by
  cases hd : d.next with
  | incomplete =>
    rw [ask_of_incomplete hd] at h
    cases h
  | fragment f rest =>
    rw [ask_of_fragment hd] at h
    cases h
  | corrupt fault' =>
    rw [ask_of_corrupt hd] at h
    cases h
    rfl

/-! ## Any calls -/

theorem replay_append (d : Decoder) (before after : List Call) :
    d.replay (before ++ after) = (((d.replay before).1.replay after).1,
      (d.replay before).2 ++ ((d.replay before).1.replay after).2) :=
  Call.replay_append extend ask d before after

theorem replay_next (d : Decoder) (calls : List Call) :
    d.replay (.next :: calls) =
      ((d.ask.1.replay calls).1, d.ask.2 :: (d.ask.1.replay calls).2) := rfl

/-- A decoder that has found a fault finds it again, whatever it takes in. -/
theorem replay_of_corrupt (h : d.next = .corrupt fault) (calls : List Call) :
    ∀ a ∈ (d.replay calls).2, a = .error fault := by
  induction calls generalizing d with
  | nil =>
    intro a ha
    cases ha
  | cons call calls ih =>
    cases call with
    | extend chunk => exact ih (next_extend_of_corrupt h chunk)
    | next =>
      intro a ha
      rw [replay_next, ask_of_corrupt h] at ha
      exact (List.mem_cons.1 ha).elim id (ih h a)

/-- **The records yielded and the bytes not consumed make up what was received.** -/
theorem records_append_of_replay (d : Decoder) (calls : List Call) :
    ((yielded (d.replay calls).2).map Fragment.record).flatten ++ (d.replay calls).1.pending =
        d.pending ++ received calls ∧
      ∀ f ∈ yielded (d.replay calls).2, f.payload.length ≤ maxFragmentPayload := by
  induction calls generalizing d with
  | nil => exact ⟨(List.append_nil _).symm, fun f hf => by cases hf⟩
  | cons call calls ih =>
    cases call with
    | extend chunk =>
      obtain ⟨hbytes, hle⟩ := ih (d.extend chunk)
      refine ⟨?_, hle⟩
      rw [extend, List.append_assoc] at hbytes
      exact hbytes
    | next =>
      cases h : d.next with
      | incomplete =>
        rw [replay_next, ask_of_incomplete h]
        exact ih d
      | corrupt fault =>
        rw [replay_next, ask_of_corrupt h]
        exact ih d
      | fragment f rest =>
        obtain ⟨hpending, hlen⟩ := record_append_of_next h
        obtain ⟨hbytes, hle⟩ := ih rest
        rw [replay_next, ask_of_fragment h]
        refine ⟨?_, fun g hg => ?_⟩
        · show (f.record ++ ((yielded (rest.replay calls).2).map Fragment.record).flatten) ++
            (rest.replay calls).1.pending = d.pending ++ received calls
          rw [List.append_assoc, hbytes, ← List.append_assoc, hpending]
        · rcases List.mem_cons.1 hg with rfl | hg
          · exact hlen
          · exact hle g hg

/-! ## Written records -/

/-- A decoder is to receive the rest of the records of some fragments. -/
structure Awaits (d : Decoder) (fs : List Fragment) (missing : Bytes) : Prop where
  pending_append : d.pending ++ missing = (fs.map Fragment.record).flatten
  payload_le : ∀ f ∈ fs, f.payload.length ≤ maxFragmentPayload

section Awaits

variable {fs : List Fragment} {missing chunk : Bytes} {n : Nat}

theorem Awaits.extend (h : d.Awaits fs (chunk ++ missing)) : (d.extend chunk).Awaits fs missing :=
  ⟨(List.append_assoc ..).trans h.pending_append, h.payload_le⟩

theorem Awaits.next_nil (h : d.Awaits [] missing) : d.next = .incomplete := by
  have hd : d = empty := congrArg Decoder.mk (List.append_eq_nil_iff.1 h.pending_append).1
  rw [hd]
  rfl

/-- **Such a decoder yields the first of the fragments as soon as it holds its record.** -/
theorem Awaits.next_cons (h : d.Awaits (f :: fs) missing) :
    (∃ rest, d.next = .fragment f rest ∧ rest.Awaits fs missing) ∨
      d.next = .incomplete ∧ d.buffered < f.encodedLength := by
  obtain ⟨hf, hfs⟩ := List.forall_mem_cons.1 h.payload_le
  have hall : (d.extend missing).next = .fragment f ⟨(fs.map Fragment.record).flatten⟩ := by
    rw [Decoder.extend, h.pending_append]
    exact next_record f _ hf
  cases hd : d.next with
  | fragment g rest =>
    injection (next_extend_of_fragment hd missing).symm.trans hall with hg hrest
    subst hg
    exact .inl ⟨rest, rfl, congrArg pending hrest, hfs⟩
  | corrupt fault => cases (next_extend_of_corrupt hd missing).symm.trans hall
  | incomplete =>
    refine .inr ⟨rfl, Nat.lt_of_not_le fun hlong => ?_⟩
    have hprefix : f.record <+: d.pending :=
      List.prefix_of_prefix_length_le ⟨_, rfl⟩ ⟨missing, h.pending_append⟩
        (Nat.le_trans (Nat.le_of_eq f.length_record) hlong)
    obtain ⟨more, hmore⟩ := hprefix
    have hnext := next_record f more hf
    rw [hmore] at hnext
    cases hd.symm.trans hnext

/-- **Whatever it is asked in between, it yields some of the fragments in order,** awaits the
others, and finds no fault. -/
theorem Awaits.replay {calls : List Call} (h : d.Awaits fs (received calls ++ missing)) :
    (∃ left, fs = yielded (d.replay calls).2 ++ left ∧ (d.replay calls).1.Awaits left missing) ∧
      ∀ a ∈ (d.replay calls).2, a.isOk := by
  induction calls generalizing d fs with
  | nil => exact ⟨⟨fs, rfl, h⟩, fun a ha => by cases ha⟩
  | cons call calls ih =>
    cases call with
    | extend chunk =>
      refine ih (Awaits.extend ?_)
      rwa [← List.append_assoc]
    | next =>
      cases fs with
      | nil =>
        obtain ⟨hleft, hok⟩ := ih h
        rw [replay_next, ask_of_incomplete h.next_nil]
        exact ⟨hleft, List.forall_mem_cons.2 ⟨rfl, hok⟩⟩
      | cons f fs =>
        rcases h.next_cons with ⟨rest, hd, hrest⟩ | ⟨hd, -⟩
        · obtain ⟨⟨left, hleft, hawaits⟩, hok⟩ := ih hrest
          rw [replay_next, ask_of_fragment hd]
          exact ⟨⟨left, congrArg (f :: ·) hleft, hawaits⟩, List.forall_mem_cons.2 ⟨rfl, hok⟩⟩
        · obtain ⟨hleft, hok⟩ := ih h
          rw [replay_next, ask_of_incomplete hd]
          exact ⟨hleft, List.forall_mem_cons.2 ⟨rfl, hok⟩⟩

theorem replay_replicate_of_incomplete (h : d.next = .incomplete) (n : Nat) :
    (d.replay (List.replicate n .next)).1 = d := by
  induction n with
  | zero => rfl
  | succ n ih =>
    rw [List.replicate_succ, replay_next, ask_of_incomplete h]
    exact ih

theorem Awaits.next_of_replicate (h : d.Awaits fs missing) (hn : fs.length ≤ n) :
    (d.replay (List.replicate n .next)).1.next = .incomplete := by
  induction fs generalizing d n with
  | nil => rw [replay_replicate_of_incomplete h.next_nil, h.next_nil]
  | cons f fs ih =>
    rcases h.next_cons with ⟨rest, hd, hrest⟩ | ⟨hd, -⟩
    · cases n with
      | zero => cases hn
      | succ n =>
        rw [List.replicate_succ, replay_next, ask_of_fragment hd]
        exact ih hrest (Nat.le_of_succ_le_succ hn)
    · rwa [replay_replicate_of_incomplete hd]

/-- A decoder with nothing more to yield holds none of the records that it awaits. -/
theorem Awaits.eq_zero_of_prefix (h : d.Awaits fs missing) (hd : d.next = .incomplete) {j : Nat}
    (hj : j ≤ fs.length) (hheld : ((fs.take j).map Fragment.record).flatten <+: d.pending) :
    j = 0 := by
  cases fs with
  | nil => exact Nat.eq_zero_of_le_zero hj
  | cons f fs =>
    rcases h.next_cons with ⟨rest, hf, -⟩ | ⟨-, hshort⟩
    · cases hd.symm.trans hf
    · cases j with
      | zero => rfl
      | succ j =>
        have hlen := hheld.length_le
        rw [List.take_succ_cons, List.map_cons, List.flatten_cons, List.length_append,
          f.length_record] at hlen
        exact absurd hshort (Nat.not_lt.2 (Nat.le_of_add_right_le hlen))

/-- The records that were received are those of the fragments taken off. -/
theorem Awaits.prefix_iff {taken left : List Fragment} (h : d.Awaits left missing)
    (hd : d.next = .incomplete) {j : Nat} (hj : j ≤ (taken ++ left).length) :
    (((taken ++ left).take j).map Fragment.record).flatten <+:
      (taken.map Fragment.record).flatten ++ d.pending ↔ j ≤ taken.length := by
  rw [List.length_append] at hj
  constructor
  · intro hheld
    refine Nat.le_of_not_lt fun hlt => ?_
    rw [List.take_append, List.take_of_length_le (Nat.le_of_lt hlt), List.map_append,
      List.flatten_append, List.prefix_append_right_inj] at hheld
    have hzero := h.eq_zero_of_prefix hd (by omega) hheld
    omega
  · intro hle
    rw [List.take_append_of_le_length hle]
    refine List.IsPrefix.trans ⟨((taken.drop j).map Fragment.record).flatten, ?_⟩ ⟨_, rfl⟩
    rw [← List.flatten_append, ← List.map_append, List.take_append_drop]

theorem Awaits.eq_nil (h : d.Awaits fs []) (hd : d.next = .incomplete) :
    fs = [] ∧ d.buffered = 0 := by
  have hpending : d.pending = (fs.map Fragment.record).flatten := by
    rw [← h.pending_append, List.append_nil]
  have hnil : fs = [] := by
    refine List.length_eq_zero_iff.1 (h.eq_zero_of_prefix hd (Nat.le_refl _) ?_)
    rw [List.take_length]
    exact ⟨[], by rw [List.append_nil, hpending]⟩
  subst hnil
  exact ⟨rfl, congrArg List.length hpending⟩

end Awaits

/-! ## Main results -/

theorem mapM_encode {fs : List Fragment} (h : ∀ f ∈ fs, f.payload.length ≤ maxFragmentPayload) :
    fs.mapM Fragment.encode = .ok (fs.map Fragment.record) := by
  induction fs with
  | nil => rfl
  | cons f fs ih =>
    obtain ⟨hf, hfs⟩ := List.forall_mem_cons.1 h
    rw [List.mapM_cons, ih hfs, Fragment.encode, if_pos hf]
    rfl

theorem Awaits.yielded_of_calls {fs : List Fragment} {calls : List Call} {missing : Bytes}
    (h : empty.Awaits fs (received calls ++ missing)) {n : Nat} (hn : fs.length < n) :
    let r := empty.replay (calls ++ List.replicate n .next)
    (∃ left, fs = yielded r.2 ++ left ∧ r.1.Awaits left missing) ∧ (∀ a ∈ r.2, a.isOk) ∧
      r.1.next = .incomplete ∧ r.2.getLast? = some (.ok none) := by
  obtain ⟨m, rfl⟩ : ∃ m, n = m + 1 := Nat.exists_eq_succ_of_ne_zero (Nat.ne_zero_of_lt hn)
  have hall : received (calls ++ List.replicate (m + 1) .next) = received calls := by
    rw [received_append, received_replicate_next, List.append_nil]
  have hstop : (empty.replay (calls ++ List.replicate m .next)).1.next = .incomplete := by
    obtain ⟨⟨left, hleft, hawaits⟩, -⟩ := h.replay
    have hlen := congrArg List.length hleft
    rw [List.length_append] at hlen
    rw [replay_append]
    exact hawaits.next_of_replicate (by omega)
  have hlast : empty.replay (calls ++ List.replicate (m + 1) .next) =
      ((empty.replay (calls ++ List.replicate m .next)).1,
        (empty.replay (calls ++ List.replicate m .next)).2 ++ [.ok none]) := by
    rw [List.replicate_succ', ← List.append_assoc, replay_append, replay_next,
      ask_of_incomplete hstop]
    rfl
  have hawaits : empty.Awaits fs (received (calls ++ List.replicate (m + 1) .next) ++ missing) := by
    rwa [hall]
  obtain ⟨hleft, hok⟩ := hawaits.replay
  refine ⟨hleft, hok, ?_, ?_⟩
  · rwa [hlast]
  · rw [hlast, List.getLast?_concat]

end Decoder

namespace Buffer

open Decoder

/-- **However the records of some fragments are cut, however short they are cut, and whatever is
asked in between,** a buffer that is asked until it stops has yielded, in order, the fragments
whose records it received, without a fault. -/
theorem fragments_of_calls {fs : List Fragment}
    (hle : ∀ f ∈ fs, f.payload.length ≤ maxFragmentPayload) {calls : List Call} {missing : Bytes}
    (hbytes : received calls ++ missing = (fs.map Fragment.record).flatten) {n : Nat}
    (hn : fs.length < n) :
    fs.mapM Fragment.encode = .ok (fs.map Fragment.record) ∧
      let r := empty.replay (calls ++ List.replicate n .next)
      (∃ k ≤ fs.length, yielded r.2 = fs.take k ∧
        ∀ j ≤ fs.length,
          (((fs.take j).map Fragment.record).flatten <+: received calls ↔ j ≤ k)) ∧
      (∀ a ∈ r.2, a.isOk) ∧ r.2.getLast? = some (.ok none) ∧
      (missing = [] → yielded r.2 = fs ∧ r.1.buffered = 0) := by
  refine ⟨mapM_encode hle, ?_⟩
  intro r
  have hview : Decoder.empty.replay (calls ++ List.replicate n .next) = (r.1.unconsumed, r.2) :=
    replay_eq empty _
  have hreceived : received (calls ++ List.replicate n .next) = received calls := by
    rw [received_append, received_replicate_next, List.append_nil]
  obtain ⟨hrecords, -⟩ :=
    records_append_of_replay Decoder.empty (calls ++ List.replicate n .next)
  have hall : Decoder.empty.Awaits fs (received calls ++ missing) := ⟨hbytes, hle⟩
  obtain ⟨⟨left, hleft, hawaits⟩, hok, hstop, hlast⟩ := hall.yielded_of_calls hn
  rw [hview] at hrecords hleft hawaits hok hstop hlast
  rw [hreceived] at hrecords
  subst hleft
  have hheld (j : Nat) (hj : j ≤ (yielded r.2 ++ left).length) :=
    hrecords ▸ hawaits.prefix_iff hstop hj
  refine ⟨⟨(yielded r.2).length, ?_, List.take_left.symm, hheld⟩, hok, hlast, fun hmissing => ?_⟩
  · rw [List.length_append]
    exact Nat.le_add_right ..
  · subst hmissing
    obtain ⟨hnil, hzero⟩ := hawaits.eq_nil hstop
    rw [hnil, List.append_nil]
    exact ⟨rfl, r.1.buffered_unconsumed.symm.trans hzero⟩

/-- Two records, cut one byte short of their end: the first is yielded. -/
theorem fragments_of_calls_cut :
    let first : Fragment := ⟨7, 0, .pool, false, [1, 2, 3]⟩
    let last : Fragment := ⟨7, 1, .pool, true, []⟩
    let calls : List Call := [.extend (first.record.take 20), .next, .extend [],
      .extend (first.record.drop 20 ++ last.record.take 28)]
    let r := empty.replay (calls ++ List.replicate 3 .next)
    yielded r.2 = [first] ∧ r.2.getLast? = some (.ok none) := by
  intro first last calls r
  have hbytes : received calls ++ last.record.drop 28 =
      ([first, last].map Fragment.record).flatten := by decide
  obtain ⟨-, ⟨k, -, htake, hheld⟩, -, hlast, -⟩ :=
    fragments_of_calls (by decide) hbytes (n := 3) (by decide)
  have hone : 1 ≤ k := (hheld 1 (by decide)).1 (by decide)
  have htwo : ¬ 2 ≤ k := fun h => absurd ((hheld 2 (by decide)).2 h) (by decide)
  obtain rfl : k = 1 := by omega
  exact ⟨htake, hlast⟩

/-- **No byte is lost and none invented, whatever the bytes:** the records yielded and the bytes
not consumed make up what was received; those bytes decide the next answer; and a fault is final. -/
theorem accounts_of_calls (calls : List Call) :
    let r := empty.replay calls
    let left := r.1.unconsumed.pending
    (∃ records, (yielded r.2).mapM Fragment.encode = .ok records ∧
      records.flatten ++ left = received calls ∧ left.length = r.1.buffered) ∧
    (r.1.ask.2 = .ok none ↔ left.length < headerLength ∨
      AcceptsHeader left ∧ left.length < headerLength + lengthAt left) ∧
    (∀ fault, r.1.ask.2 = .error fault ↔
      headerLength ≤ left.length ∧ ¬ AcceptsHeader left ∧ fault = refusalAt left) ∧
    ∀ fault, r.1.ask.2 = .error fault →
      ∀ more, ∀ a ∈ (r.1.replay (.next :: more)).2, a = .error fault := by
  intro r left
  have hview : empty.unconsumed.replay calls = (r.1.unconsumed, r.2) := replay_eq empty calls
  have hask : r.1.unconsumed.ask.2 = r.1.ask.2 := congrArg Prod.snd r.1.ask_unconsumed
  obtain ⟨hbytes, hle⟩ := records_append_of_replay empty.unconsumed calls
  rw [hview] at hbytes hle
  refine ⟨⟨_, mapM_encode hle, hbytes, r.1.buffered_unconsumed⟩, ?_, fun fault => ?_,
    fun fault hfault more => ?_⟩
  · rw [← hask]
    exact r.1.unconsumed.ask_eq_none_iff
  · rw [← hask]
    exact r.1.unconsumed.ask_eq_error_iff fault
  · rw [← hask] at hfault
    have hmore := replay_of_corrupt (next_of_ask_error hfault) (.next :: more)
    rwa [replay_eq] at hmore

/-- A record, and then a header with a flag that has no meaning. -/
theorem accounts_of_calls_corrupt :
    let first : Fragment := ⟨7, 0, .pool, false, [1, 2, 3]⟩
    let calls : List Call := [.extend (first.record ++ List.replicate 24 0), .next,
      .extend [2, 0, 0, 0, 0]]
    let r := empty.replay calls
    yielded r.2 = [first] ∧
      ∀ more, ∀ a ∈ (r.1.replay (.next :: more)).2, a = .error (.reservedFlags 2) := by
  intro first calls r
  obtain ⟨-, -, hfault, hfinal⟩ := accounts_of_calls calls
  exact ⟨by decide, hfinal _ ((hfault _).2 (by decide))⟩

end Buffer

end Runspace
