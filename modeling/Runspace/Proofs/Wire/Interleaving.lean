import Mathlib.Data.List.Dedup
import Mathlib.Data.List.Perm.Subperm
import Runspace.Proofs.Wire.Delivery
import Runspace.Proofs.Wire.Soundness

/-!
# Interleaving — messages may cross

A receiver gets the fragments of several messages. Those of each message come in order, but the
messages interleave, and they begin in any order of their numbers. The receiver puts every one of
them together, as long as two windows are kept whenever a message begins: fewer than
`maxPendingObjects` others are under way, and at most `maxRetiredSpan` larger numbers are finished.

* `Parcel`, `Interleaves`: some messages, and their fragments in an order that keeps each
  message's;
* `finished`, `underway`, `Windowed`: what a history of fragments says about the numbers in it;
* `Sparing`: the watermark passes over a free number only if more than `maxRetiredSpan` larger ones
  are retired; `sparing_evict`, `sparing_collapse`, `sparing_retire`; `Warranted.retire`: so does
  every watermark to which numbers were retired;
* `Reassembler.Tracks`: the pending numbers are those under way, and the retired ones are finished;
  **`Tracks.feed`**: each fragment in its turn is taken and keeps this;
* **`Reassembler.feed_interleaved`**: every message is completed once, by its last fragment.
-/

namespace Runspace

/-! ## Parcels -/

/-- A message to be sent. -/
structure Parcel where
  objectId : UInt64
  target : Target
  body : Bytes
  size : Nat

/-- The fragments of a message to be sent. -/
def Parcel.fragments (m : Parcel) : List Fragment :=
  splitMessage m.objectId m.target m.body m.size

/-- Fragments in some order are those of some messages, and keep each message's own order. -/
structure Interleaves (ms : List Parcel) (fs : List Fragment) : Prop where
  own : ∀ m ∈ ms, ofObject m.objectId.toNat fs = m.fragments
  mem : ∀ f ∈ fs, ∃ m ∈ ms, m.objectId = f.objectId

theorem flatMap_payload_numberPieces (objectId : UInt64) (target : Target) (index : Nat)
    (pieces : List Bytes) :
    (numberPieces objectId target index pieces).flatMap (·.payload) = pieces.flatten := by
  induction pieces generalizing index with
  | nil => rfl
  | cons piece pieces ih => rw [numberPieces, List.flatMap_cons, ih, List.flatten_cons]

theorem of_numberPieces_eq {objectId : UInt64} {target : Target} {index : Nat}
    {pieces : List Bytes} {own rest : List Fragment} {f : Fragment}
    (h : numberPieces objectId target index pieces = own ++ f :: rest) :
    f.fragmentId = UInt64.ofNat (index + own.length) ∧ own.length < pieces.length ∧
      f.target = target ∧ f.isEnd = rest.isEmpty := by
  induction own generalizing index pieces with
  | nil =>
    cases pieces with
    | nil => cases h
    | cons piece pieces =>
      obtain ⟨rfl, rfl⟩ := List.cons.inj h
      cases pieces <;> simp [numberPieces]
  | cons g own ih =>
    cases pieces with
    | nil => cases h
    | cons piece pieces =>
      obtain ⟨hid, hlt, hrest⟩ := ih (List.cons.inj h).2
      rw [List.length_cons, List.length_cons, Nat.add_right_comm, ← Nat.add_assoc] at *
      exact ⟨hid, by omega, hrest⟩

namespace Parcel

variable {m : Parcel} {own rest : List Fragment} {f : Fragment}

theorem fragments_ne_nil (m : Parcel) : m.fragments ≠ [] := by
  obtain ⟨pieces, heq, hne, -⟩ := splitMessage_eq m.objectId m.target m.body m.size
  rw [fragments, heq]
  cases pieces with
  | nil => exact absurd rfl hne
  | cons piece pieces => exact List.cons_ne_nil _ _

theorem of_fragments_eq (hm : m.body.length < UInt64.size) (h : m.fragments = own ++ f :: rest) :
    f.fragmentId.toNat = own.length ∧ f.target = m.target ∧ f.isEnd = rest.isEmpty ∧
      m.body = own.flatMap (·.payload) ++ (f.payload ++ rest.flatMap (·.payload)) := by
  obtain ⟨pieces, heq, -, hbody, hlen, -⟩ :=
    splitMessage_eq m.objectId m.target m.body m.size
  rw [fragments, heq] at h
  obtain ⟨hid, hlt, htarget, hend⟩ := of_numberPieces_eq h
  refine ⟨?_, htarget, hend, ?_⟩
  · have hsize : own.length < UInt64.size := by omega
    rw [hid, Nat.zero_add]
    exact Nat.mod_eq_of_lt hsize
  · have hflat := flatMap_payload_numberPieces m.objectId m.target 0 pieces
    rw [h, List.flatMap_append, List.flatMap_cons, hbody] at hflat
    exact hflat.symm

theorem of_mem_own (hm : m.body.length < UInt64.size) (h : m.fragments = own ++ f :: rest)
    {g : Fragment} (hg : g ∈ own) : g.target = m.target ∧ g.isEnd = false := by
  obtain ⟨own₁, own₂, rfl⟩ := List.append_of_mem hg
  rw [List.append_assoc, List.cons_append] at h
  obtain ⟨-, htarget, hend, -⟩ := of_fragments_eq hm h
  exact ⟨htarget, by rw [hend]; cases own₂ <;> rfl⟩

end Parcel

/-! ## Histories -/

/-- The numbers whose last fragment is among some fragments. -/
def finished (fs : List Fragment) : List Nat := (fs.filter (·.isEnd)).map (·.objectId.toNat)

/-- The numbers that have some fragment among these, but not the last. -/
def underway (fs : List Fragment) : List Nat :=
  (fs.map (·.objectId.toNat)).dedup.filter (· ∉ finished fs)

/-- Whenever a message begins, few others are under way, and few larger numbers are finished. -/
structure Windowed (fs : List Fragment) : Prop where
  pending : ∀ before f after, fs = before ++ f :: after → ofObject f.objectId.toNat before = [] →
    (underway before).length < maxPendingObjects
  retired : ∀ before f after, fs = before ++ f :: after → ofObject f.objectId.toNat before = [] →
    ((finished before).filter (f.objectId.toNat < ·)).length ≤ maxRetiredSpan

section Histories

variable {fs : List Fragment} {f : Fragment} {x : Nat}

theorem mem_finished : x ∈ finished fs ↔ ∃ f ∈ ofObject x fs, f.isEnd = true := by
  simp only [finished, ofObject, List.mem_map, List.mem_filter, decide_eq_true_eq]
  constructor
  · rintro ⟨f, ⟨hf, hend⟩, hx⟩
    exact ⟨f, ⟨hf, hx⟩, hend⟩
  · rintro ⟨f, ⟨hf, hx⟩, hend⟩
    exact ⟨f, ⟨hf, hend⟩, hx⟩

theorem mem_underway : x ∈ underway fs ↔ ofObject x fs ≠ [] ∧ x ∉ finished fs := by
  rw [underway, List.mem_filter, List.mem_dedup, decide_eq_true_eq, ofObject, ne_eq,
    List.filter_eq_nil_iff]
  simp

theorem finished_concat (fs : List Fragment) (f : Fragment) :
    finished (fs ++ [f]) = finished fs ++ if f.isEnd then [f.objectId.toNat] else [] := by
  rw [finished, List.filter_append, List.map_append]
  cases hend : f.isEnd <;> simp [finished, hend]

theorem ofObject_append_cons (hx : f.objectId.toNat = x) (before after : List Fragment) :
    ofObject x (before ++ f :: after) = ofObject x before ++ f :: ofObject x after := by
  simp [ofObject, hx]

theorem Parcel.not_mem_finished {m : Parcel} (hm : m.body.length < UInt64.size)
    {rest : List Fragment} (h : m.fragments = ofObject x fs ++ f :: rest) : x ∉ finished fs := by
  intro hmem
  obtain ⟨g, hg, hend⟩ := mem_finished.1 hmem
  cases hend.symm.trans (of_mem_own hm h hg).2

theorem windowed_of_length_le (h : fs.length ≤ maxPendingObjects) : Windowed fs := by
  have hbefore : ∀ before f after, fs = before ++ f :: after →
      before.length < maxPendingObjects := by
    rintro before f after rfl
    rw [List.length_append, List.length_cons] at h
    omega
  refine ⟨fun before f after hfs _ => ?_, fun before f after hfs _ => ?_⟩
  · have hle : (underway before).length ≤ before.length := by
      have hdedup := (List.dedup_sublist (before.map (·.objectId.toNat))).length_le
      rw [List.length_map] at hdedup
      exact Nat.le_trans (List.length_filter_le _ _) hdedup
    exact Nat.lt_of_le_of_lt hle (hbefore before f after hfs)
  · have hle : ((finished before).filter (f.objectId.toNat < ·)).length ≤ before.length := by
      refine Nat.le_trans (List.length_filter_le _ _) ?_
      rw [finished, List.length_map]
      exact List.length_filter_le _ _
    have hlt := hbefore before f after hfs
    have hspan : maxPendingObjects ≤ maxRetiredSpan := by decide
    omega

end Histories

/-! ## What the watermark spares -/

/-- A later watermark and list retire only what was retired before, or lies below more than
`maxRetiredSpan` retired numbers. -/
structure Sparing (below : Nat) (ids : List Nat) (next : Nat × List Nat) : Prop where
  sublist : next.2.Sublist ids
  below : ∀ y < next.1, Covers below ids y ∨ maxRetiredSpan < (ids.filter (y < ·)).length

section Sparing

variable {below id : Nat} {ids : List Nat} {next last : Nat × List Nat}

theorem Sparing.refl : Sparing below ids (below, ids) :=
  ⟨List.Sublist.refl ids, fun _ hy => .inl (.inl hy)⟩

theorem Sparing.trans (h : Sparing below ids next) (h' : Sparing next.1 next.2 last) :
    Sparing below ids last where
  sublist := h'.sublist.trans h.sublist
  below y hy := by
    rcases h'.below y hy with (hlt | hmem) | hmany
    · exact h.below y hlt
    · exact .inl (.inr (h.sublist.subset hmem))
    · exact .inr (Nat.lt_of_lt_of_le hmany (h.sublist.filter _).length_le)

/-- Raising the watermark past the lowest retired number passes over free ones, unless there are
none below it or too many numbers are retired. -/
theorem sparing_succ (h : (id :: ids).Pairwise (· < ·))
    (hid : id = below ∨ maxRetiredSpan < (id :: ids).length) :
    Sparing below (id :: ids) (id + 1, ids) where
  sublist := List.sublist_cons_self id ids
  below y hy := by
    obtain ⟨hlt, -⟩ := List.pairwise_cons.1 h
    rcases Nat.lt_succ_iff_lt_or_eq.1 hy with hy | rfl
    · refine hid.imp (fun hbelow => .inl (Nat.lt_of_lt_of_eq hy hbelow)) fun hmany => ?_
      -- all of them are larger
      have hall : (id :: ids).filter (y < ·) = id :: ids := by
        refine List.filter_eq_self.2 fun z hz => decide_eq_true ?_
        rcases List.mem_cons.1 hz with rfl | hz
        · exact hy
        · exact Nat.lt_trans hy (hlt z hz)
      rwa [hall]
    · exact .inl (.inr List.mem_cons_self)

theorem sparing_evict (h : ids.Pairwise (· < ·)) : Sparing below ids (evict below ids) := by
  induction ids generalizing below with
  | nil => exact .refl
  | cons id ids ih =>
    unfold evict
    split
    · next hmany => exact (sparing_succ h (.inr hmany)).trans (ih h.of_cons)
    · exact .refl

theorem sparing_collapse (h : ids.Pairwise (· < ·)) : Sparing below ids (collapse below ids) := by
  induction ids generalizing below with
  | nil => exact .refl
  | cons id ids ih =>
    unfold collapse
    split
    · next hid =>
      subst hid
      exact (sparing_succ h (.inl rfl)).trans (ih h.of_cons)
    · exact .refl

theorem sublist_insertAscending (id : Nat) (ids : List Nat) :
    ids.Sublist (insertAscending id ids) := by
  induction ids with
  | nil => exact List.nil_sublist _
  | cons a ids ih =>
    unfold insertAscending
    split
    · exact List.sublist_cons_self _ _
    split
    · exact List.Sublist.refl _
    · exact ih.cons_cons a

theorem pairwise_insertAscending (id : Nat) (h : ids.Pairwise (· < ·)) :
    (insertAscending id ids).Pairwise (· < ·) :=
  (Ascends.insert ⟨h, fun x _ => Nat.zero_le x⟩ (Nat.zero_le id)).pairwise

/-- Retiring a number retires nothing else, unless too many numbers are retired. -/
theorem Reassembler.sparing_retire {r : Reassembler} (h : r.retired.Pairwise (· < ·)) (x : Nat) :
    Sparing r.retiredBelow (insertAscending x r.retired)
      ((r.retire x).retiredBelow, (r.retire x).retired) := by
  unfold retire
  split
  · exact ⟨sublist_insertAscending x r.retired, fun _ hy => .inl (.inl hy)⟩
  · have hevict : Sparing r.retiredBelow (insertAscending x r.retired)
        (evict r.retiredBelow (insertAscending x r.retired)) :=
      sparing_evict (pairwise_insertAscending x h)
    have hpairwise := (pairwise_insertAscending x h).sublist hevict.sublist
    exact hevict.trans (sparing_collapse hpairwise)

/-- A watermark and a list retire only numbers among some, and those that lie below too many of
them. -/
structure Warranted (below : Nat) (ids done : List Nat) : Prop where
  retired : ∀ y ∈ ids, y ∈ done
  below : ∀ y < below, y ∈ done ∨ maxRetiredSpan < (done.filter (y < ·)).length

theorem Warranted.retire {r : Reassembler} {done : List Nat}
    (h : Warranted r.retiredBelow r.retired done) (hp : r.retired.Pairwise (· < ·)) (x : Nat) :
    Warranted (r.retire x).retiredBelow (r.retire x).retired (done ++ [x]) := by
  have hspare := Reassembler.sparing_retire hp x
  have hins : ∀ y ∈ insertAscending x r.retired, y ∈ done ++ [x] := fun y hy =>
    (mem_insertAscending.1 hy).elim (by rintro rfl; simp) fun hy => by simp [h.retired y hy]
  refine ⟨fun y hy => hins y (hspare.sublist.subset hy), fun y hy => ?_⟩
  rcases hspare.below y hy with (hlt | hmem) | hmany
  · refine (h.below y hlt).imp (List.mem_append_left _) fun hmany => ?_
    rw [List.filter_append, List.length_append]
    omega
  · exact .inl (hins y hmem)
  · refine .inr (Nat.lt_of_lt_of_le hmany ?_)
    have hnodup := (pairwise_insertAscending x hp).imp Nat.ne_of_lt
    refine (List.subperm_of_subset (hnodup.filter _) fun z hz => ?_).length_le
    rw [List.mem_filter] at hz ⊢
    exact ⟨hins z hz.1, hz.2⟩

end Sparing

namespace Reassembler

/-! ## Receiving -/

/-- What a receiver knows after fragments that came in their turn: the pending numbers are those
under way, each of them once, and retired are just the finished numbers and those that lie below
too many of them. -/
structure Tracks (r : Reassembler) (fs : List Fragment) : Prop extends r.Holds fs where
  nodup : (r.pending.map (·.1)).Nodup
  underway : ∀ x, r.pending.lookup x = none ↔ x ∉ underway fs
  retired : ∀ x ∈ r.retired, x ∈ finished fs
  below : ∀ x < r.retiredBelow,
    x ∈ finished fs ∨ maxRetiredSpan < ((finished fs).filter (x < ·)).length

theorem tracks_new (limit : Nat) : (new limit).Tracks [] where
  toHolds := holds_new limit
  nodup := List.nodup_nil
  underway x := by simp [new, Runspace.underway]
  retired x h := by cases h
  below x h := by cases h

/-- The body of the message that a fragment completed, if it did. -/
def Outcome.body? : Outcome → Option Bytes
  | .complete body => some body
  | .incomplete | .lost _ => none

/-- The numbers and the bodies of the messages that some more fragments complete. -/
def completions (r : Reassembler) : List Fragment → List (Nat × Bytes)
  | [] => []
  | f :: fs =>
    ((r.feed f).1.body?.map (f.objectId.toNat, ·)).toList ++ (r.feed f).2.completions fs

section Feed

variable {r q : Reassembler} {fs own : List Fragment} {f : Fragment} {p : Partial} {x : Nat}

theorem keys_drop (r : Reassembler) (x : Nat) :
    (r.drop x).pending.map (·.1) = (r.pending.map (·.1)).filter (· ≠ x) := by
  rw [drop, List.filter_map]
  rfl

theorem nodup_keys_drop (h : (r.pending.map (·.1)).Nodup) (x : Nat) :
    ((r.drop x).pending.map (·.1)).Nodup := by
  rw [keys_drop]
  exact h.filter _

theorem nodup_keys_put (h : (r.pending.map (·.1)).Nodup) (x : Nat) (p : Partial) :
    ((r.put x p).pending.map (·.1)).Nodup := by
  show (x :: (r.drop x).pending.map (·.1)).Nodup
  rw [keys_drop]
  exact List.nodup_cons.2 ⟨by simp, h.filter _⟩

theorem lookup_eq_none_iff {l : List (Nat × Partial)} :
    l.lookup x = none ↔ x ∉ l.map (·.1) := by
  simp only [List.lookup_eq_none_iff, List.mem_map, not_exists, not_and, bne_iff_ne]
  exact forall₂_congr fun _ _ => ne_comm

theorem Tracks.pendingObjects_le (h : r.Tracks fs) :
    r.pendingObjects ≤ (Runspace.underway fs).length := by
  have hsubset : r.pending.map (·.1) ⊆ Runspace.underway fs := fun x hx =>
    Decidable.not_not.1 fun hnot => lookup_eq_none_iff.1 ((h.underway x).2 hnot) hx
  have hle := (List.subperm_of_subset h.nodup hsubset).length_le
  rwa [List.length_map] at hle

/-- A number that has not begun, with few larger ones finished, is not retired. -/
theorem Tracks.not_closed (h : r.Tracks fs) (hx : ofObject x fs = [])
    (hfew : ((finished fs).filter (x < ·)).length ≤ maxRetiredSpan) : ¬ r.Closed x := by
  have hnew : x ∉ finished fs := fun hmem => by
    obtain ⟨g, hg, -⟩ := mem_finished.1 hmem
    rw [hx] at hg
    cases hg
  rintro (hlt | hmem)
  · rcases h.below x hlt with hmem | hmany
    · exact hnew hmem
    · exact absurd hmany (Nat.not_lt.2 hfew)
  · exact hnew (h.retired x hmem)

theorem Tracks.put (h : r.Tracks fs) (hx : f.objectId.toNat = x)
    (hnext : (r.put x p).Holds (fs ++ [f])) (hunfinished : x ∉ finished fs)
    (hend : f.isEnd = false) : (r.put x p).Tracks (fs ++ [f]) := by
  have hfinished : finished (fs ++ [f]) = finished fs := by
    rw [finished_concat, hend, if_neg Bool.false_ne_true, List.append_nil]
  refine ⟨hnext, nodup_keys_put h.nodup x p, fun y => ?_, fun y hy => ?_, fun y hy => ?_⟩
  · have hsame := h.underway y
    rw [mem_underway] at hsame ⊢
    rw [lookup_put, hfinished, ofObject_concat, hx]
    by_cases hy : y = x
    · subst hy
      simp [hunfinished]
    · rwa [if_neg hy, if_neg (Ne.symm hy)]
  · rw [hfinished]
    exact h.retired y hy
  · rw [hfinished]
    exact h.below y hy

theorem Tracks.retire (h : r.Tracks fs) (hx : f.objectId.toNat = x)
    (hnext : ((r.drop x).retire x).Holds (fs ++ [f])) (hend : f.isEnd = true) :
    ((r.drop x).retire x).Tracks (fs ++ [f]) := by
  have hfinished : finished (fs ++ [f]) = finished fs ++ [x] := by
    rw [finished_concat, hend, if_pos rfl, hx]
  have hwarrant : Warranted ((r.drop x).retire x).retiredBelow ((r.drop x).retire x).retired
      (finished fs ++ [x]) :=
    Warranted.retire (r := r.drop x) ⟨h.retired, h.below⟩ h.ascends.pairwise x
  refine ⟨hnext, ?_, fun y => ?_, ?_, ?_⟩
  · rw [pending_retire]
    exact nodup_keys_drop h.nodup x
  · have hsame := h.underway y
    rw [mem_underway] at hsame ⊢
    rw [pending_retire, lookup_drop, hfinished, ofObject_concat, hx]
    by_cases hy : y = x
    · simp [hy]
    · rw [if_neg hy, if_neg (Ne.symm hy), hsame]
      simp [hy]
  · rw [hfinished]
    exact hwarrant.retired
  · rw [hfinished]
    exact hwarrant.below

end Feed

section Turn

variable {r : Reassembler} {ms : List Parcel} {m : Parcel} {before after : List Fragment}
  {f : Fragment}

/-- A fragment in its turn goes on with a message that is pending or begins one. -/
theorem Tracks.feed_eq (h : r.Tracks before) (hw : Windowed (before ++ f :: after))
    (hm : m.body.length < UInt64.size)
    (hplace : m.fragments =
      ofObject f.objectId.toNat before ++ f :: ofObject f.objectId.toNat after) :
    ∃ p : Partial, p.Unfinished (ofObject f.objectId.toNat before) r.limit ∧
      p.target = m.target ∧ r.feed f = r.continueWith f.objectId.toNat p f := by
  obtain ⟨hid, htarget, -⟩ := Parcel.of_fragments_eq hm hplace
  unfold Reassembler.feed
  dsimp only
  cases hlookup : r.pending.lookup f.objectId.toNat with
  | some p =>
    have hp := h.pending _ p hlookup
    refine ⟨p, hp, ?_, rfl⟩
    -- it has begun, and the fragments before this one name its target
    have hunder : f.objectId.toNat ∈ Runspace.underway before := Decidable.not_not.1 fun hnot => by
      cases ((h.underway _).2 hnot).symm.trans hlookup
    obtain ⟨g, hg⟩ := List.exists_mem_of_ne_nil _ (mem_underway.1 hunder).1
    exact (hp.target g hg).symm.trans (Parcel.of_mem_own hm hplace hg).1
  | none =>
    have hnil : ofObject f.objectId.toNat before = [] := Decidable.byContradiction fun hne =>
      (h.underway _).1 hlookup (mem_underway.2 ⟨hne, Parcel.not_mem_finished hm hplace⟩)
    have hfree : ¬ r.isRetired f.objectId.toNat = true := fun hr =>
      h.not_closed hnil (hw.retired before f after rfl hnil) (isRetired_iff.1 hr).2
    have hzero : ¬ f.fragmentId ≠ 0 :=
      Decidable.not_not.2 (UInt64.toNat_inj.1 (by rw [hid, hnil]; rfl))
    have hroom : ¬ maxPendingObjects ≤ r.pendingObjects := Nat.not_le.2
      (Nat.lt_of_le_of_lt h.pendingObjects_le (hw.pending before f after rfl hnil))
    rw [if_neg hfree, if_neg hzero, if_neg hroom, hnil]
    exact ⟨_, Partial.unfinished_start f.target r.limit, htarget, rfl⟩

/-- **A fragment in its turn is taken:** the last one of a message completes it, any other one
goes on with it. -/
theorem Tracks.feed (h : r.Tracks before) (hall : Interleaves ms (before ++ f :: after))
    (hw : Windowed (before ++ f :: after)) (hm : m ∈ ms) (hid : m.objectId = f.objectId)
    (hbody : m.body.length ≤ r.limit) (hlimit : r.limit < UInt64.size) :
    (r.feed f).1 = (if ofObject m.objectId.toNat after = [] then .complete m.body
      else .incomplete) ∧ (r.feed f).2.Tracks (before ++ [f]) := by
  have hsize : m.body.length < UInt64.size := Nat.lt_of_le_of_lt hbody hlimit
  have hplace := (hall.own m hm).symm
  rw [hid, ofObject_append_cons rfl] at hplace
  have hnext := h.toHolds.feed f
  obtain ⟨p, hp, htarget, heq⟩ := h.feed_eq hw hsize hplace
  obtain ⟨hplaceId, htarget', hend, hwhole⟩ := Parcel.of_fragments_eq hsize hplace
  have hlength := congrArg List.length hwhole
  rw [List.length_append, List.length_append, ← hp.body_eq, Partial.length_body] at hlength
  have hfits : p.refusal? f r.limit = none := Partial.refusal?_eq_none_iff.2
    ⟨htarget.trans htarget'.symm, hplaceId.trans hp.next_eq.symm, by omega⟩
  rw [heq] at hnext ⊢
  rw [Reassembler.continueWith, hfits] at hnext ⊢
  rw [hid]
  dsimp only at hnext ⊢
  rw [hend] at hnext ⊢
  cases hrest : ofObject f.objectId.toNat after with
  | nil =>
    rw [hrest] at hend hnext hwhole
    have hlast : (p.append f).body = m.body := by
      rw [Partial.body_append, hp.body_eq, hwhole, List.flatMap_nil, List.append_nil]
    simp only [List.isEmpty_nil, if_true] at hnext ⊢
    exact ⟨by rw [hlast], h.retire rfl hnext hend⟩
  | cons g rest =>
    rw [hrest] at hend hnext
    exact ⟨rfl, h.put rfl hnext (Parcel.not_mem_finished hsize hplace) hend⟩

theorem Tracks.feedAll {fs : List Fragment} (h : r.Tracks before)
    (hall : Interleaves ms (before ++ fs ++ after)) (hw : Windowed (before ++ fs ++ after))
    (hbody : ∀ m ∈ ms, m.body.length ≤ r.limit) (hlimit : r.limit < UInt64.size) :
    (r.feedAll fs).Tracks (before ++ fs) := by
  induction fs generalizing r before with
  | nil => rwa [List.append_nil]
  | cons f fs ih =>
    rw [List.append_assoc, List.cons_append] at hall hw
    obtain ⟨m, hm, hid⟩ := hall.mem f (by simp)
    have hnext := (h.feed hall hw hm hid (hbody m hm) hlimit).2
    rw [← limit_feed r f] at hbody hlimit
    have hrest := ih hnext (by simpa using hall) (by simpa using hw) hbody hlimit
    rwa [List.append_assoc] at hrest

theorem Tracks.filter_completions {fs : List Fragment} (h : r.Tracks before)
    (hall : Interleaves ms (before ++ fs)) (hw : Windowed (before ++ fs))
    (hbody : ∀ m ∈ ms, m.body.length ≤ r.limit) (hlimit : r.limit < UInt64.size) (hm : m ∈ ms) :
    (r.completions fs).filter (·.1 = m.objectId.toNat) =
      if ofObject m.objectId.toNat fs = [] then [] else [(m.objectId.toNat, m.body)] := by
  induction fs generalizing r before with
  | nil => rfl
  | cons f fs ih =>
    obtain ⟨n, hn, hid⟩ := hall.mem f (by simp)
    have hnext := (h.feed hall hw hn hid (hbody n hn) hlimit).2
    have hrest := ih hnext (by simpa using hall) (by simpa using hw)
      (by rwa [limit_feed]) (by rwa [limit_feed])
    rw [completions, List.filter_append, hrest]
    by_cases hmine : m.objectId = f.objectId
    · have hcons : ofObject m.objectId.toNat (f :: fs) = f :: ofObject m.objectId.toNat fs :=
        ofObject_append_cons (by rw [hmine]) [] fs
      rw [(h.feed hall hw hm hmine (hbody m hm) hlimit).1, hcons, if_neg (List.cons_ne_nil _ _)]
      split <;> simp [Outcome.body?, hmine]
    · have hother : ¬ f.objectId.toNat = m.objectId.toNat := fun heq =>
        hmine (UInt64.toNat_inj.1 heq.symm)
      have hcons : ofObject m.objectId.toNat (f :: fs) = ofObject m.objectId.toNat fs := by
        simp [ofObject, hother]
      rw [hcons]
      cases (r.feed f).1.body? <;> simp [hother]

end Turn

/-- **Interleaved messages are all put together.** Some messages are split, each into pieces of its
own size, and their fragments are fed in any order that keeps each message's own. No body is larger
than the receiver's limit, and whenever a message begins, fewer than `maxPendingObjects` others are
under way and at most `maxRetiredSpan` larger numbers are finished. Then no fragment is refused: the
last one of a message completes it with its body, and any other one goes on with it. So each message
is completed once, and in the end none is pending. -/
theorem feed_interleaved {limit : Nat} (hlimit : limit < UInt64.size) {ms : List Parcel}
    (hbody : ∀ m ∈ ms, m.body.length ≤ limit) {fs : List Fragment} (hall : Interleaves ms fs)
    (hw : Windowed fs) :
    (∀ before f after, fs = before ++ f :: after → ∃ m ∈ ms, m.objectId = f.objectId ∧
      (((new limit).feedAll before).feed f).1 =
        if ofObject m.objectId.toNat after = [] then .complete m.body else .incomplete) ∧
    (∀ m ∈ ms, ((new limit).completions fs).filter (·.1 = m.objectId.toNat) =
      [(m.objectId.toNat, m.body)]) ∧
    ((new limit).feedAll fs).pending = [] := by
  have htracks : ∀ before after, fs = before ++ after →
      ((new limit).feedAll before).Tracks before := by
    rintro before after rfl
    exact (tracks_new limit).feedAll hall hw hbody hlimit
  refine ⟨?_, fun m hm => ?_, ?_⟩
  · rintro before f after rfl
    obtain ⟨m, hm, hid⟩ := hall.mem f (by simp)
    have hl : ((new limit).feedAll before).limit = limit := limit_feedAll _ _
    exact ⟨m, hm, hid, ((htracks before _ rfl).feed hall hw hm hid (by rw [hl]; exact hbody m hm)
      (by rwa [hl])).1⟩
  · rw [(tracks_new limit).filter_completions hall hw hbody hlimit hm, hall.own m hm,
      if_neg m.fragments_ne_nil]
  · -- a number that is pending would be under way, but its last fragment has come
    have hend := htracks fs [] (List.append_nil fs).symm
    refine List.eq_nil_iff_forall_not_mem.2 fun ⟨x, p⟩ hp => ?_
    have hunder : x ∈ Runspace.underway fs := Decidable.not_not.1 fun hnot =>
      lookup_eq_none_iff.1 ((hend.underway x).2 hnot) (List.mem_map_of_mem hp)
    obtain ⟨hne, hunfinished⟩ := mem_underway.1 hunder
    obtain ⟨f, hf⟩ := List.exists_mem_of_ne_nil _ hne
    obtain ⟨hf, hx⟩ := List.mem_filter.1 hf
    obtain ⟨m, hm, hid⟩ := hall.mem f hf
    have hown := hall.own m hm
    rw [hid, of_decide_eq_true hx, ← List.dropLast_append_getLast m.fragments_ne_nil] at hown
    obtain ⟨-, -, hlast, -⟩ := Parcel.of_fragments_eq (Nat.lt_of_le_of_lt (hbody m hm) hlimit)
      (List.dropLast_append_getLast m.fragments_ne_nil).symm
    exact hunfinished (mem_finished.2 ⟨_, by rw [hown]; simp, hlast⟩)

/-- Three messages that cross, the one with the largest number first. -/
theorem feed_interleaved_three :
    let ms : List Parcel := [⟨9, .pool, [1, 2, 3], 2⟩, ⟨4, .pool, [], 64⟩, ⟨6, .pool, [7, 8], 1⟩]
    let fs : List Fragment := [⟨9, 0, .pool, false, [1, 2]⟩, ⟨6, 0, .pool, false, [7]⟩,
      ⟨4, 0, .pool, true, []⟩, ⟨9, 1, .pool, true, [3]⟩, ⟨6, 1, .pool, true, [8]⟩]
    Interleaves ms fs ∧ (∀ m ∈ ms, ((new 3).completions fs).filter (·.1 = m.objectId.toNat) =
      [(m.objectId.toNat, m.body)]) ∧ ((new 3).feedAll fs).pending = [] := by
  intro ms fs
  have hall : Interleaves ms fs := by
    refine ⟨fun m hm => ?_, fun f hf => ?_⟩
    · simp only [ms, List.mem_cons, List.not_mem_nil, or_false] at hm
      rcases hm with rfl | rfl | rfl <;>
        simp [fs, ofObject, Parcel.fragments, splitMessage, chunks, numberPieces]
    · revert f
      decide
  exact ⟨hall,
    (feed_interleaved (by decide) (by decide) hall (windowed_of_length_le (by decide))).2⟩

end Reassembler

end Runspace
