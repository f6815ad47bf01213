import Runspace.Wire.Reassembly

/-!
# Soundness — what a completed message is made of

Whatever fragments arrive, in whatever order, a receiver completes a message only from its
fragments `0, 1, …, n`, each of which came once and in its turn. Two facts carry this: a pending
message is just the fragments of its number that have arrived so far, and a number of which some
fragment has arrived is pending or retired for good.

* `ofObject`, `Reassembler.feedAll`, `Reassembler.outcomes`: the fragments of one number, a receiver
  after some fragments, what each of them did;
* `Covers`, `Retiring`: which numbers a watermark and a list retire; `retiring_evict`,
  `retiring_collapse`, `retiring_retire`: none is ever let go;
* `Partial.Gathers`, `Partial.Unfinished`: some fragments are a message from its first one on;
* `Reassembler.Holds`: the two facts; **`Holds.feed`**: every fragment keeps them;
* **`complete_of_feedAll`**: what a completed message is made of.
-/

namespace Runspace

/-- The fragments among some that carry a message's number. -/
def ofObject (x : Nat) (fs : List Fragment) : List Fragment := fs.filter (·.objectId.toNat = x)

theorem ofObject_cons (x : Nat) (f : Fragment) (fs : List Fragment) :
    ofObject x (f :: fs) =
      if f.objectId.toNat = x then f :: ofObject x fs else ofObject x fs := by
  by_cases h : f.objectId.toNat = x <;> simp [ofObject, h]

theorem ofObject_concat (x : Nat) (fs : List Fragment) (f : Fragment) :
    ofObject x (fs ++ [f]) =
      if f.objectId.toNat = x then ofObject x fs ++ [f] else ofObject x fs := by
  by_cases h : f.objectId.toNat = x <;> simp [ofObject, h]

/-! ## Retired numbers -/

/-- The numbers that a watermark and a list retire. -/
def Covers (below : Nat) (ids : List Nat) (x : Nat) : Prop := x < below ∨ x ∈ ids

/-- A list of retired numbers in order: ascending, and none of them below the watermark. -/
structure Ascends (below : Nat) (ids : List Nat) : Prop where
  pairwise : ids.Pairwise (· < ·)
  le : ∀ x ∈ ids, below ≤ x

/-- A later watermark and list, in order again, that retire what was retired before. -/
structure Retiring (below : Nat) (ids : List Nat) (next : Nat × List Nat) : Prop
    extends Ascends next.1 next.2 where
  covers : ∀ x, Covers below ids x → Covers next.1 next.2 x

theorem mem_insertAscending {x id : Nat} {ids : List Nat} :
    x ∈ insertAscending id ids ↔ x = id ∨ x ∈ ids := by
  induction ids with
  | nil => simp [insertAscending]
  | cons a ids ih =>
    unfold insertAscending
    split
    · simp
    split
    · next h => simp [h]
    · rw [List.mem_cons, List.mem_cons, ih, or_left_comm]

theorem Ascends.insert {below id : Nat} {ids : List Nat} (h : Ascends below ids)
    (hid : below ≤ id) : Ascends below (insertAscending id ids) where
  pairwise := by
    have hp := h.pairwise
    clear h
    induction ids with
    | nil => simp [insertAscending]
    | cons a ids ih =>
      rw [List.pairwise_cons] at hp
      unfold insertAscending
      split
      · next hlt =>
        refine List.pairwise_cons.2 ⟨fun x hx => ?_, List.pairwise_cons.2 hp⟩
        rcases List.mem_cons.1 hx with rfl | hx
        · exact hlt
        · exact Nat.lt_trans hlt (hp.1 x hx)
      split
      · exact List.pairwise_cons.2 hp
      · next hle hne =>
        refine List.pairwise_cons.2 ⟨fun x hx => ?_, ih hp.2⟩
        rcases mem_insertAscending.1 hx with rfl | hx
        · omega
        · exact hp.1 x hx
  le x hx := by
    rcases mem_insertAscending.1 hx with rfl | hx
    · exact hid
    · exact h.le x hx

theorem Retiring.refl {below : Nat} {ids : List Nat} (h : Ascends below ids) :
    Retiring below ids (below, ids) :=
  { h with covers := fun _ hx => hx }

theorem Retiring.trans {below : Nat} {ids : List Nat} {next last : Nat × List Nat}
    (h : Retiring below ids next) (h' : Retiring next.1 next.2 last) : Retiring below ids last :=
  { h'.toAscends with covers := fun x hx => h'.covers x (h.covers x hx) }

theorem retiring_succ {below id : Nat} {ids : List Nat} (h : Ascends below (id :: ids)) :
    Retiring below (id :: ids) (id + 1, ids) := by
  obtain ⟨hlt, hp⟩ := List.pairwise_cons.1 h.pairwise
  have hle : below ≤ id := h.le id List.mem_cons_self
  refine ⟨⟨hp, hlt⟩, fun x hx => ?_⟩
  rcases hx with hx | hx
  · exact .inl (by show x < id + 1; omega)
  · rcases List.mem_cons.1 hx with rfl | hx
    · exact .inl (Nat.lt_succ_self x)
    · exact .inr hx

theorem retiring_evict {below : Nat} {ids : List Nat} (h : Ascends below ids) :
    Retiring below ids (evict below ids) := by
  induction ids generalizing below with
  | nil => exact .refl h
  | cons id ids ih =>
    unfold evict
    split
    · have hnext := retiring_succ h
      exact hnext.trans (ih hnext.toAscends)
    · exact .refl h

theorem retiring_collapse {below : Nat} {ids : List Nat} (h : Ascends below ids) :
    Retiring below ids (collapse below ids) := by
  induction ids generalizing below with
  | nil => exact .refl h
  | cons id ids ih =>
    unfold collapse
    split
    · next hid =>
      subst hid
      have hnext := retiring_succ h
      exact hnext.trans (ih hnext.toAscends)
    · exact .refl h

/-! ## Partial messages -/

namespace Partial

variable {p : Partial} {f : Fragment} {limit : Nat} {own : List Fragment}

/-- Some fragments are those of a message from its first one on, and make up what has arrived. -/
structure Gathers (p : Partial) (own : List Fragment) (limit : Nat) : Prop where
  next_eq : p.next = own.length
  numbered : own.map (·.fragmentId.toNat) = List.range own.length
  target : ∀ f ∈ own, f.target = p.target
  body_eq : p.body = own.flatMap (·.payload)
  size_le : p.body.length ≤ limit

/-- None of them is the last one. -/
structure Unfinished (p : Partial) (own : List Fragment) (limit : Nat) : Prop
    extends p.Gathers own limit where
  unended : ∀ f ∈ own, f.isEnd = false

theorem unfinished_start (target : Target) (limit : Nat) :
    (start target).Unfinished [] limit :=
  ⟨⟨rfl, rfl, by simp, rfl, Nat.zero_le _⟩, by simp⟩

theorem Gathers.append (h : p.Gathers own limit) (hf : p.refusal? f limit = none) :
    (p.append f).Gathers (own ++ [f]) limit := by
  obtain ⟨ht, hnext, hsize⟩ := refusal?_eq_none_iff.1 hf
  constructor
  · rw [List.length_append, ← h.next_eq]
    rfl
  · rw [List.map_append, h.numbered, List.length_append, List.length_singleton, List.range_succ,
      List.map_singleton, hnext, h.next_eq]
  · intro g hg
    rcases List.mem_append.1 hg with hg | hg
    · exact h.target g hg
    · rw [List.mem_singleton.1 hg]
      exact ht.symm
  · rw [body_append, h.body_eq, List.flatMap_append, List.flatMap_singleton]
  · rw [body_append, List.length_append, length_body]
    exact hsize

theorem Unfinished.append (h : p.Unfinished own limit) (hf : p.refusal? f limit = none)
    (hend : f.isEnd = false) : (p.append f).Unfinished (own ++ [f]) limit where
  toGathers := h.toGathers.append hf
  unended g hg := by
    rcases List.mem_append.1 hg with hg | hg
    · exact h.unended g hg
    · rw [List.mem_singleton.1 hg]
      exact hend

end Partial

namespace Reassembler

/-! ## Fields under changes -/

section Fields

variable (r : Reassembler) (x y : Nat) (p : Partial)

theorem lookup_drop :
    (r.drop x).pending.lookup y = if y = x then none else r.pending.lookup y := by
  unfold drop
  induction r.pending with
  | nil => simp
  | cons a l ih =>
    obtain ⟨z, q⟩ := a
    rw [List.lookup_cons]
    by_cases hz : z = x
    · rw [List.filter_cons_of_neg (by simpa using hz), ih]
      by_cases hy : y = x
      · rw [if_pos hy, if_pos hy]
      · have hyz : (y == z) = false := by rw [hz]; exact beq_eq_false_iff_ne.2 hy
        rw [if_neg hy, if_neg hy, hyz]
    · rw [List.filter_cons_of_pos (by simpa using hz), List.lookup_cons, ih]
      by_cases hy : y = z
      · have hyx : ¬ y = x := by rw [hy]; exact hz
        rw [if_neg hyx, if_neg hyx]
      · have hyz : (y == z) = false := beq_eq_false_iff_ne.2 hy
        rw [hyz]

theorem lookup_put :
    (r.put x p).pending.lookup y = if y = x then some p else r.pending.lookup y := by
  rw [put, List.lookup_cons, lookup_drop]
  by_cases hy : y = x
  · simp [hy]
  · have hyx : (y == x) = false := beq_eq_false_iff_ne.2 hy
    rw [if_neg hy, if_neg hy, hyx]

@[simp] theorem pending_retire : (r.retire x).pending = r.pending := by
  unfold retire
  split <;> rfl

@[simp] theorem limit_retire : (r.retire x).limit = r.limit := by
  unfold retire
  split <;> rfl

end Fields

/-- A number counts as retired unless it is pending. -/
def Closed (r : Reassembler) (x : Nat) : Prop := Covers r.retiredBelow r.retired x

theorem isRetired_iff {r : Reassembler} {x : Nat} :
    r.isRetired x = true ↔ r.pending.lookup x = none ∧ r.Closed x := by
  simp [isRetired, Closed, Covers]

theorem retiring_retire {r : Reassembler} (h : Ascends r.retiredBelow r.retired) (x : Nat) :
    (r.retire x).Closed x ∧
      Retiring r.retiredBelow r.retired ((r.retire x).retiredBelow, (r.retire x).retired) := by
  unfold retire
  split
  · next hx => exact ⟨.inl hx, .refl h⟩
  · next hx =>
    have hins : Retiring r.retiredBelow r.retired (r.retiredBelow, insertAscending x r.retired) :=
      ⟨h.insert (Nat.le_of_not_lt hx), fun y hy => hy.imp_right fun hy =>
        mem_insertAscending.2 (.inr hy)⟩
    have hevict := retiring_evict hins.toAscends
    have hnext := hevict.trans (retiring_collapse hevict.toAscends)
    exact ⟨hnext.covers x (.inr (mem_insertAscending.2 (.inl rfl))), hins.trans hnext⟩

/-! ## Histories -/

/-- A receiver after some more fragments. -/
def feedAll (r : Reassembler) (fs : List Fragment) : Reassembler :=
  fs.foldl (fun r f => (r.feed f).2) r

/-- What some fragments do, each with its fragment. -/
def outcomes (r : Reassembler) : List Fragment → List (Fragment × Outcome)
  | [] => []
  | f :: fs => (f, (r.feed f).1) :: (r.feed f).2.outcomes fs

/-- What a receiver knows after some fragments: the retired numbers are in order, a pending message
is what has arrived under its number, none of it the last, and a number of which something has
arrived is pending or retired. -/
structure Holds (r : Reassembler) (fs : List Fragment) : Prop where
  ascends : Ascends r.retiredBelow r.retired
  pending : ∀ x p, r.pending.lookup x = some p → p.Unfinished (ofObject x fs) r.limit
  closed : ∀ x, ofObject x fs ≠ [] → r.pending.lookup x = none → r.Closed x

theorem holds_new (limit : Nat) : (new limit).Holds [] where
  ascends := ⟨.nil, fun _ h => by cases h⟩
  pending _ _ h := by cases h
  closed _ h := absurd rfl h

section Feed

variable {r q : Reassembler} {fs : List Fragment} {f : Fragment} {p : Partial} {x : Nat}

theorem Holds.of_own (h : r.Holds fs) (hx : f.objectId.toNat = x) (hl : q.limit = r.limit)
    (hids : Retiring r.retiredBelow r.retired (q.retiredBelow, q.retired))
    (hsame : ∀ y, y ≠ x → q.pending.lookup y = r.pending.lookup y)
    (hpending : ∀ p, q.pending.lookup x = some p → p.Unfinished (ofObject x fs ++ [f]) r.limit)
    (hclosed : q.pending.lookup x = none → q.Closed x) : q.Holds (fs ++ [f]) where
  ascends := hids.toAscends
  pending y p hy := by
    rw [ofObject_concat, hx, hl]
    by_cases hyx : y = x
    · subst hyx
      rw [if_pos rfl]
      exact hpending p hy
    · rw [if_neg (Ne.symm hyx)]
      exact h.pending y p (hsame y hyx ▸ hy)
  closed y hne hy := by
    by_cases hyx : y = x
    · subst hyx
      exact hclosed hy
    · rw [ofObject_concat, hx, if_neg (Ne.symm hyx)] at hne
      exact hids.covers y (h.closed y hne (hsame y hyx ▸ hy))

theorem Holds.retire (h : r.Holds fs) (hx : f.objectId.toNat = x) (hl : q.limit = r.limit)
    (hids : q.retiredBelow = r.retiredBelow ∧ q.retired = r.retired)
    (hp : ∀ y, q.pending.lookup y = if y = x then none else r.pending.lookup y) :
    (q.retire x).Holds (fs ++ [f]) := by
  obtain ⟨hbelow, hretired⟩ := hids
  have hasc : Ascends q.retiredBelow q.retired := by
    rw [hbelow, hretired]
    exact h.ascends
  obtain ⟨hclosed, hnext⟩ := retiring_retire hasc x
  rw [hbelow, hretired] at hnext
  refine h.of_own hx ((limit_retire q x).trans hl) hnext (fun y hy => ?_) (fun p hy => ?_)
    fun _ => hclosed
  · rw [pending_retire, hp, if_neg hy]
  · rw [pending_retire, hp, if_pos rfl] at hy
    cases hy

theorem Holds.continueWith (h : r.Holds fs) (hx : f.objectId.toNat = x)
    (hp : p.Unfinished (ofObject x fs) r.limit) :
    (r.continueWith x p f).2.Holds (fs ++ [f]) := by
  have hretire : ((r.drop x).retire x).Holds (fs ++ [f]) :=
    h.retire hx rfl ⟨rfl, rfl⟩ (lookup_drop r x)
  unfold Reassembler.continueWith
  split
  · exact hretire
  · next hfits =>
    split
    · exact hretire
    · next hmore =>
      have hput := fun y => lookup_put r x y (p.append f)
      refine h.of_own hx rfl (.refl h.ascends) (fun y hy => ?_) (fun p' hy => ?_) fun hy => ?_
      · rw [hput, if_neg hy]
      · rw [hput, if_pos rfl, Option.some.injEq] at hy
        rw [← hy]
        exact hp.append hfits (by simpa using hmore)
      · rw [hput, if_pos rfl] at hy
        cases hy

/-- Nothing has arrived under a number that is neither pending nor retired, so that a message may
begin there. -/
theorem Holds.unfinished_start (h : r.Holds fs) (hp : r.pending.lookup x = none)
    (hr : ¬ r.isRetired x = true) (target : Target) :
    (Partial.start target).Unfinished (ofObject x fs) r.limit := by
  have hnil : ofObject x fs = [] :=
    Decidable.byContradiction fun hne => hr (isRetired_iff.2 ⟨hp, h.closed x hne hp⟩)
  rw [hnil]
  exact Partial.unfinished_start target r.limit

/-- **Every fragment keeps what a receiver knows.** -/
theorem Holds.feed (h : r.Holds fs) (f : Fragment) : (r.feed f).2.Holds (fs ++ [f]) := by
  unfold Reassembler.feed
  dsimp only
  split
  · next p hp => exact h.continueWith rfl (h.pending _ _ hp)
  · next hp =>
    have hnone : ∀ y, r.pending.lookup y =
        if y = f.objectId.toNat then none else r.pending.lookup y := by
      intro y
      split
      · next hy => rw [hy, hp]
      · rfl
    split
    · next hr =>
      -- the number is retired already, and nothing changes
      refine h.of_own rfl rfl (.refl h.ascends) (fun _ _ => rfl) (fun p hy => ?_) fun _ =>
        (isRetired_iff.1 hr).2
      cases hp.symm.trans hy
    · next hr =>
      split
      · exact h.retire rfl rfl ⟨rfl, rfl⟩ hnone
      split
      · exact h.retire rfl rfl ⟨rfl, rfl⟩ hnone
      · exact h.continueWith rfl (h.unfinished_start hp hr _)

theorem Holds.feedAll (h : r.Holds fs) (gs : List Fragment) : (r.feedAll gs).Holds (fs ++ gs) := by
  induction gs generalizing r fs with
  | nil => rwa [List.append_nil]
  | cons g gs ih =>
    have hrest := ih (h.feed g)
    rwa [List.append_assoc] at hrest

theorem limit_feed (r : Reassembler) (f : Fragment) : (r.feed f).2.limit = r.limit := by
  have hcontinue : ∀ x p, (r.continueWith x p f).2.limit = r.limit := by
    intro x p
    unfold Reassembler.continueWith
    split
    · exact limit_retire _ _
    · split
      · exact limit_retire _ _
      · rfl
  unfold feed
  dsimp only
  split
  · exact hcontinue _ _
  · split
    · rfl
    split
    · exact limit_retire _ _
    split
    · exact limit_retire _ _
    · exact hcontinue _ _

theorem limit_feedAll (r : Reassembler) (fs : List Fragment) : (r.feedAll fs).limit = r.limit := by
  induction fs generalizing r with
  | nil => rfl
  | cons f fs ih => exact (ih _).trans (limit_feed r f)

theorem continueWith_eq_complete {body : Bytes}
    (hc : r.continueWith x p f = (.complete body, q)) :
    p.refusal? f r.limit = none ∧ f.isEnd = true ∧ body = (p.append f).body := by
  unfold Reassembler.continueWith at hc
  split at hc
  · cases hc
  · next hfits =>
    split at hc
    · next hend =>
      cases hc
      exact ⟨hfits, hend, rfl⟩
    · cases hc

theorem Holds.complete (h : r.Holds fs) {body : Bytes} (hc : r.feed f = (.complete body, q)) :
    ∃ p : Partial, p.Unfinished (ofObject f.objectId.toNat fs) r.limit ∧
      p.refusal? f r.limit = none ∧ f.isEnd = true ∧ body = (p.append f).body := by
  unfold Reassembler.feed at hc
  dsimp only at hc
  split at hc
  · next p hp => exact ⟨p, h.pending _ _ hp, continueWith_eq_complete hc⟩
  · next hp =>
    split at hc
    · cases hc
    · next hr =>
      split at hc
      · cases hc
      split at hc
      · cases hc
      · exact ⟨_, h.unfinished_start hp hr _, continueWith_eq_complete hc⟩

end Feed

/-- **A message that a receiver completes is made of its own fragments, all of them.** Whatever was
fed before: the fragments of its number so far, the completing one last, have the numbers
`0, 1, …, n` in the order in which they came, name one target, and only the last is marked as the
end; the message is their payloads one after another, and no longer than the receiver's limit. -/
theorem complete_of_feedAll {limit : Nat} {fs : List Fragment} {f : Fragment} {body : Bytes}
    {r : Reassembler} (h : ((new limit).feedAll fs).feed f = (.complete body, r)) :
    ∃ earlier, (fs ++ [f]).filter (·.objectId = f.objectId) = earlier ++ [f] ∧
      (earlier ++ [f]).map (·.fragmentId.toNat) = List.range (earlier.length + 1) ∧
      (∀ g ∈ earlier, g.target = f.target ∧ g.isEnd = false) ∧ f.isEnd = true ∧
      body = (earlier ++ [f]).flatMap (·.payload) ∧ body.length ≤ limit := by
  have hold : ((new limit).feedAll fs).Holds fs := (holds_new limit).feedAll fs
  obtain ⟨p, hp, hfits, hend, rfl⟩ := hold.complete h
  rw [limit_feedAll] at hp hfits
  have hwhole := hp.toGathers.append hfits
  have htarget := (Partial.refusal?_eq_none_iff.1 hfits).1
  refine ⟨ofObject f.objectId.toNat fs, ?_, ?_, fun g hg => ?_, hend, hwhole.body_eq,
    hwhole.size_le⟩
  · have hmine := ofObject_concat f.objectId.toNat fs f
    rw [if_pos rfl] at hmine
    rw [← hmine]
    simp only [ofObject, UInt64.toNat_inj]
  · rw [hwhole.numbered, List.length_append, List.length_singleton]
  · exact ⟨(hp.target g hg).trans htarget, hp.unended g hg⟩

/-- Two interleaved messages, of which the other one is lost by a gap. -/
theorem complete_of_feedAll_interleaved :
    let first : Fragment := ⟨7, 0, .pool, false, [1, 2]⟩
    let other : Fragment := ⟨9, 1, .pool, false, [5]⟩
    let last : Fragment := ⟨7, 1, .pool, true, [3]⟩
    ∃ r, ((new 3).feedAll [first, other]).feed last = (.complete [1, 2, 3], r) ∧
      ∃ earlier, [first, other, last].filter (·.objectId = 7) = earlier ++ [last] ∧
        [1, 2, 3] = (earlier ++ [last]).flatMap (·.payload) := by
  intro first other last
  have h : ((new 3).feedAll [first, other]).feed last =
      (.complete [1, 2, 3], (((new 3).feedAll [first, other]).feed last).2) := rfl
  obtain ⟨earlier, hown, -, -, -, hbody, -⟩ := complete_of_feedAll h
  exact ⟨_, h, earlier, hown, hbody⟩

end Reassembler

end Runspace
