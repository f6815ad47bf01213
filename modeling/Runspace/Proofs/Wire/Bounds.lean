import Runspace.Proofs.Wire.Retirement

/-!
# Bounds — how much a receiver holds

Whatever is fed, a receiver holds few partial messages, each of them no longer than its limit, and
few retired numbers one by one. Its watermark only rises, and as long as nobody uses the largest
number of 64 bits, it rises within 64 bits.

* `successor?`, `evict?`, `collapse?`, `Reassembler.retire?`: retiring in an arithmetic that stops
  rather than overflow; **`retire?_eq_some`**: it does not stop below the largest number;
* `Reassembler.next_le_length`: nor can the place of the next fragment overflow;
* `Reassembler.Tidy`: what is pending, and what lies above the watermark; **`Tidy.feed`**: every
  fragment keeps this;
* **`bounds_of_feedAll`**: what a receiver holds after any fragments.
-/

namespace Runspace

/-! ## Arithmetic in 64 bits -/

/-- The next number, unless it takes more than 64 bits. -/
def successor? (n : Nat) : Option Nat := if n + 1 < UInt64.size then some (n + 1) else none

/-- Takes the lowest numbers off a list that is too long, like `evict`, but stops rather than
overflow. -/
def evict? : Nat → List Nat → Option (Nat × List Nat)
  | below, [] => some (below, [])
  | below, id :: ids =>
    if maxRetiredSpan < (id :: ids).length then (successor? id).bind (evict? · ids)
    else some (below, id :: ids)

/-- Takes the numbers off a list that follow the watermark without a gap, like `collapse`, but stops
rather than overflow. -/
def collapse? : Nat → List Nat → Option (Nat × List Nat)
  | below, [] => some (below, [])
  | below, id :: ids =>
    if id = below then (successor? below).bind (collapse? · ids) else some (below, id :: ids)

/-- Retires a number that is not pending, like `retire`, but stops rather than overflow. -/
def Reassembler.retire? (r : Reassembler) (id : Nat) : Option Reassembler :=
  if id < r.retiredBelow then some r
  else
    (evict? r.retiredBelow (insertAscending id r.retired)).bind fun (below, ids) =>
      (collapse? below ids).map fun (below, ids) => { r with retiredBelow := below, retired := ids }

section Arithmetic

variable {below x : Nat} {ids : List Nat} {r : Reassembler}

theorem successor?_eq_some (h : x + 1 < UInt64.size) : successor? x = some (x + 1) := if_pos h

theorem evict?_eq_some (h : ∀ x ∈ ids, x + 1 < UInt64.size) :
    evict? below ids = some (evict below ids) := by
  induction ids generalizing below with
  | nil => rfl
  | cons id ids ih =>
    unfold evict? evict
    split
    · rw [successor?_eq_some (h id List.mem_cons_self)]
      exact ih fun x hx => h x (List.mem_cons_of_mem _ hx)
    · rfl

theorem collapse?_eq_some (h : ∀ x ∈ ids, x + 1 < UInt64.size) :
    collapse? below ids = some (collapse below ids) := by
  induction ids generalizing below with
  | nil => rfl
  | cons id ids ih =>
    unfold collapse? collapse
    split
    · next hid =>
      subst hid
      rw [successor?_eq_some (h id List.mem_cons_self)]
      exact ih fun x hx => h x (List.mem_cons_of_mem _ hx)
    · rfl

/-- **Retiring numbers below the largest one does not overflow.** -/
theorem Reassembler.retire?_eq_some (hp : r.retired.Pairwise (· < ·))
    (h : ∀ y ∈ r.retired, y + 1 < UInt64.size) (hx : x + 1 < UInt64.size) :
    r.retire? x = some (r.retire x) := by
  have hins : ∀ y ∈ insertAscending x r.retired, y + 1 < UInt64.size := by
    intro y hy
    rcases mem_insertAscending.1 hy with rfl | hy
    · exact hx
    · exact h y hy
  have hsub : (evict r.retiredBelow (insertAscending x r.retired)).2.Sublist _ :=
    (sparing_evict (pairwise_insertAscending x hp)).sublist
  unfold retire? retire
  split
  · rfl
  · rw [evict?_eq_some hins, Option.bind_some]
    generalize evict r.retiredBelow (insertAscending x r.retired) = next at hsub ⊢
    obtain ⟨below, ids⟩ := next
    dsimp only at hsub ⊢
    rw [collapse?_eq_some fun y hy => hins y (hsub.subset hy)]
    rfl

/-! ## The watermark -/

theorem le_evict (h : Ascends below ids) : below ≤ (evict below ids).1 := by
  induction ids generalizing below with
  | nil => exact Nat.le_refl _
  | cons id ids ih =>
    unfold evict
    split
    · have hid : below ≤ id := h.le id List.mem_cons_self
      exact Nat.le_trans (Nat.le_succ_of_le hid) (ih (retiring_succ h).toAscends)
    · exact Nat.le_refl _

theorem le_collapse (below : Nat) (ids : List Nat) : below ≤ (collapse below ids).1 := by
  induction ids generalizing below with
  | nil => exact Nat.le_refl _
  | cons id ids ih =>
    unfold collapse
    split
    · exact Nat.le_of_succ_le (ih _)
    · exact Nat.le_refl _

theorem lt_of_mem_collapse (h : Ascends below ids) (hx : x ∈ (collapse below ids).2) :
    (collapse below ids).1 < x := by
  induction ids generalizing below with
  | nil => cases hx
  | cons id ids ih =>
    unfold collapse at hx ⊢
    split at hx
    · next hid =>
      subst hid
      rw [if_pos rfl]
      exact ih (retiring_succ h).toAscends hx
    · next hid =>
      rw [if_neg hid]
      have hlt : below < id := Nat.lt_of_le_of_ne (h.le id List.mem_cons_self) (Ne.symm hid)
      rcases List.mem_cons.1 hx with rfl | hx
      · exact hlt
      · exact Nat.lt_trans hlt ((List.pairwise_cons.1 h.pairwise).1 x hx)

namespace Reassembler

variable {y : Nat}

theorem retiredBelow_le_retire (h : Ascends r.retiredBelow r.retired) (x : Nat) :
    r.retiredBelow ≤ (r.retire x).retiredBelow := by
  unfold retire
  split
  · exact Nat.le_refl _
  · next hx =>
    exact Nat.le_trans (le_evict (h.insert (Nat.le_of_not_lt hx))) (le_collapse _ _)

theorem lt_of_mem_retired_retire (h : Ascends r.retiredBelow r.retired)
    (hgap : ∀ y ∈ r.retired, r.retiredBelow < y) (hy : y ∈ (r.retire x).retired) :
    (r.retire x).retiredBelow < y := by
  unfold retire at hy ⊢
  split at hy
  · next hx =>
    rw [if_pos hx]
    exact hgap y hy
  · next hx =>
    rw [if_neg hx]
    exact lt_of_mem_collapse (retiring_evict (h.insert (Nat.le_of_not_lt hx))).toAscends hy

end Reassembler

end Arithmetic

namespace Reassembler

variable {r q : Reassembler} {f : Fragment} {fs : List Fragment} {o : Outcome} {x : Nat}
  {p : Partial}

/-! ## Pending numbers -/

theorem pendingObjects_retire (r : Reassembler) (x : Nat) :
    (r.retire x).pendingObjects = r.pendingObjects := by
  rw [pendingObjects, pending_retire, pendingObjects]

theorem pendingObjects_drop_lt (h : r.pending.lookup x = some p) :
    (r.drop x).pendingObjects < r.pendingObjects := by
  have hmem : x ∈ r.pending.map (·.1) := by
    by_contra hnot
    cases (lookup_eq_none_iff.2 hnot).symm.trans h
  obtain ⟨a, ha, hax⟩ := List.mem_map.1 hmem
  exact List.length_filter_lt_length_iff_exists.2 ⟨a, ha, by simpa using hax⟩

theorem pendingObjects_continueWith_le (r : Reassembler) (x : Nat) (p : Partial) (f : Fragment) :
    (r.continueWith x p f).2.pendingObjects ≤ (r.drop x).pendingObjects + 1 := by
  unfold continueWith
  split
  · exact Nat.le_succ_of_le (Nat.le_of_eq (pendingObjects_retire _ _))
  split
  · exact Nat.le_succ_of_le (Nat.le_of_eq (pendingObjects_retire _ _))
  · exact Nat.le_refl _

/-- A message begins only if there is room for it. -/
theorem pendingObjects_feed_le (h : r.pendingObjects ≤ maxPendingObjects) (f : Fragment) :
    (r.feed f).2.pendingObjects ≤ maxPendingObjects := by
  unfold feed
  dsimp only
  split
  · next p hp =>
    have hless := pendingObjects_drop_lt hp
    exact Nat.le_trans (pendingObjects_continueWith_le _ _ _ _) (Nat.le_trans hless h)
  · next hp =>
    split
    · exact h
    split
    · rwa [pendingObjects_retire]
    split
    · rwa [pendingObjects_retire]
    · next hroom =>
      refine Nat.le_trans (pendingObjects_continueWith_le _ _ _ _) ?_
      rw [drop_of_lookup hp]
      exact Nat.lt_of_not_le hroom

/-! ## Every fragment keeps the bounds -/

/-- Few numbers are pending, each of them once, and no retired number is next to the watermark. -/
structure Tidy (r : Reassembler) : Prop where
  nodup : (r.pending.map (·.1)).Nodup
  pendingObjects_le : r.pendingObjects ≤ maxPendingObjects
  gap : ∀ x ∈ r.retired, r.retiredBelow < x

theorem tidy_new (limit : Nat) : (new limit).Tidy where
  nodup := List.nodup_nil
  pendingObjects_le := Nat.zero_le _
  gap _ h := by cases h

theorem Fed.tidy (hf : Fed r f o q) (h : r.Tidy) (hr : Ascends r.retiredBelow r.retired)
    (hroom : q.pendingObjects ≤ maxPendingObjects) : q.Tidy := by
  cases hf with
  | late => exact h
  | settle =>
    refine ⟨?_, hroom, fun y hy => lt_of_mem_retired_retire (r := r.drop _) hr h.gap hy⟩
    rw [pending_retire]
    exact nodup_keys_drop h.nodup _
  | goOn _ p => exact ⟨nodup_keys_put h.nodup _ p, hroom, h.gap⟩

/-- **Every fragment keeps a receiver tidy.** -/
theorem Tidy.feed (h : r.Tidy) (hr : Ascends r.retiredBelow r.retired) (f : Fragment) :
    (r.feed f).2.Tidy :=
  (fed_feed r f).tidy h hr (pendingObjects_feed_le h.pendingObjects_le f)

theorem tidy_feedAll (limit : Nat) (fs : List Fragment) : ((new limit).feedAll fs).Tidy := by
  induction fs using List.reverseRecOn with
  | nil => exact tidy_new limit
  | append_singleton fs f ih =>
    rw [feedAll_append]
    exact ih.feed (remembers_feedAll limit fs).toAscends f

theorem Fed.retiredBelow_le (hf : Fed r f o q) (hr : Ascends r.retiredBelow r.retired) :
    r.retiredBelow ≤ q.retiredBelow := by
  cases hf with
  | late | goOn => exact Nat.le_refl _
  | settle => exact retiredBelow_le_retire (r := r.drop _) hr _

theorem Remembers.retiredBelow_le_feedAll {done : List Nat} (h : r.Remembers done)
    (fs : List Fragment) : r.retiredBelow ≤ (r.feedAll fs).retiredBelow := by
  induction fs generalizing r done with
  | nil => exact Nat.le_refl _
  | cons f fs ih => exact Nat.le_trans ((fed_feed r f).retiredBelow_le h.toAscends) (ih (h.feed f))

/-! ## Numbers below the largest one -/

section Numbers

variable {limit : Nat}

theorem lt_of_mem_retirements (h : ∀ f ∈ fs, f.objectId.toNat < UInt64.size - 1)
    (hx : x ∈ r.retirements fs) : x < UInt64.size - 1 := by
  obtain ⟨f, hf⟩ := List.exists_mem_of_ne_nil _ (ofObject_ne_nil_of_mem_retirements hx)
  obtain ⟨hmem, hid⟩ := List.mem_filter.1 hf
  exact of_decide_eq_true hid ▸ h f hmem

theorem retiredBelow_lt (h : ∀ f ∈ fs, f.objectId.toNat < UInt64.size - 1) :
    ((new limit).feedAll fs).retiredBelow < UInt64.size := by
  by_contra hle
  -- otherwise the largest number would be retired, or lie below some that were
  have hlast : UInt64.size - 1 < ((new limit).feedAll fs).retiredBelow :=
    Nat.lt_of_lt_of_le (by decide) (Nat.le_of_not_lt hle)
  rcases (remembers_feedAll limit fs).below _ hlast with hmem | hmany
  · exact absurd (lt_of_mem_retirements h hmem) (Nat.lt_irrefl _)
  · obtain ⟨y, hy⟩ := List.exists_mem_of_length_pos (Nat.lt_of_le_of_lt (Nat.zero_le _) hmany)
    obtain ⟨hmem, hlt⟩ := List.mem_filter.1 hy
    exact absurd (lt_of_mem_retirements h hmem) (Nat.lt_asymm (of_decide_eq_true hlt))

theorem Fed.eq_or_retire? (hf : Fed r f o q) (hp : r.retired.Pairwise (· < ·))
    (h : ∀ x ∈ r.retired, x + 1 < UInt64.size) (hid : f.objectId.toNat + 1 < UInt64.size) :
    q.retiredBelow = r.retiredBelow ∧ q.retired = r.retired ∨
      (r.drop f.objectId.toNat).retire? f.objectId.toNat = some q := by
  cases hf with
  | late | goOn => exact .inl ⟨rfl, rfl⟩
  | settle => exact .inr (retire?_eq_some (r := r.drop _) hp h hid)

/-- The place for which a pending message waits fits 64 bits, for as many fragments as a channel
could ever bring: it is no further than the number of those that were fed. -/
theorem next_le_length (limit : Nat) (fs : List Fragment)
    (h : ((new limit).feedAll fs).pending.lookup x = some p) : p.next ≤ fs.length := by
  rw [(((holds_new limit).feedAll fs).pending x p h).next_eq]
  exact List.length_filter_le _ _

end Numbers

/-! ## Any fragments -/

/-- **What a receiver holds after any fragments,** as long as none of them has the largest number of
64 bits.

At most `maxPendingObjects` numbers are pending, each of them once, and at most `maxRetiredSpan` are
retired one by one, each of them once. These lie above the watermark with a gap, and none of them is
pending. A pending message waits for its fragment 1 or a later one, and holds no more than the
limit: its fragments so far are `0, 1, …` up to the one before that, and it holds just their
payloads.

The watermark never falls. It stays within 64 bits, and so does every number through which it rises:
where a fragment changes it, retiring without overflow comes to the same. -/
theorem bounds_of_feedAll (limit : Nat) (fs : List Fragment)
    (hids : ∀ f ∈ fs, f.objectId.toNat < UInt64.size - 1) :
    let start := new limit
    let r := start.feedAll fs
    ((r.pending.map (·.1)).Nodup ∧ r.pendingObjects ≤ maxPendingObjects) ∧
      (r.retired.Nodup ∧ r.retired.length ≤ maxRetiredSpan) ∧
      (∀ x ∈ r.retired, r.retiredBelow < x ∧ r.pending.lookup x = none) ∧
      (∀ x p, r.pending.lookup x = some p → 1 ≤ p.next ∧ p.body.length ≤ limit ∧
        (ofObject x fs).map (·.fragmentId.toNat) = List.range p.next ∧
        p.body = (ofObject x fs).flatMap (·.payload)) ∧
      r.retiredBelow < UInt64.size ∧
      (∀ before after, fs = before ++ after →
        (start.feedAll before).retiredBelow ≤ r.retiredBelow) ∧
      ∀ before f after, fs = before ++ f :: after →
        let q := start.feedAll before
        (q.feed f).2.retiredBelow = q.retiredBelow ∧ (q.feed f).2.retired = q.retired ∨
          (q.drop f.objectId.toNat).retire? f.objectId.toNat = some (q.feed f).2 := by
  intro start r
  have htidy : r.Tidy := tidy_feedAll limit fs
  have hrem : r.Remembers (start.retirements fs) := remembers_feedAll limit fs
  have hhold : r.Holds fs := (holds_new limit).feedAll fs
  have hlimit : r.limit = limit := limit_feedAll _ _
  refine ⟨⟨htidy.nodup, htidy.pendingObjects_le⟩,
    ⟨hrem.pairwise.imp Nat.ne_of_lt, hrem.length_le⟩, fun x hx => ⟨htidy.gap x hx, ?_⟩,
    fun x p hp => ?_, retiredBelow_lt hids, ?_, ?_⟩
  · exact (isRetired_iff.1 (hrem.isRetired x (hrem.toWarranted.retired x hx))).1
  · have hwhole := hhold.pending x p hp
    rw [hlimit] at hwhole
    have hbegun : ofObject x fs ≠ [] := fun hnil => by
      cases (lookup_feedAll_of_ofObject_eq_nil (r := start) hnil).symm.trans hp
    have hnumbered := hwhole.numbered
    rw [← hwhole.next_eq] at hnumbered
    refine ⟨?_, hwhole.size_le, hnumbered, hwhole.body_eq⟩
    rw [hwhole.next_eq]
    exact List.length_pos_of_ne_nil hbegun
  · rintro before after rfl
    change _ ≤ (start.feedAll (before ++ after)).retiredBelow
    rw [feedAll_append]
    exact (remembers_feedAll limit before).retiredBelow_le_feedAll after
  · rintro before f after rfl q
    have hq : q.Remembers (start.retirements before) := remembers_feedAll limit before
    refine (fed_feed q f).eq_or_retire? hq.pairwise (fun x hx => ?_) ?_
    · have hlt := lt_of_mem_retirements (fun g hg => hids g (List.mem_append_left _ hg))
        (hq.toWarranted.retired x hx)
      omega
    · have hlt := hids f (by simp)
      omega

/-- A message is completed, a later one is lost, and another one goes on while the one after it is
completed: the watermark stops before the one that goes on, and two numbers are retired above it. -/
theorem bounds_of_feedAll_gap :
    let fs : List Fragment := [⟨0, 0, .pool, true, [4]⟩, ⟨3, 1, .pool, false, [9]⟩,
      ⟨1, 0, .pool, false, [1, 2]⟩, ⟨2, 0, .pool, true, []⟩, ⟨1, 1, .pool, false, [3]⟩]
    let r := (new 3).feedAll fs
    (∀ f ∈ fs, f.objectId.toNat < UInt64.size - 1) ∧ r.retiredBelow = 1 ∧ r.retired = [2, 3] ∧
      (∀ x ∈ r.retired, r.retiredBelow < x ∧ r.pending.lookup x = none) ∧
      (∀ p, r.pending.lookup 1 = some p → 1 ≤ p.next ∧ p.body.length ≤ 3 ∧
        (ofObject 1 fs).map (·.fragmentId.toNat) = List.range p.next ∧
        p.body = (ofObject 1 fs).flatMap (·.payload)) ∧
      ((new 3).feedAll (fs.take 2)).retiredBelow ≤ r.retiredBelow := by
  intro fs r
  have hids : ∀ f ∈ fs, f.objectId.toNat < UInt64.size - 1 := by decide
  obtain ⟨-, -, hretired, hpending, -, hle, -⟩ := bounds_of_feedAll 3 fs hids
  exact ⟨hids, rfl, rfl, hretired, hpending 1, hle (fs.take 2) (fs.drop 2) rfl⟩

end Reassembler

end Runspace
