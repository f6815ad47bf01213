import Mathlib.Data.List.Induction
import Runspace.Proofs.Wire.Interleaving

/-!
# Retirement — numbers that are done with

A fragment that completes its message, or loses it, retires the message's number. From then on every
fragment of this number comes too late. A number of which nothing has come may be retired too, since
the receiver remembers at most `maxRetiredSpan` numbers one by one: that is so just when more than
that many larger ones were retired.

* `BeginInOrder`: messages begin in the order of their numbers;
* `Reassembler.Fed`: all that a fragment can do; **`fed_feed`**: every fragment does it;
* `Reassembler.retirements`: the numbers that some fragments retired;
* `Reassembler.Remembers`: what a receiver knows of the numbers that were retired;
  **`Remembers.feed`**: every fragment keeps it;
* **`retired_of_feedAll`**: retired numbers stay retired, and no message is completed twice;
* **`unseen_of_feedAll`**: which numbers are retired though nothing came of them.
-/

namespace Runspace

/-- Messages begin in the order of their numbers. -/
def BeginInOrder (fs : List Fragment) : Prop :=
  ∀ before f after, fs = before ++ f :: after → ofObject f.objectId.toNat before = [] →
    ∀ g ∈ before, g.objectId.toNat < f.objectId.toNat

theorem BeginInOrder.of_append {before after : List Fragment}
    (h : BeginInOrder (before ++ after)) : BeginInOrder before := by
  intro earlier f later hsplit
  exact h earlier f (later ++ after) (by simp [hsplit])

theorem beginInOrder_concat {fs : List Fragment} {f : Fragment} : BeginInOrder (fs ++ [f]) ↔
    BeginInOrder fs ∧
      (ofObject f.objectId.toNat fs = [] → ∀ g ∈ fs, g.objectId.toNat < f.objectId.toNat) := by
  refine ⟨fun h => ⟨h.of_append, h fs f [] rfl⟩, fun ⟨h, hlast⟩ before g after hsplit => ?_⟩
  rcases List.eq_nil_or_concat after with rfl | ⟨rest, a, rfl⟩
  · obtain ⟨rfl, hg⟩ := List.append_inj' hsplit rfl
    obtain rfl : f = g := List.singleton_inj.1 hg
    exact hlast
  · rw [List.concat_eq_append, ← List.cons_append, ← List.append_assoc] at hsplit
    exact h before g rest (List.append_inj' hsplit rfl).1

theorem Partial.refusal?_ne_alreadyFinalized (p : Partial) (f : Fragment) (limit : Nat) :
    p.refusal? f limit ≠ some .alreadyFinalized := by
  unfold refusal?
  split_ifs <;> nofun

/-! ## The retired list stays short -/

theorem length_evict_le (below : Nat) (ids : List Nat) :
    (evict below ids).2.length ≤ maxRetiredSpan := by
  induction ids generalizing below with
  | nil => exact Nat.zero_le _
  | cons id ids ih =>
    unfold evict
    split
    · exact ih _
    · next h => exact Nat.le_of_not_lt h

theorem length_collapse_le (below : Nat) (ids : List Nat) :
    (collapse below ids).2.length ≤ ids.length := by
  induction ids generalizing below with
  | nil => exact Nat.le_refl _
  | cons id ids ih =>
    unfold collapse
    split
    · exact Nat.le_succ_of_le (ih _)
    · exact Nat.le_refl _

namespace Reassembler

theorem length_retired_retire_le {r : Reassembler} (h : r.retired.length ≤ maxRetiredSpan)
    (x : Nat) : (r.retire x).retired.length ≤ maxRetiredSpan := by
  unfold retire
  split
  · exact h
  · exact Nat.le_trans (length_collapse_le _ _) (length_evict_le _ _)

/-! ## What a fragment does -/

/-- Whether a fragment with this outcome retired the number of its message. -/
def Outcome.retires : Outcome → Bool
  | .incomplete => false
  | .complete _ => true
  | .lost fault => fault.reason ≠ .alreadyFinalized

/-- All that a fragment can do. -/
inductive Fed (r : Reassembler) (f : Fragment) : Outcome → Reassembler → Prop where
  | late (h : r.isRetired f.objectId.toNat = true) :
    Fed r f (.lost ⟨f.objectId.toNat, f.target, .alreadyFinalized⟩) r
  | settle {o : Outcome} (h : r.isRetired f.objectId.toNat = false) (ho : o.retires = true) :
    Fed r f o ((r.drop f.objectId.toNat).retire f.objectId.toNat)
  | goOn (h : r.isRetired f.objectId.toNat = false) (p : Partial) :
    Fed r f .incomplete (r.put f.objectId.toNat p)

section Fed

variable {r q : Reassembler} {f : Fragment} {o : Outcome} {x y : Nat}

theorem drop_of_lookup (h : r.pending.lookup x = none) : r.drop x = r := by
  have hfilter : r.pending.filter (·.1 ≠ x) = r.pending := by
    refine List.filter_eq_self.2 fun a ha => decide_eq_true ?_
    rintro rfl
    exact lookup_eq_none_iff.1 h (List.mem_map_of_mem ha)
  rw [drop, hfilter]

theorem isRetired_of_lookup {p : Partial} (h : r.pending.lookup x = some p) :
    r.isRetired x = false := by
  simp [isRetired, h]

theorem fed_continueWith (h : r.isRetired f.objectId.toNat = false) (p : Partial) :
    Fed r f (r.continueWith f.objectId.toNat p f).1 (r.continueWith f.objectId.toNat p f).2 := by
  unfold continueWith
  split
  · next reason hreason =>
    refine .settle h (decide_eq_true ?_)
    rintro rfl
    exact p.refusal?_ne_alreadyFinalized f r.limit hreason
  · split
    · exact .settle h rfl
    · exact .goOn h _

/-- **Every fragment comes too late, settles its message, or goes on with it.** -/
theorem fed_feed (r : Reassembler) (f : Fragment) : Fed r f (r.feed f).1 (r.feed f).2 := by
  unfold feed
  dsimp only
  split
  · next p hp => exact fed_continueWith (isRetired_of_lookup hp) p
  · next hp =>
    have hlost : r.isRetired f.objectId.toNat = false → ∀ fault : FramingFault,
        fault.reason ≠ .alreadyFinalized → Fed r f (.lost fault) (r.retire f.objectId.toNat) := by
      intro h fault hreason
      have hfed : Fed r f (.lost fault) _ := .settle h (decide_eq_true hreason)
      rwa [drop_of_lookup hp] at hfed
    split
    · next h => exact .late h
    · next h =>
      rw [Bool.not_eq_true] at h
      split
      · exact hlost h _ nofun
      split
      · exact hlost h _ nofun
      · exact fed_continueWith h _

theorem Fed.lookup_of_ne (h : Fed r f o q) (hy : y ≠ f.objectId.toNat) :
    q.pending.lookup y = r.pending.lookup y := by
  cases h with
  | late => rfl
  | settle => rw [pending_retire, lookup_drop, if_neg hy]
  | goOn h p => rw [lookup_put, if_neg hy]

theorem Fed.retiring (h : Fed r f o q) (hr : Ascends r.retiredBelow r.retired) :
    Retiring r.retiredBelow r.retired (q.retiredBelow, q.retired) := by
  cases h with
  | late | goOn => exact .refl hr
  | settle => exact (retiring_retire (r := r.drop _) hr _).2

theorem isRetired_settle (hr : Ascends r.retiredBelow r.retired) (x : Nat) :
    ((r.drop x).retire x).isRetired x = true := by
  refine isRetired_iff.2 ⟨?_, (retiring_retire (r := r.drop x) hr x).1⟩
  rw [pending_retire, lookup_drop, if_pos rfl]

theorem Fed.isRetired (h : Fed r f o q) (hr : Ascends r.retiredBelow r.retired)
    (ho : o ≠ .incomplete) : q.isRetired f.objectId.toNat = true := by
  cases h with
  | late h => exact h
  | settle => exact isRetired_settle hr _
  | goOn => exact absurd rfl ho

/-- What is retired stays retired. -/
theorem Fed.isRetired_of_isRetired (h : Fed r f o q) (hr : Ascends r.retiredBelow r.retired)
    (hx : r.isRetired x = true) : q.isRetired x = true := by
  obtain ⟨hnone, hclosed⟩ := isRetired_iff.1 hx
  by_cases hid : x = f.objectId.toNat
  · subst hid
    cases h with
    | late h => exact h
    | settle h | goOn h => cases hx.symm.trans h
  · exact isRetired_iff.2 ⟨(h.lookup_of_ne hid).trans hnone, (h.retiring hr).covers x hclosed⟩

theorem Fed.isRetired_of_late {fault : FramingFault} (h : Fed r f (.lost fault) q)
    (hlate : fault.reason = .alreadyFinalized) : r.isRetired f.objectId.toNat = true := by
  cases h with
  | late h => exact h
  | settle _ ho => simp [Outcome.retires, hlate] at ho

theorem feed_of_isRetired (h : r.isRetired f.objectId.toNat = true) :
    r.feed f = (.lost ⟨f.objectId.toNat, f.target, .alreadyFinalized⟩, r) := by
  unfold feed
  dsimp only
  rw [(isRetired_iff.1 h).1]
  exact if_pos h

end Fed

/-! ## What some fragments do -/

/-- The numbers that some more fragments retire, as they complete a message or lose it. -/
def retirements (r : Reassembler) (fs : List Fragment) : List Nat :=
  ((r.outcomes fs).filter (·.2.retires)).map (·.1.objectId.toNat)

section Histories

variable {r : Reassembler} {f : Fragment} {fs : List Fragment} {x : Nat}

theorem feedAll_append (r : Reassembler) (fs gs : List Fragment) :
    r.feedAll (fs ++ gs) = (r.feedAll fs).feedAll gs := List.foldl_append

theorem outcomes_append (r : Reassembler) (fs gs : List Fragment) :
    r.outcomes (fs ++ gs) = r.outcomes fs ++ (r.feedAll fs).outcomes gs := by
  induction fs generalizing r with
  | nil => rfl
  | cons f fs ih => exact congrArg (_ :: ·) (ih _)

theorem retirements_concat (r : Reassembler) (fs : List Fragment) (f : Fragment) :
    r.retirements (fs ++ [f]) = r.retirements fs ++
      if ((r.feedAll fs).feed f).1.retires then [f.objectId.toNat] else [] := by
  rw [retirements, outcomes_append, List.filter_append, List.map_append]
  cases h : ((r.feedAll fs).feed f).1.retires <;> simp [outcomes, retirements, h]

theorem map_fst_outcomes (r : Reassembler) (fs : List Fragment) :
    (r.outcomes fs).map (·.1) = fs := by
  induction fs generalizing r with
  | nil => rfl
  | cons f fs ih => exact congrArg (f :: ·) (ih _)

theorem ofObject_ne_nil_of_mem_retirements (h : x ∈ r.retirements fs) : ofObject x fs ≠ [] := by
  obtain ⟨⟨f, o⟩, ho, rfl⟩ := List.mem_map.1 h
  have hf : f ∈ fs := map_fst_outcomes r fs ▸ List.mem_map_of_mem (List.mem_filter.1 ho).1
  exact List.ne_nil_of_mem (List.mem_filter.2 ⟨hf, decide_eq_true rfl⟩)

theorem lookup_feedAll_of_ofObject_eq_nil (h : ofObject x fs = []) :
    (r.feedAll fs).pending.lookup x = r.pending.lookup x := by
  induction fs generalizing r with
  | nil => rfl
  | cons f fs ih =>
    rw [ofObject_cons] at h
    split at h
    · cases h
    · next hx => exact (ih h).trans ((fed_feed r f).lookup_of_ne (Ne.symm hx))

theorem completions_eq (r : Reassembler) (fs : List Fragment) :
    r.completions fs =
      (r.outcomes fs).filterMap fun a => a.2.body?.map (a.1.objectId.toNat, ·) := by
  induction fs generalizing r with
  | nil => rfl
  | cons f fs ih =>
    rw [completions, outcomes, List.filterMap_cons, ih]
    cases (r.feed f).1.body? <;> rfl

end Histories

/-! ## What a receiver remembers -/

/-- What a receiver knows of the numbers that were retired by fragments: they are all retired, and
no others but those that lie below too many of them. -/
structure Remembers (r : Reassembler) (done : List Nat) : Prop
    extends Ascends r.retiredBelow r.retired, Warranted r.retiredBelow r.retired done where
  nodup : done.Nodup
  isRetired : ∀ x ∈ done, r.isRetired x = true
  length_le : r.retired.length ≤ maxRetiredSpan

section Remembers

variable {r q : Reassembler} {done : List Nat} {f : Fragment} {fs : List Fragment} {o : Outcome}
  {x : Nat}

theorem remembers_new (limit : Nat) : (new limit).Remembers [] where
  pairwise := .nil
  le _ h := by cases h
  retired _ h := by cases h
  below _ h := by cases h
  nodup := .nil
  isRetired _ h := by cases h
  length_le := Nat.zero_le _

theorem Remembers.fed (h : r.Remembers done) (hf : Fed r f o q) :
    q.Remembers (done ++ if o.retires then [f.objectId.toNat] else []) := by
  have hnext : Ascends q.retiredBelow q.retired := (hf.retiring h.toAscends).toAscends
  have hstill : ∀ x ∈ done, q.isRetired x = true := fun x hx =>
    hf.isRetired_of_isRetired h.toAscends (h.isRetired x hx)
  cases hf with
  | late | goOn =>
    rw [if_neg (by simp [Outcome.retires]), List.append_nil]
    exact { hnext with
      retired := h.retired, below := h.below, nodup := h.nodup, isRetired := hstill,
      length_le := h.length_le }
  | settle hfree ho =>
    have hwarrant := Warranted.retire (r := r.drop f.objectId.toNat) h.toWarranted h.pairwise
      f.objectId.toNat
    have hdone : r.Fed f o ((r.drop f.objectId.toNat).retire f.objectId.toNat) := .settle hfree ho
    rw [if_pos ho]
    exact { hnext, hwarrant with
      nodup := by
        refine List.nodup_append.2 ⟨h.nodup, List.nodup_singleton _, fun x hx y hy => ?_⟩
        rw [List.mem_singleton.1 hy]
        rintro rfl
        cases (h.isRetired _ hx).symm.trans hfree
      isRetired := fun x hx => by
        rcases List.mem_append.1 hx with hx | hx
        · exact hstill x hx
        · rw [List.mem_singleton.1 hx]
          exact hdone.isRetired h.toAscends fun hne => by rw [hne] at ho; cases ho
      length_le := length_retired_retire_le (r := r.drop _) h.length_le _ }

/-- **Every fragment keeps what a receiver remembers.** -/
theorem Remembers.feed (h : r.Remembers done) (f : Fragment) :
    (r.feed f).2.Remembers
      (done ++ if (r.feed f).1.retires then [f.objectId.toNat] else []) :=
  h.fed (fed_feed r f)

theorem remembers_feedAll (limit : Nat) (fs : List Fragment) :
    ((new limit).feedAll fs).Remembers ((new limit).retirements fs) := by
  induction fs using List.reverseRecOn with
  | nil => exact remembers_new limit
  | append_singleton fs f ih =>
    rw [feedAll_append, retirements_concat]
    exact ih.feed f

theorem Remembers.isRetired_feedAll (h : r.Remembers done) (hx : r.isRetired x = true)
    (fs : List Fragment) : (r.feedAll fs).isRetired x = true := by
  induction fs generalizing r done with
  | nil => exact hx
  | cons f fs ih => exact ih (h.feed f) ((fed_feed r f).isRetired_of_isRetired h.toAscends hx)

/-- **A number that is not pending and was retired by no fragment is retired just when it lies below
too many that were.** -/
theorem Remembers.isRetired_iff_of_not_mem (h : r.Remembers done) (hx : x ∉ done)
    (hp : r.pending.lookup x = none) :
    r.isRetired x = true ↔ maxRetiredSpan < (done.filter (x < ·)).length := by
  constructor
  · intro hr
    rcases (isRetired_iff.1 hr).2 with hlt | hmem
    · exact (h.below x hlt).resolve_left hx
    · exact absurd (h.retired x hmem) hx
  · refine fun hmany => isRetired_iff.2 ⟨hp, .inl ?_⟩
    by_contra hle
    rw [Nat.not_lt] at hle
    -- the larger ones would all be in the list, which is too short for them
    have hsubset : done.filter (x < ·) ⊆ r.retired := by
      intro y hy
      obtain ⟨hy, hlt⟩ := List.mem_filter.1 hy
      have hlt : x < y := of_decide_eq_true hlt
      rcases (isRetired_iff.1 (h.isRetired y hy)).2 with hbelow | hmem
      · exact absurd hbelow (Nat.not_lt.2 (Nat.le_trans hle (Nat.le_of_lt hlt)))
      · exact hmem
    have hcount := (List.subperm_of_subset (h.nodup.filter _) hsubset).length_le
    exact absurd (Nat.le_trans hcount h.length_le) (Nat.not_le.2 hmany)

theorem isRetired_eq_false_of_lt (limit : Nat) (hx : ∀ f ∈ fs, f.objectId.toNat < x) :
    ((new limit).feedAll fs).isRetired x = false := by
  have hlt : ∀ y, ofObject y fs ≠ [] → y < x := by
    intro y hy
    obtain ⟨f, hf⟩ := List.exists_mem_of_ne_nil _ hy
    obtain ⟨hmem, hid⟩ := List.mem_filter.1 hf
    exact of_decide_eq_true hid ▸ hx f hmem
  have hnew : ofObject x fs = [] :=
    Decidable.byContradiction fun hne => Nat.lt_irrefl x (hlt x hne)
  have hlarger : ((new limit).retirements fs).filter (x < ·) = [] := by
    refine List.filter_eq_nil_iff.2 fun y hy => ?_
    simpa using Nat.le_of_lt (hlt y (ofObject_ne_nil_of_mem_retirements hy))
  have hiff := (remembers_feedAll limit fs).isRetired_iff_of_not_mem
    (fun hmem => ofObject_ne_nil_of_mem_retirements hmem hnew)
    (lookup_feedAll_of_ofObject_eq_nil hnew)
  rw [← Bool.not_eq_true, hiff, hlarger]
  exact Nat.not_lt_zero _

/-- If messages begin in order, each that has begun is pending or was settled by a fragment of
its own. -/
theorem settled_or_pending (limit : Nat) (hfs : BeginInOrder fs) (hx : ofObject x fs ≠ []) :
    x ∈ (new limit).retirements fs ∨ ((new limit).feedAll fs).pending.lookup x ≠ none := by
  induction fs using List.reverseRecOn with
  | nil => exact absurd rfl hx
  | append_singleton fs f ih =>
    obtain ⟨hfs, hlast⟩ := beginInOrder_concat.1 hfs
    have hfed := fed_feed ((new limit).feedAll fs) f
    rw [retirements_concat, feedAll_append]
    change _ ∨ (((new limit).feedAll fs).feed f).2.pending.lookup x ≠ none
    generalize ((new limit).feedAll fs).feed f = done at hfed ⊢
    obtain ⟨o, q⟩ := done
    by_cases hid : x = f.objectId.toNat
    · subst hid
      cases hfed with
      | late h =>
        have hbegun : ofObject f.objectId.toNat fs ≠ [] := fun hnil => by
          cases h.symm.trans (isRetired_eq_false_of_lt limit (hlast hnil))
        have hsettled := (ih hfs hbegun).resolve_right fun hp => hp (isRetired_iff.1 h).1
        exact .inl (List.mem_append_left _ hsettled)
      | settle h ho => exact .inl (by simp [ho])
      | goOn h p =>
        refine .inr fun hnone => ?_
        cases ((lookup_put _ _ _ p).trans (if_pos rfl)).symm.trans hnone
    · have hbegun : ofObject x fs ≠ [] := by rwa [ofObject_concat, if_neg (Ne.symm hid)] at hx
      rcases ih hfs hbegun with hmem | hp
      · exact .inl (List.mem_append_left _ hmem)
      · exact .inr (by rwa [hfed.lookup_of_ne hid])

theorem Remembers.outcomes_of_isRetired {a : Fragment × Outcome} (h : r.Remembers done)
    (hx : r.isRetired a.1.objectId.toNat = true) (ha : a ∈ r.outcomes fs) :
    a.2 = .lost ⟨a.1.objectId.toNat, a.1.target, .alreadyFinalized⟩ := by
  induction fs generalizing r done with
  | nil => cases ha
  | cons f fs ih =>
    rcases List.mem_cons.1 ha with rfl | ha
    · exact congrArg Prod.fst (feed_of_isRetired hx)
    · exact ih (h.feed f) ((fed_feed r f).isRetired_of_isRetired h.toAscends hx) ha

/-- Whatever settles a message, what comes after it comes too late. -/
theorem Remembers.pairwise_outcomes (h : r.Remembers done) (fs : List Fragment) :
    (r.outcomes fs).Pairwise fun a b => a.1.objectId = b.1.objectId → a.2 ≠ .incomplete →
      b.2 = .lost ⟨b.1.objectId.toNat, b.1.target, .alreadyFinalized⟩ := by
  induction fs generalizing r done with
  | nil => exact .nil
  | cons f fs ih =>
    refine List.pairwise_cons.2 ⟨fun b hb hid hsettled => ?_, ih (h.feed f)⟩
    have hretired := (fed_feed r f).isRetired h.toAscends hsettled
    exact (h.feed f).outcomes_of_isRetired (hid ▸ hretired) hb

end Remembers

/-! ## Any fragments -/

/-- **Retirement is for good.** Whatever was fed before:

A fragment after which its message does not go on leaves the message's number retired and not
pending; and no fragment changes the partial message of another number. A retired number stays
retired, whatever is fed later, and a fragment of it changes nothing and is refused for this reason,
with its own addressee. So nothing but such refusals follows the completion or the loss of a message,
and no message is completed twice. -/
theorem retired_of_feedAll (limit : Nat) (fs : List Fragment) :
    let start := new limit
    let r := start.feedAll fs
    (∀ f, (r.feed f).1 ≠ .incomplete →
      (r.feed f).2.pending.lookup f.objectId.toNat = none ∧
        (r.feed f).2.isRetired f.objectId.toNat = true) ∧
      (∀ f y, y ≠ f.objectId.toNat →
        (r.feed f).2.pending.lookup y = r.pending.lookup y) ∧
      (∀ x, r.isRetired x = true → ∀ gs, (r.feedAll gs).isRetired x = true ∧
        ∀ f, f.objectId.toNat = x →
          (r.feedAll gs).feed f = (.lost ⟨x, f.target, .alreadyFinalized⟩, r.feedAll gs)) ∧
      (start.outcomes fs).Pairwise (fun a b => a.1.objectId = b.1.objectId → a.2 ≠ .incomplete →
        b.2 = .lost ⟨b.1.objectId.toNat, b.1.target, .alreadyFinalized⟩) ∧
      ((start.completions fs).map (·.1)).Nodup := by
  intro start r
  have h : r.Remembers (start.retirements fs) := remembers_feedAll limit fs
  have hpairwise := (remembers_new limit).pairwise_outcomes fs
  refine ⟨fun f hsettled => ?_, fun f y => (fed_feed r f).lookup_of_ne, fun x hx gs => ?_,
    hpairwise, ?_⟩
  · have hretired := (fed_feed r f).isRetired h.toAscends hsettled
    exact ⟨(isRetired_iff.1 hretired).1, hretired⟩
  · have hlater := h.isRetired_feedAll hx gs
    refine ⟨hlater, ?_⟩
    rintro f rfl
    exact feed_of_isRetired hlater
  · -- two messages of one number would be a message after a message
    rw [completions_eq]
    refine List.Pairwise.map _ (fun _ _ h => h) (hpairwise.filterMap _ ?_)
    rintro ⟨f, o⟩ ⟨g, o'⟩ hlate a ha b hb hid
    obtain ⟨body, hbody, rfl⟩ := Option.map_eq_some_iff.1 ha
    obtain ⟨body', hbody', rfl⟩ := Option.map_eq_some_iff.1 hb
    have hlost := hlate (UInt64.toNat_inj.1 hid) fun hne => by cases hne.symm ▸ hbody
    cases hlost.symm ▸ hbody'

/-- A message that is lost by a gap stays lost, whoever its next fragment is for, and the one that it
crossed goes on. -/
theorem retired_of_feedAll_gap :
    let first : Fragment := ⟨7, 0, .pool, false, [1]⟩
    let other : Fragment := ⟨9, 0, .pool, false, [5]⟩
    let gap : Fragment := ⟨7, 2, .pool, true, [3]⟩
    let again : Fragment := ⟨7, 0, Target.ofRaw 4, true, []⟩
    let r := (new 3).feedAll [first, other, gap]
    (r.feedAll [other]).feed again =
        (.lost ⟨7, Target.ofRaw 4, .alreadyFinalized⟩, r.feedAll [other]) ∧
      r.pending.lookup 9 = ((new 3).feedAll [first, other]).pending.lookup 9 := by
  intro first other gap again r
  have hgap := retired_of_feedAll 3 [first, other]
  have hretired : r.isRetired 7 = true := (hgap.1 gap nofun).2
  exact ⟨((retired_of_feedAll 3 [first, other, gap]).2.2.1 7 hretired [other]).2 again rfl,
    hgap.2.1 gap 9 (by decide)⟩

/-- **No number is retired unseen without cause.** Whatever was fed:

A number of which nothing has come is retired just when more than `maxRetiredSpan` larger ones were,
each by a fragment that completed its message or lost it; so one that is larger than all that have
come is not. If messages begin in the order of their numbers, then, however their fragments cross, a
fragment is refused as too late only after another one has completed or lost its message; so the first
one of a message never is. -/
theorem unseen_of_feedAll (limit : Nat) (fs : List Fragment) :
    let start := new limit
    let r := start.feedAll fs
    (start.retirements fs).Nodup ∧
      (∀ x, ofObject x fs = [] →
        (r.isRetired x = true ↔
          maxRetiredSpan < ((start.retirements fs).filter (x < ·)).length)) ∧
      (∀ x, (∀ f ∈ fs, f.objectId.toNat < x) → r.isRetired x = false) ∧
      (BeginInOrder fs → ∀ before f after, fs = before ++ f :: after →
        ∀ fault, ((start.feedAll before).feed f).1 = .lost fault →
          fault.reason = .alreadyFinalized → f.objectId.toNat ∈ start.retirements before) := by
  intro start r
  have h : r.Remembers (start.retirements fs) := remembers_feedAll limit fs
  refine ⟨h.nodup, fun x hx => ?_, fun x => isRetired_eq_false_of_lt limit, ?_⟩
  · exact h.isRetired_iff_of_not_mem (fun hmem => ofObject_ne_nil_of_mem_retirements hmem hx)
      (lookup_feedAll_of_ofObject_eq_nil hx)
  · rintro hfs before f after rfl fault hlost hlate
    rw [List.append_cons] at hfs
    obtain ⟨hbefore, hlast⟩ := beginInOrder_concat.1 hfs.of_append
    have hfed := fed_feed (start.feedAll before) f
    rw [hlost] at hfed
    have hretired := hfed.isRetired_of_late hlate
    have hbegun : ofObject f.objectId.toNat before ≠ [] := fun hnil => by
      cases hretired.symm.trans (isRetired_eq_false_of_lt limit (hlast hnil))
    exact (settled_or_pending limit hbefore hbegun).resolve_right fun hp =>
      hp (isRetired_iff.1 hretired).1

/-- Of three messages that cross, the first is lost; only what comes of it afterwards is too late,
and no number without a fragment is retired. -/
theorem unseen_of_feedAll_crossing :
    let before : List Fragment := [⟨5, 0, .pool, false, [1]⟩, ⟨8, 0, .pool, true, [2]⟩,
      ⟨5, 2, .pool, false, [3]⟩, ⟨9, 0, .pool, false, [4]⟩]
    let late : Fragment := ⟨5, 1, .pool, true, []⟩
    BeginInOrder (before ++ [late]) ∧
      ((new 3).feedAll before).feed late =
        (.lost ⟨5, .pool, .alreadyFinalized⟩, (new 3).feedAll before) ∧
      5 ∈ (new 3).retirements before ∧ ((new 3).feedAll (before ++ [late])).isRetired 6 ≠ true ∧
      ((new 3).feedAll (before ++ [late])).isRetired 10 = false := by
  intro before late
  have hfs : BeginInOrder (before ++ [late]) := by
    have hnil : BeginInOrder [] := fun earlier f later h => by simp at h
    have hstep := fun fs f => (@beginInOrder_concat fs f).2
    exact hstep before late ⟨hstep (before.take 3) _ ⟨hstep (before.take 2) _
      ⟨hstep (before.take 1) _ ⟨hstep [] _ ⟨hnil, by decide⟩, by decide⟩, by decide⟩, by decide⟩,
      by decide⟩
  have hlate : ((new 3).feedAll before).feed late =
      (.lost ⟨5, .pool, .alreadyFinalized⟩, (new 3).feedAll before) := rfl
  obtain ⟨-, hiff, hlarger, hsettled⟩ := unseen_of_feedAll 3 (before ++ [late])
  refine ⟨hfs, hlate, hsettled hfs before late [] rfl _ (congrArg Prod.fst hlate) rfl, ?_,
    hlarger 10 (by decide)⟩
  rw [ne_eq, hiff 6 (by decide)]
  decide

end Reassembler

end Runspace
