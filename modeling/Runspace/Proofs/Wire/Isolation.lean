import Runspace.Proofs.Wire.Retirement

/-!
# Isolation — messages do not disturb each other

Whatever comes of other messages, well-formed or not, a receiver treats the fragments of one message
as if nothing else had come, provided that two windows are kept when the message begins: fewer than
`maxPendingObjects` others are pending, and at most `maxRetiredSpan` larger numbers were retired.

* `Reassembler.Alike`: two receivers have the message of one number in the same state;
* **`Alike.feed`**: they do the same with a fragment of it; `Alike.feed_of_ne`: neither need see the
  fragments of other messages;
* **`outcomes_isolated`**: what a message's fragments do among others is what they do alone.
-/

namespace Runspace.Reassembler

/-- Something has come of a number: it is pending or retired. -/
def Begun (r : Reassembler) (x : Nat) : Prop := r.pending.lookup x = none → r.isRetired x = true

/-- Two receivers have the message of one number in the same state. -/
structure Alike (x : Nat) (r q : Reassembler) : Prop where
  left : Ascends r.retiredBelow r.retired
  right : Ascends q.retiredBelow q.retired
  limit : r.limit = q.limit
  lookup : r.pending.lookup x = q.pending.lookup x
  isRetired : r.isRetired x = q.isRetired x

section Alike

variable {r q : Reassembler} {f : Fragment} {fs : List Fragment} {x : Nat}

/-! ## What has begun -/

theorem begun_feed (hr : Ascends r.retiredBelow r.retired) (f : Fragment) :
    (r.feed f).2.Begun f.objectId.toNat := by
  have hfed := fed_feed r f
  generalize r.feed f = done at hfed ⊢
  obtain ⟨o, next⟩ := done
  intro hnone
  cases hfed with
  | late h => exact h
  | settle => exact isRetired_settle hr _
  | goOn h p => cases ((lookup_put _ _ _ p).trans (if_pos rfl)).symm.trans hnone

theorem Begun.feed_of_ne (h : r.Begun x) (hr : Ascends r.retiredBelow r.retired)
    (hx : x ≠ f.objectId.toNat) : (r.feed f).2.Begun x := fun hnone =>
  (fed_feed r f).isRetired_of_isRetired hr (h (((fed_feed r f).lookup_of_ne hx).symm.trans hnone))

/-! ## Two receivers -/

theorem Alike.settle (h : Alike x r q) :
    Alike x ((r.drop x).retire x) ((q.drop x).retire x) where
  left := (retiring_retire (r := r.drop x) h.left x).2.toAscends
  right := (retiring_retire (r := q.drop x) h.right x).2.toAscends
  limit := by
    rw [limit_retire, limit_retire]
    exact h.limit
  lookup := by rw [pending_retire, pending_retire, lookup_drop, lookup_drop, if_pos rfl, if_pos rfl]
  isRetired := (isRetired_settle h.left x).trans (isRetired_settle h.right x).symm

theorem Alike.put (h : Alike x r q) (p : Partial) : Alike x (r.put x p) (q.put x p) where
  left := h.left
  right := h.right
  limit := h.limit
  lookup := by rw [lookup_put, lookup_put, if_pos rfl, if_pos rfl]
  isRetired := by simp [Reassembler.isRetired, lookup_put]

theorem Alike.continueWith (h : Alike x r q) (p : Partial) (f : Fragment) :
    (r.continueWith x p f).1 = (q.continueWith x p f).1 ∧
      Alike x (r.continueWith x p f).2 (q.continueWith x p f).2 := by
  unfold Reassembler.continueWith
  rw [h.limit]
  split
  · exact ⟨rfl, h.settle⟩
  split
  · exact ⟨rfl, h.settle⟩
  · exact ⟨rfl, h.put _⟩

/-- **Two receivers that have a message in the same state do the same with a fragment of it,** if it
has begun or both have room for it. -/
theorem Alike.feed (h : Alike f.objectId.toNat r q)
    (hroom : r.Begun f.objectId.toNat ∨
      r.pendingObjects < maxPendingObjects ∧ q.pendingObjects < maxPendingObjects) :
    (r.feed f).1 = (q.feed f).1 ∧ Alike f.objectId.toNat (r.feed f).2 (q.feed f).2 := by
  unfold Reassembler.feed
  dsimp only
  cases hlookup : q.pending.lookup f.objectId.toNat with
  | some p =>
    rw [h.lookup.trans hlookup]
    exact h.continueWith p f
  | none =>
    have hnone := h.lookup.trans hlookup
    rw [hnone, h.isRetired]
    dsimp only
    split
    · exact ⟨rfl, h⟩
    · next hfree =>
      -- nothing has come of it, so that both have room, and neither has anything to drop
      obtain ⟨hleft, hright⟩ := hroom.resolve_left fun hb =>
        hfree (h.isRetired.symm.trans (hb hnone))
      have hsettle := h.settle
      rw [drop_of_lookup hnone, drop_of_lookup hlookup] at hsettle
      rw [if_neg (Nat.not_le.2 hleft), if_neg (Nat.not_le.2 hright)]
      split
      · exact ⟨rfl, hsettle⟩
      · exact h.continueWith _ f

/-- A message that has begun is left as it is by the fragments of others. -/
theorem Alike.feed_of_ne (h : Alike x r q) (hb : r.Begun x) (hx : x ≠ f.objectId.toNat) :
    Alike x (r.feed f).2 q where
  left := ((fed_feed r f).retiring h.left).toAscends
  right := h.right
  limit := (limit_feed r f).trans h.limit
  lookup := ((fed_feed r f).lookup_of_ne hx).trans h.lookup
  isRetired := by
    refine Eq.trans ?_ h.isRetired
    cases hlookup : r.pending.lookup x with
    | some p =>
      rw [isRetired_of_lookup hlookup,
        isRetired_of_lookup (((fed_feed r f).lookup_of_ne hx).trans hlookup)]
    | none =>
      rw [hb hlookup]
      exact (fed_feed r f).isRetired_of_isRetired h.left (hb hlookup)

theorem Alike.outcomes (h : Alike x r q) (hb : r.Begun x) (fs : List Fragment) :
    (r.outcomes fs).filter (·.1.objectId.toNat = x) = q.outcomes (ofObject x fs) := by
  -- the second receiver moves on only with the fragments that both get
  induction fs generalizing r q with
  | nil => rfl
  | cons f fs ih =>
    rw [Reassembler.outcomes, List.filter_cons, ofObject_cons]
    by_cases hx : f.objectId.toNat = x
    · subst hx
      obtain ⟨hsame, hnext⟩ := h.feed (.inl hb)
      rw [if_pos rfl, if_pos (decide_eq_true rfl), Reassembler.outcomes, hsame,
        ih hnext (begun_feed h.left f)]
    · rw [if_neg hx, if_neg (by simpa using hx)]
      exact ih (h.feed_of_ne hb (Ne.symm hx)) (hb.feed_of_ne h.left (Ne.symm hx))

end Alike

/-- A number of which nothing has come, and that lies below few retired ones, is as good as new. -/
theorem alike_new {limit x : Nat} {fs : List Fragment} (hx : ofObject x fs = [])
    (hspan : (((new limit).retirements fs).filter (x < ·)).length ≤ maxRetiredSpan) :
    Alike x ((new limit).feedAll fs) (new limit) := by
  have h := remembers_feedAll limit fs
  have hnone := lookup_feedAll_of_ofObject_eq_nil (r := new limit) hx
  have hnew : x ∉ (new limit).retirements fs := fun hmem =>
    ofObject_ne_nil_of_mem_retirements hmem hx
  refine ⟨h.toAscends, (remembers_new limit).toAscends, limit_feedAll _ _, hnone, ?_⟩
  rw [Bool.eq_false_iff.2 fun hr => Nat.not_lt.2 hspan ((h.isRetired_iff_of_not_mem hnew hnone).1 hr)]
  rfl

/-- **Messages are isolated.** Some fragments are fed to a new receiver, well-formed or not. When the
first fragment of some number comes, fewer than `maxPendingObjects` messages are pending and at most
`maxRetiredSpan` larger numbers were retired. Then all the fragments of this number do, one by one,
what they do when they alone are fed to a new receiver with the same limit: their message goes on, is
complete with the same body, or is lost for the same reason with the same addressee. -/
theorem outcomes_isolated {limit : Nat} {before after : List Fragment} {f : Fragment}
    (hfirst : ofObject f.objectId.toNat before = [])
    (hroom : ((new limit).feedAll before).pendingObjects < maxPendingObjects)
    (hspan : (((new limit).retirements before).filter (f.objectId.toNat < ·)).length ≤
      maxRetiredSpan) :
    ((new limit).outcomes (before ++ f :: after)).filter (·.1.objectId = f.objectId) =
      (new limit).outcomes ((before ++ f :: after).filter (·.objectId = f.objectId)) := by
  have hnone : ((new limit).outcomes before).filter (·.1.objectId.toNat = f.objectId.toNat) = [] := by
    rw [ofObject, ← map_fst_outcomes (new limit) before, List.filter_map, List.map_eq_nil_iff] at hfirst
    exact hfirst
  -- the first fragment finds the number as good as new, and from then on it has begun
  have halike := alike_new hfirst hspan
  obtain ⟨hsame, hnext⟩ := halike.feed (.inr ⟨hroom, Nat.zero_lt_succ _⟩)
  have hrest := hnext.outcomes (begun_feed halike.left f) after
  simp only [← UInt64.toNat_inj]
  change _ = (new limit).outcomes (ofObject _ _)
  rw [outcomes_append, List.filter_append, hnone, List.nil_append, ofObject_append_cons rfl, hfirst,
    List.nil_append, outcomes, List.filter_cons, if_pos (decide_eq_true rfl), hrest, outcomes, hsame]

/-- Between a loss, a whole message and fragments without a beginning, a message goes on and is lost
by a repeated fragment, as it is alone. -/
theorem outcomes_isolated_repeat :
    let before : List Fragment := [⟨9, 3, .pool, false, [1]⟩, ⟨4, 0, .pool, true, [2]⟩]
    let f : Fragment := ⟨7, 0, .pool, false, [3]⟩
    let after : List Fragment := [⟨9, 0, .pool, true, []⟩, ⟨7, 1, .pool, false, [4]⟩,
      ⟨8, 1, .pool, true, []⟩, ⟨7, 1, .pool, true, [5]⟩, ⟨7, 2, .pool, true, [6]⟩]
    (((new 3).outcomes (before ++ f :: after)).filter (·.1.objectId = 7)).map (·.2) =
      [.incomplete, .incomplete, .lost ⟨7, .pool, .outOfOrder 2 1⟩,
        .lost ⟨7, .pool, .alreadyFinalized⟩] := by
  intro before f after
  have halone := @outcomes_isolated 3 before after f (by decide) (by decide) (by decide)
  exact congrArg (List.map (·.2)) halone

end Runspace.Reassembler
