import Runspace.Proofs.Wire.Chunking
import Runspace.Wire.Reassembly
import Runspace.Wire.Split

/-!
# Delivery — messages that are split are put together again

A sender numbers its messages 0, 1, 2, … and sends the fragments of each without a break, so its
receiver has at most one message pending, and when it has none it has retired just the numbers so
far.

* `splitAll`: the fragments of some message bodies, numbered from a number on;
* `Reassembler.Delivers`: some fragments complete some messages and lose none;
* **`Reassembler.delivers_splitAll`**: the fragments of some messages complete these messages.
-/

namespace Runspace

/-! ## Pieces -/

theorem length_chunks_le {α : Type} (k : Nat) (l : List α) : (chunks k l).length ≤ l.length := by
  fun_induction chunks k l with
  | case1 => exact Nat.le_refl _
  | case2 a rest ih =>
    rw [List.length_drop] at ih
    rw [List.length_cons, List.length_cons]
    omega

/-- The fragments of a message body are its pieces by number: there are some, they make the body
up, and none is larger than the size asked for. -/
theorem splitMessage_eq (objectId : UInt64) (target : Target) (body : Bytes) (size : Nat) :
    ∃ pieces, splitMessage objectId target body size = numberPieces objectId target 0 pieces ∧
      pieces ≠ [] ∧ pieces.flatten = body ∧ pieces.length ≤ max 1 body.length ∧
      ∀ piece ∈ pieces, piece.length ≤ max 1 size := by
  cases body with
  | nil => exact ⟨[[]], rfl, by simp, rfl, Nat.le_refl _, by simp⟩
  | cons b body =>
    refine ⟨chunks size (b :: body), rfl, ?_, flatten_chunks _ _, ?_, fun piece h => ?_⟩
    · rw [chunks]
      exact List.cons_ne_nil _ _
    · exact Nat.le_trans (length_chunks_le _ _) (Nat.le_max_right _ _)
    · exact (length_of_mem_chunks h).2

theorem payload_mem_of_mem_numberPieces {objectId : UInt64} {target : Target} {index : Nat}
    {pieces : List Bytes} {f : Fragment} (h : f ∈ numberPieces objectId target index pieces) :
    f.payload ∈ pieces := by
  induction pieces generalizing index with
  | nil => cases h
  | cons piece pieces ih =>
    rw [numberPieces] at h
    rcases List.mem_cons.1 h with rfl | h
    · exact List.mem_cons_self
    · exact List.mem_cons_of_mem _ (ih h)

/-- The fragments of some message bodies with their targets, numbered from `n` on. -/
def splitAll (size n : Nat) (bodies : List (Target × Bytes)) : List Fragment :=
  (bodies.zipIdx n).flatMap fun b => splitMessage (UInt64.ofNat b.2) b.1.1 b.1.2 size

theorem splitAll_cons (size n : Nat) (b : Target × Bytes) (bodies : List (Target × Bytes)) :
    splitAll size n (b :: bodies) =
      splitMessage (UInt64.ofNat n) b.1 b.2 size ++ splitAll size (n + 1) bodies := by
  rw [splitAll, List.zipIdx_cons, List.flatMap_cons]
  rfl

theorem splitAll_append (size n : Nat) (as bs : List (Target × Bytes)) :
    splitAll size n (as ++ bs) = splitAll size n as ++ splitAll size (n + as.length) bs := by
  rw [splitAll, List.zipIdx_append, List.flatMap_append]
  rfl

theorem payload_le_of_mem_splitAll {size n : Nat} (hsize : size ≤ maxFragmentPayload)
    {bodies : List (Target × Bytes)} {f : Fragment} (h : f ∈ splitAll size n bodies) :
    f.payload.length ≤ maxFragmentPayload := by
  obtain ⟨b, -, hf⟩ := List.mem_flatMap.1 h
  obtain ⟨pieces, heq, -, -, -, hle⟩ := splitMessage_eq (UInt64.ofNat b.2) b.1.1 b.1.2 size
  rw [heq] at hf
  have := hle _ (payload_mem_of_mem_numberPieces hf)
  have : 1 ≤ maxFragmentPayload := by decide
  omega

theorem ends_numberPieces (objectId : UInt64) (target : Target) (index : Nat) {pieces : List Bytes}
    (hne : pieces ≠ []) :
    ((numberPieces objectId target index pieces).filter (·.isEnd)).map (·.objectId) =
      [objectId] := by
  induction pieces generalizing index with
  | nil => exact absurd rfl hne
  | cons piece rest ih =>
    cases rest with
    | nil => rfl
    | cons piece' rest => exact ih (index + 1) (List.cons_ne_nil _ _)

theorem ends_splitAll {size n : Nat} {bodies : List (Target × Bytes)}
    (hn : n + bodies.length ≤ UInt64.size) :
    ((splitAll size n bodies).filter (·.isEnd)).map (·.objectId.toNat) =
      List.range' n bodies.length := by
  induction bodies generalizing n with
  | nil => rfl
  | cons b bodies ih =>
    rw [List.length_cons] at hn
    obtain ⟨pieces, heq, hne, -⟩ := splitMessage_eq (UInt64.ofNat n) b.1 b.2 size
    have hfirst := congrArg (List.map UInt64.toNat)
      (ends_numberPieces (UInt64.ofNat n) b.1 0 hne)
    have hlt : n < UInt64.size := by omega
    have hid : (UInt64.ofNat n).toNat = n := Nat.mod_eq_of_lt hlt
    rw [List.map_map, List.map_singleton, hid] at hfirst
    rw [splitAll_cons, heq, List.filter_append, List.map_append, ih (by omega), List.length_cons,
      List.range'_succ]
    exact congrArg (· ++ _) hfirst

namespace Reassembler

/-! ## Deliveries -/

/-- Some fragments complete these messages and lose none. -/
inductive Delivers : Reassembler → List Fragment → List (Target × Bytes) → Reassembler → Prop where
  | nil (r : Reassembler) : Delivers r [] [] r
  | incomplete {r r₁ r₂ : Reassembler} {f : Fragment} {fs : List Fragment}
    {bodies : List (Target × Bytes)} (h : r.feed f = (.incomplete, r₁))
    (hs : Delivers r₁ fs bodies r₂) : Delivers r (f :: fs) bodies r₂
  | complete {r r₁ r₂ : Reassembler} {f : Fragment} {fs : List Fragment} {body : Bytes}
    {bodies : List (Target × Bytes)} (h : r.feed f = (.complete body, r₁))
    (hs : Delivers r₁ fs bodies r₂) : Delivers r (f :: fs) ((f.target, body) :: bodies) r₂

theorem Delivers.append {r r₁ r₂ : Reassembler} {fs gs : List Fragment}
    {as bs : List (Target × Bytes)} (h : Delivers r fs as r₁) (h' : Delivers r₁ gs bs r₂) :
    Delivers r (fs ++ gs) (as ++ bs) r₂ := by
  induction h with
  | nil => exact h'
  | incomplete h _ ih => exact .incomplete h (ih h')
  | complete h _ ih => exact .complete h (ih h')

/-! ## One message after another -/

/-- A receiver with nothing pending that has retired just the numbers below `n`. -/
def upTo (limit n : Nat) : Reassembler := { retiredBelow := n, limit }

/-- Such a receiver once a message `p` with the number `n` is pending. -/
def holding (limit n : Nat) (p : Partial) : Reassembler :=
  { pending := [(n, p)], retiredBelow := n, limit }

section

variable {limit n : Nat} {p : Partial} {f : Fragment} {r : Reassembler}

theorem retire_upTo : (upTo limit n).retire n = upTo limit (n + 1) := by
  have hevict : evict n [n] = (n, [n]) := by simp [evict, maxRetiredSpan]
  have hcollapse : collapse n [n] = (n + 1, []) := by simp [collapse]
  simp [retire, upTo, insertAscending, hevict, hcollapse]

theorem drop_holding : (holding limit n p).drop n = upTo limit n := by
  simp [drop, holding, upTo]

theorem feed_upTo (hid : f.objectId.toNat = n) (hzero : f.fragmentId = 0) :
    (upTo limit n).feed f = (upTo limit n).continueWith n (Partial.start f.target) f := by
  simp [feed, upTo, hid, hzero, isRetired, pendingObjects, maxPendingObjects]

theorem feed_holding (hid : f.objectId.toNat = n) :
    (holding limit n p).feed f = (holding limit n p).continueWith n p f := by
  simp [feed, holding, hid]

/-- A message that is the only one goes on with a fragment that fits, and retires its number when
it is complete. -/
theorem continueWith_of_drop (hr : r.drop n = upTo limit n) (hf : p.refusal? f limit = none) :
    r.continueWith n p f =
      if f.isEnd then (.complete (p.append f).body, upTo limit (n + 1))
      else (.incomplete, holding limit n (p.append f)) := by
  have hlimit : r.limit = limit := congrArg Reassembler.limit hr
  have hput : r.put n (p.append f) = holding limit n (p.append f) := by
    have : r.put n (p.append f) =
        { r.drop n with pending := (n, p.append f) :: (r.drop n).pending } := rfl
    rw [this, hr]
    rfl
  rw [continueWith, hlimit, hf]
  dsimp only
  rw [hput, hr, retire_upTo]

end

/-- **The pieces of a message complete it,** from whichever of its pieces on. -/
theorem delivers_numberPieces {limit n : Nat} {objectId : UInt64} (hid : objectId.toNat = n)
    {target : Target} {pieces : List Bytes} {p : Partial} {r : Reassembler}
    (hr : r.drop n = upTo limit n)
    (hfeed : ∀ f : Fragment, f.objectId = objectId → f.fragmentId = UInt64.ofNat p.next →
      f.target = target → r.feed f = r.continueWith n p f)
    (ht : p.target = target) (hne : pieces ≠ []) (hindex : p.next + pieces.length ≤ UInt64.size)
    (hsize : p.size + pieces.flatten.length ≤ limit) :
    Delivers r (numberPieces objectId target p.next pieces) [(target, p.body ++ pieces.flatten)]
      (upTo limit (n + 1)) := by
  induction pieces generalizing p r with
  | nil => exact absurd rfl hne
  | cons piece rest ih =>
    rw [List.length_cons] at hindex
    rw [List.flatten_cons, List.length_append] at hsize
    rw [numberPieces, List.flatten_cons, ← List.append_assoc]
    generalize hf : Fragment.mk objectId (UInt64.ofNat p.next) target rest.isEmpty piece = f
    have hlt : p.next < UInt64.size := by omega
    have hnext : p.next = f.fragmentId.toNat := by
      rw [← hf]
      exact (Nat.mod_eq_of_lt hlt).symm
    have hpayload : f.payload = piece := by rw [← hf]
    have hend : f.isEnd = rest.isEmpty := by rw [← hf]
    have htarget : f.target = target := by rw [← hf]
    have hfits : p.refusal? f limit = none :=
      Partial.refusal?_eq_none_iff.2 ⟨ht.trans htarget.symm, hnext.symm, by rw [hpayload]; omega⟩
    have hstep := hfeed f (by rw [← hf]) (by rw [← hf]) htarget
    rw [continueWith_of_drop hr hfits, hend, Partial.body_append, hpayload] at hstep
    cases rest with
    | nil =>
      -- the last piece
      rw [List.flatten_nil, List.append_nil, ← htarget]
      exact .complete hstep (.nil _)
    | cons piece' rest =>
      have hmore := ih (p := p.append f) (r := holding limit n (p.append f)) drop_holding
        (fun g hg _ _ => feed_holding (by rw [hg, hid])) ht (List.cons_ne_nil _ _)
        (by simp only [Partial.append]; omega)
        (by simp only [Partial.append, hpayload]; omega)
      rw [Partial.body_append, hpayload] at hmore
      exact .incomplete hstep hmore

theorem delivers_splitMessage {limit n : Nat} (hn : n < UInt64.size) (hlimit : limit < UInt64.size)
    (target : Target) {body : Bytes} (hbody : body.length ≤ limit) (size : Nat) :
    Delivers (upTo limit n) (splitMessage (UInt64.ofNat n) target body size) [(target, body)]
      (upTo limit (n + 1)) := by
  obtain ⟨pieces, heq, hne, hflat, hlen, -⟩ :=
    splitMessage_eq (UInt64.ofNat n) target body size
  have hid : (UInt64.ofNat n).toNat = n := Nat.mod_eq_of_lt hn
  rw [heq, ← hflat]
  refine delivers_numberPieces (p := Partial.start target) hid rfl ?_ rfl hne ?_ ?_
  · rintro f hobject hfragment rfl
    exact feed_upTo (by rw [hobject, hid]) hfragment
  · simp only [Partial.start]
    omega
  · simp only [Partial.start, hflat]
    omega

/-- **The fragments of some messages complete these messages, in order,** and leave nothing
pending. -/
theorem delivers_splitAll {limit n : Nat} (hlimit : limit < UInt64.size) (size : Nat)
    {bodies : List (Target × Bytes)} (hn : n + bodies.length ≤ UInt64.size)
    (hb : ∀ b ∈ bodies, b.2.length ≤ limit) :
    Delivers (upTo limit n) (splitAll size n bodies) bodies (upTo limit (n + bodies.length)) := by
  induction bodies generalizing n with
  | nil => exact .nil _
  | cons b bodies ih =>
    rw [List.length_cons] at hn ⊢
    have hfirst := delivers_splitMessage (n := n) (by omega) hlimit b.1
      (hb b List.mem_cons_self) size
    have hrest := ih (n := n + 1) (by omega) fun c hc => hb c (List.mem_cons_of_mem _ hc)
    rw [splitAll_cons, show n + (bodies.length + 1) = n + 1 + bodies.length by omega]
    exact hfirst.append hrest

end Reassembler

end Runspace
