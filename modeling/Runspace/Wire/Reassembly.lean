import Runspace.Wire.Fragment

/-!
# Reassembly — messages out of interleaved fragments

A receiver gathers the fragments of each message under the message's number, so that messages may
interleave. A number goes from unseen to pending to retired, and a retired number never starts
another message:

    unseen ── fragment 0 ──> pending ── end, or a fault ──> retired

Retired numbers are kept as a watermark, below which every number that is not pending is retired,
and a bounded ascending list above it. When the list outgrows its bound its lowest number becomes
the watermark, and the numbers that are skipped over count as retired too.

* `Reassembler.feed`: takes one fragment and says whether its message goes on, is complete, or is
  lost; only that message is affected;
* `FramingFault`: which message was lost, to whom it was addressed, and why;
* `Reassembler.isRetired`, `Reassembler.retire`.
-/

namespace Runspace

/-! ## Limits and faults -/

/-- The number of messages that one receiver holds partially received. -/
def maxPendingObjects : Nat := 1024

/-- The number of retired numbers that are kept one by one. -/
def maxRetiredSpan : Nat := 4096

/-- Why a fragment was refused. -/
inductive FramingReason where
  | missingStart (got : Nat)
  | gap (expected got : Nat)
  | outOfOrder (expected got : Nat)
  | alreadyFinalized
  | targetChanged (expected got : Target)
  | tooLarge (limit : Nat)
  | tooManyPending (limit : Nat)
deriving DecidableEq

/-- The text of a reason for refusing a fragment. -/
def FramingReason.message : FramingReason → String
  | .missingStart got => s!"message started at fragment {got} instead of 0"
  | .gap expected got => s!"expected fragment {expected}, got {got}"
  | .outOfOrder expected got =>
    s!"duplicate or out-of-order fragment {got}, expected {expected}"
  | .alreadyFinalized => "object id already finalized"
  | .targetChanged expected got =>
    "fragment for " ++ got.describe ++ " continues a message for " ++ expected.describe
  | .tooLarge limit => s!"message exceeds {limit} bytes"
  | .tooManyPending limit => s!"more than {limit} messages pending"

/-- The loss of one message. -/
structure FramingFault where
  objectId : Nat
  target : Target
  reason : FramingReason
deriving DecidableEq

/-- The text of a framing fault. -/
def FramingFault.message (e : FramingFault) : String :=
  s!"object {e.objectId}: " ++ e.reason.message

/-! ## Partial messages -/

/-- A message of which some fragments have arrived. -/
structure Partial where
  target : Target
  next : Nat
  /-- The payloads so far, latest first. -/
  pieces : List Bytes
  size : Nat
  size_eq : size = pieces.flatten.length

namespace Partial

/-- The payloads so far, in order. -/
def body (p : Partial) : Bytes := p.pieces.reverse.flatten

/-- A message of which nothing has arrived yet. -/
def start (target : Target) : Partial := ⟨target, 0, [], 0, rfl⟩

/-- Why a fragment does not continue a message: its target is looked at first, then its place,
then its size. -/
def refusal? (p : Partial) (f : Fragment) (limit : Nat) : Option FramingReason :=
  if p.target ≠ f.target then some (.targetChanged p.target f.target)
  else if f.fragmentId.toNat < p.next then some (.outOfOrder p.next f.fragmentId.toNat)
  else if p.next < f.fragmentId.toNat then some (.gap p.next f.fragmentId.toNat)
  else if limit < p.size + f.payload.length then some (.tooLarge limit)
  else none

/-- The message after a fragment that continues it. -/
def append (p : Partial) (f : Fragment) : Partial where
  target := p.target
  next := p.next + 1
  pieces := f.payload :: p.pieces
  size := p.size + f.payload.length
  size_eq := by
    rw [List.flatten_cons, List.length_append, ← p.size_eq]
    exact Nat.add_comm _ _

@[simp] theorem body_start (target : Target) : (start target).body = [] := rfl

@[simp] theorem body_append (p : Partial) (f : Fragment) :
    (p.append f).body = p.body ++ f.payload := by
  simp [body, append]

theorem length_body (p : Partial) : p.body.length = p.size := by
  rw [p.size_eq, body]
  generalize p.pieces = pieces
  induction pieces with
  | nil => rfl
  | cons piece rest ih => simp_all [Nat.add_comm]

/-- A fragment goes on with a message if it names its target, comes next and fits. -/
theorem refusal?_eq_none_iff {p : Partial} {f : Fragment} {limit : Nat} :
    p.refusal? f limit = none ↔
      p.target = f.target ∧ f.fragmentId.toNat = p.next ∧ p.size + f.payload.length ≤ limit := by
  unfold refusal?
  split
  · next h => simp [h]
  split
  · next h => simp [Nat.ne_of_lt h]
  split
  · next h => simp [Nat.ne_of_gt h]
  split
  · next h => simp [h]
  · next ht hlt hgt hsize =>
    exact iff_of_true rfl ⟨Decidable.not_not.1 ht, by omega, by omega⟩

end Partial

/-! ## Retired numbers -/

/-- A number put into an ascending list at its place, unless it is there. -/
def insertAscending (id : Nat) : List Nat → List Nat
  | [] => [id]
  | a :: rest =>
    if id < a then id :: a :: rest
    else if id = a then a :: rest
    else a :: insertAscending id rest

/-- Takes the lowest numbers off a list that is too long, and raises the watermark past them. -/
def evict : Nat → List Nat → Nat × List Nat
  | below, [] => (below, [])
  | below, id :: ids =>
    if maxRetiredSpan < (id :: ids).length then evict (id + 1) ids else (below, id :: ids)

/-- Takes the numbers off a list that follow the watermark without a gap, and raises it past
them. -/
def collapse : Nat → List Nat → Nat × List Nat
  | below, [] => (below, [])
  | below, id :: ids => if id = below then collapse (below + 1) ids else (below, id :: ids)

/-! ## The reassembler -/

/-- The receiving side of fragmentation. -/
structure Reassembler where
  pending : List (Nat × Partial) := []
  /-- Every number below this one is retired unless it is pending. -/
  retiredBelow : Nat := 0
  retired : List Nat := []
  limit : Nat

namespace Reassembler

/-- What a fragment did. -/
inductive Outcome where
  | incomplete
  | complete (body : Bytes)
  | lost (fault : FramingFault)

/-- A receiver that has seen nothing. -/
def new (limit : Nat) : Reassembler := { limit }

/-- The number of messages that are partially received. -/
def pendingObjects (r : Reassembler) : Nat := r.pending.length

/-- Whether a number has completed, has failed, or was skipped by the watermark. -/
def isRetired (r : Reassembler) (id : Nat) : Bool :=
  (r.pending.lookup id).isNone && (id < r.retiredBelow || r.retired.contains id)

/-- Retires a number that is not pending. -/
def retire (r : Reassembler) (id : Nat) : Reassembler :=
  if id < r.retiredBelow then r
  else
    let (below, ids) := evict r.retiredBelow (insertAscending id r.retired)
    let (below, ids) := collapse below ids
    { r with retiredBelow := below, retired := ids }

/-- Forgets the partial message of a number. -/
def drop (r : Reassembler) (id : Nat) : Reassembler :=
  { r with pending := r.pending.filter (·.1 ≠ id) }

/-- Sets the partial message of a number. -/
def put (r : Reassembler) (id : Nat) (p : Partial) : Reassembler :=
  { r with pending := (id, p) :: (r.drop id).pending }

/-- Continues the partial message `p` of a number with a fragment. -/
def continueWith (r : Reassembler) (id : Nat) (p : Partial) (f : Fragment) :
    Outcome × Reassembler :=
  match p.refusal? f r.limit with
  | some reason => (.lost ⟨id, p.target, reason⟩, (r.drop id).retire id)
  | none =>
    if f.isEnd then (.complete (p.append f).body, (r.drop id).retire id)
    else (.incomplete, r.put id (p.append f))

/-- Takes one fragment. A number that is neither pending nor retired starts a message, provided
that the fragment is its fragment zero and that not too many messages are pending. -/
def feed (r : Reassembler) (f : Fragment) : Outcome × Reassembler :=
  let id := f.objectId.toNat
  match r.pending.lookup id with
  | some p => r.continueWith id p f
  | none =>
    if r.isRetired id then (.lost ⟨id, f.target, .alreadyFinalized⟩, r)
    else if f.fragmentId ≠ 0 then
      (.lost ⟨id, f.target, .missingStart f.fragmentId.toNat⟩, r.retire id)
    else if maxPendingObjects ≤ r.pendingObjects then
      (.lost ⟨id, f.target, .tooManyPending maxPendingObjects⟩, r.retire id)
    else r.continueWith id (Partial.start f.target) f

end Reassembler

end Runspace
