import Runspace.Chain
import Runspace.Pool.Admission

/-!
# Batches — chains submitted as one pipeline

* `Pool.submitBatched`: submits the commands of a chain that can be fused on this very pool.
-/

namespace Runspace

/-- Submits a chain as one pipeline if it can be fused and its remote commands run on this pool;
otherwise nothing happens, and the answer is none. -/
def Pool.submitBatched (p : Pool) (chain : Chain) : Pool × Except Fault (Option PipelineId) :=
  match chain.fuse? with
  | some fused =>
    if fused.pool = p.id then
      match p.submit fused.commands with
      | (p, .ok id) => (p, .ok (some id))
      | (p, .error e) => (p, .error e)
    else (p, .ok none)
  | none => (p, .ok none)

end Runspace
