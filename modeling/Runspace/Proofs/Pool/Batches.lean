import Runspace.Proofs.Chain.Fusion
import Runspace.Proofs.Pool.Load
import Runspace.Proofs.Pool.Refusals

/-!
# Batches — a chain submitted as one pipeline

A chain that can be fused on a pool is submitted there like its commands without their classes, and
any other one is left alone. The pipeline that is made of it has all its commands for good, so the
host is asked to run all of them or none, however late it is asked.

* `submitBatched_of_ok`, `pipelines_submit`: a chain as a plain submission, and what that makes;
* `Carries`, **`Carries.run`**: a pipeline keeps its commands;
* **`batches_of_run`**: a chain submitted after any events, and what the host hears of it.
-/

namespace Runspace

namespace Pool

/-! ## A chain as a plain submission -/

section Submission

variable {p q r : Pool} {chain : Chain} {fused : FusedChain} {commands : List Command}
  {old : List Pipeline} {c : Pipeline} {d : Deed} {i : PipelineId}

theorem submitBatched_of_error {reason : Rejection} (h : chain.analyze = .error reason) :
    p.submitBatched chain = (p, .ok none) := by
  rw [submitBatched, Chain.fuse?, h]
  rfl

theorem submitBatched_of_pool_ne (h : chain.analyze = .ok fused) (hpool : fused.pool ≠ p.id) :
    p.submitBatched chain = (p, .ok none) := by
  rw [submitBatched, Chain.fuse?, h]
  exact if_neg hpool

theorem submitBatched_of_ok (h : chain.analyze = .ok fused) (hpool : fused.pool = p.id) :
    p.submitBatched chain =
      ((p.submit fused.commands).1, (p.submit fused.commands).2.map some) := by
  rw [submitBatched, Chain.fuse?, h]
  refine (if_pos hpool).trans ?_
  rcases p.submit fused.commands with ⟨q, f | i⟩ <;> rfl

theorem submit_of_state_ne (hc : commands ≠ []) (hs : p.state ≠ .opened) :
    p.submit commands = (p, .error (.invalidState "create pipeline" p.state.text)) := by
  have hempty : commands.isEmpty = false := by simpa using hc
  have hcreate : p.create commands =
      (p, .error (.invalidState "create pipeline" p.state.text)) := by
    rw [create, hempty, if_neg (by simp), if_pos hs]
  rw [submit, hcreate]

theorem commands_apply (d : Deed) (c : Pipeline) : (d.apply c).commands = c.commands := by
  cases d with
  | refuse | conclude | halt => exact c.commands_finish _ _
  | record _ k v => exact c.commands_push k v
  | _ => rfl

/-- A deed that is about the last pipeline leaves the others alone. -/
theorem Does.pipelines_of_last (h : Does p d q) (hp : p.pipelines = old ++ [c])
    (hold : ∀ b ∈ old, b.id ≠ c.id) (hd : d.subject = some c.id) (hborn : d.born = []) :
    q.pipelines = old ++ [d.apply c] := by
  have hmap : (old.map fun b => if d.subject = some b.id then d.apply b else b) = old := by
    refine (List.map_congr_left fun b hb => if_neg fun hb' => hold b hb ?_).trans old.map_id
    exact Option.some.inj (hb'.symm.trans hd)
  rw [h.pipelines, hp, hborn, List.append_nil, List.map_append, hmap, List.map_singleton, if_pos hd]

theorem Takes.pipelines_of_last (h : p.Takes c.id q) (hp : p.pipelines = old ++ [c])
    (hold : ∀ b ∈ old, b.id ≠ c.id) : ∃ c', q.pipelines = old ++ [c'] ∧ c'.id = c.id ∧
      c'.commands = c.commands ∧ c'.isInvoked = true := by
  obtain ⟨r, hinvoke, hstart⟩ := h
  have hr := hinvoke.pipelines_of_last hp hold rfl rfl
  have hdeed : ∀ d : Deed, Does r d q → d.subject = some c.id → d.born = [] →
      ∃ c', q.pipelines = old ++ [c'] ∧ c'.id = c.id ∧ c'.commands = c.commands ∧
        c'.isInvoked = true := fun d hd hi hborn =>
    ⟨_, hd.pipelines_of_last hr hold hi hborn, d.id_apply _, commands_apply d _,
      isInvoked_apply d rfl⟩
  rcases hstart with h | h | h
  · exact hdeed _ h rfl rfl
  · exact hdeed _ h rfl rfl
  · exact hdeed _ h rfl rfl

/-- With numbers left, an opened pool makes one pipeline of what is submitted, under the next
number. -/
theorem pipelines_submit (hp : Accounted p) (hs : p.state = .opened) (hn : p.nextId < UInt64.size)
    (hc : commands ≠ []) : ∃ c, (p.submit commands).2 = .ok c.id ∧ c.id.raw.toNat = p.nextId ∧
      (p.submit commands).1.pipelines = p.pipelines ++ [c] ∧ c.commands = commands ∧
      c.isInvoked = true := by
  obtain ⟨i, hraw, hcreate⟩ := create_of_opened hn (by have := hp.nextId_eq; omega) hs hc
  have hold : ∀ b ∈ p.pipelines, b.id ≠ i := by
    rintro b hb rfl
    have := hp.toNat_lt_nextId hb
    omega
  generalize hmade : (p.create commands).1 = made
  rw [hcreate] at hmade
  dsimp only at hmade
  have hlast : made.pipelines = p.pipelines ++ [{ id := i, commands }] := by rw [← hmade]
  have hfresh : Fresh made i := by
    have hnone : p.pipelines.find? (·.id = i) = none :=
      List.find?_eq_none.2 fun b hb => by simpa using hold b hb
    refine ⟨{ id := i, commands }, ?_, rfl, rfl, rfl⟩
    rw [pipeline?, hlast, List.find?_append, hnone]
    simp
  have hok := beginInvoke_of_fresh hfresh (by rw [← hmade]; exact hs)
  rcases takes_beginInvoke made i with ⟨f, hf⟩ | ⟨q, hq, htakes⟩
  · rw [hf] at hok
    cases hok
  obtain ⟨c, hpipelines, rfl, hcommands, hmark⟩ := htakes.pipelines_of_last hlast hold
  have hsubmit : p.submit commands = (q, .ok c.id) := by
    rw [submit, hcreate]
    dsimp only
    rw [hmade, hq]
  rw [hsubmit]
  exact ⟨c, rfl, hraw, hpipelines, hcommands, hmark⟩

end Submission

/-! ## Commands of a pipeline -/

/-- A pipeline was made of some commands. -/
def Carries (p : Pool) (i : PipelineId) (commands : List Command) : Prop :=
  ∃ c, p.pipeline? i = some c ∧ c.commands = commands

section Carries

variable {p : Pool} {i : PipelineId} {commands : List Command}

/-- **A pipeline keeps its commands.** -/
theorem Carries.run (h : Carries p i commands) (events : List Event) :
    Carries (p.run events) i commands :=
  lasts_run (fun d c hc => (commands_apply d c).trans hc) h events

theorem Carries.said (h : Carries p i commands) (hp : Accounted p) (ha : Addressed p) :
    (p.said i = [] ∨ ∃ g, p.said i = [(g, .createPipeline commands)] ∨
        p.said i = [(g, .createPipeline commands), (g, .stopPipeline)]) ∧
      (p.stateOf? i = some .running → p.said i = [(p.generation, .createPipeline commands)]) := by
  obtain ⟨c, hc, rfl⟩ := h
  refine ⟨(ha.said_eq hp i).imp_right ?_, fun hs => ?_⟩
  · rintro ⟨b, g, hb, hsaid⟩
    obtain rfl := Option.some.inj (hc.symm.trans hb)
    exact ⟨g, hsaid⟩
  · obtain ⟨hmem, rfl⟩ := pipeline?_eq_some hc
    rw [stateOf?_of_pipeline? hc, Option.some_inj] at hs
    exact (ha.heard c hmem).of_running hs

end Carries

/-! ## Runs -/

/-- **A chain submitted to a pool after any events.**

A chain that cannot be fused, or only on another pool, is not submitted: the pool stays as it is,
with its outbox. Any other one is submitted exactly as its commands in their order are: result, pool
and outbox are the same. So it is refused if the pool is not opened. If it is and has a number left,
one pipeline is made, which is new and has all the commands; whatever comes later, the host is never
asked to run it, or once and with all of them, and it is asked if the pipeline ever runs. -/
theorem batches_of_run (id : PoolId) (options : PoolOptions) (events : List Event) (chain : Chain) :
    let p := (new id options).run events
    let commands := chain.map Link.command
    (∀ reason, chain.analyze = .error reason → p.submitBatched chain = (p, .ok none)) ∧
      ∀ fused, chain.analyze = .ok fused →
        (fused.pool ≠ id → p.submitBatched chain = (p, .ok none)) ∧
        (fused.pool = id →
          p.submitBatched chain = ((p.submit commands).1, (p.submit commands).2.map some) ∧
          (p.state ≠ .opened → p.submitBatched chain =
            (p, .error (.invalidState "create pipeline" p.state.text))) ∧
          (p.state = .opened → p.nextId < UInt64.size → ∃ c,
            (p.submitBatched chain).2 = .ok (some c.id) ∧ p.pipeline? c.id = none ∧
            (p.submitBatched chain).1.pipelines = p.pipelines ++ [c] ∧ c.commands = commands ∧
            c.isInvoked = true ∧
            ∀ more,
              let q := (p.submitBatched chain).1.run more
              q.nextId ≤ UInt64.size →
                (q.said c.id = [] ∨ ∃ g, q.said c.id = [(g, .createPipeline commands)] ∨
                  q.said c.id = [(g, .createPipeline commands), (g, .stopPipeline)]) ∧
                (q.stateOf? c.id = some .running →
                  q.said c.id = [(q.generation, .createPipeline commands)]))) := by
  intro p commands
  have hid : p.id = id := id_run (new id options) events
  refine ⟨fun reason h => submitBatched_of_error h, fun fused h => ⟨fun hpool => ?_,
    fun hpool => ?_⟩⟩
  · exact submitBatched_of_pool_ne h (hid ▸ hpool)
  have hplain := submitBatched_of_ok (p := p) h (hpool.trans hid.symm)
  obtain ⟨hcommands, hne⟩ := Chain.commands_of_ok h
  rw [hcommands] at hplain
  refine ⟨hplain, fun hs => ?_, fun hs hn => ?_⟩
  · rw [hplain, submit_of_state_ne hne hs]
    rfl
  have hacc : Accounted p := (accounted_new id options).run events (Nat.le_of_lt hn)
  obtain ⟨c, hok, hraw, hpipelines, hc, hmark⟩ := pipelines_submit hacc hs hn hne
  have hnew : p.pipeline? c.id = none := by
    refine List.find?_eq_none.2 fun b hb hb' => ?_
    have hlt := hacc.toNat_lt_nextId hb
    rw [of_decide_eq_true hb', hraw] at hlt
    exact Nat.lt_irrefl _ hlt
  have hpipelines : (p.submitBatched chain).1.pipelines = p.pipelines ++ [c] := by
    rw [hplain]
    exact hpipelines
  have hmade : Carries (p.submitBatched chain).1 c.id commands := by
    refine ⟨c, ?_, hc⟩
    rw [pipeline?, hpipelines, List.find?_append]
    rw [pipeline?] at hnew
    rw [hnew]
    simp
  refine ⟨c, by rw [hplain, hok]; rfl, hnew, hpipelines, hc, hmark, fun more => ?_⟩
  intro q hq
  have hcarries : Carries q c.id commands := hmade.run more
  have hrun : q = (new id options).run (events ++ .submitBatched chain :: more) :=
    run_run (new id options) events (.submitBatched chain :: more)
  rw [hrun] at hq hcarries ⊢
  have horder := inOrder_run id options _ hq
  exact hcarries.said horder.accounted horder.addressed

/-- In a pool for one pipeline that is taken, a chain is submitted and waits; once the runspace is
free the host is asked to run all of it. A chain for another pool, and one that is too short, are
left alone. -/
theorem batches_of_run_waiting :
    let events : List Event := [.beginOpen, .connected .opening,
      .notice 1 (.message (.toPool (.poolState .opened none))), .submit [⟨"Get-Item", []⟩]]
    let item (pool : Nat) : Link := ⟨⟨"Get-Item", []⟩, .remote (.ofDraw pool)⟩
    let sort : Link := ⟨⟨"Sort-Object", []⟩, .relay .streaming⟩
    let first : PipelineId := ⟨1, by decide⟩
    let second : PipelineId := ⟨2, by decide⟩
    let p := (new (.ofDraw 0) { maxRunspaces := 1 }).run events
    let commands : List Command := [⟨"Get-Item", []⟩, ⟨"Sort-Object", []⟩]
    let made := p.submitBatched [item 0, sort]
    let freed := made.1.run [.stop first]
    p.state = .opened ∧ p.nextId < UInt64.size ∧ p.submitBatched [item 0] = (p, .ok none) ∧
      p.submitBatched [item 1, sort] = (p, .ok none) ∧ made.1 = (p.submit commands).1 ∧
      made.2 = .ok (some second) ∧ made.1.said second = [] ∧
      freed.said second = [(1, .createPipeline commands)] := by
  intro events item sort first second p commands made freed
  have hs : p.state = .opened := by decide
  have hn : p.nextId < UInt64.size := by decide
  have h := batches_of_run (.ofDraw 0) { maxRunspaces := 1 } events
  obtain ⟨hplain, -, hmade⟩ := ((h [item 0, sort]).2 _ rfl).2 rfl
  obtain ⟨c, hok, -, -, -, -, hsaid⟩ := hmade hs hn
  have hsecond : made.2 = .ok (some second) := congrArg Prod.snd hplain
  have hid : second = c.id := Option.some.inj (Except.ok.inj (hsecond.symm.trans hok))
  rw [← hid] at hsaid
  refine ⟨hs, hn, (h [item 0]).1 _ rfl, ((h [item 1, sort]).2 _ rfl).1 (by decide),
    congrArg Prod.fst hplain, hsecond, by decide, ?_⟩
  exact (hsaid [.stop first] (by decide)).2 (by decide)

end Pool

end Runspace
