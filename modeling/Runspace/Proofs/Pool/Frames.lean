import Runspace.Proofs.Pool.Stages

/-!
# Frames — what news about one pipeline leave alone

News about a pipeline count only while it runs: they bring it a record, or end it, or mean nothing.
If it ends, its runspace goes to the pipeline at the head of the queue, and so on while runspaces
are free. Over a line that accepts messages none of these fails, so that what admission does can be
said at once.

* `Pool.promote`: the first pipelines of the queue are launched; **`admitQueued_eq_promote`**:
  admission does just that;
* `Notice.apply`, **`notice_of_runs`**: what news do to the pipeline that they are about;
* **`frame_of_run`**: all that news about a pipeline change, after any events.
-/

namespace Runspace

namespace Pool

/-! ## Admission at once -/

/-- What is made known when some pipelines are launched on a line. -/
def calls (p : Pool) (l : Line) (ids : List PipelineId) : List Effect :=
  ids.flatMap fun i => (p.pipeline? i).toList.flatMap fun c =>
    [.ask l.generation i c.commands, .entered i]

/-- A pool that has launched the first pipelines of its queue on a line. -/
def promote (p : Pool) (l : Line) (n : Nat) : Pool :=
  { p with
    pipelines := p.pipelines.map fun c => if c.id ∈ p.queue.take n then c.enter .running else c
    queue := p.queue.drop n
    running := p.running + n
    outbox := p.outbox ++ p.calls l (p.queue.take n) }

section Promote

variable {p q : Pool} {l : Line} {c : Pipeline} {i j : PipelineId} {ids rest : List PipelineId}

theorem promote_zero (p : Pool) (l : Line) : p.promote l 0 = p := by
  simp [promote, calls]

theorem pipeline?_map {f : Pipeline → Pipeline} (hq : q.pipelines = p.pipelines.map f)
    (hf : ∀ c, (f c).id = c.id) (j : PipelineId) : q.pipeline? j = (p.pipeline? j).map f := by
  simp only [pipeline?, hq, List.find?_map, Function.comp_def, hf]

theorem pipeline?_promote (p : Pool) (l : Line) (n : Nat) (j : PipelineId) :
    (p.promote l n).pipeline? j =
      if j ∈ p.queue.take n then (p.pipeline? j).map (·.enter .running) else p.pipeline? j := by
  rw [pipeline?_map (p := p) rfl fun c => by split <;> rfl]
  cases hc : p.pipeline? j with
  | none => simp
  | some c =>
    obtain rfl := (pipeline?_eq_some hc).2
    rw [Option.map_some, Option.map_some]
    split <;> rfl

theorem calls_congr (h : ∀ j, (q.pipeline? j).map (·.commands) = (p.pipeline? j).map (·.commands))
    (l : Line) (ids : List PipelineId) : q.calls l ids = p.calls l ids := by
  unfold calls
  congr 1
  funext i
  have hcommands : ∀ o : Option Pipeline, (o.toList.flatMap fun c =>
      [Effect.ask l.generation i c.commands, .entered i]) =
        (o.map (·.commands)).toList.flatMap fun commands =>
          [.ask l.generation i commands, .entered i] := by
    intro o
    cases o <;> rfl
  rw [hcommands, hcommands, h i]

theorem promote_promote (p : Pool) (l : Line) (m n : Nat) :
    (p.promote l m).promote l n = p.promote l (m + n) := by
  have hcalls : (p.promote l m).calls l ((p.queue.drop m).take n) =
      p.calls l ((p.queue.drop m).take n) := by
    refine calls_congr (fun j => ?_) l _
    rw [pipeline?_promote]
    split
    · rw [Option.map_map]
      rfl
    · rfl
  have hpipelines : (p.promote l m).pipelines.map (fun c =>
      if c.id ∈ (p.queue.drop m).take n then c.enter .running else c) =
        (p.promote l (m + n)).pipelines := by
    unfold promote
    dsimp only
    rw [List.map_map, List.take_add]
    refine List.map_congr_left fun c _ => ?_
    simp only [Function.comp_apply, List.mem_append]
    by_cases hm : c.id ∈ p.queue.take m
    · simp only [hm, if_true, true_or, Pipeline.id_enter]
      split <;> rfl
    · simp only [hm, if_false, false_or]
  unfold promote at hpipelines hcalls ⊢
  dsimp only at hpipelines hcalls ⊢
  rw [hpipelines, hcalls, List.drop_drop, Nat.add_assoc, List.append_assoc, List.take_add, calls,
    calls, calls, List.flatMap_append]

/-- The head of the queue is launched on a line that accepts messages. -/
theorem admitHead_eq_promote (hp : Accounted p) (hl : p.readyLine? = some l)
    (ha : l.isAccepting = true) (hq : p.queue = i :: rest) : p.admitHead = p.promote l 1 := by
  obtain ⟨c, hc, hs⟩ := (hp.mem_queue i).1 (by simp [hq])
  obtain rfl := (pipeline?_eq_some hc).2
  have hr : ({ p with queue := rest } : Pool).registered? c.id = some c :=
    hp.registered?_of_live hc (by rw [hs]; rfl)
  have hsend : ({ p with queue := rest } : Pool).send?
      (.toPipeline c.id (.createPipeline c.commands)) =
        some ({ p with queue := rest }.emit (.ask l.generation c.id c.commands)) := by
    have hl' : ({ p with queue := rest } : Pool).readyLine? = some l := hl
    unfold send?
    rw [hl']
    exact if_pos ha
  unfold admitHead
  rw [hq]
  dsimp only
  rw [hr]
  dsimp only
  rw [if_pos hs, start, hsend]
  simp [promote, change, modify, emit, calls, hq, hc]

/-- **Admission launches as many pipelines from the head of the queue as there are free
runspaces.** -/
theorem admitUpTo_eq_promote (n : Nat) (hp : Accounted p) (hn : p.nextId ≤ UInt64.size)
    (ho : p.state = .opened) (hl : p.readyLine? = some l) (ha : l.isAccepting = true) :
    admitUpTo n p = p.promote l (min n (min p.queue.length (p.limit - p.running))) := by
  induction n generalizing p with
  | zero => rw [Nat.zero_min, promote_zero, admitUpTo]
  | succ n ih =>
    unfold admitUpTo
    split
    · next hm =>
      have hlt := (mayAdmit_iff.1 hm).2
      cases hq : p.queue with
      | nil =>
        have hhead : p.admitHead = p := by unfold admitHead; rw [hq]
        rw [hhead, ih hp hn ho hl, hq]
        simp
      | cons i rest =>
        have hhead := admitHead_eq_promote hp hl ha hq
        have hmoves := (deeds_admitHead (P := fun _ => True) hm fun _ _ _ => trivial).moves
        rw [hhead] at hmoves
        have hlen : (p.promote l 1).queue.length = rest.length := by
          change (p.queue.drop 1).length = _
          rw [hq, List.drop_one, List.tail_cons]
        rw [hhead, ih (hmoves.accounted hp hn) hn ho hl, promote_promote, hlen]
        congr 1
        change 1 + min n (min rest.length (p.limit - (p.running + 1))) = _
        rw [List.length_cons]
        omega
    · next hm =>
      have hle : p.limit - p.running = 0 := by
        have hnot : ¬ p.running < p.limit := fun hlt => hm (mayAdmit_iff.2 ⟨ho, hlt⟩)
        omega
      rw [hle, Nat.min_zero, Nat.min_zero, promote_zero]

theorem admitQueued_eq_promote (hp : Accounted p) (hn : p.nextId ≤ UInt64.size)
    (ho : p.state = .opened) (hl : p.readyLine? = some l) (ha : l.isAccepting = true) :
    p.admitQueued = p.promote l (min p.queue.length (p.limit - p.running)) := by
  rw [admitQueued, admitUpTo_eq_promote _ hp hn ho hl ha, ← Nat.min_assoc, Nat.min_self]

end Promote

end Pool

/-! ## News about one pipeline -/

namespace Notice

/-- What news bring to a pipeline that they do not end. -/
def bring : Notice → Pipeline → Pipeline
  | .message ⟨_, .record k v⟩, c => c.push k v
  | _, c => c

/-- What news do to a pipeline that runs, if they are about it. -/
def apply (n : Notice) (c : Pipeline) : Pipeline :=
  match n.ending c.id with
  | some x => c.finish x.state x.last
  | none => n.bring c

variable (n : Notice) (c : Pipeline)

@[simp] theorem id_bring : (n.bring c).id = c.id := by
  unfold bring
  split
  · exact c.id_push _ _
  · rfl

@[simp] theorem state_bring : (n.bring c).state = c.state := by
  unfold bring
  split
  · exact c.state_push _ _
  · rfl

@[simp] theorem isRegistered_bring : (n.bring c).isRegistered = c.isRegistered := by
  unfold bring
  split
  · exact c.isRegistered_push _ _
  · rfl

end Notice

namespace Pool

section News

variable {p : Pool} {l : Line} {c : Pipeline} {i : PipelineId} {n : Notice}

theorem modify_self (p : Pool) (i : PipelineId) : p.modify i (fun c => c) = p := by
  simp [modify]

theorem finish_of_running (hc : p.pipeline? c.id = some c) (hs : c.state = .running)
    (x : Ending) : p.finish c.id x.state x.last = (p.conclude c x).admitQueued := by
  rw [finish_of_live hc (by rw [hs]; rfl), if_pos hs]

/-- A message to a pipeline that runs ends it, or brings it what it brings. -/
theorem receiveRunning_eq (hc : p.pipeline? c.id = some c) (hs : c.state = .running)
    (payload : Payload) : p.receiveRunning c.id payload =
      match payload.ending with
      | some x => (p.conclude c x).admitQueued
      | none => p.modify c.id (Notice.message (.toPipeline c.id payload)).bring := by
  cases payload with
  | record k v => rfl
  | pipelineState state reason =>
    cases state with
    | completed => exact finish_of_running hc hs .completed
    | failed => exact finish_of_running hc hs (.failed (remoteFailure reason))
    | stopped => exact finish_of_running hc hs .stopped
  | _ => exact (modify_self p c.id).symm

/-- **News about a pipeline that runs end it, or bring it what they bring.** -/
theorem notice_of_runs (hp : Accounted p) (ha : n.addressee? = some c.id)
    (hc : p.pipeline? c.id = some c) (hs : c.state = .running) :
    p.step (.notice p.generation n) =
      match n.ending c.id with
      | some x => (p.conclude c x).admitQueued
      | none => p.modify c.id n.bring := by
  have hr : p.registered? c.id = some c := hp.registered?_of_live hc (by rw [hs]; rfl)
  have hlose : ∀ f, p.lose (.pipeline c.id) f = (p.conclude c (.failed f.record)).admitQueued := by
    intro f
    unfold lose
    dsimp only
    rw [hr]
    exact (if_pos hs).trans (finish_of_running hc hs (.failed f.record))
  change p.notice p.generation n = _
  unfold notice
  rw [if_pos rfl]
  cases n with
  | message m =>
    obtain ⟨_ | i, payload⟩ := m <;> cases ha
    have hreceive : p.receivePipeline c.id payload = p.receiveRunning c.id payload := by
      unfold receivePipeline
      rw [hr]
      exact if_pos hs
    have hending : Notice.ending c.id (.message ⟨.pipeline c.id, payload⟩) = payload.ending :=
      if_pos rfl
    rw [hending]
    exact hreceive.trans (receiveRunning_eq hc hs payload)
  | framingError target f =>
    obtain _ | i := target <;> cases ha
    have hending : Notice.ending c.id (.framingError (.pipeline c.id) f) =
      some (.failed f.record) := if_pos rfl
    rw [hending]
    exact hlose f
  | sendFailed target f =>
    obtain _ | i := target <;> cases ha
    have hending : Notice.ending c.id (.sendFailed (.pipeline c.id) f) =
      some (.failed f.record) := if_pos rfl
    rw [hending]
    exact hlose f
  | closed f => cases ha

end News

/-! ## Frames -/

/-- The pipelines that are launched when a pipeline has left its runspace: from the head of the
queue, as many as there are free runspaces then. -/
def heirs (p : Pool) (left : Bool) : List PipelineId :=
  if left then p.queue.take (p.limit - (p.running - 1)) else []

/-- All that is different about a pool in which one pipeline has changed, and maybe left its
runspace on a line that accepts messages. -/
structure Framed (p : Pool) (i : PipelineId) (f : Pipeline → Pipeline) (left : Bool) (q : Pool) :
    Prop where
  control : SameControl p q
  nextId : q.nextId = p.nextId
  registry : q.pipelines.map (fun c => (c.id, c.isRegistered)) =
    p.pipelines.map fun c => (c.id, c.isRegistered)
  subject : q.pipeline? i = (p.pipeline? i).map f
  others : ∀ j ≠ i, q.pipeline? j =
    if j ∈ p.heirs left then (p.pipeline? j).map (·.enter .running) else p.pipeline? j
  queue : p.queue = p.heirs left ++ q.queue
  running : q.running = (if left then p.running - 1 else p.running) + (p.heirs left).length
  outbox : q.outbox = p.outbox ++ if left then .entered i :: (p.line.toList.flatMap fun l =>
    p.calls l (p.heirs left)) else []

section Framed

variable {p : Pool} {l : Line} {c : Pipeline} {i : PipelineId} {f : Pipeline → Pipeline}

theorem framed_modify (hid : ∀ c, (f c).id = c.id)
    (hreg : ∀ c, (f c).isRegistered = c.isRegistered) : Framed p i f false (p.modify i f) where
  control := ⟨rfl, rfl, rfl, rfl, rfl, rfl, rfl, rfl, rfl⟩
  nextId := rfl
  registry := map_modify _ i fun c => by rw [hid, hreg]
  subject := by rw [pipeline?_modify hid, if_pos rfl]
  others j hj := by rw [pipeline?_modify hid, if_neg hj]; rfl
  queue := rfl
  running := rfl
  outbox := (List.append_nil _).symm

section Conclude

variable (p c) (x : Ending)

theorem pipeline?_conclude (j : PipelineId) : (p.conclude c x).pipeline? j =
    if j = c.id then (p.pipeline? j).map (·.finish x.state x.last) else p.pipeline? j := by
  have hfound : (p.conclude c x).pipeline? j =
      (p.modify c.id (·.finish x.state x.last)).pipeline? j := by
    simp only [pipeline?, pipelines_conclude]
  rw [hfound, pipeline?_modify fun c => c.id_finish _ _]

theorem sameControl_conclude : SameControl p (p.conclude c x) := by
  unfold conclude release
  split <;> exact ⟨rfl, rfl, rfl, rfl, rfl, rfl, rfl, rfl, rfl⟩

theorem calls_conclude (l : Line) (ids : List PipelineId) :
    (p.conclude c x).calls l ids = p.calls l ids := by
  refine calls_congr (fun j => ?_) l ids
  rw [pipeline?_conclude]
  split
  · rw [Option.map_map]
    exact congrArg (fun f => (p.pipeline? j).map f) (funext fun c => c.commands_finish _ _)
  · rfl

theorem registry_conclude : (p.conclude c x).pipelines.map (fun c => (c.id, c.isRegistered)) =
    p.pipelines.map fun c => (c.id, c.isRegistered) := by
  rw [pipelines_conclude]
  exact map_modify _ c.id fun c => by rw [c.id_finish, c.isRegistered_finish]

theorem registry_promote (l : Line) (n : Nat) :
    (p.promote l n).pipelines.map (fun c => (c.id, c.isRegistered)) =
      p.pipelines.map fun c => (c.id, c.isRegistered) := by
  simp only [promote, List.map_map]
  refine List.map_congr_left fun c _ => ?_
  rw [Function.comp_apply]
  split <;> rfl

end Conclude

theorem conclude_of_running (hs : c.state = .running) (x : Ending) :
    p.conclude c x = { p with running := p.running - 1 }.change c.id (·.finish x.state x.last) := by
  unfold conclude release
  rw [hs]

theorem mem_queue_of_mem_heirs {left : Bool} (h : i ∈ p.heirs left) : i ∈ p.queue := by
  unfold heirs at h
  split at h
  · exact List.mem_of_mem_take h
  · cases h

theorem Accounted.not_mem_heirs (hp : Accounted p) (hc : p.pipeline? c.id = some c)
    (hs : c.state = .running) (left : Bool) : c.id ∉ p.heirs left := by
  intro hmem
  have hqueued := hp.mem_queue_iff.1 (mem_queue_of_mem_heirs hmem)
  rw [stateOf?_of_pipeline? hc, hs] at hqueued
  cases hqueued

/-- **A pool in which a pipeline has ended that ran, and its runspace was given out.** -/
theorem framed_conclude (hp : Accounted p) (hn : p.nextId ≤ UInt64.size) (ho : p.state = .opened)
    (hl : p.readyLine? = some l) (ha : l.isAccepting = true) (hc : p.pipeline? c.id = some c)
    (hs : c.state = .running) (x : Ending) :
    Framed p c.id (·.finish x.state x.last) true (p.conclude c x).admitQueued := by
  have hline : p.line = some l := (readyLine?_eq_some.1 hl).1
  have hcontrol := sameControl_conclude p c x
  have hreduce := conclude_of_running (p := p) hs x
  have hnext : (p.conclude c x).nextId = p.nextId := by rw [hreduce]; rfl
  have hqueue : (p.conclude c x).queue = p.queue := by rw [hreduce]; rfl
  have hrunning : (p.conclude c x).running = p.running - 1 := by rw [hreduce]; rfl
  have houtbox : (p.conclude c x).outbox = p.outbox ++ [.entered c.id] := by rw [hreduce]; rfl
  have hle : (p.conclude c x).nextId ≤ UInt64.size := hnext ▸ hn
  have hacc : Accounted (p.conclude c x) :=
    (move_conclude x (pipeline?_eq_some hc).1 (by rw [hs]; rfl)).accounted hp hle
  have hpromote := admitQueued_eq_promote hacc hle (hcontrol.state.trans ho)
    (hcontrol.readyLine?.trans hl) ha
  rw [hqueue, hrunning, hcontrol.limit] at hpromote
  generalize hk : min p.queue.length (p.limit - (p.running - 1)) = k at hpromote
  have hheirs : p.queue.take k = p.heirs true := by
    rw [← hk, Nat.min_comm, ← List.take_eq_take_min]
    rfl
  have hfound : ∀ j, ((p.conclude c x).promote l k).pipeline? j =
      if j ∈ p.heirs true then ((p.conclude c x).pipeline? j).map (·.enter .running)
      else (p.conclude c x).pipeline? j := by
    rw [← hheirs, ← hqueue]
    exact pipeline?_promote _ l k
  rw [hpromote]
  exact {
    control := hcontrol.trans ⟨rfl, rfl, rfl, rfl, rfl, rfl, rfl, rfl, rfl⟩
    nextId := hnext
    registry := (registry_promote _ l k).trans (registry_conclude p c x)
    subject := by
      rw [hfound, if_neg (hp.not_mem_heirs hc hs true), pipeline?_conclude, if_pos rfl]
    others := fun j hj => by rw [hfound, pipeline?_conclude, if_neg hj]
    queue := by
      rw [← hheirs, ← hqueue]
      exact (List.take_append_drop k _).symm
    running := by
      have hle : k ≤ p.queue.length := hk ▸ Nat.min_le_left _ _
      rw [← hheirs, List.length_take, Nat.min_eq_left hle, if_pos rfl, ← hrunning]
      rfl
    outbox := by
      change (p.conclude c x).outbox ++ (p.conclude c x).calls l ((p.conclude c x).queue.take k) = _
      rw [hqueue, hheirs, calls_conclude, houtbox, hline, List.append_assoc]
      simp }

end Framed

/-! ## Runs -/

/-- **What news about a pipeline leave alone,** in a pool after any events, as long as there were
numbers for the pipelines.

News of the current channel about a pipeline that is not registered or does not run change nothing,
and nothing is made known. About one that runs, they change it as they say (it gets a record, or
ends, or stays as it is), and never the pool's state, limit, registry, line or generation, if the
line accepts messages. If it left its runspace then, the pipelines at the head of the queue are
launched, as many as there are free runspaces; all others stay as they are, with their streams. -/
theorem frame_of_run (id : PoolId) (options : PoolOptions) (events : List Event)
    (hn : ((new id options).run events).nextId ≤ UInt64.size) :
    let p := (new id options).run events
    ∀ i n, n.addressee? = some i →
      let q := p.step (.notice p.generation n)
      (p.registered? i = none ∨ p.stateOf? i ≠ some .running → q = p) ∧
      (p.stateOf? i = some .running → (∀ l, p.line = some l → l.isAccepting = true) →
        Framed p i n.apply (q.stateOf? i ≠ some .running) q ∧
        ∀ left, ∀ j ∈ p.heirs left, j ≠ i ∧ p.stateOf? j = some .queued) := by
  intro p i n ha q
  have h := inOrder_run id options events hn
  have hp : Accounted p := h.accounted
  refine ⟨fun hno => ?_, fun hrun hla => ?_⟩
  · refine notice_of_not_runs hp ha fun hrun => ?_
    rcases hno with hno | hno
    · obtain ⟨c, hc, hs⟩ := hrun.2
      cases hno.symm.trans (hp.registered?_of_live hc (by rw [hs]; rfl))
    · exact hno (runs_iff_stateOf?.1 hrun.2)
  · obtain ⟨c, hmem, rfl, hs⟩ := stateOf?_eq_some hrun
    have hc := hp.pipeline?_of_mem hmem
    have hq : q = _ := notice_of_runs hp ha hc hs
    refine ⟨?_, fun left j hj => ⟨?_, ?_⟩⟩
    · cases hx : n.ending c.id with
      | some x =>
        rw [hx] at hq
        have ho := h.housed.state_of_running hmem hs
        obtain ⟨l, hl, hready⟩ := h.attached.opened_iff.1 ho
        have hframed : Framed p c.id (·.finish x.state x.last) true q := by
          rw [hq]
          exact framed_conclude hp hn ho (readyLine?_eq_some.2 ⟨hl, hready⟩) (hla l hl) hc hs x
        have happly : n.apply c = c.finish x.state x.last := by
          unfold Notice.apply
          rw [hx]
        have hstate : q.stateOf? c.id = some x.state := by
          rw [stateOf?, hframed.subject, hc]
          rfl
        have hleft : decide (q.stateOf? c.id ≠ some .running) = true := by
          rw [hstate]
          cases x <;> rfl
        rw [hleft]
        exact { hframed with subject := by rw [hframed.subject, hc, Option.map_some,
          Option.map_some, happly] }
      | none =>
        rw [hx] at hq
        have hframed : Framed p c.id n.bring false q := by
          rw [hq]
          exact framed_modify n.id_bring n.isRegistered_bring
        have happly : n.apply c = n.bring c := by
          unfold Notice.apply
          rw [hx]
        have hstate : q.stateOf? c.id = some .running := by
          rw [stateOf?, hframed.subject, hc, Option.map_some, Option.map_some, n.state_bring, hs]
        have hleft : decide (q.stateOf? c.id ≠ some .running) = false := by
          rw [hstate]
          rfl
        rw [hleft]
        exact { hframed with subject := by rw [hframed.subject, hc, Option.map_some,
          Option.map_some, happly] }
    · rintro rfl
      exact hp.not_mem_heirs hc hs left hj
    · exact hp.mem_queue_iff.1 (mem_queue_of_mem_heirs hj)

/-- News that the first of three pipelines has failed, in a pool for two of which the third waits. -/
theorem frame_of_run_failed :
    let start := new (.ofDraw 0) { maxRunspaces := 2 }
    let events : List Event := [.beginOpen, .connected .opening,
      .notice 1 (.message (.toPool (.poolState .opened none))), .submit [⟨"Get-Item", []⟩],
      .submit [⟨"Get-Item", []⟩], .submit [⟨"Get-Date", []⟩]]
    let first : PipelineId := ⟨1, by decide⟩
    let second : PipelineId := ⟨2, by decide⟩
    let third : PipelineId := ⟨3, by decide⟩
    let p := start.run events
    let q := p.step (.notice 1 (.framingError (.pipeline first) .channelClosed))
    p.nextId = 4 ∧ p.stateOf? first = some .running ∧ p.stateOf? third = some .queued ∧
      SameControl p q ∧ q.pipeline? second = p.pipeline? second ∧
      q.pipeline? third = (p.pipeline? third).map (·.enter .running) ∧
      p.step (.notice 1 (.framingError (.pipeline third) .channelClosed)) = p := by
  intro start events first second third p q
  have hn : p.nextId = 4 := by decide
  have hla : ∀ l, p.line = some l → l.isAccepting = true := by decide
  have hframe := frame_of_run (.ofDraw 0) { maxRunspaces := 2 } events (by rw [hn]; decide)
  have hrun : p.stateOf? first = some .running := by decide
  have hwait : p.stateOf? third = some .queued := by decide
  obtain ⟨-, hfirst⟩ := hframe first (.framingError (.pipeline first) .channelClosed) rfl
  obtain ⟨hthird, -⟩ := hframe third (.framingError (.pipeline third) .channelClosed) rfl
  obtain ⟨hq, -⟩ := hfirst hrun hla
  refine ⟨hn, hrun, hwait, hq.control, (hq.others second (by decide)).trans ?_,
    (hq.others third (by decide)).trans ?_, hthird (.inr (by rw [hwait]; decide))⟩
  · exact if_neg (by decide)
  · exact if_pos (by decide)

end Pool

end Runspace
