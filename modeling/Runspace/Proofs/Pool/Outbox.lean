import Runspace.Pool.Event

/-!
# Outboxes — what a pool does whatever its outbox holds

A pool only adds to its outbox and never looks at it. So what it wants done may be taken out and
carried out at any time: a pool goes on as it would have, and what it adds is the same.

* `Pool.onto`: a pool with some effects in front of its outbox;
* **`step_onto`**, `run_onto`: events go on as they would have without them;
* `Pool.emptied`, `run_emptied`: so they do in a pool whose outbox was taken out.
-/

namespace Runspace

namespace Pool

/-- A pool with some effects in front of those in its outbox. -/
def onto (p : Pool) (made : List Effect) : Pool := { p with outbox := made ++ p.outbox }

variable (p : Pool) (made : List Effect)

/-! ## What stays -/

@[simp] theorem id_onto : (p.onto made).id = p.id := rfl

@[simp] theorem options_onto : (p.onto made).options = p.options := rfl

@[simp] theorem state_onto : (p.onto made).state = p.state := rfl

@[simp] theorem generation_onto : (p.onto made).generation = p.generation := rfl

@[simp] theorem line_onto : (p.onto made).line = p.line := rfl

@[simp] theorem handshake_onto : (p.onto made).handshake = p.handshake := rfl

@[simp] theorem queue_onto : (p.onto made).queue = p.queue := rfl

@[simp] theorem running_onto : (p.onto made).running = p.running := rfl

@[simp] theorem limit_onto : (p.onto made).limit = p.limit := rfl

@[simp] theorem nextId_onto : (p.onto made).nextId = p.nextId := rfl

@[simp] theorem readyLine?_onto : (p.onto made).readyLine? = p.readyLine? := rfl

@[simp] theorem mayAdmit_onto : (p.onto made).mayAdmit = p.mayAdmit := rfl

@[simp] theorem isReconnecting_onto : (p.onto made).isReconnecting = p.isReconnecting := rfl

@[simp] theorem pipeline?_onto (i : PipelineId) : (p.onto made).pipeline? i = p.pipeline? i := rfl

@[simp] theorem registered?_onto (i : PipelineId) :
    (p.onto made).registered? i = p.registered? i :=
  rfl

@[simp] theorem idsWhere_onto (f : PipelineState → Bool) :
    (p.onto made).idsWhere f = p.idsWhere f :=
  rfl

@[simp] theorem progress_onto (a : Attempt) : (p.onto made).progress a = p.progress a := by
  cases a <;> rfl

/-! ## Sending and changing -/

theorem emit_onto (e : Effect) : (p.onto made).emit e = (p.emit e).onto made := by
  simp only [onto, emit, List.append_assoc]

theorem modify_onto (i : PipelineId) (f : Pipeline → Pipeline) :
    (p.onto made).modify i f = (p.modify i f).onto made :=
  rfl

theorem change_onto (i : PipelineId) (f : Pipeline → Pipeline) :
    (p.onto made).change i f = (p.change i f).onto made :=
  emit_onto (p.modify i f) made _

theorem send?_onto (m : Message) : (p.onto made).send? m = (p.send? m).map (·.onto made) := by
  unfold send?
  rw [readyLine?_onto]
  cases p.readyLine? with
  | none => rfl
  | some l =>
    dsimp only
    split
    · exact congrArg some (emit_onto p made _)
    · rfl

theorem trySend_onto (m : Message) : (p.onto made).trySend m = (p.trySend m).onto made := by
  unfold trySend
  rw [send?_onto]
  cases p.send? m <;> rfl

theorem setProgress_onto (a : Attempt) (s : Progress) :
    (p.onto made).setProgress a s = (p.setProgress a s).onto made := by
  cases a <;> rfl

theorem resolve_onto (a : Attempt) (r : Except Fault Unit) :
    (p.onto made).resolve a r = (p.resolve a r).onto made := by
  unfold resolve
  rw [setProgress_onto, emit_onto]

theorem answer_onto (a : Attempt) (r : Except Fault Unit) :
    (p.onto made).answer a r = (p.answer a r).onto made := by
  unfold answer
  rw [resolve_onto]
  rfl

theorem abandonHandshake_onto : (p.onto made).abandonHandshake = p.abandonHandshake.onto made := by
  unfold abandonHandshake
  rw [handshake_onto]
  cases p.handshake with
  | none => rfl
  | some a => exact answer_onto p made _ _

theorem refuseHandshake_onto : (p.onto made).refuseHandshake = p.refuseHandshake.onto made := by
  unfold refuseHandshake
  rw [handshake_onto]
  cases p.handshake with
  | none => rfl
  | some a => exact answer_onto p made _ _

theorem detach_onto : (p.onto made).detach = p.detach.onto made := by
  have habandon :=
    abandonHandshake_onto { p with generation := p.generation + 1, line := none } made
  unfold detach
  rw [line_onto]
  cases p.line with
  | none => exact habandon
  | some l =>
    exact (congrArg (·.emit (.released l.generation)) habandon).trans (emit_onto _ made _)

/-! ## Pipelines -/

theorem start_onto (c : Pipeline) : (p.onto made).start c = (p.start c).onto made := by
  unfold start
  rw [send?_onto]
  cases p.send? (.toPipeline c.id (.createPipeline c.commands)) with
  | none => exact change_onto { p with queue := p.queue.filter (· ≠ c.id) } made _ _
  | some q => exact change_onto { q with running := p.running + 1 } made _ _

theorem admitHead_onto : (p.onto made).admitHead = p.admitHead.onto made := by
  unfold admitHead
  rw [queue_onto]
  cases p.queue with
  | nil => rfl
  | cons i rest =>
    dsimp only
    rw [show ({ p.onto made with queue := rest } : Pool).registered? i =
      ({ p with queue := rest } : Pool).registered? i from rfl]
    split
    · split
      · exact start_onto { p with queue := rest } made _
      · rfl
    · rfl

theorem admitUpTo_onto (n : Nat) : admitUpTo n (p.onto made) = (admitUpTo n p).onto made := by
  induction n generalizing p with
  | zero => rfl
  | succ n ih =>
    unfold admitUpTo
    rw [mayAdmit_onto]
    split
    · rw [admitHead_onto, ih]
    · rfl

theorem admitQueued_onto : (p.onto made).admitQueued = p.admitQueued.onto made :=
  admitUpTo_onto p made _

theorem finish_onto (i : PipelineId) (s : PipelineState) (last : Option Value) :
    (p.onto made).finish i s last = (p.finish i s last).onto made := by
  unfold finish
  rw [pipeline?_onto]
  cases p.pipeline? i with
  | none => rfl
  | some c =>
    dsimp only
    rw [change_onto]
    split
    · rfl
    · generalize p.change i (·.finish s last) = q
      split
      · exact admitQueued_onto { q with running := q.running - 1 } made
      · rfl
      · rfl

theorem stop_onto (i : PipelineId) : (p.onto made).stop i = (p.stop i).onto made := by
  unfold stop
  rw [pipeline?_onto]
  cases p.pipeline? i with
  | none => rfl
  | some c =>
    dsimp only
    split
    · rw [trySend_onto, finish_onto]
    · exact finish_onto p made _ _ _

theorem stopAll_onto (ids : List PipelineId) :
    (p.onto made).stopAll ids = (p.stopAll ids).onto made := by
  unfold stopAll
  induction ids generalizing p with
  | nil => rfl
  | cons i ids ih => rw [List.foldl_cons, stop_onto, ih, List.foldl_cons]

theorem failAll_onto (e : Fault) (ids : List PipelineId) :
    (p.onto made).failAll e ids = (p.failAll e ids).onto made := by
  unfold failAll
  induction ids generalizing p with
  | nil => rfl
  | cons i ids ih => rw [List.foldl_cons, finish_onto, ih, List.foldl_cons]

/-! ## Calls -/

theorem create_onto (commands : List Command) :
    (p.onto made).create commands = ((p.create commands).1.onto made, (p.create commands).2) := by
  unfold create
  rw [state_onto, nextId_onto]
  split
  · rfl
  · split
    · rfl
    · cases PipelineId.ofRaw? (UInt64.ofNat p.nextId) <;> rfl

theorem beginInvoke_onto (i : PipelineId) :
    (p.onto made).beginInvoke i = ((p.beginInvoke i).1.onto made, (p.beginInvoke i).2) := by
  unfold beginInvoke
  rw [pipeline?_onto, state_onto]
  cases p.pipeline? i with
  | none => rfl
  | some c =>
    dsimp only
    rw [modify_onto]
    generalize p.modify i (fun c => { c with isInvoked := true }) = q
    split
    · rfl
    · split
      · rfl
      · split
        · rfl
        · rw [running_onto, limit_onto, queue_onto]
          split
          · rw [start_onto]
          · rw [change_onto]
            rfl

theorem submit_onto (commands : List Command) :
    (p.onto made).submit commands = ((p.submit commands).1.onto made, (p.submit commands).2) := by
  unfold submit
  rw [create_onto]
  generalize p.create commands = made'
  obtain ⟨q, _ | i⟩ := made'
  · rfl
  · dsimp only
    rw [beginInvoke_onto]
    generalize q.beginInvoke i = invoked
    obtain ⟨r, _ | _⟩ := invoked <;> rfl

theorem submitBatched_onto (chain : Chain) : (p.onto made).submitBatched chain =
    ((p.submitBatched chain).1.onto made, (p.submitBatched chain).2) := by
  unfold submitBatched
  cases chain.fuse? with
  | none => rfl
  | some fused =>
    dsimp only
    rw [id_onto]
    split
    · rw [submit_onto]
      generalize p.submit fused.commands = submitted
      obtain ⟨q, _ | _⟩ := submitted <;> rfl
    · rfl

theorem stopPipeline_onto (i : PipelineId) :
    (p.onto made).stopPipeline i = (p.stopPipeline i).onto made := by
  unfold stopPipeline
  rw [pipeline?_onto, stop_onto]
  cases p.pipeline? i with
  | none => rfl
  | some c =>
    dsimp only
    split <;> rfl

theorem dispose_onto (i : PipelineId) : (p.onto made).dispose i = (p.dispose i).onto made := by
  unfold dispose
  rw [stop_onto, modify_onto]

theorem takeStream_onto (i : PipelineId) (k : StreamKind) : (p.onto made).takeStream i k =
    ((p.takeStream i k).1.onto made, (p.takeStream i k).2) := by
  unfold takeStream
  rw [pipeline?_onto]
  cases p.pipeline? i with
  | none => rfl
  | some c =>
    dsimp only
    split <;> rfl

/-! ## The life of a pool -/

theorem beginOpen_onto :
    (p.onto made).beginOpen = (p.beginOpen.1.onto made, p.beginOpen.2) := by
  unfold beginOpen
  rw [options_onto, state_onto]
  split
  · rfl
  · split <;> rfl

theorem beginReconnect_onto :
    (p.onto made).beginReconnect = (p.beginReconnect.1.onto made, p.beginReconnect.2) := by
  unfold beginReconnect
  rw [state_onto, isReconnecting_onto]
  split
  · rfl
  · split <;> rfl

theorem connected_onto (a : Attempt) : (p.onto made).connected a = (p.connected a).onto made := by
  unfold connected
  rw [progress_onto, state_onto, resolve_onto, setProgress_onto]
  cases p.progress a with
  | connecting =>
    dsimp only
    split
    · rfl
    · rw [← emit_onto, ← emit_onto]
      rfl
  | idle | waiting | answered => rfl

theorem connectFailed_onto (a : Attempt) (e : Fault) :
    (p.onto made).connectFailed a e = (p.connectFailed a e).onto made := by
  unfold connectFailed
  rw [progress_onto, resolve_onto]
  cases p.progress a <;> rfl

theorem giveUp_onto (a : Attempt) : (p.onto made).giveUp a = (p.giveUp a).onto made := by
  unfold giveUp
  rw [setProgress_onto]
  generalize p.setProgress a .idle = q
  cases a with
  | opening =>
    dsimp only
    rw [state_onto]
    split
    · exact detach_onto { q with state := .broken } made
    · exact detach_onto q made
  | reconnecting => exact detach_onto q made

theorem resume_onto (a : Attempt) :
    (p.onto made).resume a = ((p.resume a).1.onto made, (p.resume a).2) := by
  unfold resume
  rw [progress_onto, setProgress_onto, giveUp_onto]
  split <;> rfl

theorem beginClose_onto : (p.onto made).beginClose = p.beginClose.onto made := by
  unfold beginClose
  rw [state_onto]
  have hclose : ∀ next : PoolState,
      let q := { p with state := next }.refuseHandshake
      let q' := { p.onto made with state := next }.refuseHandshake
      ((q'.stopAll (q'.idsWhere fun s => ¬ s.isTerminal)).trySend (.toPool .closePool)).detach =
        (((q.stopAll (q.idsWhere fun s => ¬ s.isTerminal)).trySend
          (.toPool .closePool)).detach).onto made := by
    intro next q q'
    have hq : q' = q.onto made := refuseHandshake_onto { p with state := next } made
    rw [hq, idsWhere_onto, stopAll_onto, trySend_onto, detach_onto]
  split
  · rfl
  · rfl
  · rfl
  · rfl
  · exact hclose _
  · exact hclose _
  · exact hclose _

theorem endClose_onto : (p.onto made).endClose = p.endClose.onto made := by
  unfold endClose
  rw [state_onto]
  split <;> rfl

theorem setMaxRunspaces_onto (n : Nat) : (p.onto made).setMaxRunspaces n =
    ((p.setMaxRunspaces n).1.onto made, (p.setMaxRunspaces n).2) := by
  have hset : ∀ q : Pool, ({ q.onto made with limit := n } : Pool).admitQueued =
      ({ q with limit := n } : Pool).admitQueued.onto made := fun q =>
    admitQueued_onto { q with limit := n } made
  unfold setMaxRunspaces
  rw [options_onto, state_onto, readyLine?_onto]
  cases wireCount n with
  | error e => rfl
  | ok count =>
    dsimp only
    rw [send?_onto]
    split
    · rfl
    · split
      · exact congrArg (·, Except.ok ()) (hset p)
      · exact congrArg (·, Except.ok ()) (hset p)
      · split
        · exact congrArg (·, Except.ok ()) (hset p)
        · cases p.send? (.toPool (.setMaxRunspaces count)) with
          | none => rfl
          | some q => exact congrArg (·, Except.ok ()) (hset q)
      · rfl

/-! ## News -/

theorem hostOpened_onto : (p.onto made).hostOpened = p.hostOpened.onto made := by
  unfold hostOpened
  rw [handshake_onto]
  cases p.handshake with
  | none => rfl
  | some a =>
    dsimp only
    rw [← resolve_onto, ← admitQueued_onto]
    rfl

theorem hostEnded_onto (e : Fault) : (p.onto made).hostEnded e = (p.hostEnded e).onto made := by
  unfold hostEnded
  rw [handshake_onto, state_onto]
  cases p.handshake with
  | none =>
    dsimp only
    split
    · rw [← detach_onto, ← failAll_onto]
      rfl
    · rfl
  | some a => exact answer_onto p made _ _

theorem receivePool_onto (payload : Payload) :
    (p.onto made).receivePool payload = (p.receivePool payload).onto made := by
  unfold receivePool
  split
  · exact hostOpened_onto p made
  · exact hostEnded_onto p made _
  · rfl

theorem receivePipeline_onto (i : PipelineId) (payload : Payload) :
    (p.onto made).receivePipeline i payload = (p.receivePipeline i payload).onto made := by
  unfold receivePipeline
  rw [registered?_onto]
  cases p.registered? i with
  | none => rfl
  | some c =>
    dsimp only
    unfold receiveRunning
    split
    · split <;> first | rfl | exact finish_onto p made _ _ _
    · rfl

theorem receive_onto (m : Message) : (p.onto made).receive m = (p.receive m).onto made := by
  unfold receive
  cases m.target with
  | pool => exact receivePool_onto p made _
  | pipeline i => exact receivePipeline_onto p made i _

theorem lose_onto (target : Target) (e : Fault) :
    (p.onto made).lose target e = (p.lose target e).onto made := by
  unfold lose
  cases target with
  | pool =>
    dsimp only
    rw [handshake_onto]
    cases p.handshake with
    | none => rfl
    | some a => exact answer_onto p made _ _
  | pipeline i =>
    dsimp only
    rw [registered?_onto]
    cases p.registered? i with
    | none => rfl
    | some c =>
      dsimp only
      split
      · exact finish_onto p made _ _ _
      · rfl

theorem lineClosed_onto (e : Option Fault) :
    (p.onto made).lineClosed e = (p.lineClosed e).onto made := by
  unfold lineClosed
  rw [handshake_onto, state_onto]
  cases p.handshake with
  | none =>
    dsimp only
    split
    · rw [← detach_onto, ← failAll_onto]
      rfl
    · exact detach_onto p made
  | some a => exact answer_onto p made _ _

theorem notice_onto (g : Nat) (n : Notice) :
    (p.onto made).notice g n = (p.notice g n).onto made := by
  unfold notice
  rw [generation_onto]
  split
  · cases n with
    | message m => exact receive_onto p made m
    | framingError target e | sendFailed target e => exact lose_onto p made target e
    | closed e => exact lineClosed_onto p made e
  · rfl

/-! ## Events -/

/-- **An event goes on as it would have without the effects in front,** and adds the same to the
outbox. -/
theorem step_onto (e : Event) : (p.onto made).step e = (p.step e).onto made := by
  cases e with
  | beginOpen => exact congrArg Prod.fst (beginOpen_onto p made)
  | beginReconnect => exact congrArg Prod.fst (beginReconnect_onto p made)
  | connected a => exact connected_onto p made a
  | connectFailed a e => exact connectFailed_onto p made a e
  | resume a => exact congrArg Prod.fst (resume_onto p made a)
  | beginClose => exact beginClose_onto p made
  | endClose => exact endClose_onto p made
  | setMaxRunspaces n => exact congrArg Prod.fst (setMaxRunspaces_onto p made n)
  | create commands => exact congrArg Prod.fst (create_onto p made commands)
  | submit commands => exact congrArg Prod.fst (submit_onto p made commands)
  | submitBatched chain => exact congrArg Prod.fst (submitBatched_onto p made chain)
  | beginInvoke i => exact congrArg Prod.fst (beginInvoke_onto p made i)
  | stop i => exact stopPipeline_onto p made i
  | dispose i => exact dispose_onto p made i
  | takeStream i k => exact congrArg Prod.fst (takeStream_onto p made i k)
  | notice g n => exact notice_onto p made g n
  | lineStopped g => rfl

theorem run_onto (events : List Event) : (p.onto made).run events = (p.run events).onto made := by
  induction events generalizing p with
  | nil => rfl
  | cons e events ih => exact (congrArg (·.run events) (step_onto p made e)).trans (ih (p.step e))

/-- A pool whose outbox was taken out. -/
def emptied (p : Pool) : Pool := { p with outbox := [] }

theorem onto_emptied : p.emptied.onto p.outbox = p := by
  simp [onto, emptied]

theorem run_emptied (events : List Event) :
    (p.emptied.run events).emptied = (p.run events).emptied ∧
      (p.run events).outbox = p.outbox ++ (p.emptied.run events).outbox := by
  have hrun := run_onto p.emptied p.outbox events
  rw [onto_emptied] at hrun
  rw [hrun]
  exact ⟨rfl, rfl⟩

end Pool

end Runspace
