import Runspace.Proofs.Pool.Accounts
import Runspace.Proofs.Pool.Attached

/-!
# Capacity — how many pipelines run, and when any waits

A runspace is taken only by a move that finds one free in an opened pool, so the count passes the
limit only by the limit's coming down. Whatever frees a runspace, raises the limit or opens the pool
admits from the queue again, so that nothing waits while a runspace is free.

* `Pool.Runs`, `Moves.starts`: a pipeline that runs was launched;
* `StepMoves.running_le`: the count grows only up to the limit;
* `Conserving`: nothing waits while a runspace is free in an opened pool;
* **`Conserving.step`**: every step keeps that;
* **`capacity_of_run`**: all of it after any events, and what becomes of a submission.
-/

namespace Runspace

namespace Pool

/-! ## Taking runspaces -/

section Runs

variable {p q : Pool} {id i : PipelineId} {f : Pipeline → Pipeline}

/-- The pipeline with a number runs. -/
def Runs (p : Pool) (id : PipelineId) : Prop := ∃ c, p.pipeline? id = some c ∧ c.state = .running

theorem Runs.congr (h : q.Runs i) (hp : q.pipelines = p.pipelines) : p.Runs i := by
  simpa only [Runs, pipeline?, hp] using h

theorem Runs.of_modify (h : q.Runs i) (hq : q.pipelines = (p.modify id f).pipelines)
    (hid : ∀ c, (f c).id = c.id) (hs : ∀ c, (f c).state = .running → c.state = .running) :
    p.Runs i := by
  obtain ⟨c, hc, hrun⟩ := h.congr hq
  rw [pipeline?_modify hid] at hc
  split at hc
  · cases hp : p.pipeline? i with
    | none => simp [hp] at hc
    | some c₀ =>
      rw [hp, Option.map_some, Option.some.injEq] at hc
      exact ⟨c₀, hp, hs c₀ (hc ▸ hrun)⟩
  · exact ⟨c, hc, hrun⟩

/-- A move that starts a pipeline finds a free runspace in an opened pool, and takes it. -/
theorem Move.starts (h : Move p q) (hi : q.Runs i) :
    p.Runs i ∨ p.mayAdmit = true ∧ q.running = p.running + 1 := by
  cases h with
  | send m hl ha => exact .inl hi
  | annotate id hid hs hr => exact .inl (hi.of_modify rfl hid fun c h => hs c ▸ h)
  | make commands h =>
    obtain ⟨c, hc, hrun⟩ := hi
    simp only [pipeline?, List.find?_append] at hc
    cases hp : p.pipelines.find? (·.id = i) with
    | some c₀ =>
      rw [hp, Option.some_or] at hc
      exact .inl ⟨c, hp.trans hc, hrun⟩
    | none =>
      -- a new pipeline does not run
      rw [hp, Option.none_or, List.find?_singleton] at hc
      split at hc
      · cases hc
        cases hrun
      · cases hc
  | exhaust h => exact .inl hi
  | wait hc hs => exact .inl (hi.of_modify rfl (fun _ => rfl) fun c h => by cases h)
  | launch hc hs hm hl ha => exact .inr ⟨hm, rfl⟩
  | @conclude c state queue running last hc hs ht hq hr =>
    refine .inl (hi.of_modify rfl (fun c => c.id_finish _ _) fun c h => ?_)
    rw [Pipeline.state_finish] at h
    rw [h] at ht
    cases ht
  | skip hq h => exact .inl hi
  | forget h => exact .inl (hi.of_modify rfl (fun _ => rfl) fun c h => h)

theorem Move.running_le (h : Move p q) :
    q.running ≤ p.running ∨ p.mayAdmit = true ∧ q.running = p.running + 1 := by
  cases h with
  | launch hc hs hm hl ha => exact .inr ⟨hm, rfl⟩
  | @conclude c state queue running last hc hs ht hq hr =>
    refine .inl ?_
    change running ≤ p.running
    rw [hr]
    split
    · exact Nat.sub_le _ _
    · exact Nat.le_refl _
  | _ => exact .inl (Nat.le_refl _)

theorem Moves.starts (h : Moves p q) (hi : q.Runs i) (hn : ¬ p.Runs i) :
    ∃ r r', Moves p r ∧ Move r r' ∧ Moves r' q ∧ ¬ r.Runs i ∧ r'.Runs i ∧
      r.mayAdmit = true ∧ r'.running = r.running + 1 := by
  induction h with
  | refl => exact absurd hi hn
  | @tail r r' hm h ih =>
    by_cases hr : r.Runs i
    · obtain ⟨a, b, ha, hab, hb, hrest⟩ := ih hr
      exact ⟨a, b, ha, hab, hb.tail h, hrest⟩
    · obtain ⟨hmay, hrun⟩ := (h.starts hi).resolve_left hr
      exact ⟨r, r', hm, h, .refl, hr, hi, hmay, hrun⟩

theorem Moves.running_le (h : Moves p q) :
    q.running ≤ p.running ∨ q.state = .opened ∧ q.running ≤ q.limit := by
  induction h with
  | refl => exact .inl (Nat.le_refl _)
  | @tail r r' hm h ih =>
    have hc := h.sameControl
    rw [hc.state, hc.limit]
    rcases h.running_le with hle | ⟨hmay, hrun⟩
    · rcases ih with ih | ⟨hs, ih⟩
      · exact .inl (Nat.le_trans hle ih)
      · exact .inr ⟨hs, Nat.le_trans hle ih⟩
    · obtain ⟨hs, hlt⟩ := mayAdmit_iff.1 hmay
      exact .inr ⟨hs, by omega⟩

/-- **The count grows only in an opened pool, and only up to the limit.** -/
theorem StepMoves.running_le (h : StepMoves p q) :
    q.running ≤ p.running ∨ q.state = .opened ∧ q.running ≤ q.limit := by
  obtain ⟨p₁, p₂, hp, hm, hq⟩ := h
  rw [hq.running, hq.state, hq.limit, ← hp.running]
  exact hm.running_le

end Runs

/-! ## Nothing waits in vain -/

/-- Nothing waits while a runspace is free in an opened pool. -/
def Conserving (p : Pool) : Prop := p.mayAdmit = true → p.queue = []

section Conserving

variable {p q : Pool} {a : Attempt}

theorem Conserving.congr (h : Conserving p) (hm : q.mayAdmit = p.mayAdmit)
    (hq : q.queue = p.queue) : Conserving q := by
  intro hmay
  rw [hq]
  exact h (hm ▸ hmay)

theorem SameAccounts.mayAdmit (h : SameAccounts p q) : q.mayAdmit = p.mayAdmit := by
  unfold Pool.mayAdmit
  rw [h.state, h.running, h.limit]

theorem Conserving.of_sameAccounts (h : Conserving p) (hs : SameAccounts p q) : Conserving q :=
  h.congr hs.mayAdmit hs.queue

theorem conserving_of_state (hs : p.state ≠ .opened) : Conserving p := fun hm =>
  absurd (mayAdmit_iff.1 hm).1 hs

theorem length_queue_start (p : Pool) (c : Pipeline) :
    (p.start c).queue.length ≤ p.queue.length := by
  unfold start
  split
  · next q hq =>
    obtain ⟨l, -, -, rfl⟩ := send?_eq_some hq
    exact Nat.le_refl _
  · exact List.length_filter_le _ _

theorem length_queue_admitHead (p : Pool) :
    p.admitHead.queue.length ≤ p.queue.length - 1 := by
  unfold admitHead
  cases hq : p.queue with
  | nil => rw [hq]; exact Nat.le_refl _
  | cons id rest =>
    dsimp only
    split
    · split
      · exact length_queue_start _ _
      · exact Nat.le_refl _
    · exact Nat.le_refl _

/-- **Admitting as many times as pipelines wait leaves none waiting in vain.** -/
theorem conserving_admitUpTo {n : Nat} (hn : p.queue.length ≤ n) : Conserving (admitUpTo n p) := by
  induction n generalizing p with
  | zero => exact fun _ => List.eq_nil_of_length_eq_zero (Nat.le_zero.1 hn)
  | succ n ih =>
    unfold admitUpTo
    split
    · have := length_queue_admitHead p
      exact ih (by omega)
    · next hm => exact fun hm' => absurd hm' hm

theorem conserving_admitQueued (p : Pool) : Conserving p.admitQueued :=
  conserving_admitUpTo (Nat.le_refl _)

theorem Conserving.finish (h : Conserving p) (id : PipelineId) (s : PipelineState)
    (last : Option Value) : Conserving (p.finish id s last) := by
  unfold Pool.finish
  split
  · exact h
  · split
    · exact h
    · dsimp only
      split
      · exact conserving_admitQueued _
      · -- one place in the queue is given up
        intro hm
        have hnil : p.queue = [] := h hm
        show p.queue.filter _ = []
        rw [hnil, List.filter_nil]
      · exact h.congr rfl rfl

theorem Conserving.stop (h : Conserving p) (id : PipelineId) : Conserving (p.stop id) := by
  unfold Pool.stop
  split
  · dsimp only
    split
    · exact (h.of_sameAccounts (sameAccounts_trySend p _)).finish id _ _
    · exact h.finish id _ _
  · exact h

theorem Conserving.start (hq : p.queue = []) (c : Pipeline) : Conserving (p.start c) := by
  intro _
  have := length_queue_start p c
  rw [hq] at this
  exact List.eq_nil_of_length_eq_zero (Nat.le_zero.1 this)

theorem Conserving.create (h : Conserving p) (commands : List Command) :
    Conserving (p.create commands).1 := by
  unfold Pool.create
  split
  · exact h
  split
  · exact h
  · dsimp only
    split <;> exact h.congr rfl rfl

theorem Conserving.beginInvoke (h : Conserving p) (id : PipelineId) :
    Conserving (p.beginInvoke id).1 := by
  unfold Pool.beginInvoke
  split
  · exact h
  split
  · exact h
  split
  · exact h
  split
  · exact h
  · dsimp only
    split
    · next hfree => exact Conserving.start hfree.2 _
    · next hfree =>
      -- a pipeline joins the queue only if no runspace is free or others wait already
      intro hm
      have hlt : p.running < p.limit := (mayAdmit_iff.1 hm).2
      exact absurd ⟨hlt, h hm⟩ hfree

theorem Conserving.submit (h : Conserving p) (commands : List Command) :
    Conserving (p.submit commands).1 := by
  have hcreate := h.create commands
  unfold Pool.submit
  generalize p.create commands = made at hcreate ⊢
  obtain ⟨q, e | id⟩ := made
  · exact hcreate
  · have hinvoke := Conserving.beginInvoke hcreate id
    dsimp only at hinvoke ⊢
    generalize q.beginInvoke id = invoked at hinvoke ⊢
    obtain ⟨r, e | _⟩ := invoked <;> exact hinvoke

theorem Conserving.submitBatched (h : Conserving p) (chain : Chain) :
    Conserving (p.submitBatched chain).1 := by
  unfold Pool.submitBatched
  split
  · next fused _ =>
    split
    · have hsubmit := h.submit fused.commands
      generalize p.submit fused.commands = submitted at hsubmit ⊢
      obtain ⟨q, e | id⟩ := submitted <;> exact hsubmit
    · exact h
  · exact h

theorem Conserving.stopPipeline (h : Conserving p) (id : PipelineId) :
    Conserving (p.stopPipeline id) := by
  unfold Pool.stopPipeline
  split
  · split
    · exact h
    · exact h.stop id
  · exact h

theorem Conserving.takeStream (h : Conserving p) (id : PipelineId) (k : StreamKind) :
    Conserving (p.takeStream id k).1 := by
  unfold Pool.takeStream
  split
  · exact h
  · split
    · exact h
    · exact h.congr rfl rfl

theorem Conserving.receivePipeline (h : Conserving p) (id : PipelineId) (payload : Payload) :
    Conserving (p.receivePipeline id payload) := by
  unfold Pool.receivePipeline
  split
  · exact h
  · split
    · unfold receiveRunning
      split
      · exact h.congr rfl rfl
      · exact h.finish _ _ _
      · exact h.finish _ _ _
      · exact h.finish _ _ _
      · exact h
    · exact h

theorem Conserving.losePipeline (h : Conserving p) (id : PipelineId) (e : Fault) :
    Conserving (p.lose (.pipeline id) e) := by
  unfold lose
  dsimp only
  split
  · exact h
  · split
    · exact h.finish _ _ _
    · exact h

/-- An event about pipelines leaves none waiting in vain. -/
theorem Conserving.step_of_isWork {e : Event} (h : Conserving p) (he : e.isWork = true) :
    Conserving (p.step e) := by
  cases e with
  | create commands => exact h.create commands
  | submit commands => exact h.submit commands
  | submitBatched chain => exact h.submitBatched chain
  | beginInvoke id => exact h.beginInvoke id
  | stop id => exact h.stopPipeline id
  | dispose id => exact (h.stop id).congr rfl rfl
  | takeStream id k => exact h.takeStream id k
  | notice generation n =>
    change Conserving (p.notice generation n)
    unfold Pool.notice
    split
    · cases n with
      | message m =>
        obtain ⟨target, payload⟩ := m
        cases target with
        | pool => cases he
        | pipeline id => exact h.receivePipeline id payload
      | framingError target f | sendFailed target f =>
        cases target with
        | pool => cases he
        | pipeline id => exact h.losePipeline id f
      | closed => cases he
    · exact h
  | _ => cases he

theorem conserving_detach (hs : p.state ≠ .opened) (hm : Moves p q) : Conserving q.detach := by
  refine conserving_of_state ?_
  rw [(sameAccounts_detach q).state, hm.sameControl.state]
  exact hs

theorem Conserving.giveUp (h : Conserving p) (a : Attempt) : Conserving (p.giveUp a) := by
  have hset := h.of_sameAccounts (sameAccounts_setProgress p a .idle)
  cases a with
  | opening =>
    unfold Pool.giveUp
    dsimp only
    refine Conserving.of_sameAccounts ?_ (sameAccounts_detach _)
    split
    · exact conserving_of_state (by simp)
    · exact hset
  | reconnecting => exact hset.of_sameAccounts (sameAccounts_detach _)

/-- **A turn leaves nothing waiting in vain.** -/
theorem Turn.conserving {e : Event} (ht : Turn p e q) (h : Conserving p) (he : e.isWork = false) :
    Conserving q := by
  cases ht with
  | idle => exact h
  | work hw => cases he.symm.trans hw
  | beginOpen | closeUnopened | endClose => exact conserving_of_state (by simp)
  | beginReconnect | lineStopped => exact h.congr rfl rfl
  | outdated | unconnected => exact h.of_sameAccounts (sameAccounts_resolve p _ _)
  | greet => exact h.of_sameAccounts (sameAccounts_attach p _)
  | succeed => exact h.of_sameAccounts (sameAccounts_setProgress p _ _)
  | giveUp => exact h.giveUp _
  | beginClose hs =>
    refine conserving_detach ?_ (moves_closing _)
    rw [(sameAccounts_refuseHandshake _).state]
    rcases hs with ⟨-, rfl⟩ | ⟨-, rfl⟩ <;> simp
  | setLimit | announceLimit => exact conserving_admitQueued _
  | hostOpened =>
    exact (conserving_admitQueued _).of_sameAccounts (sameAccounts_resolve _ _ _)
  | hostRefused => exact h.of_sameAccounts (sameAccounts_answer p _ _)
  | hostEnded | lineEnded => exact conserving_detach (by simp) (moves_failAll _ _ _)
  | lineLost => exact h.of_sameAccounts (sameAccounts_detach p)

/-- **After every step nothing waits in vain.** -/
theorem Conserving.step (h : Conserving p) (e : Event) : Conserving (p.step e) := by
  cases he : e.isWork with
  | true => exact h.step_of_isWork he
  | false => exact (turn_step p e).conserving h he

theorem Conserving.run (h : Conserving p) (events : List Event) : Conserving (p.run events) := by
  induction events generalizing p with
  | nil => exact h
  | cons e events ih => exact ih (h.step e)

end Conserving

/-! ## Submissions -/

section Submit

variable {p : Pool} {commands : List Command}

theorem create_of_opened (hn : p.nextId < UInt64.size) (h0 : p.nextId ≠ 0) (hs : p.state = .opened)
    (hc : commands ≠ []) :
    ∃ id, id.raw.toNat = p.nextId ∧ p.create commands =
      ({ p with nextId := p.nextId + 1, pipelines := p.pipelines ++ [{ id, commands }] },
        .ok id) := by
  have hraw : (UInt64.ofNat p.nextId).toNat = p.nextId := Nat.mod_eq_of_lt hn
  have hne : UInt64.ofNat p.nextId ≠ 0 := fun h => h0 (by rw [← hraw, h]; rfl)
  refine ⟨⟨UInt64.ofNat p.nextId, hne⟩, hraw, ?_⟩
  have hempty : commands.isEmpty = false := by simpa using hc
  simp [create, hempty, hs, PipelineId.ofRaw?, hne]

theorem send?_of_ready {l : Line} (hl : p.line = some l) (hr : l.isReady = true)
    (ha : l.isAccepting = true) (m : Message) :
    p.send? m = some (p.emit (.queued l.generation m)) := by
  have hready : p.readyLine? = some l := by
    rw [readyLine?, hl, Option.filter_some, if_pos hr]
  rw [send?, hready]
  exact if_pos ha

/-- A runspace is available to the next invocation exactly if one is free and nothing waits. -/
theorem Conserving.available_pos (hw : Conserving p) (hs : p.state = .opened) :
    0 < p.available ↔ p.running < p.limit ∧ p.queue = [] := by
  rw [available, if_pos hs]
  constructor
  · intro hpos
    have hlt : p.running < p.limit := by omega
    exact ⟨hlt, hw (mayAdmit_iff.2 ⟨hs, hlt⟩)⟩
  · rintro ⟨hlt, -⟩
    omega

/-- A pipeline that is invoked for the first time runs at once if a runspace is free and nothing
waits, and waits otherwise. -/
theorem beginInvoke_of_new {id : PipelineId} {c : Pipeline} {l : Line}
    (hc : p.pipeline? id = some c) (hi : c.isInvoked = false) (hn : c.state = .notStarted)
    (hr : c.isRegistered = true) (hs : p.state = .opened) (hl : p.line = some l)
    (hready : l.isReady = true) (ha : l.isAccepting = true) :
    ∃ c', (p.beginInvoke id).2 = .ok () ∧ (p.beginInvoke id).1.pipeline? id = some c' ∧
      c'.commands = c.commands ∧
      c'.state = if p.running < p.limit ∧ p.queue = [] then .running else .queued := by
  obtain ⟨-, rfl⟩ := pipeline?_eq_some hc
  -- the pipeline as it is once the invocation is accepted
  let invoked (c : Pipeline) : Pipeline := { c with isInvoked := true }
  have hfind : (p.modify c.id invoked).pipeline? c.id = some (invoked c) := by
    rw [pipeline?_modify (f := invoked) fun _ => rfl, if_pos rfl, hc]
    rfl
  have henter : ∀ (q : Pool) (s : PipelineState), q.pipelines = (p.modify c.id invoked).pipelines →
      (q.modify c.id (·.enter s)).pipeline? c.id = some ((invoked c).enter s) := by
    intro q s hq
    have hsame : q.pipeline? c.id = some (invoked c) := by rw [pipeline?, hq]; exact hfind
    rw [pipeline?_modify (f := (·.enter s)) fun _ => rfl, if_pos rfl, hsame]
    rfl
  have hinvoke : p.beginInvoke c.id =
      if p.running < p.limit ∧ p.queue = [] then ((p.modify c.id invoked).start c, .ok ())
      else ({ (p.modify c.id invoked).change c.id (·.enter .queued) with
        queue := p.queue ++ [c.id] }, .ok ()) := by
    have hnew : ¬ (c.state ≠ .notStarted ∨ ¬ c.isRegistered = true) := by simp [hn, hr]
    unfold beginInvoke
    rw [hc]
    dsimp only
    rw [if_neg (by simp [hi]), if_neg (not_not_intro hs), if_neg hnew]
    rfl
  by_cases hfree : p.running < p.limit ∧ p.queue = []
  · have hsend := send?_of_ready (p := p.modify c.id invoked) hl hready ha
      (.toPipeline c.id (.createPipeline c.commands))
    rw [hinvoke, if_pos hfree, if_pos hfree, start, hsend]
    exact ⟨(invoked c).enter .running, rfl, henter _ .running rfl, rfl, rfl⟩
  · rw [hinvoke, if_neg hfree, if_neg hfree]
    exact ⟨(invoked c).enter .queued, rfl, henter _ .queued rfl, rfl, rfl⟩

/-- **A pipeline that is submitted to an opened pool whose line accepts messages runs at once if a
runspace is available, and waits otherwise.** -/
theorem submit_of_opened (h : Accounted p) (ha : Attached p) (hw : Conserving p)
    (hn : p.nextId < UInt64.size) (hs : p.state = .opened)
    (hl : ∀ l, p.line = some l → l.isAccepting = true) (hc : commands ≠ []) :
    ∃ id c, (p.submit commands).2 = .ok id ∧ (p.submit commands).1.pipeline? id = some c ∧
      c.commands = commands ∧ c.state = if 0 < p.available then .running else .queued := by
  obtain ⟨id, hid, hcreate⟩ := create_of_opened hn (by have := h.nextId_eq; omega) hs hc
  obtain ⟨l, hline, hready⟩ := ha.opened_iff.1 hs
  have hfind : ({ p with
      nextId := p.nextId + 1
      pipelines := p.pipelines ++ [{ id, commands }] } : Pool).pipeline? id =
        some { id, commands } := by
    have hnone : p.pipelines.find? (·.id = id) = none := by
      refine List.find?_eq_none.2 fun c hc => ?_
      have hlt := h.toNat_lt_nextId hc
      rw [decide_eq_true_eq]
      rintro rfl
      omega
    rw [pipeline?, List.find?_append, hnone]
    simp
  obtain ⟨c, hok, hfound, hcommands, hstate⟩ :=
    beginInvoke_of_new hfind rfl rfl rfl hs hline hready (hl l hline)
  refine ⟨id, c, ?_, ?_, hcommands, ?_⟩
  · rw [submit, hcreate]
    dsimp only
    generalize Pool.beginInvoke _ id = invoked at hok ⊢
    obtain ⟨q, e | _⟩ := invoked
    · cases hok
    · rfl
  · rw [submit, hcreate]
    dsimp only
    generalize Pool.beginInvoke _ id = invoked at hok hfound ⊢
    obtain ⟨q, e | _⟩ := invoked
    · cases hok
    · exact hfound
  · simpa only [hw.available_pos hs] using hstate

end Submit

/-! ## Runs -/

theorem run_append (p : Pool) (events : List Event) (e : Event) :
    p.run (events ++ [e]) = (p.run events).step e := by
  rw [run, List.foldl_append]
  rfl

theorem run_run (p : Pool) (before after : List Event) :
    (p.run before).run after = p.run (before ++ after) :=
  (List.foldl_append ..).symm

/-- What some events bring, each at the pool to which it comes, in order. -/
def collect {α : Type} (f : Pool → Event → List α) (p : Pool) : List Event → List α
  | [] => []
  | e :: events => f p e ++ (p.step e).collect f events

theorem collect_append {α : Type} (f : Pool → Event → List α) (p : Pool) (events : List Event)
    (e : Event) : p.collect f (events ++ [e]) = p.collect f events ++ f (p.run events) e := by
  induction events generalizing p with
  | nil => exact List.append_nil _
  | cons e' events ih =>
    show f p e' ++ (p.step e').collect f (events ++ [e]) = _
    rw [ih, ← List.append_assoc]
    rfl

theorem running_le_of_run {p : Pool} (hp : p.running ≤ p.limit) (events : List Event)
    (hl : ∀ n < events.length,
      (p.run (events.take n)).limit ≤ (p.run (events.take (n + 1))).limit) (n : Nat) :
    (p.run (events.take n)).running ≤ (p.run (events.take n)).limit := by
  induction n with
  | zero => exact hp
  | succ n ih =>
    by_cases hn : n < events.length
    · have hle := hl n hn
      rw [List.take_succ_eq_append_getElem hn, run_append] at hle ⊢
      rcases (stepMoves_step (p.run (events.take n)) events[n]).running_le with h | ⟨-, h⟩
      · exact Nat.le_trans h (Nat.le_trans ih hle)
      · exact h
    · rw [List.take_of_length_le (by omega)] at ih ⊢
      exact ih

/-- **Runspaces are neither exceeded nor left free after any events.**

In an opened pool with a free runspace nothing waits. A pipeline that a step starts is started by
one move, which finds the pool opened and a runspace free, and the count grows by no other move; so
a step makes the count grow only in an opened pool and only up to the limit, and while the limit is
never lowered the count stays within it. A list of commands that is submitted to an opened pool
whose line accepts messages runs at once exactly if a runspace is available, and waits otherwise;
the same holds of a pipeline that was made before and is invoked now. -/
theorem capacity_of_run (id : PoolId) (options : PoolOptions) (events : List Event) :
    let p := (new id options).run events
    (p.state = .opened → p.running < p.limit → p.queue = []) ∧
      (∀ e i, ¬ p.Runs i → (p.step e).Runs i →
        ∃ p₁ r r' p₂, SameWork p p₁ ∧ Moves p₁ r ∧ Move r r' ∧ Moves r' p₂ ∧
          SameAccounts p₂ (p.step e) ∧ ¬ r.Runs i ∧ r'.Runs i ∧ r.state = .opened ∧
          r.running < r.limit ∧ r'.running = r.running + 1) ∧
      (∀ e, StepMoves p (p.step e)) ∧
      (∀ r r', Move r r' → r.running < r'.running → r.state = .opened ∧ r.running < r.limit) ∧
      (∀ e, p.running < (p.step e).running →
        (p.step e).state = .opened ∧ (p.step e).running ≤ (p.step e).limit) ∧
      ((∀ n < events.length, ((new id options).run (events.take n)).limit ≤
          ((new id options).run (events.take (n + 1))).limit) →
        ∀ n, ((new id options).run (events.take n)).running ≤
          ((new id options).run (events.take n)).limit) ∧
      (p.state = .opened → (∀ l, p.line = some l → l.isAccepting = true) →
        (p.nextId < UInt64.size → ∀ commands, commands ≠ [] →
          ∃ i c, (p.submit commands).2 = .ok i ∧ (p.submit commands).1.pipeline? i = some c ∧
            c.commands = commands ∧ c.state = if 0 < p.available then .running else .queued) ∧
        ∀ i c, p.pipeline? i = some c → c.isInvoked = false → c.state = .notStarted →
          c.isRegistered = true →
          ∃ c', (p.beginInvoke i).2 = .ok () ∧ (p.beginInvoke i).1.pipeline? i = some c' ∧
            c'.commands = c.commands ∧
            c'.state = if 0 < p.available then .running else .queued) := by
  intro p
  have hw : Conserving p := Conserving.run (fun _ => rfl) events
  have ha : Attached p := (attached_new id options).run events
  refine ⟨fun hs hlt => hw (mayAdmit_iff.2 ⟨hs, hlt⟩), fun e i hn hi => ?_,
    stepMoves_step p, fun r r' h hlt => ?_, fun e hlt => ?_,
    running_le_of_run (Nat.zero_le _) events, fun hs hl => ⟨fun hn commands hc => ?_,
      fun i c hc hi hnew hr => ?_⟩⟩
  · obtain ⟨p₁, p₂, hp, hm, hq⟩ := stepMoves_step p e
    obtain ⟨r, r', hr, h, hr', hnr, hir, hmay, hrun⟩ :=
      hm.starts (hi.congr hq.pipelines) fun h => hn (h.congr hp.pipelines)
    obtain ⟨hs, hlt⟩ := mayAdmit_iff.1 hmay
    exact ⟨p₁, r, r', p₂, hp, hr, h, hr', hq, hnr, hir, hs, hlt, hrun⟩
  · rcases h.running_le with hle | ⟨hmay, -⟩
    · omega
    · exact mayAdmit_iff.1 hmay
  · rcases (stepMoves_step p e).running_le with hle | hopen
    · omega
    · exact hopen
  · have h : Accounted p := (accounted_new id options).run events (Nat.le_of_lt hn)
    exact submit_of_opened h ha hw hn hs hl hc
  · obtain ⟨l, hline, hready⟩ := ha.opened_iff.1 hs
    simp only [hw.available_pos hs]
    exact beginInvoke_of_new hc hi hnew hr hs hline hready (hl l hline)

/-- A third pipeline that is submitted to a pool for two waits. -/
theorem capacity_of_run_third :
    let p := (new (.ofDraw 0) { maxRunspaces := 2 }).run
      [.beginOpen, .connected .opening, .notice 1 (.message (.toPool (.poolState .opened none))),
        .submit [⟨"Get-Item", []⟩], .submit [⟨"Get-Item", []⟩]]
    p.state = .opened ∧ p.available = 0 ∧ p.queue = [] ∧ p.running ≤ p.limit ∧
      ∃ i c, (p.submit [⟨"Get-Item", []⟩]).2 = .ok i ∧
        (p.submit [⟨"Get-Item", []⟩]).1.pipeline? i = some c ∧ c.state = .queued := by
  intro p
  obtain ⟨-, -, -, -, -, hlimit, hsubmit⟩ := capacity_of_run (.ofDraw 0) { maxRunspaces := 2 }
    [.beginOpen, .connected .opening, .notice 1 (.message (.toPool (.poolState .opened none))),
      .submit [⟨"Get-Item", []⟩], .submit [⟨"Get-Item", []⟩]]
  obtain ⟨i, c, hok, hc, -, hs⟩ := (hsubmit (by decide) (by decide)).1 (by decide)
    [⟨"Get-Item", []⟩] (by decide)
  exact ⟨by decide, by decide, by decide, hlimit (by decide) 5, i, c, hok, hc, hs⟩

end Pool

end Runspace
