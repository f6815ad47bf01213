import Runspace.Proofs.Pool.Deeds

/-!
# Turns — what a step does to a pool

An event does something to pipelines only, or it changes the pool itself in one of few ways, of
which each has its condition.

* `Event.ending`, `Event.Fits`: how an event ends a pipeline, and which deeds fit it;
* `Event.isInvocation`, `Event.isWork`: whether it invokes a pipeline, or is about pipelines at all;
* `Pool.attach`, `Pool.ready`, `Pool.shutDown`, `Pool.leave`: the changes that take some steps;
* `Turn`, **`turn_step`**: all that a step can do.
-/

namespace Runspace

/-! ## What events mean to pipelines -/

/-- How a piece of news ends a pipeline, if it does. -/
def Notice.ending (id : PipelineId) : Notice → Option Ending
  | .message ⟨.pipeline i, payload⟩ => if i = id then payload.ending else none
  | .message ⟨.pool, .poolState .opened _⟩ => none
  | .message ⟨.pool, .poolState state reason⟩ =>
    some (.failed (Fault.connection (Pool.endReason state reason)).record)
  | .framingError (.pipeline i) e | .sendFailed (.pipeline i) e =>
    if i = id then some (.failed e.record) else none
  | .closed e => some (.failed (Pool.closeReason e).record)
  | _ => none

theorem Attempt.expected_ne_opened (a : Attempt) : a.expected ≠ .opened := by cases a <;> decide

namespace Pool

/-- How an event ends a pipeline, if it does. -/
def Event.ending (id : PipelineId) : Event → Option Ending
  | .notice _ n => n.ending id
  | _ => none

/-- Whether an event is a call that invokes a pipeline. -/
def Event.isInvocation : Event → Bool
  | .submit _ | .submitBatched _ | .beginInvoke _ => true
  | _ => false

/-- Whether a deed is one that an event may bring about. -/
def Event.Fits (e : Event) : Deed → Prop
  | .record id k v => ∃ generation, e = .notice generation (.message (.toPipeline id (.record k v)))
  | .conclude id x => e.ending id = some x
  | .halt id | .refuse id => e.ending id = none
  | .invoke _ | .wait _ => e.isInvocation = true
  | _ => True

/-- Whether an event is about pipelines rather than about the pool itself. -/
def Event.isWork : Event → Bool
  | .create _ | .submit _ | .submitBatched _ | .beginInvoke _ | .stop _ | .dispose _
  | .takeStream _ _ => true
  | .notice _ (.message ⟨.pipeline _, _⟩) | .notice _ (.framingError (.pipeline _) _)
  | .notice _ (.sendFailed (.pipeline _) _) => true
  | _ => false

theorem Event.fits_of_ending {e : Event} {d : Deed} (he : ∀ id, e.ending id = none)
    (hd : d.isOutcome = false) (hin : d.isEntry = false) : e.Fits d := by
  cases d with
  | refuse id => exact he id
  | record | conclude | halt => cases hd
  | invoke | wait => cases hin
  | _ => trivial

theorem Event.fits_of_entry {e : Event} {d : Deed} (he : e.isInvocation = true)
    (hd : d.isEntry = true) : e.Fits d := by
  cases d with
  | invoke | wait => exact he
  | _ => cases hd

theorem Event.fits_of_admission {e : Event} {d : Deed} {id : PipelineId}
    (he : ∀ i, i ≠ id → e.ending i = none) (hd : d.isAdmission = true) (hne : d ≠ .refuse id) :
    e.Fits d := by
  cases d with
  | refuse i => exact he i fun hi => hne (hi ▸ rfl)
  | launch | skip => trivial
  | _ => cases hd

/-! ## Changes of a pool -/

/-- A pool with a new channel as its line, on which the host was greeted. -/
def attach (p : Pool) (a : Attempt) : Pool :=
  ({ p.setProgress a .waiting with
    generation := p.generation + 1
    line := some { generation := p.generation + 1 }
    handshake := some a }.emit (.started (p.generation + 1))).emit
      (.queued (p.generation + 1) (.toPool (p.hello a)))

/-- A pool whose host has answered. -/
def ready (p : Pool) : Pool :=
  { p with
    line := p.line.map fun l => { l with isReady := true }
    state := .opened
    handshake := none }

/-- A pool that is being closed: everything is stopped, the host is told, and the line is given
up. -/
def shutDown (p : Pool) : Pool :=
  ((p.stopAll (p.idsWhere fun s => ¬ s.isTerminal)).trySend (.toPool .closePool)).detach

/-- A pool that leaves the opened state: what the next state does not keep fails, and the line is
given up. -/
def leave (p : Pool) (next : PoolState) (e : Fault) (fails : PipelineState → Bool) : Pool :=
  let p := { p with state := next }
  (p.failAll e (p.idsWhere fails)).detach

/-- All that an event can do to a pool. -/
inductive Turn (p : Pool) : Event → Pool → Prop where
  | idle {e : Event} : Turn p e p
  | work {e : Event} {q : Pool} (he : e.isWork = true) (h : Course e.Fits p q) : Turn p e q
  | beginOpen (hs : p.state = .beforeOpen) (hv : p.options.validate = .ok ()) :
    Turn p .beginOpen { p with state := .opening, opening := .connecting }
  | beginReconnect (hs : p.state = .disconnected) (hr : p.isReconnecting = false) :
    Turn p .beginReconnect { p with reconnecting := .connecting }
  | outdated {a : Attempt} (ha : p.progress a = .connecting) (hs : p.state ≠ a.expected) :
    Turn p (.connected a) (p.resolve a (.error (.invalidState a.operation p.state.text)))
  | unconnected {a : Attempt} {f : Fault} (ha : p.progress a = .connecting) :
    Turn p (.connectFailed a f) (p.resolve a (.error f.asConnection))
  | greet {a : Attempt} (ha : p.progress a = .connecting) (hs : p.state = a.expected) :
    Turn p (.connected a) (p.attach a)
  | succeed {a : Attempt} (ha : p.progress a = .answered (.ok ())) :
    Turn p (.resume a) (p.setProgress a .idle)
  | giveUp {a : Attempt} {f : Fault} (ha : p.progress a = .answered (.error f)) :
    Turn p (.resume a) (p.giveUp a)
  | closeUnopened (hs : p.state = .beforeOpen) : Turn p .beginClose { p with state := .closed }
  | beginClose {next : PoolState} (hs : p.state = .opened ∧ next = .closing ∨
      (p.state = .opening ∨ p.state = .disconnected) ∧ next = .closed) :
    Turn p .beginClose { p with state := next }.refuseHandshake.shutDown
  | endClose (hs : p.state = .closing) : Turn p .endClose { p with state := .closed }
  | setLimit {n : Nat} (hn : n ≤ maxWireCount) (hm : p.options.minRunspaces ≤ n)
    (hs : p.state = .beforeOpen ∨ p.state = .disconnected ∨
      p.state = .opened ∧ p.readyLine? = none) :
    Turn p (.setMaxRunspaces n) { p with limit := n }.admitQueued
  | announceLimit {n : Nat} {l : Line} (hn : n ≤ maxWireCount) (hm : p.options.minRunspaces ≤ n)
    (hs : p.state = .opened) (hl : p.readyLine? = some l) (ha : l.isAccepting = true) :
    Turn p (.setMaxRunspaces n) ({ p.emit (.queued l.generation
      (.toPool (.setMaxRunspaces (UInt32.ofNat n)))) with limit := n }.admitQueued)
  | hostOpened {a : Attempt} {reason : Option String} (ha : p.handshake = some a) :
    Turn p (.notice p.generation (.message (.toPool (.poolState .opened reason))))
      (p.ready.admitQueued.resolve a (.ok ()))
  | hostRefused {n : Notice} {a : Attempt} {f : Fault} (ha : p.handshake = some a) :
    Turn p (.notice p.generation n) (p.answer a (.error f))
  | hostEnded {state : HostPoolState} {reason : Option String} (hh : p.handshake = none)
    (hs : p.state = .opened) (he : state ≠ .opened) :
    Turn p (.notice p.generation (.message (.toPool (.poolState state reason))))
      (p.leave .broken (.connection (endReason state reason)) fun s => s = .running ∨ s = .queued)
  | lineEnded {f : Option Fault} (hh : p.handshake = none) (hs : p.state = .opened) :
    Turn p (.notice p.generation (.closed f))
      (p.leave .disconnected (closeReason f) fun s => s = .running)
  | lineLost {f : Option Fault} (hh : p.handshake = none) (hs : p.state ≠ .opened) :
    Turn p (.notice p.generation (.closed f)) p.detach
  | lineStopped {generation : Nat} : Turn p (.lineStopped generation) (p.lineStopped generation)

/-! ## Steps -/

section Steps

variable (p : Pool)

theorem wireCount_eq_ok {n : Nat} {count : UInt32} (h : wireCount n = .ok count) :
    n ≤ maxWireCount ∧ count = UInt32.ofNat n := by
  unfold wireCount at h
  split at h
  · cases h
  · next hn => exact ⟨Nat.not_lt.1 hn, (Except.ok.inj h).symm⟩

theorem turn_beginOpen : Turn p .beginOpen p.beginOpen.1 := by
  unfold Pool.beginOpen
  split
  · exact .idle
  · next hv =>
    split
    · exact .idle
    · next hs =>
      refine .beginOpen (Decidable.not_not.1 hs) ?_
      cases hvalid : p.options.validate with
      | ok => rfl
      | error e =>
        rw [hvalid] at hv
        cases hv

theorem turn_beginReconnect : Turn p .beginReconnect p.beginReconnect.1 := by
  unfold Pool.beginReconnect
  split
  · exact .idle
  · next hs =>
    split
    · exact .idle
    · next hr => exact .beginReconnect (Decidable.not_not.1 hs) (Bool.not_eq_true _ ▸ hr)

theorem turn_connected (a : Attempt) : Turn p (.connected a) (p.connected a) := by
  unfold Pool.connected
  split
  · next ha =>
    split
    · next hs => exact .outdated ha hs
    · next hs =>
      have h : Turn p (.connected a) (p.attach a) := .greet ha (Decidable.not_not.1 hs)
      cases a <;> exact h
  · exact .idle

theorem turn_connectFailed (a : Attempt) (f : Fault) :
    Turn p (.connectFailed a f) (p.connectFailed a f) := by
  unfold Pool.connectFailed
  split
  · next ha => exact .unconnected ha
  · exact .idle

theorem turn_resume (a : Attempt) : Turn p (.resume a) (p.resume a).1 := by
  unfold Pool.resume
  split
  · next ha => exact .succeed ha
  · next ha => exact .giveUp ha
  · exact .idle

theorem turn_beginClose : Turn p .beginClose p.beginClose := by
  unfold Pool.beginClose
  split
  · exact .idle
  · exact .idle
  · exact .idle
  · next hs => exact .closeUnopened hs
  · next hs => exact .beginClose (.inr ⟨.inl hs, by simp [hs]⟩)
  · next hs => exact .beginClose (.inl ⟨hs, by simp [hs]⟩)
  · next hs => exact .beginClose (.inr ⟨.inr hs, by simp [hs]⟩)

/-- A call that changes the limit is refused, or the limit changes, and is announced if there is a
line. -/
theorem setMaxRunspaces_cases (n : Nat) :
    (∃ f, p.setMaxRunspaces n = (p, .error f)) ∨
    n ≤ maxWireCount ∧ p.options.minRunspaces ≤ n ∧
      ((p.state = .beforeOpen ∨ p.state = .disconnected ∨
          p.state = .opened ∧ p.readyLine? = none) ∧
        p.setMaxRunspaces n = ({ p with limit := n }.admitQueued, .ok ()) ∨
      ∃ l, p.state = .opened ∧ p.readyLine? = some l ∧ l.isAccepting = true ∧
        p.setMaxRunspaces n = ({ p.emit (.queued l.generation
          (.toPool (.setMaxRunspaces (UInt32.ofNat n)))) with limit := n }.admitQueued,
          .ok ())) := by
  unfold Pool.setMaxRunspaces
  split
  · exact .inl ⟨_, rfl⟩
  · next hcount =>
    obtain ⟨hn, rfl⟩ := wireCount_eq_ok hcount
    split
    · exact .inl ⟨_, rfl⟩
    · next hm =>
      rw [Nat.not_lt] at hm
      split
      · next hs => exact .inr ⟨hn, hm, .inl ⟨.inl hs, rfl⟩⟩
      · next hs => exact .inr ⟨hn, hm, .inl ⟨.inr (.inl hs), rfl⟩⟩
      · next hs =>
        split
        · next hl =>
          exact .inr ⟨hn, hm, .inl ⟨.inr (.inr ⟨hs, Option.isNone_iff_eq_none.1 hl⟩), rfl⟩⟩
        · split
          · next q hq =>
            obtain ⟨l, hl, ha, rfl⟩ := send?_eq_some hq
            exact .inr ⟨hn, hm, .inr ⟨l, hs, hl, ha, rfl⟩⟩
          · exact .inl ⟨_, rfl⟩
      · exact .inl ⟨_, rfl⟩

theorem turn_setMaxRunspaces (n : Nat) :
    Turn p (.setMaxRunspaces n) (p.setMaxRunspaces n).1 := by
  rcases setMaxRunspaces_cases p n with ⟨f, h⟩ | ⟨hn, hm, ⟨hs, h⟩ | ⟨l, hs, hl, ha, h⟩⟩
  · rw [h]
    exact .idle
  · rw [h]
    exact .setLimit hn hm hs
  · rw [h]
    exact .announceLimit hn hm hs hl ha

theorem turn_receivePool (payload : Payload) :
    Turn p (.notice p.generation (.message (.toPool payload))) (p.receivePool payload) := by
  unfold receivePool
  split
  · unfold Pool.hostOpened
    split
    · exact .idle
    · next ha => exact .hostOpened ha
  · next he =>
    unfold Pool.hostEnded
    split
    · next ha => exact .hostRefused ha
    · next hh =>
      split
      · next hs => exact .hostEnded hh hs fun h => he h
      · exact .idle
  · exact .idle

theorem course_lose {e : Event} {id : PipelineId} {f : Fault}
    (he : ∀ i, e.ending i = if id = i then some (.failed f.record) else none) :
    Course e.Fits p (p.lose (.pipeline id) f) := by
  refine course_losePipeline ((he id).trans (if_pos rfl)) fun d hd hne => ?_
  exact Event.fits_of_admission (fun i hi => (he i).trans (if_neg (Ne.symm hi))) hd hne

theorem turn_lose {n : Notice} {target : Target} (f : Fault)
    (hw : ∀ id, target = .pipeline id → (Event.notice p.generation n).isWork = true)
    (he : ∀ id, target = .pipeline id →
      ∀ i, n.ending i = if id = i then some (.failed f.record) else none) :
    Turn p (.notice p.generation n) (p.lose target f) := by
  cases target with
  | pool =>
    unfold lose
    dsimp only
    split
    · next ha => exact .hostRefused ha
    · exact .idle
  | pipeline id => exact .work (hw id rfl) (course_lose p (he id rfl))

theorem turn_lineClosed (f : Option Fault) :
    Turn p (.notice p.generation (.closed f)) (p.lineClosed f) := by
  unfold lineClosed
  split
  · next ha => exact .hostRefused ha
  · next hh =>
    split
    · next hs => exact .lineEnded hh hs
    · next hs => exact .lineLost hh hs

theorem turn_notice (generation : Nat) (n : Notice) :
    Turn p (.notice generation n) (p.notice generation n) := by
  unfold Pool.notice
  split
  · next hg =>
    subst hg
    cases n with
    | message m =>
      obtain ⟨target, payload⟩ := m
      cases target with
      | pool => exact turn_receivePool p payload
      | pipeline id =>
        refine .work rfl (course_receivePipeline ?_ ?_ ?_)
        · rintro k v rfl
          exact ⟨p.generation, rfl⟩
        · exact fun x hx => (if_pos rfl).trans hx
        · exact fun d hd hne =>
            Event.fits_of_admission (fun i hi => if_neg (Ne.symm hi)) hd hne
    | framingError target f | sendFailed target f =>
      refine turn_lose p f (fun id h => ?_) fun id h i => ?_
      · rw [h]
        rfl
      · rw [h]
        rfl
    | closed f => exact turn_lineClosed p f
  · exact .idle

/-- **Every step is a turn.** -/
theorem turn_step (e : Event) : Turn p e (p.step e) := by
  have hcall : (∀ id, e.ending id = none) →
      ∀ d, d.isOutcome = false → d.isEntry = false → e.Fits d := fun he _ => Event.fits_of_ending he
  have hin : e.isInvocation = true → ∀ d, d.isEntry = true → e.Fits d := fun he _ =>
    Event.fits_of_entry he
  cases e with
  | beginOpen => exact turn_beginOpen p
  | beginReconnect => exact turn_beginReconnect p
  | connected a => exact turn_connected p a
  | connectFailed a f => exact turn_connectFailed p a f
  | resume a => exact turn_resume p a
  | beginClose => exact turn_beginClose p
  | endClose =>
    simp only [step, Pool.endClose]
    split
    · next hs => exact .endClose hs
    · exact .idle
  | setMaxRunspaces n => exact turn_setMaxRunspaces p n
  | create commands => exact .work rfl (deeds_create (hcall fun _ => rfl) p commands).course
  | submit commands =>
    exact .work rfl (deeds_submit (hcall fun _ => rfl) p (hin rfl) commands).course
  | submitBatched chain =>
    exact .work rfl (deeds_submitBatched (hcall fun _ => rfl) p (hin rfl) chain).course
  | beginInvoke id => exact .work rfl (deeds_beginInvoke (hcall fun _ => rfl) p (hin rfl) id).course
  | stop id => exact .work rfl (course_stopPipeline (hcall fun _ => rfl) p rfl)
  | dispose id => exact .work rfl (course_dispose (hcall fun _ => rfl) p rfl)
  | takeStream id k => exact .work rfl (deeds_takeStream (hcall fun _ => rfl) p id k).course
  | notice generation n => exact turn_notice p generation n
  | lineStopped generation => exact .lineStopped

end Steps

end Pool

end Runspace
