import Mathlib.Data.List.Induction
import Runspace.Proofs.Pool.Capacity
import Runspace.Proofs.Pool.Inertness

/-!
# Attempts — how far a call that gets a channel has come

A call that opens a pool, or attaches to it again, is made of steps between which anything may
happen. Until its caller resumes, the attempt is connecting, then waits for its host on a channel of
its own, and is decided once: it fails, or it succeeds by the host's answer on that channel.

* `Attempt.call`, `Pool.attempt`: how an attempt begins;
* `Setback`, **`Setback.fails`**: the ways in which it can fail;
* `Stride`, **`Turn.stride`**: all that a step can do to it;
* `Waits`, `Trial`, **`trial_run`**: how far it has come after any events;
* `PoolState.isShut`, `PoolState.isOver`, **`state_of_unsettled`**: the state of the pool meanwhile;
* **`engaged_run`**: a pool is opening only while an attempt to open it has not succeeded.
-/

namespace Runspace

/-- The call with which an attempt begins. -/
def Attempt.call : Attempt → Pool.Event
  | .opening => .beginOpen
  | .reconnecting => .beginReconnect

/-- The state of a pool after an attempt has failed. -/
def Attempt.fallback : Attempt → PoolState
  | .opening => .broken
  | .reconnecting => .disconnected

namespace Pool

/-- Begins an attempt, and says whether it is made. -/
def attempt (p : Pool) : Attempt → Pool × Except Fault Unit
  | .opening => p.beginOpen
  | .reconnecting => p.beginReconnect

/-- The host's answer that the pool is opened, on a channel. -/
abbrev Event.accept (generation : Nat) (reason : Option String) : Event :=
  .notice generation (.message (.toPool (.poolState .opened reason)))

/-! ## What becomes of a handshake -/

section Handshakes

variable (p : Pool) (a b : Attempt)

theorem progress_attach :
    (p.attach a).progress b = if b = a then .waiting else p.progress b := by
  cases a <;> cases b <;> rfl

theorem progress_abandonHandshake : p.abandonHandshake.progress a =
    if p.handshake = some a then .answered (.error (.connection "handshake abandoned"))
      else p.progress a := by
  unfold abandonHandshake
  split
  · next hn => simp [hn]
  · next b hb =>
    rw [progress_answer, hb]
    simp only [Option.some_inj, eq_comm]

theorem handshake_abandonHandshake : p.abandonHandshake.handshake = none := by
  unfold abandonHandshake
  split
  · next hn => exact hn
  · rfl

theorem progress_refuseHandshake : p.refuseHandshake.progress a =
    if p.handshake = some a then .answered (.error (.connection "pool closed during handshake"))
      else p.progress a := by
  unfold refuseHandshake
  split
  · next hn => simp [hn]
  · next b hb =>
    rw [progress_answer, hb]
    simp only [Option.some_inj, eq_comm]

theorem handshake_refuseHandshake : p.refuseHandshake.handshake = none := by
  unfold refuseHandshake
  split
  · next hn => exact hn
  · rfl

theorem progress_detach : p.detach.progress a =
    if p.handshake = some a then .answered (.error (.connection "handshake abandoned"))
      else p.progress a := by
  have h := progress_abandonHandshake { p with generation := p.generation + 1, line := none } a
  have hp : ({ p with generation := p.generation + 1, line := none } : Pool).progress a =
      p.progress a := by cases a <;> rfl
  rw [hp] at h
  unfold detach
  cases p.line with
  | none => exact h
  | some l => exact (by cases a <;> rfl : Pool.progress _ a = _).trans h

theorem handshake_detach : p.detach.handshake = none := by
  unfold detach
  cases p.line with
  | none => exact handshake_abandonHandshake _
  | some l => exact handshake_abandonHandshake _

theorem progress_shutDown (hh : p.handshake = none) : p.shutDown.progress a = p.progress a := by
  have hc := (moves_closing p).sameControl
  rw [shutDown, progress_detach, hc.handshake, hh, if_neg (by simp), hc.progress]

theorem progress_leave (next : PoolState) (f : Fault) (fails : PipelineState → Bool)
    (hh : p.handshake = none) : (p.leave next f fails).progress a = p.progress a := by
  have hset : ({ p with state := next } : Pool).handshake = none ∧
      ({ p with state := next } : Pool).progress a = p.progress a := ⟨hh, by cases a <;> rfl⟩
  unfold leave
  dsimp only
  generalize ({ p with state := next } : Pool) = q at hset ⊢
  have hc : SameControl q (q.failAll f (q.idsWhere fails)) := (moves_failAll _ _ _).sameControl
  rw [progress_detach, hc.handshake, hset.1, if_neg (by simp), hc.progress, hset.2]

theorem handshake_giveUp : (p.giveUp a).handshake = none := by
  cases a <;> exact handshake_detach _

theorem progress_giveUp : (p.giveUp a).progress b =
    if p.handshake = some b then .answered (.error (.connection "handshake abandoned"))
      else if b = a then .idle else p.progress b := by
  cases a with
  | opening =>
    unfold giveUp
    dsimp only
    rw [progress_detach]
    split <;> cases b <;> rfl
  | reconnecting =>
    unfold giveUp
    dsimp only
    rw [progress_detach, handshake_setProgress, progress_setProgress]

end Handshakes

/-! ## Setbacks -/

/-- The ways in which an attempt can fail: what can be told to a pool that is connecting, or that
waits for its host. -/
inductive Setback (p : Pool) (a : Attempt) : Event → Prop where
  | connector (ha : p.progress a = .connecting) (f : Fault) : Setback p a (.connectFailed a f)
  | outdated (ha : p.progress a = .connecting) (hs : p.state ≠ a.expected) :
    Setback p a (.connected a)
  | host (ha : p.progress a = .waiting) {state : HostPoolState} (hs : state ≠ .opened)
    (reason : Option String) :
    Setback p a (.notice p.generation (.message (.toPool (.poolState state reason))))
  | malformed (ha : p.progress a = .waiting) (f : Fault) :
    Setback p a (.notice p.generation (.framingError .pool f))
  | unsendable (ha : p.progress a = .waiting) (f : Fault) :
    Setback p a (.notice p.generation (.sendFailed .pool f))
  | ended (ha : p.progress a = .waiting) (f : Option Fault) :
    Setback p a (.notice p.generation (.closed f))
  | closing (ha : p.progress a = .waiting) : Setback p a .beginClose

section Setbacks

variable {p : Pool} {a : Attempt} {e : Event}

/-- While a pool waits for its host it is neither closed nor unopened, so that closing it does
something. -/
theorem Attached.beginClose_eq (h : Attached p) (hh : p.handshake = some a) :
    Pool.beginClose p = { p with state := .closed }.refuseHandshake.shutDown := by
  have hs := (h.handshake a hh).1
  unfold Pool.beginClose
  cases a <;> rw [hs] <;> rfl

/-- **Every setback fails the attempt.** -/
theorem Setback.fails (h : Setback p a e) (hp : Attached p) :
    ∃ f, (p.step e).progress a = .answered (.error f) := by
  have hself : ∀ r, (p.answer a r).progress a = .answered r := fun r => by
    rw [progress_answer, if_pos rfl]
  cases h with
  | connector ha f =>
    refine ⟨f.asConnection, ?_⟩
    rw [step, Pool.connectFailed, ha]
    exact (progress_resolve p a a _).trans (if_pos rfl)
  | outdated ha hs =>
    refine ⟨.invalidState a.operation p.state.text, ?_⟩
    rw [step, Pool.connected, ha]
    dsimp only
    rw [if_pos hs]
    exact (progress_resolve p a a _).trans (if_pos rfl)
  | @host ha state hs reason =>
    have hh := (hp.waiting_iff a).1 ha
    refine ⟨.connection (endReason state reason), ?_⟩
    have hstep : p.step (.notice p.generation (.message (.toPool (.poolState state reason)))) =
        p.hostEnded (.connection (endReason state reason)) := by
      refine (if_pos rfl).trans ?_
      cases state with
      | opened => exact absurd rfl hs
      | broken | closed => rfl
    rw [hstep, Pool.hostEnded, hh]
    exact hself _
  | malformed ha f | unsendable ha f =>
    have hh := (hp.waiting_iff a).1 ha
    refine ⟨f.asConnection, ?_⟩
    rw [step, Pool.notice, if_pos rfl, lose, hh]
    exact hself _
  | ended ha f =>
    have hh := (hp.waiting_iff a).1 ha
    refine ⟨closeReason f, ?_⟩
    rw [step, Pool.notice, if_pos rfl, lineClosed, hh]
    exact hself _
  | closing ha =>
    have hh := (hp.waiting_iff a).1 ha
    refine ⟨.connection "pool closed during handshake", ?_⟩
    rw [step, hp.beginClose_eq hh, progress_shutDown _ _ (handshake_refuseHandshake _),
      progress_refuseHandshake]
    exact if_pos hh

end Setbacks

/-! ## Strides -/

/-- What an event can do to an attempt that was begun, unless its caller resumes. -/
inductive Stride (p : Pool) (a : Attempt) : Event → Pool → Prop where
  | stays {e : Event} {q : Pool} (h : q.progress a = p.progress a)
    (hg : p.progress a = .waiting → q.generation = p.generation) : Stride p a e q
  | fails {e : Event} {q : Pool} {f : Fault}
    (hu : p.progress a = .connecting ∨ p.progress a = .waiting)
    (h : q.progress a = .answered (.error f)) : Stride p a e q
  | greets (ha : p.progress a = .connecting) (hs : p.state = a.expected) :
    Stride p a (.connected a) (p.attach a)
  | succeeds {reason : Option String} (ha : p.handshake = some a) :
    Stride p a (.accept p.generation reason) (p.ready.admitQueued.resolve a (.ok ()))

section Strides

variable {p q : Pool} {a b : Attempt} {e : Event} {f : Fault} {r : Except Fault Unit}

theorem Stride.of_sameControl (hc : SameControl p q) : Stride p a e q :=
  .stays (hc.progress a) fun _ => hc.generation

/-- An attempt fails if its host had to answer and its handshake is given up, and it stays as it is
otherwise. -/
theorem Pending.stride_of_lost (h : Pending p)
    (hq : q.progress a = if p.handshake = some a then .answered (.error f) else p.progress a) :
    Stride p a e q := by
  by_cases hh : p.handshake = some a
  · rw [if_pos hh] at hq
    exact .fails (.inr ((h.waiting_iff a).2 hh)) hq
  · rw [if_neg hh] at hq
    exact .stays hq fun hw => absurd ((h.waiting_iff a).1 hw) hh

theorem Pending.stride_of_none (h : Pending p) (hh : p.handshake = none)
    (hq : q.progress a = p.progress a) : Stride p a e q :=
  .stays hq fun hw => by cases hh.symm.trans ((h.waiting_iff a).1 hw)

theorem stride_resolve (hb : p.progress b = .connecting) :
    Stride p a e (p.resolve b (.error f)) := by
  by_cases hab : a = b
  · subst hab
    exact .fails (.inl hb) ((progress_resolve p a a _).trans (if_pos rfl))
  · exact .stays ((progress_resolve p b a _).trans (if_neg hab)) fun _ => generation_resolve p b _

/-- **A turn does nothing to an attempt, or leads it on, or decides it.** -/
theorem Turn.stride (ht : Turn p e q) (h : Attached p) (hs : p.state ≠ .beforeOpen)
    (ha : p.progress a ≠ .idle) (he : e ≠ .resume a) : Stride p a e q := by
  cases ht with
  | idle => exact .of_sameControl (.refl p)
  | work _ hd => exact .of_sameControl hd.moves.sameControl
  | beginOpen hb => exact absurd hb hs
  | beginReconnect _ hr =>
    cases a with
    | opening => exact .stays rfl fun _ => rfl
    | reconnecting =>
      unfold isReconnecting at hr
      split at hr
      · next hidle => exact absurd hidle ha
      · cases hr
  | outdated hb | unconnected hb => exact stride_resolve hb
  | @greet b hb hexp =>
    by_cases hab : a = b
    · subst hab
      exact .greets hb hexp
    · refine .stays ((progress_attach p b a).trans (if_neg hab)) fun hw => ?_
      -- while one attempt goes on the other does not
      have hset := h.isSettled_of_ne hexp hab
      rw [hw] at hset
      cases hset
  | @succeed b =>
    have hab : a ≠ b := fun hab => he (hab ▸ rfl)
    exact .stays ((progress_setProgress p b a _).trans (if_neg hab))
      fun _ => generation_setProgress p b _
  | @giveUp b f hb =>
    have hab : a ≠ b := fun hab => he (hab ▸ rfl)
    exact h.toPending.stride_of_lost ((progress_giveUp p b a).trans (by rw [if_neg hab]))
  | closeUnopened hb => exact absurd hb hs
  | beginClose =>
    refine h.toPending.stride_of_lost (f := .connection "pool closed during handshake") ?_
    rw [progress_shutDown _ _ (handshake_refuseHandshake _), progress_refuseHandshake]
    cases a <;> rfl
  | endClose => exact .stays (by cases a <;> rfl) fun _ => rfl
  | @setLimit n | @announceLimit n =>
    have hset : ∀ q : Pool, SameControl q q.admitQueued := fun q =>
      (moves_admitQueued q).sameControl
    exact .stays (((hset _).progress a).trans (by cases a <;> rfl)) fun _ => (hset _).generation
  | @hostOpened b reason hb =>
    by_cases hab : a = b
    · subst hab
      exact .succeeds hb
    · have hc : SameControl p.ready p.ready.admitQueued := (moves_admitQueued _).sameControl
      refine .stays ((progress_resolve _ b a _).trans ?_) fun _ => ?_
      · rw [if_neg hab, hc.progress]
        cases a <;> rfl
      · rw [generation_resolve, hc.generation]
        rfl
  | @hostRefused n b f hb =>
    by_cases hab : a = b
    · subst hab
      exact .fails (.inr ((h.waiting_iff a).2 hb)) ((progress_answer p a a _).trans (if_pos rfl))
    · exact .stays ((progress_answer p b a _).trans (if_neg hab)) fun _ => generation_answer p b _
  | hostEnded hh | lineEnded hh => exact h.stride_of_none hh (progress_leave p a _ _ _ hh)
  | lineLost hh =>
    exact h.stride_of_none hh ((progress_detach p a).trans (if_neg (by simp [hh])))
  | lineStopped => exact .stays (by cases a <;> rfl) fun _ => rfl

end Strides

/-! ## The states of a pool meanwhile -/

end Pool

namespace PoolState

/-- Whether a pool is being closed, or is closed. -/
def isShut : PoolState → Bool
  | .closing | .closed => true
  | _ => false

/-- Whether a pool is closed or is broken, or will be closed. -/
def isOver : PoolState → Bool
  | .closing | .closed | .broken => true
  | _ => false

theorem isOver_of_mem_next {s t : PoolState} (hs : s.isOver = true) (ht : t ∈ s.next) :
    t.isOver = true := by
  revert hs ht
  cases s <;> cases t <;> decide

theorem ne_beforeOpen_of_mem_next {s t : PoolState} (ht : t ∈ s.next) : t ≠ .beforeOpen := by
  rintro rfl
  cases s <;> simp [next] at ht

end PoolState

theorem Attempt.isOver_expected (a : Attempt) : a.expected.isOver = false := by cases a <;> rfl

namespace Pool

section States

variable {p q : Pool} {a : Attempt} {e : Event} {mid : List Event}

theorem isOver_run (h : Attached p) (hs : p.state.isOver = true) (events : List Event) :
    (p.run events).state.isOver = true := by
  induction events generalizing p with
  | nil => exact hs
  | cons e events ih =>
    refine ih (h.step e) ?_
    rcases (advances_step h e).edge with hstep | hstep
    · rw [hstep]
      exact hs
    · exact PoolState.isOver_of_mem_next hs hstep

theorem begun_run (h : Attached p) (hs : p.state ≠ .beforeOpen) (events : List Event) :
    (p.run events).state ≠ .beforeOpen := by
  induction events generalizing p with
  | nil => exact hs
  | cons e events ih =>
    refine ih (h.step e) ?_
    rcases (advances_step h e).edge with hstep | hstep
    · rw [hstep]
      exact hs
    · exact PoolState.ne_beforeOpen_of_mem_next hstep

theorem state_shutDown (p : Pool) : p.shutDown.state = p.state := by
  rw [shutDown, (sameAccounts_detach _).state, (moves_closing _).sameControl.state]

theorem isOver_beginClose (p : Pool) : p.beginClose.state.isOver = true := by
  have hshut : ∀ next : PoolState, next = .closing ∨ next = .closed →
      ({ p with state := next }.refuseHandshake.shutDown).state.isOver = true := by
    intro next hn
    rw [state_shutDown, (sameAccounts_refuseHandshake _).state]
    rcases hn with rfl | rfl <;> rfl
  unfold beginClose
  split
  · next hs => rw [hs]; rfl
  · next hs => rw [hs]; rfl
  · next hs => rw [hs]; rfl
  · rfl
  · exact hshut _ (.inr (by simp [*]))
  · exact hshut _ (.inl (by simp [*]))
  · exact hshut _ (.inr (by simp [*]))

theorem state_giveUp (hs : p.state = a.expected) : (p.giveUp a).state = a.fallback := by
  cases a with
  | opening =>
    unfold giveUp
    dsimp only
    have hopen : (p.setProgress .opening .idle).state = .opening :=
      (state_setProgress p .opening _).trans hs
    rw [(sameAccounts_detach _).state, if_pos hopen]
    rfl
  | reconnecting => exact ((sameAccounts_detach _).state).trans hs

theorem state_giveUp_closed (hs : p.state = .closed) : (p.giveUp a).state = .closed := by
  rcases state_giveUp_eq_or p a with h | ⟨h, -⟩
  · exact h.trans hs
  · cases hs.symm.trans h

/-- **Where a turn can lead:** only a call that opens a pool makes it opening, and only one that
closes it begins to close it. -/
theorem Turn.state_cases (ht : Turn p e q) :
    q.state = p.state ∨ q.state = .opening ∧ q.opening = .connecting ∨
      q.state = .opened ∨ q.state = .broken ∨ q.state = .disconnected ∨
      q.state.isShut = true ∧ (e = .beginClose ∨ p.state = .closing) := by
  cases ht with
  | idle | beginReconnect | lineStopped => exact .inl rfl
  | work _ hd => exact .inl hd.moves.sameControl.state
  | beginOpen => exact .inr (.inl ⟨rfl, rfl⟩)
  | outdated | unconnected => exact .inl (state_resolve p _ _)
  | greet => exact .inl (sameAccounts_attach p _).state
  | succeed => exact .inl (state_setProgress p _ _)
  | giveUp =>
    rcases state_giveUp_eq_or p _ with hs | ⟨-, hs⟩
    · exact .inl hs
    · exact .inr (.inr (.inr (.inl hs)))
  | closeUnopened => exact .inr (.inr (.inr (.inr (.inr ⟨rfl, .inl rfl⟩))))
  | beginClose hs =>
    refine .inr (.inr (.inr (.inr (.inr ⟨?_, .inl rfl⟩))))
    rw [state_shutDown, (sameAccounts_refuseHandshake _).state]
    rcases hs with ⟨-, rfl⟩ | ⟨-, rfl⟩ <;> rfl
  | endClose hs => exact .inr (.inr (.inr (.inr (.inr ⟨rfl, .inr hs⟩))))
  | setLimit | announceLimit => exact .inl (state_admitQueued _)
  | hostOpened => exact .inr (.inr (.inl ((state_resolve _ _ _).trans (state_admitQueued _))))
  | hostRefused => exact .inl (state_answer p _ _)
  | hostEnded => exact .inr (.inr (.inr (.inl (state_leave _ _ _ _))))
  | lineEnded => exact .inr (.inr (.inr (.inr (.inl (state_leave _ _ _ _)))))
  | lineLost => exact .inl (sameAccounts_detach p).state

theorem isShut_step (he : e ≠ .beginClose) (hs : p.state.isShut = false) :
    (p.step e).state.isShut = false := by
  rcases (turn_step p e).state_cases with h | ⟨h, -⟩ | h | h | h | ⟨-, h | h⟩
  · rw [h]
    exact hs
  · rw [h]
    rfl
  · rw [h]
    rfl
  · rw [h]
    rfl
  · rw [h]
    rfl
  · exact absurd h he
  · rw [h] at hs
    cases hs

theorem isShut_run (hs : p.state.isShut = false) (hc : .beginClose ∉ mid) :
    (p.run mid).state.isShut = false := by
  induction mid generalizing p with
  | nil => exact hs
  | cons e mid ih =>
    rw [List.mem_cons, not_or] at hc
    exact ih (isShut_step (Ne.symm hc.1) hs) hc.2

/-- **While an attempt has not succeeded the pool is where it began, unless it was closed.** -/
theorem state_of_unsettled (h : Attached p) (hs : p.state = a.expected)
    (hu : ((p.run mid).progress a).isSettled = false) :
    (.beginClose ∈ mid → (p.run mid).state = .closed) ∧
      (.beginClose ∉ mid → (p.run mid).state = a.expected) := by
  have hstate := (h.run mid).unsettled a hu
  refine ⟨fun hc => ?_, fun hc => ?_⟩
  · obtain ⟨m₁, m₂, rfl⟩ := List.append_of_mem hc
    have hover : (p.run (m₁ ++ .beginClose :: m₂)).state.isOver = true := by
      rw [← run_run]
      exact isOver_run ((h.run m₁).step .beginClose) (isOver_beginClose _) m₂
    refine hstate.resolve_left fun he => ?_
    rw [he, a.isOver_expected] at hover
    cases hover
  · refine hstate.resolve_right fun he => ?_
    have hshut : (p.run mid).state.isShut = false := isShut_run (by rw [hs]; cases a <;> rfl) hc
    rw [he] at hshut
    cases hshut

/-- **A step leaves a pool opening only while an attempt to open it has not succeeded.** -/
theorem Turn.engaged (ht : Turn p e q) (h : Attached p)
    (hp : p.state = .opening → p.opening.isSettled = false) (hq : q.state = .opening) :
    q.opening.isSettled = false := by
  rcases ht.state_cases with hs | ⟨-, hc⟩ | hs | hs | hs | ⟨hs, -⟩
  · have hopen := hs.symm.trans hq
    have hu : (p.progress .opening).isSettled = false := hp hopen
    by_cases he : e = .resume .opening
    · subst he
      cases ht with
      | idle => exact hu
      | work hw => cases hw
      | succeed ha =>
        rw [ha] at hu
        cases hu
      | giveUp =>
        have hbroken : (p.giveUp .opening).state = .broken := state_giveUp hopen
        cases hbroken.symm.trans hq
    · have hbegun : p.state ≠ .beforeOpen := by
        rw [hopen]
        decide
      have hidle : p.progress .opening ≠ .idle := by
        intro hi
        rw [hi] at hu
        cases hu
      cases ht.stride h hbegun hidle he with
      | stays hsame => exact (congrArg Progress.isSettled hsame).trans hu
      | fails _ hf => exact congrArg Progress.isSettled hf
      | greets => rfl
      | succeeds ha =>
        have hopened : (p.ready.admitQueued.resolve .opening (.ok ())).state = .opened :=
          (state_resolve _ _ _).trans (state_admitQueued _)
        cases hopened.symm.trans hq
  · rw [hc]
    rfl
  · cases hs.symm.trans hq
  · cases hs.symm.trans hq
  · cases hs.symm.trans hq
  · rw [hq] at hs
    cases hs

theorem engaged_run (h : Attached p) (hp : p.state = .opening → p.opening.isSettled = false)
    (events : List Event) (hs : (p.run events).state = .opening) :
    (p.run events).opening.isSettled = false := by
  induction events generalizing p with
  | nil => exact hp hs
  | cons e events ih => exact ih (h.step e) ((turn_step p e).engaged h hp) hs

end States

/-! ## Trials -/

/-- After some events the channel of an attempt is opened, over which the host is greeted, and after
others the host must still answer on it. -/
structure Waits (p : Pool) (a : Attempt) (m₁ m₂ : List Event) : Prop where
  greets : (p.run m₁).step (.connected a) = (p.run m₁).attach a
  handshake : (p.run (m₁ ++ .connected a :: m₂)).handshake = some a
  generation : (p.run (m₁ ++ .connected a :: m₂)).generation = (p.run m₁).generation + 1

/-- How far an attempt has come that was begun, after some events of which none resumes its
caller. -/
inductive Trial (p : Pool) (a : Attempt) : List Event → Prop where
  | connecting {mid : List Event} (h : (p.run mid).progress a = .connecting) : Trial p a mid
  | waiting {m₁ m₂ : List Event} (h : Waits p a m₁ m₂) : Trial p a (m₁ ++ .connected a :: m₂)
  | failed {mid : List Event} {f : Fault} (h : (p.run mid).progress a = .answered (.error f)) :
    Trial p a mid
  | succeeded {m₁ m₂ m₃ : List Event} {reason : Option String} (h : Waits p a m₁ m₂)
    (hr : (p.run (m₁ ++ .connected a :: m₂ ++
      .accept ((p.run m₁).generation + 1) reason :: m₃)).progress a = .answered (.ok ())) :
    Trial p a (m₁ ++ .connected a :: m₂ ++ .accept ((p.run m₁).generation + 1) reason :: m₃)

section Trials

variable {p : Pool} {a : Attempt} {e : Event} {mid : List Event}

theorem Stride.answered {q : Pool} {r : Except Fault Unit} (hst : Stride p a e q) (h : Pending p)
    (ha : p.progress a = .answered r) : q.progress a = .answered r := by
  cases hst with
  | stays hsame => exact hsame.trans ha
  | fails hu => rcases hu with hu | hu <;> cases ha.symm.trans hu
  | greets hc => cases ha.symm.trans hc
  | succeeds hh => cases ha.symm.trans ((h.waiting_iff a).2 hh)

/-- **One more event leads an attempt on.** -/
theorem Trial.step (ht : Trial p a mid) (h : Attached p) (hs : p.state ≠ .beforeOpen)
    (he : e ≠ .resume a) : Trial p a (mid ++ [e]) := by
  have hatt : Attached (p.run mid) := h.run mid
  have hstride : (p.run mid).progress a ≠ .idle → Stride (p.run mid) a e (p.run (mid ++ [e])) := by
    intro hidle
    rw [run_append]
    exact (turn_step _ e).stride hatt (begun_run h hs mid) hidle he
  have hstep := run_append p mid e
  generalize hq : p.run (mid ++ [e]) = q at hstride hstep
  cases ht with
  | connecting ha =>
    cases hstride (by simp [ha]) with
    | stays hsame => exact .connecting (by rw [hq, hsame, ha])
    | fails _ hf => exact .failed (by rw [hq, hf])
    | greets =>
      have hw : Waits p a mid [] := ⟨hstep.symm, by rw [hq]; rfl, by rw [hq]; rfl⟩
      exact .waiting hw
    | succeeds hh => cases ha.symm.trans ((hatt.waiting_iff a).2 hh)
  | @waiting m₁ m₂ hw =>
    have ha : (p.run (m₁ ++ .connected a :: m₂)).progress a = .waiting :=
      (hatt.waiting_iff a).2 hw.handshake
    have hatt' : Attached (p.run (m₁ ++ .connected a :: m₂ ++ [e])) := h.run _
    cases hstride (by simp [ha]) with
    | stays hsame hg =>
      have hw' : Waits p a m₁ (m₂ ++ [e]) := by
        refine ⟨hw.greets, ?_, ?_⟩
        · rw [← List.cons_append, ← List.append_assoc]
          refine (hatt'.waiting_iff a).1 ?_
          rw [hq, hsame, ha]
        · rw [← List.cons_append, ← List.append_assoc, hq, hg ha, hw.generation]
      rw [List.append_assoc, List.cons_append]
      exact .waiting hw'
    | fails _ hf => exact .failed (by rw [hq, hf])
    | greets hc => cases ha.symm.trans hc
    | @succeeds reason =>
      have hr := hq
      rw [hw.generation] at hr ⊢
      refine .succeeded hw ?_
      rw [hr]
      exact (progress_resolve _ a a _).trans (if_pos rfl)
  | failed hf =>
    exact .failed (by rw [hq]; exact (hstride (by simp [hf])).answered hatt.toPending hf)
  | @succeeded m₁ m₂ m₃ reason hw hr =>
    have hlast := (hstride (fun hi => by cases hr.symm.trans hi)).answered hatt.toPending hr
    rw [List.append_assoc, List.cons_append] at hq ⊢
    exact .succeeded hw (by rw [hq, hlast])

/-- **An attempt that has begun is connecting, waits, has failed or has succeeded.** -/
theorem trial_run (h : Attached p) (hs : p.state ≠ .beforeOpen) (ha : p.progress a = .connecting)
    (hr : .resume a ∉ mid) : Trial p a mid := by
  induction mid using List.reverseRecOn with
  | nil => exact .connecting ha
  | append_singleton mid e ih =>
    rw [List.mem_append, not_or, List.mem_singleton] at hr
    exact (ih hr.1).step h hs (Ne.symm hr.2)

/-- What is decided stays so until the caller resumes. -/
theorem answered_run {r : Except Fault Unit} (h : Attached p) (hs : p.state ≠ .beforeOpen)
    (ha : p.progress a = .answered r) (hr : .resume a ∉ mid) :
    (p.run mid).progress a = .answered r := by
  induction mid using List.reverseRecOn with
  | nil => exact ha
  | append_singleton mid e ih =>
    rw [List.mem_append, not_or, List.mem_singleton] at hr
    have hmid := ih hr.1
    have hidle : (p.run mid).progress a ≠ .idle := fun hi => by cases hmid.symm.trans hi
    rw [run_append]
    exact ((turn_step _ e).stride (h.run mid) (begun_run h hs mid) hidle (Ne.symm hr.2)).answered
      (h.run mid).toPending hmid

theorem Trial.unsettled_or (ht : Trial p a mid) (h : Attached p) :
    ((p.run mid).progress a).isSettled = false ∨
      (p.run mid).progress a = .answered (.ok ()) := by
  cases ht with
  | connecting hc =>
    rw [hc]
    exact .inl rfl
  | waiting hw => exact .inl ((h.run _).unsettled_of_handshake hw.handshake)
  | failed hf =>
    rw [hf]
    exact .inl rfl
  | succeeded _ hr => exact .inr hr

end Trials

end Pool

end Runspace
