import Runspace.Proofs.Pool.Attempts
import Runspace.Proofs.Pool.Endings

/-!
# Failures — what a failed attempt leaves behind

An attempt to attach to a pool again that fails changes nothing but the channel: all that a pool is
besides is as if only the other calls had been made meanwhile. An attempt to open a pool that fails
breaks it.

* `Event.isCall`: the calls of users but for those that attach to a pool again;
* `Pool.core`: all of a pool that an attempt to attach to it again leaves alone;
* **`core_step`**, **`core_news`**: in a disconnected pool a call depends on that only, and the steps
  of an attempt leave it as it is;
* `Vacated`, **`run_reattach`**: a pool without a channel, and how it gets one;
* **`attempts_of_run`**: what becomes of an attempt, and what it leaves behind.
-/

namespace Runspace

namespace Pool

/-- Whether an event is a call of a user, or a part of one, other than to attach to a pool again. -/
def Event.isCall : Event → Bool
  | .connected a | .connectFailed a _ | .resume a => a = .opening
  | .beginReconnect | .notice _ _ | .lineStopped _ => false
  | _ => true

/-- Whether a call comes to nothing in a disconnected pool. -/
def Event.isVain : Event → Bool
  | .connected a | .connectFailed a _ => a = .opening
  | .beginOpen | .endClose | .create _ | .submit _ | .submitBatched _ | .beginInvoke _ => true
  | _ => false

/-! ## Refused calls -/

section Refused

variable {p : Pool}

theorem beginOpen_of_ne (hs : p.state ≠ .beforeOpen) : p.beginOpen.1 = p := by
  unfold beginOpen
  split
  · rfl
  · rw [if_pos hs]

theorem create_of_ne (hs : p.state ≠ .opened) (commands : List Command) :
    ∃ f, p.create commands = (p, .error f) := by
  unfold create
  split <;> exact ⟨_, rfl⟩

theorem submit_of_ne (hs : p.state ≠ .opened) (commands : List Command) :
    ∃ f, p.submit commands = (p, .error f) := by
  obtain ⟨f, hf⟩ := create_of_ne hs commands
  refine ⟨f, ?_⟩
  unfold submit
  rw [hf]

theorem submitBatched_of_ne (hs : p.state ≠ .opened) (chain : Chain) :
    (p.submitBatched chain).1 = p := by
  unfold submitBatched
  split
  · next fused _ =>
    obtain ⟨f, hf⟩ := submit_of_ne hs fused.commands
    rw [hf]
    split <;> rfl
  · rfl

theorem beginInvoke_of_ne (hs : p.state ≠ .opened) (i : PipelineId) :
    ∃ f, p.beginInvoke i = (p, .error f) := by
  unfold beginInvoke
  split
  · exact ⟨_, rfl⟩
  · split <;> exact ⟨_, rfl⟩

theorem setMaxRunspaces_of_disconnected (hs : p.state = .disconnected) (n : Nat) :
    (p.setMaxRunspaces n).1 =
      if maxWireCount < n ∨ n < p.options.minRunspaces then p else { p with limit := n } := by
  have hset : ({ p with limit := n } : Pool).admitQueued = { p with limit := n } :=
    admitQueued_of_not_opened (by rw [hs]; decide)
  by_cases hn : maxWireCount < n
  · simp [Pool.setMaxRunspaces, wireCount, hn]
  · by_cases hm : n < p.options.minRunspaces
    · simp [Pool.setMaxRunspaces, wireCount, hn, hm]
    · simp only [Pool.setMaxRunspaces, wireCount, hn, hm, if_false, or_self]
      split
      · exact hset
      · exact hset
      · next ho => cases hs.symm.trans ho
      · next _ hd _ => exact absurd hs hd

theorem step_of_vain {e : Event} (hs : p.state = .disconnected) (hu : p.opening.isSettled = true)
    (he : e.isVain = true) : p.step e = p := by
  have hne : p.state ≠ .opened := by
    rw [hs]
    decide
  have hidle : p.progress .opening ≠ .connecting := by
    intro ha
    rw [show p.opening = _ from ha] at hu
    cases hu
  cases e with
  | beginOpen => exact beginOpen_of_ne (by rw [hs]; decide)
  | connected a =>
    obtain rfl : a = .opening := of_decide_eq_true he
    change p.connected .opening = p
    unfold Pool.connected
    split
    · next ha => exact absurd ha hidle
    · rfl
  | connectFailed a f =>
    obtain rfl : a = .opening := of_decide_eq_true he
    change p.connectFailed .opening f = p
    unfold Pool.connectFailed
    split
    · next ha => exact absurd ha hidle
    · rfl
  | endClose => exact if_neg (by rw [hs]; decide)
  | create commands =>
    obtain ⟨f, hf⟩ := create_of_ne hne commands
    exact congrArg Prod.fst hf
  | submit commands =>
    obtain ⟨f, hf⟩ := submit_of_ne hne commands
    exact congrArg Prod.fst hf
  | submitBatched chain => exact submitBatched_of_ne hne chain
  | beginInvoke i =>
    obtain ⟨f, hf⟩ := beginInvoke_of_ne hne i
    exact congrArg Prod.fst hf
  | _ => cases he

end Refused

/-! ## Cores -/

/-- A pool without its channel, the attempt to attach to it again and its outbox. -/
def core (p : Pool) : Pool :=
  { p with generation := 0, line := none, handshake := none, reconnecting := .idle, outbox := [] }

section Cores

variable {p q : Pool} {e : Event} {c : Pipeline}

theorem core_conclude (p : Pool) (c : Pipeline) (x : Ending) :
    (p.conclude c x).core = (p.core.conclude c x).core := by
  unfold conclude release
  split <;> rfl

theorem core_modify (p : Pool) (i : PipelineId) (f : Pipeline → Pipeline) :
    (p.modify i f).core = (p.core.modify i f).core := rfl

theorem warn_of_none (hl : p.readyLine? = none) (c : Pipeline) : p.warn c = p := by
  unfold warn trySend send?
  rw [hl]
  exact ite_self p

theorem core_stop (hs : p.state = .disconnected) (hl : p.readyLine? = none) (i : PipelineId) :
    (p.stop i).core = (p.core.stop i).core := by
  have hne : p.state ≠ .opened := by
    rw [hs]
    decide
  cases hc : p.pipeline? i with
  | none =>
    have hc' : p.core.pipeline? i = none := hc
    rw [stop_of_none hc, stop_of_none hc']
    rfl
  | some c =>
    obtain rfl := (pipeline?_eq_some hc).2
    have hc' : p.core.pipeline? c.id = some c := hc
    rw [stop_of_some hc, stop_of_some hc', warn_of_none hl, warn_of_none rfl]
    cases hlive : c.state.isTerminal with
    | true =>
      rw [finish_of_ended hc hlive, finish_of_ended hc' hlive]
      rfl
    | false =>
      have hp := finish_of_not_opened hne hc hlive .stopped
      have hq := finish_of_not_opened (p := p.core) hne hc' hlive .stopped
      exact (congrArg core hp).trans ((core_conclude p c .stopped).trans (congrArg core hq).symm)

/-- **What a call does to a disconnected pool depends on its core only.** -/
theorem core_step (hs : p.state = .disconnected) (hu : p.opening.isSettled = true)
    (hl : p.readyLine? = none) (he : e.isCall = true) (hc : e ≠ .beginClose) :
    (p.step e).core = (p.core.step e).core := by
  cases hv : e.isVain with
  | true =>
    rw [step_of_vain hs hu hv, step_of_vain (p := p.core) hs hu hv]
    rfl
  | false =>
    have hsame : ∀ i, p.core.pipeline? i = p.pipeline? i := fun _ => rfl
    cases e with
    | resume a =>
      cases a with
      | opening =>
        change (p.resume .opening).1.core = (p.core.resume .opening).1.core
        have hp : p.core.progress .opening = p.progress .opening := rfl
        unfold Pool.resume
        rw [hp]
        split
        · rfl
        · next ha => rw [show p.opening = _ from ha] at hu; cases hu
        · rfl
      | reconnecting => cases he
    | beginClose => exact absurd rfl hc
    | setMaxRunspaces n =>
      change (p.setMaxRunspaces n).1.core = (p.core.setMaxRunspaces n).1.core
      rw [setMaxRunspaces_of_disconnected hs, setMaxRunspaces_of_disconnected (p := p.core) hs]
      change _ = core (if maxWireCount < n ∨ n < p.options.minRunspaces then _ else _)
      split <;> rfl
    | stop i =>
      change (p.stopPipeline i).core = (p.core.stopPipeline i).core
      unfold stopPipeline
      rw [hsame]
      split
      · split
        · rfl
        · exact core_stop hs hl i
      · rfl
    | dispose i =>
      change ((p.stop i).modify i _).core = ((p.core.stop i).modify i _).core
      rw [core_modify, core_stop hs hl i, ← core_modify]
    | takeStream i k =>
      change (p.takeStream i k).1.core = (p.core.takeStream i k).1.core
      unfold takeStream
      rw [hsame]
      split
      · rfl
      · split <;> rfl
    | beginReconnect | notice | lineStopped => cases he
    | connected a | connectFailed a =>
      cases a with
      | opening => cases hv
      | reconnecting => cases he
    | beginOpen | endClose | create | submit | submitBatched | beginInvoke => cases hv

theorem reconnecting_step (hs : p.state = .disconnected) (hu : p.opening.isSettled = true)
    (he : e.isCall = true) (hc : e ≠ .beginClose) :
    (p.step e).reconnecting = p.reconnecting := by
  have ht := turn_step p e
  generalize p.step e = q at ht
  cases ht with
  | idle => rfl
  | work _ hd => exact hd.moves.sameControl.reconnecting
  | beginOpen hb => cases hs.symm.trans hb
  | @outdated a | @unconnected a | @greet a | @succeed a =>
    cases a with
    | opening => rfl
    | reconnecting => cases he
  | @giveUp a f ha =>
    cases a with
    | opening =>
      rw [show p.opening = _ from ha] at hu
      cases hu
    | reconnecting => cases he
  | closeUnopened | beginClose => exact absurd rfl hc
  | endClose hb => cases hs.symm.trans hb
  | setLimit | announceLimit =>
    have hset : ∀ q : Pool, q.admitQueued.reconnecting = q.reconnecting := fun q =>
      (moves_admitQueued q).sameControl.reconnecting
    exact hset _
  | beginReconnect | hostOpened | hostRefused | hostEnded | lineEnded | lineLost | lineStopped =>
    cases he

theorem core_detach (hh : p.handshake ≠ some .opening) : p.detach.core = p.core := by
  have habandon : ({ p with generation := p.generation + 1, line := none } :
      Pool).abandonHandshake.core = p.core := by
    unfold abandonHandshake
    split
    · rfl
    · next a ha =>
      cases a with
      | opening => exact absurd ha hh
      | reconnecting => rfl
  unfold detach
  split
  · exact habandon
  · exact habandon

theorem Housed.notice_eq (h : Housed p) (hs : p.state ≠ .opened) {g : Nat} {n : Notice}
    (hw : (Event.notice g n).isWork = true) : p.notice g n = p := by
  unfold Pool.notice
  split
  · cases n with
    | message m =>
      obtain ⟨_ | i, payload⟩ := m
      · cases hw
      · exact h.receivePipeline_eq hs i payload
    | framingError target f | sendFailed target f =>
      cases target with
      | pool => cases hw
      | pipeline i => exact h.losePipeline_eq hs i f
    | closed f => cases hw
  · rfl

/-- **What is no call leaves the core of a disconnected pool as it is, unless the pool is opened
again.** -/
theorem core_news (h : Attached p) (hh : Housed p) (hs : p.state = .disconnected)
    (hq : (p.step e).state = .disconnected) (he : e.isCall = false) :
    (p.step e).core = p.core := by
  have hne : p.state ≠ .opened := by
    rw [hs]
    decide
  have hshake : p.handshake ≠ some .opening := by
    intro ha
    cases hs.symm.trans (h.handshake _ ha).1
  have ht := turn_step p e
  generalize hstep : p.step e = q at ht hq
  cases ht with
  | idle => rfl
  | work hw hd =>
    cases e with
    | notice g n =>
      rw [← hstep]
      exact congrArg core (hh.notice_eq hne hw)
    | create | submit | submitBatched | beginInvoke | stop | dispose | takeStream => cases he
    | _ => cases hw
  | beginReconnect | lineStopped => rfl
  | @outdated a | @unconnected a | @greet a | @succeed a =>
    cases a with
    | opening => cases he
    | reconnecting => rfl
  | @giveUp a =>
    cases a with
    | opening => cases he
    | reconnecting => exact core_detach hshake
  | @hostOpened a =>
    rw [state_resolve, state_admitQueued] at hq
    cases hq
  | @hostRefused n a f ha =>
    cases a with
    | opening => exact absurd ha hshake
    | reconnecting => rfl
  | hostEnded _ ho | lineEnded _ ho => exact absurd ho hne
  | lineLost => exact core_detach hshake
  | beginOpen | closeUnopened | beginClose | endClose | setLimit | announceLimit => cases he

end Cores

/-! ## Attempts that fail -/

/-- A pool in which a failed attempt has left nothing behind. -/
structure Vacated (p : Pool) (a : Attempt) : Prop where
  line : p.line = none
  sender : p.readyLine? = none
  handshake : p.handshake = none
  progress : p.progress a = .idle

section Failed

variable {p : Pool} {a : Attempt} {f : Fault} {mid : List Event}

theorem Attached.readyLine?_eq_none (h : Attached p) (hs : p.state ≠ .opened) :
    p.readyLine? = none := by
  cases hl : p.readyLine? with
  | none => rfl
  | some l => exact absurd (h.opened_iff.2 ⟨l, Option.filter_eq_some_iff.1 hl⟩) hs

theorem Owned.vacant (h : Owned p) (hs : p.state ≠ .opened)
    (hset : ∀ a, (p.progress a).isSettled = true) : p.line = none ∧ p.handshake = none := by
  constructor
  · cases hl : p.line with
    | none => rfl
    | some l => exact absurd ((h.isSome_held hset).1 (by rw [held, hl]; rfl)) hs
  · cases ha : p.handshake with
    | none => rfl
    | some a => cases (h.unsettled_of_handshake ha).symm.trans (hset a)

theorem beginReconnect_ok (h : p.beginReconnect.2 = .ok ()) : p.state = .disconnected ∧
    p.reconnecting = .idle ∧ p.step .beginReconnect = { p with reconnecting := .connecting } := by
  rw [step]
  unfold beginReconnect at h ⊢
  split at h
  · cases h
  · next hs =>
    split at h
    · cases h
    · next hr =>
      refine ⟨Decidable.not_not.1 hs, ?_, ?_⟩
      · unfold isReconnecting at hr
        split at hr
        · assumption
        · exact absurd rfl hr
      · rw [if_neg hs, if_neg hr]

theorem attempt_ok (h : (p.attempt a).2 = .ok ()) :
    (p.step a.call).progress a = .connecting ∧ (p.step a.call).state = a.expected := by
  cases a with
  | opening =>
    change p.beginOpen.2 = _ at h
    change p.beginOpen.1.opening = _ ∧ p.beginOpen.1.state = _
    unfold beginOpen at h ⊢
    split at h
    · cases h
    · split at h
      · cases h
      · next hs =>
        rw [if_neg hs]
        exact ⟨rfl, rfl⟩
  | reconnecting =>
    obtain ⟨hs, -, hstep⟩ := beginReconnect_ok h
    rw [Attempt.call, hstep]
    exact ⟨rfl, hs⟩

/-- Two disconnected pools with one core have one core after an event, if the second learns of it
only if it is a call. -/
theorem core_concat {p q : Pool} {e : Event} (hp : Attached p) (hh : Housed p)
    (hs : p.state = .disconnected) (hstep : (p.step e).state = .disconnected) (hq : Attached q)
    (hcore : p.core = q.core) (hc : e ≠ .beginClose) :
    (p.step e).core = (q.run ([e].filter (·.isCall))).core ∧
      (q.run ([e].filter (·.isCall))).reconnecting = q.reconnecting := by
  have hqs : q.state = .disconnected := (congrArg Pool.state hcore).symm.trans hs
  have hne : ∀ r : Pool, r.state = .disconnected → r.state ≠ .opened := fun r hr => by
    rw [hr]
    decide
  have hset : p.opening.isSettled = true :=
    hp.isSettled_of_ne (a := .reconnecting) (b := .opening) hs (by decide)
  have hqset : q.opening.isSettled = true :=
    (congrArg (fun r : Pool => r.opening.isSettled) hcore).symm.trans hset
  cases he : e.isCall with
  | false =>
    have hnone : [e].filter (·.isCall) = [] := by simp [he]
    rw [hnone]
    exact ⟨(core_news hp hh hs hstep he).trans hcore, rfl⟩
  | true =>
    have hone : [e].filter (·.isCall) = [e] := by simp [he]
    rw [hone]
    refine ⟨?_, reconnecting_step hqs hqset he hc⟩
    calc (p.step e).core = (p.core.step e).core :=
          core_step hs hset (hp.readyLine?_eq_none (hne p hs)) he hc
      _ = (q.core.step e).core := by rw [hcore]
      _ = (q.step e).core :=
          (core_step hqs hqset (hq.readyLine?_eq_none (hne q hqs)) he hc).symm

/-- **While an attempt to attach to a pool again has not succeeded, the core of the pool is what the
other calls make of it.** -/
theorem core_run (h : Attached p) (hok : p.beginReconnect.2 = .ok ())
    (hh : ∀ events, ((p.step .beginReconnect).run events).nextId ≤ UInt64.size →
      Housed ((p.step .beginReconnect).run events))
    (hr : .resume .reconnecting ∉ mid) (hc : .beginClose ∉ mid)
    (hn : ((p.step .beginReconnect).run mid).nextId ≤ UInt64.size)
    (hu : (((p.step .beginReconnect).run mid).progress .reconnecting).isSettled = false) :
    ((p.step .beginReconnect).run mid).core = (p.run (mid.filter (·.isCall))).core ∧
      (p.run (mid.filter (·.isCall))).reconnecting = .idle := by
  obtain ⟨-, hidle, hstep⟩ := beginReconnect_ok hok
  have hbegun : Attached (p.step .beginReconnect) := h.step .beginReconnect
  obtain ⟨hcon, hexp⟩ := attempt_ok (a := .reconnecting) hok
  rw [Attempt.call] at hcon hexp
  have hcore : (p.step .beginReconnect).core = p.core := by
    rw [hstep]
    rfl
  clear hstep hok
  generalize p.step .beginReconnect = q at *
  have hne : q.state ≠ .beforeOpen := by
    rw [hexp]
    decide
  induction mid using List.reverseRecOn with
  | nil => exact ⟨hcore, hidle⟩
  | append_singleton mid e ih =>
    have hall := hc
    rw [List.mem_append, not_or, List.mem_singleton] at hr hc
    have hux : ((q.run mid).progress .reconnecting).isSettled = false := by
      rcases (trial_run hbegun hne hcon hr.1).unsettled_or hbegun with hux | hok
      · exact hux
      · -- what has succeeded would not fail any more
        have hlast : ((q.run mid).run [e]).progress .reconnecting = .answered (.ok ()) :=
          answered_run (hbegun.run mid) (begun_run hbegun hne mid) hok (by simpa using hr.2)
        rw [← run_run, hlast] at hu
        cases hu
    have hxs := (state_of_unsettled hbegun hexp hux).2 hc.1
    have hys := (state_of_unsettled hbegun hexp hu).2 hall
    rw [run_append] at hn hys ⊢
    have hnx := Nat.le_trans (stepMoves_step (q.run mid) e).nextId_le hn
    obtain ⟨hsame, hrec⟩ := ih hr.1 hc.1 hnx hux
    obtain ⟨hstep, hkeep⟩ := core_concat (hbegun.run mid) (hh mid hnx) hxs hys
      (h.run (mid.filter (·.isCall))) hsame (Ne.symm hc.2)
    rw [List.filter_append, ← run_run]
    exact ⟨hstep, hkeep.trans hrec⟩

end Failed

/-! ## Attempts that succeed -/

/-- The host's answer, on the channel that an attempt opened after some events, opens the pool, which
had to wait for it. -/
structure Opens (p : Pool) (a : Attempt) (m₁ m₂ : List Event) (reason : Option String) : Prop
    extends Waits p a m₁ m₂ where
  expected : (p.run (m₁ ++ .connected a :: m₂)).state = a.expected
  holds : (p.run (m₁ ++ .connected a :: m₂)).held = some ((p.run m₁).generation + 1)
  opened : (p.run (m₁ ++ .connected a :: m₂ ++ [.accept ((p.run m₁).generation + 1) reason])).state =
    .opened
  keeps : (p.run (m₁ ++ .connected a :: m₂ ++ [.accept ((p.run m₁).generation + 1) reason])).held =
    some ((p.run m₁).generation + 1)

/-- A pool that is, but for its channels and its outbox, what some calls make of another, and to
which a further attempt can attach again. -/
structure Restored (p : Pool) (calls : List Event) (r : Pool) : Prop where
  same : r.nextId ≤ UInt64.size →
    r = { p.run calls with generation := r.generation, outbox := r.outbox }
  idle : r.isReconnecting = false
  accepted : r.beginReconnect.2 = .ok ()
  reopens : ∀ reason, (r.run [.beginReconnect, .connected .reconnecting,
    .accept (r.generation + 1) reason]).state = .opened
  succeeds : ∀ reason, ((r.run [.beginReconnect, .connected .reconnecting,
    .accept (r.generation + 1) reason]).resume .reconnecting).2 = some (.ok ())

section Succeeds

variable {p : Pool} {a : Attempt} {m₁ m₂ : List Event}

theorem step_connected (ha : p.progress a = .connecting) (hs : p.state = a.expected) :
    p.step (.connected a) = p.attach a := by
  change p.connected a = _
  unfold Pool.connected
  rw [ha]
  dsimp only
  rw [if_neg (not_not.2 hs)]
  cases a <;> rfl

theorem step_accept (ha : p.handshake = some a) (reason : Option String) :
    p.step (.accept p.generation reason) = p.ready.admitQueued.resolve a (.ok ()) := by
  refine (if_pos rfl).trans ?_
  change p.hostOpened = _
  unfold Pool.hostOpened
  rw [ha]
  rfl

/-- A pool that waits for its host holds the channel on which it waits, and is opened on it. -/
theorem Waits.opens (hw : Waits p a m₁ m₂) (h : Owned p) (reason : Option String) :
    Opens p a m₁ m₂ reason := by
  have hown : Owned (p.run (m₁ ++ .connected a :: m₂)) := h.run _
  have hgen := hw.generation
  have hlast := run_append p (m₁ ++ .connected a :: m₂) (.accept ((p.run m₁).generation + 1) reason)
  obtain ⟨hexp, hline⟩ := hown.handshake a hw.handshake
  rw [← hgen, step_accept hw.handshake, hgen] at hlast
  have hheld : (p.run (m₁ ++ .connected a :: m₂)).held = some ((p.run m₁).generation + 1) := by
    obtain ⟨l, hl⟩ := Option.isSome_iff_exists.1 hline
    have hl' : (p.run (m₁ ++ .connected a :: m₂)).held = some l.generation := by
      rw [held, hl, Option.map_some]
    have hcur : l.generation = (p.run (m₁ ++ .connected a :: m₂)).generation :=
      hown.sound.held_eq _ hl'
    rw [hl', hcur, hgen]
  refine { hw with expected := hexp, holds := hheld, opened := ?_, keeps := ?_ }
  · rw [hlast, state_resolve, state_admitQueued]
    rfl
  · have hc := congrArg Custody.held ((custody_resolve _ a (.ok ())).trans
      ((custody_admitQueued (p := (p.run (m₁ ++ .connected a :: m₂)).ready)).trans
        (custody_ready _)))
    rw [hlast]
    exact hc.trans hheld

theorem beginReconnect_eq (hs : p.state = .disconnected) (hr : p.isReconnecting = false) :
    p.beginReconnect = ({ p with reconnecting := .connecting }, .ok ()) := by
  unfold beginReconnect
  rw [if_neg (not_not.2 hs), hr]
  rfl

/-- **A disconnected pool that makes no attempt is attached to again if its host accepts.** -/
theorem run_reattach (hs : p.state = .disconnected) (hr : p.isReconnecting = false)
    (reason : Option String) :
    p.run [.beginReconnect, .connected .reconnecting, .accept (p.generation + 1) reason] =
      (({ p with reconnecting := .connecting } : Pool).attach .reconnecting).ready.admitQueued.resolve
        .reconnecting (.ok ()) := by
  change (p.beginReconnect.1.step (.connected .reconnecting)).step
    (.accept (p.generation + 1) reason) = _
  rw [beginReconnect_eq hs hr, step_connected rfl hs]
  exact step_accept rfl reason

end Succeeds

/-! ## Runs -/

section Runs

variable {p r : Pool} {a : Attempt} {f : Fault}

theorem Attached.vacated (h : Attached p) (ha : p.progress a = .answered (.error f)) :
    Vacated (p.giveUp a) a where
  line := line_giveUp p a
  sender := by rw [readyLine?, line_giveUp p a, Option.filter_none]
  handshake := handshake_giveUp p a
  progress := by
    have hh : p.handshake ≠ some a := fun hh => by
      cases ha.symm.trans ((h.waiting_iff a).2 hh)
    rw [progress_giveUp, if_neg hh, if_pos rfl]

theorem resume_error (ha : p.progress a = .answered (.error f)) :
    p.resume a = (p.giveUp a, some (.error f)) := by
  unfold Pool.resume
  rw [ha]

theorem progress_of_resume {x : Except Fault Unit} (h : (p.resume a).2 = some x) :
    p.progress a = .answered x := by
  unfold Pool.resume at h
  split at h
  · next ha =>
    cases h
    exact ha
  · next ha =>
    cases h
    exact ha
  · cases h

/-- Two pools with one core, and without a channel or an attempt, differ in their numbers of channels
and in their outboxes only. -/
theorem eq_of_core (hc : r.core = p.core) (hl : r.line = p.line) (hh : r.handshake = p.handshake)
    (hr : r.reconnecting = p.reconnecting) :
    r = { p with generation := r.generation, outbox := r.outbox } := by
  obtain ⟨⟩ := p
  obtain ⟨⟩ := r
  simp only [core, Pool.mk.injEq] at hc hl hh hr ⊢
  simp [hc, hl, hh, hr]

/-- **A pool to which an attempt to attach again has failed is what the other calls make of it, and
can be attached to.** -/
theorem restored_giveUp {mid : List Event} (h : Owned p) (hok : p.beginReconnect.2 = .ok ())
    (hh : ∀ events, ((p.step .beginReconnect).run events).nextId ≤ UInt64.size →
      Housed ((p.step .beginReconnect).run events))
    (hr : .resume .reconnecting ∉ mid) (hc : .beginClose ∉ mid)
    (hf : ((p.step .beginReconnect).run mid).progress .reconnecting = .answered (.error f)) :
    Restored p (mid.filter (·.isCall)) (((p.step .beginReconnect).run mid).giveUp .reconnecting) := by
  have hbegun : Attached (p.step .beginReconnect) := h.toAttached.step .beginReconnect
  have hexp : (p.step .beginReconnect).state = .disconnected :=
    (attempt_ok (a := .reconnecting) hok).2
  have hu : (((p.step .beginReconnect).run mid).progress .reconnecting).isSettled = false := by
    rw [hf]
    rfl
  have hq : Attached ((p.step .beginReconnect).run mid) := hbegun.run mid
  have hs : ((p.step .beginReconnect).run mid).state = .disconnected :=
    (state_of_unsettled (a := .reconnecting) hbegun hexp hu).2 hc
  have hstep : ((p.step .beginReconnect).run mid).step (.resume .reconnecting) =
      ((p.step .beginReconnect).run mid).giveUp .reconnecting := congrArg Prod.fst (resume_error hf)
  have hcore := core_run h.toAttached hok hh hr hc
  have hhoused := hh mid
  generalize (p.step .beginReconnect).run mid = q at *
  have hrs : (q.giveUp .reconnecting).state = .disconnected := state_giveUp (a := .reconnecting) hs
  have hv := hq.vacated hf
  have hidle : (q.giveUp .reconnecting).isReconnecting = false := by
    rw [isReconnecting, show (q.giveUp .reconnecting).reconnecting = .idle from hv.progress]
  refine ⟨fun hn => ?_, hidle, congrArg Prod.snd (beginReconnect_eq hrs hidle), fun reason => ?_,
    fun reason => ?_⟩
  · rw [(sameWork_giveUp q _).nextId] at hn
    obtain ⟨hsame, hsettled⟩ := hcore hn hu
    have hnews : (q.giveUp .reconnecting).core = q.core := by
      rw [← hstep] at hrs ⊢
      exact core_news hq (hhoused hn) hs hrs rfl
    have hp : Owned (p.run (mid.filter (·.isCall))) := h.run _
    have hps : (p.run (mid.filter (·.isCall))).state = .disconnected :=
      (congrArg Pool.state hsame).symm.trans hs
    obtain ⟨hl, hhand⟩ := hp.vacant (by rw [hps]; decide) fun a => by
      cases a with
      | opening => exact hp.isSettled_of_ne (a := .reconnecting) hps (by decide)
      | reconnecting => exact congrArg Progress.isSettled hsettled
    exact eq_of_core (hnews.trans hsame) (hv.line.trans hl.symm) (hv.handshake.trans hhand.symm)
      (hv.progress.trans hsettled.symm)
  · rw [run_reattach hrs hidle, state_resolve, state_admitQueued]
    rfl
  · rw [run_reattach hrs hidle, Pool.resume, progress_resolve, if_pos rfl]

/-- **What becomes of an attempt to get a channel, and what it leaves behind, in any run.**

A pool is opening only while an attempt to open it has not succeeded. Let an attempt be made, and let
anything happen before its caller resumes. Each setback then fails it, and what is decided stays
so: an answer of the host that comes after a failure counts for nothing.

If the caller learns of a failure, the pool is left without a channel and without the attempt. It is
closed if it was closed meanwhile; otherwise a pool that was opening is broken, and one that was
disconnected is so again. The latter is, but for the numbers of its channels and its outbox, what
the other calls that came meanwhile would have made of it alone, and a further attempt is accepted
and succeeds if its host accepts. The first of these holds as long as there were numbers for the
pipelines, since others would not have ended when the channel was lost.

If the caller learns of a success, the channel that the attempt had opened was the line when its
host accepted on it, and this is what opened the pool. -/
theorem attempts_of_run (id : PoolId) (options : PoolOptions) (before mid : List Event)
    (a : Attempt) :
    let p := (new id options).run before
    let begun := p.step a.call
    let q := begun.run mid
    let r := q.step (.resume a)
    (p.state = .opening → p.opening.isSettled = false) ∧
      ((p.attempt a).2 = .ok () → .resume a ∉ mid →
        (∀ e, Setback q a e → ∃ f, (q.step e).progress a = .answered (.error f)) ∧
        (∀ f, q.progress a = .answered (.error f) → ∀ more, .resume a ∉ more →
          ((q.run more).resume a).2 = some (.error f)) ∧
        (∀ f, (q.resume a).2 = some (.error f) → Vacated r a ∧
          (.beginClose ∈ mid → r.state = .closed) ∧
          (.beginClose ∉ mid → r.state = a.fallback ∧
            (a = .reconnecting → Restored p (mid.filter (·.isCall)) r))) ∧
        ((q.resume a).2 = some (.ok ()) → ∃ m₁ m₂ m₃ reason,
          mid = m₁ ++ .connected a :: m₂ ++ .accept ((begun.run m₁).generation + 1) reason :: m₃ ∧
          Opens begun a m₁ m₂ reason)) := by
  intro p begun q r
  have hp : Owned p := (owned_new id options).run before
  refine ⟨engaged_run (attached_new id options) (fun hs => by cases hs) before, fun hok hr => ?_⟩
  obtain ⟨hcon, hexp⟩ := attempt_ok hok
  have hbegun : Owned begun := hp.step a.call
  have hne : begun.state ≠ .beforeOpen := by
    rw [hexp]
    cases a <;> decide
  have hq : Attached q := hbegun.toAttached.run mid
  refine ⟨fun e he => he.fails hq, fun f hf more hmore => ?_, fun f hf => ?_, fun hf => ?_⟩
  · have hlast := answered_run hq (begun_run hbegun.toAttached hne mid) hf hmore
    rw [resume_error hlast]
  · have hf' := progress_of_resume hf
    have hrq : r = q.giveUp a := congrArg Prod.fst (resume_error hf')
    have hu : (q.progress a).isSettled = false := by
      rw [hf']
      rfl
    obtain ⟨hclosed, hopen⟩ := state_of_unsettled hbegun.toAttached hexp hu
    rw [hrq]
    refine ⟨hq.vacated hf', fun hc => state_giveUp_closed (hclosed hc), fun hc =>
      ⟨state_giveUp (hopen hc), ?_⟩⟩
    rintro rfl
    refine restored_giveUp hp hok (fun events hn => ?_) hr hc hf'
    have hrun : (p.step .beginReconnect).run events =
        (new id options).run (before ++ .beginReconnect :: events) :=
      run_run (new id options) before (.beginReconnect :: events)
    rw [hrun] at hn ⊢
    exact Housed.run (by simp [Housed, new]) (attached_new id options) (accounted_new id options) _
      hn
  · have hf' := progress_of_resume hf
    have ht := trial_run hbegun.toAttached hne hcon hr
    cases ht with
    | connecting hc => cases hf'.symm.trans hc
    | waiting hw => cases hf'.symm.trans ((hq.waiting_iff a).2 hw.handshake)
    | failed he => cases hf'.symm.trans he
    | @succeeded m₁ m₂ m₃ reason hw => exact ⟨m₁, m₂, m₃, reason, rfl, hw.opens hbegun reason⟩

/-- A pool with one pipeline waiting that has lost its channel, and whose host refuses it on another,
accepts it too late and then closes the channel, while the limit is changed. -/
theorem attempts_of_run_refused :
    let opened : Notice := .message (.toPool (.poolState .opened none))
    let before : List Event := [.beginOpen, .connected .opening, .notice 1 opened,
      .resume .opening, .submit [⟨"Get-Item", []⟩], .submit [⟨"Get-Item", []⟩],
      .notice 1 (.closed none)]
    let mid : List Event := [.connected .reconnecting,
      .notice 3 (.message (.toPool (.poolState .broken none))), .setMaxRunspaces 3,
      .notice 3 opened, .notice 3 (.closed none)]
    let p := (new (.ofDraw 0) { maxRunspaces := 1 }).run before
    let q := (p.step .beginReconnect).run mid
    let r := q.step (.resume .reconnecting)
    (p.attempt .reconnecting).2 = .ok () ∧ .resume .reconnecting ∉ mid ∧ .beginClose ∉ mid ∧
      (q.resume .reconnecting).2 = some (.error (.connection "host reported the pool broken")) ∧
      Vacated r .reconnecting ∧ r.state = .disconnected ∧ Restored p [.setMaxRunspaces 3] r ∧
      r.limit = 3 ∧ r.queue = [⟨2, by decide⟩] := by
  intro opened before mid p q r
  have hok : (p.attempt .reconnecting).2 = .ok () := by decide
  have hr : .resume .reconnecting ∉ mid := by simp [mid]
  have hc : .beginClose ∉ mid := by simp [mid]
  have hf : (q.resume .reconnecting).2 =
      some (.error (.connection "host reported the pool broken")) := by decide
  obtain ⟨-, hrun⟩ := attempts_of_run (.ofDraw 0) { maxRunspaces := 1 } before mid .reconnecting
  obtain ⟨-, -, hfailed, -⟩ := hrun hok hr
  obtain ⟨hv, -, hopen⟩ := hfailed _ hf
  obtain ⟨hs, hrestored⟩ := hopen hc
  have hcalls : mid.filter (·.isCall) = [.setMaxRunspaces 3] := rfl
  rw [hcalls] at hrestored
  have hlim : r.limit = 3 := by decide
  have hqueue : r.queue = [⟨2, by decide⟩] := by decide
  exact ⟨hok, hr, hc, hf, hv, hs, hrestored rfl, hlim, hqueue⟩

end Runs

end Pool

end Runspace
