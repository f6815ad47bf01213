import Runspace.Proofs.Pool.Accounts
import Runspace.Proofs.Pool.Attached

/-!
# Lifecycle — the states of a pool, and the pipelines it keeps in each

A pool goes from state to state along few edges. Only in the opened state does it make, invoke or
start pipelines; in any other they stay as they are or end. So it is enough that whatever leaves
the opened state ends all that the next state does not keep.

* `PoolState.next`, `PoolState.keeps`: the edges, and the pipelines that a state keeps;
* `Dwindles`: what becomes of pipelines outside the opened state;
* `Housed`, **`housed_foldl`**: a pool has only pipelines that its state keeps, also once it has
  left the opened state;
* `Advances`, **`Turn.advances`**: every step follows an edge and keeps the pool housed;
* `Pool.settings`, **`settings_run`**: what no step changes;
* **`lifecycle_of_run`**: the states of a pool after any events.
-/

namespace Runspace

/-! ## Edges -/

namespace PoolState

/-- The states into which a pool may go from a state. -/
def next : PoolState → List PoolState
  | .beforeOpen => [.opening, .closed]
  | .opening => [.opened, .broken, .closed]
  | .opened => [.closing, .broken, .disconnected]
  | .disconnected => [.opened, .closed]
  | .closing => [.closed]
  | .broken | .closed => []

/-- The states of the pipelines that a pool in a state may have. -/
def keeps : PoolState → PipelineState → Bool
  | .beforeOpen, _ | .opening, _ => false
  | .opened, _ => true
  | .disconnected, s => s ≠ .running
  | .broken, s => s ≠ .running && s ≠ .queued
  | .closing, s | .closed, s => s.isTerminal

/-- Where there may be pipelines at all, there may be ended ones. -/
theorem keeps_of_isTerminal {s : PoolState} {x y : PipelineState} (hx : s.keeps x = true)
    (hy : y.isTerminal = true) : s.keeps y = true := by
  cases s <;> cases y <;> first | rfl | cases hx | cases hy

/-- Two states of which the second is the first, or one edge on and keeps as much. -/
def Calm (s t : PoolState) : Prop :=
  t = s ∨ t ∈ s.next ∧ ∀ x, s.keeps x = true → t.keeps x = true

end PoolState

namespace Pool

/-! ## Pipelines outside the opened state -/

section Dwindles

variable {P : Deed → Prop} {p q r : Pool} {c : Pipeline} {d : Deed} {id : PipelineId}

/-- The pipelines of a pool stay in their states, or end, and none is added. -/
def Dwindles (p q : Pool) : Prop :=
  ∃ f : Pipeline → Pipeline, q.pipelines = p.pipelines.map f ∧
    ∀ c, (f c).id = c.id ∧ ((f c).state = c.state ∨ (f c).state.isTerminal = true)

theorem Dwindles.refl (p : Pool) : Dwindles p p := ⟨fun c => c, (List.map_id' _).symm, by simp⟩

theorem Dwindles.trans (h : Dwindles p q) (h' : Dwindles q r) : Dwindles p r := by
  obtain ⟨f, hf, hfc⟩ := h
  obtain ⟨g, hg, hgc⟩ := h'
  refine ⟨g ∘ f, by rw [hg, hf, List.map_map], fun c => ⟨(hgc _).1.trans (hfc c).1, ?_⟩⟩
  rw [Function.comp_apply]
  rcases (hgc (f c)).2 with h | h
  · rw [h]
    exact (hfc c).2
  · exact .inr h

theorem Does.dwindles (h : Does p d q) (hs : p.state ≠ .opened) : Dwindles p q := by
  have hborn : d.born = [] ∧ ∀ c, (d.apply c).state = c.state ∨
      (d.apply c).state.isTerminal = true := by
    cases h with
    | make commands ho | invoke _ _ ho | wait _ _ ho => exact absurd ho hs
    | launch _ _ hm => exact absurd (mayAdmit_iff.1 hm).1 hs
    | refuse | halt => exact ⟨rfl, fun _ => .inr rfl⟩
    | conclude x => exact ⟨rfl, fun _ => .inr x.isTerminal_state⟩
    | record k v => exact ⟨rfl, fun c => .inl (c.state_push k v)⟩
    | _ => exact ⟨rfl, fun _ => .inl rfl⟩
  refine ⟨_, by rw [h.pipelines, hborn.1, List.append_nil], fun c => ?_⟩
  split
  · exact ⟨d.id_apply c, hborn.2 c⟩
  · exact ⟨rfl, .inl rfl⟩

theorem Deeds.dwindles (h : Deeds P p q) (hs : p.state ≠ .opened) : Dwindles p q := by
  induction h with
  | refl => exact .refl p
  | tail hr h ih =>
    obtain ⟨d, -, h⟩ := h
    refine ih.trans (h.dwindles ?_)
    rw [(Deeds.sameControl hr).state]
    exact hs

theorem Dwindles.nodup_ids (h : Dwindles p q) (hp : (p.pipelines.map (·.id)).Nodup) :
    (q.pipelines.map (·.id)).Nodup := by
  obtain ⟨f, hf, hfc⟩ := h
  rw [hf, List.map_map]
  simpa only [Function.comp_def, hfc] using hp

theorem Dwindles.allEnded (h : Dwindles p q) (hp : p.AllEnded id) : q.AllEnded id := by
  obtain ⟨f, hf, hfc⟩ := h
  intro c' hc' hid
  rw [hf] at hc'
  obtain ⟨c, hc, rfl⟩ := List.mem_map.1 hc'
  rcases (hfc c).2 with hs | hs
  · rw [hs]
    exact hp c hc ((hfc c).1.symm.trans hid)
  · exact hs

variable {op : Pool → PipelineId → Pool} {ids : List PipelineId}

theorem deeds_foldl (hd : ∀ p id, Deeds P p (op p id)) (p : Pool) (ids : List PipelineId) :
    Deeds P p (ids.foldl op p) := by
  induction ids generalizing p with
  | nil => exact .refl
  | cons i ids ih => exact (hd p i).trans (ih _)

theorem allEnded_foldl (hd : ∀ p id, Deeds P p (op p id))
    (he : ∀ p id c, (op p id).pipeline? id = some c → c.state.isTerminal = true)
    (hn : (p.pipelines.map (·.id)).Nodup) (hs : p.state ≠ .opened) (hid : id ∈ ids) :
    (ids.foldl op p).AllEnded id := by
  induction ids generalizing p with
  | nil => cases hid
  | cons i ids ih =>
    have hn' := ((hd p i).dwindles hs).nodup_ids hn
    have hs' : (op p i).state ≠ .opened := by
      rw [(hd p i).sameControl.state]
      exact hs
    rcases List.mem_cons.1 hid with rfl | hid
    · refine ((deeds_foldl hd _ ids).dwindles hs').allEnded fun c hc hid => ?_
      have hfind := pipeline?_of_mem hn' hc
      rw [hid] at hfind
      exact he p _ c hfind
    · exact ih hn' hs' hid

end Dwindles

/-! ## Pipelines by state -/

/-- A pool has only pipelines that its state keeps. -/
def Housed (p : Pool) : Prop := ∀ c ∈ p.pipelines, p.state.keeps c.state = true

section Housed

variable {P : Deed → Prop} {p q : Pool}

theorem Housed.congr (h : Housed p) (hp : q.pipelines = p.pipelines)
    (hs : ∀ s, p.state.keeps s = true → q.state.keeps s = true) : Housed q := by
  intro c hc
  rw [hp] at hc
  exact hs _ (h c hc)

theorem Housed.of_sameAccounts (h : Housed p) (hq : SameAccounts p q) : Housed q :=
  h.congr hq.pipelines fun s hs => by rw [hq.state]; exact hs

theorem housed_of_opened (hs : p.state = .opened) : Housed p := by
  intro c _
  rw [hs]
  rfl

theorem Housed.of_deeds (h : Housed p) (hd : Deeds P p q) : Housed q := by
  have hstate := hd.sameControl.state
  by_cases hs : p.state = .opened
  · exact housed_of_opened (hstate.trans hs)
  · obtain ⟨f, hf, hfc⟩ := hd.dwindles hs
    intro c' hc'
    rw [hf] at hc'
    obtain ⟨c, hc, rfl⟩ := List.mem_map.1 hc'
    rw [hstate]
    rcases (hfc c).2 with hc' | hc'
    · rw [hc']
      exact h c hc
    · exact PoolState.keeps_of_isTerminal (h c hc) hc'

/-- **A pool that has left the opened state is in order once all is ended that the new state does
not keep.** -/
theorem housed_foldl {op : Pool → PipelineId → Pool} {f : PipelineState → Bool}
    (hd : ∀ p id, Deeds P p (op p id))
    (he : ∀ p id c, (op p id).pipeline? id = some c → c.state.isTerminal = true)
    (hp : Accounted p) (hs : p.state ≠ .opened) (ht : p.state.keeps .stopped = true)
    (hf : ∀ s, s.isTerminal = false → f s = false → p.state.keeps s = true) :
    Housed ((p.idsWhere f).foldl op p) := by
  have hdeeds := deeds_foldl hd p (p.idsWhere f)
  intro c' hc'
  rw [hdeeds.sameControl.state]
  cases hlive : c'.state.isTerminal with
  | true => exact PoolState.keeps_of_isTerminal ht hlive
  | false =>
    obtain ⟨g, hg, hgc⟩ := hdeeds.dwindles hs
    have hmem := hc'
    rw [hg] at hmem
    obtain ⟨c, hc, rfl⟩ := List.mem_map.1 hmem
    have hsame : (g c).state = c.state := by
      rcases (hgc c).2 with h | h
      · exact h
      · cases hlive.symm.trans h
    refine hf _ hlive (Bool.not_eq_true _ ▸ fun hfc => ?_)
    -- a pipeline that has not ended is registered, and so was to be ended
    rw [hsame] at hlive hfc
    have hid : c.id ∈ p.idsWhere f :=
      (hp.mem_idsWhere f c.id).2 ⟨c, hp.pipeline?_of_mem hc, hp.isRegistered hc hlive, hfc⟩
    have hended := allEnded_foldl hd he hp.nodup_ids hs hid (g c) hc' (hgc c).1
    rw [hsame, hlive] at hended
    cases hended

theorem deeds_stop (p : Pool) (id : PipelineId) : Deeds (fun _ => True) p (p.stop id) :=
  (course_stop trivial fun _ _ _ => trivial).deeds

theorem deeds_fail (e : Fault) (p : Pool) (id : PipelineId) :
    Deeds (fun _ => True) p (p.finish id .failed (some e.record)) :=
  (course_finish (.failed e.record) trivial fun _ _ _ => trivial).deeds

theorem housed_shutDown (hp : Accounted p) (hs : p.state = .closing ∨ p.state = .closed) :
    Housed p.shutDown :=
  (housed_foldl deeds_stop (fun _ _ _ => isTerminal_of_stop) hp
    (by rcases hs with hs | hs <;> simp [hs]) (by rcases hs with hs | hs <;> simp [hs] <;> rfl)
    fun s hl hs' => by simp [hl] at hs').of_sameAccounts
      ((sameAccounts_trySend _ _).trans (sameAccounts_detach _))

theorem housed_leave {next : PoolState} {fails : PipelineState → Bool} (f : Fault)
    (hp : Accounted p) (hn : next ≠ .opened) (ht : next.keeps .stopped = true)
    (hf : ∀ s, s.isTerminal = false → fails s = false → next.keeps s = true) :
    Housed (p.leave next f fails) :=
  (housed_foldl (deeds_fail f) (fun _ _ _ => isTerminal_of_finish (x := .failed f.record))
    (p := { p with state := next }) (hp.of_sameWork ⟨rfl, rfl, rfl, rfl⟩) hn ht
      hf).of_sameAccounts (sameAccounts_detach _)

end Housed

/-! ## Steps -/

/-- A pool stays in its state or follows an edge, and has only what its new state keeps. -/
structure Advances (p q : Pool) : Prop where
  edge : q.state = p.state ∨ q.state ∈ p.state.next
  housed : Accounted p → Housed p → Housed q

section Steps

variable {e : Event} {p q : Pool}

theorem Advances.refl (p : Pool) : Advances p p := ⟨.inl rfl, fun _ h => h⟩

theorem Housed.of_stepCourse (h : Housed p) (hc : StepCourse e p q)
    (hk : ∀ x, p.state.keeps x = true → q.state.keeps x = true) : Housed q := by
  obtain ⟨p₁, p₂, hp, hd, hq⟩ := hc
  have hs : p₁.state = q.state := by rw [hq.state, hd.deeds.sameControl.state]
  have h₁ : Housed p₁ := h.congr hp.pipelines fun x hx => by rw [hs]; exact hk x hx
  exact (h₁.of_deeds hd.deeds).of_sameAccounts hq.toSameAccounts

theorem advances_of_calm (hc : StepCourse e p q) (h : p.state.Calm q.state) : Advances p q := by
  rcases h with hs | ⟨hs, hk⟩
  · exact ⟨.inl hs, fun _ h => h.of_stepCourse hc fun x hx => by rw [hs]; exact hx⟩
  · exact ⟨.inr hs, fun _ h => h.of_stepCourse hc hk⟩

theorem calm_giveUp (p : Pool) (a : Attempt) : p.state.Calm (p.giveUp a).state := by
  rcases state_giveUp_eq_or p a with hs | ⟨hs, hbroken⟩
  · exact .inl hs
  · rw [hs, hbroken]
    exact .inr ⟨by simp [PoolState.next], fun _ hx => by cases hx⟩

theorem state_admitQueued (p : Pool) : p.admitQueued.state = p.state :=
  (moves_admitQueued p).sameControl.state

theorem advances_beginClose {next : PoolState} (hedge : next ∈ p.state.next)
    (hn : next = .closing ∨ next = .closed) :
    Advances p { p with state := next }.refuseHandshake.shutDown := by
  have hstate : SameWork p { p with state := next } := ⟨rfl, rfl, rfl, rfl⟩
  have hrefuse : SameAccounts { p with state := next } { p with state := next }.refuseHandshake :=
    sameAccounts_refuseHandshake _
  refine ⟨.inr ?_, fun hp _ => ?_⟩
  · rw [shutDown, (sameAccounts_detach _).state, (moves_closing _).sameControl.state, hrefuse.state]
    exact hedge
  · refine housed_shutDown (hp.of_sameWork (hstate.trans hrefuse.toSameWork)) ?_
    rw [hrefuse.state]
    exact hn

theorem advances_leave {next : PoolState} {fails : PipelineState → Bool} (f : Fault)
    (hedge : next ∈ p.state.next) (hn : next ≠ .opened) (ht : next.keeps .stopped = true)
    (hf : ∀ s, s.isTerminal = false → fails s = false → next.keeps s = true) :
    Advances p (p.leave next f fails) := by
  refine ⟨.inr ?_, fun hp _ => housed_leave f hp hn ht hf⟩
  rw [state_leave]
  exact hedge

/-- **A turn leads along an edge if to another state at all, and ends what the new state does not
keep.** -/
theorem Turn.advances (ht : Turn p e q) (h : Attached p) : Advances p q := by
  have hcalm : p.state.Calm q.state → Advances p q := advances_of_calm ht.stepCourse
  cases ht with
  | idle => exact .refl p
  | work _ hd => exact hcalm (.inl hd.moves.sameControl.state)
  | beginOpen hs _ | closeUnopened hs =>
    refine hcalm ?_
    rw [hs]
    exact .inr ⟨by simp [PoolState.next], fun _ hx => by cases hx⟩
  | beginReconnect | lineStopped => exact hcalm (.inl rfl)
  | outdated | unconnected => exact hcalm (.inl (state_resolve p _ _))
  | greet => exact hcalm (.inl (sameAccounts_attach p _).state)
  | succeed => exact hcalm (.inl (state_setProgress p _ _))
  | giveUp => exact hcalm (calm_giveUp p _)
  | beginClose hs =>
    rcases hs with ⟨hs, rfl⟩ | ⟨hs | hs, rfl⟩
    all_goals exact advances_beginClose (by simp [hs, PoolState.next]) (by decide)
  | endClose hs =>
    refine hcalm ?_
    rw [hs]
    exact .inr ⟨by simp [PoolState.next], fun _ hx => hx⟩
  | setLimit | announceLimit => exact hcalm (.inl (state_admitQueued _))
  | @hostOpened a _ ha =>
    -- an answer of the host opens a pool that was opening or disconnected
    refine hcalm ?_
    rw [state_resolve, state_admitQueued, (h.handshake a ha).1]
    exact .inr ⟨by cases a <;> simp [Attempt.expected, PoolState.next, ready], fun _ _ => rfl⟩
  | hostRefused => exact hcalm (.inl (state_answer p _ _))
  | hostEnded _ hs =>
    exact advances_leave _ (by simp [hs, PoolState.next]) (by decide) rfl fun s _ hf => by
      simpa [PoolState.keeps] using hf
  | lineEnded _ hs =>
    exact advances_leave _ (by simp [hs, PoolState.next]) (by decide) rfl fun s _ hf => by
      simpa [PoolState.keeps] using hf
  | lineLost => exact hcalm (.inl (sameAccounts_detach p).state)

theorem advances_step (h : Attached p) (e : Event) : Advances p (p.step e) :=
  (turn_step p e).advances h

end Steps

/-! ## Settings -/

/-- What a pool was made with: its identity and its options. -/
def settings (p : Pool) : PoolId × PoolOptions := (p.id, p.options)

section Settings

variable (p : Pool) (a : Attempt)

theorem SameControl.settings {q : Pool} (h : SameControl p q) : q.settings = p.settings :=
  Prod.ext h.id h.options

theorem settings_setProgress (s : Progress) : (p.setProgress a s).settings = p.settings := by
  cases a <;> rfl

theorem settings_resolve (r : Except Fault Unit) : (p.resolve a r).settings = p.settings :=
  settings_setProgress p a _

theorem settings_answer (r : Except Fault Unit) : (p.answer a r).settings = p.settings :=
  settings_setProgress p a _

theorem settings_refuseHandshake : p.refuseHandshake.settings = p.settings := by
  unfold refuseHandshake
  split
  · rfl
  · exact settings_answer p _ _

theorem settings_detach : p.detach.settings = p.settings := by
  have habandon : ∀ q : Pool, q.abandonHandshake.settings = q.settings := by
    intro q
    unfold abandonHandshake
    split
    · rfl
    · exact settings_answer q _ _
  unfold detach
  split <;> exact habandon _

theorem settings_giveUp : (p.giveUp a).settings = p.settings := by
  cases a with
  | opening =>
    rw [giveUp, settings_detach]
    split <;> exact settings_setProgress p .opening .idle
  | reconnecting => exact (settings_detach _).trans (settings_setProgress p .reconnecting .idle)

theorem settings_leave (next : PoolState) (f : Fault) (fails : PipelineState → Bool) :
    (p.leave next f fails).settings = p.settings := by
  rw [leave, settings_detach, (moves_failAll _ _ _).sameControl.settings]
  rfl

theorem settings_step (e : Event) : (p.step e).settings = p.settings := by
  have hturn := turn_step p e
  generalize p.step e = q at hturn
  cases hturn with
  | work _ h => exact h.deeds.sameControl.settings
  | outdated | unconnected => exact settings_resolve p _ _
  | @greet a => cases a <;> rfl
  | succeed => exact settings_setProgress p _ _
  | giveUp => exact settings_giveUp p _
  | beginClose =>
    rw [shutDown, settings_detach, (moves_closing _).sameControl.settings,
      settings_refuseHandshake]
    rfl
  | setLimit | announceLimit => exact (moves_admitQueued _).sameControl.settings
  | hostOpened => exact (settings_resolve _ _ _).trans (moves_admitQueued _).sameControl.settings
  | hostRefused => exact settings_answer p _ _
  | hostEnded | lineEnded => exact settings_leave p _ _ _
  | lineLost => exact settings_detach p
  | _ => rfl

/-- **No event changes what a pool was made with.** -/
theorem settings_run (events : List Event) : (p.run events).settings = p.settings := by
  induction events generalizing p with
  | nil => rfl
  | cons e events ih => exact (ih (p.step e)).trans (settings_step p e)

theorem id_run (events : List Event) : (p.run events).id = p.id :=
  congrArg Prod.fst (settings_run p events)

theorem options_run (events : List Event) : (p.run events).options = p.options :=
  congrArg Prod.snd (settings_run p events)

end Settings

/-! ## Runs -/

section Runs

variable {p : Pool}

theorem state_run_of_next (h : Attached p) (hs : p.state.next = []) (events : List Event) :
    (p.run events).state = p.state := by
  induction events generalizing p with
  | nil => rfl
  | cons e events ih =>
    have hstep : (p.step e).state = p.state := by
      rcases (advances_step h e).edge with hstep | hstep
      · exact hstep
      · rw [hs] at hstep
        cases hstep
    exact (ih (h.step e) (by rw [hstep, hs])).trans hstep

theorem Housed.run (h : Housed p) (ha : Attached p) (hp : Accounted p) (events : List Event)
    (hn : (p.run events).nextId ≤ UInt64.size) : Housed (p.run events) := by
  induction events generalizing p with
  | nil => exact h
  | cons e events ih =>
    have hn' : (p.step e).nextId ≤ UInt64.size := Nat.le_trans (nextId_le_run _ events) hn
    exact ih ((advances_step ha e).housed hp h) (ha.step e)
      ((stepMoves_step p e).accounted hp hn') hn

theorem Accounted.idle (h : Accounted p)
    (hs : ∀ c ∈ p.pipelines, c.state ≠ .running ∧ c.state ≠ .queued) :
    p.running = 0 ∧ p.queue = [] := by
  constructor
  · rw [h.running_eq, List.countP_eq_zero]
    intro c hc
    simp [(hs c hc).1]
  · refine List.eq_nil_iff_forall_not_mem.2 fun id hid => ?_
    obtain ⟨c, hc, hq⟩ := (h.mem_queue id).1 hid
    exact (hs c (pipeline?_eq_some hc).1).2 hq

/-- **The states of a pool after any events.**

A step leads along an edge of `PoolState.next` if to another state at all, so that a broken or
closed pool stays so for ever. The pool has a line to send over exactly if it is opened, and waits
for an answer of the host only while it is opening or disconnected, and holds a line. In a pool that
is being closed, is closed or is broken nothing runs and nothing waits, and in the first two all
pipelines have ended. The last two hold as long as there were numbers for the pipelines, which must
be told apart to be ended one by one. -/
theorem lifecycle_of_run (id : PoolId) (options : PoolOptions) (events : List Event) :
    let p := (new id options).run events
    (∀ e, (p.step e).state = p.state ∨ (p.step e).state ∈ p.state.next) ∧
      (p.state.isTerminal = true → ∀ more, (p.run more).state = p.state) ∧
      (p.readyLine?.isSome = true ↔ p.state = .opened) ∧
      (∀ a, p.handshake = some a →
        (p.state = .opening ∨ p.state = .disconnected) ∧ p.line.isSome = true) ∧
      (p.nextId ≤ UInt64.size →
        (p.state = .closing ∨ p.state = .closed ∨ p.state = .broken →
          p.running = 0 ∧ p.queue = [] ∧
            ∀ c ∈ p.pipelines, c.state ≠ .running ∧ c.state ≠ .queued) ∧
        (p.state = .closing ∨ p.state = .closed →
          ∀ c ∈ p.pipelines, c.state.isTerminal = true)) := by
  intro p
  have ha : Attached p := (attached_new id options).run events
  refine ⟨fun e => (advances_step ha e).edge, fun ht => state_run_of_next ha ?_, ?_,
    fun a hh => ?_, fun hn => ?_⟩
  · generalize p.state = s at ht
    cases s <;> first | rfl | cases ht
  · rw [ha.opened_iff, readyLine?]
    cases p.line with
    | none => simp
    | some l => simp [Option.filter_some]
  · obtain ⟨hs, hline⟩ := ha.handshake a hh
    refine ⟨?_, hline⟩
    cases a with
    | opening => exact .inl hs
    | reconnecting => exact .inr hs
  · have hacc : Accounted p := (accounted_new id options).run events hn
    have hh : Housed p := Housed.run (by simp [Housed, new]) (attached_new id options)
      (accounted_new id options) events hn
    refine ⟨fun hs => ?_, fun hs c hc => ?_⟩
    · have hidle : ∀ c ∈ p.pipelines, c.state ≠ .running ∧ c.state ≠ .queued := by
        intro c hc
        have hk := hh c hc
        rcases hs with hs | hs | hs <;> rw [hs] at hk <;>
          constructor <;> intro hcs <;> rw [hcs] at hk <;> cases hk
      exact ⟨(hacc.idle hidle).1, (hacc.idle hidle).2, hidle⟩
    · have hk := hh c hc
      rcases hs with hs | hs <;> rw [hs] at hk <;> exact hk

/-- A pool that is closed with one pipeline running and one waiting. -/
theorem lifecycle_of_run_close :
    let p := (new (.ofDraw 0) { maxRunspaces := 1 }).run
      [.beginOpen, .connected .opening, .notice 1 (.message (.toPool (.poolState .opened none))),
        .submit [⟨"Get-Item", []⟩], .submit [⟨"Get-Item", []⟩], .beginClose]
    p.nextId = 3 ∧ p.state = .closing ∧ p.running = 0 ∧ p.queue = [] ∧
      ∀ c ∈ p.pipelines, c.state.isTerminal = true := by
  intro p
  obtain ⟨-, -, -, -, hnum⟩ := lifecycle_of_run (.ofDraw 0) { maxRunspaces := 1 }
    [.beginOpen, .connected .opening, .notice 1 (.message (.toPool (.poolState .opened none))),
      .submit [⟨"Get-Item", []⟩], .submit [⟨"Get-Item", []⟩], .beginClose]
  obtain ⟨hidle, hall⟩ := hnum (by decide)
  have hs : p.state = .closing := by decide
  exact ⟨by decide, hs, (hidle (.inl hs)).1, (hidle (.inl hs)).2.1, hall (.inl hs)⟩

end Runs

end Pool

end Runspace
