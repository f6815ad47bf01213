import Runspace.Proofs.Pool.Attached

/-!
# Ownership — what becomes of the channels of a pool

A pool holds at most one channel. Each channel that it starts is fresh, is installed while it holds
none, and is held until it is handed over to be shut down.

* `Pool.started`, `Pool.released`, `Pool.held`: the channels by what became of them;
* `Custody`, `Custody.install`, `Custody.giveUp`: all of it, and the two ways in which it changes;
* **`Turn.custody`**: a step changes it in one of these ways, or not at all;
* `Owned`, **`Owned.run`**: every channel is accounted for, and a line has a reason;
* **`owned_of_run`**: both of them after any events of a new pool.
-/

namespace Runspace

/-! ## Custody -/

/-- The channel that an effect starts. -/
def Effect.started? : Effect → Option Nat
  | .started generation => some generation
  | _ => none

/-- The channel that an effect hands over to be shut down. -/
def Effect.released? : Effect → Option Nat
  | .released generation => some generation
  | _ => none

/-- The channels of a pool by their generations. -/
structure Custody where
  generation : Nat
  held : Option Nat
  started : List Nat
  released : List Nat

namespace Custody

/-- A new channel is held. -/
def install (c : Custody) : Custody :=
  { c with
    generation := c.generation + 1
    held := some (c.generation + 1)
    started := c.started ++ [c.generation + 1] }

/-- The channel that is held is handed over, if there is one. -/
def giveUp (c : Custody) : Custody :=
  { c with
    generation := c.generation + 1
    held := none
    released := c.released ++ c.held.toList }

/-- Each channel was handed over or is held, and all were numbered as they came. -/
structure Sound (c : Custody) : Prop where
  started_eq : c.started = c.released ++ c.held.toList
  increasing : c.started.Pairwise (· < ·)
  started_le : ∀ g ∈ c.started, g ≤ c.generation
  released_lt : ∀ g ∈ c.released, g < c.generation
  held_eq : ∀ g, c.held = some g → g = c.generation

variable {c : Custody}

theorem Sound.nodup (h : c.Sound) : c.started.Nodup :=
  h.increasing.imp fun hlt => Nat.ne_of_lt hlt

theorem Sound.install (h : c.Sound) (hc : c.held = none) : c.install.Sound where
  started_eq := by
    show c.started ++ [c.generation + 1] = c.released ++ [c.generation + 1]
    rw [h.started_eq, hc]
    simp
  increasing := by
    show (c.started ++ [c.generation + 1]).Pairwise (· < ·)
    refine List.pairwise_append.2 ⟨h.increasing, List.pairwise_singleton _ _, ?_⟩
    intro g hg g' hg'
    have hle := h.started_le g hg
    rw [List.mem_singleton.1 hg']
    omega
  started_le := by
    intro g hg
    show g ≤ c.generation + 1
    rcases List.mem_append.1 hg with hg | hg
    · exact Nat.le_succ_of_le (h.started_le g hg)
    · exact Nat.le_of_eq (List.mem_singleton.1 hg)
  released_lt g hg := Nat.lt_succ_of_lt (h.released_lt g hg)
  held_eq g hg := (Option.some.inj hg).symm

theorem Sound.giveUp (h : c.Sound) : c.giveUp.Sound where
  started_eq := by
    show c.started = (c.released ++ c.held.toList) ++ []
    rw [List.append_nil, h.started_eq]
  increasing := h.increasing
  started_le g hg := Nat.le_succ_of_le (h.started_le g hg)
  released_lt := by
    intro g hg
    -- what is handed over now was started
    have hstarted : g ∈ c.started := h.started_eq ▸ hg
    exact Nat.lt_succ_of_le (h.started_le g hstarted)
  held_eq g hg := by cases hg

end Custody

/-! ## The channels of a pool -/

namespace Pool

/-- Every channel that a pool has started, in order. -/
def started (p : Pool) : List Nat := p.outbox.filterMap (·.started?)

/-- The channels that a pool has handed over to be shut down, in order. -/
def released (p : Pool) : List Nat := p.outbox.filterMap (·.released?)

/-- The channel that a pool holds. -/
def held (p : Pool) : Option Nat := p.line.map (·.generation)

def custody (p : Pool) : Custody := ⟨p.generation, p.held, p.started, p.released⟩

section Changes

variable (p : Pool) (a : Attempt)

theorem custody_emit {e : Effect} (hs : e.started? = none) (hr : e.released? = none) :
    (p.emit e).custody = p.custody := by
  simp [custody, held, started, released, emit, List.filterMap_append, hs, hr]

theorem custody_setProgress (s : Progress) : (p.setProgress a s).custody = p.custody := by
  cases a <;> rfl

theorem custody_resolve (r : Except Fault Unit) : (p.resolve a r).custody = p.custody :=
  (custody_emit _ rfl rfl).trans (custody_setProgress p a _)

theorem custody_answer (r : Except Fault Unit) : (p.answer a r).custody = p.custody :=
  custody_resolve p a r

theorem custody_refuseHandshake : p.refuseHandshake.custody = p.custody := by
  unfold refuseHandshake
  split
  · rfl
  · exact custody_answer p _ _

theorem custody_abandonHandshake : p.abandonHandshake.custody = p.custody := by
  unfold abandonHandshake
  split
  · rfl
  · exact custody_answer p _ _

theorem custody_detach : p.detach.custody = p.custody.giveUp := by
  have habandon := custody_abandonHandshake { p with generation := p.generation + 1, line := none }
  unfold detach
  generalize { p with generation := p.generation + 1, line := none }.abandonHandshake = q
    at habandon ⊢
  cases hl : p.line with
  | none =>
    show q.custody = _
    rw [habandon]
    simp [custody, Custody.giveUp, held, started, released, hl]
  | some l =>
    have hemit : (q.emit (.released l.generation)).custody =
        { q.custody with released := q.custody.released ++ [l.generation] } := by
      simp [custody, held, started, released, emit, Effect.started?, Effect.released?]
    show (q.emit _).custody = _
    rw [hemit, habandon]
    simp [custody, Custody.giveUp, held, started, released, hl]

theorem custody_attach : (p.attach a).custody = p.custody.install := by
  cases a <;> simp [custody, Custody.install, attach, held, started, released, emit, setProgress,
    List.filterMap_append, Effect.started?, Effect.released?]

theorem custody_giveUp : (p.giveUp a).custody = p.custody.giveUp := by
  cases a with
  | opening =>
    unfold giveUp
    dsimp only
    rw [custody_detach]
    split <;> rfl
  | reconnecting => exact custody_detach _

theorem custody_lineStopped (generation : Nat) :
    (p.lineStopped generation).custody = p.custody := by
  have hheld : (p.lineStopped generation).held = p.held := by
    rw [held, lineStopped, Option.map_map]
    refine congrArg (fun f => p.line.map f) (funext fun l => ?_)
    rw [Function.comp_apply]
    split <;> rfl
  rw [custody, hheld]
  rfl

theorem custody_ready : p.ready.custody = p.custody := by
  have hheld : p.ready.held = p.held := by
    rw [held, ready, Option.map_map]
    rfl
  rw [custody, hheld]
  rfl

end Changes

section Moves

variable {p q : Pool}

theorem Move.custody (h : Move p q) : q.custody = p.custody := by
  have hadds : Adds (fun e => e.started? = none ∧ e.released? = none) p q := by
    cases h with
    | send => exact adds_emit p ⟨rfl, rfl⟩
    | wait | conclude => exact ⟨[.entered _], rfl, fun e he => List.mem_singleton.1 he ▸ ⟨rfl, rfl⟩⟩
    | launch =>
      refine ⟨[.queued _ _, .entered _], List.append_assoc _ _ _, fun e he => ?_⟩
      rcases List.mem_cons.1 he with rfl | he
      · exact ⟨rfl, rfl⟩
      · exact List.mem_singleton.1 he ▸ ⟨rfl, rfl⟩
    | annotate | make | exhaust | skip | forget => exact .of_eq rfl
  have hstarted : q.started = p.started := (hadds.mono fun _ he => he.1).filterMap_eq
  have hreleased : q.released = p.released := (hadds.mono fun _ he => he.2).filterMap_eq
  rw [Pool.custody, held, h.sameControl.generation, h.sameControl.line, hstarted, hreleased]
  rfl

theorem Moves.custody (h : Moves p q) : q.custody = p.custody := by
  induction h with
  | refl => rfl
  | tail _ h ih => exact h.custody.trans ih

end Moves

/-! ## Turns -/

section Turns

variable {e : Event} {p q : Pool} {a : Attempt}

theorem custody_leave (next : PoolState) (f : Fault) (fails : PipelineState → Bool) :
    (p.leave next f fails).custody = p.custody.giveUp := by
  rw [leave, custody_detach, (moves_failAll _ _ _).custody]
  rfl

theorem custody_shutDown : p.shutDown.custody = p.custody.giveUp := by
  rw [shutDown, custody_detach, (moves_closing p).custody]

theorem custody_admitQueued : p.admitQueued.custody = p.custody := (moves_admitQueued p).custody

/-- **A turn leaves all channels to whom they belong, gives up the one that is held, or installs a
new one.** -/
theorem Turn.custody (h : Turn p e q) :
    q.custody = p.custody ∨ q.custody = p.custody.giveUp ∨
      ∃ a, p.progress a = .connecting ∧ p.state = a.expected ∧ q.custody = p.custody.install := by
  cases h with
  | idle | beginOpen | beginReconnect | closeUnopened | endClose => exact .inl rfl
  | work _ hd => exact .inl hd.moves.custody
  | outdated | unconnected => exact .inl (custody_resolve p _ _)
  | greet ha hs => exact .inr (.inr ⟨_, ha, hs, custody_attach p _⟩)
  | succeed => exact .inl (custody_setProgress p _ _)
  | giveUp => exact .inr (.inl (custody_giveUp p _))
  | beginClose => exact .inr (.inl (by rw [custody_shutDown, custody_refuseHandshake]; rfl))
  | setLimit => exact .inl custody_admitQueued
  | announceLimit => exact .inl (custody_admitQueued.trans (custody_emit p rfl rfl))
  | hostOpened =>
    exact .inl (by rw [custody_resolve, custody_admitQueued, custody_ready])
  | hostRefused => exact .inl (custody_answer p _ _)
  | hostEnded | lineEnded => exact .inr (.inl (custody_leave _ _ _))
  | lineLost => exact .inr (.inl (custody_detach p))
  | lineStopped => exact .inl (custody_lineStopped p _)

end Turns

/-! ## Reasons -/

/-- A channel is held for a reason only: the pool is opened, or an attempt that has greeted the host
on it has not succeeded, and its caller cleans up if it fails. -/
def Awaited (p : Pool) : Prop :=
  p.line.isSome = true →
    p.state = .opened ∨ ∃ a, (p.progress a).isSettled = false ∧ p.progress a ≠ .connecting

/-- Every channel is accounted for, and is held for a reason only. -/
structure Owned (p : Pool) : Prop extends Attached p where
  sound : p.custody.Sound
  awaited : Awaited p

theorem owned_new (id : PoolId) (options : PoolOptions) : Owned (new id options) where
  toAttached := attached_new id options
  sound := {
    started_eq := rfl
    increasing := .nil
    started_le := fun g hg => by cases hg
    released_lt := fun g hg => by cases hg
    held_eq := fun g hg => by cases hg }
  awaited h := by cases h

section Reasons

variable {e : Event} {p q : Pool} {a : Attempt} {s : Progress}

theorem awaited_of_none (hl : p.line = none) : Awaited p := by
  intro h
  rw [hl] at h
  cases h

theorem Awaited.congr (h : Awaited p) (hp : ∀ a, q.progress a = p.progress a)
    (hs : p.state = .opened → q.state = .opened) (hl : q.line.isSome = p.line.isSome) :
    Awaited q := by
  intro hq
  rw [hl] at hq
  rcases h hq with ho | ⟨a, hu, hc⟩
  · exact .inl (hs ho)
  · exact .inr ⟨a, by rw [hp]; exact hu, by rw [hp]; exact hc⟩

theorem Awaited.of_sameControl (h : Awaited p) (hc : SameControl p q) : Awaited q :=
  h.congr hc.progress hc.state.trans (by rw [hc.line])

theorem Awaited.setProgress (h : Awaited p)
    (ha : p.progress a = .connecting ∨ (p.progress a).isSettled = true) :
    Awaited (p.setProgress a s) := by
  intro hq
  rw [line_setProgress] at hq
  rcases h hq with ho | ⟨b, hu, hc⟩
  · exact .inl ((state_setProgress p a s).trans ho)
  · have hb : b ≠ a := by
      rintro rfl
      rcases ha with ha | ha
      · exact hc ha
      · cases hu.symm.trans ha
    refine .inr ⟨b, ?_⟩
    rw [progress_setProgress, if_neg hb]
    exact ⟨hu, hc⟩

theorem awaited_setProgress (hu : s.isSettled = false) (hc : s ≠ .connecting) :
    Awaited (p.setProgress a s) := by
  intro _
  refine .inr ⟨a, ?_⟩
  rw [progress_setProgress, if_pos rfl]
  exact ⟨hu, hc⟩

theorem Awaited.setLimit (h : Awaited p) (n : Nat) : Awaited { p with limit := n }.admitQueued := by
  have hset : Awaited { p with limit := n } :=
    h.congr (fun a => by cases a <;> rfl) (fun hs => hs) rfl
  exact hset.of_sameControl (moves_admitQueued _).sameControl

/-- **A turn leaves a reason to hold what it leaves held.** -/
theorem Turn.awaited (ht : Turn p e q) (h : Awaited p) (hp : Pending p) : Awaited q := by
  cases ht with
  | idle => exact h
  | work _ hd => exact h.of_sameControl hd.moves.sameControl
  | beginOpen hs =>
    have hset : (p.progress .opening).isSettled = true := by
      by_cases hu : (p.progress .opening).isSettled = true
      · exact hu
      · rcases hp.unsettled .opening (Bool.not_eq_true _ ▸ hu) with he | he <;>
          cases hs.symm.trans he
    refine (h.setProgress (a := .opening) (s := .connecting) (.inr hset)).congr
      (fun a => by cases a <;> rfl) (fun ho => ?_) rfl
    cases hs.symm.trans ho
  | beginReconnect _ hr =>
    have hset : (p.progress .reconnecting).isSettled = true := by
      show p.reconnecting.isSettled = true
      unfold isReconnecting at hr
      split at hr
      · next hidle =>
        rw [hidle]
        rfl
      · cases hr
    exact h.setProgress (a := .reconnecting) (.inr hset)
  | outdated ha | unconnected ha =>
    exact (h.setProgress (.inl ha)).of_sameControl (sameControl_emit _ _)
  | @greet a ha hs =>
    intro _
    refine .inr ⟨a, ?_⟩
    have hw : (p.attach a).progress a = .waiting := by cases a <;> rfl
    rw [hw]
    exact ⟨rfl, fun hc => by cases hc⟩
  | succeed ha => exact h.setProgress (.inr (by rw [ha]; rfl))
  | giveUp => exact awaited_of_none (line_giveUp p _)
  | closeUnopened hs | endClose hs =>
    refine h.congr (fun a => by cases a <;> rfl) (fun ho => ?_) rfl
    cases hs.symm.trans ho
  | beginClose => exact awaited_of_none (line_detach _)
  | setLimit => exact h.setLimit _
  | announceLimit => exact (h.of_sameControl (sameControl_emit _ _)).setLimit _
  | hostOpened =>
    intro _
    exact .inl ((state_resolve _ _ _).trans (moves_admitQueued _).sameControl.state)
  | hostRefused =>
    refine Awaited.congr ?_ (fun a => by cases a <;> rfl) (fun hs => hs) rfl
    exact awaited_setProgress rfl (fun hw => by cases hw)
  | hostEnded | lineEnded => exact awaited_of_none (line_detach _)
  | lineLost => exact awaited_of_none (line_detach p)
  | lineStopped =>
    exact h.congr (fun a => by cases a <;> rfl) (fun hs => hs) Option.isSome_map

/-- Nothing is held while the channel of an attempt is being opened. -/
theorem Owned.held_eq_none (h : Owned p) (ha : p.progress a = .connecting)
    (hs : p.state = a.expected) : p.held = none := by
  cases hl : p.line with
  | none => rw [held, hl, Option.map_none]
  | some l =>
    rcases h.awaited (by rw [hl]; rfl) with ho | ⟨b, hu, hc⟩
    · exact absurd (hs.symm.trans ho) a.expected_ne_opened
    · -- the other attempt would need another state
      have hb : b ≠ a := by
        rintro rfl
        exact hc ha
      cases (h.isSettled_of_ne hs hb).symm.trans hu

theorem Owned.custody_step (h : Owned p) (e : Event) :
    (p.step e).custody = p.custody ∨ (p.step e).custody = p.custody.giveUp ∨
      p.held = none ∧ (p.step e).custody = p.custody.install := by
  rcases (turn_step p e).custody with hc | hc | ⟨a, ha, hs, hc⟩
  · exact .inl hc
  · exact .inr (.inl hc)
  · exact .inr (.inr ⟨h.held_eq_none ha hs, hc⟩)

theorem Owned.step (h : Owned p) (e : Event) : Owned (p.step e) where
  toAttached := h.toAttached.step e
  sound := by
    rcases h.custody_step e with hc | hc | ⟨hnone, hc⟩
    · rw [hc]
      exact h.sound
    · rw [hc]
      exact h.sound.giveUp
    · rw [hc]
      exact h.sound.install hnone
  awaited := (turn_step p e).awaited h.awaited h.toPending

/-- **Every channel is accounted for after any events.** -/
theorem Owned.run (h : Owned p) (events : List Event) : Owned (p.run events) := by
  induction events generalizing p with
  | nil => exact h
  | cons e events ih => exact ih (h.step e)

/-- Without an attempt under way a channel is held exactly by an opened pool. -/
theorem Owned.isSome_held (h : Owned p) (hset : ∀ a, (p.progress a).isSettled = true) :
    p.held.isSome = true ↔ p.state = .opened := by
  rw [held, Option.isSome_map]
  constructor
  · intro hl
    rcases h.awaited hl with ho | ⟨a, hu, -⟩
    · exact ho
    · cases hu.symm.trans (hset a)
  · intro ho
    obtain ⟨l, hl, -⟩ := h.opened_iff.1 ho
    rw [hl]
    rfl

end Reasons

/-! ## Runs -/

/-- **Who owns the channels of a pool after any events.**

Each channel that was started is held, or was handed over to be shut down, once and in the order of
their starts; nothing else was. Whatever happens next leaves all of this as it is, or hands over the
channel that is held, or installs one with a new number while none is held. If no attempt is under
way, a channel is held exactly if the pool is opened. -/
theorem owned_of_run (id : PoolId) (options : PoolOptions) (events : List Event) :
    let p := (new id options).run events
    p.started = p.released ++ p.held.toList ∧ p.started.Nodup ∧
      (∀ e, (p.step e).custody = p.custody ∨ (p.step e).custody = p.custody.giveUp ∨
        p.held = none ∧ p.generation + 1 ∉ p.started ∧
          (p.step e).custody = p.custody.install) ∧
      ((∀ a, (p.progress a).isSettled = true) → (p.held.isSome = true ↔ p.state = .opened)) := by
  intro p
  have h : Owned p := (owned_new id options).run events
  refine ⟨h.sound.started_eq, h.sound.nodup, fun e => ?_, h.isSome_held⟩
  rcases h.custody_step e with hc | hc | ⟨hnone, hc⟩
  · exact .inl hc
  · exact .inr (.inl hc)
  · refine .inr (.inr ⟨hnone, fun hmem => ?_, hc⟩)
    have hle : p.generation + 1 ≤ p.generation := h.sound.started_le _ hmem
    omega

/-- A pool that loses its first channel, is refused on the second and is opened again on the third,
which it holds; the others were handed over. -/
theorem owned_of_run_reconnect :
    let start := new (.ofDraw 0) {}
    let events : List Event := [.beginOpen, .connected .opening,
      .notice 1 (.message (.toPool (.poolState .opened none))), .resume .opening,
      .notice 1 (.closed none), .beginReconnect, .connected .reconnecting,
      .notice 3 (.message (.toPool (.poolState .broken none))), .resume .reconnecting,
      .beginReconnect, .connected .reconnecting,
      .notice 5 (.message (.toPool (.poolState .opened none))), .resume .reconnecting]
    let p := start.run events
    p.started = [1, 3, 5] ∧ p.released = [1, 3] ∧ p.held = some 5 ∧ p.started.Nodup ∧
      p.state = .opened := by
  intro start events p
  obtain ⟨heq, hnodup, -, hheld⟩ := owned_of_run (.ofDraw 0) {} events
  have hnow : p.held = some 5 := by decide
  have hreleased : p.released = [1, 3] := by decide
  have hset : ∀ a, (p.progress a).isSettled = true := by
    intro a
    cases a <;> decide
  refine ⟨?_, hreleased, hnow, hnodup, (hheld hset).1 ?_⟩
  · show p.started = [1, 3] ++ [5]
    rw [← hreleased]
    exact heq
  · show p.held.isSome = true
    rw [hnow]
    rfl

end Pool

end Runspace
