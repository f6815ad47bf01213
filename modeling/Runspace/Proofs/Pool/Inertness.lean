import Runspace.Proofs.Pool.Lifecycle
import Runspace.Proofs.Pool.Ownership

/-!
# Inertness — late news of channels that were given up

A pool that has handed a channel over takes no more notice of it: news of that channel change
nothing, whenever they come, and a run without them leads through the same pools.

* `Event.channel?`, `Pool.isLate`: the news of channels, and those that are late;
* `Pool.withoutLate`: a run without its late news;
* **`Owned.step_of_ne`**: only news of the current generation change anything;
* **`inert_of_run`**: late news may be left out, and a channel once given up never counts again.
-/

namespace Runspace

namespace Pool

/-! ## Late news -/

/-- The channel of which an event is news, of any kind. -/
def Event.channel? : Event → Option Nat
  | .notice generation _ | .lineStopped generation => some generation
  | _ => none

/-- Whether an event is news of a channel that a pool has given up. -/
def isLate (p : Pool) (e : Event) : Bool := e.channel?.any (· ∈ p.released)

/-- Some events without those that are late when they come. -/
def withoutLate (p : Pool) : List Event → List Event
  | [] => []
  | e :: events =>
    if p.isLate e then (p.step e).withoutLate events else e :: (p.step e).withoutLate events

theorem withoutLate_append (p : Pool) (before after : List Event) :
    p.withoutLate (before ++ after) =
      p.withoutLate before ++ (p.run before).withoutLate after := by
  induction before generalizing p with
  | nil => rfl
  | cons e before ih =>
    have hrun : p.run (e :: before) = (p.step e).run before := rfl
    rw [List.cons_append, withoutLate, withoutLate, ih, hrun]
    by_cases hl : p.isLate e = true
    · rw [if_pos hl, if_pos hl]
    · rw [if_neg hl, if_neg hl, List.cons_append]

/-! ## Steps -/

section Steps

variable {p : Pool} {e : Event} {g : Nat}

/-- **News that are not of the current generation change nothing.** -/
theorem Owned.step_of_ne (h : Owned p) (he : e.channel? = some g) (hg : g ≠ p.generation) :
    p.step e = p := by
  cases e with
  | notice generation n =>
    cases he
    exact if_neg hg
  | lineStopped generation =>
    cases he
    have hline : p.line.map (fun l => if l.generation = g then { l with isAccepting := false }
        else l) = p.line := by
      cases hl : p.line with
      | none => rfl
      | some l =>
        -- the line is of the current generation
        have hcur : l.generation = p.generation :=
          h.sound.held_eq _ (show p.held = _ by rw [held, hl]; rfl)
        rw [Option.map_some, if_neg fun hl' => hg (hl'.symm.trans hcur)]
    show { p with line := p.line.map _ } = p
    rw [hline]
  | _ => cases he

theorem Owned.step_of_released (h : Owned p) (hg : g ∈ p.released) (he : e.channel? = some g) :
    p.step e = p :=
  h.step_of_ne he (Nat.ne_of_lt (h.sound.released_lt g hg))

theorem Owned.step_of_late (h : Owned p) (hl : p.isLate e = true) : p.step e = p := by
  unfold isLate at hl
  cases he : e.channel? with
  | none =>
    rw [he] at hl
    cases hl
  | some g =>
    rw [he] at hl
    exact h.step_of_released (of_decide_eq_true hl) he

/-- Only one channel can change anything, and if it was started it is the one that is held. -/
theorem Owned.eq_of_step_ne (h : Owned p) (he : e.channel? = some g) (hne : p.step e ≠ p) :
    g = p.generation ∧ (g ∈ p.started → p.held = some g) := by
  constructor
  · by_cases hg : g = p.generation
    · exact hg
    · exact absurd (h.step_of_ne he hg) hne
  · intro hs
    have hmem : g ∈ p.released ++ p.held.toList := h.sound.started_eq ▸ hs
    rcases List.mem_append.1 hmem with hr | hh
    · exact absurd (h.step_of_released hr he) hne
    · exact Option.mem_toList.1 hh

theorem Owned.released_step (h : Owned p) (hg : g ∈ p.released) (e : Event) :
    g ∈ (p.step e).released := by
  show g ∈ (p.step e).custody.released
  rcases h.custody_step e with hc | hc | ⟨-, hc⟩
  · rw [hc]
    exact hg
  · rw [hc]
    exact List.mem_append_left _ hg
  · rw [hc]
    exact hg

theorem Owned.held_ne (h : Owned p) (hg : g ∈ p.released) : p.held ≠ some g := by
  intro hh
  have hcur := h.sound.held_eq g hh
  have hlt := h.sound.released_lt g hg
  exact Nat.ne_of_lt hlt hcur

/-! ## Failed attempts -/

/-- Outside the opened state no pipeline runs, so no message can be for one. -/
theorem Housed.not_running (h : Housed p) (hs : p.state ≠ .opened) {id : PipelineId} {c : Pipeline}
    (hc : p.registered? id = some c) : c.state ≠ .running := by
  intro hr
  have hk := h c (registered?_eq_some hc).1
  rw [hr] at hk
  generalize p.state = s at hs hk
  cases s <;> first | exact hs rfl | cases hk

theorem Housed.receivePipeline_eq (h : Housed p) (hs : p.state ≠ .opened) (id : PipelineId)
    (payload : Payload) : p.receivePipeline id payload = p := by
  unfold receivePipeline
  split
  · rfl
  · next hc => exact if_neg (h.not_running hs hc)

theorem Housed.losePipeline_eq (h : Housed p) (hs : p.state ≠ .opened) (id : PipelineId)
    (f : Fault) : p.lose (.pipeline id) f = p := by
  unfold lose
  dsimp only
  split
  · rfl
  · next hc => exact if_neg (h.not_running hs hc)

theorem Housed.lose_eq (h : Housed p) (hs : p.state ≠ .opened) (hh : p.handshake = none)
    (target : Target) (f : Fault) : p.lose target f = p := by
  cases target with
  | pool =>
    unfold lose
    rw [hh]
  | pipeline id => exact h.losePipeline_eq hs id f

theorem receivePool_eq (hs : p.state ≠ .opened) (hh : p.handshake = none) (payload : Payload) :
    p.receivePool payload = p := by
  unfold receivePool
  split
  · rw [hostOpened, hh]
  · rw [hostEnded, hh]
    exact if_neg hs
  · rfl

/-- A pool that is not opened and waits for no answer heeds no news, except that its line is given
up when it ends. -/
theorem Housed.notice_cases (h : Housed p) (hs : p.state ≠ .opened) (hh : p.handshake = none)
    (g : Nat) (n : Notice) : p.notice g n = p ∨ p.notice g n = p.detach := by
  unfold Pool.notice
  by_cases hg : g = p.generation
  · rw [if_pos hg]
    cases n with
    | message m =>
      left
      obtain ⟨target, payload⟩ := m
      cases target with
      | pool => exact receivePool_eq hs hh payload
      | pipeline id => exact h.receivePipeline_eq hs id payload
    | framingError target f | sendFailed target f => exact .inl (h.lose_eq hs hh target f)
    | closed f =>
      right
      show p.lineClosed f = _
      rw [lineClosed, hh]
      exact if_neg hs
  · exact .inl (if_neg hg)

end Steps

/-! ## Runs -/

section Runs

variable {p : Pool} {g : Nat}

theorem Owned.run_withoutLate (h : Owned p) (events : List Event) :
    p.run (p.withoutLate events) = p.run events := by
  induction events generalizing p with
  | nil => rfl
  | cons e events ih =>
    show _ = (p.step e).run events
    rw [withoutLate]
    by_cases hl : p.isLate e = true
    · rw [if_pos hl, h.step_of_late hl]
      exact ih h
    · rw [if_neg hl]
      exact ih (h.step e)

theorem Owned.released_run (h : Owned p) (hg : g ∈ p.released) (events : List Event) :
    g ∈ (p.run events).released := by
  induction events generalizing p with
  | nil => exact hg
  | cons e events ih => exact ih (h.step e) (h.released_step hg e)

end Runs

/-- **News of channels that were given up are without effect, in any run.**

Leaving out all news that are late when they come, of any kind, leads through the same pools, with
the same outbox; so two runs that differ in late news only end alike. At any time the news of one
generation at most can change the pool, and if its channel was started, it is the channel that is
held. A channel that was given up stays so: whatever comes later, its generation is not the current
one again and none of its news changes anything.

Between the failure of an attempt and the cleanup by its caller the channel is still held, but its
news can do no more than have it given up. This holds as long as there were numbers for the
pipelines, since others would not have ended one by one. -/
theorem inert_of_run (id : PoolId) (options : PoolOptions) (events : List Event) :
    let start := new id options
    let p := start.run events
    (∀ before after, events = before ++ after →
      start.withoutLate before <+: start.withoutLate events ∧
        start.run (start.withoutLate before) = start.run before) ∧
      (∀ other, start.withoutLate other = start.withoutLate events → start.run other = p) ∧
      (∀ e g, e.channel? = some g → p.step e ≠ p →
        g = p.generation ∧ (g ∈ p.started → p.held = some g)) ∧
      (∀ g ∈ p.released, ∀ more,
        g ∈ (p.run more).released ∧ (p.run more).generation ≠ g ∧ (p.run more).held ≠ some g ∧
          ∀ e, e.channel? = some g → (p.run more).step e = p.run more) ∧
      (p.nextId ≤ UInt64.size → p.state ≠ .opened → p.handshake = none →
        ∀ g n, p.step (.notice g n) = p ∨ p.step (.notice g n) = p.detach) := by
  intro start p
  have hstart : Owned start := owned_new id options
  have h : Owned p := hstart.run events
  refine ⟨?_, ?_, fun e g => h.eq_of_step_ne, ?_, ?_⟩
  · intro before after hev
    rw [hev, withoutLate_append]
    exact ⟨List.prefix_append _ _, hstart.run_withoutLate before⟩
  · intro other hother
    rw [← hstart.run_withoutLate other, hother]
    exact hstart.run_withoutLate events
  · intro g hg more
    have hmore : g ∈ (p.run more).released := h.released_run hg more
    have hown : Owned (p.run more) := h.run more
    have hlt := hown.sound.released_lt g hmore
    exact ⟨hmore, Nat.ne_of_gt hlt, hown.held_ne hmore, fun e => hown.step_of_released hmore⟩
  · intro hn hs hh g n
    have hhoused : Housed p := Housed.run (by simp [Housed, new]) (attached_new id options)
      (accounted_new id options) events hn
    exact hhoused.notice_cases hs hh g n

/-- A pool that has lost its first channel and attaches to its host again on another, while the
first is still heard of. -/
theorem inert_of_run_replaced :
    let opened : Notice := .message (.toPool (.poolState .opened none))
    let before : List Event := [.beginOpen, .connected .opening, .notice 1 opened,
      .resume .opening, .notice 1 (.closed none)]
    let after : List Event := [.beginReconnect, .connected .reconnecting, .notice 3 opened]
    let late : List Event := [.notice 1 opened, .lineStopped 1, .notice 1 (.closed none)]
    let start := new (.ofDraw 0) {}
    let p := start.run (before ++ after)
    start.run (before ++ late ++ after) = p ∧ p.state = .opened ∧ p.held = some 3 ∧
      (∀ more, ∀ e ∈ late, (p.run more).step e = p.run more) := by
  intro opened before after late start p
  obtain ⟨-, hother, -, hgone, -⟩ := inert_of_run (.ofDraw 0) {} (before ++ after)
  refine ⟨hother _ rfl, by decide, by decide, fun more e he => ?_⟩
  have hlate : e.channel? = some 1 := by
    simp only [late, List.mem_cons, List.not_mem_nil, or_false] at he
    rcases he with rfl | rfl | rfl <;> rfl
  exact (hgone 1 (by decide) more).2.2.2 e hlate

end Pool

end Runspace
