import Runspace.Proofs.Pool.Steps

/-!
# Lines and attempts — how a pool is attached to its host

A pool sends over a line from the host's answer on until it leaves the opened state, and an attempt
that has not succeeded keeps the pool in the state in which it began, unless the pool is closed.

* `Pending`: what holds of the attempts in any state;
* `Attached`: with it, what holds of the line;
* **`Attached.run`**: both hold after any events.
-/

namespace Runspace

/-- Whether an attempt asks nothing of the pool any more: it was not begun, or it has succeeded. -/
def Progress.isSettled : Progress → Bool
  | .idle | .answered (.ok _) => true
  | _ => false

namespace Pool

/-! ## Fields under changes -/

section Fields

variable (p : Pool) (a b : Attempt) (s : Progress) (r : Except Fault Unit)

theorem progress_setProgress :
    (p.setProgress a s).progress b = if b = a then s else p.progress b := by
  cases a <;> cases b <;> rfl

@[simp] theorem handshake_setProgress : (p.setProgress a s).handshake = p.handshake := by
  cases a <;> rfl

theorem progress_resolve :
    (p.resolve a r).progress b = if b = a then .answered r else p.progress b :=
  progress_setProgress p a b _

@[simp] theorem handshake_resolve : (p.resolve a r).handshake = p.handshake :=
  handshake_setProgress p a _

theorem progress_answer :
    (p.answer a r).progress b = if b = a then .answered r else p.progress b :=
  progress_setProgress p a b _

@[simp] theorem handshake_answer : (p.answer a r).handshake = none := rfl

end Fields

/-! ## Attempts -/

/-- What holds of the attempts to get a line: one waits for its host exactly if the pool holds its
handshake, and while it has not succeeded the pool stays where it was, or is closed. -/
structure Pending (p : Pool) : Prop where
  waiting_iff : ∀ a, p.progress a = .waiting ↔ p.handshake = some a
  unsettled : ∀ a, (p.progress a).isSettled = false → p.state = a.expected ∨ p.state = .closed

/-- What holds of the line: it is ready exactly in an opened pool, and while its host must answer
there is one. -/
structure Attached (p : Pool) : Prop extends Pending p where
  opened_iff : p.state = .opened ↔ ∃ l, p.line = some l ∧ l.isReady = true
  handshake : ∀ a, p.handshake = some a → p.state = a.expected ∧ p.line.isSome = true

theorem attached_new (id : PoolId) (options : PoolOptions) : Attached (new id options) where
  waiting_iff a := by cases a <;> simp [new, progress]
  unsettled a h := by cases a <;> cases h
  opened_iff := by simp [new]
  handshake a h := by cases h

section Pending

variable {p q : Pool} {a b : Attempt} {r : Except Fault Unit}

theorem Pending.congr (h : Pending p) (hp : ∀ a, q.progress a = p.progress a)
    (hh : q.handshake = p.handshake)
    (hs : ∀ a, (p.progress a).isSettled = false → q.state = a.expected ∨ q.state = .closed) :
    Pending q where
  waiting_iff a := by rw [hp, hh, h.waiting_iff]
  unsettled a hu := hs a (hp a ▸ hu)

theorem SameControl.progress (hc : SameControl p q) (a : Attempt) :
    q.progress a = p.progress a := by
  cases a
  · exact hc.opening
  · exact hc.reconnecting

theorem Pending.of_sameControl (h : Pending p) (hc : SameControl p q) : Pending q :=
  h.congr hc.progress hc.handshake fun a hu => by rw [hc.state]; exact h.unsettled a hu

theorem Attached.congr (h : Attached p) (hp : ∀ a, q.progress a = p.progress a)
    (hh : q.handshake = p.handshake) (hs : q.state = p.state)
    (hl : q.line.map (·.isReady) = p.line.map (·.isReady)) : Attached q where
  toPending := h.toPending.congr hp hh fun a hu => by rw [hs]; exact h.unsettled a hu
  opened_iff := by
    have hready : ∀ o : Option Line, (∃ l, o = some l ∧ l.isReady = true) ↔
        o.map (·.isReady) = some true := by
      intro o
      cases o <;> simp
    rw [hs, h.opened_iff, hready, hready, hl]
  handshake a ha := by
    rw [hh] at ha
    obtain ⟨he, hline⟩ := h.handshake a ha
    rw [← Option.isSome_map (f := (·.isReady)), ← hl, Option.isSome_map] at hline
    exact ⟨hs.trans he, hline⟩

theorem Attached.of_sameControl (h : Attached p) (hc : SameControl p q) : Attached q :=
  h.congr hc.progress hc.handshake hc.state (by rw [hc.line])

theorem Pending.isSettled (h : Pending p) (hs : p.state = .opened) (a : Attempt) :
    (p.progress a).isSettled = true := by
  cases hu : (p.progress a).isSettled with
  | true => rfl
  | false =>
    rcases h.unsettled a hu with he | he
    · exact absurd (he.symm.trans hs) a.expected_ne_opened
    · rw [hs] at he
      cases he

theorem Pending.unsettled_of_handshake (h : Pending p) (ha : p.handshake = some a) :
    (p.progress a).isSettled = false := by
  rw [(h.waiting_iff a).2 ha]
  rfl

theorem Pending.isSettled_of_ne (h : Pending p) (hs : p.state = a.expected) (hb : b ≠ a) :
    (p.progress b).isSettled = true := by
  cases hu : (p.progress b).isSettled with
  | true => rfl
  | false =>
    rcases h.unsettled b hu with he | he
    · rw [hs] at he
      cases a <;> cases b <;> first | exact absurd rfl hb | cases he
    · rw [hs] at he
      cases a <;> cases he

theorem Pending.setState (h : Pending p) {s : PoolState}
    (hs : ∀ a, (p.progress a).isSettled = false → s = a.expected ∨ s = .closed) :
    Pending { p with state := s } :=
  h.congr (fun a => by cases a <;> rfl) rfl hs

theorem Attached.handshake_eq_none (h : Attached p) (hs : ∀ a : Attempt, p.state ≠ a.expected) :
    p.handshake = none := by
  cases ha : p.handshake with
  | none => rfl
  | some a => exact absurd (h.handshake a ha).1 (hs a)

theorem Attached.setState (h : Attached p) {s : PoolState} (hh : p.handshake = none)
    (hp : p.state ≠ .opened) (hn : s ≠ .opened)
    (hs : ∀ a, (p.progress a).isSettled = false → s = a.expected ∨ s = .closed) :
    Attached { p with state := s } where
  toPending := h.toPending.setState hs
  opened_iff := iff_of_false hn fun hl => hp (h.opened_iff.2 hl)
  handshake a ha := by cases hh.symm.trans ha

theorem Pending.setProgress (h : Pending p) {s : Progress} (hw : s ≠ .waiting)
    (ha : p.handshake ≠ some a)
    (hs : s.isSettled = false → p.state = a.expected ∨ p.state = .closed) :
    Pending (p.setProgress a s) where
  waiting_iff b := by
    rw [progress_setProgress, handshake_setProgress]
    by_cases hb : b = a
    · subst hb
      rw [if_pos rfl]
      exact iff_of_false hw ha
    · rw [if_neg hb]
      exact h.waiting_iff b
  unsettled b hu := by
    rw [state_setProgress]
    rw [progress_setProgress] at hu
    by_cases hb : b = a
    · subst hb
      rw [if_pos rfl] at hu
      exact hs hu
    · rw [if_neg hb] at hu
      exact h.unsettled b hu

theorem Attached.setProgress (h : Attached p) {s : Progress} (hw : s ≠ .waiting)
    (ha : p.handshake ≠ some a)
    (hs : s.isSettled = false → p.state = a.expected ∨ p.state = .closed) :
    Attached (p.setProgress a s) where
  toPending := h.toPending.setProgress hw ha hs
  opened_iff := by simpa using h.opened_iff
  handshake b hb := by simpa using h.handshake b (by simpa using hb)

theorem Attached.resolve (h : Attached p) (ha : p.progress a = .connecting) :
    Attached (p.resolve a r) := by
  have hset : Attached (p.setProgress a (.answered r)) := by
    refine h.setProgress (fun hw => by cases hw) (fun hh => ?_) fun _ => h.unsettled a ?_
    · rw [(h.waiting_iff a).2 hh] at ha
      cases ha
    · rw [ha]
      rfl
  exact hset.of_sameControl (sameControl_emit _ _)

theorem Pending.answer (h : Pending p) (ha : p.handshake = some a) : Pending (p.answer a r) where
  waiting_iff b := by
    rw [progress_answer]
    by_cases hb : b = a
    · simp [hb]
    · rw [if_neg hb, h.waiting_iff b, ha]
      simpa using Ne.symm hb
  unsettled b hu := by
    rw [state_answer]
    rw [progress_answer] at hu
    by_cases hb : b = a
    · subst hb
      exact h.unsettled b (h.unsettled_of_handshake ha)
    · rw [if_neg hb] at hu
      exact h.unsettled b hu

theorem Attached.answer (h : Attached p) (ha : p.handshake = some a) : Attached (p.answer a r) where
  toPending := h.toPending.answer ha
  opened_iff := by simpa using h.opened_iff
  handshake b hb := by cases hb

/-- **A pool that is not opened is in order without a line.** -/
theorem Pending.detach (h : Pending p) (hs : p.state ≠ .opened) : Attached p.detach := by
  have hline : Pending { p with generation := p.generation + 1, line := none } :=
    h.congr (fun a => by cases a <;> rfl) rfl h.unsettled
  have habandon :
      Attached { p with generation := p.generation + 1, line := none }.abandonHandshake := by
    generalize hq : ({ p with generation := p.generation + 1, line := none } : Pool) = q at hline ⊢
    have hqs : q.state ≠ .opened := by rw [← hq]; exact hs
    have hql : q.line = none := by rw [← hq]
    unfold abandonHandshake
    split
    · next hn =>
      exact { hline with opened_iff := by simpa [hql] using hqs, handshake := by simp [hn] }
    · next a ha =>
      exact { hline.answer ha with
        opened_iff := by simpa [hql] using hqs, handshake := fun b hb => by cases hb }
  unfold Pool.detach
  cases p.line with
  | none => exact habandon
  | some l => exact habandon.of_sameControl (sameControl_emit _ _)

end Pending

/-! ## Steps -/

section Steps

variable {p q : Pool} {a : Attempt}

theorem Attached.of_moves (h : Attached p) (hm : Moves p q) : Attached q :=
  h.of_sameControl hm.sameControl

theorem Attached.beginOpen (h : Attached p) (hs : p.state = .beforeOpen) :
    Attached { p with state := .opening, opening := .connecting } := by
  have hh : p.handshake = none := h.handshake_eq_none fun a => by rw [hs]; cases a <;> decide
  have hstate : Attached { p with state := .opening } := by
    refine h.setState hh (by rw [hs]; decide) (by decide) fun a hu => ?_
    -- no attempt was begun yet
    rcases h.unsettled a hu with he | he <;> rw [hs] at he <;> cases a <;> cases he
  exact hstate.setProgress (a := .opening) (s := .connecting) (fun hw => by cases hw)
    (by simp [hh]) fun _ => .inl rfl

theorem Attached.beginReconnect (h : Attached p) (hs : p.state = .disconnected)
    (hr : p.isReconnecting = false) : Attached { p with reconnecting := .connecting } := by
  refine h.setProgress (a := .reconnecting) (fun hw => by cases hw) (fun hh => ?_) fun _ => .inl hs
  have hw : p.reconnecting = .waiting := (h.waiting_iff .reconnecting).2 hh
  simp [isReconnecting, hw] at hr

theorem Attached.greet (h : Attached p) (hs : p.state = a.expected) (generation : Nat) :
    Attached { p.setProgress a .waiting with
      generation, line := some { generation }, handshake := some a } where
  waiting_iff b := by
    change (p.setProgress a .waiting).progress b = .waiting ↔ some a = some b
    rw [progress_setProgress]
    by_cases hb : b = a
    · simp [hb]
    · have hset := h.isSettled_of_ne hs hb
      rw [if_neg hb]
      refine iff_of_false (fun hw => ?_) fun he => hb (Option.some.inj he).symm
      rw [hw] at hset
      cases hset
  unsettled b hu := by
    change (p.setProgress a .waiting).state = _ ∨ _
    change ((p.setProgress a .waiting).progress b).isSettled = false at hu
    rw [state_setProgress]
    rw [progress_setProgress] at hu
    by_cases hb : b = a
    · exact .inl (hb ▸ hs)
    · rw [if_neg hb, h.isSettled_of_ne hs hb] at hu
      cases hu
  opened_iff := by
    change (p.setProgress a .waiting).state = _ ↔ _
    rw [state_setProgress, hs]
    refine iff_of_false a.expected_ne_opened ?_
    rintro ⟨l, hl, hr⟩
    cases hl
    cases hr
  handshake b hb := by
    cases hb
    exact ⟨(state_setProgress p a _).trans hs, rfl⟩

theorem Attached.giveUp (h : Attached p) {e : Fault} (ha : p.progress a = .answered (.error e)) :
    Attached (p.giveUp a) := by
  have hh : p.handshake ≠ some a := by
    rw [Ne, ← h.waiting_iff, ha]
    exact fun hw => by cases hw
  have hidle : Pending (p.setProgress a .idle) :=
    h.toPending.setProgress (fun hw => by cases hw) hh fun hu => by cases hu
  have hs := h.unsettled a (by rw [ha]; rfl)
  cases a with
  | opening =>
    unfold Pool.giveUp
    dsimp only
    rw [state_setProgress]
    split
    · next hopen =>
      refine (hidle.setState fun b hu => ?_).detach fun hb => by cases hb
      -- the other attempt would need another state
      rw [progress_setProgress] at hu
      by_cases hb : b = .opening
      · rw [if_pos hb] at hu
        cases hu
      · have hset := h.isSettled_of_ne (a := .opening) hopen hb
        rw [if_neg hb, hset] at hu
        cases hu
    · next hopen =>
      refine hidle.detach ?_
      rw [state_setProgress, hs.resolve_left hopen]
      decide
  | reconnecting =>
    refine hidle.detach ?_
    rw [state_setProgress]
    rcases hs with hs | hs <;> rw [hs] <;> decide

theorem Attached.succeed (h : Attached p) (ha : p.progress a = .answered (.ok ())) :
    Attached (p.setProgress a .idle) := by
  refine h.setProgress (fun hw => by cases hw) ?_ fun hu => by cases hu
  rw [Ne, ← h.waiting_iff, ha]
  exact fun hw => by cases hw

theorem Pending.refuseHandshake (h : Pending p) : Pending p.refuseHandshake := by
  unfold Pool.refuseHandshake
  split
  · exact h
  · next a ha => exact h.answer ha

theorem Attached.beginClose (h : Attached p) {next : PoolState}
    (hs : p.state = .opened ∧ next = .closing ∨
      (p.state = .opening ∨ p.state = .disconnected) ∧ next = .closed) :
    Attached { p with state := next }.refuseHandshake.shutDown := by
  have hgo : ∀ a, (p.progress a).isSettled = false → next = a.expected ∨ next = .closed := by
    intro a hu
    rcases hs with ⟨hs, -⟩ | ⟨-, hn⟩
    · rw [h.isSettled hs a] at hu
      cases hu
    · exact .inr hn
  have hq := ((h.toPending.setState hgo).refuseHandshake).of_sameControl
    (moves_closing _).sameControl
  refine hq.detach ?_
  rw [(moves_closing _).sameControl.state, (sameAccounts_refuseHandshake _).state]
  rcases hs with ⟨-, rfl⟩ | ⟨-, rfl⟩ <;> simp

theorem Attached.close (h : Attached p) (hs : p.state = .beforeOpen ∨ p.state = .closing) :
    Attached { p with state := .closed } := by
  have hne : p.state ≠ .opened ∧ ∀ a : Attempt, p.state ≠ a.expected := by
    rcases hs with hs | hs <;> rw [hs] <;> exact ⟨by decide, fun a => by cases a <;> decide⟩
  exact h.setState (h.handshake_eq_none hne.2) hne.1 (by decide) fun _ _ => .inr rfl

theorem Attached.setLimit (h : Attached p) (n : Nat) :
    Attached { p with limit := n }.admitQueued := by
  have hset : Attached { p with limit := n } :=
    h.congr (fun a => by cases a <;> rfl) rfl rfl rfl
  exact hset.of_moves (moves_admitQueued _)

theorem Attached.hostOpened (h : Attached p) (ha : p.handshake = some a) :
    Attached (p.ready.admitQueued.resolve a (.ok ())) := by
  obtain ⟨hs, hline⟩ := h.handshake a ha
  obtain ⟨l, hl⟩ := Option.isSome_iff_exists.1 hline
  have hc : SameControl p.ready p.ready.admitQueued := (moves_admitQueued p.ready).sameControl
  have hset : ∀ b, ((p.ready.admitQueued.resolve a (.ok ())).progress b).isSettled = true := by
    intro b
    rw [progress_resolve]
    by_cases hb : b = a
    · rw [if_pos hb]
      rfl
    · rw [if_neg hb, hc.progress]
      have hready := h.isSettled_of_ne hs hb
      cases b <;> exact hready
  have hnone : (p.ready.admitQueued.resolve a (.ok ())).handshake = none := by
    rw [handshake_resolve, hc.handshake]
    rfl
  refine { waiting_iff := fun b => ?_, unsettled := fun b hu => ?_, opened_iff := ?_,
           handshake := fun b hb => ?_ }
  · rw [hnone]
    refine iff_of_false (fun hw => ?_) fun hb => by cases hb
    have := hset b
    rw [hw] at this
    cases this
  · rw [hset b] at hu
    cases hu
  · rw [state_resolve, line_resolve, hc.state, hc.line]
    exact iff_of_true rfl ⟨{ l with isReady := true }, by simp [ready, hl], rfl⟩
  · cases hnone.symm.trans hb

theorem Attached.leave (h : Attached p) (hs : p.state = .opened) {s : PoolState}
    (hn : s ≠ .opened) (hm : Moves { p with state := s } q) : Attached q.detach := by
  have hstate : Pending { p with state := s } := by
    refine h.toPending.setState fun a hu => ?_
    rw [h.isSettled hs a] at hu
    cases hu
  refine (hstate.of_sameControl hm.sameControl).detach ?_
  rw [hm.sameControl.state]
  exact hn

theorem Attached.lineStopped (h : Attached p) (generation : Nat) :
    Attached (p.lineStopped generation) := by
  refine h.congr (fun a => by cases a <;> rfl) rfl rfl ?_
  rw [Pool.lineStopped, Option.map_map]
  refine congrArg (fun f => p.line.map f) (funext fun l => ?_)
  rw [Function.comp_apply]
  split <;> rfl

/-- **Every turn leaves lines and attempts in order.** -/
theorem Turn.attached {e : Event} (ht : Turn p e q) (h : Attached p) : Attached q := by
  cases ht with
  | idle => exact h
  | work _ hd => exact h.of_moves hd.moves
  | beginOpen hs _ => exact h.beginOpen hs
  | beginReconnect hs hr => exact h.beginReconnect hs hr
  | outdated ha | unconnected ha => exact h.resolve ha
  | greet ha hs =>
    exact (h.greet hs _).of_sameControl ((sameControl_emit _ _).trans (sameControl_emit _ _))
  | succeed ha => exact h.succeed ha
  | giveUp ha => exact h.giveUp ha
  | closeUnopened hs => exact h.close (.inl hs)
  | beginClose hs => exact h.beginClose hs
  | endClose hs => exact h.close (.inr hs)
  | setLimit => exact h.setLimit _
  | announceLimit _ _ _ hl ha => exact (h.of_moves (.single (.send _ hl ha))).setLimit _
  | hostOpened ha => exact h.hostOpened ha
  | hostRefused ha => exact h.answer ha
  | hostEnded _ hs | lineEnded _ hs => exact h.leave hs (by decide) (moves_failAll _ _ _)
  | lineLost _ hs => exact h.toPending.detach hs
  | lineStopped => exact h.lineStopped _

theorem Attached.step (h : Attached p) (e : Event) : Attached (p.step e) :=
  (turn_step p e).attached h

/-- **Lines and attempts are in order after any events.** -/
theorem Attached.run (h : Attached p) (events : List Event) : Attached (p.run events) := by
  induction events generalizing p with
  | nil => exact h
  | cons e events ih => exact ih (h.step e)

end Steps

end Pool

end Runspace
