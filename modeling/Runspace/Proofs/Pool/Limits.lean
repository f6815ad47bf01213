import Mathlib.Data.List.Induction
import Runspace.Proofs.Pool.Capacity
import Runspace.Proofs.Pool.Channels
import Runspace.Proofs.Pool.Lifecycle

/-!
# Limits — what the host knows of the limit

The host learns a limit when it is greeted for the first time, and again whenever the limit changes
while the pool is opened. A change that is made before the pool is opened, or while it is
disconnected, is announced neither then nor later: the first greeting tells the limit of the
options, and a greeting that attaches again tells none.

* `Pool.announced?`: the limit last announced to the host;
* `Pool.changes`: the changes of the limit, each with the state in which it was made;
* `Mute`: changes of a pool that announce nothing;
* `Announcing`, **`Announcing.step`**: what the limit is, and what was announced;
* **`limits_of_run`**: both after any events; they agree if the last change was made while the pool
  was opened;
* `announced_ne_limit_of_early`: a change that was made before.
-/

namespace Runspace

/-- The limit that a payload announces, if it does. -/
def Payload.limit? : Payload → Option Nat
  | .initPool _ _ hi => some hi.toNat
  | .setMaxRunspaces n => some n.toNat
  | _ => none

/-- The limit that an effect announces, on any channel. -/
def Effect.limit? : Effect → Option Nat
  | .queued _ m => m.payload.limit?
  | _ => none

theorem Effect.limit?_of_isQuiet {e : Effect} (h : e.isQuiet = true) : e.limit? = none := by
  cases e <;> first | rfl | cases h

/-- The limit after some changes. -/
def PoolOptions.limitAfter (o : PoolOptions) (changes : List Nat) : Nat :=
  changes.getLast?.getD o.maxRunspaces

theorem PoolOptions.limitAfter_concat (o : PoolOptions) (changes : List Nat) (n : Nat) :
    o.limitAfter (changes ++ [n]) = n := by
  simp [limitAfter]

theorem PoolOptions.maxRunspaces_le_of_validate {o : PoolOptions} (h : o.validate = .ok ()) :
    o.maxRunspaces ≤ maxWireCount := by
  unfold validate at h
  split at h
  · cases h
  · split at h
    · cases h
    · next hle => exact Nat.not_lt.1 hle

theorem toNat_wireCount {n : Nat} (h : n ≤ maxWireCount) : (UInt32.ofNat n).toNat = n :=
  UInt32.toNat_ofNat_of_lt' (Nat.lt_succ_of_le h)

namespace Pool

/-! ## Announcements and changes -/

/-- The limit last announced to the host, on any channel. -/
def announced? (p : Pool) : Option Nat := (p.outbox.filterMap (·.limit?)).getLast?

/-- The change of the limit that an event makes, if it does, as its call says, with the state in
which it is made. -/
def changed? (p : Pool) : Event → Option (PoolState × Nat)
  | .setMaxRunspaces n => (p.setMaxRunspaces n).2.toOption.map fun _ => (p.state, n)
  | _ => none

/-- The changes of the limit that some events make, in order. -/
def changes (p : Pool) (events : List Event) : List (PoolState × Nat) :=
  p.collect (fun p e => (p.changed? e).toList) events

/-- The limits that were set while the pool was opened, by some changes. -/
def whileOpened (changes : List (PoolState × Nat)) : List Nat :=
  (changes.filter (·.1 = .opened)).map (·.2)

theorem whileOpened_concat_of_opened (changes : List (PoolState × Nat)) (n : Nat) :
    whileOpened (changes ++ [(.opened, n)]) = whileOpened changes ++ [n] := by
  simp [whileOpened]

theorem whileOpened_concat_of_ne (changes : List (PoolState × Nat)) {s : PoolState} (n : Nat)
    (hs : s ≠ .opened) : whileOpened (changes ++ [(s, n)]) = whileOpened changes := by
  simp [whileOpened, hs]

theorem announced?_emit {p : Pool} {e : Effect} {n : Nat} (h : e.limit? = some n) :
    (p.emit e).announced? = some n := by
  simp [announced?, emit, h]

/-! ## Changes that announce nothing -/

/-- A change that announces no limit and sets none, and gives up at most the attempt that the host
must answer. -/
structure Mute (p q : Pool) : Prop where
  options : q.options = p.options
  limit : q.limit = p.limit
  handshake : q.handshake = p.handshake ∨ q.handshake = none
  adds : Adds (fun e => e.limit? = none) p q

section Mute

variable {P : Deed → Prop} {p q r : Pool} {d : Deed}

theorem Hushed.mute (h : Hushed p q) (ho : q.options = p.options) (hl : q.limit = p.limit)
    (hh : q.handshake = p.handshake ∨ q.handshake = none) : Mute p q :=
  ⟨ho, hl, hh, h.adds fun _ => Effect.limit?_of_isQuiet⟩

theorem Mute.refl (p : Pool) : Mute p p := (Hushed.refl p).mute rfl rfl (.inl rfl)

theorem Mute.trans (h : Mute p q) (h' : Mute q r) : Mute p r where
  options := h'.options.trans h.options
  limit := h'.limit.trans h.limit
  handshake := h'.handshake.elim (fun hr => h.handshake.imp hr.trans hr.trans) .inr
  adds := h.adds.trans h'.adds

theorem Mute.announced? (h : Mute p q) : q.announced? = p.announced? :=
  congrArg List.getLast? h.adds.filterMap_eq

theorem Does.mute (h : Does p d q) : Mute p q :=
  have hc := h.sameControl
  ⟨hc.options, hc.limit, .inl hc.handshake,
    h.adds (fun _ => Effect.limit?_of_isQuiet) (fun _ _ _ _ _ => rfl) fun _ _ _ => rfl⟩

theorem Deeds.mute (h : Deeds P p q) : Mute p q := by
  induction h with
  | refl => exact .refl p
  | tail _ h ih =>
    obtain ⟨d, -, h⟩ := h
    exact ih.trans h.mute

theorem mute_state (p : Pool) (s : PoolState) : Mute p { p with state := s } :=
  Hushed.mute (.of_eq rfl) rfl rfl (.inl rfl)

theorem mute_setProgress (p : Pool) (a : Attempt) (s : Progress) : Mute p (p.setProgress a s) :=
  (hushed_setProgress p a s).mute (by cases a <;> rfl) (sameAccounts_setProgress p a s).limit
    (.inl (handshake_setProgress p a s))

theorem mute_resolve (p : Pool) (a : Attempt) (x : Except Fault Unit) : Mute p (p.resolve a x) :=
  (mute_setProgress p a _).trans ((hushed_emit _ rfl).mute rfl rfl (.inl rfl))

theorem mute_answer (p : Pool) (a : Attempt) (x : Except Fault Unit) : Mute p (p.answer a x) :=
  (mute_resolve p a x).trans (Hushed.mute (.of_eq rfl) rfl rfl (.inr rfl))

theorem mute_refuseHandshake (p : Pool) : Mute p p.refuseHandshake := by
  unfold refuseHandshake
  split
  · exact .refl p
  · exact mute_answer p _ _

theorem mute_abandonHandshake (p : Pool) : Mute p p.abandonHandshake := by
  unfold abandonHandshake
  split
  · exact .refl p
  · exact mute_answer p _ _

theorem mute_detach (p : Pool) : Mute p p.detach := by
  have hline : Mute p { p with generation := p.generation + 1, line := none } :=
    Hushed.mute (.of_eq rfl) rfl rfl (.inl rfl)
  unfold detach
  split
  · exact hline.trans (mute_abandonHandshake _)
  · exact (hline.trans (mute_abandonHandshake _)).trans
      ((hushed_emit _ rfl).mute rfl rfl (.inl rfl))

theorem mute_giveUp (p : Pool) (a : Attempt) : Mute p (p.giveUp a) := by
  have hset := mute_setProgress p a .idle
  cases a with
  | opening =>
    unfold giveUp
    dsimp only
    split
    · exact (hset.trans (mute_state _ .broken)).trans (mute_detach _)
    · exact hset.trans (mute_detach _)
  | reconnecting => exact hset.trans (mute_detach _)

theorem mute_shutDown (p : Pool) : Mute p p.shutDown := by
  have hstop : Deeds (fun _ => True) p (p.stopAll (p.idsWhere fun s => ¬ s.isTerminal)) :=
    deeds_stopAll _ (fun _ _ => trivial) fun _ _ => trivial
  have hsend : ∀ r : Pool, Mute r (r.trySend (.toPool .closePool)) := fun r =>
    have hc := (moves_trySend r (.toPool .closePool)).sameControl
    ⟨hc.options, hc.limit, .inl hc.handshake, adds_trySend r _ fun _ _ => rfl⟩
  exact (hstop.mute.trans (hsend _)).trans (mute_detach _)

theorem mute_leave (p : Pool) (next : PoolState) (f : Fault) (fails : PipelineState → Bool) :
    Mute p (p.leave next f fails) := by
  have hfail : ∀ (r : Pool) ids, Deeds (fun _ => True) r (r.failAll f ids) := fun r ids =>
    deeds_failAll f ids (fun _ _ => trivial) fun _ _ => trivial
  exact ((mute_state p next).trans (hfail _ _).mute).trans (mute_detach _)

theorem mute_hostOpened (p : Pool) (a : Attempt) :
    Mute p (p.ready.admitQueued.resolve a (.ok ())) := by
  have hready : Mute p p.ready := Hushed.mute (.of_eq rfl) rfl rfl (.inr rfl)
  exact (hready.trans (deeds_admitQueued _).mute).trans (mute_resolve _ _ _)

end Mute

/-! ## What the host knows -/

/-- What holds of the limit of a pool that was made with some options, after some changes. -/
structure Announcing (options : PoolOptions) (made : List (PoolState × Nat)) (p : Pool) :
    Prop where
  options_eq : p.options = options
  limit_eq : p.limit = options.limitAfter (made.map (·.2))
  whileOpened_eq_nil : p.state = .beforeOpen ∨ p.state = .opening → whileOpened made = []
  maxRunspaces_le : p.state = .opening → options.maxRunspaces ≤ maxWireCount
  announced?_eq : p.state = .opened ∨ p.state = .disconnected ∨ p.handshake.isSome = true →
    p.announced? = some (options.limitAfter (whileOpened made))

section Announcing

variable {options : PoolOptions} {made : List (PoolState × Nat)} {p q : Pool} {e : Event}

theorem announcing_new (id : PoolId) (options : PoolOptions) :
    Announcing options [] (new id options) where
  options_eq := rfl
  limit_eq := rfl
  whileOpened_eq_nil _ := rfl
  maxRunspaces_le h := by cases h
  announced?_eq h := by rcases h with h | h | h <;> cases h

/-- A change that announces nothing, if the pool did not become one that is yet to be opened, or
one that the host must know. -/
theorem Announcing.of_mute (h : Announcing options made p) (hm : Mute p q)
    (hearly : q.state = .beforeOpen ∨ q.state = .opening → q.state = p.state)
    (hknown : q.state = .opened ∨ q.state = .disconnected →
      p.state = .opened ∨ p.state = .disconnected ∨ p.handshake.isSome = true) :
    Announcing options made q where
  options_eq := hm.options.trans h.options_eq
  limit_eq := hm.limit.trans h.limit_eq
  whileOpened_eq_nil hq := h.whileOpened_eq_nil (hearly hq ▸ hq)
  maxRunspaces_le hq := h.maxRunspaces_le ((hearly (.inr hq)).symm.trans hq)
  announced?_eq hq := by
    rw [hm.announced?]
    refine h.announced?_eq ?_
    rcases hq with hq | hq | hq
    · exact hknown (.inl hq)
    · exact hknown (.inr hq)
    · rcases hm.handshake with hh | hh
      · exact .inr (.inr (hh ▸ hq))
      · rw [hh] at hq
        cases hq

theorem Announcing.of_state (h : Announcing options made p) (hm : Mute p q)
    (hs : q.state = p.state) : Announcing options made q :=
  h.of_mute hm (fun _ => hs) fun hq => by
    rw [hs] at hq
    exact hq.imp_right .inl

theorem Announcing.of_end (h : Announcing options made p) (hm : Mute p q)
    (hs : q.state = .closing ∨ q.state = .closed ∨ q.state = .broken) :
    Announcing options made q := by
  refine h.of_mute hm (fun hq => ?_) fun hq => ?_
  · rcases hq with hq | hq <;> simp [hq] at hs
  · rcases hq with hq | hq <;> simp [hq] at hs

theorem Announcing.greet (h : Announcing options made p) {a : Attempt}
    (hs : p.state = a.expected) : Announcing options made (p.attach a) := by
  have hstate : (p.attach a).state = p.state := (sameAccounts_attach p a).state
  have hout : (p.attach a).announced? =
      ((p.hello a).limit?.or p.announced?) := by
    cases a <;> simp [attach, emit, announced?, setProgress, Effect.limit?, hello,
      Payload.limit?, Message.toPool]
  refine ⟨(by cases a <;> rfl : (p.attach a).options = p.options).trans h.options_eq,
    (sameAccounts_attach p a).limit.trans h.limit_eq,
    fun hq => h.whileOpened_eq_nil (hstate ▸ hq), fun hq => h.maxRunspaces_le (hstate ▸ hq),
    fun _ => ?_⟩
  rw [hout]
  cases a with
  | opening =>
    rw [h.whileOpened_eq_nil (.inr hs), hello, h.options_eq]
    exact congrArg some (toNat_wireCount (h.maxRunspaces_le hs))
  | reconnecting => exact h.announced?_eq (.inr (.inl hs))

theorem Turn.announcing (h : Turn p e q) (hp : Announcing options made p)
    (he : ∀ n, e ≠ .setMaxRunspaces n) : Announcing options made q := by
  cases h with
  | idle => exact hp
  | work _ hd => exact hp.of_state hd.deeds.mute hd.deeds.sameControl.state
  | beginOpen hs hv =>
    refine ⟨hp.options_eq, hp.limit_eq, fun _ => hp.whileOpened_eq_nil (.inl hs), fun _ => ?_,
      fun hq => hp.announced?_eq (.inr (.inr ?_))⟩
    · exact hp.options_eq ▸ PoolOptions.maxRunspaces_le_of_validate hv
    · rcases hq with hq | hq | hq
      · cases hq
      · cases hq
      · exact hq
  | beginReconnect | lineStopped =>
    exact hp.of_state (Hushed.mute (.of_eq rfl) rfl rfl (.inl rfl)) rfl
  | outdated | unconnected => exact hp.of_state (mute_resolve p _ _) (state_resolve p _ _)
  | greet _ hs => exact hp.greet hs
  | succeed => exact hp.of_state (mute_setProgress p _ _) (state_setProgress p _ _)
  | giveUp =>
    rcases state_giveUp_eq_or p _ with hs | ⟨-, hs⟩
    · exact hp.of_state (mute_giveUp p _) hs
    · exact hp.of_end (mute_giveUp p _) (.inr (.inr hs))
  | closeUnopened | endClose => exact hp.of_end (mute_state p _) (.inr (.inl rfl))
  | @beginClose next hs =>
    have hnext : ({ p with state := next }.refuseHandshake.shutDown).state = next := by
      rw [shutDown, (sameAccounts_detach _).state, (moves_closing _).sameControl.state,
        (sameAccounts_refuseHandshake _).state]
    refine hp.of_end (((mute_state p next).trans (mute_refuseHandshake _)).trans
      (mute_shutDown _)) ?_
    rw [hnext]
    exact hs.imp (·.2) fun hs => .inl hs.2
  | setLimit | announceLimit => exact absurd rfl (he _)
  | @hostOpened a _ ha =>
    have hs : (p.ready.admitQueued.resolve a (.ok ())).state = .opened :=
      (state_resolve _ _ _).trans (state_admitQueued _)
    refine hp.of_mute (mute_hostOpened p a) (fun hq => ?_) fun _ => .inr (.inr (by simp [ha]))
    rw [hs] at hq
    rcases hq with hq | hq <;> cases hq
  | hostRefused => exact hp.of_state (mute_answer p _ _) (state_answer p _ _)
  | hostEnded => exact hp.of_end (mute_leave p _ _ _) (.inr (.inr (state_leave p _ _ _)))
  | lineEnded _ hs =>
    refine hp.of_mute (mute_leave p _ _ _) (fun hq => ?_) fun _ => .inl hs
    rw [state_leave] at hq
    rcases hq with hq | hq <;> cases hq
  | lineLost => exact hp.of_state (mute_detach p) (sameAccounts_detach p).state

theorem Announcing.setLimit (h : Announcing options made p) {n : Nat}
    (ho : q.options = p.options) (hl : q.limit = n) (hs : q.state = p.state)
    (hh : q.handshake = p.handshake) (htold : p.state = .opened → q.announced? = some n)
    (hquiet : p.state ≠ .opened → q.announced? = p.announced?) :
    Announcing options (made ++ [(p.state, n)]) q := by
  have hlimit : q.limit = options.limitAfter ((made ++ [(p.state, n)]).map (·.2)) := by
    rw [hl, List.map_append]
    exact (options.limitAfter_concat _ n).symm
  refine ⟨ho.trans h.options_eq, hlimit, fun hq => ?_, fun hq => h.maxRunspaces_le (hs ▸ hq),
    fun hq => ?_⟩
  · rw [hs] at hq
    rw [whileOpened_concat_of_ne _ _ (by rcases hq with hq | hq <;> simp [hq])]
    exact h.whileOpened_eq_nil hq
  · by_cases hopen : p.state = .opened
    · rw [htold hopen, hopen, whileOpened_concat_of_opened, options.limitAfter_concat]
    · rw [hs, hh] at hq
      rw [hquiet hopen, whileOpened_concat_of_ne _ _ hopen]
      exact h.announced?_eq hq

/-- **A step keeps what holds of the limit and of what was announced,** with the change that it
makes. -/
theorem Announcing.step (h : Announcing options made p) (ha : Attached p) (e : Event) :
    Announcing options (made ++ (p.changed? e).toList) (p.step e) := by
  have hadmit : ∀ {made q}, Announcing options made q → Announcing options made q.admitQueued :=
    fun hq => hq.of_state (deeds_admitQueued _).mute (state_admitQueued _)
  by_cases he : ∃ n, e = .setMaxRunspaces n
  · obtain ⟨n, rfl⟩ := he
    rw [changed?, Pool.step]
    rcases setMaxRunspaces_cases p n with ⟨f, hf⟩ | ⟨hn, -, ⟨hs, hq⟩ | ⟨l, hs, -, -, hq⟩⟩
    · rw [hf]
      exact (List.append_nil made).symm ▸ h
    · -- an opened pool would have a line
      have hopen : p.state ≠ .opened := fun hopen => by
        obtain ⟨l, hl⟩ := ha.opened_iff.1 hopen
        rcases hs with hs | hs | ⟨-, hs⟩
        · cases hopen.symm.trans hs
        · cases hopen.symm.trans hs
        · cases (readyLine?_eq_some.2 hl).symm.trans hs
      rw [hq]
      exact hadmit (h.setLimit rfl rfl rfl rfl (fun hs => absurd hs hopen) fun _ => rfl)
    · rw [hq]
      refine hadmit (h.setLimit rfl rfl rfl rfl (fun _ => ?_) fun hne => absurd hs hne)
      refine (announced?_emit rfl : (p.emit _).announced? = _).trans ?_
      rw [toNat_wireCount hn]
  · have hnone : p.changed? e = none := by
      cases e <;> first | rfl | exact absurd ⟨_, rfl⟩ he
    rw [hnone, Option.toList_none, List.append_nil]
    exact (turn_step p e).announcing h fun n hn => he ⟨n, hn⟩

theorem announcing_run (id : PoolId) (options : PoolOptions) (events : List Event) :
    Announcing options ((new id options).changes events) ((new id options).run events) := by
  induction events using List.reverseRecOn with
  | nil => exact announcing_new id options
  | append_singleton events e ih =>
    rw [changes, collect_append, run_append]
    exact ih.step ((attached_new id options).run events) e

end Announcing

/-- **What the host knows of the limit of an opened pool,** after any events.

The pool admits by the last change of the limit, or by the options if there was none. The host knows
the last change that was made while the pool was opened, or the limit of the options. So the two
agree if the last change was made while the pool was opened. -/
theorem limits_of_run (id : PoolId) (options : PoolOptions) (events : List Event)
    (hs : ((new id options).run events).state = .opened) :
    let p := (new id options).run events
    let made := (new id options).changes events
    p.limit = options.limitAfter (made.map (·.2)) ∧
    p.announced? = some (options.limitAfter (whileOpened made)) ∧
    ((∀ c, made.getLast? = some c → c.1 = .opened) → p.announced? = some p.limit) := by
  intro p made
  have h : Announcing options made p := announcing_run id options events
  have htold := h.announced?_eq (.inl hs)
  refine ⟨h.limit_eq, htold, fun hlast => ?_⟩
  rw [htold, h.limit_eq]
  rcases List.eq_nil_or_concat made with hmade | ⟨before, ⟨s, n⟩, hmade⟩
  · rw [hmade]
    rfl
  · obtain rfl : s = .opened := hlast (s, n) (by simp [hmade])
    rw [hmade, List.concat_eq_append, whileOpened_concat_of_opened, List.map_append,
      options.limitAfter_concat]
    exact congrArg some (options.limitAfter_concat _ n).symm

/-- A pool whose limit is changed while it is opened, and which is then disconnected and attached to
again. -/
theorem limits_of_run_reconnect :
    let start := new (.ofDraw 0) { maxRunspaces := 2 }
    let events : List Event := [.beginOpen, .connected .opening,
      .notice 1 (.message (.toPool (.poolState .opened none))), .setMaxRunspaces 5,
      .notice 1 (.closed none), .beginReconnect, .connected .reconnecting,
      .notice 3 (.message (.toPool (.poolState .opened none)))]
    (start.run events).state = .opened ∧ start.changes events = [(.opened, 5)] ∧
    (start.run events).announced? = some (start.run events).limit := by
  intro start events
  have hs : (start.run events).state = .opened := by decide
  have hmade : start.changes events = [(.opened, 5)] := by decide
  obtain ⟨-, -, hagree⟩ := limits_of_run (.ofDraw 0) { maxRunspaces := 2 } events hs
  refine ⟨hs, hmade, hagree fun c hc => ?_⟩
  rw [hmade] at hc
  cases hc
  rfl

/-- A limit that is set before the pool is opened is not the one that the host is told. -/
theorem announced_ne_limit_of_early :
    let start := new (.ofDraw 0) { maxRunspaces := 2 }
    let events : List Event := [.setMaxRunspaces 5, .beginOpen, .connected .opening,
      .notice 1 (.message (.toPool (.poolState .opened none)))]
    (start.run events).state = .opened ∧ (start.run events).limit = 5 ∧
    (start.run events).announced? = some 2 ∧
    (start.run events).announced? ≠ some (start.run events).limit := by
  decide

end Pool

end Runspace
