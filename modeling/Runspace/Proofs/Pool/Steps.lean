import Runspace.Proofs.Pool.Turns

/-!
# Steps — deeds between two changes of the pool itself

A step first changes the pool itself (its state, its limit, its line), then does something to
pipelines, and at last makes something known or gives its line up, which leaves state and limit
alone. What is done to pipelines fits the event: apart from stops, and from the want of a line when
they should start, only news end them, and only a call that invokes a pipeline takes one in.

* `Pool.said`, `Hushed`, `Adds`: what was said to a pipeline, and changes by what they make known;
* `Prelude`, `Coda`: the changes with which a step begins and ends;
* `StepCourse`, **`Turn.stepCourse`**: every step is made of deeds that fit its event;
* `StepMoves`, **`stepMoves_step`**: every step is made of moves.
-/

namespace Runspace

/-! ## What is said on channels -/

/-- What an effect says to a pipeline, and on which channel. -/
def Effect.saidTo? (id : PipelineId) : Effect → Option (Nat × Payload)
  | .queued generation m => if m.target = .pipeline id then some (generation, m.payload) else none
  | _ => none

/-- Whether an effect starts no channel and says nothing on one. -/
def Effect.isQuiet : Effect → Bool
  | .started _ | .queued _ _ => false
  | _ => true

namespace Pool

/-- What was said to a pipeline so far, and on which channels. -/
def said (p : Pool) (id : PipelineId) : List (Nat × Payload) :=
  p.outbox.filterMap (·.saidTo? id)

theorem said_emit (p : Pool) (e : Effect) (id : PipelineId) :
    (p.emit e).said id = p.said id ++ (e.saidTo? id).toList := by
  simp only [said, emit, List.filterMap_append, List.filterMap_cons, List.filterMap_nil]
  cases e.saidTo? id <;> rfl

/-- A change in which no channel is started and nothing is said on one. -/
def Hushed (p q : Pool) : Prop :=
  ∃ more, q.outbox = p.outbox ++ more ∧ ∀ e ∈ more, e.isQuiet = true

/-- A change that makes known only what has some property. -/
def Adds (P : Effect → Prop) (p q : Pool) : Prop :=
  ∃ more, q.outbox = p.outbox ++ more ∧ ∀ e ∈ more, P e

/-- A change in which nothing is said to a pipeline. -/
abbrev Discreet (p q : Pool) : Prop := Adds (fun e => ∀ id, e.saidTo? id = none) p q

section Adds

variable {P Q : Effect → Prop} {p q r : Pool}

theorem Adds.of_eq (h : q.outbox = p.outbox) : Adds P p q := ⟨[], by simp [h], by simp⟩

theorem Adds.refl (p : Pool) : Adds P p p := .of_eq rfl

theorem Adds.trans (h : Adds P p q) (h' : Adds P q r) : Adds P p r := by
  obtain ⟨more, hm, hq⟩ := h
  obtain ⟨more', hm', hq'⟩ := h'
  refine ⟨more ++ more', by rw [hm', hm, List.append_assoc], fun e he => ?_⟩
  rcases List.mem_append.1 he with he | he
  · exact hq e he
  · exact hq' e he

theorem Adds.mono (h : Adds P p q) (hPQ : ∀ e, P e → Q e) : Adds Q p q := by
  obtain ⟨more, hm, hq⟩ := h
  exact ⟨more, hm, fun e he => hPQ e (hq e he)⟩

theorem Adds.filterMap_eq {α : Type} {f : Effect → Option α}
    (h : Adds (fun e => f e = none) p q) : q.outbox.filterMap f = p.outbox.filterMap f := by
  obtain ⟨more, hm, hq⟩ := h
  rw [hm, List.filterMap_append, List.filterMap_eq_nil_iff.2 hq, List.append_nil]

theorem adds_emit (p : Pool) {e : Effect} (h : P e) : Adds P p (p.emit e) :=
  ⟨[e], rfl, fun _ he => List.mem_singleton.1 he ▸ h⟩

theorem adds_trySend (p : Pool) (m : Message)
    (h : ∀ l, p.readyLine? = some l → P (.queued l.generation m)) : Adds P p (p.trySend m) := by
  unfold trySend
  cases hm : p.send? m with
  | none => exact .refl p
  | some q =>
    obtain ⟨l, hl, -, rfl⟩ := send?_eq_some hm
    exact adds_emit p (h l hl)

end Adds

section Hushed

variable {P : Effect → Prop} {p q r : Pool}

theorem Hushed.adds (h : Hushed p q) (hP : ∀ e : Effect, e.isQuiet = true → P e) : Adds P p q :=
  Adds.mono h hP

theorem Hushed.of_eq (h : q.outbox = p.outbox) : Hushed p q := Adds.of_eq h

theorem Hushed.refl (p : Pool) : Hushed p p := .of_eq rfl

theorem Hushed.trans (h : Hushed p q) (h' : Hushed q r) : Hushed p r := Adds.trans h h'

theorem hushed_emit (p : Pool) {e : Effect} (h : e.isQuiet = true) : Hushed p (p.emit e) :=
  adds_emit p h

theorem Hushed.discreet (h : Hushed p q) : Discreet p q :=
  h.adds fun e he _ => by cases e <;> first | rfl | cases he

theorem Adds.said (h : Discreet p q) (id : PipelineId) : q.said id = p.said id :=
  (h.mono fun _ he => he id).filterMap_eq

theorem Hushed.said (h : Hushed p q) (id : PipelineId) : q.said id = p.said id :=
  h.discreet.said id

end Hushed

/-! ## The pool itself -/

theorem sameAccounts_setProgress (p : Pool) (a : Attempt) (s : Progress) :
    SameAccounts p (p.setProgress a s) := by
  cases a <;> exact ⟨⟨rfl, rfl, rfl, rfl⟩, rfl, rfl⟩

theorem sameAccounts_resolve (p : Pool) (a : Attempt) (r : Except Fault Unit) :
    SameAccounts p (p.resolve a r) :=
  (sameAccounts_setProgress p a _).trans (sameAccounts_emit _ _)

theorem sameAccounts_answer (p : Pool) (a : Attempt) (r : Except Fault Unit) :
    SameAccounts p (p.answer a r) :=
  (sameAccounts_resolve p a r).trans ⟨⟨rfl, rfl, rfl, rfl⟩, rfl, rfl⟩

theorem sameAccounts_abandonHandshake (p : Pool) : SameAccounts p p.abandonHandshake := by
  unfold abandonHandshake
  cases p.handshake with
  | none => exact .refl p
  | some a => exact sameAccounts_answer p a _

theorem sameAccounts_refuseHandshake (p : Pool) : SameAccounts p p.refuseHandshake := by
  unfold refuseHandshake
  cases p.handshake with
  | none => exact .refl p
  | some a => exact sameAccounts_answer p a _

theorem sameAccounts_detach (p : Pool) : SameAccounts p p.detach := by
  have hline : SameAccounts p { p with generation := p.generation + 1, line := none } :=
    ⟨⟨rfl, rfl, rfl, rfl⟩, rfl, rfl⟩
  have h := hline.trans (sameAccounts_abandonHandshake _)
  unfold detach
  cases p.line with
  | none => exact h
  | some l => exact h.trans (sameAccounts_emit _ _)

theorem sameAccounts_attach (p : Pool) (a : Attempt) : SameAccounts p (p.attach a) :=
  (sameAccounts_setProgress p a .waiting).trans ⟨⟨rfl, rfl, rfl, rfl⟩, rfl, rfl⟩

theorem sameWork_giveUp (p : Pool) (a : Attempt) : SameWork p (p.giveUp a) := by
  have hset := (sameAccounts_setProgress p a .idle).toSameWork
  cases a with
  | opening =>
    unfold giveUp
    dsimp only
    split
    · have hbroken : SameWork (p.setProgress .opening .idle)
          { p.setProgress .opening .idle with state := .broken } := ⟨rfl, rfl, rfl, rfl⟩
      exact hset.trans (hbroken.trans (sameAccounts_detach _).toSameWork)
    · exact hset.trans (sameAccounts_detach _).toSameWork
  | reconnecting => exact hset.trans (sameAccounts_detach _).toSameWork

section Fields

variable (p : Pool) (a : Attempt) (s : Progress) (r : Except Fault Unit)

@[simp] theorem state_setProgress : (p.setProgress a s).state = p.state := by cases a <;> rfl

@[simp] theorem line_setProgress : (p.setProgress a s).line = p.line := by cases a <;> rfl

@[simp] theorem generation_setProgress : (p.setProgress a s).generation = p.generation := by
  cases a <;> rfl

@[simp] theorem state_resolve : (p.resolve a r).state = p.state := state_setProgress p a _

@[simp] theorem line_resolve : (p.resolve a r).line = p.line := line_setProgress p a _

@[simp] theorem generation_resolve : (p.resolve a r).generation = p.generation :=
  generation_setProgress p a _

@[simp] theorem state_answer : (p.answer a r).state = p.state := state_setProgress p a _

@[simp] theorem line_answer : (p.answer a r).line = p.line := line_setProgress p a _

@[simp] theorem generation_answer : (p.answer a r).generation = p.generation :=
  generation_setProgress p a _

@[simp] theorem line_refuseHandshake : p.refuseHandshake.line = p.line := by
  unfold refuseHandshake
  split
  · rfl
  · exact line_answer p _ _

@[simp] theorem generation_refuseHandshake : p.refuseHandshake.generation = p.generation := by
  unfold refuseHandshake
  split
  · rfl
  · exact generation_answer p _ _

theorem line_abandonHandshake : p.abandonHandshake.line = p.line := by
  unfold abandonHandshake
  split
  · rfl
  · exact line_answer p _ _

theorem generation_abandonHandshake : p.abandonHandshake.generation = p.generation := by
  unfold abandonHandshake
  split
  · rfl
  · exact generation_answer p _ _

@[simp] theorem line_detach : p.detach.line = none := by
  unfold detach
  split <;> exact line_abandonHandshake _

@[simp] theorem generation_detach : p.detach.generation = p.generation + 1 := by
  unfold detach
  split <;> exact generation_abandonHandshake _

theorem line_giveUp : (p.giveUp a).line = none := by
  cases a <;> exact line_detach _

theorem state_giveUp_eq_or : (p.giveUp a).state = p.state ∨
    p.state = .opening ∧ (p.giveUp a).state = .broken := by
  cases a with
  | opening =>
    unfold giveUp
    dsimp only
    rw [(sameAccounts_detach _).state, state_setProgress]
    split
    · next hs => exact .inr ⟨hs, rfl⟩
    · exact .inl (state_setProgress p _ _)
  | reconnecting => exact .inl (sameAccounts_detach _).state

theorem state_leave (next : PoolState) (f : Fault) (fails : PipelineState → Bool) :
    (p.leave next f fails).state = next := by
  rw [leave, (sameAccounts_detach _).state, (moves_failAll _ _ _).sameControl.state]

theorem hushed_setProgress : Hushed p (p.setProgress a s) := .of_eq (by cases a <;> rfl)

theorem hushed_resolve : Hushed p (p.resolve a r) :=
  (hushed_setProgress p a _).trans (hushed_emit _ rfl)

theorem hushed_answer : Hushed p (p.answer a r) := (hushed_resolve p a r).trans (.of_eq rfl)

theorem hushed_refuseHandshake : Hushed p p.refuseHandshake := by
  unfold refuseHandshake
  split
  · exact .refl p
  · exact hushed_answer p _ _

theorem hushed_detach : Hushed p p.detach := by
  have habandon : Hushed p
      { p with generation := p.generation + 1, line := none }.abandonHandshake := by
    unfold abandonHandshake
    split
    · exact .of_eq rfl
    · exact Hushed.trans (.of_eq rfl) (hushed_answer _ _ _)
  unfold detach
  split
  · exact habandon
  · exact habandon.trans (hushed_emit _ rfl)

theorem hushed_giveUp : Hushed p (p.giveUp a) := by
  cases a with
  | opening =>
    unfold giveUp
    dsimp only
    split
    · exact Hushed.trans (.of_eq rfl) (hushed_detach _)
    · exact Hushed.trans (.of_eq rfl) (hushed_detach _)
  | reconnecting => exact (hushed_setProgress p _ _).trans (hushed_detach _)

end Fields

/-! ## Before and after deeds -/

/-- The line is the channel of the generation. -/
def Current (p : Pool) : Prop := ∀ l, p.line = some l → l.generation = p.generation

/-- A change of the pool itself with which a step begins: nothing is said to pipelines, the line
stays current, and an opened pool stays with it unless it cleans up after an attempt that failed. -/
structure Prelude (p q : Pool) : Prop extends SameWork p q where
  discreet : Discreet p q
  current : Current p → Current q
  generation : p.state = .opened →
    q.generation = p.generation ∨ ∃ a e, p.progress a = .answered (.error e)

/-- A change with which a step ends: likewise, but the state and the limit stay as well, and so does
the line of an opened pool. -/
structure Coda (p q : Pool) : Prop extends SameAccounts p q where
  discreet : Discreet p q
  generation : p.state = .opened → q.generation = p.generation
  line : p.state = .opened → q.line = p.line

theorem Prelude.said {p q : Pool} (h : Prelude p q) (id : PipelineId) : q.said id = p.said id :=
  h.discreet.said id

theorem Coda.said {p q : Pool} (h : Coda p q) (id : PipelineId) : q.said id = p.said id :=
  h.discreet.said id

theorem Current.congr {p q : Pool} (h : Current p) (hl : q.line = p.line)
    (hg : q.generation = p.generation) : Current q := by
  intro l hq
  rw [hg]
  exact h l (hl ▸ hq)

theorem current_of_none {p : Pool} (hl : p.line = none) : Current p := fun _ h => by
  cases hl.symm.trans h

theorem SameWork.prelude {p q : Pool} (h : SameWork p q) (hs : Hushed p q)
    (hl : q.line = p.line) (hg : q.generation = p.generation) : Prelude p q :=
  ⟨h, hs.discreet, fun hc => hc.congr hl hg, fun _ => .inl hg⟩

theorem Prelude.refl (p : Pool) : Prelude p p := (SameWork.refl p).prelude (.refl p) rfl rfl

theorem Coda.refl (p : Pool) : Coda p p :=
  ⟨.refl p, (Hushed.refl p).discreet, fun _ => rfl, fun _ => rfl⟩

section Control

variable (p : Pool) (a : Attempt)

theorem prelude_state (s : PoolState) : Prelude p { p with state := s } :=
  SameWork.prelude ⟨rfl, rfl, rfl, rfl⟩ (.of_eq rfl) rfl rfl

theorem prelude_limit (n : Nat) : Prelude p { p with limit := n } :=
  SameWork.prelude ⟨rfl, rfl, rfl, rfl⟩ (.of_eq rfl) rfl rfl

theorem prelude_setProgress (s : Progress) : Prelude p (p.setProgress a s) :=
  (sameAccounts_setProgress p a s).toSameWork.prelude (hushed_setProgress p a s)
    (line_setProgress p a s) (generation_setProgress p a s)

theorem prelude_resolve (r : Except Fault Unit) : Prelude p (p.resolve a r) :=
  (sameAccounts_resolve p a r).toSameWork.prelude (hushed_resolve p a r) (line_resolve p a r)
    (generation_resolve p a r)

theorem prelude_answer (r : Except Fault Unit) : Prelude p (p.answer a r) :=
  (sameAccounts_answer p a r).toSameWork.prelude (hushed_answer p a r) (line_answer p a r)
    (generation_answer p a r)

theorem coda_resolve (r : Except Fault Unit) : Coda p (p.resolve a r) :=
  ⟨sameAccounts_resolve p a r, (hushed_resolve p a r).discreet, fun _ => generation_resolve p a r,
    fun _ => line_resolve p a r⟩

theorem coda_detach {p : Pool} (hs : p.state ≠ .opened) : Coda p p.detach :=
  ⟨sameAccounts_detach p, (hushed_detach p).discreet, fun h => absurd h hs, fun h => absurd h hs⟩

theorem prelude_detach {p : Pool} (hs : p.state ≠ .opened) : Prelude p p.detach :=
  ⟨(sameAccounts_detach p).toSameWork, (hushed_detach p).discreet,
    fun _ => current_of_none (line_detach p), fun h => absurd h hs⟩

theorem prelude_attach (hs : p.state = a.expected) : Prelude p (p.attach a) := by
  refine ⟨(sameAccounts_attach p a).toSameWork, ?_, fun _ l hl => ?_, fun ho => ?_⟩
  · have hset : Discreet p { p.setProgress a .waiting with
        generation := p.generation + 1
        line := some { generation := p.generation + 1 }
        handshake := some a } := (hushed_setProgress p a .waiting).discreet
    exact hset.trans ((adds_emit _ fun _ => rfl).trans (adds_emit _ fun _ => rfl))
  · cases hl
    rfl
  · exact absurd (hs.symm.trans ho) a.expected_ne_opened

theorem prelude_giveUp {f : Fault} (ha : p.progress a = .answered (.error f)) :
    Prelude p (p.giveUp a) :=
  ⟨sameWork_giveUp p a, (hushed_giveUp p a).discreet, fun _ => current_of_none (line_giveUp p a),
    fun _ => .inr ⟨a, f, ha⟩⟩

theorem prelude_ready : Prelude p p.ready := by
  refine ⟨⟨rfl, rfl, rfl, rfl⟩, (Hushed.of_eq rfl).discreet, fun hc l' hl' => ?_,
    fun _ => .inl rfl⟩
  obtain ⟨l, hl, rfl⟩ := Option.map_eq_some_iff.1 hl'
  exact hc l hl

theorem prelude_lineStopped (generation : Nat) : Prelude p (p.lineStopped generation) := by
  refine ⟨⟨rfl, rfl, rfl, rfl⟩, (Hushed.of_eq rfl).discreet, fun hc l' hl' => ?_,
    fun _ => .inl rfl⟩
  obtain ⟨l, hl, rfl⟩ := Option.map_eq_some_iff.1 hl'
  split
  · exact hc l hl
  · exact hc l hl

end Control

/-! ## Steps -/

/-- What a step does: a change of the pool itself, then deeds that fit the event, then news. -/
def StepCourse (e : Event) (p q : Pool) : Prop :=
  ∃ p₁ p₂, Prelude p p₁ ∧ Course e.Fits p₁ p₂ ∧ Coda p₂ q

section Steps

variable {e : Event} {p p₁ p₂ q : Pool} {d : Deed}

theorem StepCourse.intro (h : Course e.Fits p₁ p₂) (hq : Coda p₂ q) (hp : Prelude p p₁) :
    StepCourse e p q :=
  ⟨p₁, p₂, hp, h, hq⟩

theorem Prelude.stepCourse (h : Prelude p q) : StepCourse e p q := ⟨q, q, h, .refl _ q, .refl q⟩

theorem Course.stepCourse (h : Course e.Fits p q) : StepCourse e p q := ⟨p, q, .refl p, h, .refl q⟩

theorem StepCourse.refl (e : Event) (p : Pool) : StepCourse e p p := (Prelude.refl p).stepCourse

theorem stepCourse_admitQueued (he : ∀ id, e.ending id = none) (hp : Prelude p q) :
    StepCourse e p q.admitQueued := by
  refine .intro (course_admitQueued fun d hd => ?_) (.refl _) hp
  exact Event.fits_of_ending he (Deed.isOutcome_of_admission hd) (Deed.isEntry_of_admission hd)

theorem stepCourse_leave (next : PoolState) (f : Fault) (fails : PipelineState → Bool)
    (hs : next ≠ .opened) (he : ∀ id, e.ending id = some (.failed f.record)) :
    StepCourse e p (p.leave next f fails) := by
  have hd : Deeds (fun d => d.isAdmission = false → e.Fits d) { p with state := next }
      ({ p with state := next }.failAll f ({ p with state := next }.idsWhere fails)) :=
    deeds_failAll f _ (fun id _ _ => he id) fun d hd hadm => by cases hd.symm.trans hadm
  refine .intro (hd.course_of_state hs) (coda_detach ?_) (prelude_state p next)
  rw [Deeds.sameControl hd |>.state]
  exact hs

/-- A pool that is closed stops all pipelines, takes leave of the host and gives its line up. -/
theorem stepCourse_beginClose {next : PoolState} (hs : next ≠ .opened) :
    StepCourse .beginClose p { p with state := next }.refuseHandshake.shutDown := by
  have hp : Prelude p { p with state := next }.refuseHandshake :=
    SameWork.prelude
      ((prelude_state p next).toSameWork.trans (sameAccounts_refuseHandshake _).toSameWork)
      (Hushed.trans (.of_eq rfl) (hushed_refuseHandshake _)) (line_refuseHandshake _)
      (generation_refuseHandshake _)
  have hq : { p with state := next }.refuseHandshake.state ≠ .opened := by
    rw [(sameAccounts_refuseHandshake _).state]
    exact hs
  generalize { p with state := next }.refuseHandshake = q at hp hq ⊢
  have hd : Deeds (fun d => d.isAdmission = false → Event.beginClose.Fits d) q
      (q.stopAll (q.idsWhere fun s => ¬ s.isTerminal)) :=
    deeds_stopAll _ (fun _ _ _ => rfl) fun d hd hadm => by cases hd.symm.trans hadm
  unfold shutDown
  generalize q.stopAll (q.idsWhere fun s => ¬ s.isTerminal) = r at hd ⊢
  have hr : r.state ≠ .opened := by
    rw [Deeds.sameControl hd |>.state]
    exact hq
  exact .intro (hd.course_of_state hq)
    ⟨(sameAccounts_trySend r _).trans (sameAccounts_detach _),
      (adds_trySend r _ fun _ _ _ => rfl).trans (hushed_detach _).discreet, fun h => absurd h hr,
      fun h => absurd h hr⟩ hp

/-- **A turn does deeds that fit its event, between a change of the pool itself and news.** -/
theorem Turn.stepCourse (h : Turn p e q) : StepCourse e p q := by
  cases h with
  | idle => exact .refl e p
  | work _ h => exact h.stepCourse
  | beginOpen | beginReconnect =>
    refine Prelude.stepCourse ?_
    exact SameWork.prelude ⟨rfl, rfl, rfl, rfl⟩ (.of_eq rfl) rfl rfl
  | outdated | unconnected => exact (prelude_resolve p _ _).stepCourse
  | greet ha hs => exact (prelude_attach p _ hs).stepCourse
  | succeed ha => exact (prelude_setProgress p _ _).stepCourse
  | giveUp ha => exact (prelude_giveUp p _ ha).stepCourse
  | closeUnopened | endClose => exact (prelude_state p _).stepCourse
  | beginClose hs =>
    refine stepCourse_beginClose ?_
    rcases hs with ⟨-, rfl⟩ | ⟨-, rfl⟩ <;> decide
  | setLimit => exact stepCourse_admitQueued (fun _ => rfl) (prelude_limit p _)
  | announceLimit =>
    exact stepCourse_admitQueued (fun _ => rfl) ⟨⟨rfl, rfl, rfl, rfl⟩,
      adds_emit p fun _ => rfl, fun hc => hc.congr rfl rfl, fun _ => .inl rfl⟩
  | hostOpened =>
    refine .intro (course_admitQueued fun d hd => ?_) (coda_resolve _ _ _) (prelude_ready p)
    exact Event.fits_of_ending (fun _ => rfl) (Deed.isOutcome_of_admission hd)
      (Deed.isEntry_of_admission hd)
  | hostRefused => exact (prelude_answer p _ _).stepCourse
  | @hostEnded state reason hh hs he =>
    refine stepCourse_leave _ _ _ (by decide) fun id => ?_
    cases state with
    | opened => exact absurd rfl he
    | broken | closed => rfl
  | lineEnded => exact stepCourse_leave _ _ _ (by decide) fun _ => rfl
  | lineLost hh hs => exact (prelude_detach hs).stepCourse
  | lineStopped => exact (prelude_lineStopped p _).stepCourse

theorem stepCourse_step (p : Pool) (e : Event) : StepCourse e p (p.step e) :=
  (turn_step p e).stepCourse

end Steps

/-! ## Steps as moves -/

/-- What a step does: a change of the pool itself, then moves, then news. -/
def StepMoves (p q : Pool) : Prop :=
  ∃ p₁ p₂, SameWork p p₁ ∧ Moves p₁ p₂ ∧ SameAccounts p₂ q

theorem StepCourse.stepMoves {e : Event} {p q : Pool} (h : StepCourse e p q) : StepMoves p q := by
  obtain ⟨p₁, p₂, hp, hm, hq⟩ := h
  exact ⟨p₁, p₂, hp.toSameWork, hm.moves, hq.toSameAccounts⟩

/-- **Every step moves pipelines between a change of the pool itself and news.** -/
theorem stepMoves_step (p : Pool) (e : Event) : StepMoves p (p.step e) :=
  (stepCourse_step p e).stepMoves

end Pool

end Runspace
