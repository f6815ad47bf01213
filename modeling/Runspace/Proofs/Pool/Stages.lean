import Runspace.Proofs.Pool.Load

/-!
# Stages — the states of a pipeline, one after another

A pipeline goes from stage to stage along few edges, in whatever order calls and news come. No deed
looks at the edges: each finds its pipeline in a state that suits it, and what ends one leaves those
alone that have ended. Only the end of a pipeline that ran to its end depends on the event, which is
a message of the host to a pipeline that runs.

* `PipelineState.next`: the edges;
* `Onward`, `Stages`: a change in which a pipeline stays or goes one stage on, and deeds each of
  which is such a change for all of them;
* `Does.onward`, **`stages_step`**: every step is made of such deeds;
* `completed_step`: how a pipeline comes to be completed; **`next_step`**: a step as a whole follows
  an edge;
* `Turn.adds`: what a turn makes known besides the states of pipelines; `ended_step`: nothing more
  is made known of a pipeline that has ended;
* **`stages_of_run`**: the states of all pipelines after any events.
-/

namespace Runspace

/-! ## Edges -/

namespace PipelineState

/-- The states into which a pipeline may go from a state. -/
def next : PipelineState → List PipelineState
  | .notStarted => [.queued, .running, .failed, .stopped]
  | .queued => [.running, .failed, .stopped]
  | .running => [.completed, .failed, .stopped]
  | .completed | .failed | .stopped => []

theorem next_of_isTerminal {s : PipelineState} (h : s.isTerminal = true) : s.next = [] := by
  cases s <;> first | rfl | cases h

/-- Two edges in a row are one edge, unless the pipeline has come to its end. -/
theorem mem_next_trans {s t u : PipelineState} (ht : t ∈ s.next) (hu : u ∈ t.next) :
    u ∈ s.next ∨ u = .completed := by
  revert ht hu
  cases s <;> cases t <;> cases u <;> decide

end PipelineState

/-- The pipeline that a piece of news is about, if it is about one. -/
def Notice.addressee? : Notice → Option PipelineId
  | .message ⟨.pipeline id, _⟩ | .framingError (.pipeline id) _ | .sendFailed (.pipeline id) _ =>
    some id
  | _ => none

namespace Pool

/-! ## Stages -/

/-- A change in which a pipeline stays in its state or goes one stage on, or is made and has not
started, and in which nothing is made known of it if it has ended. -/
structure Onward (i : PipelineId) (p q : Pool) : Prop where
  stage : q.stateOf? i = p.stateOf? i ∨
    ∃ s ∈ (p.stateOf? i).elim [.notStarted] PipelineState.next, q.stateOf? i = some s
  rest : ∀ s, p.stateOf? i = some s → s.isTerminal = true → Adds (· ≠ .entered i) p q

/-- Deeds in order, each of which leads all pipelines onward. -/
abbrev Stages : Pool → Pool → Prop :=
  Relation.ReflTransGen fun p q => (∃ d, Does p d q) ∧ ∀ i, Onward i p q

section Stages

variable {P : Deed → Prop} {p q : Pool} {d : Deed} {c : Pipeline} {e : Event} {n : Notice}
  {i : PipelineId} {s : PipelineState}

theorem stateOf?_congr (h : q.pipelines = p.pipelines) (i : PipelineId) :
    q.stateOf? i = p.stateOf? i := by
  simp only [stateOf?, pipeline?, h]

theorem stateOf?_eq_some (h : p.stateOf? i = some s) :
    ∃ c ∈ p.pipelines, c.id = i ∧ c.state = s := by
  obtain ⟨c, hc, rfl⟩ := Option.map_eq_some_iff.1 h
  exact ⟨c, (pipeline?_eq_some hc).1, (pipeline?_eq_some hc).2, rfl⟩

theorem stateOf?_eq_none : p.stateOf? i = none ↔ ∀ c ∈ p.pipelines, c.id ≠ i := by
  simp [stateOf?, pipeline?]

theorem runs_iff_stateOf? : p.Runs i ↔ p.stateOf? i = some .running := by
  rw [Runs, stateOf?, Option.map_eq_some_iff]

/-- A deed that suits a state leads from it along an edge if anywhere, unless it completes what does
not run. -/
theorem Deed.state_apply (hs : d.suits c.state = true)
    (hx : ∀ id, d = .conclude id .completed → c.state = .running) :
    (d.apply c).state = c.state ∨ (d.apply c).state ∈ c.state.next := by
  cases d with
  | record id k v => exact .inl (c.state_push k v)
  | wait | launch | refuse | halt =>
    refine .inr ?_
    generalize c.state = s at hs ⊢
    revert hs
    cases s <;> simp [Deed.suits, Deed.apply, PipelineState.next, PipelineState.isTerminal]
  | conclude id x =>
    refine .inr ?_
    cases x with
    | completed => rw [hx id rfl]; simp [Deed.apply, Ending.state, PipelineState.next]
    | failed | stopped =>
      generalize c.state = s at hs ⊢
      revert hs
      cases s <;> simp [Deed.suits, Deed.apply, Ending.state, PipelineState.next,
        PipelineState.isTerminal]
  | _ => exact .inl rfl

theorem Does.adds_of_ended (h : Does p d q) (hp : Accounted p) (hs : p.stateOf? i = some s)
    (ht : s.isTerminal = true) : Adds (· ≠ .entered i) p q := by
  have hne : ∀ b ∈ p.pipelines, b.state.isTerminal = false → Effect.entered b.id ≠ .entered i := by
    intro b hb hlive heq
    cases heq
    cases (stateOf?_of_mem hp hb).symm.trans hs
    cases hlive.symm.trans ht
  have hnew : ∀ {b : Pipeline}, b.state = .notStarted ∨ b.state = .queued →
      b.state.isTerminal = false := by
    rintro b (hb | hb) <;> rw [hb] <;> rfl
  have hconclude : ∀ (r : Pool) (b : Pipeline) (x : Ending), Effect.entered b.id ≠ .entered i →
      Adds (· ≠ .entered i) r (r.conclude b x) := by
    intro r b x hb
    unfold Pool.conclude Pool.release
    split <;> exact Adds.trans (.of_eq rfl) (adds_emit _ hb)
  cases h with
  | wait hc hs =>
    exact Adds.trans (.of_eq rfl) (adds_emit _ (hne _ (registered?_eq_some hc).1 (hnew (.inl hs))))
  | launch hc hs =>
    have hb := hne _ (registered?_eq_some hc).1 (hnew (hs.imp (·.1) (·.1)))
    exact (adds_emit _ nofun).trans (Adds.trans (.of_eq rfl) (adds_emit _ hb))
  | refuse hc hs =>
    have hb := hne _ (registered?_eq_some hc).1 (hnew (hs.imp (·.1) (·.1)))
    exact Adds.trans (.of_eq rfl) (adds_emit _ hb)
  | conclude x hc hs => exact hconclude p _ x (hne _ (pipeline?_eq_some hc).1 hs)
  | @halt c hc hs =>
    have hwarn : Adds (· ≠ .entered i) p (p.warn c) := by
      unfold warn
      split
      · exact adds_trySend p _ fun _ _ => nofun
      · exact .refl p
    exact hwarn.trans (hconclude _ c .stopped (hne _ (pipeline?_eq_some hc).1 hs))
  | _ => exact .of_eq rfl

/-- **A deed leads a pipeline onward,** unless it completes one that does not run. -/
theorem Does.onward (h : Does p d q) (hp : Accounted p) (hn : q.nextId ≤ UInt64.size)
    (hx : d = .conclude i .completed → p.Runs i) : Onward i p q := by
  have hq : Accounted q := h.moves.accounted hp hn
  refine ⟨?_, fun s hs ht => h.adds_of_ended hp hs ht⟩
  cases hs : p.stateOf? i with
  | some s =>
    obtain ⟨c, hc, rfl, rfl⟩ := stateOf?_eq_some hs
    have hc' : (if d.subject = some c.id then d.apply c else c) ∈ q.pipelines := by
      rw [h.pipelines]
      exact List.mem_append_left _ (List.mem_map_of_mem hc)
    by_cases hi : d.subject = some c.id
    · rw [if_pos hi] at hc'
      have hfound := stateOf?_of_mem hq hc'
      rw [Deed.id_apply] at hfound
      rw [hfound, Option.some_inj, Option.elim_some]
      refine (Deed.state_apply (hp.suits h hc hi) ?_).imp_right fun hmem => ⟨_, hmem, rfl⟩
      rintro id rfl
      obtain rfl : id = c.id := Option.some.inj hi
      exact (runs_iff hp hc).1 (hx rfl)
    · rw [if_neg hi] at hc'
      exact .inl (stateOf?_of_mem hq hc')
  | none =>
    cases hs' : q.stateOf? i with
    | none => exact .inl rfl
    | some s' =>
      obtain ⟨c', hc', rfl, rfl⟩ := stateOf?_eq_some hs'
      rw [h.pipelines] at hc'
      rcases List.mem_append.1 hc' with hc' | hc'
      · -- it was there before
        obtain ⟨c, hc, rfl⟩ := List.mem_map.1 hc'
        refine absurd ?_ (stateOf?_eq_none.1 hs c hc)
        split
        · exact (d.id_apply c).symm
        · rfl
      · cases d with
        | make id commands =>
          rw [List.mem_singleton.1 hc']
          exact .inr ⟨_, List.mem_singleton_self _, rfl⟩
        | _ => cases hc'

theorem Deeds.stages (h : Deeds P p q) (hp : Accounted p) (hn : q.nextId ≤ UInt64.size)
    (hP : ∀ id, ¬ P (.conclude id .completed)) : Stages p q := by
  refine h.keeps_accounted (I := fun r => Stages p r) hp hn .refl ?_
  intro r r' d hd h hr hn' hI
  refine hI.tail ⟨⟨d, h⟩, fun i => h.onward hr hn' ?_⟩
  rintro rfl
  exact absurd hd (hP i)

theorem Event.eq_of_ending_completed (h : e.ending i = some .completed) :
    ∃ g reason, e = .notice g (.message (.toPipeline i (.pipelineState .completed reason))) := by
  cases e with
  | notice g n =>
    change n.ending i = _ at h
    unfold Notice.ending at h
    split at h
    · next j payload =>
      split at h
      · next hj =>
        subst hj
        unfold Payload.ending at h
        split at h
        · next reason => exact ⟨g, reason, rfl⟩
        all_goals cases h
      · cases h
    · cases h
    · cases h
    · split at h <;> cases h
    · split at h <;> cases h
    · cases h
    · cases h
  | _ => cases h

/-- **News about a pipeline change nothing,** unless they are of the current generation and it
runs. -/
theorem notice_of_not_runs (hp : Accounted p) (ha : n.addressee? = some i) {g : Nat}
    (h : ¬ (g = p.generation ∧ p.Runs i)) : p.step (.notice g n) = p := by
  have hrun : ∀ c, p.registered? i = some c → c.state = .running → p.Runs i := by
    intro c hc hs
    obtain ⟨hmem, rfl, -⟩ := registered?_eq_some hc
    exact (runs_iff hp hmem).2 hs
  have hlose : ∀ f, g = p.generation → p.lose (.pipeline i) f = p := by
    intro f hg
    unfold lose
    dsimp only
    split
    · rfl
    · next c hc => exact if_neg fun hs => h ⟨hg, hrun c hc hs⟩
  change p.notice g n = p
  unfold notice
  split
  · next hg =>
    unfold Notice.addressee? at ha
    split at ha
    · cases ha
      change p.receivePipeline i _ = p
      unfold receivePipeline
      split
      · rfl
      · next c hc => exact if_neg fun hs => h ⟨hg, hrun c hc hs⟩
    · cases ha
      exact hlose _ hg
    · cases ha
      exact hlose _ hg
    · cases ha
  · rfl

/-- **Every step leads onward deed by deed,** between changes that leave the pipelines alone. -/
theorem stages_step (hp : Accounted p) (hn : (p.step e).nextId ≤ UInt64.size) :
    ∃ p₁ p₂, SameWork p p₁ ∧ Stages p₁ p₂ ∧ SameAccounts p₂ (p.step e) := by
  by_cases hx : ∃ i, e.ending i = some .completed
  · obtain ⟨i, hi⟩ := hx
    obtain ⟨g, reason, rfl⟩ := Event.eq_of_ending_completed hi
    by_cases hrun : g = p.generation ∧ p.Runs i
    · obtain ⟨rfl, c, hc, hs⟩ := hrun
      obtain ⟨hmem, rfl⟩ := pipeline?_eq_some hc
      have hdo : Does p (.conclude c.id .completed) (p.conclude c .completed) :=
        .conclude .completed hc (by rw [hs]; rfl)
      rw [step_report hp hc hs (x := .completed) rfl] at hn ⊢
      have hfill := deeds_admitQueued (p.conclude c .completed)
      have hn' := Nat.le_trans hfill.moves.nextId_le hn
      have hend : ∀ i, Onward i p (p.conclude c .completed) := by
        refine fun i => hdo.onward hp hn' fun hid => ?_
        cases hid
        exact (runs_iff hp hmem).2 hs
      have hrest : Stages (p.conclude c .completed) (p.conclude c .completed).admitQueued :=
        hfill.stages (hdo.moves.accounted hp hn') hn fun id hd => by cases hd
      exact ⟨p, _, .refl p, hrest.head ⟨⟨_, hdo⟩, hend⟩, .refl _⟩
    · rw [notice_of_not_runs hp rfl hrun]
      exact ⟨p, p, .refl p, .refl, .refl p⟩
  · obtain ⟨p₁, p₂, hp₁, hd, hq⟩ := stepCourse_step p e
    rw [hq.nextId] at hn
    exact ⟨p₁, p₂, hp₁.toSameWork, hd.deeds.stages (hp.of_sameWork hp₁.toSameWork) hn
      fun id hid => hx ⟨id, hid⟩, hq.toSameAccounts⟩

theorem Stages.stateOf? (h : Stages p q) (i : PipelineId) : q.stateOf? i = p.stateOf? i ∨
    ∃ s, q.stateOf? i = some s ∧
      ∀ r, p.stateOf? i = some r → s ∈ r.next ∨ s = .completed ∧ r.isTerminal = false := by
  induction h with
  | refl => exact .inl rfl
  | @tail q q' _ h ih =>
    rcases (h.2 i).stage with hs | ⟨u, hu, hs⟩
    · rwa [hs]
    · refine .inr ⟨u, hs, fun r hr => ?_⟩
      rcases ih with ih | ⟨t, ht, ih⟩
      · rw [ih, hr] at hu
        exact .inl hu
      · rw [ht] at hu
        rcases ih r hr with hmem | ⟨rfl, -⟩
        · refine (PipelineState.mem_next_trans hmem hu).imp_right fun hc => ⟨hc, ?_⟩
          rw [← Bool.not_eq_true]
          intro hterm
          rw [PipelineState.next_of_isTerminal hterm] at hmem
          cases hmem
        · cases hu

/-- **A pipeline is completed by a message of the host only,** on the current channel and while it
runs. -/
theorem completed_step (hp : Accounted p) (hn : (p.step e).nextId ≤ UInt64.size)
    (h : p.stateOf? i ≠ some .completed) (h' : (p.step e).stateOf? i = some .completed) :
    p.Runs i ∧ ∃ reason, e = .notice p.generation
      (.message (.toPipeline i (.pipelineState .completed reason))) := by
  have hend : e.ending i = some .completed := by
    obtain ⟨c', hc', rfl, hs'⟩ := stateOf?_eq_some h'
    cases hr : e.isRecord with
    | false =>
      obtain ⟨c, hc, hfare⟩ := fares_step hp hn hr c' hc'
      have hsame : c.state = .completed → False := by
        intro hs
        rcases hc with hc | ⟨-, hnew, -⟩
        · exact h (hfare.id_eq ▸ hs ▸ stateOf?_of_mem hp hc)
        · rw [hs] at hnew
          cases hnew
      cases hfare with
      | lasts _ _ _ hs =>
        rcases hs with hs | ⟨-, hlive⟩
        · exact (hsame (hs.symm.trans hs')).elim
        · rw [hs'] at hlive
          cases hlive
      | ends x hx hid _ hsx =>
        rw [hid]
        have hcompleted : x = .completed := by
          rw [hs'] at hsx
          cases x <;> first | rfl | cases hsx
        subst hcompleted
        rcases hx with hx | ⟨-, hx | hx⟩
        · exact hx
        · cases hx
        · cases hx
    | true =>
      -- a record changes no state
      unfold Event.isRecord at hr
      split at hr
      · next g j k v =>
        change (p.step (.notice g (.message (.toPipeline j (.record k v))))).stateOf? _ = _ at h'
        rw [step_record hp] at h'
        split at h'
        · rw [stateOf?, pipeline?_modify fun c => c.id_push k v] at h'
          split at h'
          · rw [Option.map_map, Function.comp_def] at h'
            simp only [Pipeline.state_push] at h'
            exact absurd h' h
          · exact absurd h' h
        · exact absurd h' h
      · cases hr
  obtain ⟨g, reason, rfl⟩ := Event.eq_of_ending_completed hend
  by_cases hrun : g = p.generation ∧ p.Runs i
  · exact ⟨hrun.2, reason, by rw [hrun.1]⟩
  · rw [notice_of_not_runs hp rfl hrun] at h'
    exact absurd h' h

/-- **A step as a whole leaves a pipeline in its state, or leads it along an edge.** -/
theorem next_step (hp : Accounted p) (hn : (p.step e).nextId ≤ UInt64.size)
    (hs : p.stateOf? i = some s) :
    ∃ s', (p.step e).stateOf? i = some s' ∧ (s' = s ∨ s' ∈ s.next) := by
  obtain ⟨p₁, p₂, hp₁, hstages, hq⟩ := stages_step hp hn
  have hstage := hstages.stateOf? i
  rw [stateOf?_congr hp₁.pipelines, ← stateOf?_congr hq.pipelines] at hstage
  rcases hstage with hsame | ⟨s', hs', hmem⟩
  · exact ⟨s, hsame.trans hs, .inl rfl⟩
  · refine ⟨s', hs', ?_⟩
    rcases hmem s hs with hmem | ⟨rfl, hlive⟩
    · exact .inr hmem
    · -- it was completed, so it ran
      have hne : p.stateOf? i ≠ some .completed := by
        rw [hs]
        rintro hc
        cases hc
        cases hlive
      have hr := runs_iff_stateOf?.1 (completed_step hp hn hne hs').1
      cases hs.symm.trans hr
      exact .inr (by simp [PipelineState.next])

theorem first_step (hp : Accounted p) (hn : (p.step e).nextId ≤ UInt64.size)
    (hs : p.stateOf? i = none) (hs' : (p.step e).stateOf? i = some s) :
    s = .notStarted ∨ s ∈ PipelineState.notStarted.next := by
  cases s with
  | notStarted => exact .inl rfl
  | completed =>
    obtain ⟨hr, -⟩ := completed_step hp hn (by rw [hs]; nofun) hs'
    cases hs.symm.trans (runs_iff_stateOf?.1 hr)
  | _ => exact .inr (by simp [PipelineState.next])

end Stages

/-! ## What is made known -/

section Known

variable {P : Effect → Prop} {p q : Pool} {a : Attempt} {e : Event} {d : Deed} {c : Pipeline}
  {i : PipelineId} {s : PipelineState}

theorem adds_setProgress (p : Pool) (a : Attempt) (s : Progress) :
    Adds P p (p.setProgress a s) := .of_eq (by cases a <;> rfl)

section Control

variable (hP : ∀ e : Effect, (∀ i, e ≠ .entered i) → P e)
include hP

theorem adds_resolve (p : Pool) (a : Attempt) (r : Except Fault Unit) :
    Adds P p (p.resolve a r) :=
  (adds_setProgress p a _).trans (adds_emit _ (hP _ nofun))

theorem adds_answer (p : Pool) (a : Attempt) (r : Except Fault Unit) : Adds P p (p.answer a r) :=
  (adds_resolve hP p a r).trans (.of_eq rfl)

theorem adds_refuseHandshake (p : Pool) : Adds P p p.refuseHandshake := by
  unfold refuseHandshake
  split
  · exact .refl p
  · exact adds_answer hP p _ _

theorem adds_detach (p : Pool) : Adds P p p.detach := by
  have habandon : Adds P p
      { p with generation := p.generation + 1, line := none }.abandonHandshake := by
    unfold abandonHandshake
    split
    · exact .of_eq rfl
    · exact Adds.trans (.of_eq rfl) (adds_answer hP _ _ _)
  unfold detach
  split
  · exact habandon
  · exact habandon.trans (adds_emit _ (hP _ nofun))

theorem adds_giveUp (p : Pool) (a : Attempt) : Adds P p (p.giveUp a) := by
  cases a with
  | opening =>
    unfold giveUp
    dsimp only
    split
    · exact Adds.trans (.of_eq rfl) (adds_detach hP _)
    · exact Adds.trans (.of_eq rfl) (adds_detach hP _)
  | reconnecting => exact (adds_setProgress p _ _).trans (adds_detach hP _)

/-- **What a turn makes known has a property** if all does that is not about the state of a
pipeline, and what its deeds make known. -/
theorem Turn.adds (h : Turn p e q)
    (hd : ∀ r r', SameWork p r → Deeds (fun _ => True) r r' → SameWork r' q → Adds P r r') :
    Adds P p q := by
  have hfill : ∀ r, SameWork p r → SameWork r.admitQueued q → Adds P p r →
      Adds P p r.admitQueued := fun r hr hq hadds =>
    hadds.trans (hd r _ hr ((deeds_admitQueued r).mono fun _ _ => trivial) hq)
  have hleave : ∀ next f fails, q = p.leave next f fails → Adds P p (p.leave next f fails) := by
    rintro next f fails rfl
    unfold leave at hd ⊢
    dsimp only at hd ⊢
    have hfail : Adds P { p with state := next } ({ p with state := next }.failAll f
        ({ p with state := next }.idsWhere fails)) :=
      hd _ _ ⟨rfl, rfl, rfl, rfl⟩ (deeds_failAll f _ (fun _ _ => trivial) fun _ _ => trivial)
        (sameAccounts_detach _).toSameWork
    exact Adds.trans (.of_eq rfl) (hfail.trans (adds_detach hP _))
  cases h with
  | idle => exact .refl p
  | work _ h => exact hd p q (.refl p) (h.deeds.mono fun _ _ => trivial) (.refl q)
  | beginOpen | beginReconnect | closeUnopened | endClose | lineStopped => exact .of_eq rfl
  | outdated | unconnected => exact adds_resolve hP p _ _
  | @greet a =>
    have hset : Adds P p { p.setProgress a .waiting with
        generation := p.generation + 1
        line := some { generation := p.generation + 1 }
        handshake := some a } := adds_setProgress p a .waiting
    exact hset.trans ((adds_emit _ (hP (.started _) nofun)).trans
      (adds_emit _ (hP (.queued ..) nofun)))
  | succeed => exact adds_setProgress p _ _
  | giveUp => exact adds_giveUp hP p _
  | @beginClose next =>
    have hrefuse : Adds P p { p with state := next }.refuseHandshake :=
      Adds.trans (.of_eq rfl) (adds_refuseHandshake hP _)
    have hsame : SameWork p { p with state := next }.refuseHandshake :=
      (prelude_state p next).toSameWork.trans (sameAccounts_refuseHandshake _).toSameWork
    unfold shutDown at hd ⊢
    generalize { p with state := next }.refuseHandshake = r at hrefuse hsame hd ⊢
    generalize r.idsWhere _ = ids at hd ⊢
    have hstop : Adds P r (r.stopAll ids) :=
      hd r _ hsame (deeds_stopAll ids (fun _ _ => trivial) fun _ _ => trivial)
        ((sameAccounts_trySend _ _).trans (sameAccounts_detach _)).toSameWork
    have hsay : Adds P (r.stopAll ids) ((r.stopAll ids).trySend (.toPool .closePool)) :=
      adds_trySend _ _ fun _ _ => hP (.queued ..) nofun
    exact hrefuse.trans (hstop.trans (hsay.trans (adds_detach hP _)))
  | setLimit => exact hfill _ ⟨rfl, rfl, rfl, rfl⟩ (.refl _) (.of_eq rfl)
  | announceLimit => exact hfill _ ⟨rfl, rfl, rfl, rfl⟩ (.refl _) (adds_emit p (hP _ nofun))
  | hostOpened =>
    exact (hfill p.ready ⟨rfl, rfl, rfl, rfl⟩ (sameAccounts_resolve _ _ _).toSameWork
      (.of_eq rfl)).trans (adds_resolve hP _ _ _)
  | hostRefused => exact adds_answer hP p _ _
  | hostEnded | lineEnded => exact hleave _ _ _ rfl
  | lineLost => exact adds_detach hP p

end Control

/-- Deeds leave a pipeline that has ended as it is, and make nothing known of it. -/
theorem Deeds.ended {P : Deed → Prop} (h : Deeds P p q) (hp : Accounted p)
    (hn : q.nextId ≤ UInt64.size) (hs : p.stateOf? i = some s) (ht : s.isTerminal = true) :
    q.stateOf? i = some s ∧ Adds (· ≠ .entered i) p q := by
  refine h.keeps_accounted (I := fun r => r.stateOf? i = some s ∧ Adds (· ≠ .entered i) p r)
    hp hn ⟨hs, .refl p⟩ ?_
  rintro r r' d - h hr hn' ⟨hrs, hadds⟩
  refine ⟨?_, hadds.trans (h.adds_of_ended hr hrs ht)⟩
  have hlive : d = .conclude i .completed → r.Runs i := by
    rintro rfl
    obtain ⟨c, hc, rfl, rfl⟩ := stateOf?_eq_some hrs
    have hsuits := hr.suits h hc rfl
    simp [Deed.suits, ht] at hsuits
  rcases (h.onward hr hn' hlive).stage with hsame | ⟨u, hu, -⟩
  · exact hsame.trans hrs
  · rw [hrs, Option.elim_some, PipelineState.next_of_isTerminal ht] at hu
    cases hu

/-- **A pipeline that has ended stays in its state,** and nothing more is made known of it. -/
theorem ended_step (hp : Accounted p) (hn : (p.step e).nextId ≤ UInt64.size)
    (hs : p.stateOf? i = some s) (ht : s.isTerminal = true) :
    (p.step e).stateOf? i = some s ∧ Adds (· ≠ .entered i) p (p.step e) := by
  have hdeeds : ∀ r r', SameWork p r → Deeds (fun _ => True) r r' → SameWork r' (p.step e) →
      r'.stateOf? i = some s ∧ Adds (· ≠ .entered i) r r' := by
    intro r r' hr hd hq
    refine hd.ended (hp.of_sameWork hr) (hq.nextId ▸ hn) ?_ ht
    exact (stateOf?_congr hr.pipelines i).trans hs
  constructor
  · obtain ⟨p₁, p₂, hp₁, hd, hq⟩ := stepCourse_step p e
    rw [stateOf?_congr hq.pipelines]
    exact (hdeeds p₁ p₂ hp₁.toSameWork (hd.deeds.mono fun _ _ => trivial) hq.toSameWork).1
  · exact (turn_step p e).adds (fun e he => he i) fun r r' hr hd hq => (hdeeds r r' hr hd hq).2

theorem ended_run (hp : Accounted p) (events : List Event)
    (hn : (p.run events).nextId ≤ UInt64.size) (hs : p.stateOf? i = some s)
    (ht : s.isTerminal = true) :
    (p.run events).stateOf? i = some s ∧ Adds (· ≠ .entered i) p (p.run events) := by
  induction events generalizing p with
  | nil => exact ⟨hs, .refl p⟩
  | cons e events ih =>
    have hn' : (p.step e).nextId ≤ UInt64.size := Nat.le_trans (nextId_le_run _ events) hn
    obtain ⟨hs', hadds⟩ := ended_step hp hn' hs ht
    obtain ⟨hrun, hrest⟩ := ih ((stepMoves_step p e).accounted hp hn') hn hs'
    exact ⟨hrun, hadds.trans hrest⟩

end Known

/-! ## Runs -/

/-- **The states of all pipelines after any events,** as long as there were numbers for the
pipelines.

A step is made of deeds each of which leaves a pipeline in its state or leads it along an edge of
`PipelineState.next`, and does not make it known again once it has ended; and so does the step as a
whole. A pipeline that is made meanwhile has not started, or has gone one stage on from there. One is
completed only by a message of the host that says so, on the channel that is the line, while it runs.
Whatever comes once a pipeline has ended, it stays in its state, and it is not made known again that
it has entered one. No pipeline runs unless the pool is opened. -/
theorem stages_of_run (id : PoolId) (options : PoolOptions) (events : List Event)
    (hn : ((new id options).run events).nextId ≤ UInt64.size) :
    let start := new id options
    (∀ before e after, events = before ++ e :: after →
      let p := start.run before
      let q := p.step e
      (∃ p₁ p₂, SameWork p p₁ ∧ Stages p₁ p₂ ∧ SameAccounts p₂ q) ∧
      (∀ i s, p.stateOf? i = some s → ∃ s', q.stateOf? i = some s' ∧ (s' = s ∨ s' ∈ s.next)) ∧
      (∀ i s', p.stateOf? i = none → q.stateOf? i = some s' →
        s' = .notStarted ∨ s' ∈ PipelineState.notStarted.next) ∧
      ∀ i, p.stateOf? i ≠ some .completed → q.stateOf? i = some .completed →
        p.stateOf? i = some .running ∧ ∃ l reason, p.line = some l ∧
          e = .notice l.generation (.message (.toPipeline i (.pipelineState .completed reason)))) ∧
    ∀ before after, events = before ++ after → ∀ i,
      (∀ s, (start.run before).stateOf? i = some s → s.isTerminal = true →
        (start.run events).stateOf? i = some s ∧ ∃ more,
          (start.run events).outbox = (start.run before).outbox ++ more ∧ .entered i ∉ more) ∧
      ((start.run before).stateOf? i = some .running → (start.run before).state = .opened) := by
  intro start
  have hfew : ∀ before after, events = before ++ after →
      (start.run before).nextId ≤ UInt64.size := by
    rintro before after rfl
    refine Nat.le_trans (nextId_le_run _ after) ?_
    rw [run_run]
    exact hn
  constructor
  · intro before e after hev p q
    have h := inOrder_run id options before (hfew before _ hev)
    have hnq : q.nextId ≤ UInt64.size := by
      have := hfew (before ++ [e]) after (by simp [hev])
      rwa [run_append] at this
    refine ⟨stages_step h.accounted hnq, fun i s => next_step h.accounted hnq,
      fun i s => first_step h.accounted hnq, fun i hne hc => ?_⟩
    obtain ⟨⟨c, hc, hs⟩, reason, he⟩ := completed_step h.accounted hnq hne hc
    have ho := h.housed.state_of_running (pipeline?_eq_some hc).1 hs
    obtain ⟨l, hl, -⟩ := h.attached.opened_iff.1 ho
    refine ⟨runs_iff_stateOf?.1 ⟨c, hc, hs⟩, l, reason, hl, ?_⟩
    rw [h.current l hl]
    exact he
  · intro before after hev i
    have h := inOrder_run id options before (hfew before _ hev)
    refine ⟨fun s hs ht => ?_, fun hs => ?_⟩
    · subst hev
      rw [← run_run start] at hn ⊢
      obtain ⟨hrun, more, hout, hmore⟩ := ended_run h.accounted after hn hs ht
      exact ⟨hrun, more, hout, fun hmem => hmore _ hmem rfl⟩
    · obtain ⟨c, hc, -, hr⟩ := stateOf?_eq_some hs
      exact h.housed.state_of_running hc hr

/-- A pipeline that waits, is launched once the one ahead of it has run to its end, and fails when
the channel is lost. -/
theorem stages_of_run_lost :
    let start := new (.ofDraw 0) { maxRunspaces := 1 }
    let first : PipelineId := ⟨1, by decide⟩
    let second : PipelineId := ⟨2, by decide⟩
    let completed : Event :=
      .notice 1 (.message (.toPipeline first (.pipelineState .completed none)))
    let before : List Event := [.beginOpen, .connected .opening,
      .notice 1 (.message (.toPool (.poolState .opened none))), .submit [⟨"Get-Item", []⟩],
      .submit [⟨"Get-Date", []⟩], completed, .notice 1 (.closed none)]
    let after : List Event := [.stop second, .beginReconnect, completed, .beginClose]
    (start.run (before ++ after)).nextId = 3 ∧
      (start.run before).stateOf? first = some .completed ∧
      (start.run (before ++ after)).stateOf? first = some .completed ∧
      (start.run before).stateOf? second = some .failed ∧
      (start.run (before ++ after)).stateOf? second = some .failed ∧
      ∃ more, (start.run (before ++ after)).outbox = (start.run before).outbox ++ more ∧
        .entered second ∉ more := by
  intro start first second completed before after
  have hn : (start.run (before ++ after)).nextId = 3 := by decide
  have hfirst : (start.run before).stateOf? first = some .completed := by decide
  have hsecond : (start.run before).stateOf? second = some .failed := by decide
  obtain ⟨-, hended⟩ := stages_of_run (.ofDraw 0) { maxRunspaces := 1 } (before ++ after)
    (by rw [hn]; decide)
  obtain ⟨hs, more, hout, hmore⟩ := (hended before after rfl second).1 _ hsecond rfl
  exact ⟨hn, hfirst, ((hended before after rfl first).1 _ hfirst rfl).1, hsecond, hs, more, hout,
    hmore⟩

end Pool

end Runspace
