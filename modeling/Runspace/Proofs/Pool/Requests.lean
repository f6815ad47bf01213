import Runspace.Proofs.Pool.Channels
import Runspace.Proofs.Pool.Lifecycle
import Runspace.Proofs.Pool.Streams

/-!
# Requests — what is said to each pipeline

A pipeline hears at most that it is to run and then that it is to stop, both on the channel on which
it was launched: it runs on no other, since a pool that leaves a channel has ended all that ran.

* `Heard`: what may have been said to a pipeline;
* `Addressed`, **`Addressed.step`**: what was said to all pipelines;
* **`said_step`**: a step says nothing to a pipeline that runs neither before nor after it;
* **`said_of_never_runs`**, **`said_of_ended`**: those to which nothing is said, or nothing more.
-/

namespace Runspace

namespace Pool

/-! ## What deeds say -/

section Deeds

variable {P : Deed → Prop} {p q : Pool} {d : Deed} {i j : PipelineId}

theorem said_emit_toPipeline (p : Pool) (g : Nat) (i j : PipelineId) (payload : Payload) :
    (p.emit (.queued g (.toPipeline i payload))).said j =
      p.said j ++ if i = j then [(g, payload)] else [] := by
  rw [said_emit]
  by_cases h : i = j <;> simp [Effect.saidTo?, Message.toPipeline, h]

theorem Does.said_launch (h : Does p (.launch i) q) :
    ∃ c l, c ∈ p.pipelines ∧ c.id = i ∧ p.line = some l ∧ ∀ j, q.said j =
      p.said j ++ if i = j then [(l.generation, .createPipeline c.commands)] else [] := by
  cases h with
  | @launch c l rest hc hs hm hl ha =>
    refine ⟨c, l, (registered?_eq_some hc).1, rfl, (readyLine?_eq_some.1 hl).1, fun j => ?_⟩
    rw [(hushed_change _ _ _).said]
    exact said_emit_toPipeline _ _ _ _ _

theorem Does.said_halt (h : Does p (.halt i) q) : ∃ c ∈ p.pipelines, c.id = i ∧
    ∀ j, q.said j = p.said j ∨ i = j ∧ c.state = .running ∧
      ∃ l, p.line = some l ∧ q.said j = p.said j ++ [(l.generation, .stopPipeline)] := by
  cases h with
  | @halt c hc hs =>
    refine ⟨c, (pipeline?_eq_some hc).1, rfl, fun j => ?_⟩
    rw [(hushed_conclude _ _ _).said, warn]
    split
    · next hrun =>
      unfold trySend
      cases hq : p.send? (.toPipeline c.id .stopPipeline) with
      | none => exact .inl rfl
      | some q =>
        obtain ⟨l, hl, -, rfl⟩ := send?_eq_some hq
        rw [Option.getD_some, said_emit_toPipeline]
        split
        · next hj => exact .inr ⟨hj, hrun, l, (readyLine?_eq_some.1 hl).1, rfl⟩
        · exact .inl (List.append_nil _)
    · exact .inl rfl

/-- Something is said only to a pipeline that is launched, or that runs and is halted. -/
theorem Does.said_eq_or (h : Does p d q) (i : PipelineId) :
    q.said i = p.said i ∨ d.subject = some i ∧ ∃ c ∈ p.pipelines, c.id = i ∧
      (d = .launch i ∨ d = .halt i ∧ c.state = .running) := by
  cases hd : d.isSpoken with
  | false => exact .inl ((h.hushed hd).said i)
  | true =>
    cases d with
    | launch j =>
      obtain ⟨c, l, hc, hid, -, hsaid⟩ := h.said_launch
      rw [hsaid]
      split
      · next hj =>
        subst hj
        exact .inr ⟨rfl, c, hc, hid, .inl rfl⟩
      · exact .inl (List.append_nil _)
    | halt j =>
      obtain ⟨c, hc, hid, hsaid⟩ := h.said_halt
      rcases hsaid i with hs | ⟨rfl, hrun, -⟩
      · exact .inl hs
      · exact .inr ⟨rfl, c, hc, hid, .inr ⟨rfl, hrun⟩⟩
    | _ => cases hd

end Deeds

/-! ## What a pipeline may have heard -/

/-- What may have been said to a pipeline while the pool was in a generation and before: nothing, or
on one channel that it is to run, and then that it is to stop. -/
inductive Heard (generation : Nat) (c : Pipeline) : List (Nat × Payload) → Prop where
  | nothing (hs : c.state ≠ .running) : Heard generation c []
  | toRun {g : Nat} (hs : c.state = .running ∧ g = generation ∨ c.state.isTerminal = true) :
    Heard generation c [(g, .createPipeline c.commands)]
  | toStop {g : Nat} (hs : c.state.isTerminal = true) :
    Heard generation c [(g, .createPipeline c.commands), (g, .stopPipeline)]

section Heard

variable {g g' : Nat} {c c' : Pipeline} {words : List (Nat × Payload)}

theorem Heard.of_waiting (h : Heard g c words) (hs : c.state = .notStarted ∨ c.state = .queued) :
    words = [] := by
  have hnew : c.state ≠ .running ∧ c.state.isTerminal = false := by
    rcases hs with hs | hs <;> simp [hs, PipelineState.isTerminal]
  cases h with
  | nothing => rfl
  | toRun hs' =>
    rcases hs' with ⟨hr, -⟩ | ht
    · exact absurd hr hnew.1
    · cases hnew.2.symm.trans ht
  | toStop ht => cases hnew.2.symm.trans ht

theorem Heard.of_running (h : Heard g c words) (hs : c.state = .running) :
    words = [(g, .createPipeline c.commands)] := by
  cases h with
  | nothing hs' => exact absurd hs hs'
  | toRun hs' =>
    rcases hs' with ⟨-, rfl⟩ | hs'
    · rfl
    · rw [hs] at hs'
      cases hs'
  | toStop hs' =>
    rw [hs] at hs'
    cases hs'

theorem Heard.congr (h : Heard g c words) (hc : c'.commands = c.commands)
    (hs : c'.state = c.state) (hg : c.state = .running → g' = g) : Heard g' c' words := by
  cases h with
  | nothing hs' => exact .nothing (hs ▸ hs')
  | toRun hs' =>
    rw [← hc]
    refine .toRun (hs'.imp (fun hr => ⟨hs.trans hr.1, hr.2.trans (hg hr.1).symm⟩) fun ht => ?_)
    rw [hs]
    exact ht
  | toStop hs' =>
    rw [← hc]
    exact .toStop (hs ▸ hs')

theorem Heard.ends (h : Heard g c words) (hc : c'.commands = c.commands)
    (hs : c'.state.isTerminal = true) : Heard g' c' words := by
  cases h with
  | nothing =>
    refine .nothing fun hr => ?_
    rw [hr] at hs
    cases hs
  | toRun =>
    rw [← hc]
    exact .toRun (.inr hs)
  | toStop =>
    rw [← hc]
    exact .toStop hs

end Heard

/-! ## What all pipelines have heard -/

/-- What was said to the pipelines of a pool is in order, and nothing was said to any other. -/
structure Addressed (p : Pool) : Prop where
  heard : ∀ c ∈ p.pipelines, Heard p.generation c (p.said c.id)
  unmade : ∀ i, i ∉ p.pipelines.map (·.id) → p.said i = []

section Addressed

variable {P : Deed → Prop} {p q : Pool} {d : Deed} {c : Pipeline} {e : Event}

/-- A change of the pool itself that says nothing to pipelines, and leaves the generation alone
while any of them runs. -/
theorem Addressed.congr (h : Addressed p) (hp : q.pipelines = p.pipelines)
    (hs : ∀ i, q.said i = p.said i)
    (hg : ∀ c ∈ p.pipelines, c.state = .running → q.generation = p.generation) : Addressed q where
  heard c hc := by
    rw [hp] at hc
    rw [hs]
    exact (h.heard c hc).congr rfl rfl (hg c hc)
  unmade i hi := by
    rw [hp] at hi
    exact (hs i).trans (h.unmade i hi)

theorem heard_apply (h : Heard p.generation c (p.said c.id)) (hd : Does p d q) (hp : Accounted p)
    (hl : Current p) (hc : c ∈ p.pipelines) (hi : d.subject = some c.id) :
    Heard p.generation (d.apply c) (q.said c.id) := by
  have hs := hp.suits hd hc hi
  cases d with
  | make | exhaust | skip => cases hi
  | invoke | take | forget =>
    rw [(hd.hushed rfl).said]
    exact h.congr rfl rfl fun _ => rfl
  | record id k v =>
    rw [(hd.hushed rfl).said]
    exact h.congr (c.commands_push k v) (c.state_push k v) fun _ => rfl
  | wait =>
    have hs : c.state = .notStarted := by simpa [Deed.suits] using hs
    rw [(hd.hushed rfl).said, h.of_waiting (.inl hs)]
    exact .nothing (by simp [Deed.apply])
  | refuse =>
    rw [(hd.hushed rfl).said]
    exact h.ends (c.commands_finish _ _) rfl
  | conclude id x =>
    rw [(hd.hushed rfl).said]
    exact h.ends (c.commands_finish _ _) x.isTerminal_state
  | launch id =>
    cases hi
    have hs : c.state = .notStarted ∨ c.state = .queued := by simpa [Deed.suits] using hs
    obtain ⟨b, l, hb, hid, hline, hsaid⟩ := hd.said_launch
    obtain rfl := hp.eq_of_id_eq hb hc hid
    rw [hsaid, if_pos rfl, h.of_waiting hs, hl l hline]
    exact .toRun (.inl ⟨rfl, rfl⟩)
  | halt id =>
    cases hi
    obtain ⟨b, hb, hid, hsaid⟩ := hd.said_halt
    obtain rfl := hp.eq_of_id_eq hb hc hid
    rcases hsaid b.id with hsame | ⟨-, hrun, l, hline, hmore⟩
    · rw [hsame]
      exact h.ends (b.commands_finish _ _) rfl
    · rw [hmore, h.of_running hrun, hl l hline, ← b.commands_finish .stopped none]
      exact .toStop rfl

/-- **A deed says to its pipeline what may be said to it.** -/
theorem Does.addressed (hd : Does p d q) (h : Addressed p) (hp : Accounted p) (hl : Current p)
    (hn : q.nextId ≤ UInt64.size) : Addressed q where
  heard c' hc' := by
    rw [hd.sameControl.generation]
    rw [hd.pipelines] at hc'
    rcases List.mem_append.1 hc' with hc' | hc'
    · obtain ⟨c, hc, rfl⟩ := List.mem_map.1 hc'
      by_cases hi : d.subject = some c.id
      · rw [if_pos hi, Deed.id_apply]
        exact heard_apply (h.heard c hc) hd hp hl hc hi
      · rw [if_neg hi, (hd.said_eq_or c.id).resolve_right fun hs => hi hs.1]
        exact h.heard c hc
    · cases hd with
      | make commands ho hid =>
        obtain rfl := List.mem_singleton.1 hc'
        have hnew : p.said _ = [] := h.unmade _ fun hmem => by
          obtain ⟨b, hb, hbid⟩ := List.mem_map.1 hmem
          exact hp.id_ne_of_ofRaw? (Nat.le_refl _) hn hid hb hbid
        exact hnew ▸ .nothing (by simp)
      | _ => cases hc'
  unmade i hi := by
    have hi' : i ∉ p.pipelines.map (·.id) := fun hmem => hi (hd.ids_prefix.subset hmem)
    rcases hd.said_eq_or i with hs | ⟨-, c, hc, rfl, -⟩
    · rw [hs]
      exact h.unmade i hi'
    · exact absurd (List.mem_map_of_mem hc) hi'

/-- Only an opened pool runs pipelines. -/
theorem Housed.state_of_running (h : Housed p) (hc : c ∈ p.pipelines) (hs : c.state = .running) :
    p.state = .opened := by
  have hk := h c hc
  rw [hs] at hk
  cases hp : p.state <;> rw [hp] at hk <;> first | rfl | cases hk

theorem Addressed.of_prelude (h : Addressed p) (ha : Attached p) (hh : Housed p)
    (hp : Prelude p q) : Addressed q := by
  refine h.congr hp.pipelines hp.said fun c hc hs => ?_
  have ho := hh.state_of_running hc hs
  rcases hp.generation ho with hg | ⟨a, f, hf⟩
  · exact hg
  · -- nothing runs while an attempt has failed that was not cleaned up
    have hsettled := ha.isSettled ho a
    rw [hf] at hsettled
    cases hsettled

/-- **Deeds say to pipelines what may be said to them.** -/
theorem Deeds.addressed (hd : Deeds P p q) (h : Addressed p) (hp : Accounted p) (hl : Current p)
    (hn : q.nextId ≤ UInt64.size) : Addressed q := by
  refine (hd.keeps_accounted (I := fun r => Current r ∧ Addressed r) hp hn ⟨hl, h⟩ ?_).2
  intro r r' d _ hd hr hn' hI
  exact ⟨hI.1.congr hd.sameControl.line hd.sameControl.generation, hd.addressed hI.2 hr hI.1 hn'⟩

/-- **A step says to pipelines what may be said to them.** -/
theorem Addressed.step (h : Addressed p) (hp : Accounted p) (ha : Attached p) (hh : Housed p)
    (hl : Current p) (hn : (p.step e).nextId ≤ UInt64.size) : Addressed (p.step e) := by
  have hh' := (advances_step ha e).housed hp hh
  obtain ⟨p₁, p₂, hp₁, hd, hq⟩ := stepCourse_step p e
  rw [hq.nextId] at hn
  have h₂ : Addressed p₂ := hd.deeds.addressed (h.of_prelude ha hh hp₁)
    (hp.of_sameWork hp₁.toSameWork) (hp₁.current hl) hn
  refine h₂.congr hq.pipelines hq.said fun c hc hs => hq.generation ?_
  rw [← hq.state]
  exact hh'.state_of_running (hq.pipelines ▸ hc) hs

end Addressed

/-! ## Pipelines to which nothing is said -/

section Silence

variable {P : Deed → Prop} {p q : Pool} {d : Deed} {c : Pipeline} {e : Event} {i : PipelineId}

theorem Does.runs_before (h : Does p d q) (hp : Accounted p) (hd : d.isAdmission = false)
    (hr : q.Runs i) : p.Runs i := by
  obtain ⟨c', hc', hs⟩ := hr
  obtain ⟨hmem, rfl⟩ := pipeline?_eq_some hc'
  rw [h.pipelines] at hmem
  rcases List.mem_append.1 hmem with hmem | hmem
  · obtain ⟨c, hc, rfl⟩ := List.mem_map.1 hmem
    by_cases hi : d.subject = some c.id
    · rw [if_pos hi] at hs
      rw [if_pos hi, Deed.id_apply, runs_iff hp hc]
      cases d with
      | launch | refuse | skip => cases hd
      | wait | halt => cases hs
      | conclude id x => cases x <;> cases hs
      | record id k v => exact (c.state_push k v).symm.trans hs
      | _ => exact hs
    · rw [if_neg hi] at hs
      rw [if_neg hi]
      exact (runs_iff hp hc).2 hs
  · -- a pipeline that was just made does not run
    cases d with
    | make =>
      rw [List.mem_singleton.1 hmem] at hs
      cases hs
    | _ => cases hmem

theorem Does.runs_after (h : Does p d q) (hp : Accounted p) (hq : Accounted q)
    (hd : d.isOutcome = false) (hr : p.Runs i) : q.Runs i := by
  obtain ⟨c, hc, hs⟩ := hr
  obtain ⟨hmem, rfl⟩ := pipeline?_eq_some hc
  have hc' : (if d.subject = some c.id then d.apply c else c) ∈ q.pipelines := by
    rw [h.pipelines]
    exact List.mem_append_left _ (List.mem_map_of_mem hmem)
  by_cases hi : d.subject = some c.id
  · rw [if_pos hi] at hc'
    have hsuits := hp.suits h hmem hi
    rw [hs] at hsuits
    rw [← Deed.id_apply d c, runs_iff hq hc']
    cases d with
    | record | conclude | halt => cases hd
    | wait | launch | refuse => cases hsuits
    | _ => exact hs
  · rw [if_neg hi] at hc'
    exact (runs_iff hq hc').2 hs

theorem Deeds.said_before (h : Deeds (fun d => P d ∧ d.isAdmission = false) p q)
    (hp : Accounted p) (hn : q.nextId ≤ UInt64.size) (i : PipelineId) :
    (q.Runs i → p.Runs i) ∧ (q.said i = p.said i ∨ p.Runs i) := by
  refine h.keeps_accounted (I := fun r => (r.Runs i → p.Runs i) ∧ (r.said i = p.said i ∨ p.Runs i))
    hp hn ⟨fun hr => hr, .inl rfl⟩ ?_
  intro r r' d hP hd hr _ hI
  refine ⟨fun hrun => hI.1 (hd.runs_before hr hP.2 hrun), ?_⟩
  rcases hd.said_eq_or i with hs | ⟨-, c, hc, rfl, hl | ⟨-, hs⟩⟩
  · rw [hs]
    exact hI.2
  · cases hl ▸ hP.2
  · exact .inr (hI.1 ((runs_iff hr hc).2 hs))

theorem Deeds.said_after (h : Deeds (fun d => P d ∧ d.isOutcome = false) p q)
    (hp : Accounted p) (hn : q.nextId ≤ UInt64.size) (i : PipelineId) :
    q.said i = p.said i ∨ q.Runs i := by
  refine h.keeps_accounted (I := fun r => r.said i = p.said i ∨ r.Runs i) hp hn (.inl rfl) ?_
  intro r r' d hP hd hr hn' hI
  have hr' := hd.moves.accounted hr hn'
  rcases hd.said_eq_or i with hs | ⟨hi, c, hc, rfl, hl | ⟨hh, -⟩⟩
  · exact hI.imp (hs.trans ·) (hd.runs_after hr hr' hP.2)
  · -- what is launched runs
    refine .inr ?_
    have hc' : d.apply c ∈ r'.pipelines := by
      rw [hd.pipelines]
      refine List.mem_append_left _ (List.mem_map.2 ⟨c, hc, if_pos hi⟩)
    rw [← Deed.id_apply d c, runs_iff hr' hc', hl]
    rfl
  · cases hh ▸ hP.2

/-- **A step says nothing to a pipeline that runs neither before nor after it.** -/
theorem said_step (hp : Accounted p) (hn : (p.step e).nextId ≤ UInt64.size) (i : PipelineId) :
    (p.step e).said i = p.said i ∨ p.Runs i ∨ (p.step e).Runs i := by
  obtain ⟨p₁, p₂, hp₁, ⟨r, hr, hq⟩, hc⟩ := stepCourse_step p e
  rw [hc.nextId] at hn
  have hacc := hp.of_sameWork hp₁.toSameWork
  have hnr := Nat.le_trans (Deeds.moves hq).nextId_le hn
  rw [hc.said, ← hp₁.said]
  rcases (hr.said_before hacc hnr i).2 with hs | hrun
  · rw [← hs]
    refine (hq.said_after ((Deeds.moves hr).accounted hacc hnr) hn i).imp_right fun hrun => ?_
    exact .inr (hrun.congr hc.pipelines.symm)
  · exact .inr (.inl (hrun.congr hp₁.pipelines))

theorem said_step_of_ended (hp : Accounted p) (hn : (p.step e).nextId ≤ UInt64.size)
    (hc : c ∈ p.pipelines) (ht : c.state.isTerminal = true) :
    (p.step e).said c.id = p.said c.id := by
  refine (said_step hp hn c.id).resolve_right ?_
  rintro (hr | ⟨c', hc', hs⟩)
  · rw [(runs_iff hp hc).1 hr] at ht
    cases ht
  · obtain ⟨hmem, hid⟩ := pipeline?_eq_some hc'
    rw [← (rests_step hp hn hc ht hmem hid).1, hs] at ht
    cases ht

/-- An end that the host reports of a pipeline that runs concludes it, and its runspace is given
out. -/
theorem step_report {payload : Payload} {x : Ending} (hp : Accounted p)
    (hc : p.pipeline? c.id = some c) (hs : c.state = .running) (hx : payload.ending = some x) :
    p.step (.notice p.generation (.message (.toPipeline c.id payload))) =
      (p.conclude c x).admitQueued := by
  have hlive : c.state.isTerminal = false := by rw [hs]; rfl
  have hfinish := finish_of_live hc hlive x
  rw [if_pos hs] at hfinish
  change p.notice p.generation (.message (.toPipeline c.id payload)) = _
  unfold notice
  rw [if_pos rfl]
  change p.receivePipeline c.id payload = _
  unfold receivePipeline
  rw [hp.registered?_of_live hc hlive]
  dsimp only
  rw [if_pos hs, ← hfinish]
  unfold Payload.ending at hx
  split at hx <;> cases hx <;> rfl

theorem said_step_of_report {payload : Payload} {x : Ending} (hp : Accounted p)
    (he : e = .notice p.generation (.message (.toPipeline i payload)))
    (hn : (p.step e).nextId ≤ UInt64.size) (hr : p.Runs i) (hx : payload.ending = some x) :
    (p.step e).said i = p.said i ∧
      ∃ c ∈ (p.step e).pipelines, c.id = i ∧ c.state.isTerminal = true := by
  obtain ⟨c, hc, hs⟩ := hr
  obtain ⟨hmem, rfl⟩ := pipeline?_eq_some hc
  have hstep : p.step e = (p.conclude c x).admitQueued := he ▸ step_report hp hc hs hx
  have hended : (p.step e).AllEnded c.id := hstep ▸ (allEnded_conclude p c x).admitQueued
  have hids := ids_prefix_step p e
  rw [hstep] at hn hended hids ⊢
  have hd := deeds_admitQueued (p.conclude c x)
  refine ⟨?_, ?_⟩
  · have hacc : Accounted (p.conclude c x) := by
      refine Moves.accounted (.single (move_conclude x hmem (by rw [hs]; rfl))) hp ?_
      exact Nat.le_trans hd.moves.nextId_le hn
    have hafter := Deeds.said_after (P := fun _ => True)
      (hd.mono fun _ h => ⟨trivial, Deed.isOutcome_of_admission h⟩) hacc hn c.id
    refine (hafter.resolve_right ?_).trans ((hushed_conclude p c x).said c.id)
    -- what has ended does not run
    rintro ⟨c', hc', hs'⟩
    have ht := hended c' (pipeline?_eq_some hc').1 (pipeline?_eq_some hc').2
    rw [hs'] at ht
    cases ht
  · obtain ⟨c', hc', hid⟩ := List.mem_map.1 (hids.subset (List.mem_map_of_mem hmem))
    exact ⟨c', hc', hid, hended c' hc' hid⟩

end Silence

/-! ## Runs -/

section Runs

variable {start : Pool} {c : Pipeline} {i : PipelineId}

theorem Addressed.run (h : Addressed start) (hp : Accounted start) (ha : Attached start)
    (hh : Housed start) (events : List Event)
    (hl : ∀ before after, events = before ++ after → Current (start.run before))
    (hn : (start.run events).nextId ≤ UInt64.size) : Addressed (start.run events) := by
  induction events using List.reverseRecOn with
  | nil => exact h
  | append_singleton events e ih =>
    have hn' : (start.run events).nextId ≤ UInt64.size := by
      rw [run_append] at hn
      exact Nat.le_trans (stepMoves_step _ e).nextId_le hn
    rw [run_append] at hn ⊢
    refine (ih (fun before after hsplit => hl before (after ++ [e]) ?_) hn').step
      (hp.run events hn') (ha.run events) (hh.run ha hp events hn') (hl events [e] rfl) hn
    rw [hsplit, List.append_assoc]

/-- **Nothing is said to a pipeline that never runs.** -/
theorem said_of_never_runs (hp : Accounted start) (events : List Event)
    (hn : (start.run events).nextId ≤ UInt64.size)
    (hr : ∀ before after, events = before ++ after → ¬ (start.run before).Runs i) :
    (start.run events).said i = start.said i := by
  induction events using List.reverseRecOn with
  | nil => rfl
  | append_singleton events e ih =>
    have hlast := hr (events ++ [e]) [] (List.append_nil _).symm
    rw [run_append] at hn hlast ⊢
    have hn' := Nat.le_trans (stepMoves_step (start.run events) e).nextId_le hn
    refine ((said_step (hp.run events hn') hn i).resolve_right ?_).trans (ih hn' ?_)
    · exact not_or.2 ⟨hr events [e] rfl, hlast⟩
    · intro before after hsplit
      refine hr before (after ++ [e]) ?_
      rw [hsplit, List.append_assoc]

/-- **Nothing more is said to a pipeline that has ended.** -/
theorem said_of_ended (hp : Accounted start) (events : List Event)
    (hn : (start.run events).nextId ≤ UInt64.size) (hc : c ∈ start.pipelines)
    (ht : c.state.isTerminal = true) : (start.run events).said c.id = start.said c.id := by
  induction events generalizing start c with
  | nil => rfl
  | cons e events ih =>
    have hn' : (start.step e).nextId ≤ UInt64.size := Nat.le_trans (nextId_le_run _ events) hn
    have hid := (ids_prefix_step start e).subset (List.mem_map_of_mem hc)
    obtain ⟨c', hc', hid⟩ := List.mem_map.1 hid
    have hs := (rests_step hp hn' hc ht hc' hid).1
    have hrest := ih ((stepMoves_step start e).accounted hp hn') hn hc' (hs ▸ ht)
    rw [hid] at hrest
    exact hrest.trans (said_step_of_ended hp hn' hc ht)

/-- **A pipeline whose end the host has reported is never asked to stop.** -/
theorem not_said_of_report {payload : Payload} {x : Ending} (h : Addressed start)
    (hp : Accounted start) (hr : start.Runs i) (hx : payload.ending = some x) (events : List Event)
    (hn : (start.run (.notice start.generation (.message (.toPipeline i payload)) ::
      events)).nextId ≤ UInt64.size) (g : Nat) :
    (g, Payload.stopPipeline) ∉ (start.run (.notice start.generation
      (.message (.toPipeline i payload)) :: events)).said i := by
  generalize he : Event.notice start.generation (.message (.toPipeline i payload)) = e at hn ⊢
  have hn' : (start.step e).nextId ≤ UInt64.size := Nat.le_trans (nextId_le_run _ events) hn
  obtain ⟨hsame, c, hc, hid, ht⟩ := said_step_of_report hp he.symm hn' hr hx
  have hrest := said_of_ended ((stepMoves_step start e).accounted hp hn') events hn hc ht
  rw [hid, hsame] at hrest
  obtain ⟨b, hb, hs⟩ := hr
  obtain ⟨hmem, rfl⟩ := pipeline?_eq_some hb
  rw [(h.heard b hmem).of_running hs] at hrest
  change _ ∉ ((start.step e).run events).said b.id
  rw [hrest]
  simp

end Runs

end Pool

end Runspace
