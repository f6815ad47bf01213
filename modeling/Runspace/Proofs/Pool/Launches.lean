import Runspace.Proofs.Pool.Requests

/-!
# Launches — the moment at which the host is asked to run a pipeline

What a step makes known is in order, and the host is asked to run a pipeline by one deed only. So
wherever the outbox says that it was asked, there is the pool as it was just then, within the step:
the deeds before led to it, and what it had made known by then is all that stands before.

* `Does.asked`, **`Deeds.asked`**, `asked_of_course`: the deed that asks, and the pool before it;
* `Pool.Launches`, **`launches_of_step`**: the pool within a step that launches a pipeline.
-/

namespace Runspace

/-- The effect that asks the host on the channel of a generation to run a pipeline. -/
def Effect.ask (generation : Nat) (id : PipelineId) (commands : List Command) : Effect :=
  .queued generation (.toPipeline id (.createPipeline commands))

/-- An entry of two lists one after another stands in the first or in the second. -/
theorem cut_of_append {α : Type} {x : α} {as bs cs ds : List α} (h : as ++ bs = cs ++ x :: ds) :
    (∃ es, as = cs ++ x :: es ∧ ds = es ++ bs) ∨ ∃ es, cs = as ++ es ∧ bs = es ++ x :: ds := by
  rcases List.append_eq_append_iff.1 h with ⟨es, hcs, hbs⟩ | ⟨es, has, hds⟩
  · exact .inr ⟨es, hcs, hbs⟩
  · cases es with
    | nil =>
      rw [List.append_nil] at has
      exact .inr ⟨[], by rw [has, List.append_nil], hds.symm⟩
    | cons e es =>
      obtain ⟨rfl, hes⟩ := List.cons.inj hds
      exact .inl ⟨es, has, hes⟩

namespace Pool

section Asked

variable {P : Deed → Prop} {p p₁ p₂ q : Pool} {d : Deed} {g : Nat} {i : PipelineId}
  {commands : List Command} {before after : List Effect}

theorem Adds.not_ask {R : Effect → Prop} (h : Adds R p q) (hR : ¬ R (.ask g i commands)) :
    q.outbox ≠ p.outbox ++ (before ++ .ask g i commands :: after) := by
  obtain ⟨more, hm, hq⟩ := h
  intro hout
  rw [hm, List.append_cancel_left_eq] at hout
  exact hR (hq _ (hout ▸ by simp))

theorem Adds.not_mem (h : Discreet p q) (g : Nat) (i : PipelineId) (commands : List Command) :
    ∃ more, q.outbox = p.outbox ++ more ∧ Effect.ask g i commands ∉ more := by
  obtain ⟨more, hm, hq⟩ := h
  refine ⟨more, hm, fun hmem => ?_⟩
  have hnone := hq _ hmem i
  simp [Effect.ask, Effect.saidTo?, Message.toPipeline] at hnone

/-- Only a launch asks the host to run a pipeline, and it does nothing before, on a line that
accepts messages. -/
theorem Does.asked (h : Does p d q)
    (hout : q.outbox = p.outbox ++ (before ++ .ask g i commands :: after)) :
    d = .launch i ∧ before = [] ∧
      ∃ l, p.readyLine? = some l ∧ l.isAccepting = true ∧ l.generation = g := by
  by_cases hd : ∃ j, d = .launch j
  · obtain ⟨j, rfl⟩ := hd
    cases h with
    | @launch c l rest hc hs hm hl ha =>
      have hmore : [.ask l.generation c.id c.commands, .entered c.id] =
          before ++ .ask g i commands :: after := by
        simpa [change, modify, emit, Effect.ask] using hout
      cases before with
      | nil =>
        obtain ⟨heq, -⟩ := List.cons.inj hmore
        cases heq
        exact ⟨rfl, rfl, l, hl, ha, rfl⟩
      | cons e before =>
        -- all that is left then is the news of the launch
        have hmem : Effect.ask g i commands ∈ [Effect.entered c.id] := by
          rw [(List.cons.inj hmore).2]
          simp
        cases List.mem_singleton.1 hmem
  · have hadds : Adds (· ≠ .ask g i commands) p q := by
      refine h.adds (fun e he => ?_) (fun j _ _ hj => absurd ⟨j, hj⟩ hd) fun j l _ => ?_
      · rintro rfl
        cases he
      · simp [Effect.ask, Message.toPipeline]
    exact absurd hout (hadds.not_ask fun hne => hne rfl)

/-- **Where the host is asked to run a pipeline, there is the deed that launches it.** -/
theorem Deeds.asked (h : Deeds P p q)
    (hout : q.outbox = p.outbox ++ (before ++ .ask g i commands :: after)) :
    ∃ r r', Deeds P p r ∧ P (.launch i) ∧ Does r (.launch i) r' ∧ Deeds P r' q ∧
      r.outbox = p.outbox ++ before ∧
      ∃ l, r.readyLine? = some l ∧ l.isAccepting = true ∧ l.generation = g := by
  induction h generalizing after with
  | refl => simp at hout
  | @tail s q hs h ih =>
    obtain ⟨d, hd, h⟩ := h
    obtain ⟨told, htold, -⟩ := Deeds.speaks hs
    obtain ⟨more, hmore, -⟩ := h.speaks
    have hall : told ++ more = before ++ .ask g i commands :: after := by
      rw [hmore, htold, List.append_assoc, List.append_cancel_left_eq] at hout
      exact hout
    rcases cut_of_append hall with ⟨es, hes, -⟩ | ⟨es, rfl, hes⟩
    · obtain ⟨r, r', hr, hP, hl, hr', hrest⟩ := ih (hes ▸ htold)
      exact ⟨r, r', hr, hP, hl, hr'.tail ⟨d, hd, h⟩, hrest⟩
    · -- it is the last deed that asks
      obtain ⟨rfl, rfl, hline⟩ := h.asked (hes ▸ hmore)
      exact ⟨s, q, hs, hd, h, .refl, by rw [htold, List.append_nil], hline⟩

theorem asked_of_course (hp : Prelude p p₁) (hd : Deeds P p₁ p₂) (hq : Coda p₂ q)
    (hout : q.outbox = p.outbox ++ (before ++ .ask g i commands :: after)) :
    ∃ r r', Deeds P p₁ r ∧ P (.launch i) ∧ Does r (.launch i) r' ∧ Deeds P r' p₂ ∧
      r.outbox = p.outbox ++ before ∧
      ∃ l, r.readyLine? = some l ∧ l.isAccepting = true ∧ l.generation = g := by
  obtain ⟨first, hfirst, hfirst'⟩ := hp.discreet.not_mem g i commands
  obtain ⟨told, htold, -⟩ := hd.speaks
  obtain ⟨last, hlast, hlast'⟩ := hq.discreet.not_mem g i commands
  have hall : first ++ (told ++ last) = before ++ .ask g i commands :: after := by
    rw [hlast, htold, hfirst] at hout
    simpa using hout
  obtain ⟨rest, rfl, hrest⟩ := (cut_of_append hall).resolve_left fun ⟨es, hes, _⟩ =>
    hfirst' (hes ▸ by simp)
  obtain ⟨es, hes, -⟩ := (cut_of_append hrest).resolve_right fun ⟨es, _, hes⟩ =>
    hlast' (hes ▸ by simp)
  obtain ⟨r, r', hr, hP, hl, hr', hout', hline⟩ := hd.asked (hes ▸ htold)
  exact ⟨r, r', hr, hP, hl, hr', by rw [hout', hfirst, List.append_assoc], hline⟩

end Asked

/-- The pool within a step that is about to launch a pipeline: deeds that fit the event have led to
it, and others follow the launch. -/
def Launches (p : Pool) (e : Event) (i : PipelineId) (r : Pool) : Prop :=
  ∃ p₁ r' p₂, Prelude p p₁ ∧ Deeds e.Fits p₁ r ∧ Does r (.launch i) r' ∧ Deeds e.Fits r' p₂ ∧
    Coda p₂ (p.step e)

/-- **Wherever a step asks the host to run a pipeline, there is the pool that launches it.** -/
theorem launches_of_step {p : Pool} {e : Event} {g : Nat} {i : PipelineId}
    {commands : List Command} {before after : List Effect}
    (hout : (p.step e).outbox = p.outbox ++ (before ++ .ask g i commands :: after)) :
    ∃ r, p.Launches e i r ∧ r.outbox = p.outbox ++ before ∧
      ∃ l, r.readyLine? = some l ∧ l.isAccepting = true ∧ l.generation = g := by
  obtain ⟨p₁, p₂, hp, hd, hq⟩ := stepCourse_step p e
  obtain ⟨r, r', hr, -, hl, hr', hrest⟩ := asked_of_course hp hd.deeds hq hout
  exact ⟨r, ⟨p₁, r', p₂, hp, hr, hl, hr', hq⟩, hrest⟩

end Pool

end Runspace
