import Runspace.Proofs.Pool.Launches

/-!
# Order — first invoked, first started

The queue is in the order in which invocations were accepted. A pipeline joins it at the end, in the
very call that accepts its invocation, and all that happens otherwise takes pipelines out. It is
started from the head, or at once if the queue is empty, so none that came before it waits then.

* `Pool.accepted?`, `Pool.invoked`: the pipelines whose invocations were accepted, in order;
* `Pool.Begun`: whether a pipeline was started or waits, or did; it stays so;
* `entries_of_step`: a step that accepts an invocation takes one pipeline in, at its end, and no
  other step takes any in;
* `Ordered`, **`Ordered.step`**: the queue is in the order of the accepted invocations;
* **`order_of_run`**: the queue after any events, and those that wait when a pipeline is launched.
-/

namespace Runspace

namespace Pool

/-! ## Invocations -/

/-- The pipeline whose invocation an event accepts, if it does, as its call says. -/
def accepted? (p : Pool) : Event → Option PipelineId
  | .beginInvoke id => (p.beginInvoke id).2.toOption.map fun _ => id
  | .submit commands => (p.submit commands).2.toOption
  | .submitBatched chain => (p.submitBatched chain).2.toOption.join
  | _ => none

/-- The pipelines whose invocations some events accept, in order. -/
def invoked (p : Pool) (events : List Event) : List PipelineId :=
  p.collect (fun p e => (p.accepted? e).toList) events

theorem invoked_append (p : Pool) (events : List Event) (e : Event) :
    p.invoked (events ++ [e]) = p.invoked events ++ ((p.run events).accepted? e).toList :=
  collect_append _ p events e

theorem Event.isEntry_of_fits {e : Event} {d : Deed} (he : e.isInvocation = false)
    (hd : e.Fits d) : d.isEntry = false := by
  cases d with
  | invoke | wait => cases he.symm.trans hd
  | _ => rfl

theorem Takes.fits {e : Event} {p q : Pool} {id : PipelineId} (h : p.Takes id q)
    (he : e.isInvocation = true) : Deeds e.Fits p q := by
  have hend : ∀ i, e.ending i = none := fun i => by cases e <;> first | rfl | cases he
  exact (h.deeds (fun _ => Event.fits_of_ending hend) fun _ => Event.fits_of_entry he).mono
    fun _ hd => hd.1

/-- **A step takes in at most the pipeline whose invocation it accepts,** and that at its end. -/
theorem entries_of_step (p : Pool) (e : Event) :
    (p.accepted? e = none ∧ ∃ p₁ p₂, Prelude p p₁ ∧
      Deeds (fun d => e.Fits d ∧ d.isEntry = false) p₁ p₂ ∧ Coda p₂ (p.step e)) ∨
    e.isInvocation = true ∧ ∃ id q, p.accepted? e = some id ∧
      Deeds (fun d => e.Fits d ∧ d.isEntry = false) p q ∧ q.Takes id (p.step e) := by
  cases he : e.isInvocation with
  | false =>
    refine .inl ⟨?_, ?_⟩
    · cases e <;> first | rfl | cases he
    · obtain ⟨p₁, p₂, hp, hd, hq⟩ := stepCourse_step p e
      exact ⟨p₁, p₂, hp, hd.deeds.mono fun d hd => ⟨hd, Event.isEntry_of_fits he hd⟩, hq⟩
  | true =>
    have hP : (∀ id, e.ending id = none) → ∀ d, d.isOutcome = false → d.isEntry = false →
        e.Fits d ∧ d.isEntry = false := fun hend d hd hin =>
      ⟨Event.fits_of_ending hend hd hin, hin⟩
    have hdone : ∀ q, Deeds (fun d => (e.Fits d ∧ d.isEntry = false) ∧ d.isOutcome = false) p q →
        Deeds (fun d => e.Fits d ∧ d.isEntry = false) p q := fun q hq => hq.mono fun _ hd => hd.1
    have hrefused : ∀ q, Deeds (fun d => (e.Fits d ∧ d.isEntry = false) ∧ d.isOutcome = false) p q →
        p.step e = q → ∃ p₁ p₂, Prelude p p₁ ∧
          Deeds (fun d => e.Fits d ∧ d.isEntry = false) p₁ p₂ ∧ Coda p₂ (p.step e) :=
      fun q hq hs => ⟨p, q, .refl p, hdone q hq, hs ▸ .refl q⟩
    cases e with
    | beginInvoke id =>
      rcases takes_beginInvoke p id with ⟨f, h⟩ | ⟨q, h, htakes⟩
      · exact .inl ⟨by rw [accepted?, h]; rfl, hrefused p .refl (congrArg Prod.fst h)⟩
      · refine .inr ⟨rfl, id, p, by rw [accepted?, h]; rfl, .refl, ?_⟩
        rwa [step, h]
    | submit commands =>
      obtain ⟨q, hq, ⟨f, h⟩ | ⟨id, r, h, htakes⟩⟩ := takes_submit (hP fun _ => rfl) p commands
      · exact .inl ⟨by rw [accepted?, h]; rfl, hrefused q hq (congrArg Prod.fst h)⟩
      · refine .inr ⟨rfl, id, q, by rw [accepted?, h]; rfl, hdone q hq, ?_⟩
        rwa [step, h]
    | submitBatched chain =>
      obtain ⟨q, hq, ⟨a, h, ha⟩ | ⟨id, r, h, htakes⟩⟩ :=
        takes_submitBatched (hP fun _ => rfl) p chain
      · exact .inl ⟨by rw [accepted?, h]; exact ha, hrefused q hq (congrArg Prod.fst h)⟩
      · refine .inr ⟨rfl, id, q, by rw [accepted?, h]; rfl, hdone q hq, ?_⟩
        rwa [step, h]
    | _ => cases he

/-! ## Pipelines that have begun -/

/-- A pipeline was started or waits, or did. -/
def Begun (p : Pool) (id : PipelineId) : Prop :=
  ∃ c ∈ p.pipelines, c.id = id ∧ c.state ≠ .notStarted

section Begun

variable {P : Deed → Prop} {p q : Pool} {d : Deed} {id i : PipelineId}

theorem Begun.congr (h : p.Begun i) (hw : SameWork p q) : q.Begun i := by
  rwa [Begun, hw.pipelines]

theorem state_apply_ne (d : Deed) {c : Pipeline} (h : c.state ≠ .notStarted) :
    (d.apply c).state ≠ .notStarted := by
  intro hs
  cases d with
  | wait | launch | refuse | halt => cases hs
  | record id k v =>
    rw [Deed.apply, Pipeline.state_push] at hs
    exact h hs
  | conclude id x => cases x <;> cases hs
  | _ => exact h hs

theorem Does.begun (h : Does p d q) (hi : p.Begun i) : q.Begun i := by
  obtain ⟨c, hc, rfl, hs⟩ := hi
  refine ⟨if d.subject = some c.id then d.apply c else c, ?_, ?_, ?_⟩
  · rw [h.pipelines]
    exact List.mem_append_left _ (List.mem_map_of_mem hc)
  · split
    · exact d.id_apply c
    · rfl
  · split
    · exact state_apply_ne d hs
    · exact hs

theorem Deeds.begun (h : Deeds P p q) (hi : p.Begun i) : q.Begun i :=
  h.keeps hi fun _ _ _ _ h hr => h.begun hr

/-- A deed that gives its pipeline another state begins it. -/
theorem Does.begins (h : Does p d q) (hd : d.subject = some i)
    (hs : ∀ c, (d.apply c).state ≠ .notStarted) (hsuits : d.suits .completed = false) :
    q.Begun i := by
  rcases h.suits hd with ⟨c, hc, rfl, -⟩ | hall
  · refine ⟨d.apply c, ?_, d.id_apply c, hs c⟩
    rw [h.pipelines]
    exact List.mem_append_left _ (List.mem_map.2 ⟨c, hc, if_pos hd⟩)
  · cases hsuits.symm.trans (hall _)

theorem Takes.begun (h : p.Takes id q) (hp : Accounted p) : ¬ p.Begun id ∧ q.Begun id := by
  obtain ⟨r, hinvoke, hstart⟩ := h
  constructor
  · cases hinvoke with
    | invoke hc hs ho =>
      rintro ⟨b, hb, hid, hne⟩
      rw [hp.eq_of_id_eq hb (registered?_eq_some hc).1 hid] at hne
      exact hne hs
  · rcases hstart with h | h | h
    · exact h.begins rfl (fun c => nofun) rfl
    · exact h.begins rfl (fun c => nofun) rfl
    · exact h.begins rfl (fun c => nofun) rfl

/-! ## The queue -/

theorem queue_conclude_sublist (p : Pool) (c : Pipeline) (x : Ending) :
    (p.conclude c x).queue.Sublist p.queue := by
  unfold conclude release
  split
  · exact List.Sublist.refl _
  · exact List.filter_sublist
  · exact List.Sublist.refl _

theorem queue_warn (p : Pool) (c : Pipeline) : (p.warn c).queue = p.queue := by
  unfold warn
  split
  · exact (sameAccounts_trySend p _).queue
  · rfl

theorem Does.queue_sublist (h : Does p d q) (hd : d.isEntry = false) :
    q.queue.Sublist p.queue := by
  cases h with
  | wait => cases hd
  | launch hc hs hm hl ha =>
    rcases hs with ⟨-, hq, rfl⟩ | ⟨-, hq⟩
    · exact List.nil_sublist _
    · rw [hq]
      exact List.sublist_cons_self _ _
  | refuse hc hs hm hl =>
    refine List.filter_sublist.trans ?_
    rcases hs with ⟨-, hq, rfl⟩ | ⟨-, hq⟩
    · exact List.nil_sublist _
    · rw [hq]
      exact List.sublist_cons_self _ _
  | skip hq hm h =>
    rw [hq]
    exact List.sublist_cons_self _ _
  | conclude x hc hs => exact queue_conclude_sublist p _ x
  | @halt c hc hs =>
    rw [← queue_warn p c]
    exact queue_conclude_sublist _ c .stopped
  | _ => exact List.Sublist.refl _

theorem Deeds.queue_sublist (h : Deeds (fun d => P d ∧ d.isEntry = false) p q) :
    q.queue.Sublist p.queue :=
  h.keeps (I := fun r => r.queue.Sublist p.queue) (List.Sublist.refl _)
    fun _ _ _ hd h hr => (h.queue_sublist hd.2).trans hr

/-- A pipeline that is taken in stands at the end of the queue, if it is there at all. -/
theorem Takes.queue_sublist (h : p.Takes id q) : q.queue.Sublist (p.queue ++ [id]) := by
  obtain ⟨r, hinvoke, hstart⟩ := h
  have hr : r.queue = p.queue := by cases hinvoke; rfl
  rw [← hr]
  rcases hstart with h | h | h
  · exact (h.queue_sublist rfl).trans (List.sublist_append_left _ _)
  · exact (h.queue_sublist rfl).trans (List.sublist_append_left _ _)
  · cases h
    exact List.Sublist.refl _

end Begun

/-- The queue of a pool is in the order of some pipelines, which have all begun. -/
structure Ordered (p : Pool) (order : List PipelineId) : Prop where
  nodup : order.Nodup
  begun : ∀ i ∈ order, p.Begun i
  queue : p.queue.Sublist order

section Ordered

variable {p : Pool} {e : Event} {order : List PipelineId}

/-- **A step keeps the queue in order.** -/
theorem Ordered.step (h : Ordered p order) (hp : Accounted p)
    (hn : (p.step e).nextId ≤ UInt64.size) :
    Ordered (p.step e) (order ++ (p.accepted? e).toList) := by
  rcases entries_of_step p e with ⟨hnone, p₁, p₂, hp₁, hd, hq⟩ | ⟨he, id, q, hsome, hd, htakes⟩
  · rw [hnone, Option.toList_none, List.append_nil]
    refine ⟨h.nodup, fun i hi => ?_, ?_⟩
    · exact (hd.begun ((h.begun i hi).congr hp₁.toSameWork)).congr hq.toSameWork
    · rw [hq.queue]
      refine hd.queue_sublist.trans ?_
      rw [hp₁.queue]
      exact h.queue
  · have htaken := htakes.fits he
    have hq : Accounted q :=
      (Deeds.moves hd).accounted hp (Nat.le_trans htaken.moves.nextId_le hn)
    obtain ⟨hnew, hbegun⟩ := htakes.begun hq
    have hall : ∀ i ∈ order, q.Begun i := fun i hi => hd.begun (h.begun i hi)
    rw [hsome, Option.toList_some]
    refine ⟨?_, fun i hi => ?_, ?_⟩
    · refine List.nodup_append.2 ⟨h.nodup, by simp, fun i hi j hj hij => hnew ?_⟩
      rw [← List.mem_singleton.1 hj, ← hij]
      exact hall i hi
    · rcases List.mem_append.1 hi with hi | hi
      · exact htaken.begun (hall i hi)
      · rw [List.mem_singleton.1 hi]
        exact hbegun
    · exact htakes.queue_sublist.trans
        ((hd.queue_sublist.trans h.queue).append (List.Sublist.refl _))

theorem ordered_new (id : PoolId) (options : PoolOptions) : Ordered (new id options) [] :=
  ⟨.nil, nofun, List.Sublist.refl _⟩

theorem ordered_run {start : Pool} (hs : Ordered start []) (hp : Accounted start)
    (events : List Event) (hn : (start.run events).nextId ≤ UInt64.size) :
    Ordered (start.run events) (start.invoked events) := by
  induction events using List.reverseRecOn with
  | nil => exact hs
  | append_singleton events e ih =>
    rw [run_append] at hn ⊢
    have hn' := Nat.le_trans (stepMoves_step _ e).nextId_le hn
    rw [invoked_append]
    exact (ih hn').step (hp.run events hn') hn

end Ordered

/-! ## Launches -/

section Launches

variable {p q r : Pool} {e : Event} {g : Nat} {i j id : PipelineId} {commands : List Command}
  {before after : List Effect} {order : List PipelineId}

/-- A pipeline that is taken in is the one that is launched, if any. -/
theorem Takes.asked (h : p.Takes id q)
    (hout : q.outbox = p.outbox ++ (before ++ .ask g i commands :: after)) :
    i = id ∧ before = [] ∧ ∃ r, Does p (.invoke id) r ∧ Does r (.launch i) q ∧
      r.outbox = p.outbox ∧ r.queue = p.queue := by
  obtain ⟨r, hinvoke, hstart⟩ := h
  have hr : r.outbox = p.outbox ∧ r.queue = p.queue := by cases hinvoke; exact ⟨rfl, rfl⟩
  rw [← hr.1] at hout
  rcases hstart with h | h | h
  all_goals obtain ⟨hd, hbefore, -⟩ := h.asked hout; cases hd
  exact ⟨rfl, hbefore, r, hinvoke, h, hr⟩

/-- Wherever a step asks the host to run a pipeline, the pool that launches it has taken none in
by then. -/
theorem queue_of_launch
    (hout : (p.step e).outbox = p.outbox ++ (before ++ .ask g i commands :: after)) :
    ∃ r, p.Launches e i r ∧ r.outbox = p.outbox ++ before ∧ r.queue.Sublist p.queue := by
  rcases entries_of_step p e with ⟨-, p₁, p₂, hp, hd, hq⟩ | ⟨he, id, q, -, hd, htakes⟩
  · obtain ⟨r, r', hr, -, hl, hr', hout', -⟩ := asked_of_course hp hd hq hout
    refine ⟨r, ⟨p₁, r', p₂, hp, hr.mono fun _ hd => hd.1, hl, hr'.mono fun _ hd => hd.1, hq⟩,
      hout', ?_⟩
    rw [← hp.queue]
    exact hr.queue_sublist
  · obtain ⟨told, htold, -⟩ := hd.speaks
    have htaken := htakes.fits he
    obtain ⟨more, hmore, -⟩ := htaken.speaks
    have hall : told ++ more = before ++ .ask g i commands :: after := by
      rw [hmore, htold, List.append_assoc, List.append_cancel_left_eq] at hout
      exact hout
    have hfits : Deeds e.Fits p q := hd.mono fun _ hd => hd.1
    rcases cut_of_append hall with ⟨es, hes, -⟩ | ⟨es, rfl, hes⟩
    · obtain ⟨r, r', hr, -, hl, hr', hout', -⟩ := hd.asked (hes ▸ htold)
      have hrest : Deeds e.Fits r' (p.step e) := (hr'.mono fun _ hd => hd.1).trans htaken
      exact ⟨r, ⟨p, r', p.step e, .refl p, hr.mono fun _ hd => hd.1, hl, hrest, .refl _⟩, hout',
        hr.queue_sublist⟩
    · obtain ⟨rfl, rfl, r, hinvoke, hl, hrout, hrqueue⟩ := htakes.asked (hes ▸ hmore)
      refine ⟨r, ⟨p, p.step e, p.step e, .refl p, hfits.tail ⟨.invoke _, he, hinvoke⟩, hl,
        .refl, .refl _⟩, ?_, ?_⟩
      · rw [hrout, htold, List.append_nil]
      · rw [hrqueue]
        exact hd.queue_sublist

theorem Launches.accounted (h : p.Launches e i r) (hp : Accounted p)
    (hn : (p.step e).nextId ≤ UInt64.size) : Accounted r := by
  obtain ⟨p₁, r', p₂, hp₁, hr, hl, hr', hq⟩ := h
  have hle : r.nextId ≤ p₂.nextId :=
    Nat.le_trans hl.moves.nextId_le (Deeds.moves hr').nextId_le
  exact (Deeds.moves hr).accounted (hp.of_sameWork hp₁.toSameWork)
    (Nat.le_trans hle (hq.nextId ▸ hn))

theorem not_sublist_swap {α : Type} {a b : α} {l : List α} (hl : l.Nodup)
    (h : [a, b].Sublist l) : ¬ [b, a].Sublist l := by
  induction l with
  | nil => cases h
  | cons c l ih =>
    obtain ⟨hc, hl⟩ := List.nodup_cons.1 hl
    intro h'
    cases h with
    | cons _ h =>
      cases h' with
      | cons _ h' => exact ih hl h h'
      | cons_cons _ h' => exact hc (h.subset (by simp))
    | cons_cons _ h =>
      cases h' with
      | cons _ h' => exact hc (h'.subset (by simp))
      | cons_cons _ h' => exact hc (h'.subset (by simp))

/-- **A pipeline that is launched overtakes none.** -/
theorem Does.not_queued_of_launch (h : Does r (.launch i) q) (hr : Accounted r)
    (hq : r.queue.Sublist order) (ho : order.Nodup) (hj : [j, i].Sublist order) :
    r.stateOf? j ≠ some .queued := by
  intro hs
  have hmem : j ∈ r.queue := hr.mem_queue_iff.2 hs
  have hne : j ≠ i := by simpa using ho.sublist hj
  cases h with
  | launch _ hs' =>
    rcases hs' with ⟨-, hq', -⟩ | ⟨-, hq'⟩
    · rw [hq'] at hmem
      cases hmem
    · -- it would wait behind the head of the queue
      rw [hq'] at hmem hq
      have hrest := (List.mem_cons.1 hmem).resolve_left hne
      exact not_sublist_swap ho hj (((List.singleton_sublist.2 hrest).cons_cons _).trans hq)

end Launches

/-- **Pipelines are started in the order in which their invocations were accepted,** after any
events, as long as there were numbers for the pipelines.

Each invocation was accepted once, and the queue lists the pipelines that wait in that order.
Whenever a step asks the host to run a pipeline, no pipeline with an earlier invocation waits in the
pool that launches it, which is the pool after all that the step has made known by then. -/
theorem order_of_run (id : PoolId) (options : PoolOptions) (events : List Event)
    (hn : ((new id options).run events).nextId ≤ UInt64.size) :
    let start := new id options
    (start.invoked events).Nodup ∧ (start.run events).queue.Sublist (start.invoked events) ∧
    ∀ before e after, events = before ++ e :: after →
      ∀ told g i commands rest, ((start.run before).step e).outbox =
        (start.run before).outbox ++ (told ++ .ask g i commands :: rest) →
      ∃ r, (start.run before).Launches e i r ∧ r.outbox = (start.run before).outbox ++ told ∧
        ∀ j, [j, i].Sublist (start.invoked (before ++ [e])) → r.stateOf? j ≠ some .queued := by
  intro start
  have hacc : Accounted start := accounted_new id options
  have hordered : ∀ es, (start.run es).nextId ≤ UInt64.size →
      Ordered (start.run es) (start.invoked es) := ordered_run (ordered_new id options) hacc
  have h := hordered events hn
  refine ⟨h.nodup, h.queue, ?_⟩
  rintro before e after rfl told g i commands rest hout
  have hn' : ((start.run before).step e).nextId ≤ UInt64.size := by
    refine Nat.le_trans (nextId_le_run _ after) ?_
    rw [← run_append, run_run, List.append_assoc]
    exact hn
  have hnb := Nat.le_trans (stepMoves_step (start.run before) e).nextId_le hn'
  obtain ⟨r, hr, hrout, hqueue⟩ := queue_of_launch hout
  have hafter := hordered (before ++ [e]) (by rwa [run_append])
  have hsub : r.queue.Sublist (start.invoked (before ++ [e])) := by
    rw [invoked_append]
    exact (hqueue.trans (hordered before hnb).queue).trans (List.sublist_append_left _ _)
  have haccr := hr.accounted (hacc.run before hnb) hn'
  have ⟨_, r', _, _, _, hl, _⟩ := hr
  exact ⟨r, hr, hrout, fun j hj => hl.not_queued_of_launch haccr hsub hafter.nodup hj⟩

/-- A pool for one pipeline, given three of them, of which the second is stopped while it waits and
the first runs to its end, so that the third is launched. -/
theorem order_of_run_third :
    let start := new (.ofDraw 0) { maxRunspaces := 1 }
    let before : List Event := [.beginOpen, .connected .opening,
      .notice 1 (.message (.toPool (.poolState .opened none))), .submit [⟨"Get-Item", []⟩],
      .submit [⟨"Get-Item", []⟩], .submit [⟨"Get-Date", []⟩], .stop ⟨2, by decide⟩]
    let e : Event :=
      .notice 1 (.message (.toPipeline ⟨1, by decide⟩ (.pipelineState .completed none)))
    let third : PipelineId := ⟨3, by decide⟩
    (start.run (before ++ [e])).nextId = 4 ∧ (start.run before).queue = [third] ∧
    ∃ r, (start.run before).Launches e third r ∧
      ∀ j, [j, third].Sublist (start.invoked (before ++ [e])) → r.stateOf? j ≠ some .queued := by
  intro start before e third
  have hn : (start.run (before ++ [e])).nextId = 4 := by decide
  have hqueue : (start.run before).queue = [third] := by decide
  obtain ⟨-, -, hlaunch⟩ := order_of_run (.ofDraw 0) { maxRunspaces := 1 } (before ++ [e])
    (by rw [hn]; decide)
  have hout : ((start.run before).step e).outbox = (start.run before).outbox ++
      ([.entered ⟨1, by decide⟩] ++ .ask 1 third [⟨"Get-Date", []⟩] :: [.entered third]) := by cbv
  obtain ⟨r, hr, -, hj⟩ := hlaunch before e [] rfl _ _ _ _ _ hout
  exact ⟨hn, hqueue, r, hr, hj⟩

end Pool

end Runspace
