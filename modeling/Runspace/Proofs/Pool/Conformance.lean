import Runspace.Proofs.Pool.Requests

/-!
# Conformance — the order of what a pool says

On each of its channels a pool greets the host once, says requests once the host has answered there,
and takes leave at most once, at the end. Of a pipeline it speaks on one channel only, where it asks
the host to run it and may later ask it to stop it, unless the host has reported its end by then.

* `Greeting`, `Greeted`, `Answered`, `Spoken`: what may have been said on a channel;
* `Conversing`, **`Conversing.run`**: that it was, on all channels;
* **`conformance_of_run`**: what was said on all channels and to all pipelines after any events.
-/

namespace Runspace

namespace Pool

/-! ## Channels -/

section Channels

variable {start : Pool} {events : List Event} {e : Event} {g : Nat} {m : Message}

/-- The words in which an attempt greets the host: to open, it asks for a pool with the bounds that
the pool was made with, and to reconnect, for the one that is there. -/
inductive Greeting (start : Pool) : Attempt → Message → Prop where
  | opening : Greeting start .opening (.toPool (.initPool start.id
      (UInt32.ofNat start.options.minRunspaces) (UInt32.ofNat start.options.maxRunspaces)))
  | reconnecting : Greeting start .reconnecting (.toPool (.connectPool start.id))

/-- A channel was started by the end of an attempt's connecting, and the host was greeted on it with
a message. -/
def Greeted (start : Pool) (events : List Event) (g : Nat) (m : Message) : Prop :=
  ∃ before a after, events = before ++ .connected a :: after ∧ Greeting start a m ∧
    Effect.started g ∉ (start.run before).outbox ∧ (start.run before).sentOn g = [] ∧
    Effect.started g ∈ ((start.run before).step (.connected a)).outbox ∧
    ((start.run before).step (.connected a)).sentOn g = [m]

/-- The host has answered on a channel, on which nothing but a greeting was said by then. -/
def Answered (start : Pool) (events : List Event) (g : Nat) (m : Message) : Prop :=
  ∃ before reason after,
    events = before ++ .notice g (.message (.toPool (.poolState .opened reason))) :: after ∧
    (start.run before).generation = g ∧ (start.run before).handshake.isSome = true ∧
    (start.run before).sentOn g = [m]

/-- What may have been said on a channel: a greeting, and once the host has answered requests and a
farewell. -/
inductive Spoken (start : Pool) (events : List Event) (g : Nat) : List Message → Prop where
  | greeted {m : Message} (hg : Greeted start events g m) : Spoken start events g [m]
  | answered {m : Message} {body last : List Message} (hg : Greeted start events g m)
    (ha : Answered start events g m) (hb : ∀ m ∈ body, m.isRequest = true)
    (hl : last = [] ∨ last = [.toPool .closePool]) :
    Spoken start events g (m :: (body ++ last))

theorem greeting_hello (before : List Event) (a : Attempt) :
    Greeting start a (.toPool ((start.run before).hello a)) := by
  cases a with
  | opening =>
    rw [hello, id_run, options_run]
    exact .opening
  | reconnecting =>
    rw [hello, id_run]
    exact .reconnecting

theorem Greeted.append (h : Greeted start events g m) (e : Event) :
    Greeted start (events ++ [e]) g m := by
  obtain ⟨before, a, after, rfl, hrest⟩ := h
  exact ⟨before, a, after ++ [e], by simp, hrest⟩

theorem Answered.append (h : Answered start events g m) (e : Event) :
    Answered start (events ++ [e]) g m := by
  obtain ⟨before, reason, after, rfl, hrest⟩ := h
  exact ⟨before, reason, after ++ [e], by simp, hrest⟩

theorem Spoken.append {ms : List Message} (h : Spoken start events g ms) (e : Event) :
    Spoken start (events ++ [e]) g ms := by
  cases h with
  | greeted hg => exact .greeted (hg.append e)
  | answered hg ha hb hl => exact .answered (hg.append e) (ha.append e) hb hl

/-- What was said on the line: a greeting, and requests if the host has answered. -/
def OnLine (start : Pool) (events : List Event) (p : Pool) (l : Line) : Prop :=
  ∃ m, Greeted start events l.generation m ∧
    if l.isReady then Answered start events l.generation m ∧
      ∃ body, p.sentOn l.generation = m :: body ∧ ∀ m ∈ body, m.isRequest = true
    else p.sentOn l.generation = [m]

/-- What holds of the channels of a pool after some events. -/
structure Conversing (start : Pool) (events : List Event) (p : Pool) : Prop where
  started_le : ∀ g, Effect.started g ∈ p.outbox → g ≤ p.generation
  silent : ∀ g, Effect.started g ∉ p.outbox → p.sentOn g = []
  spoken : ∀ g, Effect.started g ∈ p.outbox → Spoken start events g (p.sentOn g)
  line : ∀ l, p.line = some l → l.generation = p.generation ∧
    Effect.started l.generation ∈ p.outbox ∧ OnLine start events p l

section Conversing

variable {p q r : Pool} {l l' : Line} {ms : List Message}

theorem OnLine.append (h : OnLine start events p l) (e : Event) :
    OnLine start (events ++ [e]) p l := by
  obtain ⟨m, hg, hm⟩ := h
  refine ⟨m, hg.append e, ?_⟩
  split at hm
  · next hr =>
    rw [if_pos hr]
    exact ⟨hm.1.append e, hm.2⟩
  · next hr =>
    rw [if_neg hr]
    exact hm

theorem Conversing.append (h : Conversing start events p) (e : Event) :
    Conversing start (events ++ [e]) p where
  started_le := h.started_le
  silent := h.silent
  spoken g hg := (h.spoken g hg).append e
  line l hl := ⟨(h.line l hl).1, (h.line l hl).2.1, (h.line l hl).2.2.append e⟩

theorem OnLine.spoken (h : OnLine start events p l) (hr : l.isReady = true)
    (hms : ∀ m ∈ ms, m.isRequest = true) {last : List Message}
    (hl : last = [] ∨ last = [.toPool .closePool]) :
    Spoken start events l.generation (p.sentOn l.generation ++ ms ++ last) := by
  obtain ⟨m, hg, hm⟩ := h
  rw [if_pos hr] at hm
  obtain ⟨ha, body, hsent, hbody⟩ := hm
  rw [hsent]
  refine .answered hg ha (fun m hm => ?_) hl
  rcases List.mem_append.1 hm with hm | hm
  · exact hbody m hm
  · exact hms m hm

theorem OnLine.speaks (h : OnLine start events p l) (hp : p.line = some l) (hs : Speaks p q)
    (hmark : l'.mark = l.mark) : OnLine start events q l' := by
  obtain ⟨hgen, hready⟩ := Prod.mk.inj hmark
  obtain ⟨ms, hms, hreq, hline⟩ := hs.sentOn l.generation
  obtain ⟨m, hg, hm⟩ := h
  refine ⟨m, hgen ▸ hg, ?_⟩
  rw [hready, hgen, hms]
  split at hm
  · next hr =>
    obtain ⟨ha, body, hsent, hbody⟩ := hm
    rw [if_pos hr, hsent]
    refine ⟨ha, body ++ ms, rfl, fun m hm => ?_⟩
    rcases List.mem_append.1 hm with hm | hm
    · exact hbody m hm
    · exact hreq m hm
  · next hr =>
    -- nothing is said on a line that is not ready
    have hnil : ms = [] := by
      by_contra hne
      obtain ⟨l₀, hl₀, -⟩ := hline hne
      obtain ⟨hp₀, hr₀⟩ := readyLine?_eq_some.1 hl₀
      cases hp.symm.trans hp₀
      exact hr hr₀
    rw [if_neg hr, hnil, List.append_nil]
    exact hm

theorem Conversing.silent_speaks (h : Conversing start events p) (hs : Speaks p q)
    (hg : Effect.started g ∉ p.outbox) : q.sentOn g = [] := by
  obtain ⟨ms, hms, -, hline⟩ := hs.sentOn g
  rw [hms, h.silent g hg, List.nil_append]
  by_contra hne
  obtain ⟨l, hl, rfl⟩ := hline hne
  exact hg (h.line l (readyLine?_eq_some.1 hl).1).2.1

theorem Conversing.spoken_speaks (h : Conversing start events p) (hs : Speaks p q)
    (hg : Effect.started g ∈ p.outbox) : Spoken start events g (q.sentOn g) := by
  obtain ⟨ms, hms, hreq, hline⟩ := hs.sentOn g
  rw [hms]
  by_cases hne : ms = []
  · rw [hne, List.append_nil]
    exact h.spoken g hg
  · obtain ⟨l, hl, rfl⟩ := hline hne
    obtain ⟨hl, hr⟩ := readyLine?_eq_some.1 hl
    have hspoken := (h.line l hl).2.2.spoken hr hreq (.inl rfl)
    rwa [List.append_nil] at hspoken

theorem Conversing.speaks (h : Conversing start events p) (hs : Speaks p q)
    (hg : q.generation = p.generation) (hl : q.line.map (·.mark) = p.line.map (·.mark)) :
    Conversing start events q where
  started_le g hg' := hg ▸ h.started_le g ((hs.started_iff g).1 hg')
  silent g hg' := h.silent_speaks hs (mt (hs.started_iff g).2 hg')
  spoken g hg' := h.spoken_speaks hs ((hs.started_iff g).1 hg')
  line l' hl' := by
    rw [hl', Option.map_some, eq_comm, Option.map_eq_some_iff] at hl
    obtain ⟨l, hp, hmark⟩ := hl
    obtain ⟨hgen, hstarted, honline⟩ := h.line l hp
    have hgen' : l'.generation = l.generation := (congrArg Prod.fst hmark).symm
    refine ⟨hgen'.trans (hgen.trans hg.symm), ?_, honline.speaks hp hs hmark.symm⟩
    rw [hgen', hs.started_iff]
    exact hstarted

/-- A host that answers makes the line ready. -/
theorem Conversing.answer (h : Conversing start events p)
    (hr : ∀ l, p.line = some l → l.isReady = false)
    (ha : ∀ l m, p.line = some l → p.sentOn l.generation = [m] →
      Answered start events l.generation m) :
    Conversing start events
      { p with line := p.line.map fun l => { l with isReady := true } } where
  started_le := h.started_le
  silent := h.silent
  spoken := h.spoken
  line l' hl' := by
    obtain ⟨l, hl, rfl⟩ := Option.map_eq_some_iff.1 hl'
    obtain ⟨hgen, hstarted, m, hg, hm⟩ := h.line l hl
    rw [if_neg (by simp [hr l hl])] at hm
    refine ⟨hgen, hstarted, m, hg, ?_⟩
    rw [if_pos rfl]
    exact ⟨ha l m hl hm, [], hm, by simp⟩

theorem sentOn_emit_queued (p : Pool) (g' g : Nat) (m : Message) :
    (p.emit (.queued g' m)).sentOn g = p.sentOn g ++ if g' = g then [m] else [] := by
  rw [sentOn, emit, List.filterMap_append]
  by_cases hg : g' = g <;> simp [sentOn, Effect.sentOn?, hg]

/-- The line may be given up after a farewell. -/
theorem Conversing.leave (h : Conversing start events p) (hr : Speaks p r)
    (hq : Hushed r q ∨ ∃ l, p.readyLine? = some l ∧
      Hushed (r.emit (.queued l.generation (.toPool .closePool))) q)
    (hg : p.generation ≤ q.generation) (hl : q.line = none) : Conversing start events q := by
  have hline : ∀ l, q.line = some l → l.generation = q.generation ∧
      Effect.started l.generation ∈ q.outbox ∧ OnLine start events q l := by
    intro l hl'
    cases hl.symm.trans hl'
  rcases hq with hq | ⟨l, hl, hq⟩
  · have hs : Speaks p q := hr.hushed hq
    exact {
      started_le := fun g hg' => Nat.le_trans (h.started_le g ((hs.started_iff g).1 hg')) hg
      silent := fun g hg' => h.silent_speaks hs (mt (hs.started_iff g).2 hg')
      spoken := fun g hg' => h.spoken_speaks hs ((hs.started_iff g).1 hg')
      line := hline }
  · obtain ⟨hl, hready⟩ := readyLine?_eq_some.1 hl
    have hstarted : ∀ g, Effect.started g ∈ q.outbox ↔ Effect.started g ∈ p.outbox := by
      intro g
      rw [hq.speaks.started_iff, ← hr.started_iff]
      simp [emit]
    have hsent : ∀ g, q.sentOn g =
        r.sentOn g ++ if l.generation = g then [.toPool .closePool] else [] := fun g =>
      (hq.sentOn g).trans (sentOn_emit_queued r _ g _)
    refine { started_le := fun g hg' => Nat.le_trans (h.started_le g ((hstarted g).1 hg')) hg
             silent := fun g hg' => ?_, spoken := fun g hg' => ?_, line := hline }
    · rw [hstarted] at hg'
      rw [hsent, h.silent_speaks hr hg', if_neg]
      · rfl
      · rintro rfl
        exact hg' (h.line l hl).2.1
    · rw [hsent]
      by_cases hlg : l.generation = g
      · subst hlg
        obtain ⟨ms, hms, hreq, -⟩ := hr.sentOn l.generation
        rw [if_pos rfl, hms]
        exact (h.line l hl).2.2.spoken hready hreq (.inr rfl)
      · rw [if_neg hlg, List.append_nil]
        exact h.spoken_speaks hr ((hstarted g).1 hg')

theorem Conversing.greet (h : Conversing start events p) {m : Message}
    (hout : q.outbox = p.outbox ++ [.started (p.generation + 1), .queued (p.generation + 1) m])
    (hg : q.generation = p.generation + 1) (hl : q.line = some { generation := p.generation + 1 })
    (hm : Greeted start events (p.generation + 1) m) : Conversing start events q := by
  have hnew : Effect.started (p.generation + 1) ∉ p.outbox := fun hs =>
    Nat.not_succ_le_self _ (h.started_le _ hs)
  have hstarted : ∀ g, Effect.started g ∈ q.outbox ↔
      Effect.started g ∈ p.outbox ∨ g = p.generation + 1 := by
    intro g
    simp [hout]
  have hsent : ∀ g, q.sentOn g = p.sentOn g ++ if p.generation + 1 = g then [m] else [] := by
    intro g
    rw [sentOn, hout, List.filterMap_append]
    by_cases hg : p.generation + 1 = g <;> simp [sentOn, Effect.sentOn?, hg]
  have hfirst : q.sentOn (p.generation + 1) = [m] := by
    rw [hsent, if_pos rfl, h.silent _ hnew]
    rfl
  refine { started_le := fun g hg' => ?_, silent := fun g hg' => ?_, spoken := fun g hg' => ?_,
           line := fun l hl' => ?_ }
  · rw [hg]
    rcases (hstarted g).1 hg' with hg' | rfl
    · exact Nat.le_succ_of_le (h.started_le g hg')
    · exact Nat.le_refl _
  · rw [hstarted, not_or] at hg'
    rw [hsent, h.silent g hg'.1, if_neg (Ne.symm hg'.2)]
    rfl
  · rcases (hstarted g).1 hg' with hg' | rfl
    · rw [hsent, if_neg, List.append_nil]
      · exact h.spoken g hg'
      · rintro rfl
        exact hnew hg'
    · rw [hfirst]
      exact .greeted hm
  · cases hl.symm.trans hl'
    refine ⟨hg.symm, (hstarted _).2 (.inr rfl), m, hm, ?_⟩
    rw [if_neg (by simp)]
    exact hfirst

end Conversing

/-- **A step keeps what is said on channels in order.** -/
theorem Conversing.step {p : Pool} (h : Conversing start events p) (hp : p = start.run events)
    (ha : Attached p) (e : Event) : Conversing start (events ++ [e]) (p.step e) := by
  have htalk := (turn_step p e).talk
  generalize hq : p.step e = q at htalk
  have hrun : start.run (events ++ [e]) = q := by rw [run_append, ← hp, hq]
  cases htalk with
  | converse hs hg hl => exact (h.append e).speaks hs hg hl
  | @greet a q hout hg hl =>
    have hnew : Effect.started (p.generation + 1) ∉ p.outbox := fun hs =>
      Nat.not_succ_le_self _ (h.started_le _ hs)
    refine (h.append _).greet hout hg hl ⟨events, a, [], rfl, hp ▸ greeting_hello events a, ?_⟩
    rw [← hp, hq]
    refine ⟨hnew, h.silent _ hnew, by simp [hout], ?_⟩
    rw [sentOn, hout, List.filterMap_append]
    have := h.silent _ hnew
    rw [sentOn] at this
    rw [this]
    simp [Effect.sentOn?]
  | @answer a reason q hh hs hg hl =>
    have hready : ∀ l, p.line = some l → l.isReady = false := by
      intro l hl
      rw [← Bool.not_eq_true]
      intro hr
      have hopened := ha.opened_iff.2 ⟨l, hl, hr⟩
      exact a.expected_ne_opened ((ha.handshake a hh).1.symm.trans hopened)
    refine ((h.append _).answer hready fun l m hl hm => ?_).speaks hs hg (by rw [hl])
    refine ⟨events, reason, [], ?_, ?_, ?_, ?_⟩
    · rw [(h.line l hl).1]
    · rw [← hp]
      exact (h.line l hl).1.symm
    · rw [← hp, hh]
      rfl
    · rw [← hp]
      exact hm
  | leave hr hq' hg hl => exact (h.append e).leave hr hq' hg hl

theorem Conversing.run (h : Conversing start [] start) (ha : Attached start)
    (events : List Event) : Conversing start events (start.run events) := by
  induction events using List.reverseRecOn with
  | nil => exact h
  | append_singleton events e ih =>
    rw [run_append]
    exact ih.step rfl (ha.run events) e

end Channels

/-! ## Runs -/

section Runs

variable {start : Pool} {i : PipelineId}

theorem conversing_new (id : PoolId) (options : PoolOptions) :
    Conversing (new id options) [] (new id options) where
  started_le g hg := by cases hg
  silent g _ := rfl
  spoken g hg := by cases hg
  line l hl := by cases hl

theorem addressed_new (id : PoolId) (options : PoolOptions) : Addressed (new id options) where
  heard c hc := by cases hc
  unmade i _ := rfl

theorem Addressed.said_eq {p : Pool} (h : Addressed p) (hp : Accounted p) (i : PipelineId) :
    p.said i = [] ∨ ∃ c g, p.pipeline? i = some c ∧
      (p.said i = [(g, .createPipeline c.commands)] ∨
        p.said i = [(g, .createPipeline c.commands), (g, .stopPipeline)]) := by
  by_cases hi : i ∈ p.pipelines.map (·.id)
  · obtain ⟨c, hc, rfl⟩ := List.mem_map.1 hi
    have hheard := h.heard c hc
    generalize p.said c.id = words at hheard ⊢
    cases hheard with
    | nothing => exact .inl rfl
    | toRun => exact .inr ⟨c, _, hp.pipeline?_of_mem hc, .inl rfl⟩
    | toStop => exact .inr ⟨c, _, hp.pipeline?_of_mem hc, .inr rfl⟩
  · exact .inl (h.unmade i hi)

/-- **What a pool says after any events.**

Nothing that was said is taken back. Nothing is said on a channel that was not started, and what is
said on one that was is `Spoken`: the greeting of the attempt that started it, from the end of the
connecting on, then requests, once the host has answered on that channel, and a farewell at most once
and at the end.

To a pipeline nothing is said, or that it is to run, or that and then on the same channel that it is
to stop. The first holds of a pipeline that never runs, the second of one that runs, on the channel
of the generation, and the last of none whose end the host reports while it runs. This is so as long
as there were numbers for the pipelines, which must be told apart to be spoken of. -/
theorem conformance_of_run (id : PoolId) (options : PoolOptions) (events : List Event) :
    let start := new id options
    let p := start.run events
    (∀ e, p.outbox <+: (p.step e).outbox) ∧
      (∀ g, Effect.started g ∉ p.outbox → p.sentOn g = []) ∧
      (∀ g, Effect.started g ∈ p.outbox → Spoken start events g (p.sentOn g)) ∧
      (p.nextId ≤ UInt64.size → ∀ i,
        (p.said i = [] ∨ ∃ c g, p.pipeline? i = some c ∧
          (p.said i = [(g, .createPipeline c.commands)] ∨
            p.said i = [(g, .createPipeline c.commands), (g, .stopPipeline)])) ∧
        (∀ c, p.pipeline? i = some c → c.state = .running →
          p.said i = [(p.generation, .createPipeline c.commands)]) ∧
        ((∀ before after, events = before ++ after → ¬ (start.run before).Runs i) →
          p.said i = []) ∧
        ∀ before payload after,
          events = before ++
            .notice (start.run before).generation (.message (.toPipeline i payload)) :: after →
          (start.run before).Runs i → payload.ending.isSome = true →
          ∀ g, (g, Payload.stopPipeline) ∉ p.said i) := by
  intro start p
  have hconv : ∀ events, Conversing start events (start.run events) :=
    (conversing_new id options).run (attached_new id options)
  refine ⟨outbox_prefix_step p, (hconv events).silent, (hconv events).spoken, fun hn i => ?_⟩
  have hacc : Accounted start := accounted_new id options
  have haddr : ∀ events, (start.run events).nextId ≤ UInt64.size →
      Addressed (start.run events) := fun events =>
    (addressed_new id options).run hacc (attached_new id options)
      (by simp [Housed, new]) events fun before _ _ l hl => ((hconv before).line l hl).1
  refine ⟨(haddr events hn).said_eq (hacc.run events hn) i, fun c hc hs => ?_,
    said_of_never_runs hacc events hn, ?_⟩
  · obtain ⟨hmem, rfl⟩ := pipeline?_eq_some hc
    exact ((haddr events hn).heard c hmem).of_running hs
  rintro before payload after rfl hr hx g
  obtain ⟨x, hx⟩ := Option.isSome_iff_exists.1 hx
  change (start.run _).nextId ≤ _ at hn
  change _ ∉ (start.run _).said i
  rw [← run_run] at hn ⊢
  have hbefore := Nat.le_trans (nextId_le_run _ _) hn
  exact not_said_of_report (haddr before hbefore) (hacc.run before hbefore) hr hx after hn g

/-- A pipeline whose end the host reports before it is stopped, and one that is stopped while it
waits, in a pool that loses its channel, is attached to again and is closed at last. -/
theorem conformance_of_run_report :
    let one : PipelineId := ⟨1, by decide⟩
    let two : PipelineId := ⟨2, by decide⟩
    let start := new (.ofDraw 0) { maxRunspaces := 1 }
    let script : List Command := [⟨"Get-Item", []⟩]
    let events : List Event := [.beginOpen, .connected .opening,
      .notice 1 (.message (.toPool (.poolState .opened none))), .submit script,
      .submit script, .stop two,
      .notice 1 (.message (.toPipeline one (.pipelineState .completed none))), .stop one,
      .notice 1 (.closed none), .beginReconnect, .connected .reconnecting,
      .notice 3 (.message (.toPool (.poolState .opened none))), .beginClose]
    let p := start.run events
    p.nextId = 3 ∧ Spoken start events 1 (p.sentOn 1) ∧ Spoken start events 3 (p.sentOn 3) ∧
      p.sentOn 1 = [.toPool (.initPool (.ofDraw 0) 1 1),
        .toPipeline one (.createPipeline script)] ∧
      p.sentOn 3 = [.toPool (.connectPool (.ofDraw 0)), .toPool .closePool] ∧
      (∀ g, (g, Payload.stopPipeline) ∉ p.said one) ∧ p.said two = [] := by
  intro one two start script events p
  obtain ⟨-, hsilent, hspoken, hnum⟩ :=
    conformance_of_run (.ofDraw 0) { maxRunspaces := 1 } events
  have hn : p.nextId ≤ UInt64.size := by decide
  have hfirst : p.sentOn 1 = [.toPool (.initPool (.ofDraw 0) 1 1),
      .toPipeline one (.createPipeline script)] := by
    simp only [p, start, events, script, one, two]
    cbv
  have hsecond : p.sentOn 3 = [.toPool (.connectPool (.ofDraw 0)), .toPool .closePool] := by
    simp only [p, start, events, script, one, two]
    cbv
  have hstarted (g : Nat) (hg : p.sentOn g ≠ []) : Effect.started g ∈ p.outbox := by
    by_contra hs
    exact hg (hsilent g hs)
  refine ⟨by decide, hspoken 1 (hstarted 1 (by simp [hfirst])),
    hspoken 3 (hstarted 3 (by simp [hsecond])), hfirst, hsecond, ?_, ?_⟩
  · exact (hnum hn one).2.2.2 (events.take 6) (.pipelineState .completed none) (events.drop 7) rfl
      (by decide) rfl
  · refine (hnum hn two).2.2.1 fun before after h => ?_
    have hnever : ∀ n < 14, ¬ (start.run (events.take n)).Runs two := by decide
    have hbefore : before = events.take before.length := by rw [h, List.take_left]
    have hlength : before.length < 14 := by
      have hle : before.length ≤ events.length := by rw [h, List.length_append]; omega
      exact Nat.lt_succ_of_le hle
    rw [hbefore]
    exact hnever _ hlength

end Runs

end Pool

end Runspace
