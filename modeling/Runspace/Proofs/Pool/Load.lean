import Mathlib.Data.List.Dedup
import Mathlib.Data.List.Perm.Subperm
import Runspace.Proofs.Pool.Conformance
import Runspace.Proofs.Pool.Launches

/-!
# Load — what the host may be running

The host knows the pipelines of a channel only by what was said there: it may be running those that
it was asked to run, until it is asked to stop them or has reported their end. That is no more than
the pool counts, with one exception: a pipeline that fails because a message to it was garbled on
its way in gives up its runspace, and the host is not asked to stop it.

* `Pool.load`: what the host may be running on a channel, by what was said and by the news;
* `Pool.garbled`: the pipelines that ran when a message to them was lost on the way in;
* `Counts`, `Accounted.step_of_not_counts`: the news that make a difference;
* `Turn.line_of_opened`: where the line of an opened pool comes from;
* `Known`: what has ended, and the host was not asked to stop it, was reported or garbled;
  `Known.of_deed`, **`Known.within`**, `known_run`: so it is after each deed, step and run;
* **`load_lt_limit_of_run`**: whenever the host is asked to run a pipeline, it may be running fewer
  than the limit, apart from those that were garbled;
* `load_eq_limit_of_garbled`: one that was garbled counts.
-/

namespace Runspace

/-- Whether a payload asks the host to run a pipeline. -/
def Payload.isCreate : Payload → Bool
  | .createPipeline _ => true
  | _ => false

/-- Whether a payload asks the host to stop a pipeline. -/
def Payload.isStop : Payload → Bool
  | .stopPipeline => true
  | _ => false

namespace Pool

/-! ## What the host knows -/

/-- The pipelines to which something of a kind was said on a channel. -/
def addressees (kind : Payload → Bool) (outbox : List Effect) (g : Nat) : List PipelineId :=
  outbox.filterMap fun
    | .queued g' ⟨.pipeline i, payload⟩ => if g' = g ∧ kind payload then some i else none
    | _ => none

/-- The pipelines of which the news of a channel say a state, or that a message to them was not
sent. -/
def reported (events : List Event) (g : Nat) : List PipelineId :=
  events.filterMap fun
    | .notice g' (.message ⟨.pipeline i, .pipelineState _ _⟩)
    | .notice g' (.sendFailed (.pipeline i) _) => if g' = g then some i else none
    | _ => none

/-- The pipeline that runs when the news of the channel are that a message to it was lost on its way
in. -/
def lostIn (p : Pool) : Event → Nat → List PipelineId
  | .notice g' (.framingError (.pipeline i) _), g =>
    if g' = g ∧ g' = p.generation ∧ p.Runs i then [i] else []
  | _, _ => []

/-- The pipelines that ran when the news of a channel were that a message to them was lost on its
way in. -/
def garbled (p : Pool) : List Event → Nat → List PipelineId
  | [], _ => []
  | e :: events, g => p.lostIn e g ++ (p.step e).garbled events g

/-- The pipelines that the host may be running on a channel: it was asked there to run them and not
to stop them, and the news have reported none of them. -/
def load (outbox : List Effect) (events : List Event) (g : Nat) : List PipelineId :=
  (addressees Payload.isCreate outbox g).dedup.filter fun i =>
    i ∉ addressees Payload.isStop outbox g ∧ i ∉ reported events g

section Load

variable {p q : Pool} {e : Event} {events : List Event} {i : PipelineId} {g : Nat}

theorem garbled_append (p : Pool) (events more : List Event) (g : Nat) :
    p.garbled (events ++ more) g = p.garbled events g ++ (p.run events).garbled more g := by
  induction events generalizing p with
  | nil => rfl
  | cons e events ih =>
    rw [List.cons_append, garbled, garbled, ih, List.append_assoc]
    rfl

theorem mem_addressees {kind : Payload → Bool} : i ∈ addressees kind p.outbox g ↔
    ∃ payload, (g, payload) ∈ p.said i ∧ kind payload = true := by
  simp only [addressees, said, List.mem_filterMap]
  constructor
  · rintro ⟨e, he, hi⟩
    split at hi
    · next g' j payload =>
      obtain ⟨⟨rfl, hk⟩, rfl⟩ : (g' = g ∧ kind payload = true) ∧ j = i := by simpa using hi
      exact ⟨payload, ⟨_, he, by simp [Effect.saidTo?]⟩, hk⟩
    · cases hi
  · rintro ⟨payload, ⟨e, he, hi⟩, hk⟩
    unfold Effect.saidTo? at hi
    split at hi
    · next g' m =>
      obtain ⟨target, payload'⟩ := m
      obtain ⟨rfl, rfl, rfl⟩ : target = .pipeline i ∧ g' = g ∧ payload' = payload := by
        simpa using hi
      exact ⟨_, he, by simp [hk]⟩
    · cases hi

/-- The host may be running only what it was asked to run, and not to stop. -/
theorem said_of_mem_load (h : Addressed p) (hi : i ∈ load p.outbox events g) :
    ∃ c ∈ p.pipelines, c.id = i ∧ (c.state = .running ∨ c.state.isTerminal = true ∧
      ∃ commands, p.said i = [(g, .createPipeline commands)]) ∧ i ∉ reported events g := by
  rw [load, List.mem_filter, List.mem_dedup, decide_eq_true_eq] at hi
  obtain ⟨hask, hstop, hreport⟩ := hi
  obtain ⟨payload, hask, hk⟩ := mem_addressees.1 hask
  have hmade : i ∈ p.pipelines.map (·.id) := Decidable.byContradiction fun hnot => by
    rw [h.unmade i hnot] at hask
    cases hask
  obtain ⟨c, hc, rfl⟩ := List.mem_map.1 hmade
  refine ⟨c, hc, rfl, ?_, hreport⟩
  have hstop' : (g, Payload.stopPipeline) ∉ p.said c.id := fun hmem =>
    hstop (mem_addressees.2 ⟨_, hmem, rfl⟩)
  have hheard := h.heard c hc
  generalize p.said c.id = words at hheard hask hstop'
  cases hheard with
  | nothing => cases hask
  | toRun hs =>
    cases List.mem_singleton.1 hask
    exact hs.imp (·.1) fun ht => ⟨ht, _, rfl⟩
  | toStop hs =>
    -- one channel only: there the host was asked to stop it
    rcases List.mem_cons.1 hask with hask | hask
    · cases hask
      exact absurd (by simp) hstop'
    · cases List.mem_singleton.1 hask
      cases hk

end Load

/-! ## The line of an opened pool -/

/-- An opened pool has the line that it had before, or the host has just answered there. -/
theorem Turn.line_of_opened {p q : Pool} {e : Event} (h : Turn p e q) (ha : Attached p)
    (hq : q.state = .opened) {l : Line} (hl : q.line = some l) :
    ∃ l₀, p.line = some l₀ ∧ l₀.generation = l.generation ∧
      (p.state = .opened ∧ (l.isAccepting = true → l₀.isAccepting = true) ∨
        l₀.isReady = false) := by
  have hsame : q.state = p.state → q.line = p.line → ∃ l₀, p.line = some l₀ ∧
      l₀.generation = l.generation ∧ (p.state = .opened ∧
        (l.isAccepting = true → l₀.isAccepting = true) ∨ l₀.isReady = false) :=
    fun hs hline => ⟨l, hline ▸ hl, rfl, .inl ⟨hs ▸ hq, fun h => h⟩⟩
  cases h with
  | idle | beginReconnect => exact hsame rfl rfl
  | work _ hd => exact hsame hd.moves.sameControl.state hd.moves.sameControl.line
  | beginOpen | closeUnopened | endClose => cases hq
  | outdated | unconnected => exact hsame (state_resolve p _ _) (line_resolve p _ _)
  | greet _ hs =>
    rw [(sameAccounts_attach p _).state, hs] at hq
    exact absurd hq (Attempt.expected_ne_opened _)
  | succeed => exact hsame (state_setProgress p _ _) (line_setProgress p _ _)
  | giveUp => cases (line_giveUp p _).symm.trans hl
  | beginClose | hostEnded | lineEnded | lineLost => cases (line_detach _).symm.trans hl
  | setLimit | announceLimit =>
    exact hsame (state_admitQueued _) (moves_admitQueued _).sameControl.line
  | @hostOpened a _ hh =>
    rw [line_resolve, (moves_admitQueued p.ready).sameControl.line] at hl
    obtain ⟨l₀, hl₀, rfl⟩ := Option.map_eq_some_iff.1 hl
    refine ⟨l₀, hl₀, rfl, .inr ?_⟩
    rw [← Bool.not_eq_true]
    intro hr
    -- a ready line would be that of an opened pool, in which no attempt is due
    have hopened := ha.opened_iff.2 ⟨l₀, hl₀, hr⟩
    exact a.expected_ne_opened ((ha.handshake a hh).1.symm.trans hopened)
  | hostRefused => exact hsame (state_answer p _ _) (line_answer p _ _)
  | lineStopped =>
    obtain ⟨l₀, hl₀, rfl⟩ := Option.map_eq_some_iff.1 hl
    refine ⟨l₀, hl₀, ?_, .inl ⟨hq, ?_⟩⟩ <;> split <;> simp

section Ends

variable {p : Pool} {e : Event} {n : Notice} {i : PipelineId} {x : Ending}

theorem Attached.state_answer_ne (ha : Attached p) {a : Attempt} (hh : p.handshake = some a)
    (r : Except Fault Unit) : (p.answer a r).state ≠ .opened := by
  rw [state_answer, (ha.handshake a hh).1]
  exact a.expected_ne_opened

theorem Attached.state_hostEnded_ne (ha : Attached p) (f : Fault) :
    (p.hostEnded f).state ≠ .opened := by
  unfold hostEnded
  split
  · next hh => exact ha.state_answer_ne hh _
  · split
    · exact fun hq => by cases (state_leave p .broken f _).symm.trans hq
    · next hs => exact hs

theorem Attached.state_lineClosed_ne (ha : Attached p) (f : Option Fault) :
    (p.lineClosed f).state ≠ .opened := by
  unfold lineClosed
  split
  · next hh => exact ha.state_answer_ne hh _
  · split
    · exact fun hq => by cases (state_leave p .disconnected (closeReason f) _).symm.trans hq
    · next hs =>
      rw [(sameAccounts_detach p).state]
      exact hs

/-- Whether an event makes a difference as far as it is news: they must be of the channel of the
generation, and if a message to a pipeline was lost on its way in, the pipeline must run. -/
def Counts (p : Pool) (e : Event) : Prop :=
  ∀ g n, e = .notice g n → g = p.generation ∧
    ∀ i f, n = .framingError (.pipeline i) f → p.Runs i

theorem step_of_stale {g : Nat} (hg : g ≠ p.generation) : p.step (.notice g n) = p := by
  change p.notice g n = p
  unfold notice
  exact if_neg hg

theorem Accounted.step_of_not_counts (hp : Accounted p) (h : ¬ p.Counts e) : p.step e = p := by
  simp only [Counts, not_forall, exists_prop] at h
  obtain ⟨g, n, rfl, h⟩ := h
  by_cases hg : g = p.generation
  · obtain ⟨i, f, rfl, hr⟩ : ∃ i f, n = .framingError (.pipeline i) f ∧ ¬ p.Runs i := by
      simpa only [not_forall, exists_prop] using (not_and.1 h) hg
    change p.notice g (.framingError (.pipeline i) f) = p
    rw [notice, if_pos hg]
    dsimp only [lose]
    split
    · rfl
    · next c hc =>
      obtain ⟨hmem, rfl, -⟩ := registered?_eq_some hc
      exact if_neg fun hs => hr ⟨c, hp.pipeline?_of_mem hmem, hs⟩
  · exact step_of_stale hg

/-- News that end a pipeline while the pool stays opened report it, or tell that it was garbled. -/
theorem Attached.reported_of_ending (ha : Attached p) (hx : n.ending i = some x)
    (hn : p.Counts (.notice p.generation n))
    (hq : (p.step (.notice p.generation n)).state = .opened) :
    i ∈ reported [.notice p.generation n] p.generation ∨
      i ∈ p.lostIn (.notice p.generation n) p.generation := by
  change (p.notice p.generation n).state = .opened at hq
  unfold notice at hq
  rw [if_pos rfl] at hq
  cases n with
  | message m =>
    obtain ⟨target, payload⟩ := m
    cases target with
    | pool =>
      cases payload with
      | poolState state reason =>
        cases state with
        | opened => cases hx
        | broken | closed => exact absurd hq (ha.state_hostEnded_ne _)
      | _ => cases hx
    | pipeline j =>
      rw [Notice.ending, Option.ite_none_right_eq_some] at hx
      obtain ⟨rfl, hx⟩ := hx
      cases payload with
      | pipelineState => exact .inl (by simp [reported])
      | _ => cases hx
  | framingError target f =>
    cases target with
    | pool => cases hx
    | pipeline j =>
      rw [Notice.ending, Option.ite_none_right_eq_some] at hx
      obtain ⟨rfl, -⟩ := hx
      exact .inr (by simp [lostIn, (hn _ _ rfl).2 _ _ rfl])
  | sendFailed target f =>
    cases target with
    | pool => cases hx
    | pipeline j =>
      rw [Notice.ending, Option.ite_none_right_eq_some] at hx
      obtain ⟨rfl, -⟩ := hx
      exact .inl (by simp [reported])
  | closed f => exact absurd hq (ha.state_lineClosed_ne f)

end Ends

/-! ## What ends without the host being told -/

/-- While the line of an opened pool accepts messages: a pipeline that has ended, and that the host
was asked there to run and not to stop, was reported or garbled. -/
def Known (start : Pool) (events : List Event) (p : Pool) : Prop :=
  p.state = .opened → ∀ l, p.readyLine? = some l → l.isAccepting = true →
    ∀ c ∈ p.pipelines, c.state.isTerminal = true →
      ∀ commands, p.said c.id = [(l.generation, .createPipeline commands)] →
        c.id ∈ reported events l.generation ∨ c.id ∈ start.garbled events l.generation

section Known

variable {start p p₁ q r : Pool} {d : Deed} {e : Event} {events : List Event} {l : Line}
  {c : Pipeline} {i : PipelineId}

theorem Known.mono (h : Known start events p) (more : List Event) :
    Known start (events ++ more) p := by
  intro ho l hl ha c hc ht commands hs
  refine (h ho l hl ha c hc ht commands hs).imp (fun hm => ?_) fun hm => ?_
  · rw [reported, List.filterMap_append]
    exact List.mem_append_left _ hm
  · rw [garbled_append]
    exact List.mem_append_left _ hm

theorem Does.said_halt_of_running (h : Does p (.halt c.id) q) (hp : Accounted p)
    (hc : c ∈ p.pipelines) (hs : c.state = .running) (hl : p.readyLine? = some l)
    (ha : l.isAccepting = true) :
    q.said c.id = p.said c.id ++ [(l.generation, .stopPipeline)] := by
  generalize hi : c.id = i at h ⊢
  cases h with
  | @halt b hb _ =>
    obtain rfl := hp.eq_of_id_eq (pipeline?_eq_some hb).1 hc hi.symm
    have hsend : p.send? (.toPipeline b.id .stopPipeline) =
        some (p.emit (.queued l.generation (.toPipeline b.id .stopPipeline))) := by
      unfold send?
      rw [hl]
      exact if_pos ha
    rw [(hushed_conclude _ _ _).said, warn, if_pos hs, trySend, hsend, Option.getD_some,
      said_emit_toPipeline, if_pos rfl]

/-- A deed ends no pipeline without the host being told, unless news do. -/
theorem Known.of_deed (h : Known start events r) (hd : Does r d q) (hr : Accounted r)
    (haddr : Addressed r) (hnews : ∀ i x, d = .conclude i x → r.state = .opened →
      ∀ l, r.readyLine? = some l → i ∈ reported events l.generation ∨
        i ∈ start.garbled events l.generation) : Known start events q := by
  have hc := hd.sameControl
  intro ho l hl ha c' hc' ht commands hsaid
  rw [hc.state] at ho
  rw [hc.readyLine?] at hl
  rw [hd.pipelines] at hc'
  rcases List.mem_append.1 hc' with hc' | hc'
  · obtain ⟨c, hc, rfl⟩ := List.mem_map.1 hc'
    -- one of which nothing more was said was told of before
    have hbefore : c.state.isTerminal = true → q.said c.id = r.said c.id →
        q.said c.id = [(l.generation, .createPipeline commands)] →
        c.id ∈ reported events l.generation ∨ c.id ∈ start.garbled events l.generation :=
      fun ht hsame hs => h ho l hl ha c hc ht commands (hsame ▸ hs)
    by_cases hi : d.subject = some c.id
    · rw [if_pos hi] at ht hsaid ⊢
      rw [Deed.id_apply] at hsaid ⊢
      cases hlive : c.state.isTerminal with
      | true =>
        refine hbefore hlive ((hd.said_eq_or c.id).resolve_right ?_) hsaid
        rintro ⟨-, b, hb, hid, rfl | ⟨rfl, hrun⟩⟩
        all_goals obtain rfl := hr.eq_of_id_eq hb hc hid
        · have hsuits := hr.suits hd hc hi
          cases hs : b.state <;> rw [hs] at hsuits hlive <;> cases hsuits <;> cases hlive
        · rw [hrun] at hlive
          cases hlive
      | false =>
        cases d with
        | make | exhaust | skip => cases hi
        | wait | launch => cases ht
        | invoke | take | forget => cases hlive.symm.trans ht
        | record id k v =>
          rw [Deed.apply, Pipeline.state_push] at ht
          cases hlive.symm.trans ht
        | refuse id =>
          cases hd with
          | refuse _ _ _ hl' => cases ha.symm.trans (hl' l hl)
        | conclude id x =>
          cases hi
          exact hnews _ x rfl ho l hl
        | halt id =>
          cases hi
          have hheard := haddr.heard c hc
          by_cases hrun : c.state = .running
          · rw [hd.said_halt_of_running hr hc hrun hl ha, hheard.of_running hrun] at hsaid
            simp at hsaid
          · obtain ⟨b, hb, hid, hsame⟩ := hd.said_halt
            obtain rfl := hr.eq_of_id_eq hb hc hid
            have hwaits : b.state = .notStarted ∨ b.state = .queued := by
              cases hs : b.state <;> simp_all [PipelineState.isTerminal]
            rcases hsame b.id with hsame | ⟨-, hrun', -⟩
            · rw [hsame, hheard.of_waiting hwaits] at hsaid
              cases hsaid
            · exact absurd hrun' hrun
    · rw [if_neg hi] at ht hsaid ⊢
      exact hbefore ht ((hd.said_eq_or c.id).resolve_right fun hs => hi hs.1) hsaid
  · cases d with
    | make =>
      rw [List.mem_singleton.1 hc'] at ht
      cases ht
    | _ => cases hc'

end Known

/-! ## Steps -/

/-- What holds of a pool after some events, while there are numbers for its pipelines. -/
structure InOrder (start : Pool) (events : List Event) (p : Pool) : Prop where
  eq_run : p = start.run events
  accounted : Accounted p
  attached : Attached p
  housed : Housed p
  conversing : Conversing start events p
  addressed : Addressed p

section InOrder

variable {start p p₁ p₂ q r : Pool} {e : Event} {events : List Event} {l : Line}

theorem inOrder_run (id : PoolId) (options : PoolOptions) (events : List Event)
    (hn : ((new id options).run events).nextId ≤ UInt64.size) :
    InOrder (new id options) events ((new id options).run events) := by
  have hacc : Accounted (new id options) := accounted_new id options
  have hatt : Attached (new id options) := attached_new id options
  have hhoused : Housed (new id options) := by simp [Housed, new]
  have hconv := (conversing_new id options).run hatt
  exact ⟨rfl, hacc.run events hn, hatt.run events, hhoused.run hatt hacc events hn, hconv events,
    (addressed_new id options).run hacc hatt hhoused events
      (fun before _ _ l hl => ((hconv before).line l hl).1) hn⟩

theorem InOrder.current (h : InOrder start events p) : Current p := fun l hl =>
  (h.conversing.line l hl).1

theorem mem_sentOn_of_said {g : Nat} {i : PipelineId} {payload : Payload}
    (h : (g, payload) ∈ p.said i) : .toPipeline i payload ∈ p.sentOn g := by
  obtain ⟨e, he, hi⟩ := List.mem_filterMap.1 h
  refine List.mem_filterMap.2 ⟨e, he, ?_⟩
  cases e with
  | queued g' m =>
    obtain ⟨target, payload'⟩ := m
    obtain ⟨rfl, rfl, rfl⟩ : target = .pipeline i ∧ g' = g ∧ payload' = payload := by
      simpa [Effect.saidTo?] using hi
    exact if_pos rfl
  | _ => cases hi

theorem InOrder.not_said (h : InOrder start events p) (hl : p.line = some l)
    (hr : l.isReady = false) (i : PipelineId) (payload : Payload) :
    (l.generation, payload) ∉ p.said i := by
  intro hmem
  obtain ⟨-, -, m, hgreet, hsent⟩ := h.conversing.line l hl
  obtain ⟨before, a, after, -, hwords, -⟩ := hgreet
  rw [if_neg (by simp [hr])] at hsent
  have hm := mem_sentOn_of_said hmem
  rw [hsent] at hm
  obtain rfl := List.mem_singleton.1 hm
  cases hwords

theorem InOrder.line_of_prelude (h : InOrder start events p) (hs : p₁.state = (p.step e).state)
    (hline : p₁.state = .opened → (p.step e).line = p₁.line) (ho : p₁.state = .opened)
    (hl : p₁.readyLine? = some l) : l.generation = p.generation ∧
      ((l.isAccepting = true → p.state = .opened ∧ ∃ l₀, p.readyLine? = some l₀ ∧
        l₀.generation = l.generation ∧ l₀.isAccepting = true) ∨
      ∀ i payload, (l.generation, payload) ∉ p.said i) := by
  have hl' : (p.step e).line = some l := (hline ho).trans (readyLine?_eq_some.1 hl).1
  obtain ⟨l₀, hl₀, hgen, hold⟩ := (turn_step p e).line_of_opened h.attached (hs ▸ ho) hl'
  refine ⟨hgen ▸ h.current l₀ hl₀, ?_⟩
  rcases hold with ⟨hp, hacc⟩ | hr
  · refine .inl fun ha => ⟨hp, l₀, ?_, hgen, hacc ha⟩
    obtain ⟨l₁, hl₁, hr⟩ := h.attached.opened_iff.1 hp
    cases hl₀.symm.trans hl₁
    exact readyLine?_eq_some.2 ⟨hl₀, hr⟩
  · exact .inr fun i payload => hgen ▸ h.not_said hl₀ hr i payload

theorem Known.of_prelude (hk : Known start events p) (h : InOrder start events p) (hp : Prelude p p₁)
    (hs : p₁.state = (p.step e).state) (hline : p₁.state = .opened → (p.step e).line = p₁.line) :
    Known start (events ++ [e]) p₁ := by
  intro ho l hl ha c hc ht commands hsaid
  rw [hp.pipelines] at hc
  rw [hp.said] at hsaid
  rcases (h.line_of_prelude hs hline ho hl).2 with hbefore | hnone
  · obtain ⟨hopened, l₀, hl₀, hgen, hacc⟩ := hbefore ha
    rw [← hgen] at hsaid ⊢
    exact hk.mono [e] hopened l₀ hl₀ hacc c hc ht commands hsaid
  · exact absurd (hsaid ▸ by simp) (hnone c.id (.createPipeline commands))

/-- **Within a step, too, all that ended without the host being told was reported or garbled,** if
the event counts. -/
theorem Known.within (hk : Known start events p) (h : InOrder start events p)
    (he : p.Counts e) (hp : Prelude p p₁)
    (hd : Deeds e.Fits p₁ r) (hd' : Deeds e.Fits r p₂) (hq : Coda p₂ (p.step e))
    (hn : (p.step e).nextId ≤ UInt64.size) :
    Accounted r ∧ Addressed r ∧ Known start (events ++ [e]) r := by
  have hc := hd.sameControl.trans hd'.sameControl
  have hs : p₁.state = (p.step e).state := by rw [hq.state, hc.state]
  have hline : p₁.state = .opened → (p.step e).line = p₁.line := fun ho => by
    rw [hq.line (hc.state.trans ho), hc.line]
  have hacc₁ := h.accounted.of_sameWork hp.toSameWork
  have haddr₁ := h.addressed.of_prelude h.attached h.housed hp
  have hcur₁ := hp.current h.current
  have hnr : r.nextId ≤ UInt64.size := by
    refine Nat.le_trans (Deeds.moves hd').nextId_le ?_
    rw [← hq.nextId]
    exact hn
  refine ⟨(Deeds.moves hd).accounted hacc₁ hnr, hd.addressed haddr₁ hacc₁ hcur₁ hnr, ?_⟩
  refine (hd.keeps_accounted (I := fun r => SameControl p₁ r ∧ Addressed r ∧
    Known start (events ++ [e]) r) hacc₁ hnr ⟨.refl p₁, haddr₁, hk.of_prelude h hp hs hline⟩ ?_).2.2
  intro s s' d hfits hdoes hacc hn' ⟨hsame, haddr, hknown⟩
  have hcur : Current s := hcur₁.congr hsame.line hsame.generation
  refine ⟨hsame.trans hdoes.sameControl, hdoes.addressed haddr hacc hcur hn',
    hknown.of_deed hdoes hacc haddr ?_⟩
  rintro i x rfl ho l hl
  rw [hsame.state] at ho
  rw [hsame.readyLine?] at hl
  rw [(h.line_of_prelude hs hline ho hl).1]
  -- the event must be news that end the pipeline
  cases e with
  | notice g n =>
    obtain rfl := (he g n rfl).1
    have hnews := h.attached.reported_of_ending (n := n) hfits he (hs ▸ ho)
    rw [reported, List.filterMap_append, garbled_append, ← h.eq_run, garbled, garbled,
      List.append_nil]
    exact hnews.imp (List.mem_append_right _) (List.mem_append_right _)
  | _ => cases hfits

theorem Known.step (hk : Known start events p) (h : InOrder start events p)
    (hn : (p.step e).nextId ≤ UInt64.size) : Known start (events ++ [e]) (p.step e) := by
  by_cases he : p.Counts e
  · obtain ⟨p₁, p₂, hp, hd, hq⟩ := stepCourse_step p e
    obtain ⟨-, -, hknown⟩ := hk.within h he hp hd.deeds .refl hq hn
    intro ho l hl ha c hc ht commands hsaid
    rw [hq.state] at ho
    rw [readyLine?, hq.line ho] at hl
    rw [hq.pipelines] at hc
    rw [hq.said] at hsaid
    exact hknown ho l hl ha c hc ht commands hsaid
  · rw [h.accounted.step_of_not_counts he]
    exact hk.mono _

theorem known_run (id : PoolId) (options : PoolOptions) (events : List Event)
    (hn : ((new id options).run events).nextId ≤ UInt64.size) :
    Known (new id options) events ((new id options).run events) := by
  induction events using List.reverseRecOn with
  | nil => exact nofun
  | append_singleton events e ih =>
    rw [run_append] at hn ⊢
    have hn' := Nat.le_trans (stepMoves_step _ e).nextId_le hn
    exact (ih hn').step (inOrder_run id options events hn') hn

end InOrder

/-! ## Launches -/

section Launches

variable {start p r : Pool} {e : Event} {events : List Event} {l : Line} {i : PipelineId}

/-- What the host may be running on the line of an opened pool runs, if it was not garbled. -/
theorem Known.runs_of_mem_load (hk : Known start events r) (hr : Accounted r) (haddr : Addressed r)
    (ho : r.state = .opened) (hl : r.readyLine? = some l) (ha : l.isAccepting = true)
    (hi : i ∈ load r.outbox events l.generation) 
    (hg : i ∉ start.garbled events l.generation) : r.Runs i := by
  obtain ⟨c, hc, rfl, hs, hreport⟩ := said_of_mem_load haddr hi
  rcases hs with hs | ⟨ht, commands, hsaid⟩
  · exact ⟨c, hr.pipeline?_of_mem hc, hs⟩
  · exact absurd (hk ho l hl ha c hc ht commands hsaid) (not_or_intro hreport hg)

theorem Accounted.length_le_running (hr : Accounted r) {ids : List PipelineId} (hn : ids.Nodup)
    (hruns : ∀ i ∈ ids, r.Runs i) : ids.length ≤ r.running := by
  have hsub : ids ⊆ r.idsWhere (· = .running) := fun i hi => by
    obtain ⟨c, hc, hs⟩ := hruns i hi
    have hlive : c.state.isTerminal = false := by rw [hs]; rfl
    exact (hr.mem_idsWhere _ i).2
      ⟨c, hc, hr.isRegistered (pipeline?_eq_some hc).1 hlive, by simp [hs]⟩
  calc ids.length ≤ (r.idsWhere (· = .running)).length := (List.subperm_of_subset hn hsub).length_le
    _ = r.running := by rw [hr.running_eq, idsWhere, List.length_map, List.countP_eq_length_filter]

theorem Launches.limit (h : p.Launches e i r) : r.limit = (p.step e).limit := by
  obtain ⟨p₁, r', p₂, -, -, hl, hr', hq⟩ := h
  rw [hq.limit, hr'.sameControl.limit, hl.sameControl.limit]

end Launches

/-- **The host is asked to run a pipeline only while it may be running fewer than the limit,** after
any events, as long as there were numbers for the pipelines, and not counting the pipelines that
were garbled.

Whenever a step asks it on a channel, there is the pool that launches the pipeline, which is the
pool after all that the step has made known by then. All that the host may be running on the channel
then, by what was said there before and by the news up to the event, holds a runspace of that pool
or was garbled. -/
theorem load_lt_limit_of_run (id : PoolId) (options : PoolOptions) (events : List Event) (e : Event)
    (hn : ((new id options).run (events ++ [e])).nextId ≤ UInt64.size) (told rest : List Effect)
    (g : Nat) (i : PipelineId) (commands : List Command) :
    let p := (new id options).run events
    let running := load (p.outbox ++ told) (events ++ [e]) g
    let lost := (new id options).garbled (events ++ [e]) g
    (p.step e).outbox = p.outbox ++ (told ++ .ask g i commands :: rest) →
    (∃ r, p.Launches e i r ∧ r.outbox = p.outbox ++ told ∧ ∀ j ∈ running, r.Runs j ∨ j ∈ lost) ∧
    (running.filter (· ∉ lost)).length < (p.step e).limit := by
  intro p running lost hout
  rw [run_append] at hn
  have hn' := Nat.le_trans (stepMoves_step p e).nextId_le hn
  have hcounts : p.Counts e := by
    by_contra hnot
    have hsame : p.step e = p := ((accounted_new id options).run events hn').step_of_not_counts hnot
    rw [hsame] at hout
    simp at hout
  obtain ⟨r, hr, hrout, l, hl, ha, rfl⟩ := launches_of_step hout
  have ⟨p₁, r', p₂, hp, hd, hlaunch, hd', hq⟩ := hr
  have hmay : r.mayAdmit = true := by
    cases hlaunch with
    | launch _ _ hm => exact hm
  obtain ⟨ho, hlt⟩ := mayAdmit_iff.1 hmay
  obtain ⟨hacc, haddr, hknown⟩ := (known_run id options events hn').within
    (inOrder_run id options events hn') hcounts hp hd (hd'.head ⟨.launch i, trivial, hlaunch⟩) hq hn
  have hruns : ∀ j ∈ running, j ∉ lost → r.Runs j := fun j hj hlost =>
    hknown.runs_of_mem_load hacc haddr ho hl ha (hrout ▸ hj) hlost
  refine ⟨⟨r, hr, hrout, fun j hj => ?_⟩, ?_⟩
  · by_cases hlost : j ∈ lost
    · exact .inr hlost
    · exact .inl (hruns j hj hlost)
  · have hnodup : (running.filter (· ∉ lost)).Nodup :=
      ((List.nodup_dedup _).filter _).filter _
    refine Nat.lt_of_le_of_lt (hacc.length_le_running hnodup fun j hj => ?_) (hr.limit ▸ hlt)
    rw [List.mem_filter, decide_eq_true_eq] at hj
    exact hruns j hj.1 hj.2

/-- A pool for two pipelines, given three of them, of which the first runs to its end, so that the
third is launched beside the second. -/
theorem load_lt_limit_of_run_third :
    let start := new (.ofDraw 0) { maxRunspaces := 2 }
    let first : PipelineId := ⟨1, by decide⟩
    let third : PipelineId := ⟨3, by decide⟩
    let events : List Event := [.beginOpen, .connected .opening,
      .notice 1 (.message (.toPool (.poolState .opened none))), .submit [⟨"Get-Item", []⟩],
      .submit [⟨"Get-Item", []⟩], .submit [⟨"Get-Date", []⟩]]
    let e : Event := .notice 1 (.message (.toPipeline first (.pipelineState .completed none)))
    let running := load ((start.run events).outbox ++ [.entered first]) (events ++ [e]) 1
    (start.run (events ++ [e])).nextId = 4 ∧ running = [⟨2, by decide⟩] ∧
    ((start.run events).step e).outbox = (start.run events).outbox ++
      ([.entered first] ++ .ask 1 third [⟨"Get-Date", []⟩] :: [.entered third]) ∧
    (running.filter (· ∉ start.garbled (events ++ [e]) 1)).length <
      ((start.run events).step e).limit := by
  intro start first third events e running
  have hn : (start.run (events ++ [e])).nextId = 4 := by decide
  have hrunning : running = [⟨2, by decide⟩] := by decide
  have hout : ((start.run events).step e).outbox = (start.run events).outbox ++
      ([.entered first] ++ .ask 1 third [⟨"Get-Date", []⟩] :: [.entered third]) := by cbv
  obtain ⟨-, hlt⟩ := load_lt_limit_of_run (.ofDraw 0) { maxRunspaces := 2 } events e
    (by rw [hn]; decide) _ _ _ _ _ hout
  exact ⟨hn, hrunning, hout, hlt⟩

theorem step_of_garbled {p : Pool} {g : Nat} {i : PipelineId} (f : Fault) (hg : p.generation = g)
    (hs : (p.registered? i).map (·.state) = some .running) :
    p.step (.notice g (.framingError (.pipeline i) f)) = p.finish i .failed (some f.record) := by
  obtain ⟨c, hc, hrun⟩ := Option.map_eq_some_iff.1 hs
  change p.notice g (.framingError (.pipeline i) f) = _
  simp [notice, lose, hg, hc, hrun]

/-- A garbled pipeline gives up its runspace, while the host was not asked to stop it and has not
reported it: a pool for one pipeline then asks the host to run another. -/
theorem load_eq_limit_of_garbled :
    let start := new (.ofDraw 0) { maxRunspaces := 1 }
    let first : PipelineId := ⟨1, by decide⟩
    let second : PipelineId := ⟨2, by decide⟩
    let events : List Event := [.beginOpen, .connected .opening,
      .notice 1 (.message (.toPool (.poolState .opened none))), .submit [⟨"Get-Item", []⟩],
      .submit [⟨"Get-Date", []⟩]]
    let e : Event := .notice 1 (.framingError (.pipeline first) (.malformed .body))
    let running := load ((start.run events).outbox ++ [.entered first]) (events ++ [e]) 1
    ((start.run events).step e).outbox = (start.run events).outbox ++
      ([.entered first] ++ .ask 1 second [⟨"Get-Date", []⟩] :: [.entered second]) ∧
    running = [first] ∧ ((start.run events).step e).limit = 1 ∧
    ¬ running.length < ((start.run events).step e).limit := by
  intro start first second events e running
  have hrunning : running = [first] := by decide
  have hlimit : ((start.run events).step e).limit = 1 := by decide
  have hstep : (start.run events).step e =
      (start.run events).finish first .failed (some (Fault.malformed .body).record) :=
    step_of_garbled _ (by decide) (by decide)
  -- whatever the record of the fault is
  have hout : ∀ v, ((start.run events).finish first .failed (some v)).outbox =
      (start.run events).outbox ++
        ([.entered first] ++ .ask 1 second [⟨"Get-Date", []⟩] :: [.entered second]) := by
    intro v
    cbv
  refine ⟨(congrArg Pool.outbox hstep).trans (hout _), hrunning, hlimit, ?_⟩
  rw [hrunning, hlimit]
  exact Nat.lt_irrefl 1

end Pool

end Runspace
