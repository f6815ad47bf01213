import Mathlib.Data.List.Induction
import Runspace.Proofs.Pool.Capacity

/-!
# Streams — the records of a pipeline, and where they come from

A record is placed on a stream by a message of the host to a pipeline that runs, and by the failure
of a pipeline, which leaves one on its error stream. Streams end with their pipeline and stay as
they are from then on.

* `Pool.brought`, `Pool.delivered`: the records that events bring to a pipeline while it runs;
* `Value.Reports`, `Event.blame`: what is said of a failure, and what an event gives for it;
* `Event.Ends`, **`Event.Ends.reports`**: how an event ends a pipeline, and what it leaves there;
* `Fares`: what becomes of a pipeline under deeds that bring no record;
* `Told`: where the records of a pipeline come from;
* **`streams_of_run`**: the streams of all pipelines after any events.
-/

namespace Runspace

/-! ## Records under changes -/

namespace Pipeline

variable {c : Pipeline} (s : PipelineState) (last : Option Value)

theorem records_push (ho : c.isOpen = true) (k : StreamKind) (v : Value) :
    (c.push k v).records = c.records ++ [(k, v)] := by
  unfold push
  rw [if_pos ho]

theorem isOpen_push (k : StreamKind) (v : Value) : (c.push k v).isOpen = c.isOpen := by
  unfold push
  split <;> rfl

theorem records_finish (ho : c.isOpen = true) :
    (c.finish s last).records = c.records ++ last.toList.map (Prod.mk .error) := by
  cases last with
  | none => exact (List.append_nil _).symm
  | some v => exact c.records_push ho .error v

end Pipeline

/-! ## What the records of failures say -/

/-- A value tells of a failure by a category and a message, and says nothing else. -/
def Value.Reports (v : Value) (category message : String) : Prop :=
  v.json = .object [("category", .string category), ("message", .string message)]

/-- What is said of the end of a line. -/
def endText : Option Fault → String
  | none => "Connection failed: remote host closed the channel"
  | some (.connection reason) => "Connection failed: " ++ reason
  | some e => "Connection failed: " ++ e.message

/-- What is said of the end of a pool that the host has ended. -/
def hostEndText (state : HostPoolState) (reason : Option String) : String :=
  "Connection failed: " ++ reason.getD
    (if state = .closed then "host closed the pool" else "host reported the pool broken")

/-- The category and the message by which a message makes its pipeline fail, if it does. -/
def Payload.blame : Payload → Option (String × String)
  | .pipelineState .failed reason =>
    some ("RemoteError", reason.getD "Remote pipeline failed")
  | _ => none

/-- The category and the message by which a piece of news makes a pipeline fail, if it does. -/
def Notice.blame (id : PipelineId) : Notice → Option (String × String)
  | .message ⟨.pipeline i, payload⟩ => if i = id then payload.blame else none
  | .message ⟨.pool, .poolState .opened _⟩ => none
  | .message ⟨.pool, .poolState state reason⟩ => some ("ConnectionError", hostEndText state reason)
  | .framingError (.pipeline i) e | .sendFailed (.pipeline i) e =>
    if i = id then some (e.category, e.message) else none
  | .closed e => some ("ConnectionError", endText e)
  | _ => none

theorem reports_closeReason (e : Option Fault) :
    (Pool.closeReason e).record.Reports "ConnectionError" (endText e) := by
  cases e with
  | none => rfl
  | some e => cases e <;> rfl

theorem reports_endReason (state : HostPoolState) (reason : Option String) :
    (Fault.connection (Pool.endReason state reason)).record.Reports "ConnectionError"
      (hostEndText state reason) :=
  rfl

/-- What blame says of an ending: nothing if there is none, and what its record says if it is a
failure. -/
def Ending.Blamed : Option Ending → Option (String × String) → Prop
  | none, blame => blame = none
  | some (.failed r), blame =>
    ∃ category message, blame = some (category, message) ∧ r.Reports category message
  | _, _ => True

theorem Payload.blamed (payload : Payload) : Ending.Blamed payload.ending payload.blame := by
  cases payload with
  | pipelineState state reason =>
    cases state with
    | completed | stopped => trivial
    | failed => exact ⟨_, _, rfl, rfl⟩
  | _ => rfl

/-- **What a piece of news leaves in a pipeline that it makes fail is what it is blamed for.** -/
theorem Notice.blamed (n : Notice) (id : PipelineId) :
    Ending.Blamed (n.ending id) (n.blame id) := by
  cases n with
  | message m =>
    obtain ⟨_ | i, payload⟩ := m
    · cases payload with
      | poolState state reason =>
        cases state with
        | opened => rfl
        | broken | closed => exact ⟨_, _, rfl, reports_endReason _ reason⟩
      | _ => rfl
    · by_cases hi : i = id
      · simpa [ending, blame, hi] using payload.blamed
      · simp [ending, blame, Ending.Blamed, hi]
  | framingError target e | sendFailed target e =>
    cases target with
    | pool => rfl
    | pipeline i =>
      by_cases hi : i = id
      · simp [ending, blame, Ending.Blamed, hi]
        rfl
      · simp [ending, blame, Ending.Blamed, hi]
  | closed e => exact ⟨_, _, rfl, reports_closeReason e⟩

namespace Pool

/-! ## What events bring -/

section Delivered

variable {p : Pool} {id : PipelineId}

instance (p : Pool) (id : PipelineId) : Decidable (p.Runs id) :=
  decidable_of_iff ((p.pipeline? id).any (·.state = .running) = true) (by
    simp [Runs, Option.any_eq_true])

/-- The record that an event brings to a pipeline: that of a message on the channel that counts, to
a pipeline that runs. -/
def brought (p : Pool) (id : PipelineId) : Event → List (StreamKind × Value)
  | .notice generation (.message ⟨.pipeline i, .record k v⟩) =>
    if generation = p.generation ∧ i = id ∧ p.Runs id then [(k, v)] else []
  | _ => []

/-- The records that some events bring to a pipeline, in order. -/
def delivered (p : Pool) (id : PipelineId) : List Event → List (StreamKind × Value)
  | [] => []
  | e :: events => p.brought id e ++ (p.step e).delivered id events

theorem delivered_append (p : Pool) (id : PipelineId) (events : List Event) (e : Event) :
    p.delivered id (events ++ [e]) = p.delivered id events ++ (p.run events).brought id e := by
  induction events generalizing p with
  | nil => exact List.append_nil _
  | cons e' events ih =>
    show p.brought id e' ++ (p.step e').delivered id (events ++ [e]) = _
    rw [ih, ← List.append_assoc]
    rfl

theorem brought_of_not_runs (h : ¬ p.Runs id) (e : Event) : p.brought id e = [] := by
  unfold brought
  split
  · exact if_neg fun hr => h hr.2.2
  · rfl

/-- Whether an event is a record for some pipeline. -/
def Event.isRecord : Event → Bool
  | .notice _ (.message ⟨.pipeline _, .record _ _⟩) => true
  | _ => false

theorem brought_of_not_isRecord {e : Event} (h : e.isRecord = false) : p.brought id e = [] := by
  unfold brought
  split
  · cases h
  · rfl

end Delivered

/-! ## How pipelines end -/

/-- How an event may end a pipeline: by its news, by a stop, or because the host cannot be asked to
run it. -/
def Event.Ends (e : Event) (id : PipelineId) (x : Ending) : Prop :=
  e.ending id = some x ∨
    e.ending id = none ∧ (x = .stopped ∨ x = .failed Fault.channelClosed.record)

/-- The category and the message by which an event makes a pipeline fail: those of its news about
it, or that the host cannot be asked to run it. -/
def Event.blame (id : PipelineId) : Event → String × String
  | .notice _ n => (n.blame id).getD ("ConnectionError", "Channel closed unexpectedly")
  | _ => ("ConnectionError", "Channel closed unexpectedly")

/-- **The record that a pipeline leaves if an event makes it fail says so.** -/
theorem Event.Ends.reports {e : Event} {id : PipelineId} {r : Value} (h : e.Ends id (.failed r)) :
    r.Reports (e.blame id).1 (e.blame id).2 := by
  cases e with
  | notice g n =>
    have hblamed := n.blamed id
    rcases h with h | ⟨h, hr | hr⟩
    · rw [show n.ending id = _ from h] at hblamed
      obtain ⟨category, message, hblame, hr⟩ := hblamed
      rwa [blame, hblame]
    · cases hr
    · cases hr
      rw [show n.ending id = _ from h] at hblamed
      rw [blame, show n.blame id = none from hblamed]
      rfl
  | _ =>
    rcases h with h | ⟨-, hr | hr⟩
    · cases h
    · cases hr
    · cases hr
      rfl

/-- What becomes of a pipeline while an event brings it no record. -/
inductive Fares (e : Event) (c c' : Pipeline) : Prop where
  | lasts (hid : c'.id = c.id) (hr : c'.records = c.records) (ho : c'.isOpen = c.isOpen)
    (hs : c'.state = c.state ∨ c.state.isTerminal = false ∧ c'.state.isTerminal = false)
  | ends (x : Ending) (hx : e.Ends c.id x) (hid : c'.id = c.id) (hs : c.state.isTerminal = false)
    (hs' : c'.state = x.state) (ho : c'.isOpen = false)
    (hr : c.isOpen = true → c'.records = c.records ++ x.last.toList.map (Prod.mk .error))

section Fares

variable {e : Event} {c c' c'' : Pipeline} {d : Deed} {p q : Pool}

theorem Fares.refl (e : Event) (c : Pipeline) : Fares e c c := .lasts rfl rfl rfl (.inl rfl)

theorem Fares.id_eq (h : Fares e c c') : c'.id = c.id := by
  cases h with
  | lasts hid => exact hid
  | ends _ _ hid => exact hid

theorem Fares.trans (h : Fares e c c') (h' : Fares e c' c'') : Fares e c c'' := by
  cases h with
  | lasts hid hr ho hs =>
    cases h' with
    | lasts hid' hr' ho' hs' =>
      refine .lasts (hid'.trans hid) (hr'.trans hr) (ho'.trans ho) ?_
      rcases hs with hs | hs
      · rw [← hs]
        exact hs'
      · rcases hs' with hs' | hs'
        · exact .inr ⟨hs.1, hs'.symm ▸ hs.2⟩
        · exact .inr ⟨hs.1, hs'.2⟩
    | ends x hx hid' hs' hx' ho' hr' =>
      refine .ends x (hid ▸ hx) (hid'.trans hid) ?_ hx' ho' fun hopen => ?_
      · rcases hs with hs | hs
        · exact hs ▸ hs'
        · exact hs.1
      · rw [hr' (ho.trans hopen), hr]
  | ends x hx hid hs hx' ho hr =>
    have hend : c'.state.isTerminal = true := by rw [hx', x.isTerminal_state]
    cases h' with
    | lasts hid' hr' ho' hs' =>
      refine .ends x hx (hid'.trans hid) hs ?_ (ho'.trans ho) fun hopen => hr'.trans (hr hopen)
      rcases hs' with hs' | hs'
      · exact hs'.trans hx'
      · cases hend.symm.trans hs'.1
    | ends y _ _ hs' => cases hend.symm.trans hs'

theorem fares_apply (hs : d.suits c.state = true) (hf : e.Fits d) (he : e.isRecord = false)
    (hi : d.subject = some c.id) : Fares e c (d.apply c) := by
  cases d with
  | make | exhaust | skip => cases hi
  | invoke | take | forget => exact .lasts rfl rfl rfl (.inl rfl)
  | wait =>
    have hs : c.state = .notStarted := by simpa [Deed.suits] using hs
    exact .lasts rfl rfl rfl (.inr ⟨by rw [hs]; rfl, rfl⟩)
  | launch =>
    refine .lasts rfl rfl rfl (.inr ⟨?_, rfl⟩)
    have hs : c.state = .notStarted ∨ c.state = .queued := by simpa [Deed.suits] using hs
    rcases hs with hs | hs <;> rw [hs] <;> rfl
  | refuse =>
    cases hi
    refine .ends (.failed Fault.channelClosed.record) (.inr ⟨hf, .inr rfl⟩) (c.id_finish _ _) ?_
      rfl rfl fun ho => Pipeline.records_finish _ _ ho
    have hs : c.state = .notStarted ∨ c.state = .queued := by simpa [Deed.suits] using hs
    rcases hs with hs | hs <;> rw [hs] <;> rfl
  | record =>
    obtain ⟨g, rfl⟩ := hf
    cases he
  | conclude id x =>
    cases hi
    exact .ends x (.inl hf) (c.id_finish _ _) (by simpa [Deed.suits] using hs) rfl rfl
      fun ho => Pipeline.records_finish _ _ ho
  | halt =>
    cases hi
    exact .ends .stopped (.inr ⟨hf, .inl rfl⟩) (c.id_finish _ _) (by simpa [Deed.suits] using hs)
      rfl rfl fun ho => Pipeline.records_finish _ none ho

/-- A pipeline of a pool, or one that is new to it and has no records yet. -/
def Origin (p : Pool) (c : Pipeline) : Prop :=
  c ∈ p.pipelines ∨ (∀ b ∈ p.pipelines, b.id ≠ c.id) ∧ c.state = .notStarted ∧ c.records = [] ∧
    c.isOpen = true

theorem Deeds.fares (h : Deeds e.Fits p q) (hp : Accounted p) (hn : q.nextId ≤ UInt64.size)
    (he : e.isRecord = false) : ∀ c' ∈ q.pipelines, ∃ c, Origin p c ∧ Fares e c c' := by
  refine (h.keeps_accounted (I := fun r => p.nextId ≤ r.nextId ∧
    ∀ c' ∈ r.pipelines, ∃ c, Origin p c ∧ Fares e c c') hp hn
      ⟨Nat.le_refl _, fun c hc => ⟨c, .inl hc, .refl e c⟩⟩ ?_).2
  intro r r' d hf hd hacc hn' ⟨hle, ih⟩
  refine ⟨Nat.le_trans hle hd.moves.nextId_le, fun c' hc' => ?_⟩
  rw [hd.pipelines] at hc'
  rcases List.mem_append.1 hc' with hc' | hc'
  · obtain ⟨b, hb, rfl⟩ := List.mem_map.1 hc'
    obtain ⟨c, hc, hfare⟩ := ih b hb
    refine ⟨c, hc, ?_⟩
    by_cases hi : d.subject = some b.id
    · rw [if_pos hi]
      exact hfare.trans (fares_apply (hacc.suits hd hb hi) hf he hi)
    · rw [if_neg hi]
      exact hfare
  · -- a pipeline that is made has a number that no other has
    cases hd with
    | make commands ho hid =>
      obtain rfl := List.mem_singleton.1 hc'
      exact ⟨_, .inr ⟨fun b hb => hp.id_ne_of_ofRaw? hle hn' hid hb, rfl, rfl, rfl⟩, .refl e _⟩
    | _ => cases hc'

theorem fares_step (hp : Accounted p) (hn : (p.step e).nextId ≤ UInt64.size)
    (he : e.isRecord = false) : ∀ c' ∈ (p.step e).pipelines, ∃ c, Origin p c ∧ Fares e c c' := by
  obtain ⟨p₁, p₂, hp₁, hd, hq⟩ := stepCourse_step p e
  rw [hq.nextId] at hn
  have h := hd.deeds.fares (hp.of_sameWork hp₁.toSameWork) hn he
  rw [hq.pipelines]
  simpa only [Origin, hp₁.pipelines] using h

end Fares

/-- A record that arrives is placed on its stream if the pipeline runs. -/
theorem step_record {p : Pool} (hp : Accounted p) (generation : Nat) (id : PipelineId)
    (k : StreamKind) (v : Value) :
    p.step (.notice generation (.message (.toPipeline id (.record k v)))) =
      if generation = p.generation ∧ p.Runs id then p.modify id (·.push k v) else p := by
  change p.notice generation (.message (.toPipeline id (.record k v))) = _
  unfold notice
  by_cases hg : generation = p.generation
  · rw [if_pos hg]
    change p.receivePipeline id (.record k v) = _
    unfold receivePipeline
    cases hc : p.registered? id with
    | none =>
      refine (if_neg fun hr => ?_).symm
      -- what runs is registered
      obtain ⟨-, c, hc', hs⟩ := hr
      cases hc.symm.trans (hp.registered?_of_live hc' (by rw [hs]; rfl))
    | some c =>
      obtain ⟨hmem, rfl, -⟩ := registered?_eq_some hc
      have hruns : p.Runs c.id ↔ c.state = .running := by
        rw [Runs, hp.pipeline?_of_mem hmem]
        simp
      simp only [hg, hruns, true_and]
      rfl
  · rw [if_neg hg, if_neg fun hr => hg hr.1]

/-! ## Where records come from -/

/-- The state of the pipeline with a number, if there is one. -/
def stateOf? (p : Pool) (id : PipelineId) : Option PipelineState := (p.pipeline? id).map (·.state)

/-- Where the records of a pipeline come from: from the events that brought them while it ran, and
if it failed one from the event that made it fail. Its streams are open until it ends. -/
structure Told (start : Pool) (events : List Event) (c : Pipeline) : Prop where
  isOpen_eq : c.isOpen = !c.state.isTerminal
  records_eq : ∃ last : List Value,
    c.records = start.delivered c.id events ++ last.map (Prod.mk .error) ∧
    (c.state ≠ .failed → last = []) ∧
    (c.state = .failed → ∃ before e after, events = before ++ e :: after ∧
      (start.run before).stateOf? c.id ≠ some .failed ∧
      ((start.run before).step e).stateOf? c.id = some .failed ∧
      ∃ v : Value, last = [v] ∧ v.Reports (e.blame c.id).1 (e.blame c.id).2)

section Told

variable {start : Pool} {events : List Event} {e : Event} {c c' : Pipeline}

/-- What a pipeline was told so far is what it was told before if an event brings it nothing and
leaves it alone. -/
theorem Told.lasts (h : Told start events c) (hb : (start.run events).brought c.id e = [])
    (hid : c'.id = c.id) (hr : c'.records = c.records) (ho : c'.isOpen = c.isOpen)
    (hs : c'.state = c.state ∨ c.state.isTerminal = false ∧ c'.state.isTerminal = false) :
    Told start (events ++ [e]) c' := by
  have hend : c'.state.isTerminal = c.state.isTerminal := by
    rcases hs with hs | ⟨hs, hs'⟩
    · rw [hs]
    · rw [hs, hs']
  have hfailed : c'.state = .failed ↔ c.state = .failed := by
    rcases hs with hs | ⟨hs, hs'⟩
    · rw [hs]
    · constructor <;> intro hf
      · rw [hf] at hs'
        cases hs'
      · rw [hf] at hs
        cases hs
  obtain ⟨last, hrec, hnone, hlast⟩ := h.records_eq
  refine ⟨by rw [ho, hend, h.isOpen_eq], last, ?_, fun hf => hnone (hfailed.not.1 hf), fun hf => ?_⟩
  · rw [hr, hid, delivered_append, hb, List.append_nil, hrec]
  · obtain ⟨before, e', after, rfl, hrest⟩ := hlast (hfailed.1 hf)
    rw [hid]
    exact ⟨before, e', after ++ [e], by simp, hrest⟩

theorem Told.ends (h : Told start events c) {x : Ending}
    (hb : (start.run events).brought c.id e = []) (hx : e.Ends c.id x) (hid : c'.id = c.id)
    (hs : c.state.isTerminal = false) (hs' : c'.state = x.state) (ho : c'.isOpen = false)
    (hr : c.isOpen = true → c'.records = c.records ++ x.last.toList.map (Prod.mk .error))
    (hbefore : (start.run events).stateOf? c.id ≠ some .failed)
    (hafter : ((start.run events).step e).stateOf? c.id = some c'.state) :
    Told start (events ++ [e]) c' := by
  obtain ⟨last, hrec, hnone, -⟩ := h.records_eq
  have hnil : last = [] := hnone fun hf => by rw [hf] at hs; cases hs
  subst hnil
  have hopen : c.isOpen = true := by rw [h.isOpen_eq, hs]; rfl
  refine ⟨by rw [ho, hs', x.isTerminal_state]; rfl, x.last.toList, ?_, fun hf => ?_, fun hf => ?_⟩
  · rw [hr hopen, hid, delivered_append, hb, List.append_nil, hrec, List.map_nil, List.append_nil]
  · rw [hs'] at hf
    cases x <;> first | rfl | exact absurd rfl hf
  · rw [hs'] at hf
    rw [hs', hf] at hafter
    rw [hid]
    refine ⟨events, e, [], rfl, hbefore, hafter, ?_⟩
    cases x with
    | failed r => exact ⟨r, rfl, hx.reports⟩
    | completed | stopped => cases hf

theorem Told.push (h : Told start events c) (hs : c.state = .running) {k : StreamKind} {v : Value}
    (hb : (start.run events).brought c.id e = [(k, v)]) :
    Told start (events ++ [e]) (c.push k v) := by
  have hopen : c.isOpen = true := by rw [h.isOpen_eq, hs]; rfl
  obtain ⟨last, hrec, hnone, -⟩ := h.records_eq
  have hnil : last = [] := hnone (by simp [hs])
  subst hnil
  refine ⟨?_, [], ?_, fun _ => rfl, fun hf => ?_⟩
  · rw [c.isOpen_push, c.state_push, h.isOpen_eq]
  · rw [c.records_push hopen, c.id_push, delivered_append, hb, hrec, List.map_nil, List.append_nil,
      List.append_nil]
  · rw [c.state_push, hs] at hf
    cases hf

end Told

/-! ## Steps -/

section Steps

variable {p q : Pool} {e : Event} {c c' : Pipeline} {d : Deed} {id : PipelineId}

theorem Does.ids_prefix (h : Does p d q) :
    p.pipelines.map (·.id) <+: q.pipelines.map (·.id) := by
  refine ⟨d.born.map (·.id), ?_⟩
  rw [h.pipelines, List.map_append, List.map_map]
  congr 1
  refine List.map_congr_left fun c _ => ?_
  rw [Function.comp_apply]
  split
  · exact (d.id_apply c).symm
  · rfl

theorem ids_prefix_step (p : Pool) (e : Event) :
    p.pipelines.map (·.id) <+: (p.step e).pipelines.map (·.id) := by
  obtain ⟨p₁, p₂, hp, hd, hq⟩ := stepCourse_step p e
  rw [hq.pipelines, ← hp.pipelines]
  refine hd.deeds.keeps (I := fun r => p₁.pipelines.map (·.id) <+: r.pipelines.map (·.id))
    (List.prefix_refl _) ?_
  intro r r' d _ h hr
  exact hr.trans h.ids_prefix

theorem runs_iff (hp : Accounted p) (hc : c ∈ p.pipelines) : p.Runs c.id ↔ c.state = .running := by
  rw [Runs, hp.pipeline?_of_mem hc]
  simp

/-- **A pipeline that has ended stays as it is.** -/
theorem rests_step (hp : Accounted p) (hn : (p.step e).nextId ≤ UInt64.size) (hc : c ∈ p.pipelines)
    (ht : c.state.isTerminal = true) (hc' : c' ∈ (p.step e).pipelines) (hid : c'.id = c.id) :
    c'.state = c.state ∧ c'.records = c.records := by
  cases he : e.isRecord with
  | false =>
    obtain ⟨b, hb, hfare⟩ := fares_step hp hn he c' hc'
    have hbid : b.id = c.id := hfare.id_eq.symm.trans hid
    rcases hb with hb | ⟨hnew, -⟩
    · obtain rfl := hp.eq_of_id_eq hb hc hbid
      cases hfare with
      | lasts _ hr _ hs =>
        rcases hs with hs | hs
        · exact ⟨hs, hr⟩
        · cases ht.symm.trans hs.1
      | ends _ _ _ hs => cases ht.symm.trans hs
    · exact absurd hbid.symm (hnew c hc)
  | true =>
    unfold Event.isRecord at he
    split at he
    · next generation i k v =>
      rw [show Message.mk (.pipeline i) (.record k v) = .toPipeline i (.record k v) from rfl,
        step_record hp] at hc'
      split at hc'
      · next hr =>
        obtain ⟨b, hb, rfl⟩ := List.mem_map.1 hc'
        have hbid : b.id = c.id := by
          split at hid
          · exact (b.id_push k v).symm.trans hid
          · exact hid
        obtain rfl := hp.eq_of_id_eq hb hc hbid
        -- what has ended does not run
        rw [if_neg]
        · exact ⟨rfl, rfl⟩
        · rintro rfl
          rw [(runs_iff hp hb).1 hr.2] at ht
          cases ht
      · exact hp.eq_of_id_eq hc' hc hid ▸ ⟨rfl, rfl⟩
    · cases he

end Steps

/-! ## Runs -/

section Runs

variable {start : Pool} {c : Pipeline}

theorem delivered_of_not_mem {id : PipelineId} (events : List Event)
    (h : id ∉ (start.run events).pipelines.map (·.id)) : start.delivered id events = [] := by
  induction events using List.reverseRecOn with
  | nil => rfl
  | append_singleton events e ih =>
    rw [run_append] at h
    have hbefore : id ∉ (start.run events).pipelines.map (·.id) := fun hmem =>
      h ((ids_prefix_step _ e).subset hmem)
    rw [delivered_append, ih hbefore, brought_of_not_runs, List.append_nil]
    rintro ⟨b, hb, -⟩
    obtain ⟨hmem, rfl⟩ := pipeline?_eq_some hb
    exact hbefore (List.mem_map_of_mem hmem)

theorem stateOf?_of_pipeline? {p : Pool} {i : PipelineId} (hc : p.pipeline? i = some c) :
    p.stateOf? i = some c.state := by
  rw [stateOf?, hc]
  rfl

theorem stateOf?_of_mem {p : Pool} (hp : Accounted p) (hc : c ∈ p.pipelines) :
    p.stateOf? c.id = some c.state :=
  stateOf?_of_pipeline? (hp.pipeline?_of_mem hc)

theorem Accounted.mem_queue_iff {p : Pool} {i : PipelineId} (hp : Accounted p) :
    i ∈ p.queue ↔ p.stateOf? i = some .queued :=
  (hp.mem_queue i).trans Option.map_eq_some_iff.symm

/-- A pipeline that an event finds or makes has only records that were brought to it. -/
theorem told_origin {events : List Event}
    (h : ∀ c ∈ (start.run events).pipelines, Told start events c)
    (hc : Origin (start.run events) c) : Told start events c := by
  rcases hc with hc | ⟨hnew, hs, hr, ho⟩
  · exact h c hc
  · refine ⟨by rw [ho, hs]; rfl, [], ?_, fun _ => rfl, fun hf => ?_⟩
    · rw [hr, delivered_of_not_mem]
      · rfl
      · intro hmem
        obtain ⟨b, hb, hbid⟩ := List.mem_map.1 hmem
        exact hnew b hb hbid
    · rw [hs] at hf
      cases hf

theorem stateOf?_origin {p : Pool} (hp : Accounted p) (hc : Origin p c)
    (hs : c.state.isTerminal = false) : p.stateOf? c.id ≠ some .failed := by
  intro hf
  rcases hc with hc | ⟨hnew, -⟩
  · rw [stateOf?_of_mem hp hc] at hf
    rw [Option.some.inj hf] at hs
    cases hs
  · rw [stateOf?, Option.map_eq_some_iff] at hf
    obtain ⟨b, hb, -⟩ := hf
    exact hnew b (pipeline?_eq_some hb).1 (pipeline?_eq_some hb).2

/-- **Pipelines are told what events bring them.** -/
theorem told_run (hp : Accounted start) (h0 : start.pipelines = []) (events : List Event)
    (hn : (start.run events).nextId ≤ UInt64.size) :
    ∀ c ∈ (start.run events).pipelines, Told start events c := by
  induction events using List.reverseRecOn with
  | nil =>
    intro c hc
    change c ∈ start.pipelines at hc
    rw [h0] at hc
    cases hc
  | append_singleton events e ih =>
    rw [run_append] at hn ⊢
    have hn' := Nat.le_trans (stepMoves_step (start.run events) e).nextId_le hn
    have hacc := hp.run events hn'
    have ih := ih hn'
    intro c' hc'
    cases he : e.isRecord with
    | false =>
      obtain ⟨c, hc, hfare⟩ := fares_step hacc hn he c' hc'
      have htold := told_origin ih hc
      have hb : (start.run events).brought c.id e = [] := brought_of_not_isRecord he
      cases hfare with
      | lasts hid hr ho hs => exact htold.lasts hb hid hr ho hs
      | ends x hx hid hs hs' ho hr =>
        refine htold.ends hb hx hid hs hs' ho hr (stateOf?_origin hacc hc hs) ?_
        rw [← hid]
        exact stateOf?_of_mem ((stepMoves_step _ e).accounted hacc hn) hc'
    | true =>
      unfold Event.isRecord at he
      split at he
      · next generation i k v =>
        have hbrought : ∀ b ∈ (start.run events).pipelines, (start.run events).brought b.id
            (.notice generation (.message (.toPipeline i (.record k v)))) =
              if generation = (start.run events).generation ∧ i = b.id ∧
                (start.run events).Runs b.id then [(k, v)] else [] := fun _ _ => rfl
        change c' ∈ ((start.run events).step
          (.notice generation (.message (.toPipeline i (.record k v))))).pipelines at hc'
        rw [step_record hacc] at hc'
        split at hc'
        · next hr =>
          obtain ⟨c, hc, rfl⟩ := List.mem_map.1 hc'
          by_cases hi : c.id = i
          · subst hi
            rw [if_pos rfl]
            refine (ih c hc).push ((runs_iff hacc hc).1 hr.2) ?_
            exact (hbrought c hc).trans (if_pos ⟨hr.1, rfl, hr.2⟩)
          · rw [if_neg hi]
            refine (ih c hc).lasts ?_ rfl rfl rfl (.inl rfl)
            exact (hbrought c hc).trans (if_neg fun h => hi h.2.1.symm)
        · next hr =>
          refine (ih c' hc').lasts ?_ rfl rfl rfl (.inl rfl)
          refine (hbrought c' hc').trans (if_neg ?_)
          rintro ⟨hg, rfl, hruns⟩
          exact hr ⟨hg, hruns⟩
      · cases he

theorem rests_run (hp : Accounted start) (more : List Event)
    (hn : (start.run more).nextId ≤ UInt64.size) {c' : Pipeline} (hc : c ∈ start.pipelines)
    (ht : c.state.isTerminal = true) (hc' : c' ∈ (start.run more).pipelines) (hid : c'.id = c.id) :
    c'.state = c.state ∧ c'.records = c.records := by
  induction more generalizing start c with
  | nil => exact hp.eq_of_id_eq hc' hc hid ▸ ⟨rfl, rfl⟩
  | cons e more ih =>
    have hn' : (start.step e).nextId ≤ UInt64.size := Nat.le_trans (nextId_le_run _ more) hn
    have hmem : c.id ∈ (start.step e).pipelines.map (·.id) :=
      (ids_prefix_step start e).subset (List.mem_map_of_mem hc)
    obtain ⟨b, hb, hbid⟩ := List.mem_map.1 hmem
    obtain ⟨hs, hr⟩ := rests_step hp hn' hc ht hb hbid
    obtain ⟨hs', hr'⟩ := ih ((stepMoves_step start e).accounted hp hn') hn hb (hs ▸ ht) hc'
      (hid.trans hbid.symm)
    exact ⟨hs'.trans hs, hr'.trans hr⟩

theorem filter_append_faults (records : List (StreamKind × Value)) (last : List Value)
    (k : StreamKind) :
    ((records ++ last.map (Prod.mk StreamKind.error)).filter (·.1 = k)).map (·.2) =
      (records.filter (·.1 = k)).map (·.2) ++ if k = .error then last else [] := by
  rw [List.filter_append, List.map_append]
  congr 1
  by_cases hk : k = .error
  · rw [if_pos hk, List.filter_eq_self.2, List.map_map]
    · exact List.map_id _
    · simp [hk]
  · rw [if_neg hk, List.filter_eq_nil_iff.2]
    · rfl
    · simp [Ne.symm hk]

/-- **The streams of the pipelines of a pool after any events,** as long as there were numbers for
the pipelines.

A stream holds the records that the host sent on it over the channel that counts while the pipeline
ran, in order. The error stream of a pipeline that failed ends with one more record, which gives the
category and the message of what made it fail: what the host says, what has become of the message
or of the channel, or that the host could not be asked to run it. No other stream of any pipeline
has such a record. The streams of a pipeline have ended exactly if it has, and a pipeline that had
ended before is as it was then. -/
theorem streams_of_run (id : PoolId) (options : PoolOptions) (events : List Event)
    (hn : ((new id options).run events).nextId ≤ UInt64.size) :
    let start := new id options
    ∀ c ∈ (start.run events).pipelines,
      c.hasEnded = c.state.isTerminal ∧
      (∃ last : List Value,
        (∀ k, c.stream k = ((start.delivered c.id events).filter (·.1 = k)).map (·.2) ++
          if k = .error then last else []) ∧
        (c.state ≠ .failed → last = []) ∧
        (c.state = .failed → ∃ before e after, events = before ++ e :: after ∧
          (start.run before).stateOf? c.id ≠ some .failed ∧
          ((start.run before).step e).stateOf? c.id = some .failed ∧
          ∃ v : Value, last = [v] ∧ v.Reports (e.blame c.id).1 (e.blame c.id).2)) ∧
      ∀ before after, events = before ++ after → ∀ b ∈ (start.run before).pipelines,
        b.id = c.id → b.state.isTerminal = true → c.state = b.state ∧ c.records = b.records := by
  intro start c hc
  have hacc : Accounted start := accounted_new id options
  have htold := told_run hacc rfl events hn c hc
  obtain ⟨last, hrec, hnone, hlast⟩ := htold.records_eq
  refine ⟨?_, ⟨last, fun k => ?_, hnone, hlast⟩, ?_⟩
  · rw [Pipeline.hasEnded, htold.isOpen_eq, Bool.not_not]
  · rw [Pipeline.stream, hrec, filter_append_faults]
  · rintro before after rfl b hb hid ht
    change (start.run _).nextId ≤ _ at hn
    rw [← run_run] at hn hc
    have hn' := Nat.le_trans (nextId_le_run _ after) hn
    exact rests_run (hacc.run before hn') after hn hb ht hc hid.symm

/-- A pipeline that brings one record on its output and then fails because the host says so. -/
theorem streams_of_run_failed :
    let v : Value := ⟨.string "A record", rfl⟩
    let start := new (.ofDraw 0) { maxRunspaces := 1 }
    let events : List Event := [.beginOpen, .connected .opening,
      .notice 1 (.message (.toPool (.poolState .opened none))), .submit [⟨"Get-Item", []⟩],
      .notice 1 (.message (.toPipeline ⟨1, by decide⟩ (.record .output v))),
      .notice 1 (.message (.toPipeline ⟨1, by decide⟩ (.pipelineState .failed none)))]
    (start.run events).nextId = 2 ∧
      ∃ c ∈ (start.run events).pipelines, c.state = .failed ∧ c.hasEnded = true ∧
        c.stream .output = [v] ∧ ∃ r : Value, c.stream .error = [r] ∧
          r.json = .object [("category", .string "RemoteError"),
            ("message", .string "Remote pipeline failed")] := by
  intro v start events
  have hn : (start.run events).nextId = 2 := by decide
  have hfound : ∃ c ∈ (start.run events).pipelines, c.id = ⟨1, by decide⟩ ∧ c.state = .failed := by
    decide
  obtain ⟨c, hc, hid, hs⟩ := hfound
  obtain ⟨hended, ⟨last, hstream, -, hlast⟩, -⟩ := streams_of_run (.ofDraw 0) { maxRunspaces := 1 }
    events (by rw [hn]; decide) c hc
  obtain ⟨before, e, after, hsplit, -, hfailed, r, rfl, hr⟩ := hlast hs
  rw [hid] at hfailed hr
  -- it fails by the last event only
  have hnever : ∀ n < 6, (start.run (events.take n)).stateOf? ⟨1, by decide⟩ ≠ some .failed := by
    decide
  have htake : before ++ [e] = events.take (before.length + 1) := by
    rw [hsplit, List.take_length_add_append]
    rfl
  have hlong : ¬ before.length + 1 < 6 := fun hlt => by
    rw [← run_append, htake] at hfailed
    exact hnever _ hlt hfailed
  have hlength : 6 = before.length + (after.length + 1) :=
    (congrArg List.length hsplit).trans List.length_append
  have hbefore : before.length = 5 := by omega
  have he : events[5]? = some e := by
    rw [hsplit, ← hbefore, List.getElem?_append_right (Nat.le_refl _), Nat.sub_self]
    rfl
  obtain rfl := Option.some.inj he
  refine ⟨hn, c, hc, hs, by rw [hended, hs]; rfl, ?_, r, ?_, hr⟩
  · rw [hstream, hid]
    rfl
  · rw [hstream, hid]
    rfl

end Runs

end Pool

end Runspace
