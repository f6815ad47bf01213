import Runspace.Proofs.Channel.Closing
import Runspace.Proofs.Channel.Sending
import Runspace.Proofs.Client.Acts
import Runspace.Proofs.Pool.Faults
import Runspace.Proofs.Pool.Outbox
import Runspace.Proofs.Pool.Ownership

/-!
# Links — the connections of a client, and what its pool asks of them

What a pool wants done on a channel is done on the connection of that channel: messages are queued
there, and it is shut down. A connection that has done so all along, and of which the pool has heard
all that it told, is linked to the channel.

* `Effect.errand?`, `errands`: what effects ask of a connection;
* **`links_update`**, `links_update_started`: what carrying effects out makes of all connections;
* `heardOn`, `Linked`: a connection and what was heard of it;
* **`Linked.gone`**: a connection that accepts no more messages has told of its end, or was given up.
-/

namespace Runspace

/-! ## Errands -/

/-- What an effect asks of the connection of a generation. -/
def Effect.errand? (g : Option Nat) : Effect → Option Connection.Event
  | .queued n m => if g = some n then some (.send m) else none
  | .released n => if g = some n then some .shutDown else none
  | _ => none

/-- What some effects ask of the connection of a generation, in order. -/
def errands (g : Option Nat) (es : List Effect) : List Connection.Event :=
  es.filterMap (·.errand? g)

theorem errands_append (g : Option Nat) (before after : List Effect) :
    errands g (before ++ after) = errands g before ++ errands g after :=
  List.filterMap_append

theorem queuedBy_errands (g : Nat) (es : List Effect) :
    Connection.queuedBy (errands (some g) es) = es.filterMap (·.sentOn? g) := by
  unfold Connection.queuedBy errands
  rw [List.filterMap_filterMap]
  refine List.filterMap_congr fun e _ => ?_
  cases e with
  | queued n m =>
    by_cases hn : n = g
    · simp [Effect.errand?, Effect.sentOn?, hn]
    · simp [Effect.errand?, Effect.sentOn?, hn, Ne.symm hn]
  | released n =>
    by_cases hn : g = n <;> simp [Effect.errand?, Effect.sentOn?, hn]
  | started | entered | resolved => rfl

theorem shutDown_mem_errands {g : Nat} {es : List Effect} :
    .shutDown ∈ errands (some g) es ↔ g ∈ es.filterMap (·.released?) := by
  simp only [errands, List.mem_filterMap]
  refine exists_congr fun e => and_congr_right fun _ => ?_
  cases e with
  | queued n m => by_cases hn : g = n <;> simp [Effect.errand?, Effect.released?, hn]
  | released n => by_cases hn : g = n <;> simp [Effect.errand?, Effect.released?, hn, eq_comm]
  | started | entered | resolved => simp [Effect.errand?, Effect.released?]

theorem eq_of_mem_errands {g : Option Nat} {es : List Effect} {e : Connection.Event}
    (he : e ∈ errands g es) : (∃ m, e = .send m) ∨ e = .shutDown := by
  obtain ⟨x, -, hx⟩ := List.mem_filterMap.1 he
  cases x with
  | queued n m =>
    obtain ⟨-, h⟩ := Option.ite_none_right_eq_some.1 hx
    exact .inl ⟨m, (Option.some.inj h).symm⟩
  | released n =>
    obtain ⟨-, h⟩ := Option.ite_none_right_eq_some.1 hx
    exact .inr (Option.some.inj h).symm
  | started | entered | resolved => cases hx

namespace Connection

theorem run_errands (k : Connection) (g : Option Nat) (es : List Effect) :
    (k.run (errands g es)).2 = [] := by
  refine List.eq_nil_iff_forall_not_mem.2 fun n hn => ?_
  obtain ⟨before, e, after, hsplit, htold⟩ := step_of_mem_run hn
  rcases eq_of_mem_errands (hsplit ▸ List.mem_append_right _ List.mem_cons_self) with
    ⟨m, rfl⟩ | rfl <;> cases htold

end Connection

/-! ## Channels that are started -/

namespace Pool

section Started

variable {p q : Pool} {e : Event}

theorem Effect.started?_of_within {x : Effect} (h : x.Within p) : x.started? = none := by
  cases x with
  | started => exact h.elim
  | _ => rfl

theorem Speaks.started (h : Speaks p q) : q.started = p.started :=
  Adds.filterMap_eq (Adds.mono h fun _ he => Effect.started?_of_within he)

theorem Talk.started (h : Talk p e q) : q.started = p.started ∨
    ∃ a, e = .connected a ∧ q.outbox = p.outbox ++ [.started (p.generation + 1),
      .queued (p.generation + 1) (.toPool (p.hello a))] := by
  cases h with
  | converse hs | answer _ hs => exact .inl hs.started
  | greet hout => exact .inr ⟨_, rfl, hout⟩
  | leave hr hq =>
    refine .inl (Eq.trans ?_ hr.started)
    rcases hq with hq | ⟨l, -, hq⟩
    · exact hq.speaks.started
    · refine hq.speaks.started.trans ?_
      rw [Pool.started, emit, List.filterMap_append]
      exact List.append_nil _

theorem started_run {events : List Event} (he : ∀ a, .connected a ∉ events) :
    (p.run events).started = p.started := by
  induction events generalizing p with
  | nil => rfl
  | cons e events ih =>
    refine (ih fun a ha => he a (List.mem_cons_of_mem _ ha)).trans ?_
    rcases (turn_step p e).talk.started with h | ⟨a, rfl, -⟩
    · exact h
    · exact absurd List.mem_cons_self (he a)

end Started

end Pool

namespace Client

/-! ## Links under effects -/

section Links

variable {c : Client} {q : Pool}

theorem links_modifyConnection (c : Client) (g : Nat) (f : Connection → Connection) :
    (c.modifyConnection g f).links =
      c.links.map fun l => (l.1, if l.1 = some g then f l.2 else l.2) := by
  simp only [links, modifyConnection, List.map_map]
  refine List.map_congr_left fun s _ => ?_
  simp only [Function.comp_apply]
  split <;> rfl

/-- The link of a session among the others, and what a change of the session makes of it. -/
theorem links_of_session {i : Nat} {s : Session} (hs : c.sessions[i]? = some s) :
    ∃ before after, c.links = before ++ (s.generation, s.connection) :: after ∧
      ∀ f : Session → Session, (c.modifySession i f).links =
        before ++ ((f s).generation, (f s).connection) :: after := by
  obtain ⟨hi, rfl⟩ := List.getElem?_eq_some_iff.1 hs
  refine ⟨(c.sessions.take i).map fun s => (s.generation, s.connection),
    (c.sessions.drop (i + 1)).map fun s => (s.generation, s.connection), ?_, fun f => ?_⟩
  · have hcut := congrArg (List.map fun s : Session => (s.generation, s.connection))
      (List.take_append_drop i c.sessions)
    rwa [List.drop_eq_getElem_cons hi, List.map_append, List.map_cons, eq_comm] at hcut
  · rw [links, modifySession, List.modify_eq_take_cons_drop hi, List.map_append, List.map_cons]

theorem links_perform (c : Client) {e : Effect} (he : e.started? = none) :
    (c.perform e).links = c.links.map fun l => (l.1, (l.2.run (errands l.1 [e])).1) := by
  have hnone : c.links = c.links.map fun l => (l.1, l.2) := (List.map_id' c.links).symm
  cases e with
  | started => cases he
  | queued g m =>
    rw [perform, (aside_scheduleWriter _ g).links, links_modifyConnection]
    refine List.map_congr_left fun l _ => ?_
    by_cases hl : l.1 = some g <;> simp [errands, Effect.errand?, hl, Connection.run,
      Connection.step]
  | released g =>
    rw [perform, (aside_scheduleWriter _ g).links, links_modifyConnection]
    refine List.map_congr_left fun l _ => ?_
    by_cases hl : l.1 = some g <;> simp [errands, Effect.errand?, hl, Connection.run,
      Connection.step]
  | entered i | resolved a => exact (aside_scheduleCalls c _).links.trans hnone

theorem links_perform_started {ss : List Session} {s : Session} (hc : c.sessions = ss ++ [s])
    (g : Nat) : (c.perform (.started g)).links =
      ss.map (fun s => (s.generation, s.connection)) ++ [(some g, s.connection)] := by
  have hmodify : ∀ (ss : List Session) (f : Session → Session),
      (ss ++ [s]).modify ss.length f = ss ++ [f s] := by
    intro ss f
    induction ss with
    | nil => rfl
    | cons s' ss ih => exact congrArg (s' :: ·) ih
  rw [perform, (aside_schedule _ _).links, (aside_schedule _ _).links]
  simp [links, modifySession, hc, hmodify]

theorem pool_perform (c : Client) (e : Effect) : (c.perform e).pool = c.pool := by
  cases e with
  | started g => rw [perform, (aside_schedule _ _).pool, (aside_schedule _ _).pool]; rfl
  | queued g m => rw [perform, (aside_scheduleWriter _ g).pool]; rfl
  | released g => rw [perform, (aside_scheduleWriter _ g).pool]; rfl
  | entered i | resolved a => exact (aside_scheduleCalls c _).pool

theorem isDropped_perform (c : Client) (e : Effect) : (c.perform e).isDropped = c.isDropped := by
  cases e with
  | started g => rw [perform, (aside_schedule _ _).isDropped, (aside_schedule _ _).isDropped]; rfl
  | queued g m => rw [perform, (aside_scheduleWriter _ g).isDropped]; rfl
  | released g => rw [perform, (aside_scheduleWriter _ g).isDropped]; rfl
  | entered i | resolved a => exact (aside_scheduleCalls c _).isDropped

theorem links_performAll (es : List Effect) (hes : ∀ e ∈ es, e.started? = none) (c : Client) :
    (es.foldl perform c).links = c.links.map fun l => (l.1, (l.2.run (errands l.1 es)).1) := by
  induction es generalizing c with
  | nil => exact (List.map_id' c.links).symm
  | cons e es ih =>
    rw [List.foldl_cons, ih (fun e he => hes e (List.mem_cons_of_mem _ he)),
      links_perform c (hes e List.mem_cons_self), List.map_map]
    refine List.map_congr_left fun l _ => ?_
    rw [show e :: es = [e] ++ es from rfl, errands_append, Connection.run_append]
    rfl

theorem pool_update (c : Client) (q : Pool) : (c.update q).pool = q.emptied := by
  unfold update
  have hfold : ∀ (es : List Effect) (d : Client), (es.foldl perform d).pool = d.pool := by
    intro es
    induction es with
    | nil => exact fun _ => rfl
    | cons e es ih => exact fun d => (ih _).trans (pool_perform d e)
  exact hfold _ _

theorem isDropped_update (c : Client) (q : Pool) : (c.update q).isDropped = c.isDropped := by
  unfold update
  have hfold : ∀ (es : List Effect) (d : Client),
      (es.foldl perform d).isDropped = d.isDropped := by
    intro es
    induction es with
    | nil => exact fun _ => rfl
    | cons e es ih => exact fun d => (ih _).trans (isDropped_perform d e)
  exact hfold _ _

theorem isDropped_worked (c : Client) (i g : Nat) (result : Connection × List Notice)
    (tells : Bool) : (c.worked i g result tells).isDropped = c.isDropped := by
  unfold worked hear
  cases tells
  · exact isDropped_update _ _
  · exact (isDropped_update _ _).trans (isDropped_update _ _)

theorem links_update (c : Client) (hq : q.started = []) : (c.update q).links =
    c.links.map fun l => (l.1, (l.2.run (errands l.1 q.outbox)).1) :=
  links_performAll q.outbox (List.filterMap_eq_nil_iff.1 hq) _

theorem links_update_started {es : List Effect} {s : Session} {g : Nat}
    (hq : q.outbox = .started g :: es) (hes : ∀ e ∈ es, e.started? = none) :
    (({ c with sessions := c.sessions ++ [s] } : Client).update q).links =
      (c.links ++ [(some g, s.connection)]).map fun l =>
        (l.1, (l.2.run (errands l.1 q.outbox)).1) := by
  rw [update, hq, List.foldl_cons, links_performAll es hes, links_perform_started rfl]
  rfl

end Links

/-! ## Linked connections -/

/-- What a pool has heard of a channel in some events. -/
def heardOn (g : Nat) (events : List Pool.Event) : List Notice :=
  events.filterMap fun
    | .notice n x => if n = g then some x else none
    | _ => none

theorem heardOn_append (g : Nat) (before after : List Pool.Event) :
    heardOn g (before ++ after) = heardOn g before ++ heardOn g after :=
  List.filterMap_append

theorem heardOn_notices (g : Nat) (ns : List Notice) :
    heardOn g (ns.map (Pool.Event.notice g)) = ns := by
  simp [heardOn, List.filterMap_map]

theorem heardOn_notices_of_ne {g g' : Nat} (hg : g' ≠ g) (ns : List Notice) :
    heardOn g (ns.map (Pool.Event.notice g')) = [] := by
  simp [heardOn, List.filterMap_map, hg]

theorem split_of_mem_heardOn {g : Nat} {events : List Pool.Event} {n : Notice}
    (hn : n ∈ heardOn g events) : ∃ before after, events = before ++ .notice g n :: after := by
  obtain ⟨e, he, hx⟩ := List.mem_filterMap.1 hn
  obtain ⟨before, after, rfl⟩ := List.append_of_mem he
  cases e with
  | notice g' n' =>
    obtain ⟨rfl, hn'⟩ := Option.ite_none_right_eq_some.1 hx
    rw [Option.some.inj hn']
    exact ⟨before, after, rfl⟩
  | _ => cases hx

/-- A connection has gone through a run since it was started, and told what was heard. What was
queued on it is what a pool has said on its channel, it was shut down exactly if the pool has given
the channel up, and it was let go only if the pool was dropped. -/
def Linked (options : PoolOptions) (p : Pool) (isDropped : Bool) (g : Nat) (k : Connection)
    (heard : List Notice) : Prop :=
  ∃ (conduct : SinkConduct) (first : Connection) (moves : List Connection.Event),
    Connection.start options.maxFragmentSize options.maxMessageSize { conduct } = .ok first ∧
      first.run moves = (k, heard) ∧ Connection.queuedBy moves = p.sentOn g ∧
      (.shutDown ∈ moves ↔ g ∈ p.released) ∧
      (isDropped = false → .release ∉ moves ∧ .dropHandler ∉ moves)

section Linked

variable {options : PoolOptions} {p q : Pool} {isDropped : Bool} {g : Nat} {k : Connection}
  {heard : List Notice} {e : Connection.Event}

theorem linked_start (hs : p.sentOn g = []) (hr : g ∉ p.released) {conduct : SinkConduct}
    (hk : Connection.start options.maxFragmentSize options.maxMessageSize { conduct } = .ok k) :
    Linked options p isDropped g k [] :=
  ⟨conduct, k, [], hk, rfl, hs.symm, by simpa using hr, fun _ => by simp⟩

theorem Linked.step (h : Linked options p isDropped g k heard)
    (he : e.isWork = true ∨ ∃ conduct, e = .conduct conduct) :
    Linked options p isDropped g (k.step e).1 (heard ++ (k.step e).2) := by
  obtain ⟨conduct, first, moves, hfirst, hrun, hqueued, hshut, hheld⟩ := h
  have hother : (∀ m, e ≠ .send m) ∧ e ≠ .shutDown ∧ e ≠ .release ∧ e ≠ .dropHandler := by
    rcases he with he | ⟨conduct, rfl⟩
    · cases e with
      | turn | arrive => simp
      | _ => cases he
    · simp
  refine ⟨conduct, first, moves ++ [e], hfirst, ?_, ?_, ?_, fun hd => ?_⟩
  · rw [Connection.run_append, hrun]
    simp [Connection.run]
  · rw [Connection.queuedBy_append, hqueued]
    cases e <;> first | exact List.append_nil _ | exact absurd rfl (hother.1 _)
  · simp [hshut, hother.2.1.symm]
  · simp [hheld hd, hother.2.2.1.symm, hother.2.2.2.symm]

theorem Linked.errands (h : Linked options p isDropped g k heard) {es : List Effect}
    (hq : q.outbox = p.outbox ++ es) :
    Linked options q isDropped g (k.run (errands (some g) es)).1 heard := by
  obtain ⟨conduct, first, moves, hfirst, hrun, hqueued, hshut, hheld⟩ := h
  refine ⟨conduct, first, moves ++ Runspace.errands (some g) es, hfirst, ?_, ?_, ?_, fun hd => ?_⟩
  · rw [Connection.run_append, hrun, Connection.run_errands, List.append_nil]
  · rw [Connection.queuedBy_append, queuedBy_errands, hqueued, Pool.sentOn, Pool.sentOn, hq,
      List.filterMap_append]
  · rw [List.mem_append, hshut, shutDown_mem_errands, Pool.released, Pool.released, hq,
      List.filterMap_append, List.mem_append]
  · have hnot : ∀ e ∈ Runspace.errands (some g) es, e ≠ .release ∧ e ≠ .dropHandler := by
      intro e he
      rcases eq_of_mem_errands he with ⟨m, rfl⟩ | rfl <;> simp
    simp only [List.mem_append, not_or]
    exact ⟨⟨(hheld hd).1, fun he => (hnot _ he).1 rfl⟩, (hheld hd).2, fun he => (hnot _ he).2 rfl⟩

theorem Linked.drop (h : Linked options p isDropped g k heard) :
    Linked options p true g k.dropHandler.release heard := by
  obtain ⟨conduct, first, moves, hfirst, hrun, hqueued, hshut, -⟩ := h
  refine ⟨conduct, first, moves ++ [.dropHandler, .release], hfirst, ?_, ?_, ?_, nofun⟩
  · rw [Connection.run_append, hrun]
    simp [Connection.run, Connection.step]
  · rw [Connection.queuedBy_append, hqueued]
    exact List.append_nil _
  · simp [hshut]

theorem Linked.abandon (h : Linked options p isDropped g k heard) :
    Linked options p true g k heard := by
  obtain ⟨conduct, first, moves, hfirst, hrun, hqueued, hshut, -⟩ := h
  exact ⟨conduct, first, moves, hfirst, hrun, hqueued, hshut, nofun⟩

/-- If a connection accepts no more messages, its end was heard, or the pool had given the channel
up. -/
theorem Linked.of_deaf (h : Linked options p false g k heard) (hk : k.isAccepting = false) :
    g ∈ p.released ∨ ∃ f, Notice.closed f ∈ heard := by
  obtain ⟨conduct, first, moves, hfirst, hrun, -, hshut, hheld⟩ := h
  refine or_iff_not_imp_left.2 fun hg => ?_
  have hfree : ∀ e ∈ moves, e.isStop = false ∧ e ≠ .dropHandler := by
    intro e he
    refine ⟨?_, fun hd => (hheld rfl).2 (hd ▸ he)⟩
    cases e with
    | shutDown => exact absurd (hshut.1 he) hg
    | release => exact absurd he (hheld rfl).1
    | _ => rfl
  have htold := Connection.told_of_deaf hfirst hfree
  rw [hrun] at htold
  exact htold hk

/-- A channel whose connection accepts no more messages has told of its end, or was given up. -/
theorem Linked.gone {id : PoolId} {events : List Pool.Event} (more : List Pool.Event)
    (h : Linked options ((Pool.new id options).run events) false g k (heardOn g (events ++ more)))
    (hheard : ∀ before g n after, events ++ more = before ++ .notice g n :: after →
      g ∈ ((Pool.new id options).run before).started) (hk : k.isAccepting = false) :
    Pool.Gone (Pool.new id options) (events ++ more) g := by
  have hsound : ∀ events, ((Pool.new id options).run events).custody.Sound := fun events =>
    ((Pool.owned_new id options).run events).sound
  rcases h.of_deaf hk with hg | ⟨f, hf⟩
  · have hmore : g ∈ ((Pool.new id options).run (events ++ more)).released := by
      rw [← Pool.run_run, Pool.released, (Pool.run_emptied _ more).2, List.filterMap_append]
      exact List.mem_append_left _ hg
    exact .inl ((hsound _).released_lt g hmore)
  · obtain ⟨earlier, later, hsplit⟩ := split_of_mem_heardOn hf
    exact .inr ⟨earlier, f, later, hsplit,
      (hsound earlier).started_le g (hheard earlier g _ later hsplit)⟩

end Linked

end Client

end Runspace
