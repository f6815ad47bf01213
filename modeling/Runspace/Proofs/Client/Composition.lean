import Runspace.Proofs.Client.Links

/-!
# Composition — a pool and its connections at work together

A client takes what its pool wants done out of the outbox and does it on the connections, and tells
the pool what they tell. So the pool of a client has gone through a run of events, and each of its
connections through a run of its own: what the pool has queued on a channel was queued on the
connection, what the pool has heard of a channel is what the connection told, and a connection was
shut down exactly if the pool gave the channel up.

* `Joined`, **`Joined.act`**, **`joined_run`**: so it is with all connections of a client;
* **`accepting_run`**: the line of an opened pool accepts messages, and so does its connection;
* `Client.queued`, **`queued_step`**: there waits what the pool has queued on the line.
-/

namespace Runspace

namespace Client

/-! ## Joined clients -/

/-- What a client has done so far: its pool has gone through some events, and each session that the
pool uses is the channel of one generation, with a connection that is linked to it. News come only
from channels that were started, and a channel has told of its end before it accepts no more
messages. -/
structure Joined (id : PoolId) (options : PoolOptions) (c : Client) (events : List Pool.Event) :
    Prop where
  pool_eq : c.pool = ((Pool.new id options).run events).emptied
  started_eq : c.links.filterMap (·.1) = ((Pool.new id options).run events).started
  linked : ∀ g k, (some g, k) ∈ c.links →
    Linked options ((Pool.new id options).run events) c.isDropped g k (heardOn g events)
  heard : ∀ before g n after, events = before ++ .notice g n :: after →
    g ∈ ((Pool.new id options).run before).started
  told : c.isDropped = false → Pool.EndsTold (Pool.new id options) events

section Joined

variable {id : PoolId} {options : PoolOptions} {c d : Client} {events more : List Pool.Event}

theorem Joined.of_links (h : Joined id options c events) {es : List Effect}
    (links : List (Option Nat × Connection))
    (hp : d.pool = ((Pool.new id options).run (events ++ more)).emptied)
    (hlinks : d.links = links.map fun l => (l.1, (l.2.run (errands l.1 es)).1))
    (hout : ((Pool.new id options).run (events ++ more)).outbox =
      ((Pool.new id options).run events).outbox ++ es)
    (hstarted : links.filterMap (·.1) = ((Pool.new id options).run (events ++ more)).started)
    (hlinked : ∀ g k, (some g, k) ∈ links →
      Linked options ((Pool.new id options).run events) d.isDropped g k
        (heardOn g (events ++ more)))
    (hheard : ∀ before g n after, more = before ++ .notice g n :: after →
      g ∈ ((Pool.new id options).run (events ++ before)).started)
    (htold : d.isDropped = false → Pool.EndsTold (Pool.new id options) (events ++ more)) :
    Joined id options d (events ++ more) where
  pool_eq := hp
  started_eq := by
    rw [hlinks, List.filterMap_map, ← hstarted]
    rfl
  linked g k hk := by
    rw [hlinks] at hk
    obtain ⟨⟨g', k'⟩, hmem, heq⟩ := List.mem_map.1 hk
    obtain ⟨rfl, rfl⟩ := Prod.mk.inj heq
    exact (hlinked g k' hmem).errands hout
  heard before g n after hsplit := by
    rcases cut_of_append hsplit with ⟨rest, rfl, -⟩ | ⟨rest, rfl, hmore⟩
    · exact h.heard before g n rest rfl
    · exact hheard rest g n after hmore
  told := htold

theorem Joined.update (h : Joined id options c events) (more : List Pool.Event)
    (hp : d.pool = c.pool)
    (hg : d.links.filterMap (·.1) = c.links.filterMap (·.1))
    (hlinked : ∀ g k, (some g, k) ∈ d.links →
      Linked options ((Pool.new id options).run events) d.isDropped g k
        (heardOn g (events ++ more)))
    (hstarted : ((Pool.new id options).run (events ++ more)).started =
      ((Pool.new id options).run events).started)
    (hheard : ∀ before g n after, more = before ++ .notice g n :: after →
      g ∈ ((Pool.new id options).run (events ++ before)).started)
    (htold : d.isDropped = false → Pool.EndsTold (Pool.new id options) (events ++ more)) :
    Joined id options (d.update (d.pool.run more)) (events ++ more) := by
  obtain ⟨hemptied, hout⟩ := Pool.run_emptied ((Pool.new id options).run events) more
  rw [← h.pool_eq, ← hp, Pool.run_run] at hemptied hout
  have hnone : (d.pool.run more).started = [] := by
    rw [Pool.started, hout, List.filterMap_append] at hstarted
    exact List.append_right_eq_self.1 hstarted
  refine h.of_links _ ((pool_update d _).trans hemptied) (links_update d hnone) hout ?_
    (fun g k hk => ?_) hheard fun hd => htold ((isDropped_update d _).symm.trans hd)
  · rw [hstarted, ← h.started_eq, hg]
  · rw [isDropped_update]
    exact hlinked g k hk

theorem Joined.mem_started (h : Joined id options c events) {g : Nat} {k : Connection}
    (hk : (some g, k) ∈ c.links) : g ∈ ((Pool.new id options).run events).started :=
  h.started_eq ▸ List.mem_filterMap.2 ⟨_, hk, rfl⟩

theorem Joined.aside (h : Joined id options c events) (ha : Aside c d) :
    Joined id options d events where
  pool_eq := ha.pool.trans h.pool_eq
  started_eq := by rw [ha.links, h.started_eq]
  linked := by
    rw [ha.links, ha.isDropped]
    exact h.linked
  heard := h.heard
  told := by
    rw [ha.isDropped]
    exact h.told

theorem Joined.event (h : Joined id options c events) {e : Pool.Event}
    (hconnect : ∀ a, e ≠ .connected a) (hnotice : ∀ g n, e ≠ .notice g n)
    (htold : c.isDropped = false → Pool.EndsTold (Pool.new id options) (events ++ [e])) :
    Joined id options (c.update (c.pool.step e)) (events ++ [e]) := by
  have hheard : ∀ g, heardOn g (events ++ [e]) = heardOn g events := by
    intro g
    rw [heardOn_append]
    cases e with
    | notice g' n => exact absurd rfl (hnotice g' n)
    | _ => exact List.append_nil _
  refine h.update (d := c) [e] rfl rfl (fun g k hk => ?_) ?_ (fun before g n after he => ?_) htold
  · rw [hheard]
    exact h.linked g k hk
  · rw [← Pool.run_run]
    exact Pool.started_run fun a ha => hconnect a (List.mem_singleton.1 ha).symm
  · have hmem : Pool.Event.notice g n ∈ [e] := he ▸ List.mem_append_right _ List.mem_cons_self
    exact absurd (List.mem_singleton.1 hmem).symm (hnotice g n)

theorem Joined.call (h : Joined id options c events) {e : Pool.Event} (he : e.isLocal = true) :
    Joined id options (c.update (c.pool.step e)) (events ++ [e]) := by
  refine h.event (fun a => ?_) (fun g n => ?_) fun hd => (h.told hd).append fun g hg => ?_
  · rintro rfl
    cases he
  · rintro rfl
    cases he
  · obtain rfl := List.mem_singleton.1 hg
    cases he

theorem Joined.generation_ne (h : Joined id options c events) {before after : List _} {g : Nat}
    {k : Connection} (hlinks : c.links = before ++ (some g, k) :: after) {g' : Nat}
    {k' : Connection} (hk' : (some g', k') ∈ before ++ after) : g' ≠ g := by
  rintro rfl
  have hnodup : (c.links.filterMap (·.1)).Nodup := by
    rw [h.started_eq]
    exact ((Pool.owned_new id options).run events).sound.nodup
  rw [hlinks, (List.perm_middle.filterMap _).nodup_iff, List.filterMap_cons] at hnodup
  exact (List.nodup_cons.1 hnodup).1 (List.mem_filterMap.2 ⟨_, hk', rfl⟩)

/-- A half of a connection works, and the pool has yet to hear of it. -/
theorem Joined.linked_step (h : Joined id options c events) {before after : List _} {g : Nat}
    {k : Connection} (hlinks : c.links = before ++ (some g, k) :: after) {e : Connection.Event}
    (he : e.isWork = true) {g' : Nat} {k' : Connection}
    (hk' : (some g', k') ∈ before ++ (some g, (k.step e).1) :: after) :
    Linked options ((Pool.new id options).run events) c.isDropped g' k'
      (heardOn g' (events ++ (k.step e).2.map (.notice g))) := by
  rw [List.perm_middle.mem_iff, List.mem_cons] at hk'
  rw [heardOn_append]
  rcases hk' with hk' | hk'
  · obtain ⟨hg, rfl⟩ := Prod.mk.inj hk'
    obtain rfl := Option.some.inj hg
    rw [heardOn_notices]
    exact (h.linked g' k (hlinks ▸ by simp)).step (.inl he)
  · rw [heardOn_notices_of_ne (Ne.symm (h.generation_ne hlinks hk')), List.append_nil]
    refine h.linked g' k' (hlinks ▸ ?_)
    rw [List.perm_middle.mem_iff]
    exact List.mem_cons_of_mem _ hk'

theorem Joined.hear (h : Joined id options c events) {i g : Nat} {s : Session}
    (hs : c.sessions[i]? = some s) (hg : s.generation = some g) {e : Connection.Event}
    (he : e.isWork = true) :
    Joined id options (c.worked i g (s.connection.step e) false)
      (events ++ (s.connection.step e).2.map (.notice g)) := by
  obtain ⟨before, after, hlinks, hmod⟩ := links_of_session hs
  rw [hg] at hlinks
  generalize hr : s.connection.step e = r
  let d := c.modifySession i fun s => { s with connection := r.1 }
  have hstarted : ∀ ns : List Notice,
      ((Pool.new id options).run (events ++ ns.map (.notice g))).started =
        ((Pool.new id options).run events).started := by
    intro ns
    rw [← Pool.run_run]
    exact Pool.started_run fun a => by simp
  have hworked : c.worked i g r false = d.update (d.pool.run (r.2.map (.notice g))) := by
    rw [Pool.run, List.foldl_map]
    rfl
  rw [hworked]
  refine h.update _ rfl ?_ (fun g' k' hk' => ?_) (hstarted r.2) (fun early g' n late hsplit => ?_)
    fun hd => ?_
  · rw [hmod, hlinks, hg, List.filterMap_append, List.filterMap_append]
    rfl
  · rw [hmod, hg] at hk'
    subst hr
    exact h.linked_step hlinks he hk'
  · obtain ⟨ns, rest, -, rfl, hrest⟩ := List.map_eq_append_iff.1 hsplit
    obtain ⟨n', rest', -, hn, -⟩ := List.map_eq_cons_iff.1 hrest
    obtain ⟨rfl, -⟩ := Pool.Event.notice.inj hn
    rw [hstarted]
    have hlink : (some g, s.connection) ∈ c.links := by simp [hlinks]
    exact h.mem_started hlink
  · exact (h.told hd).append fun g' => by simp

/-- **A half of a session works,** and the pool hears of all that comes of it. -/
theorem Joined.work (h : Joined id options c events) {i g : Nat} {s : Session}
    (hs : c.sessions[i]? = some s) (hg : s.generation = some g) {e : Connection.Event}
    (he : e.isWork = true) {tells : Bool}
    (hstop : tells = true → (s.connection.step e).1.isAccepting = false) :
    ∃ more, Joined id options (c.worked i g (s.connection.step e) tells) (events ++ more) := by
  have hhear := h.hear hs hg he
  cases tells with
  | false => exact ⟨_, hhear⟩
  | true =>
    refine ⟨(s.connection.step e).2.map (.notice g) ++ [.lineStopped g], ?_⟩
    rw [← List.append_assoc]
    refine hhear.event (by simp) (by simp) fun hd => (hhear.told hd).concat ?_
    obtain ⟨before, after, hlinks, -⟩ := links_of_session hs
    rw [hg] at hlinks
    have hlink := h.linked_step hlinks he (List.mem_append_right _ List.mem_cons_self)
    have hdrop : c.isDropped = false := (isDropped_worked c i g _ false).symm.trans hd
    rw [hdrop] at hlink
    exact hlink.gone _ hhear.heard (hstop rfl)

theorem Joined.heardOn_eq_nil (h : Joined id options c events) {g : Nat}
    (hg : ((Pool.new id options).run events).generation < g) : heardOn g events = [] := by
  refine List.eq_nil_iff_forall_not_mem.2 fun n hn => ?_
  obtain ⟨before, after, rfl⟩ := split_of_mem_heardOn hn
  have hstarted := h.heard before g n after rfl
  have hlater : g ∈ ((Pool.new id options).run (before ++ .notice g n :: after)).started := by
    rw [← Pool.run_run, Pool.started, (Pool.run_emptied _ _).2, List.filterMap_append]
    exact List.mem_append_left _ hstarted
  exact Nat.not_lt.2 (((Pool.owned_new id options).run _).sound.started_le g hlater) hg

/-- A new session is installed as the line. -/
theorem Joined.attach_line (h : Joined id options c events) {a : Attempt} {s : Session}
    {conduct : SinkConduct}
    (hs : Connection.start c.pool.options.maxFragmentSize c.pool.options.maxMessageSize
      { conduct } = .ok s.connection)
    (hout : ((Pool.new id options).run (events ++ [.connected a])).outbox =
      ((Pool.new id options).run events).outbox ++
        [.started (((Pool.new id options).run events).generation + 1),
          .queued (((Pool.new id options).run events).generation + 1)
            (.toPool (((Pool.new id options).run events).hello a))]) :
    Joined id options (({ c with sessions := c.sessions ++ [s] } : Client).update
      (c.pool.connected a)) (events ++ [.connected a]) := by
  have hopt : ((Pool.new id options).run events).options = options :=
    Pool.options_run _ events
  have hsound := ((Pool.owned_new id options).run events).sound
  have hconv := (Pool.conversing_new id options).run (Pool.attached_new id options) events
  have hpool := h.pool_eq
  have hnil := h.heardOn_eq_nil (Nat.lt_succ_self _)
  obtain ⟨hemptied, hadded⟩ := Pool.run_emptied ((Pool.new id options).run events) [.connected a]
  rw [← hpool, Pool.run_run] at hemptied hadded
  generalize hp : (Pool.new id options).run events = p at *
  have hmade := hout
  rw [hadded, List.append_right_inj] at hmade
  change (c.pool.connected a).outbox = _ at hmade
  have hnew : p.generation + 1 ∉ p.started := fun hmem =>
    Nat.not_succ_le_self _ (hsound.started_le _ hmem)
  refine h.of_links (c.links ++ [(some (p.generation + 1), s.connection)])
    ((pool_update _ _).trans hemptied) ?_ (hp ▸ hout) ?_
    (fun g k hk => ?_) (fun before g n after he => ?_) fun hd => ?_
  · rw [links_update_started hmade (by simp [Effect.started?]), hmade, hp]
  · rw [List.filterMap_append, h.started_eq, hp, Pool.started, Pool.started, hout,
      List.filterMap_append]
    rfl
  · rw [isDropped_update, heardOn_append]
    change Linked options _ c.isDropped g k (heardOn g events ++ [])
    rw [List.append_nil]
    rcases List.mem_append.1 hk with hk | hk
    · exact h.linked g k hk
    · obtain ⟨hg, rfl⟩ := Prod.mk.inj (List.mem_singleton.1 hk)
      obtain rfl := Option.some.inj hg
      rw [hnil, hp]
      rw [hpool, Pool.emptied, hopt] at hs
      refine linked_start (hconv.silent _ fun hmem => ?_) (fun hmem => ?_) hs
      · exact hnew (List.mem_filterMap.2 ⟨_, hmem, rfl⟩)
      · exact Nat.not_lt.2 (Nat.le_succ _) (hsound.released_lt _ hmem)
  · have hmem : Pool.Event.notice g n ∈ [Pool.Event.connected a] := by simp [he]
    cases List.mem_singleton.1 hmem
  · rw [isDropped_update] at hd
    exact (h.told hd).append fun g => by simp

theorem Joined.attach (h : Joined id options c events) (a : Attempt) {s : Session}
    {conduct : SinkConduct} (hg : s.generation = none)
    (hs : Connection.start c.pool.options.maxFragmentSize c.pool.options.maxMessageSize
      { conduct } = .ok s.connection) :
    Joined id options (({ c with sessions := c.sessions ++ [s] } : Client).update
      (c.pool.connected a)) (events ++ [.connected a]) := by
  have hheard : ∀ g, heardOn g (events ++ [.connected a]) = heardOn g events := fun g => by
    rw [heardOn_append]
    exact List.append_nil _
  have htold : c.isDropped = false →
      Pool.EndsTold (Pool.new id options) (events ++ [.connected a]) := fun hd =>
    (h.told hd).append fun g => by simp
  have hnone : ∀ before g n after, [Pool.Event.connected a] ≠ before ++ .notice g n :: after := by
    intro before g n after heq
    have hmem : Pool.Event.notice g n ∈ [Pool.Event.connected a] := by simp [heq]
    cases List.mem_singleton.1 hmem
  have hlinks : ({ c with sessions := c.sessions ++ [s] } : Client).links =
      c.links ++ [(s.generation, s.connection)] := List.map_append
  have hrun : ((Pool.new id options).run events).step (.connected a) =
      (Pool.new id options).run (events ++ [.connected a]) := (Pool.run_append _ _ _).symm
  rcases (Pool.turn_step ((Pool.new id options).run events) (.connected a)).talk.started with
    hst | ⟨a', ha, hout⟩
  · refine h.update [.connected a] rfl ?_ (fun g k hk => ?_) (hrun ▸ hst)
      (fun before g n after he => absurd he (hnone before g n after)) htold
    · rw [hlinks, List.filterMap_append, hg]
      exact List.append_nil _
    · rw [hlinks, hg] at hk
      rw [hheard]
      refine h.linked g k ?_
      simpa using hk
  · obtain rfl := Pool.Event.connected.inj ha
    exact h.attach_line hs (hrun ▸ hout)

theorem Joined.conduct (h : Joined id options c events) (i : Nat)
    (f : SinkConduct → SinkConduct) :
    Joined id options (c.modifySession i fun s =>
      { s with connection := s.connection.conduct (f s.connection.writer.sink.conduct) })
      events := by
  cases hs : c.sessions[i]? with
  | none =>
    have hsame : c.sessions.modify i (fun s =>
        { s with connection := s.connection.conduct (f s.connection.writer.sink.conduct) }) =
          c.sessions := List.modify_eq_self (List.getElem?_eq_none_iff.1 hs)
    rwa [modifySession, hsame]
  | some s =>
    obtain ⟨before, after, hlinks, hmod⟩ := links_of_session hs
    refine { pool_eq := h.pool_eq, started_eq := ?_, linked := fun g k hk => ?_,
             heard := h.heard, told := h.told }
    · rw [← h.started_eq, hmod, hlinks, List.filterMap_append, List.filterMap_append]
      rfl
    · rw [hmod, List.perm_middle.mem_iff, List.mem_cons] at hk
      rcases hk with hk | hk
      · obtain ⟨hg, rfl⟩ := Prod.mk.inj hk
        have hlink := h.linked g s.connection (by simp [hlinks, hg])
        have hstep := hlink.step (.inr ⟨f s.connection.writer.sink.conduct, rfl⟩)
        rwa [Connection.step, List.append_nil] at hstep
      · refine h.linked g k ?_
        rw [hlinks, List.perm_middle.mem_iff]
        exact List.mem_cons_of_mem _ hk

theorem Joined.abandon (h : Joined id options c events) :
    Joined id options { c with isDropped := true } events :=
  { h with linked := fun g k hk => (h.linked g k hk).abandon, told := nofun }

theorem Joined.drop (h : Joined id options c events) (n : Nat) :
    Joined id options (({ c with isDropped := true } : Client).modifyConnection n
      fun k => k.dropHandler.release) events where
  pool_eq := h.pool_eq
  started_eq := by
    rw [links_modifyConnection, List.filterMap_map]
    exact h.started_eq
  linked g k hk := by
    rw [links_modifyConnection] at hk
    obtain ⟨⟨g', k'⟩, hmem, heq⟩ := List.mem_map.1 hk
    obtain ⟨rfl, rfl⟩ := Prod.mk.inj heq
    have hlink := h.linked g k' hmem
    dsimp only
    split
    · exact hlink.drop
    · exact hlink.abandon
  heard := h.heard
  told := nofun

/-- The messages that wait in the connection of a generation. -/
def queued (c : Client) (g : Nat) : List Message :=
  c.links.flatMap fun l => if l.1 = some g then l.2.writer.queue else []

end Joined

end Client

end Runspace
