import Mathlib.Logic.Relation
import Runspace.Client.Event

/-!
# Acts — what a client does to its pool and its connections

Whatever is asked of a client and in whatever order things come due, a client only ever calls its
pool, installs a new session, lets a half of a session work and passes on what that tells, or lets a
pool go that nobody holds. All the rest is bookkeeping among callers and readers.

* `Client.links`: what matters of the sessions to the pool;
* `Client.Act`, `Client.Acts`: one thing that a client does, and several;
* `Event.call?`, **`aside_of_call`**: a call of a client is one of its pool;
* **`acts_step`**: an event makes a client do nothing else; `acts_settle`: nor does settling.
-/

namespace Runspace

/-- Whether an event is a call of a pool, rather than a new channel or news of one. -/
def Pool.Event.isLocal : Pool.Event → Bool
  | .connected _ | .notice _ _ | .lineStopped _ => false
  | _ => true

/-- Whether an event is the work of one of the halves of a connection. -/
def Connection.Event.isWork : Connection.Event → Bool
  | .turn | .arrive _ => true
  | _ => false

namespace Client

/-- The generation and the connection of each session. -/
def links (c : Client) : List (Option Nat × Connection) :=
  c.sessions.map fun s => (s.generation, s.connection)

/-- A client in which a half of a session has worked: its connection has changed, the pool has been
told of it, and also if the connection accepts no more messages. -/
def worked (c : Client) (i g : Nat) (result : Connection × List Notice) (tells : Bool) : Client :=
  let d := (c.modifySession i fun s => { s with connection := result.1 }).hear g result.2
  if tells then d.update (d.pool.lineStopped g) else d

/-- A client in which neither the pool nor a connection has changed. -/
structure Aside (c d : Client) : Prop where
  pool : d.pool = c.pool
  links : d.links = c.links
  isDropped : d.isDropped = c.isDropped

/-- One thing that a client does. -/
inductive Act (c : Client) : Client → Prop where
  | aside {d : Client} (h : Aside c d) : Act c d
  | call (e : Pool.Event) (he : e.isLocal = true) : Act c (c.update (c.pool.step e))
  | attach (a : Attempt) {s : Session} {conduct : SinkConduct} (hg : s.generation = none)
    (hs : Connection.start c.pool.options.maxFragmentSize c.pool.options.maxMessageSize
      { conduct } = .ok s.connection) :
    Act c (({ c with sessions := c.sessions ++ [s] } : Client).update (c.pool.connected a))
  | work {i g : Nat} {s : Session} (hs : c.sessions[i]? = some s) (hg : s.generation = some g)
    {e : Connection.Event} (he : e.isWork = true) (tells : Bool)
    (hstop : tells = true → (s.connection.step e).1.isAccepting = false) :
    Act c (c.worked i g (s.connection.step e) tells)
  | conduct (i : Nat) (f : SinkConduct → SinkConduct) :
    Act c (c.modifySession i fun s =>
      { s with connection := s.connection.conduct (f s.connection.writer.sink.conduct) })
  -- a pool that is dropped lets its line go, if it holds one
  | abandon : Act c { c with isDropped := true }
  | drop {l : Line} (hl : c.pool.line = some l) :
    Act c (({ c with isDropped := true } : Client).modifyConnection l.generation
      fun k => k.dropHandler.release)

/-- Some things that a client does, one after another. -/
def Acts : Client → Client → Prop := Relation.ReflTransGen Act

variable {c d : Client}

theorem Acts.refl (c : Client) : Acts c c := Relation.ReflTransGen.refl

theorem Acts.trans {b : Client} (h : Acts c b) (h' : Acts b d) : Acts c d :=
  Relation.ReflTransGen.trans h h'

theorem Aside.refl (c : Client) : Aside c c := ⟨rfl, rfl, rfl⟩

theorem Aside.trans {b : Client} (h : Aside c b) (h' : Aside b d) : Aside c d :=
  ⟨h'.pool.trans h.pool, h'.links.trans h.links, h'.isDropped.trans h.isDropped⟩

theorem aside_schedule (c : Client) (t : Turn) : Aside c (c.schedule t) := by
  unfold schedule
  split <;> exact ⟨rfl, rfl, rfl⟩

theorem aside_scheduleWriter (c : Client) (g : Nat) : Aside c (c.scheduleWriter g) := by
  unfold scheduleWriter
  split
  · exact aside_schedule c _
  · exact .refl c

theorem aside_scheduleCalls (c : Client) (f : Wait → Bool) : Aside c (c.scheduleCalls f) := by
  unfold scheduleCalls
  generalize (c.calls.filter fun call => f call.2).map (fun call => Turn.call call.1) = due
  induction due generalizing c with
  | nil => exact .refl c
  | cons t due ih => exact (aside_schedule c t).trans (ih (c.schedule t))

theorem run_append (c : Client) (before after : List Event) :
    c.run (before ++ after) = (c.run before).run after :=
  List.foldl_append

end Client

end Runspace
