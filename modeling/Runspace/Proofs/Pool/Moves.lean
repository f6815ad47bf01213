import Mathlib.Logic.Relation
import Runspace.Pool.Event

/-!
# Moves — what can happen to one pipeline at a time

Every operation on pipelines is made of moves, each of which changes a single pipeline. A pipeline
is started by one of them only, `Move.launch`, which needs an opened pool with a free runspace.

* `SameControl`, `SameWork`: what a move leaves alone, and what all the rest leaves alone;
* `Move`, `Moves`: one change of a pipeline, and some of them in order;
* `moves_trySend`: a message alone.
-/

namespace Runspace

/-! ## Pipelines under a change -/

namespace Pipeline

variable (c : Pipeline) (s : PipelineState) (last : Option Value) (k : StreamKind) (v : Value)

@[simp] theorem id_enter : (c.enter s).id = c.id := rfl

@[simp] theorem state_enter : (c.enter s).state = s := rfl

@[simp] theorem id_push : (c.push k v).id = c.id := by unfold push; split <;> rfl

@[simp] theorem state_push : (c.push k v).state = c.state := by unfold push; split <;> rfl

@[simp] theorem isRegistered_push : (c.push k v).isRegistered = c.isRegistered := by
  unfold push
  split <;> rfl

@[simp] theorem commands_push : (c.push k v).commands = c.commands := by
  unfold push
  split <;> rfl

@[simp] theorem id_finish : (c.finish s last).id = c.id := by
  cases last with
  | none => rfl
  | some v => exact c.id_push .error v

@[simp] theorem state_finish : (c.finish s last).state = s := rfl

@[simp] theorem isRegistered_finish : (c.finish s last).isRegistered = c.isRegistered := by
  cases last with
  | none => rfl
  | some v => exact c.isRegistered_push .error v

@[simp] theorem commands_finish : (c.finish s last).commands = c.commands := by
  cases last with
  | none => rfl
  | some v => exact c.commands_push .error v

end Pipeline

namespace Pool

/-! ## Looking pipelines up -/

section Lookup

variable {p : Pool} {id i : PipelineId} {c : Pipeline} {f : Pipeline → Pipeline}

theorem pipeline?_eq_some (h : p.pipeline? id = some c) : c ∈ p.pipelines ∧ c.id = id :=
  ⟨List.mem_of_find?_eq_some h, by simpa using List.find?_some h⟩

theorem registered?_eq_some (h : p.registered? id = some c) :
    c ∈ p.pipelines ∧ c.id = id ∧ c.isRegistered = true :=
  ⟨List.mem_of_find?_eq_some h, by simpa using List.find?_some h⟩

theorem registered?_of_pipeline? (h : p.pipeline? id = some c) (hr : c.isRegistered = true) :
    p.registered? id = some c := by
  obtain ⟨hid, as, bs, hp, has⟩ := List.find?_eq_some_iff_append.1 h
  refine List.find?_eq_some_iff_append.2 ⟨by simpa [hr] using hid, as, bs, hp, fun a ha => ?_⟩
  have := has a ha
  simp_all

theorem pipeline?_modify (hf : ∀ c, (f c).id = c.id) :
    (p.modify id f).pipeline? i =
      if i = id then (p.pipeline? i).map f else p.pipeline? i := by
  have hid : ∀ c : Pipeline, (if c.id = id then f c else c).id = c.id := by
    intro c
    split
    · exact hf c
    · rfl
  simp only [pipeline?, modify, List.find?_map, Function.comp_def, hid]
  cases hc : p.pipelines.find? (·.id = i) with
  | none => simp
  | some c =>
    have hi : c.id = i := by simpa using List.find?_some hc
    by_cases h : i = id <;> simp [hi, h]

end Lookup

/-! ## Two halves of a pool -/

/-- Two pools that differ at most in their pipelines, in which of them run or wait, and in their
outboxes. -/
structure SameControl (p q : Pool) : Prop where
  id : q.id = p.id
  options : q.options = p.options
  state : q.state = p.state
  generation : q.generation = p.generation
  line : q.line = p.line
  handshake : q.handshake = p.handshake
  opening : q.opening = p.opening
  reconnecting : q.reconnecting = p.reconnecting
  limit : q.limit = p.limit

/-- Two pools with the same pipelines, of which the same run and wait. -/
structure SameWork (p q : Pool) : Prop where
  pipelines : q.pipelines = p.pipelines
  queue : q.queue = p.queue
  running : q.running = p.running
  nextId : q.nextId = p.nextId

/-- Two pools with the same pipelines, under the same state and limit. -/
structure SameAccounts (p q : Pool) : Prop extends SameWork p q where
  state : q.state = p.state
  limit : q.limit = p.limit

theorem SameControl.refl (p : Pool) : SameControl p p :=
  ⟨rfl, rfl, rfl, rfl, rfl, rfl, rfl, rfl, rfl⟩

theorem SameControl.trans {p q r : Pool} (h : SameControl p q) (h' : SameControl q r) :
    SameControl p r :=
  ⟨h'.id.trans h.id, h'.options.trans h.options, h'.state.trans h.state,
    h'.generation.trans h.generation, h'.line.trans h.line, h'.handshake.trans h.handshake,
    h'.opening.trans h.opening, h'.reconnecting.trans h.reconnecting, h'.limit.trans h.limit⟩

theorem sameControl_emit (p : Pool) (e : Effect) : SameControl p (p.emit e) :=
  ⟨rfl, rfl, rfl, rfl, rfl, rfl, rfl, rfl, rfl⟩

theorem SameWork.refl (p : Pool) : SameWork p p := ⟨rfl, rfl, rfl, rfl⟩

theorem SameWork.trans {p q r : Pool} (h : SameWork p q) (h' : SameWork q r) : SameWork p r :=
  ⟨h'.pipelines.trans h.pipelines, h'.queue.trans h.queue, h'.running.trans h.running,
    h'.nextId.trans h.nextId⟩

theorem SameAccounts.refl (p : Pool) : SameAccounts p p := ⟨.refl p, rfl, rfl⟩

theorem sameAccounts_emit (p : Pool) (e : Effect) : SameAccounts p (p.emit e) :=
  ⟨⟨rfl, rfl, rfl, rfl⟩, rfl, rfl⟩

theorem SameAccounts.trans {p q r : Pool} (h : SameAccounts p q) (h' : SameAccounts q r) :
    SameAccounts p r :=
  ⟨h.toSameWork.trans h'.toSameWork, h'.state.trans h.state, h'.limit.trans h.limit⟩

/-! ## Moves -/

/-- One change of a pipeline, of the queue with it, or a message on the line. -/
inductive Move (p : Pool) : Pool → Prop where
  | send {l : Line} (m : Message) (hl : p.readyLine? = some l) (ha : l.isAccepting = true) :
    Move p (p.emit (.queued l.generation m))
  | annotate (id : PipelineId) {f : Pipeline → Pipeline} (hid : ∀ c, (f c).id = c.id)
    (hs : ∀ c, (f c).state = c.state) (hr : ∀ c, (f c).isRegistered = c.isRegistered) :
    Move p (p.modify id f)
  | make {id : PipelineId} (commands : List Command)
    (h : PipelineId.ofRaw? (UInt64.ofNat p.nextId) = some id) :
    Move p { p with nextId := p.nextId + 1, pipelines := p.pipelines ++ [{ id, commands }] }
  | exhaust (h : PipelineId.ofRaw? (UInt64.ofNat p.nextId) = none) :
    Move p { p with nextId := p.nextId + 1 }
  | wait {c : Pipeline} (hc : p.registered? c.id = some c) (hs : c.state = .notStarted) :
    Move p { p.change c.id (·.enter .queued) with queue := p.queue ++ [c.id] }
  | launch {c : Pipeline} {l : Line} {rest : List PipelineId} (hc : p.registered? c.id = some c)
    (hs : c.state = .notStarted ∧ p.queue = [] ∧ rest = [] ∨
      c.state = .queued ∧ p.queue = c.id :: rest)
    (hm : p.mayAdmit = true) (hl : p.readyLine? = some l) (ha : l.isAccepting = true) :
    Move p (({ p with queue := rest, running := p.running + 1 }.emit (.queued l.generation
      (.toPipeline c.id (.createPipeline c.commands)))).change c.id (·.enter .running))
  | conclude {c : Pipeline} {state : PipelineState} {queue : List PipelineId} {running : Nat}
    (last : Option Value) (hc : c ∈ p.pipelines) (hs : c.state.isTerminal = false)
    (ht : state.isTerminal = true)
    (hq : queue = p.queue.filter (· ≠ c.id) ∨ c.state ≠ .queued ∧ queue = p.queue)
    (hr : running = if c.state = .running then p.running - 1 else p.running) :
    Move p ({ p with queue, running }.change c.id (·.finish state last))
  | skip {id : PipelineId} {rest : List PipelineId} (hq : p.queue = id :: rest)
    (h : ∀ c, p.registered? id = some c → c.state ≠ .queued) :
    Move p { p with queue := rest }
  | forget {id : PipelineId} (h : ∀ c, p.pipeline? id = some c → c.state.isTerminal = true) :
    Move p (p.modify id fun c => { c with isRegistered := false })

/-- Some moves in order. -/
abbrev Moves : Pool → Pool → Prop := Relation.ReflTransGen Move

/-- A move changes nothing of the pool itself. -/
theorem Move.sameControl {p q : Pool} (h : Move p q) : SameControl p q := by
  cases h <;> exact ⟨rfl, rfl, rfl, rfl, rfl, rfl, rfl, rfl, rfl⟩

theorem Moves.sameControl {p q : Pool} (h : Moves p q) : SameControl p q := by
  induction h with
  | refl => exact .refl p
  | tail _ h ih => exact ih.trans h.sameControl

theorem mayAdmit_iff {p : Pool} : p.mayAdmit = true ↔ p.state = .opened ∧ p.running < p.limit := by
  simp [mayAdmit]

/-! ## Messages -/

theorem send?_eq_some {p q : Pool} {m : Message} (h : p.send? m = some q) :
    ∃ l, p.readyLine? = some l ∧ l.isAccepting = true ∧ q = p.emit (.queued l.generation m) := by
  unfold send? at h
  split at h
  · next l hl =>
    split at h
    · next ha =>
      cases h
      exact ⟨l, hl, ha, rfl⟩
    · cases h
  · cases h

theorem moves_trySend (p : Pool) (m : Message) : Moves p (p.trySend m) := by
  unfold trySend
  cases h : p.send? m with
  | none => exact .refl
  | some q =>
    obtain ⟨l, hl, ha, rfl⟩ := send?_eq_some h
    exact .single (.send m hl ha)

theorem sameAccounts_trySend (p : Pool) (m : Message) : SameAccounts p (p.trySend m) := by
  unfold trySend
  cases h : p.send? m with
  | none => exact .refl p
  | some q =>
    obtain ⟨l, -, -, rfl⟩ := send?_eq_some h
    exact sameAccounts_emit p _

end Pool

end Runspace
