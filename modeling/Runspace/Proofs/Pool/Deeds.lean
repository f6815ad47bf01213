import Runspace.Proofs.Pool.Moves

/-!
# Deeds — what an operation does to one pipeline at a time

A move says how a pool may change. A deed also says which pipeline it is about and why it is done,
so that what a step does can be matched with the event of the step.

* `Ending`, `Deed`: how a pipeline ends, and what can be done to one;
* `Does`: a deed, with all that it needs; `Does.moves`: it is made of moves;
* `Deeds`: deeds of some kind in order; `Course`: first those that end pipelines or bring records,
  then those that admit pipelines;
* **`deeds_admitUpTo`**, **`course_finish`**, `course_stop`, …: the deeds of each operation;
* `Pool.Takes`: the deeds that take a pipeline in, with which a call that invokes one ends.
-/

namespace Runspace

/-! ## Endings -/

/-- How a pipeline ends. -/
inductive Ending where
  | completed
  | failed (last : Value)
  | stopped

namespace Ending

/-- The final state. -/
def state : Ending → PipelineState
  | .completed => .completed
  | .failed _ => .failed
  | .stopped => .stopped

/-- The last record. -/
def last : Ending → Option Value
  | .failed r => some r
  | _ => none

@[simp] theorem isTerminal_state (x : Ending) : x.state.isTerminal = true := by cases x <;> rfl

end Ending

/-- How a message to a pipeline that runs ends it, if it does. -/
def Payload.ending : Payload → Option Ending
  | .pipelineState .completed _ => some .completed
  | .pipelineState .failed reason => some (.failed (remoteFailure reason))
  | .pipelineState .stopped _ => some .stopped
  | _ => none

/-! ## Deeds -/

/-- What can be done to a pipeline. -/
inductive Deed where
  | make (id : PipelineId) (commands : List Command)
  | exhaust
  | invoke (id : PipelineId)
  | take (id : PipelineId) (k : StreamKind)
  | wait (id : PipelineId)
  | launch (id : PipelineId)
  | refuse (id : PipelineId)
  | skip (id : PipelineId)
  | record (id : PipelineId) (k : StreamKind) (v : Value)
  | conclude (id : PipelineId) (x : Ending)
  | halt (id : PipelineId)
  | forget (id : PipelineId)

namespace Deed

/-- Whether a deed gives out a runspace, or would have. -/
def isAdmission : Deed → Bool
  | .launch _ | .refuse _ | .skip _ => true
  | _ => false

/-- Whether a deed brings a record, or an end that is not the want of a line. -/
def isOutcome : Deed → Bool
  | .record .. | .conclude .. | .halt _ => true
  | _ => false

/-- Whether a deed takes a pipeline in that is invoked. -/
def isEntry : Deed → Bool
  | .invoke _ | .wait _ => true
  | _ => false

/-- The pipeline that a deed changes. -/
def subject : Deed → Option PipelineId
  | .make .. | .exhaust | .skip _ => none
  | .invoke id | .take id _ | .wait id | .launch id | .refuse id | .record id .. | .conclude id _
  | .halt id | .forget id => some id

/-- The states in which a pipeline undergoes a deed. -/
def suits : Deed → PipelineState → Bool
  | .invoke _, s | .wait _, s => s = .notStarted
  | .launch _, s | .refuse _, s => s = .notStarted || s = .queued
  | .record .., s => s = .running
  | .conclude .., s | .halt _, s => !s.isTerminal
  | _, _ => true

/-- What a deed makes of its pipeline. -/
def apply : Deed → Pipeline → Pipeline
  | .invoke _, c => { c with isInvoked := true }
  | .take _ k, c => { c with taken := k :: c.taken }
  | .wait _, c => c.enter .queued
  | .launch _, c => c.enter .running
  | .refuse _, c => c.finish .failed (some Fault.channelClosed.record)
  | .record _ k v, c => c.push k v
  | .conclude _ x, c => c.finish x.state x.last
  | .halt _, c => c.finish .stopped none
  | .forget _, c => { c with isRegistered := false }
  | _, c => c

/-- The pipeline that a deed makes. -/
def born : Deed → List Pipeline
  | .make id commands => [{ id, commands }]
  | _ => []

variable (d : Deed) (c : Pipeline)

@[simp] theorem id_apply : (d.apply c).id = c.id := by
  cases d <;> simp [apply]

theorem born_of_admission {d : Deed} (h : d.isAdmission = true) : d.born = [] := by
  cases d <;> first | rfl | cases h

theorem isOutcome_of_admission {d : Deed} (h : d.isAdmission = true) : d.isOutcome = false := by
  cases d <;> first | rfl | cases h

theorem isEntry_of_admission {d : Deed} (h : d.isAdmission = true) : d.isEntry = false := by
  cases d <;> first | rfl | cases h

/-- A deed that suits an ended pipeline ends none anew and revives none. -/
theorem isTerminal_apply {d : Deed} {c : Pipeline} {s : PipelineState} (hd : d.suits s = true)
    (hs : s.isTerminal = true) (hc : c.state.isTerminal = true) :
    (d.apply c).state.isTerminal = true := by
  cases d with
  | wait | launch => cases s <;> simp [suits, PipelineState.isTerminal] at hd hs
  | record id k v => simpa [apply] using hc
  | refuse | halt => rfl
  | conclude id x => exact x.isTerminal_state
  | _ => exact hc

end Deed

namespace Pool

/-- A pool in which a pipeline has given up its runspace or its place in the queue. -/
def release (p : Pool) (c : Pipeline) : Pool :=
  match c.state with
  | .running => { p with running := p.running - 1 }
  | .queued => { p with queue := p.queue.filter (· ≠ c.id) }
  | _ => p

/-- A pool in which a pipeline has ended, and nothing was done about what it held but to release
it. -/
def conclude (p : Pool) (c : Pipeline) (x : Ending) : Pool :=
  (p.release c).change c.id (·.finish x.state x.last)

/-- Tells the host that a pipeline is stopped, if it runs. -/
def warn (p : Pool) (c : Pipeline) : Pool :=
  if c.state = .running then p.trySend (.toPipeline c.id .stopPipeline) else p

/-- What a deed needs, and what it makes of a pool. -/
inductive Does (p : Pool) : Deed → Pool → Prop where
  | make {id : PipelineId} (commands : List Command) (ho : p.state = .opened)
    (h : PipelineId.ofRaw? (UInt64.ofNat p.nextId) = some id) :
    Does p (.make id commands)
      { p with nextId := p.nextId + 1, pipelines := p.pipelines ++ [{ id, commands }] }
  | exhaust (h : PipelineId.ofRaw? (UInt64.ofNat p.nextId) = none) :
    Does p .exhaust { p with nextId := p.nextId + 1 }
  | invoke {c : Pipeline} (hc : p.registered? c.id = some c) (hs : c.state = .notStarted)
    (ho : p.state = .opened) :
    Does p (.invoke c.id) (p.modify c.id fun c => { c with isInvoked := true })
  | take (id : PipelineId) (k : StreamKind) :
    Does p (.take id k) (p.modify id fun c => { c with taken := k :: c.taken })
  | wait {c : Pipeline} (hc : p.registered? c.id = some c) (hs : c.state = .notStarted)
    (ho : p.state = .opened) :
    Does p (.wait c.id) { p.change c.id (·.enter .queued) with queue := p.queue ++ [c.id] }
  | launch {c : Pipeline} {l : Line} {rest : List PipelineId} (hc : p.registered? c.id = some c)
    (hs : c.state = .notStarted ∧ p.queue = [] ∧ rest = [] ∨
      c.state = .queued ∧ p.queue = c.id :: rest)
    (hm : p.mayAdmit = true) (hl : p.readyLine? = some l) (ha : l.isAccepting = true) :
    Does p (.launch c.id) (({ p with queue := rest, running := p.running + 1 }.emit
      (.queued l.generation (.toPipeline c.id (.createPipeline c.commands)))).change c.id
        (·.enter .running))
  | refuse {c : Pipeline} {rest : List PipelineId} (hc : p.registered? c.id = some c)
    (hs : c.state = .notStarted ∧ p.queue = [] ∧ rest = [] ∨
      c.state = .queued ∧ p.queue = c.id :: rest)
    (hm : p.mayAdmit = true) (hl : ∀ l, p.readyLine? = some l → l.isAccepting = false) :
    Does p (.refuse c.id) ({ p with queue := rest.filter (· ≠ c.id) }.change c.id
      (·.finish .failed (some Fault.channelClosed.record)))
  | skip {id : PipelineId} {rest : List PipelineId} (hq : p.queue = id :: rest)
    (hm : p.mayAdmit = true) (h : ∀ c, p.registered? id = some c → c.state ≠ .queued) :
    Does p (.skip id) { p with queue := rest }
  | record {c : Pipeline} (k : StreamKind) (v : Value) (hc : p.registered? c.id = some c)
    (hs : c.state = .running) : Does p (.record c.id k v) (p.modify c.id (·.push k v))
  | conclude {c : Pipeline} (x : Ending) (hc : p.pipeline? c.id = some c)
    (hs : c.state.isTerminal = false) : Does p (.conclude c.id x) (p.conclude c x)
  | halt {c : Pipeline} (hc : p.pipeline? c.id = some c) (hs : c.state.isTerminal = false) :
    Does p (.halt c.id) ((p.warn c).conclude c .stopped)
  | forget {id : PipelineId} (h : ∀ c, p.pipeline? id = some c → c.state.isTerminal = true) :
    Does p (.forget id) (p.modify id fun c => { c with isRegistered := false })

/-! ## Deeds as moves -/

section Moves

variable {p q : Pool} {c : Pipeline} {d : Deed}

theorem moves_warn (p : Pool) (c : Pipeline) : Moves p (p.warn c) := by
  unfold warn
  split
  · exact moves_trySend p _
  · exact .refl

@[simp] theorem pipelines_trySend (p : Pool) (m : Message) :
    (p.trySend m).pipelines = p.pipelines := (sameAccounts_trySend p m).pipelines

@[simp] theorem pipelines_warn (p : Pool) (c : Pipeline) : (p.warn c).pipelines = p.pipelines := by
  unfold warn
  split
  · exact pipelines_trySend p _
  · rfl

theorem move_conclude (x : Ending) (hc : c ∈ p.pipelines) (hs : c.state.isTerminal = false) :
    Move p (p.conclude c x) := by
  unfold conclude release
  cases hst : c.state with
  | running =>
    refine .conclude x.last hc hs x.isTerminal_state (.inr ⟨by simp [hst], rfl⟩) ?_
    rw [if_pos hst]
  | queued =>
    refine .conclude x.last hc hs x.isTerminal_state (.inl rfl) ?_
    rw [if_neg (by simp [hst])]
  | notStarted | completed | failed | stopped =>
    refine .conclude x.last hc hs x.isTerminal_state (.inr ⟨by simp [hst], rfl⟩) ?_
    rw [if_neg (by simp [hst])]

/-- **A deed is made of moves.** -/
theorem Does.moves (h : Does p d q) : Moves p q := by
  cases h with
  | make commands ho h => exact .single (.make commands h)
  | exhaust h => exact .single (.exhaust h)
  | invoke hc hs ho => exact .single (.annotate _ (fun _ => rfl) (fun _ => rfl) fun _ => rfl)
  | take id k => exact .single (.annotate _ (fun _ => rfl) (fun _ => rfl) fun _ => rfl)
  | wait hc hs ho => exact .single (.wait hc hs)
  | launch hc hs hm hl ha => exact .single (.launch hc hs hm hl ha)
  | @refuse c rest hc hs hm hl =>
    have hq : rest.filter (· ≠ c.id) = p.queue.filter (· ≠ c.id) := by
      rcases hs with ⟨-, hq, rfl⟩ | ⟨-, hq⟩ <;> simp [hq]
    have hlive : c.state.isTerminal = false ∧ c.state ≠ .running := by
      rcases hs with ⟨hs, -⟩ | ⟨hs, -⟩ <;> simp [hs, PipelineState.isTerminal]
    exact .single (.conclude _ (registered?_eq_some hc).1 hlive.1 rfl (.inl hq)
      (if_neg hlive.2).symm)
  | skip hq hm h => exact .single (.skip hq h)
  | record k v hc hs =>
    exact .single (.annotate _ (fun c => c.id_push k v) (fun c => c.state_push k v) fun c =>
      c.isRegistered_push k v)
  | conclude x hc hs => exact .single (move_conclude x (pipeline?_eq_some hc).1 hs)
  | @halt c hc hs =>
    refine (moves_warn p c).tail (move_conclude .stopped ?_ hs)
    rw [pipelines_warn]
    exact (pipeline?_eq_some hc).1
  | forget h => exact .single (.forget h)

theorem Does.sameControl (h : Does p d q) : SameControl p q := h.moves.sameControl

theorem Does.state_of_admission (h : Does p d q) (hd : d.isAdmission = true) :
    p.state = .opened := by
  cases h with
  | launch hc hs hm hl ha => exact (mayAdmit_iff.1 hm).1
  | refuse hc hs hm hl => exact (mayAdmit_iff.1 hm).1
  | skip hq hm h => exact (mayAdmit_iff.1 hm).1
  | _ => cases hd

end Moves

/-! ## Deeds in order -/

/-- Some deeds of a kind in order. -/
abbrev Deeds (P : Deed → Prop) : Pool → Pool → Prop :=
  Relation.ReflTransGen fun p q => ∃ d, P d ∧ Does p d q

/-- Deeds of a kind in the order of an operation: nothing ends once something was admitted. -/
def Course (P : Deed → Prop) (p q : Pool) : Prop :=
  ∃ r, Deeds (fun d => P d ∧ d.isAdmission = false) p r ∧
    Deeds (fun d => P d ∧ d.isOutcome = false) r q

section Deeds

variable {P Q : Deed → Prop} {p q r : Pool} {d : Deed}

theorem Does.deeds (h : Does p d q) (hd : P d) : Deeds P p q := .single ⟨d, hd, h⟩

theorem Deeds.mono (h : Deeds P p q) (hPQ : ∀ d, P d → Q d) : Deeds Q p q := by
  induction h with
  | refl => exact .refl
  | tail _ h ih =>
    obtain ⟨d, hd, h⟩ := h
    exact ih.tail ⟨d, hPQ d hd, h⟩

theorem Deeds.moves (h : Deeds P p q) : Moves p q := by
  induction h with
  | refl => exact .refl
  | tail _ h ih =>
    obtain ⟨d, -, h⟩ := h
    exact ih.trans h.moves

theorem Deeds.sameControl (h : Deeds P p q) : SameControl p q := h.moves.sameControl

/-- A property that each deed keeps is kept by deeds in order. -/
theorem Deeds.keeps {I : Pool → Prop} (h : Deeds P p q) (hp : I p)
    (hstep : ∀ r r' d, P d → Does r d r' → I r → I r') : I q := by
  induction h with
  | refl => exact hp
  | tail _ h ih =>
    obtain ⟨d, hd, h⟩ := h
    exact hstep _ _ d hd h ih

theorem Course.refl (P : Deed → Prop) (p : Pool) : Course P p p := ⟨p, .refl, .refl⟩

theorem Course.deeds (h : Course P p q) : Deeds P p q := by
  obtain ⟨r, hr, hq⟩ := h
  exact (hr.mono fun _ h => h.1).trans (hq.mono fun _ h => h.1)

theorem Course.moves (h : Course P p q) : Moves p q := h.deeds.moves

theorem Course.append (h : Course P p q) (hr : Deeds (fun d => P d ∧ d.isOutcome = false) q r) :
    Course P p r := by
  obtain ⟨s, hs, hq⟩ := h
  exact ⟨s, hs, hq.trans hr⟩

theorem Deeds.course (h : Deeds (fun d => P d ∧ d.isOutcome = false) p q) : Course P p q :=
  (Course.refl P p).append h

theorem Deeds.course_of_state (h : Deeds (fun d => d.isAdmission = false → P d) p q)
    (hs : p.state ≠ .opened) : Course P p q := by
  refine ⟨q, ?_, .refl⟩
  induction h with
  | refl => exact .refl
  | tail hr h ih =>
    obtain ⟨d, hd, h⟩ := h
    have hadm : d.isAdmission = false := by
      rw [← Bool.not_eq_true]
      intro hadm
      exact hs ((Deeds.sameControl hr).state.symm.trans (h.state_of_admission hadm))
    exact ih.tail ⟨d, ⟨hd hadm, hadm⟩, h⟩

end Deeds

/-! ## Pipelines under deeds -/

section Pipelines

variable {p q : Pool} {c : Pipeline} {id i : PipelineId} {d : Deed}

@[simp] theorem pipelines_release (p : Pool) (c : Pipeline) :
    (p.release c).pipelines = p.pipelines := by
  unfold release
  split <;> rfl

theorem pipelines_conclude (p : Pool) (c : Pipeline) (x : Ending) :
    (p.conclude c x).pipelines = (p.modify c.id (·.finish x.state x.last)).pipelines := by
  simp only [conclude, change, emit, modify, pipelines_release]

/-- **A deed changes its pipeline, and may add one.** -/
theorem Does.pipelines (h : Does p d q) : q.pipelines =
    (p.pipelines.map fun c => if d.subject = some c.id then d.apply c else c) ++ d.born := by
  have hmodify : ∀ (id : PipelineId) (f : Pipeline → Pipeline), (p.modify id f).pipelines =
      (p.pipelines.map fun c => if some id = some c.id then f c else c) ++ [] := by
    intro id f
    simp only [modify, Option.some_inj, List.append_nil, eq_comm (a := id)]
  cases h with
  | make | exhaust | skip => simp [Deed.subject, Deed.born]
  | conclude x hc hs =>
    rw [pipelines_conclude]
    exact hmodify _ _
  | halt hc hs =>
    rw [pipelines_conclude]
    simp only [modify, pipelines_warn]
    exact hmodify _ _
  | _ => exact hmodify _ _

/-- A deed finds its pipeline in a state that suits it, or suits any state. -/
theorem Does.suits (h : Does p d q) (hi : d.subject = some i) :
    (∃ c ∈ p.pipelines, c.id = i ∧ d.suits c.state = true) ∨ ∀ s, d.suits s = true := by
  cases h with
  | make | exhaust | skip => cases hi
  | take | forget => exact .inr fun _ => rfl
  | invoke hc hs ho | wait hc hs ho =>
    cases hi
    exact .inl ⟨_, (registered?_eq_some hc).1, rfl, by simp [Deed.suits, hs]⟩
  | launch hc hs hm hl ha | refuse hc hs hm hl =>
    cases hi
    refine .inl ⟨_, (registered?_eq_some hc).1, rfl, ?_⟩
    rcases hs with ⟨hs, -⟩ | ⟨hs, -⟩ <;> simp [Deed.suits, hs]
  | record k v hc hs =>
    cases hi
    exact .inl ⟨_, (registered?_eq_some hc).1, rfl, by simp [Deed.suits, hs]⟩
  | conclude x hc hs | halt hc hs =>
    cases hi
    exact .inl ⟨_, (pipeline?_eq_some hc).1, rfl, by simp [Deed.suits, hs]⟩

/-- Every pipeline with a number has ended. -/
def AllEnded (p : Pool) (id : PipelineId) : Prop :=
  ∀ c ∈ p.pipelines, c.id = id → c.state.isTerminal = true

theorem Does.allEnded (h : Does p d q) (hd : d.born = []) (hp : p.AllEnded id) :
    q.AllEnded id := by
  intro c' hc' hid
  rw [h.pipelines, hd, List.append_nil] at hc'
  obtain ⟨c, hc, rfl⟩ := List.mem_map.1 hc'
  by_cases hi : d.subject = some c.id
  · rw [if_pos hi, Deed.id_apply] at hid
    rw [if_pos hi]
    have ht := hp c hc hid
    rcases h.suits hi with ⟨c₀, hc₀, hid₀, hs⟩ | hs
    · exact Deed.isTerminal_apply hs (hp c₀ hc₀ (hid₀.trans hid)) ht
    · exact Deed.isTerminal_apply (hs _) ht ht
  · rw [if_neg hi] at hid ⊢
    exact hp c hc hid

theorem allEnded_conclude (p : Pool) (c : Pipeline) (x : Ending) :
    (p.conclude c x).AllEnded c.id := by
  intro c' hc' hid
  rw [pipelines_conclude] at hc'
  obtain ⟨c₀, -, rfl⟩ := List.mem_map.1 hc'
  by_cases hi : c₀.id = c.id
  · rw [if_pos hi, Pipeline.state_finish, x.isTerminal_state]
  · rw [if_neg hi] at hid
    exact absurd hid hi

end Pipelines

/-! ## Admission -/

section Admission

variable {P : Deed → Prop} {p q : Pool} {c : Pipeline} {rest : List PipelineId} {id : PipelineId}

theorem send?_eq_none {m : Message} (h : p.send? m = none) {l : Line}
    (hl : p.readyLine? = some l) : l.isAccepting = false := by
  unfold send? at h
  rw [hl] at h
  dsimp only at h
  split at h
  · cases h
  · next ha => exact Bool.not_eq_true _ ▸ ha

/-- Asking the host to run a pipeline launches it, or ends it if the host cannot be asked. -/
theorem does_start (hc : p.registered? c.id = some c) (hm : p.mayAdmit = true)
    (hs : c.state = .notStarted ∧ p.queue = [] ∧ rest = [] ∨
      c.state = .queued ∧ p.queue = c.id :: rest) :
    Does p (.launch c.id) ({ p with queue := rest }.start c) ∨
      Does p (.refuse c.id) ({ p with queue := rest }.start c) := by
  unfold start
  cases h : ({ p with queue := rest } : Pool).send?
    (.toPipeline c.id (.createPipeline c.commands)) with
  | some q =>
    obtain ⟨l, hl, ha, rfl⟩ := send?_eq_some h
    exact .inl (.launch hc hs hm hl ha)
  | none => exact .inr (.refuse hc hs hm fun l hl => send?_eq_none h hl)

theorem deeds_admitHead (hm : p.mayAdmit = true)
    (hP : ∀ d, d.isAdmission = true → (∀ i, d = .refuse i → ¬ p.AllEnded i) → P d) :
    Deeds (fun d => P d ∧ d.isAdmission = true) p p.admitHead := by
  unfold admitHead
  cases hq : p.queue with
  | nil => exact .refl
  | cons id rest =>
    have hskip := hP (.skip id) rfl fun i hi => by cases hi
    dsimp only
    cases hc : ({ p with queue := rest } : Pool).registered? id with
    | none => exact (Does.skip hq hm fun c h => by cases hc.symm.trans h).deeds ⟨hskip, rfl⟩
    | some c =>
      obtain ⟨hmem, rfl, -⟩ := registered?_eq_some hc
      dsimp only
      split
      · next hs =>
        rcases does_start (p := p) hc hm (.inr ⟨hs, hq⟩) with h | h
        · exact h.deeds ⟨hP _ rfl fun i hi => (by cases hi), rfl⟩
        · refine h.deeds ⟨hP _ rfl fun i hi hall => ?_, rfl⟩
          cases hi
          have := hall c hmem rfl
          rw [hs] at this
          cases this
      · next hs =>
        refine (Does.skip hq hm fun c' h => ?_).deeds ⟨hskip, rfl⟩
        cases hc.symm.trans h
        exact hs

/-- **Admitting gives out runspaces only, and refuses none that has ended.** -/
theorem deeds_admitUpTo (n : Nat)
    (hP : ∀ d, d.isAdmission = true → (∀ i, d = .refuse i → ¬ p.AllEnded i) → P d) :
    Deeds (fun d => P d ∧ d.isAdmission = true) p (admitUpTo n p) := by
  induction n generalizing p with
  | zero => exact .refl
  | succ n ih =>
    unfold admitUpTo
    split
    · next hm =>
      have hhead := deeds_admitHead hm hP
      refine hhead.trans (ih fun d hd href => hP d hd fun i hi hall => href i hi ?_)
      exact hhead.keeps hall fun _ _ _ hd h hr => h.allEnded (Deed.born_of_admission hd.2) hr
    · exact .refl

theorem deeds_admitQueued (p : Pool) : Deeds (fun d => d.isAdmission = true) p p.admitQueued :=
  (deeds_admitUpTo (P := fun _ => True) _ fun _ _ _ => trivial).mono fun _ h => h.2

theorem course_admitQueued (hP : ∀ d, d.isAdmission = true → P d) : Course P p p.admitQueued :=
  ((deeds_admitQueued p).mono fun d hd => ⟨hP d hd, Deed.isOutcome_of_admission hd⟩).course

theorem AllEnded.admitQueued (h : p.AllEnded id) : p.admitQueued.AllEnded id :=
  (deeds_admitQueued p).keeps h fun _ _ _ hd h hr => h.allEnded (Deed.born_of_admission hd) hr

end Admission

/-! ## Ending -/

section Ending

variable {P : Deed → Prop} {p q : Pool} {c : Pipeline} {id : PipelineId}

theorem finish_of_none (h : p.pipeline? id = none) (s : PipelineState) (last : Option Value) :
    p.finish id s last = p := by
  unfold finish
  rw [h]

theorem finish_of_ended (hc : p.pipeline? id = some c) (hs : c.state.isTerminal = true)
    (s : PipelineState) (last : Option Value) : p.finish id s last = p := by
  unfold finish
  rw [hc]
  exact if_pos hs

theorem finish_of_live (hc : p.pipeline? c.id = some c) (hs : c.state.isTerminal = false)
    (x : Ending) : p.finish c.id x.state x.last =
      if c.state = .running then (p.conclude c x).admitQueued else p.conclude c x := by
  unfold finish
  rw [hc]
  dsimp only
  rw [if_neg (by simp [hs])]
  cases hst : c.state <;> simp [conclude, release, hst] <;> rfl

theorem course_of_conclude {d : Deed} (x : Ending) (h : Does p d (q.conclude c x)) (hd : P d)
    (hout : d.isAdmission = false)
    (hP : ∀ d, d.isAdmission = true → d ≠ .refuse c.id → P d) :
    Course P p (if c.state = .running then (q.conclude c x).admitQueued else q.conclude c x) := by
  refine ⟨q.conclude c x, h.deeds ⟨hd, hout⟩, ?_⟩
  split
  · refine (deeds_admitUpTo _ fun d hd href => hP d hd fun hi => ?_).mono fun d hd =>
      ⟨hd.1, Deed.isOutcome_of_admission hd.2⟩
    exact href _ hi (allEnded_conclude q c x)
  · exact .refl

/-- **Ending a pipeline concludes it and then gives out its runspace.** -/
theorem course_finish (x : Ending) (hx : P (.conclude id x))
    (hP : ∀ d, d.isAdmission = true → d ≠ .refuse id → P d) :
    Course P p (p.finish id x.state x.last) := by
  cases hc : p.pipeline? id with
  | none =>
    rw [finish_of_none hc]
    exact .refl P p
  | some c =>
    obtain rfl := (pipeline?_eq_some hc).2
    cases hs : c.state.isTerminal with
    | true =>
      rw [finish_of_ended hc hs]
      exact .refl P p
    | false =>
      rw [finish_of_live hc hs]
      exact course_of_conclude x (.conclude x hc hs) hx rfl hP

theorem pipeline?_warn (p : Pool) (c : Pipeline) (id : PipelineId) :
    (p.warn c).pipeline? id = p.pipeline? id := by
  simp only [pipeline?, pipelines_warn]

theorem stop_of_none (h : p.pipeline? id = none) : p.stop id = p := by
  unfold stop
  rw [h]

theorem stop_of_some (hc : p.pipeline? c.id = some c) :
    p.stop c.id = (p.warn c).finish c.id .stopped none := by
  unfold stop
  rw [hc]
  rfl

theorem warn_of_not_running (hs : c.state ≠ .running) : p.warn c = p := if_neg hs

theorem warn_of_ended (hs : c.state.isTerminal = true) : p.warn c = p := by
  refine warn_of_not_running fun hrun => ?_
  rw [hrun] at hs
  cases hs

theorem course_stop (hh : P (.halt id))
    (hP : ∀ d, d.isAdmission = true → d ≠ .refuse id → P d) : Course P p (p.stop id) := by
  cases hc : p.pipeline? id with
  | none =>
    rw [stop_of_none hc]
    exact .refl P p
  | some c =>
    obtain rfl := (pipeline?_eq_some hc).2
    have hc' : (p.warn c).pipeline? c.id = some c := by rw [pipeline?_warn, hc]
    rw [stop_of_some hc]
    cases hs : c.state.isTerminal with
    | true =>
      rw [warn_of_ended hs, finish_of_ended hc hs]
      exact .refl P p
    | false =>
      refine (finish_of_live hc' hs .stopped) ▸ ?_
      exact course_of_conclude .stopped (.halt hc hs) hh rfl hP

theorem isTerminal_of_finish {x : Ending}
    (hc : (p.finish id x.state x.last).pipeline? id = some c) : c.state.isTerminal = true := by
  cases hp : p.pipeline? id with
  | none =>
    rw [finish_of_none hp] at hc
    cases hp.symm.trans hc
  | some c₀ =>
    obtain rfl := (pipeline?_eq_some hp).2
    cases hs : c₀.state.isTerminal with
    | true =>
      rw [finish_of_ended hp hs] at hc
      cases hp.symm.trans hc
      exact hs
    | false =>
      have hall := allEnded_conclude p c₀ x
      rw [finish_of_live hp hs] at hc
      obtain ⟨hmem, hid⟩ := pipeline?_eq_some hc
      split at hmem
      · exact hall.admitQueued c hmem hid
      · exact hall c hmem hid

theorem isTerminal_of_stop (hc : (p.stop id).pipeline? id = some c) :
    c.state.isTerminal = true := by
  cases hp : p.pipeline? id with
  | none =>
    rw [stop_of_none hp] at hc
    cases hp.symm.trans hc
  | some c₀ =>
    obtain rfl := (pipeline?_eq_some hp).2
    rw [stop_of_some hp] at hc
    exact isTerminal_of_finish (x := .stopped) hc

theorem deeds_stopAll (ids : List PipelineId) (hh : ∀ id ∈ ids, P (.halt id))
    (hP : ∀ d, d.isAdmission = true → P d) : Deeds P p (p.stopAll ids) := by
  induction ids generalizing p with
  | nil => exact .refl
  | cons id ids ih =>
    rw [List.forall_mem_cons] at hh
    exact (course_stop hh.1 fun d hd _ => hP d hd).deeds.trans (ih hh.2)

theorem deeds_failAll (e : Fault) (ids : List PipelineId)
    (hx : ∀ id ∈ ids, P (.conclude id (.failed e.record)))
    (hP : ∀ d, d.isAdmission = true → P d) : Deeds P p (p.failAll e ids) := by
  induction ids generalizing p with
  | nil => exact .refl
  | cons id ids ih =>
    rw [List.forall_mem_cons] at hx
    exact (course_finish (.failed e.record) hx.1 fun d hd _ => hP d hd).deeds.trans (ih hx.2)

end Ending

/-! ## Calls -/

section Calls

variable {P : Deed → Prop} (hP : ∀ d, d.isOutcome = false → d.isEntry = false → P d) (p : Pool)

/-- A pipeline is invoked, and is started at once or waits. -/
def Takes (id : PipelineId) (q : Pool) : Prop :=
  ∃ r, Does p (.invoke id) r ∧
    (Does r (.launch id) q ∨ Does r (.refuse id) q ∨ Does r (.wait id) q)

theorem takes_beginInvoke (id : PipelineId) : (∃ e, p.beginInvoke id = (p, .error e)) ∨
    ∃ q, p.beginInvoke id = (q, .ok ()) ∧ p.Takes id q := by
  unfold beginInvoke
  cases hc : p.pipeline? id with
  | none => exact .inl ⟨_, rfl⟩
  | some c =>
    obtain ⟨-, rfl⟩ := pipeline?_eq_some hc
    dsimp only
    split
    · exact .inl ⟨_, rfl⟩
    split
    · exact .inl ⟨_, rfl⟩
    · next hopen =>
      rw [Decidable.not_not] at hopen
      split
      · exact .inl ⟨_, rfl⟩
      · next hnew =>
        rw [not_or, Decidable.not_not, Decidable.not_not] at hnew
        obtain ⟨hs, hr⟩ := hnew
        -- the pipeline as it is once the invocation is accepted
        let invoked (c : Pipeline) : Pipeline := { c with isInvoked := true }
        have hc' : (p.modify c.id invoked).registered? c.id = some (invoked c) := by
          refine registered?_of_pipeline? ?_ hr
          rw [pipeline?_modify (f := invoked) fun _ => rfl, if_pos rfl, hc]
          rfl
        have hinvoke : Does p (.invoke c.id) (p.modify c.id invoked) :=
          .invoke (registered?_of_pipeline? hc hr) hs hopen
        split
        · next hfree =>
          obtain ⟨hlt, hq⟩ := hfree
          have hm : (p.modify c.id invoked).mayAdmit = true := mayAdmit_iff.2 ⟨hopen, hlt⟩
          have hsame : ({ p.modify c.id invoked with queue := [] } : Pool) =
              p.modify c.id invoked := by
            rw [← hq]
          have hstart := does_start (c := invoked c) hc' hm (.inl ⟨hs, hq, rfl⟩)
          rw [hsame] at hstart
          exact .inr ⟨_, rfl, _, hinvoke, hstart.imp_right .inl⟩
        · exact .inr ⟨_, rfl, _, hinvoke, .inr (.inr (.wait (c := invoked c) hc' hs hopen))⟩

include hP

theorem deeds_create (commands : List Command) :
    Deeds (fun d => P d ∧ d.isOutcome = false) p (p.create commands).1 := by
  unfold create
  split
  · exact .refl
  · split
    · exact .refl
    · next ho =>
      dsimp only
      split
      · next h => exact (Does.exhaust h).deeds ⟨hP _ rfl rfl, rfl⟩
      · next h =>
        exact (Does.make commands (Decidable.not_not.1 ho) h).deeds ⟨hP _ rfl rfl, rfl⟩

theorem deeds_takeStream (id : PipelineId) (k : StreamKind) :
    Deeds (fun d => P d ∧ d.isOutcome = false) p (p.takeStream id k).1 := by
  unfold takeStream
  cases p.pipeline? id with
  | none => exact .refl
  | some c =>
    dsimp only
    split
    · exact .refl
    · exact (Does.take id k).deeds ⟨hP _ rfl rfl, rfl⟩

theorem takes_submit (commands : List Command) :
    ∃ q, Deeds (fun d => P d ∧ d.isOutcome = false) p q ∧
      ((∃ e, p.submit commands = (q, .error e)) ∨
        ∃ id r, p.submit commands = (r, .ok id) ∧ q.Takes id r) := by
  have hcreate := deeds_create hP p commands
  unfold submit
  generalize p.create commands = made at hcreate ⊢
  obtain ⟨q, e | id⟩ := made
  · exact ⟨q, hcreate, .inl ⟨e, rfl⟩⟩
  · refine ⟨q, hcreate, ?_⟩
    dsimp only
    rcases takes_beginInvoke q id with ⟨e, h⟩ | ⟨r, h, htakes⟩
    · rw [h]
      exact .inl ⟨e, rfl⟩
    · rw [h]
      exact .inr ⟨id, r, rfl, htakes⟩

theorem takes_submitBatched (chain : Chain) :
    ∃ q, Deeds (fun d => P d ∧ d.isOutcome = false) p q ∧
      ((∃ a, p.submitBatched chain = (q, a) ∧ a.toOption.join = none) ∨
        ∃ id r, p.submitBatched chain = (r, .ok (some id)) ∧ q.Takes id r) := by
  unfold submitBatched
  cases chain.fuse? with
  | none => exact ⟨p, .refl, .inl ⟨_, rfl, rfl⟩⟩
  | some fused =>
    dsimp only
    split
    · obtain ⟨q, hq, ⟨e, h⟩ | ⟨id, r, h, htakes⟩⟩ := takes_submit hP p fused.commands
      · rw [h]
        exact ⟨q, hq, .inl ⟨_, rfl, rfl⟩⟩
      · rw [h]
        exact ⟨q, hq, .inr ⟨id, r, rfl, htakes⟩⟩
    · exact ⟨p, .refl, .inl ⟨_, rfl, rfl⟩⟩

section Invocation

variable (hin : ∀ d, d.isEntry = true → P d)
include hin

theorem Takes.deeds {p q : Pool} {id : PipelineId} (h : p.Takes id q) :
    Deeds (fun d => P d ∧ d.isOutcome = false) p q := by
  obtain ⟨r, hinvoke, hstart⟩ := h
  refine .head ⟨_, ⟨hin _ rfl, rfl⟩, hinvoke⟩ ?_
  rcases hstart with h | h | h
  · exact h.deeds ⟨hP _ rfl rfl, rfl⟩
  · exact h.deeds ⟨hP _ rfl rfl, rfl⟩
  · exact h.deeds ⟨hin _ rfl, rfl⟩

theorem deeds_beginInvoke (id : PipelineId) :
    Deeds (fun d => P d ∧ d.isOutcome = false) p (p.beginInvoke id).1 := by
  rcases takes_beginInvoke p id with ⟨e, h⟩ | ⟨q, h, htakes⟩
  · rw [h]
  · rw [h]
    exact htakes.deeds hP hin

theorem deeds_submit (commands : List Command) :
    Deeds (fun d => P d ∧ d.isOutcome = false) p (p.submit commands).1 := by
  obtain ⟨q, hq, ⟨e, h⟩ | ⟨id, r, h, htakes⟩⟩ := takes_submit hP p commands
  · rw [h]
    exact hq
  · rw [h]
    exact hq.trans (htakes.deeds hP hin)

theorem deeds_submitBatched (chain : Chain) :
    Deeds (fun d => P d ∧ d.isOutcome = false) p (p.submitBatched chain).1 := by
  obtain ⟨q, hq, ⟨a, h, -⟩ | ⟨id, r, h, htakes⟩⟩ := takes_submitBatched hP p chain
  · rw [h]
    exact hq
  · rw [h]
    exact hq.trans (htakes.deeds hP hin)

end Invocation

variable {id : PipelineId}

theorem course_stopPipeline (hh : P (.halt id)) : Course P p (p.stopPipeline id) := by
  unfold stopPipeline
  cases p.pipeline? id with
  | none => exact .refl P p
  | some c =>
    dsimp only
    split
    · exact .refl P p
    · exact course_stop hh fun d hd _ =>
        hP d (Deed.isOutcome_of_admission hd) (Deed.isEntry_of_admission hd)

theorem course_dispose (hh : P (.halt id)) : Course P p (p.dispose id) := by
  have hstop : Course P p (p.stop id) :=
    course_stop hh fun d hd _ =>
      hP d (Deed.isOutcome_of_admission hd) (Deed.isEntry_of_admission hd)
  exact hstop.append ((Does.forget fun _ hc => isTerminal_of_stop hc).deeds ⟨hP _ rfl rfl, rfl⟩)

end Calls

/-! ## News to pipelines -/

section News

variable {P : Deed → Prop} {p : Pool} {id : PipelineId} {payload : Payload}

/-- A message to a pipeline brings it a record, or ends it, or means nothing. -/
theorem course_receivePipeline (hr : ∀ k v, payload = .record k v → P (.record id k v))
    (hx : ∀ x, payload.ending = some x → P (.conclude id x))
    (hP : ∀ d, d.isAdmission = true → d ≠ .refuse id → P d) :
    Course P p (p.receivePipeline id payload) := by
  unfold receivePipeline
  cases hc : p.registered? id with
  | none => exact .refl P p
  | some c =>
    obtain ⟨-, rfl, -⟩ := registered?_eq_some hc
    dsimp only
    split
    · next hs =>
      unfold receiveRunning
      split
      · next k v =>
        exact ⟨_, (Does.record k v hc hs).deeds ⟨hr k v rfl, rfl⟩, .refl⟩
      · exact course_finish .completed (hx _ rfl) hP
      · exact course_finish (.failed _) (hx _ rfl) hP
      · exact course_finish .stopped (hx _ rfl) hP
      · exact .refl P p
    · exact .refl P p

theorem course_losePipeline {e : Fault} (hx : P (.conclude id (.failed e.record)))
    (hP : ∀ d, d.isAdmission = true → d ≠ .refuse id → P d) :
    Course P p (p.lose (.pipeline id) e) := by
  unfold lose
  dsimp only
  cases p.registered? id with
  | none => exact .refl P p
  | some c =>
    dsimp only
    split
    · exact course_finish (.failed e.record) hx hP
    · exact .refl P p

end News

/-! ## Operations as moves -/

section Moves

variable (p : Pool) (id : PipelineId)

theorem moves_admitQueued : Moves p p.admitQueued := (deeds_admitQueued p).moves

theorem moves_failAll (e : Fault) (ids : List PipelineId) : Moves p (p.failAll e ids) :=
  (deeds_failAll (P := fun _ => True) e ids (fun _ _ => trivial) fun _ _ => trivial).moves

theorem moves_closing : Moves p
    ((p.stopAll (p.idsWhere fun s => ¬ s.isTerminal)).trySend (.toPool .closePool)) :=
  (deeds_stopAll (P := fun _ => True) _ (fun _ _ => trivial) fun _ _ => trivial).moves.trans
    (moves_trySend _ _)

end Moves

end Pool

end Runspace
