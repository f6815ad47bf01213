import Runspace.Proofs.Pool.Failures
import Runspace.Proofs.Pool.Frames
import Runspace.Proofs.Pool.Order

/-!
# Refusals — calls that come to nothing

A pipeline is invoked once: from the call that is accepted on, every other is refused. A call that is
refused leaves the pool as it is, so that it can be made again; and what was made and not invoked
stays so while the pool lives, whatever becomes of its channels.

* `Pool.Refuses`, **`step_of_refuses`**: the calls that are refused, and that they change nothing;
* `Does.lasts`, **`lasts_run`**: what a pipeline has and no deed takes away;
* `Marked`, **`marked_run`**: the pipelines whose invocations were accepted are marked for ever;
* `Fresh`, `beginInvoke_of_fresh`: those that may be invoked;
* `Spares`, `spares_admitQueued`, `spares_finish`: changes that leave one pipeline alone;
* **`Fresh.step`**, **`Fresh.run`**: a pipeline may be invoked until it is, or is disposed of;
* **`refusals_of_run`**: all of it after any events.
-/

namespace Runspace

namespace Pool

/-! ## Refused calls -/

/-- The calls that a pool refuses, of those that change the limit, or make or invoke a pipeline. -/
inductive Refuses (p : Pool) : Event → Prop where
  | setMaxRunspaces {n : Nat} {f : Fault} (h : (p.setMaxRunspaces n).2 = .error f) :
    Refuses p (.setMaxRunspaces n)
  | create {commands : List Command} {f : Fault} (h : (p.create commands).2 = .error f) :
    Refuses p (.create commands)
  | beginInvoke {i : PipelineId} {f : Fault} (h : (p.beginInvoke i).2 = .error f) :
    Refuses p (.beginInvoke i)

section Refuses

variable {p : Pool} {e : Event} {commands : List Command}

theorem create_cases (hp : Accounted p) (hn : (p.create commands).1.nextId ≤ UInt64.size) :
    (∃ f, p.create commands = (p, .error f)) ∨ ∃ i, (p.create commands).2 = .ok i := by
  by_cases hc : commands = []
  · refine .inl ⟨.invalidArgument .noCommands, ?_⟩
    rw [hc]
    rfl
  by_cases hs : p.state = .opened
  · refine .inr ?_
    have hlt : p.nextId < UInt64.size := by
      have hnext : (p.create commands).1.nextId = p.nextId + 1 := by
        have hempty : commands.isEmpty = false := by simpa using hc
        unfold create
        rw [hempty, if_neg (by simp), if_neg (not_not_intro hs)]
        dsimp only
        split <;> rfl
      omega
    obtain ⟨i, -, hi⟩ := create_of_opened hlt (by have := hp.nextId_eq; omega) hs hc
    exact ⟨i, congrArg Prod.snd hi⟩
  · exact .inl (create_of_ne hs commands)

/-- **A call that is refused leaves the pool as it is.** -/
theorem step_of_refuses (h : p.Refuses e) (hp : Accounted p)
    (hn : (p.step e).nextId ≤ UInt64.size) : p.step e = p := by
  cases h with
  | @setMaxRunspaces n f h =>
    rcases setMaxRunspaces_cases p n with ⟨f, hf⟩ | ⟨-, -, ⟨-, hok⟩ | ⟨l, -, -, -, hok⟩⟩
    · exact congrArg Prod.fst hf
    · rw [hok] at h
      cases h
    · rw [hok] at h
      cases h
  | create h =>
    rcases create_cases hp hn with ⟨f, hf⟩ | ⟨i, hok⟩
    · exact congrArg Prod.fst hf
    · cases h.symm.trans hok
  | @beginInvoke i f h =>
    rcases takes_beginInvoke p i with ⟨f, hf⟩ | ⟨q, hok, -⟩
    · exact congrArg Prod.fst hf
    · rw [hok] at h
      cases h

end Refuses

/-! ## Pipelines that were invoked -/

/-- The invocation of a pipeline was accepted. -/
def Marked (p : Pool) (i : PipelineId) : Prop := ∃ c, p.pipeline? i = some c ∧ c.isInvoked = true

section Marked

variable {P : Deed → Prop} {p q start : Pool} {d : Deed} {i : PipelineId} {c : Pipeline}

theorem isInvoked_push (c : Pipeline) (k : StreamKind) (v : Value) :
    (c.push k v).isInvoked = c.isInvoked := by
  unfold Pipeline.push
  split <;> rfl

theorem isInvoked_finish (c : Pipeline) (s : PipelineState) (last : Option Value) :
    (c.finish s last).isInvoked = c.isInvoked := by
  cases last with
  | none => rfl
  | some v => exact isInvoked_push c .error v

theorem isInvoked_apply (d : Deed) (hc : c.isInvoked = true) : (d.apply c).isInvoked = true := by
  cases d with
  | invoke => rfl
  | refuse | conclude | halt => exact (isInvoked_finish c _ _).trans hc
  | record _ k v => exact (isInvoked_push c k v).trans hc
  | _ => exact hc

theorem Does.pipeline? (h : Does p d q) (hc : p.pipeline? i = some c) :
    q.pipeline? i = some (if d.subject = some c.id then d.apply c else c) := by
  have hid : ∀ c, (if d.subject = some c.id then d.apply c else c).id = c.id := by
    intro c
    split
    · exact d.id_apply c
    · rfl
  rw [Pool.pipeline?, h.pipelines, List.find?_append, List.find?_map]
  simp only [Function.comp_def, hid]
  rw [Pool.pipeline?] at hc
  rw [hc]
  rfl

theorem Does.lasts {F : Pipeline → Prop} (hF : ∀ (d : Deed) c, F c → F (d.apply c)) (h : Does p d q)
    (hi : ∃ c, p.pipeline? i = some c ∧ F c) : ∃ c, q.pipeline? i = some c ∧ F c := by
  obtain ⟨c, hc, hf⟩ := hi
  refine ⟨_, h.pipeline? hc, ?_⟩
  split
  · exact hF d c hf
  · exact hf

theorem lasts_step {F : Pipeline → Prop} (hF : ∀ (d : Deed) c, F c → F (d.apply c))
    (hi : ∃ c, p.pipeline? i = some c ∧ F c) (e : Event) :
    ∃ c, (p.step e).pipeline? i = some c ∧ F c := by
  have hcongr : ∀ {q r : Pool}, SameWork q r → (∃ c, q.pipeline? i = some c ∧ F c) →
      ∃ c, r.pipeline? i = some c ∧ F c := by
    intro q r h hq
    simpa only [Pool.pipeline?, h.pipelines] using hq
  obtain ⟨p₁, p₂, hp, hd, hq⟩ := stepCourse_step p e
  have hdone := hd.deeds.keeps (I := fun r => ∃ c, r.pipeline? i = some c ∧ F c)
    (hcongr hp.toSameWork hi) fun _ _ _ _ hd hr => hd.lasts hF hr
  exact hcongr hq.toSameWork hdone

/-- **What no deed takes away from a pipeline lasts.** -/
theorem lasts_run {F : Pipeline → Prop} (hF : ∀ (d : Deed) c, F c → F (d.apply c))
    (hi : ∃ c, p.pipeline? i = some c ∧ F c) (events : List Event) :
    ∃ c, (p.run events).pipeline? i = some c ∧ F c := by
  induction events generalizing p with
  | nil => exact hi
  | cons e events ih => exact ih (lasts_step hF hi e)

theorem Does.marked (h : Does p d q) (hi : Marked p i) : Marked q i :=
  h.lasts (fun d _ => isInvoked_apply d) hi

theorem Marked.of_sameWork (hi : Marked p i) (h : SameWork p q) : Marked q i := by
  simpa only [Marked, Pool.pipeline?, h.pipelines] using hi

theorem Deeds.marked (h : Deeds P p q) (hi : Marked p i) : Marked q i :=
  h.keeps hi fun _ _ _ _ hd hr => hd.marked hr

theorem Takes.marked (h : p.Takes i q) (hp : Accounted p) : Marked q i := by
  obtain ⟨r, hinvoke, hstart⟩ := h
  have hr : Marked r i := by
    cases hinvoke with
    | invoke hc hs ho =>
      have hfind := hp.pipeline?_of_mem (registered?_eq_some hc).1
      refine ⟨_, (Does.invoke hc hs ho).pipeline? hfind, ?_⟩
      split
      · rfl
      · next hne => exact absurd rfl hne
  rcases hstart with h | h | h
  · exact h.marked hr
  · exact h.marked hr
  · exact h.marked hr

/-- **The pipelines whose invocations were accepted are marked.** -/
theorem marked_run (hs : Accounted start) (events : List Event)
    (hn : (start.run events).nextId ≤ UInt64.size) :
    ∀ i ∈ start.invoked events, Marked (start.run events) i := by
  induction events using List.reverseRecOn with
  | nil => exact fun i hi => by cases hi
  | append_singleton events e ih =>
    rw [run_append] at hn ⊢
    have hn' := Nat.le_trans (stepMoves_step _ e).nextId_le hn
    have hacc := hs.run events hn'
    intro i hi
    rw [invoked_append, List.mem_append] at hi
    rcases entries_of_step (start.run events) e with
      ⟨hnone, p₁, p₂, hp, hd, hq⟩ | ⟨he, j, q, hsome, hd, htakes⟩
    · rw [hnone] at hi
      have hold := ih hn' i (hi.resolve_right List.not_mem_nil)
      exact (hd.marked (hold.of_sameWork hp.toSameWork)).of_sameWork hq.toSameWork
    · have htaken := htakes.fits he
      have hq := (Deeds.moves hd).accounted hacc (Nat.le_trans htaken.moves.nextId_le hn)
      rw [hsome, Option.toList_some, List.mem_singleton] at hi
      rcases hi with hi | rfl
      · exact htaken.marked (hd.marked (ih hn' i hi))
      · exact htakes.marked hq

theorem beginInvoke_of_marked (h : Marked p i) :
    p.beginInvoke i = (p, .error (.alreadyInvoked i)) := by
  obtain ⟨c, hc, hm⟩ := h
  unfold beginInvoke
  rw [hc]
  exact if_pos hm

end Marked

/-! ## Changes that leave one pipeline alone -/

/-- A change that leaves one pipeline as it is and does not add it to the queue. -/
structure Spares (i : PipelineId) (p q : Pool) : Prop where
  pipeline : q.pipeline? i = p.pipeline? i
  queue : i ∉ p.queue → i ∉ q.queue

section Spares

variable {p q r : Pool} {c : Pipeline} {i j : PipelineId} {f : Pipeline → Pipeline}

theorem Spares.refl (i : PipelineId) (p : Pool) : Spares i p p := ⟨rfl, fun h => h⟩

theorem Spares.trans (h : Spares i p q) (h' : Spares i q r) : Spares i p r :=
  ⟨h'.pipeline.trans h.pipeline, fun hq => h'.queue (h.queue hq)⟩

theorem SameWork.spares (h : SameWork p q) (i : PipelineId) : Spares i p q :=
  ⟨by simp only [pipeline?, h.pipelines], fun hq => by rwa [h.queue]⟩

theorem Spares.of_modify (hj : j ≠ i) (hf : ∀ c, (f c).id = c.id)
    (hp : q.pipelines = (p.modify j f).pipelines) (hq : i ∉ p.queue → i ∉ q.queue) :
    Spares i p q where
  pipeline := by
    have hfind : q.pipeline? i = (p.modify j f).pipeline? i := by simp only [pipeline?, hp]
    rw [hfind, pipeline?_modify hf, if_neg hj.symm]
  queue := hq

theorem spares_modify (hj : j ≠ i) (hf : ∀ c, (f c).id = c.id) : Spares i p (p.modify j f) :=
  .of_modify hj hf rfl fun h => h

theorem spares_start (hj : c.id ≠ i) : Spares i p (p.start c) := by
  unfold start
  split
  · next q hq =>
    obtain ⟨l, -, -, rfl⟩ := send?_eq_some hq
    exact .of_modify (f := (·.enter .running)) hj (fun _ => rfl) rfl fun h => h
  · refine .of_modify hj (fun c => c.id_finish .failed _) rfl fun h => ?_
    exact fun hmem => h (List.mem_filter.1 hmem).1

/-- Admission leaves a pipeline alone that does not wait. -/
theorem spares_admitHead (hq : i ∉ p.queue) : Spares i p p.admitHead := by
  unfold admitHead
  split
  · exact .refl i p
  · next j rest hqueue =>
    rw [hqueue, List.mem_cons, not_or] at hq
    have hrest : Spares i p { p with queue := rest } := ⟨rfl, fun _ => hq.2⟩
    dsimp only
    split
    · next c hc =>
      split
      · have hid := (registered?_eq_some hc).2.1
        exact hrest.trans (spares_start fun h => hq.1 (h.symm.trans hid))
      · exact hrest
    · exact hrest

theorem spares_admitUpTo (n : Nat) (hq : i ∉ p.queue) : Spares i p (admitUpTo n p) := by
  induction n generalizing p with
  | zero => exact .refl i p
  | succ n ih =>
    unfold admitUpTo
    split
    · have hhead := spares_admitHead hq
      exact hhead.trans (ih (hhead.queue hq))
    · exact .refl i p

theorem spares_admitQueued (hq : i ∉ p.queue) : Spares i p p.admitQueued :=
  spares_admitUpTo _ hq

theorem spares_conclude (hj : c.id ≠ i) (x : Ending) : Spares i p (p.conclude c x) :=
  ⟨by rw [pipeline?_conclude, if_neg hj.symm], fun h hmem =>
    h ((queue_conclude_sublist p c x).subset hmem)⟩

theorem spares_finish (hj : j ≠ i) (hq : i ∉ p.queue) (x : Ending) :
    Spares i p (p.finish j x.state x.last) := by
  cases hc : p.pipeline? j with
  | none =>
    rw [finish_of_none hc]
    exact .refl i p
  | some c =>
    obtain rfl := (pipeline?_eq_some hc).2
    cases hlive : c.state.isTerminal with
    | true =>
      rw [finish_of_ended hc hlive]
      exact .refl i p
    | false =>
      have hend := spares_conclude (p := p) hj x
      rw [finish_of_live hc hlive]
      split
      · exact hend.trans (spares_admitQueued (hend.queue hq))
      · exact hend

theorem spares_stop (hj : j ≠ i) (hq : i ∉ p.queue) : Spares i p (p.stop j) := by
  cases hc : p.pipeline? j with
  | none =>
    rw [stop_of_none hc]
    exact .refl i p
  | some c =>
    obtain rfl := (pipeline?_eq_some hc).2
    have hwarn : Spares i p (p.warn c) := ⟨by simp only [pipeline?, pipelines_warn],
      fun h => by rwa [queue_warn]⟩
    rw [stop_of_some hc]
    exact hwarn.trans (spares_finish hj (hwarn.queue hq) .stopped)

theorem spares_failAll {e : Fault} {ids : List PipelineId} (hi : i ∉ ids) (hq : i ∉ p.queue) :
    Spares i p (p.failAll e ids) := by
  induction ids generalizing p with
  | nil => exact .refl i p
  | cons j ids ih =>
    rw [List.mem_cons, not_or] at hi
    have hj := spares_finish (p := p) (Ne.symm hi.1) hq (.failed e.record)
    exact hj.trans (ih hi.2 (hj.queue hq))

theorem spares_beginInvoke (hj : j ≠ i) : Spares i p (p.beginInvoke j).1 := by
  unfold beginInvoke
  split
  · exact .refl i p
  · next c hc =>
    obtain ⟨-, rfl⟩ := pipeline?_eq_some hc
    have hmark : Spares i p (p.modify c.id fun c => { c with isInvoked := true }) :=
      spares_modify hj fun _ => rfl
    split
    · exact .refl i p
    split
    · exact .refl i p
    split
    · exact .refl i p
    dsimp only
    split
    · exact hmark.trans (spares_start hj)
    · refine hmark.trans (.of_modify (f := (·.enter .queued)) hj (fun _ => rfl) rfl fun h hmem => ?_)
      rcases List.mem_append.1 hmem with hmem | hmem
      · exact h hmem
      · exact hj (List.mem_singleton.1 hmem).symm

theorem spares_create (hc : p.pipeline? i = some c) (commands : List Command) :
    Spares i p (p.create commands).1 := by
  unfold create
  split
  · exact .refl i p
  split
  · exact .refl i p
  dsimp only
  split
  · exact ⟨rfl, fun h => h⟩
  · refine ⟨?_, fun h => h⟩
    rw [pipeline?, List.find?_append]
    rw [pipeline?] at hc ⊢
    rw [hc]
    rfl

end Spares

/-! ## Pipelines that may be invoked -/

/-- A pipeline was made, and was not invoked, stopped or disposed of. -/
def Fresh (p : Pool) (i : PipelineId) : Prop :=
  ∃ c, p.pipeline? i = some c ∧ c.state = .notStarted ∧ c.isInvoked = false ∧ c.isRegistered = true

instance (p : Pool) (i : PipelineId) : Decidable (Fresh p i) :=
  decidable_of_iff ((p.pipeline? i).any (fun c =>
    c.state = .notStarted ∧ c.isInvoked = false ∧ c.isRegistered = true) = true)
    (by simp only [Option.any_eq_true, decide_eq_true_eq]; exact Iff.rfl)

section Fresh

variable {p q : Pool} {e : Event} {i j : PipelineId}

theorem Fresh.of_spares (h : Fresh p i) (hs : Spares i p q) : Fresh q i := by
  obtain ⟨c, hc, hnew⟩ := h
  exact ⟨c, hs.pipeline.trans hc, hnew⟩

theorem Fresh.not_mem_queue (h : Fresh p i) (hp : Accounted p) : i ∉ p.queue := by
  intro hmem
  obtain ⟨c, hc, hs, -⟩ := h
  have hqueued := hp.mem_queue_iff.1 hmem
  rw [stateOf?_of_pipeline? hc, hs] at hqueued
  cases hqueued

theorem Fresh.not_mem_idsWhere (h : Fresh p i) (hp : Accounted p) {f : PipelineState → Bool}
    (hf : f .notStarted = false) : i ∉ p.idsWhere f := by
  intro hmem
  obtain ⟨c, hc, hs, -⟩ := h
  obtain ⟨b, hb, -, hfb⟩ := (hp.mem_idsWhere f i).1 hmem
  rw [hc, Option.some_inj] at hb
  rw [← hb, hs, hf] at hfb
  cases hfb

/-- **An opened pool accepts the invocation.** -/
theorem beginInvoke_of_fresh (h : Fresh p i) (hs : p.state = .opened) :
    (p.beginInvoke i).2 = .ok () := by
  obtain ⟨c, hc, hnew, hm, hr⟩ := h
  have hready : ¬ (c.state ≠ .notStarted ∨ ¬ c.isRegistered = true) := by simp [hnew, hr]
  unfold beginInvoke
  rw [hc]
  dsimp only
  rw [if_neg (by simp [hm]), if_neg (not_not_intro hs), if_neg hready]
  split <;> rfl

theorem beginInvoke_of_fresh_of_ne (h : Fresh p i) (hs : p.state ≠ .opened) :
    p.beginInvoke i = (p, .error (.invalidState "invoke pipeline" p.state.text)) := by
  obtain ⟨c, hc, -, hm, -⟩ := h
  unfold beginInvoke
  rw [hc]
  dsimp only
  rw [if_neg (by simp [hm]), if_pos hs]

theorem Fresh.modify {f : Pipeline → Pipeline} (h : Fresh p i) (hid : ∀ c, (f c).id = c.id)
    (hs : ∀ c, (f c).state = c.state) (hm : ∀ c, (f c).isInvoked = c.isInvoked)
    (hr : ∀ c, (f c).isRegistered = c.isRegistered) : Fresh (p.modify j f) i := by
  obtain ⟨c, hc, hnew, hunmarked, hreg⟩ := h
  by_cases hij : i = j
  · refine ⟨f c, ?_, (hs c).trans hnew, (hm c).trans hunmarked, (hr c).trans hreg⟩
    rw [pipeline?_modify hid, if_pos hij, hc]
    rfl
  · exact ⟨c, by rw [pipeline?_modify hid, if_neg hij, hc], hnew, hunmarked, hreg⟩

theorem Fresh.ne_of_create (h : Fresh p i) (hp : Accounted p) {commands : List Command}
    (hn : (p.create commands).1.nextId ≤ UInt64.size) (hok : (p.create commands).2 = .ok j) :
    j ≠ i := by
  obtain ⟨c, hc, -⟩ := h
  obtain ⟨hmem, rfl⟩ := pipeline?_eq_some hc
  unfold create at hn hok
  split at hok
  · cases hok
  split at hok
  · cases hok
  next hne hopen =>
    rw [if_neg hne, if_neg hopen] at hn
    dsimp only at hn hok
    split at hok
    · cases hok
    · next id hid =>
      cases hok
      rw [hid] at hn
      exact (hp.id_ne_of_ofRaw? (Nat.le_refl _) hn hid hmem).symm

theorem submit_fst (p : Pool) (commands : List Command) : (p.submit commands).1 =
    match (p.create commands).2 with
    | .error _ => (p.create commands).1
    | .ok j => ((p.create commands).1.beginInvoke j).1 := by
  unfold Pool.submit
  rcases p.create commands with ⟨q, f | j⟩
  · rfl
  · dsimp only
    rcases q.beginInvoke j with ⟨r, f | _⟩ <;> rfl

theorem Fresh.submit (h : Fresh p i) (hp : Accounted p) {commands : List Command}
    (hn : (p.submit commands).1.nextId ≤ UInt64.size) : Fresh (p.submit commands).1 i := by
  have hcreate : Fresh (p.create commands).1 i := by
    have ⟨c, hc, _⟩ := h
    exact h.of_spares (spares_create hc commands)
  rw [submit_fst] at hn ⊢
  cases hok : (p.create commands).2 with
  | error f => exact hcreate
  | ok j =>
    rw [hok] at hn
    have hle : (p.create commands).1.nextId ≤ ((p.create commands).1.beginInvoke j).1.nextId :=
      (Deeds.moves (deeds_beginInvoke (P := fun _ => True) (fun _ _ _ => trivial) _
        (fun _ _ => trivial) j)).nextId_le
    have hne := h.ne_of_create hp (Nat.le_trans hle hn) hok
    exact hcreate.of_spares (spares_beginInvoke hne)

theorem Fresh.notice (h : Fresh p i) (hp : Accounted p) {n : Notice} (ha : n.addressee? = some j)
    (g : Nat) : Fresh (p.step (.notice g n)) i := by
  by_cases hr : g = p.generation ∧ p.Runs j
  · obtain ⟨rfl, c, hc, hs⟩ := hr
    have hne : j ≠ i := by
      rintro rfl
      obtain ⟨b, hb, hnew, -⟩ := h
      rw [hc, Option.some_inj] at hb
      rw [← hb, hs] at hnew
      cases hnew
    obtain rfl := (pipeline?_eq_some hc).2
    rw [notice_of_runs hp ha hc hs]
    split
    · next x _ =>
      have hend := spares_conclude (p := p) hne x
      exact h.of_spares (hend.trans (spares_admitQueued (hend.queue (h.not_mem_queue hp))))
    · exact h.of_spares (spares_modify hne n.id_bring)
  · rw [notice_of_not_runs hp ha hr]
    exact h

theorem Fresh.stopPipeline (h : Fresh p i) (hp : Accounted p) (j : PipelineId) :
    Fresh (p.stopPipeline j) i := by
  unfold Pool.stopPipeline
  split
  · next c hc =>
    split
    · exact h
    · next hs =>
      refine h.of_spares (spares_stop ?_ (h.not_mem_queue hp))
      rintro rfl
      obtain ⟨b, hb, hnew, -⟩ := h
      rw [hc, Option.some_inj] at hb
      exact hs (hb ▸ hnew)
  · exact h

theorem Fresh.takeStream (h : Fresh p i) (j : PipelineId) (k : StreamKind) :
    Fresh (p.takeStream j k).1 i := by
  unfold Pool.takeStream
  split
  · exact h
  · split
    · exact h
    · exact h.modify (fun _ => rfl) (fun _ => rfl) (fun _ => rfl) fun _ => rfl

theorem submitBatched_fst (p : Pool) (chain : Chain) : (p.submitBatched chain).1 = p ∨
    ∃ commands, (p.submitBatched chain).1 = (p.submit commands).1 := by
  unfold Pool.submitBatched
  split
  · next fused _ =>
    split
    · refine .inr ⟨fused.commands, ?_⟩
      rcases p.submit fused.commands with ⟨q, f | j⟩ <;> rfl
    · exact .inl rfl
  · exact .inl rfl

theorem addressee?_of_isWork {g : Nat} {n : Notice} (h : (Event.notice g n).isWork = true) :
    ∃ j, n.addressee? = some j := by
  cases n with
  | message m =>
    obtain ⟨_ | j, payload⟩ := m
    · cases h
    · exact ⟨j, rfl⟩
  | framingError target f | sendFailed target f =>
    cases target with
    | pool => cases h
    | pipeline j => exact ⟨j, rfl⟩
  | closed f => cases h

theorem Fresh.of_isWork (h : Fresh p i) (hp : Accounted p) (hn : (p.step e).nextId ≤ UInt64.size)
    (hw : e.isWork = true) (hd : e ≠ .dispose i) (ha : p.accepted? e ≠ some i) :
    Fresh (p.step e) i := by
  cases e with
  | create commands =>
    have ⟨c, hc, _⟩ := h
    exact h.of_spares (spares_create hc commands)
  | submit commands => exact h.submit hp hn
  | submitBatched chain =>
    change Fresh (p.submitBatched chain).1 i
    change (p.submitBatched chain).1.nextId ≤ _ at hn
    rcases submitBatched_fst p chain with hsame | ⟨commands, hsubmit⟩
    · rw [hsame]
      exact h
    · rw [hsubmit] at hn ⊢
      exact h.submit hp hn
  | beginInvoke j =>
    by_cases hj : j = i
    · subst hj
      rcases takes_beginInvoke p j with ⟨f, hf⟩ | ⟨q, hok, -⟩
      · rw [Pool.step, hf]
        exact h
      · refine absurd ?_ ha
        rw [accepted?, hok]
        rfl
    · exact h.of_spares (spares_beginInvoke hj)
  | stop j => exact h.stopPipeline hp j
  | dispose j =>
    have hj : j ≠ i := fun hj => hd (hj ▸ rfl)
    have hq := h.not_mem_queue hp
    exact h.of_spares ((spares_stop hj hq).trans (spares_modify hj fun _ => rfl))
  | takeStream j k => exact h.takeStream j k
  | notice g n =>
    obtain ⟨j, hj⟩ := addressee?_of_isWork hw
    exact h.notice hp hj g
  | _ => cases hw

/-- A turn of the pool itself, by which it is not over, fails pipelines that run at most. -/
theorem Fresh.of_turn (h : Fresh p i) (hp : Accounted p) (ht : Turn p e q)
    (hw : e.isWork = false) (ho : q.state.isOver = false) : Fresh q i := by
  have hsame : ∀ {q : Pool}, SameWork p q → Fresh q i := fun hs => h.of_spares (hs.spares i)
  have hq := h.not_mem_queue hp
  have hfill : ∀ {q : Pool}, SameWork p q → Fresh q.admitQueued i := fun hs =>
    h.of_spares ((hs.spares i).trans (spares_admitQueued (hs.queue ▸ hq)))
  cases ht with
  | idle => exact h
  | work hw' => cases hw.symm.trans hw'
  | beginOpen | beginReconnect | closeUnopened | endClose | lineStopped =>
    exact hsame ⟨rfl, rfl, rfl, rfl⟩
  | outdated | unconnected => exact hsame (sameAccounts_resolve p _ _).toSameWork
  | greet => exact hsame (sameAccounts_attach p _).toSameWork
  | succeed => exact hsame (sameAccounts_setProgress p _ _).toSameWork
  | giveUp => exact hsame (sameWork_giveUp p _)
  | beginClose hs =>
    rw [state_shutDown, (sameAccounts_refuseHandshake _).state] at ho
    rcases hs with ⟨-, rfl⟩ | ⟨-, rfl⟩ <;> cases ho
  | setLimit | announceLimit => exact hfill ⟨rfl, rfl, rfl, rfl⟩
  | hostOpened =>
    have hopen : Fresh p.ready.admitQueued i := hfill ⟨rfl, rfl, rfl, rfl⟩
    exact hopen.of_spares ((sameAccounts_resolve _ _ _).toSameWork.spares i)
  | hostRefused => exact hsame (sameAccounts_answer p _ _).toSameWork
  | hostEnded =>
    rw [state_leave] at ho
    cases ho
  | @lineEnded f =>
    have hset : Spares i p { p with state := .disconnected } := ⟨rfl, fun hq => hq⟩
    have hids : i ∉ p.idsWhere fun s => s = .running := h.not_mem_idsWhere hp rfl
    have hfail := hset.trans (spares_failAll (e := closeReason f) hids hq)
    exact h.of_spares (hfail.trans ((sameAccounts_detach _).toSameWork.spares i))
  | lineLost => exact hsame (sameAccounts_detach p).toSameWork

/-- **A pipeline that may be invoked still may after a step of a pool that is not over, unless this
step invokes it or disposes of it.** -/
theorem Fresh.step (h : Fresh p i) (hp : Accounted p) (hn : (p.step e).nextId ≤ UInt64.size)
    (hd : e ≠ .dispose i) (ha : p.accepted? e ≠ some i) (ho : (p.step e).state.isOver = false) :
    Fresh (p.step e) i := by
  cases hw : e.isWork with
  | true => exact h.of_isWork hp hn hw hd ha
  | false => exact h.of_turn hp (turn_step p e) hw ho

/-- **A pipeline that may be invoked still may after any events in which it is neither invoked nor
disposed of, if the pool is not over then.** -/
theorem Fresh.run {events : List Event} (h : Fresh p i) (hp : Accounted p) (ha : Attached p)
    (hn : (p.run events).nextId ≤ UInt64.size) (hd : .dispose i ∉ events)
    (hi : i ∉ p.invoked events) (ho : (p.run events).state.isOver = false) :
    Fresh (p.run events) i := by
  induction events generalizing p with
  | nil => exact h
  | cons e events ih =>
    rw [List.mem_cons, not_or] at hd
    have hcons : p.invoked (e :: events) = (p.accepted? e).toList ++ (p.step e).invoked events := rfl
    rw [hcons, List.mem_append, not_or, Option.mem_toList] at hi
    have hnext : (p.step e).nextId ≤ UInt64.size := Nat.le_trans (nextId_le_run _ events) hn
    have hlive : (p.step e).state.isOver = false := by
      cases hover : (p.step e).state.isOver with
      | false => rfl
      | true =>
        have hlast : (p.run (e :: events)).state.isOver = true :=
          isOver_run (ha.step e) hover events
        cases ho.symm.trans hlast
    exact ih (h.step hp hnext (Ne.symm hd.1) hi.1 hlive)
      ((stepMoves_step p e).accounted hp hnext) (ha.step e) hn hd.2 hi.2 ho

/-- **A pipeline that may be invoked is accepted once its pool is attached to again.** -/
theorem Fresh.run_reattach (h : Fresh p i) (hp : Accounted p) (hs : p.state = .disconnected)
    (hr : p.isReconnecting = false) (reason : Option String) :
    ((p.run [.beginReconnect, .connected .reconnecting,
      .accept (p.generation + 1) reason]).beginInvoke i).2 = .ok () := by
  rw [Pool.run_reattach hs hr]
  generalize hq : (({ p with reconnecting := .connecting } : Pool).attach .reconnecting).ready = q
  have hsame : SameWork p q := by
    rw [← hq]
    exact ⟨rfl, rfl, rfl, rfl⟩
  have hfill := (hsame.spares i).trans (spares_admitQueued (hsame.queue ▸ h.not_mem_queue hp))
  refine beginInvoke_of_fresh (h.of_spares
    (hfill.trans ((sameAccounts_resolve _ _ _).toSameWork.spares i))) ?_
  rw [state_resolve, state_admitQueued, ← hq]
  rfl

end Fresh

/-! ## Runs -/

/-- **Calls that are refused, in any run,** as long as there were numbers for the pipelines.

Of all calls that invoke a pipeline at most one is accepted, and after it each further one is refused
for this reason, in whatever state pool and pipeline are. A call that changes the limit, makes a
pipeline or invokes one leaves the whole pool as it is, with its outbox, if it is refused. So a
pipeline that was made and not started may be invoked after any events in which it is neither invoked
nor disposed of, once the pool is opened; an invocation that was refused because the pool was not is
no obstacle. In particular it may be as soon as a disconnected pool is attached to again. -/
theorem refusals_of_run (id : PoolId) (options : PoolOptions) (events : List Event)
    (hn : ((new id options).run events).nextId ≤ UInt64.size) :
    let start := new id options
    let p := start.run events
    (start.invoked events).Nodup ∧
      (∀ i ∈ start.invoked events, p.beginInvoke i = (p, .error (.alreadyInvoked i))) ∧
      (∀ e, p.Refuses e → (p.step e).nextId ≤ UInt64.size → p.step e = p) ∧
      (∀ i, Fresh p i →
        (p.state ≠ .opened →
          p.beginInvoke i = (p, .error (.invalidState "invoke pipeline" p.state.text))) ∧
        (∀ more, (p.run more).nextId ≤ UInt64.size → .dispose i ∉ more → i ∉ p.invoked more →
          (p.run more).state = .opened → ((p.run more).beginInvoke i).2 = .ok ()) ∧
        (p.state = .disconnected → p.isReconnecting = false → ∀ reason,
          ((p.run [.beginReconnect, .connected .reconnecting,
            .accept (p.generation + 1) reason]).beginInvoke i).2 = .ok ())) := by
  intro start p
  have hstart : Accounted start := accounted_new id options
  have hp : Accounted p := hstart.run events hn
  have ha : Attached p := (attached_new id options).run events
  refine ⟨(ordered_run (ordered_new id options) hstart events hn).nodup, fun i hi => ?_,
    fun e he => step_of_refuses he hp, fun i hi => ⟨fun hs => ?_, fun more hm hd hnot ho => ?_,
      fun hs hr reason => hi.run_reattach hp hs hr reason⟩⟩
  · exact beginInvoke_of_marked (marked_run hstart events hn i hi)
  · exact beginInvoke_of_fresh_of_ne hi hs
  · exact beginInvoke_of_fresh (hi.run hp ha hm hd hnot (by rw [ho]; rfl)) ho

/-- A pipeline is made, another is invoked, and the channel is lost: the first cannot be invoked then,
and can be once there is a channel again; the second cannot be in either case. -/
theorem refusals_of_run_retried :
    let before : List Event := [.beginOpen, .connected .opening,
      .notice 1 (.message (.toPool (.poolState .opened none))), .resume .opening,
      .create [⟨"Get-Item", []⟩], .submit [⟨"Get-Item", []⟩], .notice 1 (.closed none)]
    let start := new (.ofDraw 0) { maxRunspaces := 1 }
    let p := start.run before
    let again : List Event := [.beginReconnect, .connected .reconnecting,
      .accept (p.generation + 1) none]
    let made : PipelineId := ⟨1, by decide⟩
    let sent : PipelineId := ⟨2, by decide⟩
    p.nextId ≤ UInt64.size ∧ start.invoked before = [sent] ∧ Fresh p made ∧
      p.state = .disconnected ∧ p.isReconnecting = false ∧
      p.beginInvoke sent = (p, .error (.alreadyInvoked sent)) ∧
      p.Refuses (.beginInvoke made) ∧ p.step (.beginInvoke made) = p ∧
      ((p.run again).beginInvoke made).2 = .ok () := by
  intro before start p again made sent
  have hn : p.nextId ≤ UInt64.size := by decide
  have hinvoked : start.invoked before = [sent] := by decide
  have hs : p.state = .disconnected := by decide
  have hr : p.isReconnecting = false := by decide
  have hfresh : Fresh p made := by decide
  obtain ⟨-, hmarked, hrefused, hretry⟩ := refusals_of_run (.ofDraw 0) { maxRunspaces := 1 } before hn
  obtain ⟨hnot, -, hagain⟩ := hretry made hfresh
  have hunopened : p.state ≠ .opened := by decide
  have hrefuses : p.Refuses (.beginInvoke made) :=
    .beginInvoke (congrArg Prod.snd (hnot hunopened))
  have hsent : sent ∈ start.invoked before := by rw [hinvoked]; exact List.mem_singleton.2 rfl
  have hnext : (p.step (.beginInvoke made)).nextId ≤ UInt64.size := by decide
  exact ⟨hn, hinvoked, hfresh, hs, hr, hmarked sent hsent, hrefuses,
    hrefused _ hrefuses hnext, hagain hs hr none⟩

end Pool

end Runspace
