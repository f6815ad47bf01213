import Mathlib.Data.List.Nodup
import Runspace.Proofs.Pool.Steps

/-!
# Accounts — the count, the queue and the numbers of a pool

A pool counts the pipelines that run and lists those that wait, apart from the pipelines
themselves. Each move keeps these accounts in step with the pipelines, as long as there are numbers
for new ones.

* `Accounted`: what the accounts say;
* `Accounted.of_modify`: a change of one pipeline together with the count and the queue;
* `Move.accounted`, `StepMoves.accounted`: moves and steps keep the accounts;
* **`accounts_of_run`**: the accounts of a pool after any events.
-/

namespace Runspace

namespace Pool

/-! ## Pipelines by number -/

section Numbers

variable {p : Pool} {c : Pipeline} {f : Pipeline → Pipeline}

theorem map_modify {α : Type} (g : Pipeline → α) (id : PipelineId) (hg : ∀ c, g (f c) = g c) :
    (p.modify id f).pipelines.map g = p.pipelines.map g := by
  simp only [modify, List.map_map]
  refine List.map_congr_left fun c _ => ?_
  rw [Function.comp_apply]
  split
  · exact hg c
  · rfl

theorem length_modify (id : PipelineId) : (p.modify id f).pipelines.length = p.pipelines.length :=
  List.length_map _

theorem pipeline?_of_mem (hp : (p.pipelines.map (·.id)).Nodup) (hc : c ∈ p.pipelines) :
    p.pipeline? c.id = some c := by
  unfold pipeline?
  generalize p.pipelines = l at hp hc
  induction l with
  | nil => cases hc
  | cons a l ih =>
    rw [List.map_cons, List.nodup_cons] at hp
    rcases List.mem_cons.1 hc with rfl | hc
    · simp
    · have hne : a.id ≠ c.id := fun h => hp.1 (h ▸ List.mem_map_of_mem hc)
      rw [List.find?_cons_of_neg (by simpa using hne)]
      exact ih hp.2 hc

theorem countP_modify (hp : (p.pipelines.map (·.id)).Nodup) (hc : c ∈ p.pipelines)
    (P : Pipeline → Bool) :
    (p.modify c.id f).pipelines.countP P + (if P c then 1 else 0) =
      p.pipelines.countP P + if P (f c) then 1 else 0 := by
  unfold modify
  generalize p.pipelines = l at hp hc
  dsimp only
  induction l with
  | nil => cases hc
  | cons a l ih =>
    rw [List.map_cons, List.nodup_cons] at hp
    rw [List.map_cons, List.countP_cons, List.countP_cons]
    rcases List.mem_cons.1 hc with rfl | hc
    · have hrest : l.map (fun a => if a.id = c.id then f a else a) = l.map fun a => a := by
        refine List.map_congr_left fun a ha => if_neg fun h => hp.1 ?_
        exact h ▸ List.mem_map_of_mem ha
      rw [List.map_id'] at hrest
      rw [hrest, if_pos rfl]
      omega
    · have hne : a.id ≠ c.id := fun h => hp.1 (h ▸ List.mem_map_of_mem hc)
      have := ih hp.2 hc
      rw [if_neg hne]
      omega

end Numbers

/-! ## What the accounts say -/

/-- The accounts of a pool agree with its pipelines. -/
structure Accounted (p : Pool) : Prop where
  numbered : p.pipelines.map (·.id.raw.toNat) = List.range' 1 p.pipelines.length
  nextId_eq : p.nextId = p.pipelines.length + 1
  running_eq : p.running = p.pipelines.countP fun c => c.isRegistered && c.state = .running
  nodup_queue : p.queue.Nodup
  mem_queue : ∀ id, id ∈ p.queue ↔ ∃ c, p.pipeline? id = some c ∧ c.state = .queued
  isTerminal_of_forgotten : ∀ c ∈ p.pipelines, c.isRegistered = false → c.state.isTerminal = true

theorem accounted_new (id : PoolId) (options : PoolOptions) : Accounted (new id options) where
  numbered := rfl
  nextId_eq := rfl
  running_eq := rfl
  nodup_queue := .nil
  mem_queue := by simp [new, pipeline?]
  isTerminal_of_forgotten := by simp [new]

namespace Accounted

variable {p q : Pool} {c : Pipeline} {id : PipelineId} {f : Pipeline → Pipeline}

theorem nodup_ids (h : Accounted p) : (p.pipelines.map (·.id)).Nodup := by
  have hraw : ((p.pipelines.map (·.id)).map (·.raw.toNat)).Nodup := by
    rw [List.map_map, Function.comp_def, h.numbered]
    exact List.nodup_range'
  exact hraw.of_map _

theorem pipeline?_of_mem (h : Accounted p) (hc : c ∈ p.pipelines) : p.pipeline? c.id = some c :=
  Pool.pipeline?_of_mem h.nodup_ids hc

theorem eq_of_id_eq {b : Pipeline} (h : Accounted p) (hb : b ∈ p.pipelines) (hc : c ∈ p.pipelines)
    (hid : b.id = c.id) : b = c := by
  have hfind := h.pipeline?_of_mem hb
  rw [hid, h.pipeline?_of_mem hc] at hfind
  exact (Option.some.inj hfind).symm

theorem isRegistered (h : Accounted p) (hc : c ∈ p.pipelines) (hs : c.state.isTerminal = false) :
    c.isRegistered = true := by
  by_contra hr
  rw [Bool.not_eq_true] at hr
  rw [h.isTerminal_of_forgotten c hc hr] at hs
  cases hs

theorem registered?_of_live (h : Accounted p) (hc : p.pipeline? id = some c)
    (hs : c.state.isTerminal = false) : p.registered? id = some c :=
  registered?_of_pipeline? hc (h.isRegistered (pipeline?_eq_some hc).1 hs)

theorem running_pos (h : Accounted p) (hc : c ∈ p.pipelines) (hs : c.state = .running) :
    0 < p.running := by
  rw [h.running_eq, List.countP_pos_iff]
  exact ⟨c, hc, by simp [h.isRegistered hc (by rw [hs]; rfl), hs]⟩

theorem toNat_lt_nextId (h : Accounted p) (hc : c ∈ p.pipelines) : c.id.raw.toNat < p.nextId := by
  have hmem : c.id.raw.toNat ∈ p.pipelines.map (·.id.raw.toNat) := List.mem_map_of_mem hc
  rw [h.numbered, List.mem_range'_1] at hmem
  rw [h.nextId_eq]
  omega

theorem of_sameWork (h : Accounted p) (hw : SameWork p q) : Accounted q where
  numbered := by rw [hw.pipelines]; exact h.numbered
  nextId_eq := by rw [hw.nextId, hw.pipelines]; exact h.nextId_eq
  running_eq := by rw [hw.running, hw.pipelines]; exact h.running_eq
  nodup_queue := by rw [hw.queue]; exact h.nodup_queue
  mem_queue := by
    simp only [pipeline?, hw.pipelines, hw.queue]
    exact h.mem_queue
  isTerminal_of_forgotten := by rw [hw.pipelines]; exact h.isTerminal_of_forgotten

/-- **A change of one registered pipeline keeps the accounts,** if count and queue follow it. -/
theorem of_modify (h : Accounted p) (hc : c ∈ p.pipelines) (hs : c.state.isTerminal = false)
    (hid : ∀ c, (f c).id = c.id) (hreg : ∀ c, (f c).isRegistered = c.isRegistered)
    (hq : q.pipelines = (p.modify c.id f).pipelines) (hn : q.nextId = p.nextId)
    (hrun : q.running + (if c.state = .running then 1 else 0) =
      p.running + if (f c).state = .running then 1 else 0)
    (hnd : q.queue.Nodup)
    (hmem : ∀ id, id ∈ q.queue ↔ if id = c.id then (f c).state = .queued else id ∈ p.queue) :
    Accounted q where
  numbered := by
    rw [hq, map_modify _ _ fun c => by rw [hid], length_modify]
    exact h.numbered
  nextId_eq := by
    rw [hn, hq, length_modify]
    exact h.nextId_eq
  running_eq := by
    have hcount := countP_modify (f := f) h.nodup_ids hc fun c =>
      c.isRegistered && c.state = .running
    simp only [hreg, h.isRegistered hc hs, Bool.true_and, decide_eq_true_eq] at hcount
    rw [hq]
    have := h.running_eq
    omega
  nodup_queue := hnd
  mem_queue id := by
    have hfind : q.pipeline? id = (p.modify c.id f).pipeline? id := by
      simp only [pipeline?, hq]
    rw [hmem, hfind, pipeline?_modify hid]
    by_cases hi : id = c.id
    · subst hi
      simp [h.pipeline?_of_mem hc]
    · simp only [if_neg hi]
      exact h.mem_queue id
  isTerminal_of_forgotten c' hc' hr := by
    rw [hq] at hc'
    obtain ⟨b, hb, rfl⟩ := List.mem_map.1 hc'
    by_cases hi : b.id = c.id
    · -- the changed pipeline is registered
      rw [if_pos hi, hreg] at hr
      rw [h.eq_of_id_eq hb hc hi, h.isRegistered hc hs] at hr
      cases hr
    · rw [if_neg hi] at hr ⊢
      exact h.isTerminal_of_forgotten b hb hr

/-- A change that leaves states alone, and the registration of all that has not ended, keeps the
accounts. -/
theorem of_relabel (h : Accounted p) (hid : ∀ c, (f c).id = c.id)
    (hs : ∀ c, (f c).state = c.state)
    (hreg : ∀ c ∈ p.pipelines, c.id = id → c.state.isTerminal = false →
      (f c).isRegistered = c.isRegistered) : Accounted (p.modify id f) where
  numbered := by
    rw [map_modify _ _ fun c => by rw [hid], length_modify]
    exact h.numbered
  nextId_eq := by
    rw [length_modify]
    exact h.nextId_eq
  running_eq := by
    simp only [modify, List.countP_map]
    refine h.running_eq.trans (List.countP_congr fun c hc => ?_)
    rw [Function.comp_apply]
    split
    · next hi =>
      rw [hs]
      by_cases hrun : c.state = .running
      · rw [hreg c hc hi (by rw [hrun]; rfl)]
      · simp [hrun]
    · rfl
  nodup_queue := h.nodup_queue
  mem_queue i := by
    rw [pipeline?_modify hid]
    refine (h.mem_queue i).trans ?_
    split
    · cases p.pipeline? i <;> simp [hs]
    · rfl
  isTerminal_of_forgotten c' hc' hr := by
    obtain ⟨c, hc, rfl⟩ := List.mem_map.1 hc'
    by_cases hi : c.id = id
    · rw [if_pos hi] at hr ⊢
      rw [hs]
      by_contra hlive
      rw [Bool.not_eq_true] at hlive
      rw [hreg c hc hi hlive, h.isRegistered hc hlive] at hr
      cases hr
    · rw [if_neg hi] at hr ⊢
      exact h.isTerminal_of_forgotten c hc hr

theorem toNat_of_ofRaw? {n : Nat} (hn : n < UInt64.size)
    (hid : PipelineId.ofRaw? (UInt64.ofNat n) = some id) : id.raw.toNat = n := by
  unfold PipelineId.ofRaw? at hid
  split at hid
  · cases hid
  · cases hid
    exact Nat.mod_eq_of_lt hn

theorem id_ne_of_ofRaw? {n : Nat} (h : Accounted p) (hle : p.nextId ≤ n) (hn : n < UInt64.size)
    (hid : PipelineId.ofRaw? (UInt64.ofNat n) = some id) (hc : c ∈ p.pipelines) : c.id ≠ id := by
  rintro rfl
  have hlt := h.toNat_lt_nextId hc
  rw [toNat_of_ofRaw? hn hid] at hlt
  omega

/-- A deed finds its pipeline in a state that suits it. -/
theorem suits {d : Deed} (h : Accounted p) (hd : Does p d q) (hc : c ∈ p.pipelines)
    (hi : d.subject = some c.id) : d.suits c.state = true := by
  rcases hd.suits hi with ⟨b, hb, hid, hs⟩ | hs
  · exact h.eq_of_id_eq hb hc hid ▸ hs
  · exact hs c.state

theorem make (h : Accounted p) {commands : List Command} (hn : p.nextId + 1 ≤ UInt64.size)
    (hid : PipelineId.ofRaw? (UInt64.ofNat p.nextId) = some id) :
    Accounted { p with
      nextId := p.nextId + 1, pipelines := p.pipelines ++ [{ id, commands }] } where
  numbered := by
    have hraw : id.raw.toNat = p.nextId := toNat_of_ofRaw? hn hid
    rw [List.map_append, h.numbered, List.length_append, List.length_singleton, List.range'_concat,
      List.map_singleton, hraw, h.nextId_eq, Nat.one_mul, Nat.add_comm]
  nextId_eq := by simp [h.nextId_eq]
  running_eq := by
    rw [List.countP_append]
    exact h.running_eq
  nodup_queue := h.nodup_queue
  mem_queue i := by
    refine (h.mem_queue i).trans ?_
    simp only [pipeline?, List.find?_append]
    cases p.pipelines.find? (·.id = i) with
    | some c => rfl
    | none =>
      -- the new pipeline does not wait
      simp only [Option.none_or, List.find?_singleton]
      split <;> simp
  isTerminal_of_forgotten c hc hr := by
    rcases List.mem_append.1 hc with hc | hc
    · exact h.isTerminal_of_forgotten c hc hr
    · rw [List.mem_singleton.1 hc] at hr
      cases hr

end Accounted

/-! ## Moves and steps -/

theorem Move.nextId_le {p q : Pool} (h : Move p q) : p.nextId ≤ q.nextId := by
  cases h with
  | make | exhaust => exact Nat.le_succ _
  | _ => exact Nat.le_refl _

theorem Moves.nextId_le {p q : Pool} (h : Moves p q) : p.nextId ≤ q.nextId := by
  induction h with
  | refl => exact Nat.le_refl _
  | tail _ h ih => exact Nat.le_trans ih h.nextId_le

/-- **A move keeps the accounts,** while there are numbers for new pipelines. -/
theorem Move.accounted {p q : Pool} (h : Move p q) (hp : Accounted p)
    (hn : q.nextId ≤ UInt64.size) : Accounted q := by
  cases h with
  | send m hl ha => exact hp.of_sameWork ⟨rfl, rfl, rfl, rfl⟩
  | annotate id hid hs hr => exact hp.of_relabel hid hs fun c _ _ _ => hr c
  | make commands h => exact hp.make hn h
  | exhaust h =>
    -- the number zero comes round only after all others
    unfold PipelineId.ofRaw? at h
    split at h
    · next hzero =>
      have hmod : p.nextId % UInt64.size = 0 := congrArg UInt64.toNat hzero
      rw [Nat.mod_eq_of_lt hn, hp.nextId_eq] at hmod
      cases hmod
    · cases h
  | @wait c hc hs =>
    obtain ⟨hmem, -, hr⟩ := registered?_eq_some hc
    have hnot : c.id ∉ p.queue := by
      rw [hp.mem_queue, hp.pipeline?_of_mem hmem]
      simp [hs]
    refine hp.of_modify (f := (·.enter .queued)) hmem (by rw [hs]; rfl) (fun _ => rfl)
      (fun _ => rfl) rfl rfl ?_ ?_ ?_
    · simp [hs, change, modify, emit]
    · refine List.nodup_append.2 ⟨hp.nodup_queue, by simp, fun a ha b hb hab => hnot ?_⟩
      rw [List.mem_singleton.1 hb] at hab
      exact hab ▸ ha
    · intro id
      by_cases hi : id = c.id <;> simp [hi]
  | @launch c l rest hc hs hm hl ha =>
    obtain ⟨hmem, -, hr⟩ := registered?_eq_some hc
    have hlive : c.state.isTerminal = false ∧ c.state ≠ .running := by
      rcases hs with ⟨hs, -⟩ | ⟨hs, -⟩ <;> simp [hs, PipelineState.isTerminal]
    refine hp.of_modify (f := (·.enter .running)) hmem hlive.1 (fun _ => rfl) (fun _ => rfl) rfl
      rfl ?_ ?_ ?_
    · simp [hlive.2, change, modify, emit]
    · rcases hs with ⟨-, -, rfl⟩ | ⟨-, hq⟩
      · exact .nil
      · exact (List.nodup_cons.1 (hq ▸ hp.nodup_queue)).2
    · intro id
      rcases hs with ⟨-, hq, rfl⟩ | ⟨-, hq⟩
      · simp [change, modify, emit, hq]
      · have hnot := (List.nodup_cons.1 (hq ▸ hp.nodup_queue)).1
        by_cases hi : id = c.id
        · subst hi
          simpa [change, modify, emit] using hnot
        · simp [change, modify, emit, hq, hi]
  | @conclude c state queue running last hc hs ht hq hr =>
    have hstate : state ≠ .running ∧ state ≠ .queued := by
      constructor <;> rintro rfl <;> cases ht
    refine hp.of_modify (f := (·.finish state last)) hc hs (fun c => c.id_finish _ _)
      (fun c => c.isRegistered_finish _ _) rfl rfl ?_ ?_ ?_
    · rw [Pipeline.state_finish, if_neg hstate.1, Nat.add_zero]
      change running + _ = p.running
      by_cases hrun : c.state = .running
      · have := hp.running_pos hc hrun
        rw [if_pos hrun] at hr ⊢
        omega
      · rw [if_neg hrun] at hr ⊢
        exact hr
    · change queue.Nodup
      rcases hq with rfl | ⟨-, rfl⟩
      · exact hp.nodup_queue.filter _
      · exact hp.nodup_queue
    · intro id
      change id ∈ queue ↔ _
      rw [Pipeline.state_finish]
      rcases hq with rfl | ⟨hne, rfl⟩
      · by_cases hi : id = c.id <;> simp [hi, hstate.2]
      · by_cases hi : id = c.id
        · subst hi
          simp [hp.mem_queue, hp.pipeline?_of_mem hc, hne, hstate.2]
        · rw [if_neg hi]
  | @skip id rest hq h =>
    -- the head of the queue is queued
    obtain ⟨c, hc, hs⟩ := (hp.mem_queue id).1 (by simp [hq])
    exact absurd hs (h c (hp.registered?_of_live hc (by rw [hs]; rfl)))
  | @forget id h =>
    refine hp.of_relabel (fun _ => rfl) (fun _ => rfl) fun c hc hi hlive => ?_
    rw [h c (hi ▸ hp.pipeline?_of_mem hc)] at hlive
    cases hlive

theorem Moves.accounted {p q : Pool} (h : Moves p q) (hp : Accounted p)
    (hn : q.nextId ≤ UInt64.size) : Accounted q := by
  induction h with
  | refl => exact hp
  | tail _ h ih => exact h.accounted (ih (Nat.le_trans h.nextId_le hn)) hn

/-- A property that each deed keeps in a pool with its accounts in order is kept by deeds in
order. -/
theorem Deeds.keeps_accounted {P : Deed → Prop} {I : Pool → Prop} {p q : Pool} (h : Deeds P p q)
    (hp : Accounted p) (hn : q.nextId ≤ UInt64.size) (hI : I p)
    (hstep : ∀ r r' d, P d → Does r d r' → Accounted r → r'.nextId ≤ UInt64.size → I r → I r') :
    I q := by
  induction h with
  | refl => exact hI
  | tail hr h ih =>
    obtain ⟨d, hd, h⟩ := h
    have hnr := Nat.le_trans h.moves.nextId_le hn
    exact hstep _ _ d hd h ((Deeds.moves hr).accounted hp hnr) hn (ih hnr)

theorem StepMoves.nextId_le {p q : Pool} (h : StepMoves p q) : p.nextId ≤ q.nextId := by
  obtain ⟨p₁, p₂, hp, hm, hq⟩ := h
  rw [← hp.nextId, hq.nextId]
  exact hm.nextId_le

theorem StepMoves.accounted {p q : Pool} (h : StepMoves p q) (hp : Accounted p)
    (hn : q.nextId ≤ UInt64.size) : Accounted q := by
  obtain ⟨p₁, p₂, hp₁, hm, hq⟩ := h
  rw [hq.nextId] at hn
  exact (hm.accounted (hp.of_sameWork hp₁) hn).of_sameWork hq.toSameWork

/-! ## Runs -/

theorem nextId_le_run (p : Pool) (events : List Event) : p.nextId ≤ (p.run events).nextId := by
  induction events generalizing p with
  | nil => exact Nat.le_refl _
  | cons e events ih => exact Nat.le_trans (stepMoves_step p e).nextId_le (ih _)

theorem Accounted.run {p : Pool} (hp : Accounted p) (events : List Event)
    (hn : (p.run events).nextId ≤ UInt64.size) : Accounted (p.run events) := by
  induction events generalizing p with
  | nil => exact hp
  | cons e events ih =>
    exact ih ((stepMoves_step p e).accounted hp (Nat.le_trans (nextId_le_run _ events) hn)) hn

section Accounted

variable {p : Pool} (h : Accounted p)
include h

theorem Accounted.mem_idsWhere (f : PipelineState → Bool) (id : PipelineId) :
    id ∈ p.idsWhere f ↔
      ∃ c, p.pipeline? id = some c ∧ c.isRegistered = true ∧ f c.state = true := by
  simp only [idsWhere, List.mem_map, List.mem_filter, Bool.and_eq_true]
  constructor
  · rintro ⟨c, ⟨hc, hr, hf⟩, rfl⟩
    exact ⟨c, h.pipeline?_of_mem hc, hr, hf⟩
  · rintro ⟨c, hc, hr, hf⟩
    obtain ⟨hmem, rfl⟩ := pipeline?_eq_some hc
    exact ⟨c, ⟨hmem, hr, hf⟩, rfl⟩

theorem Accounted.nodup_idsWhere (f : PipelineState → Bool) : (p.idsWhere f).Nodup :=
  h.nodup_ids.sublist (List.filter_sublist.map _)

theorem Accounted.queue_perm : p.queue.Perm (p.idsWhere (· = .queued)) := by
  refine (List.perm_ext_iff_of_nodup h.nodup_queue (h.nodup_idsWhere _)).2 fun id => ?_
  rw [h.mem_queue, h.mem_idsWhere]
  refine exists_congr fun c => and_congr_right fun hc => ?_
  rw [decide_eq_true_eq, iff_and_self]
  exact fun hs => h.isRegistered (pipeline?_eq_some hc).1 (by rw [hs]; rfl)

theorem Accounted.registered?_eq_some_iff (id : PipelineId) (c : Pipeline) :
    p.registered? id = some c ↔ c ∈ p.pipelines ∧ c.id = id ∧ c.isRegistered = true := by
  constructor
  · exact registered?_eq_some
  · rintro ⟨hc, rfl, hr⟩
    exact registered?_of_pipeline? (h.pipeline?_of_mem hc) hr

end Accounted

/-- **The accounts of a pool are right after any events,** as long as fewer than `UInt64.size`
pipelines were made: the count is that of the registered pipelines that run, the queue lists the
registered ones that are queued, each once, looking a number up finds the one pipeline that has it,
and the numbers are 1, 2, 3, … in the order in which the pipelines were made. Also in the states
within the next step a pipeline that runs is counted, so that the count is never zero when it ends.
-/
theorem accounts_of_run (id : PoolId) (options : PoolOptions) (events : List Event)
    (hn : ((new id options).run events).nextId ≤ UInt64.size) :
    let p := (new id options).run events
    p.running = (p.idsWhere (· = .running)).length ∧
      p.queue.Perm (p.idsWhere (· = .queued)) ∧
      p.queue.Nodup ∧
      (∀ i c, p.registered? i = some c ↔ c ∈ p.pipelines ∧ c.id = i ∧ c.isRegistered = true) ∧
      p.pipelines.map (·.id.raw.toNat) = List.range' 1 (p.nextId - 1) ∧
      (∀ e, StepMoves p (p.step e)) ∧
      ∀ p₁ q, SameWork p p₁ → Moves p₁ q → q.nextId ≤ UInt64.size →
        ∀ c ∈ q.pipelines, c.state = .running → 0 < q.running := by
  intro p
  have h : Accounted p := (accounted_new id options).run events hn
  refine ⟨?_, h.queue_perm, h.nodup_queue, h.registered?_eq_some_iff, ?_, stepMoves_step p, ?_⟩
  · rw [h.running_eq, idsWhere, List.length_map, List.countP_eq_length_filter]
  · rw [h.numbered, h.nextId_eq, Nat.add_sub_cancel]
  · intro p₁ q hw hm hq c hc hs
    exact (hm.accounted (h.of_sameWork hw) hq).running_pos hc hs

/-- A pool for two pipelines, given four of them, of which the first is stopped. -/
theorem accounts_of_run_stop :
    let p := (new (.ofDraw 0) { maxRunspaces := 2 }).run
      [.beginOpen, .connected .opening, .notice 1 (.message (.toPool (.poolState .opened none))),
        .submit [⟨"Get-Item", []⟩], .submit [⟨"Get-Item", []⟩], .submit [⟨"Get-Item", []⟩],
        .submit [⟨"Get-Item", []⟩], .stop ⟨1, by decide⟩]
    p.nextId = 5 ∧ p.running = 2 ∧ p.running = (p.idsWhere (· = .running)).length ∧
      p.queue.Perm (p.idsWhere (· = .queued)) := by
  intro p
  have h := accounts_of_run (.ofDraw 0) { maxRunspaces := 2 }
    [.beginOpen, .connected .opening, .notice 1 (.message (.toPool (.poolState .opened none))),
      .submit [⟨"Get-Item", []⟩], .submit [⟨"Get-Item", []⟩], .submit [⟨"Get-Item", []⟩],
      .submit [⟨"Get-Item", []⟩], .stop ⟨1, by decide⟩] (by decide)
  exact ⟨by decide, by decide, h.1, h.2.1⟩

end Pool

end Runspace
