import Runspace.Proofs.Pool.Steps

/-!
# Channels — what a step says on the channels of a pool

A step starts a channel and greets the host on it, or says requests on the line if the host has
answered there, or gives the line up, at most after saying that the pool is closing. No channel but
the line is ever spoken on.

* `Pool.sentOn`: what was said on a channel;
* `Does.adds`: what a deed makes known;
* `Speaks`, **`Deeds.speaks`**: some effects with at most requests on the ready line, such as those
  of deeds;
* `Talk`, **`Turn.talk`**: what a step makes of the outbox and the line.
-/

namespace Runspace

/-- Whether a message is one that a pool sends in the opened state, other than a farewell. -/
def Message.isRequest : Message → Bool
  | ⟨.pool, .setMaxRunspaces _⟩ => true
  | ⟨.pipeline _, .createPipeline _⟩ => true
  | ⟨.pipeline _, .stopPipeline⟩ => true
  | _ => false

/-- What never changes about a line but by the host's answer. -/
def Line.mark (l : Line) : Nat × Bool := (l.generation, l.isReady)

/-- Whether a deed may say something to its pipeline. -/
def Deed.isSpoken : Deed → Bool
  | .launch _ | .halt _ => true
  | _ => false

/-- What an effect says on a channel. -/
def Effect.sentOn? (generation : Nat) : Effect → Option Message
  | .queued g m => if g = generation then some m else none
  | _ => none

/-- An effect that starts no channel and says at most a request, on the ready line. -/
def Effect.Within (p : Pool) : Effect → Prop
  | .started _ => False
  | .queued generation m =>
    (∃ l, p.readyLine? = some l ∧ l.generation = generation) ∧ m.isRequest = true
  | _ => True

namespace Pool

/-- What was said on the channel of a generation so far. -/
def sentOn (p : Pool) (generation : Nat) : List Message :=
  p.outbox.filterMap (·.sentOn? generation)

/-! ## Requests -/

/-- A change that adds effects within the line of a pool. -/
def Speaks (p q : Pool) : Prop := ∃ more, q.outbox = p.outbox ++ more ∧ ∀ e ∈ more, e.Within p

section Speaks

variable {P : Deed → Prop} {p q r : Pool} {d : Deed} {g : Nat} {m : Message}

theorem Effect.within_of_isQuiet {e : Effect} (h : e.isQuiet = true) : e.Within p := by
  cases e with
  | started | queued => cases h
  | _ => trivial

theorem Hushed.speaks (h : Hushed p q) : Speaks p q := h.adds fun _ => Effect.within_of_isQuiet

theorem Speaks.refl (p : Pool) : Speaks p p := (Hushed.refl p).speaks

theorem Speaks.trans (h : Speaks p q) (hl : q.readyLine? = p.readyLine?) (h' : Speaks q r) :
    Speaks p r := by
  obtain ⟨more, hm, hq⟩ := h
  obtain ⟨more', hm', hq'⟩ := h'
  refine ⟨more ++ more', by rw [hm', hm, List.append_assoc], fun e he => ?_⟩
  rcases List.mem_append.1 he with he | he
  · exact hq e he
  · have hw := hq' e he
    cases e with
    | queued g m => exact ⟨hl ▸ hw.1, hw.2⟩
    | _ => exact hw

theorem Speaks.hushed (h : Speaks p q) (h' : Hushed q r) : Speaks p r :=
  Adds.trans h (h'.adds fun _ => Effect.within_of_isQuiet)

theorem readyLine?_eq_some {l : Line} :
    p.readyLine? = some l ↔ p.line = some l ∧ l.isReady = true := by
  rw [Pool.readyLine?, Option.filter_eq_some_iff]

theorem SameControl.readyLine? (h : SameControl p q) : q.readyLine? = p.readyLine? := by
  rw [Pool.readyLine?, h.line, Pool.readyLine?]

theorem hushed_change (p : Pool) (id : PipelineId) (f : Pipeline → Pipeline) :
    Hushed p (p.change id f) :=
  Hushed.trans (.of_eq rfl) (hushed_emit (p.modify id f) rfl)

theorem hushed_conclude (p : Pool) (c : Pipeline) (x : Ending) : Hushed p (p.conclude c x) := by
  unfold conclude release
  split <;> exact hushed_change _ _ _

theorem Does.hushed (h : Does p d q) (hd : d.isSpoken = false) : Hushed p q := by
  cases h with
  | wait | refuse => exact hushed_change _ _ _
  | conclude x hc hs => exact hushed_conclude p _ x
  | launch | halt => cases hd
  | _ => exact .of_eq rfl

/-- What a deed makes known is quiet, or asks the host on the ready line to run or to stop a
pipeline. -/
theorem Does.adds {R : Effect → Prop} (h : Does p d q) (hquiet : ∀ e, e.isQuiet = true → R e)
    (hrun : ∀ i commands l, d = .launch i → p.readyLine? = some l →
      R (.queued l.generation (.toPipeline i (.createPipeline commands))))
    (hstop : ∀ i l, p.readyLine? = some l →
      R (.queued l.generation (.toPipeline i .stopPipeline))) : Adds R p q := by
  cases hd : d.isSpoken with
  | false => exact (h.hushed hd).adds hquiet
  | true =>
    cases h with
    | @launch c l rest hc hs hm hl ha =>
      refine Adds.trans ?_ ((hushed_change _ _ _).adds hquiet)
      exact ⟨[_], rfl, fun e he => List.mem_singleton.1 he ▸ hrun _ _ l rfl hl⟩
    | @halt c hc hs =>
      have hwarn : Adds R p (p.warn c) := by
        unfold warn
        split
        · exact adds_trySend p _ (hstop c.id)
        · exact .refl p
      exact hwarn.trans ((hushed_conclude _ c .stopped).adds hquiet)
    | _ => cases hd

/-- **Deeds say requests only, on the ready line.** -/
theorem Does.speaks (h : Does p d q) : Speaks p q :=
  h.adds (fun _ => Effect.within_of_isQuiet) (fun _ _ l _ hl => ⟨⟨l, hl, rfl⟩, rfl⟩)
    fun _ l hl => ⟨⟨l, hl, rfl⟩, rfl⟩

theorem Deeds.speaks (h : Deeds P p q) : Speaks p q := by
  induction h with
  | refl => exact .refl p
  | tail hr h ih =>
    obtain ⟨d, -, h⟩ := h
    exact ih.trans (Deeds.sameControl hr).readyLine? h.speaks

theorem Speaks.sentOn (h : Speaks p q) (g : Nat) :
    ∃ ms, q.sentOn g = p.sentOn g ++ ms ∧ (∀ m ∈ ms, m.isRequest = true) ∧
      (ms ≠ [] → ∃ l, p.readyLine? = some l ∧ l.generation = g) := by
  obtain ⟨more, hm, hq⟩ := h
  have hsaid : ∀ m ∈ more.filterMap (·.sentOn? g),
      (∃ l, p.readyLine? = some l ∧ l.generation = g) ∧ m.isRequest = true := by
    intro m hmem
    obtain ⟨e, he, hem⟩ := List.mem_filterMap.1 hmem
    have hw := hq e he
    cases e with
    | queued g' m' =>
      obtain ⟨rfl, rfl⟩ : g' = g ∧ m' = m := by simpa [Effect.sentOn?] using hem
      exact hw
    | _ => cases hem
  refine ⟨more.filterMap (·.sentOn? g), ?_, fun m hmem => (hsaid m hmem).2, fun hne => ?_⟩
  · rw [Pool.sentOn, hm, List.filterMap_append]
    rfl
  · obtain ⟨m, hmem⟩ := List.exists_mem_of_ne_nil _ hne
    exact (hsaid m hmem).1

theorem Hushed.sentOn (h : Hushed p q) (g : Nat) : q.sentOn g = p.sentOn g := by
  refine Adds.filterMap_eq (h.adds fun e he => ?_)
  cases e with
  | started | queued => cases he
  | _ => rfl

theorem Speaks.started_iff (h : Speaks p q) (g : Nat) :
    Effect.started g ∈ q.outbox ↔ Effect.started g ∈ p.outbox := by
  obtain ⟨more, hm, hq⟩ := h
  rw [hm, List.mem_append]
  exact ⟨fun he => he.resolve_right (hq _), .inl⟩

end Speaks

/-! ## Steps -/

/-- What an event makes of the outbox and the line. -/
inductive Talk (p : Pool) : Event → Pool → Prop where
  | converse {e : Event} {q : Pool} (hs : Speaks p q) (hg : q.generation = p.generation)
    (hl : q.line.map (·.mark) = p.line.map (·.mark)) : Talk p e q
  | greet {a : Attempt} {q : Pool} (hout : q.outbox = p.outbox ++ [.started (p.generation + 1),
      .queued (p.generation + 1) (.toPool (p.hello a))])
    (hg : q.generation = p.generation + 1)
    (hl : q.line = some { generation := p.generation + 1 }) : Talk p (.connected a) q
  | answer {a : Attempt} {reason : Option String} {q : Pool} (ha : p.handshake = some a)
    (hs : Speaks { p with line := p.line.map fun l => { l with isReady := true } } q)
    (hg : q.generation = p.generation)
    (hl : q.line = p.line.map fun l => { l with isReady := true }) :
    Talk p (.notice p.generation (.message (.toPool (.poolState .opened reason)))) q
  | leave {e : Event} {r q : Pool} (hr : Speaks p r)
    (hq : Hushed r q ∨ ∃ l, p.readyLine? = some l ∧
      Hushed (r.emit (.queued l.generation (.toPool .closePool))) q)
    (hg : p.generation ≤ q.generation) (hl : q.line = none) : Talk p e q

section Talk

variable {P : Deed → Prop} {e : Event} {p q r : Pool}

theorem Talk.refl (e : Event) (p : Pool) : Talk p e p := .converse (.refl p) rfl rfl

theorem Deeds.talk (h : Deeds P p q) : Talk p e q :=
  .converse h.speaks h.sameControl.generation (by rw [h.sameControl.line])

theorem Hushed.talk (h : Hushed p q) (hg : q.generation = p.generation)
    (hl : q.line.map (·.mark) = p.line.map (·.mark)) : Talk p e q :=
  .converse h.speaks hg hl

theorem talk_detach (hr : Speaks p r)
    (hq : Hushed r q ∨ ∃ l, p.readyLine? = some l ∧
      Hushed (r.emit (.queued l.generation (.toPool .closePool))) q)
    (hg : p.generation ≤ q.generation) : Talk p e q.detach := by
  refine .leave hr ?_ ?_ (line_detach q)
  · rcases hq with hq | ⟨l, hl, hq⟩
    · exact .inl (hq.trans (hushed_detach q))
    · exact .inr ⟨l, hl, hq.trans (hushed_detach q)⟩
  · rw [generation_detach]
    exact Nat.le_succ_of_le hg

theorem talk_giveUp (p : Pool) (a : Attempt) : Talk p e (p.giveUp a) := by
  cases a with
  | opening =>
    unfold giveUp
    dsimp only
    split
    · exact talk_detach (.refl p) (.inl (.of_eq rfl)) (Nat.le_refl _)
    · exact talk_detach (.refl p) (.inl (.of_eq rfl)) (Nat.le_refl _)
  | reconnecting => exact talk_detach (.refl p) (.inl (.of_eq rfl)) (Nat.le_refl _)

theorem talk_beginClose (p : Pool) (next : PoolState) :
    Talk p e { p with state := next }.refuseHandshake.shutDown := by
  have hp : Hushed p { p with state := next }.refuseHandshake :=
    Hushed.trans (.of_eq rfl) (hushed_refuseHandshake _)
  have hline : { p with state := next }.refuseHandshake.readyLine? = p.readyLine? := by
    rw [readyLine?, line_refuseHandshake, readyLine?]
  have hgen : { p with state := next }.refuseHandshake.generation = p.generation :=
    generation_refuseHandshake _
  generalize { p with state := next }.refuseHandshake = q at hp hline hgen ⊢
  have hstop : Deeds (fun _ => True) q (q.stopAll (q.idsWhere fun s => ¬ s.isTerminal)) :=
    deeds_stopAll _ (fun _ _ => trivial) fun _ _ => trivial
  unfold shutDown
  generalize q.stopAll (q.idsWhere fun s => ¬ s.isTerminal) = r at hstop ⊢
  have hc := hstop.sameControl
  have hr : Speaks p r := hp.speaks.trans hline hstop.speaks
  have hrgen : r.generation = p.generation := hc.generation.trans hgen
  unfold trySend
  cases hs : r.send? (.toPool .closePool) with
  | none => exact talk_detach hr (.inl (.refl r)) (Nat.le_of_eq hrgen.symm)
  | some r' =>
    obtain ⟨l, hl, -, rfl⟩ := send?_eq_some hs
    rw [hc.readyLine?, hline] at hl
    exact talk_detach hr (.inr ⟨l, hl, .refl _⟩) (Nat.le_of_eq hrgen.symm)

theorem talk_admitQueued (hs : Speaks p q) (hg : q.generation = p.generation)
    (hl : q.line = p.line) : Talk p e q.admitQueued := by
  have hd := deeds_admitQueued q
  have hc := hd.sameControl
  refine .converse (hs.trans ?_ hd.speaks) (hc.generation.trans hg) (by rw [hc.line, hl])
  rw [readyLine?, hl, readyLine?]

theorem talk_leave (p : Pool) (next : PoolState) (f : Fault) (fails : PipelineState → Bool) :
    Talk p e (p.leave next f fails) := by
  unfold leave
  dsimp only
  generalize ({ p with state := next } : Pool).idsWhere fails = ids
  have hd : Deeds (fun _ => True) { p with state := next }
      ({ p with state := next }.failAll f ids) :=
    deeds_failAll f ids (fun _ _ => trivial) fun _ _ => trivial
  have hr : Speaks p ({ p with state := next }.failAll f ids) :=
    Speaks.trans (Hushed.of_eq rfl).speaks rfl hd.speaks
  exact talk_detach hr (.inl (.refl _)) (Nat.le_of_eq hd.sameControl.generation.symm)

theorem talk_hostOpened {a : Attempt} (ha : p.handshake = some a) (reason : Option String) :
    Talk p (.notice p.generation (.message (.toPool (.poolState .opened reason))))
      (p.ready.admitQueued.resolve a (.ok ())) := by
  have hd := deeds_admitQueued p.ready
  have hc := hd.sameControl
  refine .answer ha ?_ ?_ ?_
  · obtain ⟨more, hm, hw⟩ := hd.speaks.hushed (hushed_resolve p.ready.admitQueued a (.ok ()))
    exact ⟨more, hm, hw⟩
  · rw [generation_resolve, hc.generation]
    rfl
  · rw [line_resolve, hc.line]
    rfl

/-- **Every turn greets, or converses on the ready line, or leaves it.** -/
theorem Turn.talk (h : Turn p e q) : Talk p e q := by
  cases h with
  | idle => exact .refl e p
  | work _ h => exact h.deeds.talk
  | beginOpen | beginReconnect | closeUnopened | endClose => exact Hushed.talk (.of_eq rfl) rfl rfl
  | outdated | unconnected =>
    exact (hushed_resolve p _ _).talk (generation_resolve p _ _) (by rw [line_resolve])
  | greet =>
    refine .greet ?_ rfl rfl
    cases ‹Attempt› <;> simp [attach, emit, setProgress]
  | succeed =>
    exact (hushed_setProgress p _ _).talk (generation_setProgress p _ _) (by rw [line_setProgress])
  | giveUp => exact talk_giveUp p _
  | beginClose => exact talk_beginClose p _
  | setLimit => exact talk_admitQueued (Hushed.of_eq rfl).speaks rfl rfl
  | @announceLimit n l _ _ _ hl =>
    refine talk_admitQueued ⟨[_], rfl, fun e he => ?_⟩ rfl rfl
    exact List.mem_singleton.1 he ▸ ⟨⟨l, hl, rfl⟩, rfl⟩
  | hostOpened ha => exact talk_hostOpened ha _
  | hostRefused =>
    exact (hushed_answer p _ _).talk (generation_answer p _ _) (by rw [line_answer])
  | hostEnded | lineEnded => exact talk_leave p _ _ _
  | lineLost => exact talk_detach (.refl p) (.inl (.refl p)) (Nat.le_refl _)
  | @lineStopped generation =>
    refine Hushed.talk (.of_eq rfl) rfl ?_
    change (p.line.map _).map _ = _
    rw [Option.map_map]
    refine congrArg (fun f => p.line.map f) (funext fun l => ?_)
    rw [Function.comp_apply]
    split <;> rfl

theorem outbox_prefix_step (p : Pool) (e : Event) : p.outbox <+: (p.step e).outbox := by
  have htalk := (turn_step p e).talk
  generalize p.step e = q at htalk
  cases htalk with
  | converse hs | answer _ hs =>
    obtain ⟨more, hm, -⟩ := hs
    exact ⟨more, hm.symm⟩
  | greet hout => exact ⟨_, hout.symm⟩
  | leave hr hq =>
    obtain ⟨more, hm, -⟩ := hr
    rcases hq with ⟨more', hm', -⟩ | ⟨l, -, more', hm', -⟩
    · exact ⟨more ++ more', by rw [hm', hm, List.append_assoc]⟩
    · exact ⟨more ++ (_ :: more'), by rw [hm', emit, hm, List.append_assoc, List.append_assoc]; rfl⟩

end Talk

end Pool

end Runspace
