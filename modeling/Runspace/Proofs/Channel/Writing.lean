import Runspace.Proofs.Channel.Closing
import Runspace.Proofs.Channel.Sending

/-!
# Writing — what a sink gets, whenever it fails

Whatever a sink does, it gets a front of the records of the queued messages in order. A writer that
is told to stop first sends what is queued; one that has failed sends nothing more. Either shuts the
sink down once.

* `Sink.Takes`: what a sink takes of some bytes;
* `Writer.failure?`: what the next turn of a writer finds failing;
* `Writer.Wrote`, `Writer.Flushed`: what a writer has written, at any time and if nothing fails;
* **`Connection.written_run`**, `Connection.flushed_run`: both after any events;
* **`written_of_run`**: fronts, flushes, failures and the single shutdown.
-/

namespace Runspace

theorem splitter_new {size : Nat} {s : Splitter} (h : Splitter.new? size = some s) :
    s.maxPayload = size ∧ s.nextObject = 0 := by
  unfold Splitter.new? at h
  split at h
  · cases h
    exact ⟨rfl, rfl⟩
  · cases h

/-! ## Sinks that may fail -/

namespace Sink

/-- A sink that has taken a front of some bytes, and all of them unless something has failed. -/
def Takes (s s' : Sink) (bs : Bytes) (fault? : Option ChannelFault) : Prop :=
  s'.closes = s.closes ∧ ∃ front, s'.written = s.written ++ front ∧ front <+: bs ∧
    (fault? = none → front = bs)

variable {s s' s'' : Sink} {as bs : Bytes} {fault? : Option ChannelFault}

theorem takes_nothing (s : Sink) (bs : Bytes) (f : ChannelFault) : s.Takes s bs (some f) :=
  ⟨rfl, [], by rw [List.append_nil], List.nil_prefix, fun h => by cases h⟩

theorem Takes.trans (h : s.Takes s' as none) (h' : s'.Takes s'' bs fault?) :
    s.Takes s'' (as ++ bs) fault? := by
  obtain ⟨hcloses, front, hwritten, -, hall⟩ := h
  obtain ⟨hcloses', front', hwritten', hfront', hall'⟩ := h'
  have hfront : front = as := hall rfl
  refine ⟨hcloses'.trans hcloses, as ++ front', ?_, ?_, fun hnone => by rw [hall' hnone]⟩
  · rw [hwritten', hwritten, hfront, List.append_assoc]
  · exact (List.prefix_append_right_inj as).2 hfront'

theorem Takes.of_failed {f : ChannelFault} (h : s.Takes s' as (some f)) (bs : Bytes) :
    s.Takes s' (as ++ bs) (some f) := by
  obtain ⟨hcloses, front, hwritten, hfront, -⟩ := h
  exact ⟨hcloses, front, hwritten, hfront.trans (List.prefix_append _ _), fun h => by cases h⟩

theorem takes_writeAll (s : Sink) (bs : Bytes) :
    s.Takes (s.writeAll bs).1 bs (s.writeAll bs).2 := by
  fun_induction writeAll s bs with
  | case1 s => exact ⟨rfl, [], by rw [List.append_nil], List.nil_prefix, fun _ => rfl⟩
  | case2 s bs => exact takes_nothing s bs _
  | case3 s bs =>
    refine ⟨rfl, [], ?_, List.nil_prefix, fun h => by cases h⟩
    rw [written_accept]
  | case4 s bs hbs hfail hpiece ih =>
    have hfirst : s.Takes (s.accept (s.piece bs)) (s.piece bs) none :=
      ⟨rfl, s.piece bs, written_accept s _, List.prefix_rfl, fun _ => rfl⟩
    have hall := hfirst.trans ih
    rwa [piece_append_drop] at hall

theorem takes_send (s : Sink) (bs : Bytes) : s.Takes (s.send bs).1 bs (s.send bs).2 := by
  have hall := takes_writeAll s bs
  unfold send
  split
  · next hw =>
    rw [hw] at hall
    exact hall
  · next s' hw =>
    -- all was written, whether or not it is flushed
    rw [hw] at hall
    obtain ⟨hcloses, front, hwritten, hfront, hnone⟩ := hall
    exact ⟨hcloses, front, hwritten, hfront, fun _ => hnone rfl⟩

/-- **Whatever fails, the records are written in order up to that point.** -/
theorem takes_sendFragments (s : Sink) (fs : List Fragment) :
    s.Takes (s.sendFragments fs).1 (fs.map Fragment.record).flatten (s.sendFragments fs).2 := by
  induction fs generalizing s with
  | nil => exact ⟨rfl, [], by rw [List.append_nil]; rfl, List.nil_prefix, fun _ => rfl⟩
  | cons f fs ih =>
    have hfirst := takes_send s f.record
    rw [List.map_cons, List.flatten_cons]
    unfold sendFragments
    split
    · next s' hs =>
      rw [hs] at hfirst
      exact hfirst.trans (ih s')
    · next hs =>
      rw [hs] at hfirst
      exact hfirst.of_failed _

end Sink

/-! ## Writers -/

namespace Writer

/-- What fails in the next turn of a writer: a write or a flush of the next message. -/
def failure? (w : Writer) : Option ChannelFault :=
  match w.phase, w.queue with
  | .writing, m :: _ =>
    if w.limit < m.encode.length then none
    else (w.sink.sendFragments (w.splitter.push m.target m.encode).1).2
  | _, _ => none

/-- The messages that a writer is still going to send. -/
def pending (w : Writer) : List Message := if w.phase = .writing then w.queue else []

/-- A writer over what was the sink `sink` at first, which has taken the messages `done` off its
queue and has had the bytes `cut` of their records accepted. -/
structure Wrote (size limit : Nat) (sink : Sink) (done : List Message) (cut : Bytes) (w : Writer) :
    Prop where
  maxPayload : w.splitter.maxPayload = size
  limit_eq : w.limit = limit
  written : w.sink.written = sink.written ++ cut
  cut_prefix : cut <+: wire size limit done
  whole : w.phase = .writing → cut = wire size limit done
  nextObject : w.phase = .writing → w.splitter.nextObject = (sendable limit done).length
  closes : w.sink.closes = sink.closes + if w.phase = .writing then 0 else 1

variable {size limit : Nat} {sink : Sink} {done : List Message} {cut : Bytes} {w w' : Writer}
  {ns : List Notice} {f : ChannelFault}

theorem failure?_of_fault {m : Message} {rest : List Message} {sink' : Sink}
    (hp : w.phase = .writing) (hq : w.queue = m :: rest) (hfits : m.encode.length ≤ w.limit)
    (hsend : w.sink.sendFragments (w.splitter.push m.target m.encode).1 = (sink', some f)) :
    w.failure? = some f := by
  unfold failure?
  rw [hp, hq]
  dsimp only
  rw [if_neg (Nat.not_lt.2 hfits), hsend]

/-- What a turn finds failing is reported, and ends the writer. -/
theorem turn?_of_failure? (h : w.failure? = some f) :
    ∃ w', w.turn? = some (w', [.closed (some (.transport f))]) ∧ w'.phase = .closing := by
  unfold failure? at h
  split at h
  · next m rest hp hq =>
    split at h
    · cases h
    · next hfits =>
      refine ⟨({ w with
        queue := rest
        splitter := (w.splitter.push m.target m.encode).2
        sink := (w.sink.sendFragments (w.splitter.push m.target m.encode).1).1 } : Writer).close,
        ?_, rfl⟩
      unfold turn?
      rw [hp, hq]
      dsimp only
      rw [write]
      dsimp only
      rw [if_neg hfits]
      generalize w.sink.sendFragments _ = sent at h ⊢
      obtain ⟨sink', fault?⟩ := sent
      dsimp only at h
      rw [h]
  · cases h

theorem wrote_of_ended (hp : w.phase ≠ .writing) (hmax : w.splitter.maxPayload = size)
    (hlimit : w.limit = limit) (hwritten : w.sink.written = sink.written ++ cut)
    (hcut : cut <+: wire size limit done) (hcloses : w.sink.closes = sink.closes + 1) :
    w.Wrote size limit sink done cut where
  maxPayload := hmax
  limit_eq := hlimit
  written := hwritten
  cut_prefix := hcut
  whole h := absurd h hp
  nextObject h := absurd h hp
  closes := by rw [if_neg hp]; exact hcloses

theorem Wrote.closes_of_writing (h : w.Wrote size limit sink done cut) (hp : w.phase = .writing) :
    w.sink.closes = sink.closes := by
  rw [h.closes, if_pos hp]
  rfl

theorem Turn.phase_ne_stopped (h : Turn w w' ns) : w.phase ≠ .stopped := by
  intro hp
  cases h with
  | refuse hp' | write hp' | fail hp' | close hp' | stop hp' => cases hp.symm.trans hp'

theorem Turn.isStopping (h : Turn w w' ns) : w'.isStopping = w.isStopping := by
  cases h <;> rfl

theorem Turn.progress (h : Turn w w' ns) :
    w'.phase ≠ .writing ∨ w'.queue.length < w.queue.length := by
  cases h with
  | refuse _ hq | write _ hq => exact .inr (by simp [hq])
  | fail | close => exact .inl (by simp [Writer.close])
  | stop => exact .inl (by simp)

theorem turn?_of_stopping (hp : w.phase = .writing) (hs : w.isStopping = true) :
    ∃ w' ns, w.turn? = some (w', ns) := by
  unfold turn?
  rw [hp]
  cases w.queue with
  | nil => exact ⟨_, _, if_pos hs⟩
  | cons m rest => exact ⟨_, _, rfl⟩

theorem Wrote.refuse {m : Message} (h : w.Wrote size limit sink done cut)
    (hlarge : w.limit < m.encode.length) (queue : List Message) :
    ({ w with queue } : Writer).Wrote size limit sink (done ++ [m]) cut := by
  rw [h.limit_eq] at hlarge
  have hwire : wire size limit (done ++ [m]) = wire size limit done := wire_concat_of_lt hlarge
  exact {
    maxPayload := h.maxPayload
    limit_eq := h.limit_eq
    written := h.written
    cut_prefix := by rw [hwire]; exact h.cut_prefix
    whole := fun hp => by rw [hwire]; exact h.whole hp
    nextObject := fun hp => by rw [sendable_concat_of_lt hlarge]; exact h.nextObject hp
    closes := h.closes }

/-- **A message that is written adds its records, and one that fails a front of them.** -/
theorem Wrote.sent {m : Message} {sink' : Sink} {fault? : Option ChannelFault}
    (h : w.Wrote size limit sink done cut) (hp : w.phase = .writing)
    (hfits : m.encode.length ≤ w.limit)
    (hsend : w.sink.sendFragments (w.splitter.push m.target m.encode).1 = (sink', fault?)) :
    ∃ cut', sink'.written = sink.written ++ cut' ∧ cut' <+: wire size limit (done ++ [m]) ∧
      (fault? = none → cut' = wire size limit (done ++ [m])) ∧ sink'.closes = sink.closes := by
  have htakes := Sink.takes_sendFragments w.sink (w.splitter.push m.target m.encode).1
  rw [hsend] at htakes
  obtain ⟨hcloses, front, hwritten, hfront, hall⟩ := htakes
  rw [h.limit_eq] at hfits
  have hwire := wire_concat_of_le hfits h.maxPayload (h.nextObject hp)
  rw [← h.whole hp] at hwire
  refine ⟨cut ++ front, ?_, ?_, fun hnone => ?_, ?_⟩
  · rw [hwritten, h.written, List.append_assoc]
  · rw [hwire]
    exact (List.prefix_append_right_inj cut).2 hfront
  · rw [hwire, hall hnone]
  · exact hcloses.trans (h.closes_of_writing hp)

/-- **What a turn takes off the queue it writes, unless that fails.** -/
theorem Wrote.turn (h : w.Wrote size limit sink done cut) (ht : Turn w w' ns) :
    ∃ more cut', w.queue = more ++ w'.queue ∧ w'.Wrote size limit sink (done ++ more) cut' ∧
      (w.failure? = none → cut = wire size limit done →
        cut' = wire size limit (done ++ more) ∧ w.pending = more ++ w'.pending) := by
  cases ht with
  | @refuse m rest hp hq hlarge =>
    refine ⟨[m], cut, hq, h.refuse hlarge rest, fun _ hcut => ⟨?_, ?_⟩⟩
    · rw [hcut, wire_concat_of_lt (h.limit_eq ▸ hlarge)]
    · simp [pending, hp, hq]
  | @write m rest sink' hp hq hfits hsend =>
    obtain ⟨cut', hwritten, hprefix, hall, hcloses⟩ := h.sent hp hfits hsend
    refine ⟨[m], cut', hq, ?_, fun _ _ => ⟨hall rfl, ?_⟩⟩
    · refine { maxPayload := h.maxPayload, limit_eq := h.limit_eq, written := hwritten,
               cut_prefix := hprefix, whole := fun _ => hall rfl, nextObject := fun _ => ?_,
               closes := ?_ }
      · show w.splitter.nextObject + 1 = _
        rw [h.nextObject hp, sendable_concat_of_le (h.limit_eq ▸ hfits), List.length_append,
          List.length_singleton]
      · show sink'.closes = _
        rw [hcloses, if_pos hp]
        rfl
    · simp [pending, hp, hq]
  | @fail m rest sink' f hp hq hfits hsend =>
    obtain ⟨cut', hwritten, hprefix, -, hcloses⟩ := h.sent hp hfits hsend
    refine ⟨[m], cut', hq, ?_, fun hnone => ?_⟩
    · exact wrote_of_ended (by simp [Writer.close]) h.maxPayload h.limit_eq hwritten hprefix
        (congrArg (· + 1) hcloses)
    · cases hnone.symm.trans (failure?_of_fault hp hq hfits hsend)
  | close hp hq =>
    refine ⟨[], cut, rfl, ?_, fun _ hcut => ⟨?_, ?_⟩⟩
    · rw [List.append_nil]
      exact wrote_of_ended (by simp [Writer.close]) h.maxPayload h.limit_eq h.written h.cut_prefix
        (congrArg (· + 1) (h.closes_of_writing hp))
    · rw [List.append_nil]
      exact hcut
    · simp [pending, hp, hq, Writer.close]
  | stop hp =>
    have hnot : w.phase ≠ .writing := by
      rw [hp]
      decide
    have hcloses : w.sink.closes = sink.closes + 1 := by rw [h.closes, if_neg hnot]
    refine ⟨[], cut, rfl, ?_, fun _ hcut => ⟨?_, ?_⟩⟩
    · rw [List.append_nil]
      exact wrote_of_ended (by simp) h.maxPayload h.limit_eq h.written h.cut_prefix hcloses
    · rw [List.append_nil]
      exact hcut
    · simp [pending, hp]

/-- Two writers of which the second has neither written nor ended since. -/
structure Kept (w w' : Writer) : Prop where
  splitter : w'.splitter = w.splitter
  limit : w'.limit = w.limit
  phase : w'.phase = w.phase
  written : w'.sink.written = w.sink.written
  closes : w'.sink.closes = w.sink.closes

theorem Kept.refl (w : Writer) : w.Kept w := ⟨rfl, rfl, rfl, rfl, rfl⟩

theorem Wrote.of_kept (h : w.Wrote size limit sink done cut) (hk : w.Kept w') :
    w'.Wrote size limit sink done cut where
  maxPayload := by rw [hk.splitter]; exact h.maxPayload
  limit_eq := hk.limit.trans h.limit_eq
  written := hk.written.trans h.written
  cut_prefix := h.cut_prefix
  whole hp := h.whole (hk.phase ▸ hp)
  nextObject hp := by rw [hk.splitter]; exact h.nextObject (hk.phase ▸ hp)
  closes := by rw [hk.closes, hk.phase]; exact h.closes

/-- What was queued is written or waits, in order; only a writer that has stopped takes no more. -/
def Written (size limit : Nat) (sink : Sink) (queued : List Message) (w : Writer) : Prop :=
  ∃ done cut, w.Wrote size limit sink done cut ∧ done ++ w.queue <+: queued ∧
    (w.phase ≠ .stopped → done ++ w.queue = queued)

theorem Written.limit_eq {queued : List Message} (h : w.Written size limit sink queued) :
    w.limit = limit := by
  obtain ⟨done, cut, hw, -⟩ := h
  exact hw.limit_eq

theorem Written.queue_subset {queued : List Message} (h : w.Written size limit sink queued) :
    w.queue ⊆ queued := by
  obtain ⟨done, cut, -, hprefix, -⟩ := h
  exact fun m hm => hprefix.subset (List.mem_append_right done hm)

/-- Nothing has failed, and the messages `first` are written or going to be. -/
def Flushed (size limit : Nat) (sink : Sink) (first : List Message) (w : Writer) : Prop :=
  ∃ done, w.Wrote size limit sink done (wire size limit done) ∧ first <+: done ++ w.pending

end Writer

/-! ## Steps -/

namespace Connection

section Steps

variable {size limit : Nat} {sink : Sink} {queued first : List Message} {c : Connection}

theorem writer_endShutDown (c : Connection) : c.endShutDown.writer = c.writer := by
  obtain ⟨r, hr⟩ := endShutDown_eq c
  rw [hr]

theorem writer_tell (c : Connection) (ns : List Notice) : (c.tell ns).1.writer = c.writer := by
  obtain ⟨b, hb⟩ := tell_fst c ns
  rw [hb]

/-- **A step is a turn of the writer, or queues messages or tells it to stop at most.** -/
theorem writer_step (c : Connection) (e : Event) :
    (e = .turn ∧ ∃ ns, c.writer.turn? = some ((c.step e).1.writer, ns)) ∨
      c.writer.Kept (c.step e).1.writer ∧
        ((c.step e).1.writer.queue =
          c.writer.queue ++ if c.writer.phase = .stopped then [] else queuedBy [e]) ∧
        (c.step e).1.writer.isStopping = (c.writer.isStopping || e.isStop && c.isHeld) := by
  -- only a message that is queued changes the queue
  have hsame : queuedBy [e] = [] → c.writer.queue =
      c.writer.queue ++ if c.writer.phase = .stopped then [] else queuedBy [e] := by
    intro hnone
    rw [hnone, ite_self, List.append_nil]
  have hrefl : (c.step e).1.writer = c.writer → queuedBy [e] = [] →
      (e.isStop && c.isHeld) = false →
      c.writer.Kept (c.step e).1.writer ∧
        ((c.step e).1.writer.queue =
          c.writer.queue ++ if c.writer.phase = .stopped then [] else queuedBy [e]) ∧
        (c.step e).1.writer.isStopping = (c.writer.isStopping || e.isStop && c.isHeld) := by
    intro hw hnone hstop
    rw [hw, hstop, Bool.or_false]
    exact ⟨.refl _, hsame hnone, rfl⟩
  cases e with
  | send m =>
    right
    rw [show Event.isStop (.send m) = false from rfl, Bool.false_and, Bool.or_false]
    by_cases hp : c.writer.phase = .stopped
    · have hstep : (c.step (.send m)).1 = c := by simp [step, send, isAccepting, hp]
      rw [hstep, if_pos hp, List.append_nil]
      exact ⟨.refl _, rfl, rfl⟩
    · have hstep : (c.step (.send m)).1 =
          { c with writer := { c.writer with queue := c.writer.queue ++ [m] } } := by
        simp [step, send, isAccepting, hp]
      rw [hstep, if_neg hp]
      exact ⟨⟨rfl, rfl, rfl, rfl, rfl⟩, rfl, rfl⟩
  | shutDown =>
    right
    by_cases hh : c.isHeld = true
    · have hstep : (c.step .shutDown).1.writer = { c.writer with isStopping := true } := by
        rw [step, shutDown, if_pos hh, writer_endShutDown]
      rw [hstep, hh]
      exact ⟨⟨rfl, rfl, rfl, rfl, rfl⟩, hsame rfl, (Bool.or_true _).symm⟩
    · exact hrefl (by rw [step, shutDown, if_neg hh]) rfl (eq_false_of_ne_true hh)
  | release =>
    right
    by_cases hh : c.isHeld = true
    · have hstep : (c.step .release).1.writer = { c.writer with isStopping := true } := by
        rw [step, release, if_pos hh]
      rw [hstep, hh]
      exact ⟨⟨rfl, rfl, rfl, rfl, rfl⟩, hsame rfl, (Bool.or_true _).symm⟩
    · exact hrefl (by rw [step, release, if_neg hh]) rfl (eq_false_of_ne_true hh)
  | conduct => exact .inr ⟨⟨rfl, rfl, rfl, rfl, rfl⟩, hsame rfl, (Bool.or_false _).symm⟩
  | turn =>
    cases ht : c.writer.turn? with
    | none => exact .inr (hrefl (by rw [step_turn_of_none ht]) rfl rfl)
    | some result =>
      obtain ⟨r, b, hb⟩ := step_turn_fst ht
      rw [hb]
      exact .inl ⟨rfl, result.2, rfl⟩
  | dropHandler => exact .inr (hrefl rfl rfl rfl)
  | arrive a => exact .inr (hrefl (writer_tell _ _) rfl rfl)

/-- **Every step leaves what was queued written or waiting.** -/
theorem written_step (h : c.writer.Written size limit sink queued) (e : Event) :
    (c.step e).1.writer.Written size limit sink (queued ++ queuedBy [e]) := by
  obtain ⟨done, cut, hw, hprefix, hall⟩ := h
  rcases writer_step c e with ⟨rfl, ns, ht⟩ | ⟨hk, hqueue, -⟩
  · have hturn := Writer.turn_of_turn? ht
    obtain ⟨more, cut', hqueue, hw', -⟩ := hw.turn hturn
    rw [hqueue, ← List.append_assoc] at hprefix hall
    rw [show queuedBy [.turn] = [] from rfl, List.append_nil]
    exact ⟨done ++ more, cut', hw', hprefix, fun _ => hall hturn.phase_ne_stopped⟩
  · refine ⟨done, cut, hw.of_kept hk, ?_, ?_⟩
    · rw [hqueue]
      by_cases hp : c.writer.phase = .stopped
      · rw [if_pos hp, List.append_nil]
        exact hprefix.trans (List.prefix_append _ _)
      · exact ⟨[], by rw [List.append_nil, if_neg hp, ← List.append_assoc, hall hp]⟩
    · intro hp
      rw [hk.phase] at hp
      rw [hqueue, if_neg hp, ← List.append_assoc, hall hp]

theorem written_run (h : c.writer.Written size limit sink queued) (events : List Event) :
    (c.run events).1.writer.Written size limit sink (queued ++ queuedBy events) := by
  induction events generalizing c queued with
  | nil =>
    rw [show queuedBy [] = [] from rfl, List.append_nil]
    exact h
  | cons e events ih =>
    have hsplit : queuedBy (e :: events) = queuedBy [e] ++ queuedBy events := queuedBy_append [e] _
    rw [run_cons, hsplit, ← List.append_assoc]
    exact ih (written_step h e)

/-- **Unless its turn fails, a step leaves the first messages written or going to be.** -/
theorem flushed_step (h : c.writer.Flushed size limit sink first) {e : Event}
    (he : e = .turn → c.writer.failure? = none) :
    (c.step e).1.writer.Flushed size limit sink first := by
  obtain ⟨done, hw, hfirst⟩ := h
  rcases writer_step c e with ⟨rfl, ns, ht⟩ | ⟨hk, hqueue, -⟩
  · obtain ⟨more, cut', -, hw', hall⟩ := hw.turn (Writer.turn_of_turn? ht)
    obtain ⟨rfl, hpending⟩ := hall (he rfl) rfl
    rw [hpending, ← List.append_assoc] at hfirst
    exact ⟨done ++ more, hw', hfirst⟩
  · refine ⟨done, hw.of_kept hk, hfirst.trans ((List.prefix_append_right_inj done).2 ?_)⟩
    rw [Writer.pending, Writer.pending, hk.phase, hqueue]
    split
    · exact List.prefix_append _ _
    · exact List.prefix_rfl

theorem ended_step (hp : c.writer.phase ≠ .writing) (e : Event) :
    (c.step e).1.writer.phase ≠ .writing ∧
      (c.step e).1.writer.sink.written = c.writer.sink.written := by
  rcases writer_step c e with ⟨-, ns, ht⟩ | ⟨hk, -⟩
  · have hturn := Writer.turn_of_turn? ht
    generalize (c.step e).1.writer = w' at hturn
    cases hturn with
    | stop => exact ⟨by simp, rfl⟩
    | refuse hp' | write hp' | fail hp' | close hp' => exact absurd hp' hp
  · rw [hk.phase, hk.written]
    exact ⟨hp, rfl⟩

theorem going_step (hp : c.writer.phase = .writing) (hs : c.writer.isStopping = false) {e : Event}
    (hstop : e.isStop = false) (he : e = .turn → c.writer.failure? = none) :
    (c.step e).1.writer.phase = .writing ∧ (c.step e).1.writer.isStopping = false := by
  rcases writer_step c e with ⟨rfl, ns, ht⟩ | ⟨hk, -, hkeep⟩
  · have hturn := Writer.turn_of_turn? ht
    refine ⟨?_, hturn.isStopping.trans hs⟩
    generalize (c.step .turn).1.writer = w' at hturn
    cases hturn with
    | refuse | write => exact hp
    | fail hp' hq hfits hsend =>
      cases (he rfl).symm.trans (Writer.failure?_of_fault hp' hq hfits hsend)
    | close _ _ hs' => cases hs.symm.trans hs'
    | stop hp' => cases hp.symm.trans hp'
  · rw [hkeep, hs, hstop]
    exact ⟨hk.phase.trans hp, rfl⟩

/-! ## Failures -/

theorem failure?_eq_none_iff {w : Writer} : w.failure? = none ↔
    ∀ w' ns, w.turn? = some (w', ns) → ∀ n ∈ ns, n.isEnd = false := by
  constructor
  · intro hnone w' ns ht n hn
    cases Writer.turn_of_turn? ht with
    | refuse =>
      rw [List.mem_singleton.1 hn]
      rfl
    | fail hp hq hfits hsend => cases hnone.symm.trans (Writer.failure?_of_fault hp hq hfits hsend)
    | write | close | stop => cases hn
  · intro h
    cases hf : w.failure? with
    | none => rfl
    | some f =>
      obtain ⟨w', ht, -⟩ := Writer.turn?_of_failure? hf
      cases h w' _ ht _ List.mem_cons_self

theorem WritesSucceed.split {before after : List Event} (h : c.WritesSucceed (before ++ after)) :
    c.WritesSucceed before ∧ (c.run before).1.WritesSucceed after := by
  induction before generalizing c with
  | nil => exact ⟨trivial, h⟩
  | cons e before ih =>
    obtain ⟨hnow, hrest⟩ := h
    obtain ⟨hbefore, hafter⟩ := ih hrest
    exact ⟨⟨hnow, hbefore⟩, hafter⟩

theorem going_run (hp : c.writer.phase = .writing) (hs : c.writer.isStopping = false)
    {events : List Event} (hstop : ∀ e ∈ events, e.isStop = false) (hw : c.WritesSucceed events) :
    (c.run events).1.writer.phase = .writing := by
  induction events generalizing c with
  | nil => exact hp
  | cons e events ih =>
    obtain ⟨hnow, hrest⟩ := hw
    obtain ⟨hp', hs'⟩ := going_step hp hs (hstop e List.mem_cons_self) fun he =>
      failure?_eq_none_iff.2 (hnow he)
    exact ih hp' hs' (fun e' he' => hstop e' (List.mem_cons_of_mem _ he')) hrest

theorem flushed_run (h : c.writer.Flushed size limit sink first) {events : List Event}
    (hw : c.WritesSucceed events) : (c.run events).1.writer.Flushed size limit sink first := by
  induction events generalizing c with
  | nil => exact h
  | cons e events ih =>
    obtain ⟨hnow, hrest⟩ := hw
    exact ih (flushed_step h fun he => failure?_eq_none_iff.2 (hnow he)) hrest

/-- **If nothing fails, what was queued before a stop is written before the sink is shut down.** -/
theorem flushed_of_stop (h : c.writer.Written size limit sink []) (hp : c.writer.phase = .writing)
    (hs : c.writer.isStopping = false) {before after : List Event}
    (hstop : ∀ e ∈ before, e.isStop = false) (hw : c.WritesSucceed (before ++ after))
    (hend : (c.run (before ++ after)).1.writer.phase ≠ .writing) :
    sink.written ++ wire size limit (queuedBy before) <+:
      (c.run (before ++ after)).1.writer.sink.written := by
  obtain ⟨hbefore, hafter⟩ := hw.split
  have hgoing := going_run hp hs hstop hbefore
  obtain ⟨done, cut, hwrote, -, hqueued⟩ := written_run h before
  have hall : done ++ (c.run before).1.writer.queue = queuedBy before :=
    hqueued (by rw [hgoing]; decide)
  rw [hwrote.whole hgoing] at hwrote
  have hflushed : (c.run before).1.writer.Flushed size limit sink (queuedBy before) := by
    refine ⟨done, hwrote, [], ?_⟩
    rw [List.append_nil, Writer.pending, if_pos hgoing, hall]
  rw [run_append] at hend ⊢
  obtain ⟨done', hwrote', hfirst⟩ := flushed_run hflushed hafter
  -- nothing waits any more
  rw [Writer.pending, if_neg hend, List.append_nil] at hfirst
  rw [hwrote'.written]
  exact (List.prefix_append_right_inj _).2 (wire_mono hfirst)

theorem unsettled_tell (hc : c.hasHandler = true) (hs : c.isEndSettled = false) {ns : List Notice}
    (hns : ∀ n ∈ (c.tell ns).2, n.isEnd = false) :
    (c.tell ns).1.hasHandler = true ∧ (c.tell ns).1.isEndSettled = false := by
  induction ns with
  | nil => exact ⟨hc, hs⟩
  | cons n ns ih =>
    rw [tell_cons, hs, Bool.and_false, if_neg Bool.false_ne_true, Bool.or_false] at hns ⊢
    dsimp only at hns ⊢
    rw [if_pos hc] at hns
    have hsame : ({ c with isEndSettled := n.isEnd } : Connection) = c := by
      rw [hns n List.mem_cons_self, ← hs]
    rw [hsame] at hns ⊢
    exact ih fun m hm => hns m (List.mem_cons_of_mem _ hm)

/-- While a handler stays and nobody shuts the connection down, it is told of the end that is
settled. -/
theorem unsettled_step (hc : c.hasHandler = true) (hs : c.isEndSettled = false) {e : Event}
    (hshut : e ≠ .shutDown) (hdrop : e ≠ .dropHandler)
    (hns : ∀ n ∈ (c.step e).2, n.isEnd = false) :
    (c.step e).1.hasHandler = true ∧ (c.step e).1.isEndSettled = false := by
  cases e with
  | send m =>
    show (c.send m).1.hasHandler = true ∧ (c.send m).1.isEndSettled = false
    unfold send
    split <;> exact ⟨hc, hs⟩
  | shutDown => exact absurd rfl hshut
  | release =>
    show c.release.hasHandler = true ∧ c.release.isEndSettled = false
    unfold release
    split <;> exact ⟨hc, hs⟩
  | dropHandler => exact absurd rfl hdrop
  | conduct => exact ⟨hc, hs⟩
  | turn =>
    cases ht : c.writer.turn? with
    | none =>
      rw [step_turn_of_none ht]
      exact ⟨hc, hs⟩
    | some result =>
      obtain ⟨w, ns⟩ := result
      have hend : ({ c with writer := w } : Connection).endShutDown.hasHandler = true := by
        obtain ⟨r, hr⟩ := endShutDown_eq { c with writer := w }
        rw [hr]
        exact hc
      rw [step_turn ht] at hns ⊢
      exact unsettled_tell hend ((isEndSettled_endShutDown _).trans hs) hns
  | arrive a =>
    exact unsettled_tell (c := { c with receiver := (c.receiver.arrive c.hasHandler a).1 }) hc hs
      hns

theorem unsettled_run (hc : c.hasHandler = true) (hs : c.isEndSettled = false)
    {events : List Event} (hshut : .shutDown ∉ events) (hdrop : .dropHandler ∉ events)
    (hns : ∀ n ∈ (c.run events).2, n.isEnd = false) :
    (c.run events).1.hasHandler = true ∧ (c.run events).1.isEndSettled = false := by
  induction events generalizing c with
  | nil => exact ⟨hc, hs⟩
  | cons e events ih =>
    rw [List.mem_cons, not_or] at hshut hdrop
    rw [run_cons] at hns ⊢
    obtain ⟨hc', hs'⟩ := unsettled_step hc hs (Ne.symm hshut.1) (Ne.symm hdrop.1)
      fun n hn => hns n (List.mem_append_left _ hn)
    exact ih hc' hs' hshut.2 hdrop.2 fun n hn => hns n (List.mem_append_right _ hn)

theorem told_of_failure (hc : c.hasHandler = true) (hs : c.isEndSettled = false) {f : ChannelFault}
    (hf : c.writer.failure? = some f) :
    (c.step .turn).2 = [.closed (some (.transport f))] := by
  obtain ⟨w, ht, hp⟩ := Writer.turn?_of_failure? hf
  have hend : ({ c with writer := w } : Connection).endShutDown = { c with writer := w } := by
    simp [endShutDown, hasShutDown, hp]
  rw [step_turn ht, hend]
  have hnone : ∀ n ∈ ([] : List Notice), n.isEnd = false := fun n hn => by cases hn
  exact congrArg Prod.snd (tell_end (c := { c with writer := w }) hc hs hnone (some (.transport f)))

theorem ended_of_failure {f : ChannelFault} (hf : c.writer.failure? = some f) :
    (c.step .turn).1.writer.phase ≠ .writing := by
  obtain ⟨w, ht, hp⟩ := Writer.turn?_of_failure? hf
  obtain ⟨r, b, hb⟩ := step_turn_fst ht
  rw [hb]
  show w.phase ≠ .writing
  rw [hp]
  decide

theorem ended_run (hp : c.writer.phase ≠ .writing) (events : List Event) :
    (c.run events).1.writer.phase ≠ .writing ∧
      (c.run events).1.writer.sink.written = c.writer.sink.written := by
  induction events generalizing c with
  | nil => exact ⟨hp, rfl⟩
  | cons e events ih =>
    obtain ⟨hp', hwritten⟩ := ended_step hp e
    obtain ⟨hend, hsame⟩ := ih hp'
    exact ⟨hend, hsame.trans hwritten⟩

/-! ## Ends -/

theorem isStopping_run (hs : c.writer.isStopping = true) (events : List Event) :
    (c.run events).1.writer.isStopping = true := by
  induction events generalizing c with
  | nil => exact hs
  | cons e events ih =>
    refine ih ?_
    rcases writer_step c e with ⟨-, ns, ht⟩ | ⟨-, -, hkeep⟩
    · exact (Writer.turn_of_turn? ht).isStopping.trans hs
    · exact hkeep.trans (by rw [hs, Bool.true_or])

theorem isStopping_of_stop (hc : c.isHeld = true) {before : List Event}
    (hbefore : ∀ e ∈ before, e.isStop = false) {stop : Event} (hstop : stop.isStop = true)
    (after : List Event) :
    (c.run (before ++ stop :: after)).1.writer.isStopping = true := by
  have hheld : (c.run before).1.isHeld = true :=
    (run_induction (P := fun d => d.isHeld = true) (Q := fun _ => True)
      (fun _ e he hd => ⟨isHeld_step hd (hbefore e he), fun _ _ => trivial⟩) hc).1
  rw [run_append, run_cons]
  refine isStopping_run ?_ after
  rcases writer_step (c.run before).1 stop with ⟨rfl, -⟩ | ⟨-, -, hkeep⟩
  · cases hstop
  · rw [hkeep, hstop, hheld]
    exact Bool.or_true _

/-- **A writer that was told to stop has ended after as many turns as it has messages, and one
more.** -/
theorem ended_of_turns (hs : c.writer.isStopping = true) {n : Nat}
    (hn : c.writer.queue.length < n) :
    (c.run (List.replicate n .turn)).1.writer.phase ≠ .writing := by
  induction n generalizing c with
  | zero => omega
  | succ n ih =>
    rw [List.replicate_succ, run_cons]
    by_cases hp : c.writer.phase = .writing
    · obtain ⟨w, ns, ht⟩ := Writer.turn?_of_stopping hp hs
      have hw : (c.step .turn).1.writer = w := by
        obtain ⟨r, b, hb⟩ := step_turn_fst ht
        rw [hb]
      have hturn := Writer.turn_of_turn? ht
      rcases hturn.progress with hend | hshort
      · exact (ended_run (by rw [hw]; exact hend) _).1
      · exact ih (by rw [hw, hturn.isStopping]; exact hs) (by rw [hw]; omega)
    · exact (ended_run (ended_step hp .turn).1 _).1

end Steps

/-! ## Runs -/

theorem written_start {size limit : Nat} {sink : Sink} {c : Connection}
    (hc : start size limit sink = .ok c) :
    c.writer.Written size limit sink [] ∧ c.writer.phase = .writing ∧
      c.writer.isStopping = false ∧ c.hasHandler = true ∧ c.isEndSettled = false ∧
      c.isHeld = true := by
  unfold start at hc
  split at hc
  · cases hc
  · next splitter hs =>
    cases hc
    have hempty : wire size limit [] = [] := by simp [wire, sendable, splitAll]
    obtain ⟨hmax, hzero⟩ := splitter_new hs
    refine ⟨⟨[], [], ?_, List.prefix_rfl, fun _ => rfl⟩, rfl, rfl, rfl, rfl, rfl⟩
    exact { maxPayload := hmax, limit_eq := rfl, written := (List.append_nil _).symm,
            cut_prefix := List.nil_prefix, whole := fun _ => hempty.symm,
            nextObject := fun _ => hzero, closes := rfl }

/-- **What a connection writes, in any run, over any sink.**

The messages that its writer has taken off the queue and those that wait are the ones that were
queued, in order; once it has stopped, no more are queued. The sink has accepted a front of the
records of those taken that are not too large. It was shut down once if the writer has ended, and
not at all before.

Say the connection is shut down or let go for the first time after the events `before`. If no write
and no flush fails, then the writer does not end before everything that these queued is written; and
in any case it ends after as many more turns as it has messages, and one more.

Say a turn comes after the events `before` in which a write or a flush fails. From then on nothing
is written, whatever waits, and the handler is told of this fault if it is still there and neither
was the connection shut down nor an end told of. -/
theorem written_of_run {size limit : Nat} {sink : Sink} {c : Connection}
    (hc : start size limit sink = .ok c) (events : List Event) :
    let w := (c.run events).1.writer
    (∃ done cut, done ++ w.queue <+: queuedBy events ∧
        (w.phase ≠ .stopped → done ++ w.queue = queuedBy events) ∧
        cut <+: wire size limit done ∧ w.sink.written = sink.written ++ cut) ∧
      w.sink.closes = sink.closes + (if w.phase = .writing then 0 else 1) ∧
      (∀ before stop after, events = before ++ stop :: after → stop.isStop = true →
        (∀ e ∈ before, e.isStop = false) →
        (c.WritesSucceed events → w.phase ≠ .writing →
          sink.written ++ wire size limit (queuedBy before) <+: w.sink.written) ∧
        ∀ n, w.queue.length < n →
          ((c.run events).1.run (List.replicate n .turn)).1.writer.phase ≠ .writing) ∧
      ∀ before after f, events = before ++ .turn :: after →
        (c.run before).1.writer.failure? = some f →
        w.phase ≠ .writing ∧
          w.sink.written = (c.run (before ++ [.turn])).1.writer.sink.written ∧
          (.shutDown ∉ before → .dropHandler ∉ before →
            (∀ n ∈ (c.run before).2, n.isEnd = false) →
            ((c.run before).1.step .turn).2 = [.closed (some (.transport f))]) := by
  intro w
  obtain ⟨hstart, hp, hs, hhandler, hend, hheld⟩ := written_start hc
  obtain ⟨done, cut, hw, hprefix, hall⟩ := written_run hstart events
  refine ⟨⟨done, cut, hprefix, hall, hw.cut_prefix, hw.written⟩, hw.closes, ?_, ?_⟩
  · intro before stop after hev hstop hbefore
    subst hev
    refine ⟨flushed_of_stop hstart hp hs hbefore, fun n hn => ended_of_turns ?_ hn⟩
    exact isStopping_of_stop hheld hbefore hstop after
  · intro before after f hev hf
    subst hev
    have hlast : w = (((c.run before).1.step .turn).1.run after).1.writer := by
      show (c.run (before ++ .turn :: after)).1.writer = _
      rw [run_append]
      rfl
    have hthen : (c.run (before ++ [.turn])).1 = ((c.run before).1.step .turn).1 := by
      rw [run_append]
      rfl
    have hended := ended_run (ended_of_failure hf) after
    rw [hlast, hthen]
    refine ⟨hended.1, hended.2, fun hshut hdrop hns => ?_⟩
    obtain ⟨hhandler', hend'⟩ := unsettled_run hhandler hend hshut hdrop hns
    exact told_of_failure hhandler' hend' hf

/-- The second record of a message is cut when a write fails, while another message waits; a sink
that takes few bytes at once gets all that was queued before a shutdown. -/
theorem written_of_run_cut :
    let script : Message := .toPipeline ⟨1, by decide⟩
      (.createPipeline [⟨"Get-Item", []⟩, ⟨"Get-Date", []⟩])
    let close : Message := .toPool .closePool
    let failing : Sink := { conduct := { failAfter := some 2, splits := [99, 9] } }
    let slow : Sink := { conduct := { maxWrite := some 5 } }
    (∃ c, start 64 200 failing = .ok c ∧
      let w := (c.run [.send script, .send close, .turn, .shutDown, .turn]).1.writer
      w.sink.written = (wire 64 200 [script]).take 103 ∧ w.sink.closes = 1 ∧ w.queue = [close] ∧
        ((c.run [.send script, .send close]).1.step .turn).2 =
          [.closed (some (.transport (.write "broken pipe")))]) ∧
    ∃ c, start 64 200 slow = .ok c ∧
      let w := (c.run [.send close, .shutDown, .send script, .turn, .turn, .turn]).1.writer
      w.phase = .closing ∧ wire 64 200 [close] <+: w.sink.written := by
  intro script close failing slow
  constructor
  · obtain ⟨c, hc⟩ : ∃ c, start 64 200 failing = .ok c := ⟨_, rfl⟩
    obtain ⟨⟨done, -, hfront, -⟩, hcloses, -, hfailed⟩ := written_of_run hc
      [.send script, .send close, .turn, .shutDown, .turn]
    obtain ⟨hend, hwritten, htold⟩ := hfailed [.send script, .send close] [.shutDown, .turn]
      (.write "broken pipe") rfl (by cases hc; decide +kernel)
    refine ⟨c, hc, ?_, ?_, ?_, ?_⟩
    · rw [hwritten]
      cases hc
      decide +kernel
    · rw [hcloses, if_neg hend]
    · -- the message that is left is for the pool
      have htargets : (c.run [.send script, .send close, .turn, .shutDown,
          .turn]).1.writer.queue.map (·.target) = [.pool] := by
        cases hc
        decide +kernel
      obtain ⟨m, hm, htarget⟩ := List.map_eq_singleton_iff.1 htargets
      rw [hm] at hfront ⊢
      rcases List.mem_cons.1 (hfront.subset (List.mem_append_right done List.mem_cons_self)) with
        rfl | hmem
      · cases htarget
      · rw [List.mem_singleton.1 hmem]
    · refine htold (by simp) (by simp) fun n hn => ?_
      cases hc
      cases hn
  · obtain ⟨c, hc⟩ : ∃ c, start 64 200 slow = .ok c := ⟨_, rfl⟩
    obtain ⟨-, -, hstopped, -⟩ := written_of_run hc
      [.send close, .shutDown, .send script, .turn, .turn, .turn]
    have hphase : (c.run [.send close, .shutDown, .send script, .turn, .turn,
        .turn]).1.writer.phase = .closing := by
      cases hc
      decide +kernel
    have hsucceed : c.WritesSucceed
        [.send close, .shutDown, .send script, .turn, .turn, .turn] := by
      cases hc
      refine ⟨fun h => ?_, fun h => ?_, fun h => ?_, fun _ => ?_, fun _ => ?_, fun _ => ?_, trivial⟩
      · cases h
      · cases h
      · cases h
      · exact failure?_eq_none_iff.1 (by decide +kernel)
      · exact failure?_eq_none_iff.1 (by decide +kernel)
      · exact failure?_eq_none_iff.1 (by decide +kernel)
    have hbefore : ∀ e ∈ [Event.send close], e.isStop = false := by
      intro e he
      rw [List.mem_singleton.1 he]
      rfl
    have hfull := (hstopped [.send close] .shutDown [.send script, .turn, .turn, .turn] rfl rfl
      hbefore).1 hsucceed (by rw [hphase]; decide)
    rw [show slow.written = [] from rfl, List.nil_append] at hfull
    exact ⟨c, hc, hphase, hfull⟩

end Connection

end Runspace
