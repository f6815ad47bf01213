import Runspace.Channel.Connection

/-!
# Runs — a connection under any events

The two halves of a connection do not get in each other's way: a turn of the writer leaves the
receiver alone, an arrival leaves the writer alone, and what the handler is told of either changes
nothing but whether it is told of an end again.

* `Connection.run`: what some events do to a connection, and all that the handler is told;
* `Notice.isSendFailure`, `Notice.isEnd`, `Notice.isOutbound`: the notices by what they are about;
* `Connection.tell_of_open`, `Connection.tell_end`, `Connection.filter_tell`: what reaches the
  handler;
* `Connection.step_turn`, `Connection.step_turn_fst`: what a turn of the writer does;
* `Receiver.news_arrive`: what a receiver has news of;
* `Writer.Turn`, **`Writer.turn_of_turn?`**: what a writer does, and has news of.
-/

namespace Runspace

/-! ## Kinds of notices -/

/-- Whether a notice says that a message could not be sent. -/
def Notice.isSendFailure : Notice → Bool
  | .sendFailed _ _ => true
  | _ => false

/-- Whether a notice says that the channel has ended. -/
def Notice.isEnd : Notice → Bool
  | .closed _ => true
  | _ => false

/-- Whether a channel has failed to pass bytes on. -/
def ChannelFault.isSending : ChannelFault → Bool
  | .write _ | .flush _ => true
  | _ => false

/-- Whether a notice is about sending: a message could not be sent, or a write has failed. -/
def Notice.isOutbound : Notice → Bool
  | .sendFailed _ _ => true
  | .closed (some (.transport fault)) => fault.isSending
  | _ => false

theorem Notice.isSendFailure_of_inbound {n : Notice} (h : n.isOutbound = false) :
    n.isSendFailure = false := by
  cases n with
  | sendFailed => cases h
  | _ => rfl

theorem Notice.isSendFailure_or_isEnd {n : Notice} (h : n.isOutbound = true) :
    n.isSendFailure = true ∨ n.isEnd = true := by
  cases n with
  | sendFailed => exact .inl rfl
  | closed => exact .inr rfl
  | _ => cases h

namespace Connection

/-- What some events do to a connection, and all that the handler is told. -/
def run (c : Connection) : List Event → Connection × List Notice
  | [] => (c, [])
  | e :: events =>
    let (c, now) := c.step e
    let (c, later) := c.run events
    (c, now ++ later)

theorem run_cons (c : Connection) (e : Event) (events : List Event) :
    c.run (e :: events) =
      (((c.step e).1.run events).1, (c.step e).2 ++ ((c.step e).1.run events).2) :=
  rfl

theorem run_append (c : Connection) (before after : List Event) :
    c.run (before ++ after) =
      (((c.run before).1.run after).1, (c.run before).2 ++ ((c.run before).1.run after).2) := by
  induction before generalizing c with
  | nil => rfl
  | cons e before ih => rw [List.cons_append, run_cons, run_cons, ih, List.append_assoc]

/-- What each step of a run keeps and tells, the run keeps and tells. -/
theorem run_induction {P : Connection → Prop} {Q : Notice → Prop} {events : List Event}
    (hstep : ∀ c, ∀ e ∈ events, P c → P (c.step e).1 ∧ ∀ n ∈ (c.step e).2, Q n) {c : Connection}
    (h : P c) : P (c.run events).1 ∧ ∀ n ∈ (c.run events).2, Q n := by
  induction events generalizing c with
  | nil => exact ⟨h, fun n hn => by cases hn⟩
  | cons e events ih =>
    obtain ⟨hnext, hnow⟩ := hstep c e List.mem_cons_self h
    obtain ⟨hend, hlater⟩ := ih (fun c e' he' => hstep c e' (List.mem_cons_of_mem _ he')) hnext
    rw [run_cons]
    refine ⟨hend, fun n hn => ?_⟩
    rcases List.mem_append.1 hn with hn | hn
    · exact hnow n hn
    · exact hlater n hn

theorem step_of_mem_run {c : Connection} {events : List Event} {n : Notice}
    (hn : n ∈ (c.run events).2) :
    ∃ before e after, events = before ++ e :: after ∧ n ∈ ((c.run before).1.step e).2 := by
  induction events generalizing c with
  | nil => cases hn
  | cons e events ih =>
    rw [run_cons] at hn
    rcases List.mem_append.1 hn with hn | hn
    · exact ⟨[], e, events, rfl, hn⟩
    · obtain ⟨before, e', after, rfl, htold⟩ := ih hn
      exact ⟨e :: before, e', after, rfl, htold⟩

/-! ## What the handler is told -/

section Tell

variable {c : Connection} {ns : List Notice}

theorem tell_cons (c : Connection) (n : Notice) (ns : List Notice) :
    c.tell (n :: ns) =
      if n.isEnd && c.isEndSettled then c.tell ns
      else
        let d := ({ c with isEndSettled := n.isEnd || c.isEndSettled } : Connection).tell ns
        (d.1, if c.hasHandler then n :: d.2 else d.2) := by
  cases n with
  | closed fault =>
    rw [tell]
    by_cases hs : c.isEndSettled = true
    · rw [if_pos hs, if_pos (by rw [hs]; rfl)]
    · rw [if_neg hs, if_neg (by simp [hs])]
      rfl
  | message | framingError | sendFailed => rfl

theorem tell_cons_of_open (hc : c.hasHandler = true) {n : Notice} (hn : n.isEnd = false) :
    c.tell (n :: ns) = ((c.tell ns).1, n :: (c.tell ns).2) := by
  rw [tell_cons, hn, Bool.false_and, if_neg Bool.false_ne_true, Bool.false_or]
  dsimp only
  rw [if_pos hc]

theorem tell_fst (c : Connection) (ns : List Notice) :
    ∃ b, (c.tell ns).1 = { c with isEndSettled := b } := by
  induction ns generalizing c with
  | nil => exact ⟨c.isEndSettled, rfl⟩
  | cons n ns ih =>
    rw [tell_cons]
    split
    · exact ih c
    · exact ih { c with isEndSettled := n.isEnd || c.isEndSettled }

theorem tell_of_open (hc : c.hasHandler = true) (hns : ∀ n ∈ ns, n.isEnd = false) :
    c.tell ns = (c, ns) := by
  induction ns with
  | nil => rfl
  | cons n ns ih =>
    rw [tell_cons_of_open hc (hns n List.mem_cons_self),
      ih fun n hn => hns n (List.mem_cons_of_mem _ hn)]

/-- The first end reaches the handler after the news before it. -/
theorem tell_end (hc : c.hasHandler = true) (hs : c.isEndSettled = false)
    (hns : ∀ n ∈ ns, n.isEnd = false) (fault : Option Fault) :
    c.tell (ns ++ [.closed fault]) = ({ c with isEndSettled := true }, ns ++ [.closed fault]) := by
  induction ns with
  | nil => simp [tell, hs, hc]
  | cons n ns ih =>
    rw [List.cons_append, tell_cons_of_open hc (hns n List.mem_cons_self),
      ih fun n hn => hns n (List.mem_cons_of_mem _ hn)]

theorem tell_sublist (c : Connection) (ns : List Notice) : (c.tell ns).2.Sublist ns := by
  induction ns generalizing c with
  | nil => exact .slnil
  | cons n ns ih =>
    rw [tell_cons]
    split
    · exact (ih c).cons n
    · dsimp only
      split
      · exact (ih _).cons_cons n
      · exact (ih _).cons n

theorem filter_tell (hc : c.hasHandler = true) :
    (c.tell ns).2.filter Notice.isSendFailure = ns.filter Notice.isSendFailure := by
  induction ns generalizing c with
  | nil => rfl
  | cons n ns ih =>
    have hend : n.isEnd = true → n.isSendFailure = false := by
      cases n with
      | sendFailed => exact fun h => by cases h
      | _ => exact fun _ => rfl
    rw [tell_cons]
    by_cases hskip : (n.isEnd && c.isEndSettled) = true
    · rw [if_pos hskip, ih hc, List.filter_cons_of_neg]
      rw [hend (Bool.and_eq_true_iff.1 hskip).1]
      decide
    · rw [if_neg hskip]
      dsimp only
      rw [if_pos hc, List.filter_cons, List.filter_cons,
        ih (c := { c with isEndSettled := n.isEnd || c.isEndSettled }) hc]

end Tell

/-! ## Turns and arrivals -/

section Turns

variable {c : Connection} {w : Writer} {ns : List Notice}

theorem endShutDown_of_not (hc : c.isShuttingDown = false) : c.endShutDown = c := by
  simp [endShutDown, hasShutDown, hc]

theorem endShutDown_eq (c : Connection) : ∃ r, c.endShutDown = { c with receiver := r } := by
  unfold endShutDown
  split
  · exact ⟨c.receiver.abandon, rfl⟩
  · exact ⟨c.receiver, rfl⟩

theorem step_turn_of_none (ht : c.writer.turn? = none) : c.step .turn = (c, []) := by
  rw [step, turn?, ht]
  rfl

theorem step_turn (ht : c.writer.turn? = some (w, ns)) :
    c.step .turn = ({ c with writer := w } : Connection).endShutDown.tell ns := by
  rw [step, turn?, ht]
  rfl

theorem step_turn_fst (ht : c.writer.turn? = some (w, ns)) :
    ∃ r b, (c.step .turn).1 = { c with writer := w, receiver := r, isEndSettled := b } := by
  obtain ⟨r, hr⟩ := endShutDown_eq { c with writer := w }
  obtain ⟨b, hb⟩ := tell_fst ({ c with writer := w } : Connection).endShutDown ns
  refine ⟨r, b, ?_⟩
  rw [step_turn ht, hb, hr]

theorem step_arrive (c : Connection) (a : Arrival) :
    c.step (.arrive a) =
      ({ c with receiver := (c.receiver.arrive c.hasHandler a).1 } : Connection).tell
        (c.receiver.arrive c.hasHandler a).2 :=
  rfl

end Turns

end Connection

/-! ## News of the receiver -/

theorem Reassembler.news_notices {r : Reassembler} {f : Fragment} {n : Notice}
    (hn : n ∈ (r.notices f).2) : n.isOutbound = false ∧ n.isEnd = false := by
  unfold Reassembler.notices at hn
  split at hn
  · cases hn
  · split at hn <;> rw [List.mem_singleton.1 hn] <;> exact ⟨rfl, rfl⟩
  · rw [List.mem_singleton.1 hn]
    exact ⟨rfl, rfl⟩

theorem Reassembler.news_allNotices {r : Reassembler} {fs : List Fragment} {n : Notice}
    (hn : n ∈ (r.allNotices fs).2) : n.isOutbound = false ∧ n.isEnd = false := by
  induction fs generalizing r with
  | nil => cases hn
  | cons f fs ih =>
    rcases List.mem_append.1 hn with hn | hn
    · exact news_notices hn
    · exact ih hn

theorem Source.isSending_of_take {s : Source} {a : Arrival} {f : ChannelFault}
    (hs : s.ended = none) (h : (s.take a).2.ended = some (.failed f)) : f.isSending = false := by
  have hopen : ¬ s.ended.isSome = true := by simp [hs]
  unfold Source.take at h
  rw [if_neg hopen] at h
  cases a with
  | bytes bs =>
    dsimp only at h
    split at h
    · cases hs.symm.trans h
    · split at h
      · cases hs.symm.trans h
      · cases h
  | failed cause =>
    cases h
    rfl
  | ended | lost => cases h

namespace Receiver

variable {r : Receiver} {isHeard : Bool} {n : Notice}

theorem news_takeChunk {chunk : Bytes} (hn : n ∈ (r.takeChunk isHeard chunk).2) :
    n.isOutbound = false := by
  unfold takeChunk at hn
  split at hn
  · dsimp only at hn
    split at hn
    · split at hn
      · exact (Reassembler.news_allNotices hn).1
      · rcases List.mem_append.1 hn with hn | hn
        · exact (Reassembler.news_allNotices hn).1
        · rw [List.mem_singleton.1 hn]
          rfl
    · cases hn
  · cases hn

theorem news_takeChunks {chunks : List Bytes} (hn : n ∈ (r.takeChunks isHeard chunks).2) :
    n.isOutbound = false := by
  induction chunks generalizing r with
  | nil => cases hn
  | cons chunk chunks ih =>
    rcases List.mem_append.1 hn with hn | hn
    · exact news_takeChunk hn
    · exact ih hn

theorem news_takeEnd {readEnd : ReadEnd} (hf : ∀ f, readEnd = .failed f → f.isSending = false)
    (hn : n ∈ (r.takeEnd readEnd).2) : n.isOutbound = false := by
  unfold takeEnd at hn
  split at hn
  · rw [List.mem_singleton.1 hn]
    cases readEnd with
    | failed f => exact hf f rfl
    | lost => rfl
    | finished =>
      unfold endFault?
      dsimp only
      split <;> rfl
  · cases hn

theorem news_arrive {a : Arrival} (hn : n ∈ (r.arrive isHeard a).2) : n.isOutbound = false := by
  unfold arrive at hn
  split at hn
  · cases hn
  · next hopen =>
    dsimp only at hn
    split at hn
    · exact news_takeChunks hn
    · next readEnd hend =>
      refine news_takeEnd (fun f hf => ?_) hn
      subst hf
      exact Source.isSending_of_take hopen hend

end Receiver

/-! ## News of the writer -/

section Sinks

variable {s : Sink} {f : ChannelFault}

theorem Sink.isSending_of_writeAll {bs : Bytes} (h : (s.writeAll bs).2 = some f) :
    f.isSending = true := by
  fun_induction Sink.writeAll s bs with
  | case1 => cases h
  | case2 | case3 =>
    cases h
    rfl
  | case4 _ _ _ _ _ ih => exact ih h

theorem Sink.isSending_of_send {bs : Bytes} (h : (s.send bs).2 = some f) : f.isSending = true := by
  unfold Sink.send at h
  split at h
  · next hall => exact isSending_of_writeAll (by rw [hall]; exact h)
  · unfold Sink.flushFault? at h
    dsimp only at h
    split at h
    · obtain ⟨cause, -, rfl⟩ := Option.map_eq_some_iff.1 h
      rfl
    · cases h

theorem Sink.isSending_of_sendFragments {fs : List Fragment}
    (h : (s.sendFragments fs).2 = some f) : f.isSending = true := by
  induction fs generalizing s with
  | nil => cases h
  | cons fragment fs ih =>
    unfold Sink.sendFragments at h
    split at h
    · exact ih h
    · next hsend => exact isSending_of_send (by rw [hsend]; exact h)

end Sinks

namespace Writer

variable {w w' : Writer} {n : Notice}

/-- All that a turn of a writer can do, and what it reports. -/
inductive Turn (w : Writer) : Writer → List Notice → Prop where
  | refuse {m : Message} {rest : List Message} (hp : w.phase = .writing)
    (hq : w.queue = m :: rest) (hlarge : w.limit < m.encode.length) :
    Turn w { w with queue := rest }
      [.sendFailed m.target (.invalidArgument (.messageTooLarge m.encode.length w.limit))]
  | write {m : Message} {rest : List Message} {sink : Sink} (hp : w.phase = .writing)
    (hq : w.queue = m :: rest) (hfits : m.encode.length ≤ w.limit)
    (hsend : w.sink.sendFragments (w.splitter.push m.target m.encode).1 = (sink, none)) :
    Turn w { w with queue := rest, splitter := (w.splitter.push m.target m.encode).2, sink } []
  | fail {m : Message} {rest : List Message} {sink : Sink} {f : ChannelFault}
    (hp : w.phase = .writing) (hq : w.queue = m :: rest) (hfits : m.encode.length ≤ w.limit)
    (hsend : w.sink.sendFragments (w.splitter.push m.target m.encode).1 = (sink, some f)) :
    Turn w ({ w with
        queue := rest, splitter := (w.splitter.push m.target m.encode).2, sink } : Writer).close
      [.closed (some (.transport f))]
  | close (hp : w.phase = .writing) (hq : w.queue = []) (hs : w.isStopping = true) :
    Turn w w.close []
  | stop (hp : w.phase = .closing) : Turn w { w with phase := .stopped } []

theorem turn_of_turn? {ns : List Notice} (h : w.turn? = some (w', ns)) : Turn w w' ns := by
  unfold turn? at h
  split at h
  · next m rest hp hq =>
    rw [Option.some.injEq] at h
    unfold write at h
    dsimp only at h
    split at h
    · next hlarge =>
      cases h
      exact .refuse hp hq hlarge
    · next hlarge =>
      split at h
      · next hsend =>
        cases h
        exact .write hp hq (Nat.le_of_not_lt hlarge) hsend
      · next hsend =>
        cases h
        exact .fail hp hq (Nat.le_of_not_lt hlarge) hsend
  · next hp hq =>
    split at h
    · next hs =>
      cases h
      exact .close hp hq hs
    · cases h
  · next hp =>
    split at h
    · cases h
      exact .stop hp
    · cases h
  · cases h

theorem Turn.news {ns : List Notice} (h : Turn w w' ns) (hn : n ∈ ns) : n.isOutbound = true := by
  cases h with
  | refuse =>
    rw [List.mem_singleton.1 hn]
    rfl
  | fail _ _ _ hsend =>
    rw [List.mem_singleton.1 hn]
    exact Sink.isSending_of_sendFragments (by rw [hsend])
  | write | close | stop => cases hn

theorem Turn.length_le {ns : List Notice} (h : Turn w w' ns) : ns.length ≤ 1 := by
  cases h with
  | refuse | fail => exact Nat.le_refl 1
  | write | close | stop => exact Nat.zero_le 1

end Writer

end Runspace
