import Runspace.Proofs.Channel.Runs
import Runspace.Proofs.Wire.Delivery

/-!
# Sending — what a connection writes, and what a receiver makes of it

Over a sink that accepts all writes a connection writes the records of every queued message that is
not too large, numbered 0, 1, 2, … in the order of the queue, and reports each of the others.

* `SinkConduct.Accepts`: a sink that accepts all writes;
* `sendable`, `wire`, `refusals`: what is to be sent of some messages, in which bytes, and what is
  reported of the rest;
* `Writer.Sent`, `Connection.Sent`: the messages that are done with and those still queued;
* **`Connection.Sent.run`**, `Connection.Sent.flush`: what any events leave to be sent;
* **`transparent_of_run`**: a receiver gets just the messages that were not too large.
-/

namespace Runspace

/-! ## Sinks that accept all writes -/

/-- A sink that accepts all writes, perhaps in parts. -/
structure SinkConduct.Accepts (s : SinkConduct) : Prop where
  failAfter : s.failAfter = none
  maxWrite : s.maxWrite ≠ some 0
  flushFailure : s.flushFailure = none

namespace Sink

variable {s : Sink}

theorem conduct_accept (h : s.conduct.Accepts) (bs : Bytes) :
    (s.accept bs).conduct = s.conduct := by
  obtain ⟨conduct, writes, closes⟩ := s
  obtain ⟨failAfter, failure, maxWrite, flushFailure, closeFailure, holdsClose⟩ := conduct
  have hnone : failAfter = none := h.failAfter
  rw [hnone]
  rfl

theorem piece_ne_nil (h : s.conduct.Accepts) {bs : Bytes} (hbs : bs ≠ []) : s.piece bs ≠ [] := by
  have hsplit (n : Nat) : bs.take (n + 1) ≠ [] := by simpa using hbs
  have hlimit {front : Bytes} (hfront : front ≠ []) {n : Nat} (hn : s.conduct.maxWrite = some n) :
      front.take n ≠ [] := by
    intro hnil
    rcases List.take_eq_nil_iff.1 hnil with hzero | hnil
    · exact h.maxWrite (hzero ▸ hn)
    · exact hfront hnil
  unfold piece
  cases s.conduct.splits[s.writes.length]? with
  | none =>
    dsimp only
    split
    · exact hbs
    · next hn => exact hlimit hbs hn
  | some n =>
    dsimp only
    split
    · exact hsplit n
    · next hn => exact hlimit (hsplit n) hn

theorem writeAll_of_accepts (h : s.conduct.Accepts) (bs : Bytes) :
    (s.writeAll bs).2 = none ∧ (s.writeAll bs).1.conduct = s.conduct ∧
      (s.writeAll bs).1.written = s.written ++ bs := by
  fun_induction writeAll s bs with
  | case1 s => exact ⟨rfl, rfl, by rw [List.append_nil]⟩
  | case2 s bs hbs hfail =>
    rw [h.failAfter] at hfail
    cases hfail
  | case3 s bs hbs hfail hpiece => exact absurd hpiece (piece_ne_nil h hbs)
  | case4 s bs hbs hfail hpiece ih =>
    have hsame := conduct_accept h (s.piece bs)
    obtain ⟨hok, hconduct, hwritten⟩ := ih (by rw [hsame]; exact h)
    refine ⟨hok, hconduct.trans hsame, ?_⟩
    rw [hwritten, written_accept, List.append_assoc, piece_append_drop]

theorem send_of_accepts (h : s.conduct.Accepts) (bs : Bytes) :
    (s.send bs).2 = none ∧ (s.send bs).1.conduct = s.conduct ∧
      (s.send bs).1.written = s.written ++ bs := by
  obtain ⟨hok, hconduct, hwritten⟩ := writeAll_of_accepts h bs
  unfold send
  generalize s.writeAll bs = all at hok hconduct hwritten
  obtain ⟨s', fault?⟩ := all
  dsimp only at hok hconduct hwritten
  subst hok
  refine ⟨?_, hconduct, hwritten⟩
  show s'.flushFault? = none
  simp [flushFault?, hconduct, h.flushFailure]

theorem sendFragments_of_accepts (h : s.conduct.Accepts) (fs : List Fragment) :
    ∃ s', s.sendFragments fs = (s', none) ∧ s'.conduct = s.conduct ∧
      s'.written = s.written ++ (fs.map Fragment.record).flatten := by
  induction fs generalizing s with
  | nil => exact ⟨s, rfl, rfl, by simp⟩
  | cons f fs ih =>
    obtain ⟨hok, hconduct, hwritten⟩ := send_of_accepts h f.record
    rw [sendFragments]
    generalize s.send f.record = sent at hok hconduct hwritten
    obtain ⟨s₁, fault?⟩ := sent
    dsimp only at hok hconduct hwritten
    subst hok
    obtain ⟨s₂, hsend, hconduct', hwritten'⟩ := ih (s := s₁) (by rw [hconduct]; exact h)
    refine ⟨s₂, hsend, hconduct'.trans hconduct, ?_⟩
    rw [hwritten', hwritten, List.map_cons, List.flatten_cons, List.append_assoc]

end Sink

/-! ## Messages -/

/-- The targets and bodies of those messages that are not too large. -/
def sendable (limit : Nat) (ms : List Message) : List (Target × Bytes) :=
  (ms.filter fun m => m.encode.length ≤ limit).map fun m => (m.target, m.encode)

/-- What is reported of the messages that are too large. -/
def refusals (limit : Nat) (ms : List Message) : List Notice :=
  (ms.filter fun m => limit < m.encode.length).map fun m =>
    .sendFailed m.target (.invalidArgument (.messageTooLarge m.encode.length limit))

theorem sendable_append (limit : Nat) (as bs : List Message) :
    sendable limit (as ++ bs) = sendable limit as ++ sendable limit bs := by
  rw [sendable, List.filter_append, List.map_append]
  rfl

theorem refusals_append (limit : Nat) (as bs : List Message) :
    refusals limit (as ++ bs) = refusals limit as ++ refusals limit bs := by
  rw [refusals, List.filter_append, List.map_append]
  rfl

theorem isSendFailure_of_mem_refusals {limit : Nat} {ms : List Message} {n : Notice}
    (h : n ∈ refusals limit ms) : n.isSendFailure = true := by
  obtain ⟨m, -, rfl⟩ := List.mem_map.1 h
  rfl

theorem length_sendable_le (limit : Nat) (ms : List Message) :
    (sendable limit ms).length ≤ ms.length := by
  rw [sendable, List.length_map]
  exact List.length_filter_le _ _

section Concat

variable {size limit : Nat} {ms : List Message} {m : Message}

theorem sendable_concat_of_lt (h : limit < m.encode.length) :
    sendable limit (ms ++ [m]) = sendable limit ms := by
  have hnone : sendable limit [m] = [] := by simp [sendable, Nat.not_le.2 h]
  rw [sendable_append, hnone, List.append_nil]

theorem sendable_concat_of_le (h : m.encode.length ≤ limit) :
    sendable limit (ms ++ [m]) = sendable limit ms ++ [(m.target, m.encode)] := by
  have hone : sendable limit [m] = [(m.target, m.encode)] := by simp [sendable, h]
  rw [sendable_append, hone]

/-- The records of those messages that are not too large, numbered from zero on. -/
def wire (size limit : Nat) (ms : List Message) : Bytes :=
  ((splitAll size 0 (sendable limit ms)).map Fragment.record).flatten

theorem wire_append (size limit : Nat) (as bs : List Message) :
    wire size limit (as ++ bs) = wire size limit as ++ ((splitAll size (sendable limit as).length
      (sendable limit bs)).map Fragment.record).flatten := by
  rw [wire, sendable_append, splitAll_append, List.map_append, List.flatten_append, Nat.zero_add]
  rfl

theorem wire_mono {as bs : List Message} (h : as <+: bs) :
    wire size limit as <+: wire size limit bs := by
  obtain ⟨more, rfl⟩ := h
  rw [wire_append]
  exact List.prefix_append _ _

theorem wire_concat_of_lt (h : limit < m.encode.length) :
    wire size limit (ms ++ [m]) = wire size limit ms := by
  rw [wire, sendable_concat_of_lt h]
  rfl

theorem wire_concat_of_le (h : m.encode.length ≤ limit) {s : Splitter} (hs : s.maxPayload = size)
    (hn : s.nextObject = (sendable limit ms).length) :
    wire size limit (ms ++ [m]) =
      wire size limit ms ++ ((s.push m.target m.encode).1.map Fragment.record).flatten := by
  have hone : sendable limit [m] = [(m.target, m.encode)] := by simp [sendable, h]
  have hpush : (s.push m.target m.encode).1 =
      splitAll size (sendable limit ms).length [(m.target, m.encode)] := by
    rw [Splitter.push, hn, hs, splitAll_cons, splitAll, List.zipIdx_nil, List.flatMap_nil,
      List.append_nil]
  rw [wire_append, hone, hpush]

end Concat

/-! ## Writers -/

namespace Writer

/-- A writer over an accepting sink that held the bytes `before` at first and is done with the
messages `sent`. -/
structure Sent (size limit : Nat) (before : Bytes) (sent : List Message) (w : Writer) : Prop where
  phase : w.phase = .writing
  isStopping : w.isStopping = false
  maxPayload : w.splitter.maxPayload = size
  limit_eq : w.limit = limit
  accepts : w.sink.conduct.Accepts
  nextObject : w.splitter.nextObject = (sendable limit sent).length
  written : w.sink.written = before ++ wire size limit sent

variable {size limit : Nat} {before : Bytes} {sent : List Message} {w : Writer}

theorem Sent.queue (h : w.Sent size limit before sent) (queue : List Message) :
    ({ w with queue } : Writer).Sent size limit before sent :=
  ⟨h.phase, h.isStopping, h.maxPayload, h.limit_eq, h.accepts, h.nextObject, h.written⟩

/-- **Writing a message adds its records, or reports it.** -/
theorem Sent.write (h : w.Sent size limit before sent) (m : Message) :
    (w.write m).1.Sent size limit before (sent ++ [m]) ∧ (w.write m).1.queue = w.queue ∧
      (w.write m).2 = refusals limit [m] := by
  unfold Writer.write
  dsimp only
  rw [h.limit_eq]
  by_cases hlarge : limit < m.encode.length
  · rw [if_pos hlarge]
    refine ⟨{ h with nextObject := ?_, written := ?_ }, rfl, by simp [refusals, hlarge]⟩
    · rw [sendable_concat_of_lt hlarge]
      exact h.nextObject
    · rw [wire_concat_of_lt hlarge]
      exact h.written
  · have hfits : m.encode.length ≤ limit := Nat.le_of_not_lt hlarge
    obtain ⟨sink, hsend, hconduct, hwritten⟩ := Sink.sendFragments_of_accepts h.accepts
      (w.splitter.push m.target m.encode).1
    rw [if_neg hlarge, hsend]
    refine ⟨⟨h.phase, h.isStopping, h.maxPayload, rfl, ?_, ?_, ?_⟩, rfl,
      by simp [refusals, hlarge]⟩
    · rw [hconduct]
      exact h.accepts
    · show w.splitter.nextObject + 1 = _
      rw [h.nextObject, sendable_concat_of_le hfits, List.length_append, List.length_singleton]
    · show sink.written = _
      rw [hwritten, h.written, List.append_assoc, wire_concat_of_le hfits h.maxPayload h.nextObject]

theorem Sent.turn?_nil (h : w.Sent size limit before sent) (hq : w.queue = []) :
    w.turn? = none := by
  unfold Writer.turn?
  rw [h.phase, hq, h.isStopping]
  rfl

theorem Sent.turn?_cons (h : w.Sent size limit before sent) {m : Message} {rest : List Message}
    (hq : w.queue = m :: rest) :
    ∃ w', w.turn? = some (w', refusals limit [m]) ∧ w'.Sent size limit before (sent ++ [m]) ∧
      w'.queue = rest := by
  obtain ⟨hsent, hqueue, hnews⟩ := (h.queue rest).write m
  refine ⟨(Writer.write { w with queue := rest } m).1, ?_, hsent, hqueue⟩
  unfold Writer.turn?
  split
  · next hq' =>
    cases hq.symm.trans hq'
    rw [← hnews]
  · next hq' => cases hq.symm.trans hq'
  · next hp => cases h.phase.symm.trans hp
  · next hp => cases h.phase.symm.trans hp

theorem Sent.flush (h : w.Sent size limit before sent) :
    w.flush.1.Sent size limit before (sent ++ w.queue) ∧ w.flush.1.queue = [] ∧
      w.flush.2 = refusals limit w.queue := by
  generalize hq : w.queue = queue
  induction queue generalizing w sent with
  | nil =>
    have hflush : w.flush = (w, []) := by
      rw [Writer.flush]
      split
      · rfl
      · next hturn => cases (h.turn?_nil hq).symm.trans hturn
    rw [hflush, List.append_nil]
    exact ⟨h, hq, rfl⟩
  | cons m rest ih =>
    obtain ⟨w', hturn, hsent, hqueue⟩ := h.turn?_cons hq
    have hflush : w.flush = (w'.flush.1, refusals limit [m] ++ w'.flush.2) := by
      rw [Writer.flush]
      split
      · next hnone => cases hturn.symm.trans hnone
      · next hsome =>
        cases hturn.symm.trans hsome
        rfl
    obtain ⟨hdone, hempty, hnews⟩ := ih hsent hqueue
    rw [List.append_assoc] at hdone
    refine ⟨by rw [hflush]; exact hdone, by rw [hflush]; exact hempty, ?_⟩
    rw [hflush, hnews, ← refusals_append]
    rfl

end Writer

/-! ## Connections -/

namespace Connection

/-- Whether an event is part of ordinary traffic: a message is queued, the writer gets a turn, or
something arrives. -/
def Event.isTraffic : Event → Bool
  | .send _ | .turn | .arrive _ => true
  | _ => false

/-- The messages that some events queue. -/
def queuedBy (events : List Event) : List Message :=
  events.filterMap fun
    | .send m => some m
    | _ => none

theorem queuedBy_append (before after : List Event) :
    queuedBy (before ++ after) = queuedBy before ++ queuedBy after :=
  List.filterMap_append

/-- A connection with a handler whose writer is done with the messages `sent`. -/
structure Sent (size limit : Nat) (before : Bytes) (sent : List Message) (c : Connection) :
    Prop where
  writer : c.writer.Sent size limit before sent
  hasHandler : c.hasHandler = true
  isShuttingDown : c.isShuttingDown = false

variable {size limit : Nat} {before : Bytes} {sent : List Message} {c : Connection}

theorem Sent.tell (h : c.Sent size limit before sent) (ns : List Notice) :
    (c.tell ns).1.Sent size limit before sent ∧ (c.tell ns).1.writer = c.writer := by
  obtain ⟨b, hb⟩ := tell_fst c ns
  rw [hb]
  exact ⟨⟨h.writer, h.hasHandler, h.isShuttingDown⟩, rfl⟩

theorem Sent.withWriter (h : c.Sent size limit before sent) {w : Writer} {sent' : List Message}
    (hw : w.Sent size limit before sent') :
    ({ c with writer := w } : Connection).endShutDown = { c with writer := w } ∧
      ({ c with writer := w } : Connection).Sent size limit before sent' :=
  ⟨endShutDown_of_not h.isShuttingDown, hw, h.hasHandler, h.isShuttingDown⟩

/-- **Each event of the traffic is done with some messages of the queue,** and the handler is told
of those that were too large. -/
theorem Sent.step (h : c.Sent size limit before sent) {e : Event} (he : e.isTraffic = true) :
    ∃ more, (c.step e).1.Sent size limit before (sent ++ more) ∧
      c.writer.queue ++ queuedBy [e] = more ++ (c.step e).1.writer.queue ∧
      (c.step e).2.filter Notice.isSendFailure = refusals limit more := by
  cases e with
  | send m =>
    have hsend : c.step (.send m) =
        ({ c with writer := { c.writer with queue := c.writer.queue ++ [m] } }, []) := by
      simp [Connection.step, send, isAccepting, h.writer.phase]
    rw [hsend]
    exact ⟨[], by simpa using ⟨h.writer.queue _, h.hasHandler, h.isShuttingDown⟩, rfl, rfl⟩
  | turn =>
    cases hq : c.writer.queue with
    | nil =>
      rw [step_turn_of_none (h.writer.turn?_nil hq), hq]
      exact ⟨[], by simpa using h, rfl, rfl⟩
    | cons m rest =>
      obtain ⟨w', hw, hsent, hqueue⟩ := h.writer.turn?_cons hq
      obtain ⟨hend, hc⟩ := h.withWriter hsent
      obtain ⟨htold, hwriter⟩ := hc.tell (refusals limit [m])
      have hturn : c.step .turn =
          ({ c with writer := w' } : Connection).tell (refusals limit [m]) := by
        rw [step_turn hw, hend]
      rw [hturn]
      refine ⟨[m], htold, ?_, ?_⟩
      · rw [hwriter, hqueue]
        exact List.append_nil _
      · rw [filter_tell hc.hasHandler]
        exact List.filter_eq_self.2 fun n hn => isSendFailure_of_mem_refusals hn
  | arrive a =>
    have hc : ({ c with receiver := (c.receiver.arrive c.hasHandler a).1 } : Connection).Sent
        size limit before sent := ⟨h.writer, h.hasHandler, h.isShuttingDown⟩
    obtain ⟨htold, hwriter⟩ := hc.tell (c.receiver.arrive c.hasHandler a).2
    rw [step_arrive]
    refine ⟨[], ?_, ?_, ?_⟩
    · rw [List.append_nil]
      exact htold
    · rw [hwriter]
      exact List.append_nil _
    · rw [filter_tell hc.hasHandler]
      refine List.filter_eq_nil_iff.2 fun n hn => ?_
      rw [Notice.isSendFailure_of_inbound (Receiver.news_arrive hn)]
      decide
  | shutDown | release | dropHandler | conduct => cases he

theorem Sent.run (h : c.Sent size limit before sent) {events : List Event}
    (he : ∀ e ∈ events, e.isTraffic = true) :
    ∃ more, (c.run events).1.Sent size limit before (sent ++ more) ∧
      c.writer.queue ++ queuedBy events = more ++ (c.run events).1.writer.queue ∧
      (c.run events).2.filter Notice.isSendFailure = refusals limit more := by
  induction events generalizing c sent with
  | nil =>
    refine ⟨[], ?_, List.append_nil _, rfl⟩
    rw [List.append_nil]
    exact h
  | cons e events ih =>
    obtain ⟨first, hfirst, hqueue, hnews⟩ := h.step (he e List.mem_cons_self)
    obtain ⟨rest, hrest, hqueue', hnews'⟩ := ih hfirst fun e' h => he e' (List.mem_cons_of_mem _ h)
    rw [run_cons]
    refine ⟨first ++ rest, by rw [← List.append_assoc]; exact hrest, ?_, ?_⟩
    · have hsplit : queuedBy (e :: events) = queuedBy [e] ++ queuedBy events :=
        queuedBy_append [e] events
      rw [hsplit, ← List.append_assoc, hqueue, List.append_assoc, hqueue', List.append_assoc]
    · rw [List.filter_append, hnews, hnews', refusals_append]

theorem Sent.flush (h : c.Sent size limit before sent) :
    c.flush.1.Sent size limit before (sent ++ c.writer.queue) ∧ c.flush.1.writer.queue = [] ∧
      c.flush.2.filter Notice.isSendFailure = refusals limit c.writer.queue := by
  obtain ⟨hw, hqueue, hnews⟩ := h.writer.flush
  obtain ⟨hend, hc⟩ := h.withWriter hw
  obtain ⟨htold, hwriter⟩ := hc.tell c.writer.flush.2
  have hflush : c.flush = ({ c with writer := c.writer.flush.1 } : Connection).tell
      c.writer.flush.2 := by
    rw [Connection.flush]
    dsimp only
    rw [hend]
  rw [hflush]
  refine ⟨htold, hwriter ▸ hqueue, ?_⟩
  rw [filter_tell hc.hasHandler, hnews]
  exact List.filter_eq_self.2 fun n hn => isSendFailure_of_mem_refusals hn

theorem sent_start (limit : Nat) (hmin : minFragmentPayload ≤ size)
    (hmax : size ≤ maxFragmentPayload) {sink : Sink} (hs : sink.conduct.Accepts) :
    ∃ c, start size limit sink = .ok c ∧ c.writer.queue = [] ∧
      c.Sent size limit sink.written [] := by
  have hvalid : validFragmentSize size = true := by simp [validFragmentSize, hmin, hmax]
  refine ⟨{ writer := { splitter := { maxPayload := size }, limit, sink }
            receiver := { reassembler := .new limit } }, ?_, rfl, ?_⟩
  · rw [start, Splitter.new?, if_pos hvalid]
  · exact ⟨⟨rfl, rfl, rfl, rfl, hs, rfl, by simp [wire, sendable, splitAll]⟩, rfl, rfl⟩

/-! ## From sender to receiver -/

/-- **What a connection writes over a sink that accepts all writes brings a receiver just the
messages that were not too large.**

Take any piece size that may be chosen, and any limit of 64 bits. Whatever the order in which
messages are queued, written and received, once the queue is flushed the bytes written are the
records of the messages that are not too large, numbered 0, 1, 2, … in the order of the queue, and
the handler was told of each of the others, in order. However these bytes are cut, a decoder finds
all fragments in them, with no fault and nothing left over, and these fragments complete the
messages that were sent in order, lose none and leave none pending. -/
theorem transparent_of_run (size limit : Nat) (sink : Sink) (events : List Event)
    (hmin : minFragmentPayload ≤ size) (hmax : size ≤ maxFragmentPayload)
    (hlimit : limit < UInt64.size) (hs : sink.conduct.Accepts)
    (he : ∀ e ∈ events, e.isTraffic = true) (hcount : (queuedBy events).length < UInt64.size - 1) :
    let bodies := sendable limit (queuedBy events)
    let fs := bodies.zipIdx.flatMap fun b =>
      splitMessage (UInt64.ofNat b.2) b.1.1 b.1.2 size
    ∃ c, start size limit sink = .ok c ∧
      (c.run events).1.flush.1.writer.queue = [] ∧
      (c.run events).1.flush.1.writer.sink.written =
        sink.written ++ (fs.map Fragment.record).flatten ∧
      ((c.run events).2 ++ (c.run events).1.flush.2).filter Notice.isSendFailure =
        refusals limit (queuedBy events) ∧
      (fs.filter (·.isEnd)).map (·.objectId.toNat) = List.range bodies.length ∧
      ∀ chunks : List Bytes, chunks.flatten = (fs.map Fragment.record).flatten →
        Decoder.empty.drainChunks chunks = (fs, .incomplete .empty) ∧
        ∃ r, (Reassembler.new limit).Delivers fs bodies r ∧ r.pendingObjects = 0 := by
  intro bodies fs
  obtain ⟨c, hstart, hempty, hc⟩ := sent_start limit hmin hmax hs
  obtain ⟨sent, hrun, hqueue, hnews⟩ := hc.run he
  obtain ⟨hflush, hnone, hnews'⟩ := hrun.flush
  rw [hempty, List.nil_append] at hqueue
  rw [List.nil_append, ← hqueue] at hflush
  have hfs : ∀ f ∈ fs, f.payload.length ≤ maxFragmentPayload := fun f hf =>
    payload_le_of_mem_splitAll hmax hf
  have hlength : bodies.length ≤ (queuedBy events).length := length_sendable_le _ _
  have hbodies : ∀ b ∈ bodies, b.2.length ≤ limit := by
    intro b hb
    obtain ⟨m, hm, rfl⟩ := List.mem_map.1 hb
    simpa using (List.mem_filter.1 hm).2
  refine ⟨c, hstart, hnone, hflush.writer.written, ?_, ?_, fun chunks hchunks => ⟨?_, ?_⟩⟩
  · rw [List.filter_append, hnews, hnews', ← refusals_append, hqueue]
  · rw [List.range_eq_range']
    exact ends_splitAll (by omega)
  · exact Decoder.drainChunks_records hfs hchunks
  · exact ⟨_, Reassembler.delivers_splitAll (n := 0) hlimit size (by omega) hbodies, rfl⟩

/-- Of three messages to a channel for bodies of at most forty-eight bytes the second is too large,
and the other two arrive. -/
theorem transparent_of_run_oversize :
    let script : Message := .toPipeline ⟨1, by decide⟩ (.createPipeline [⟨"Get-Item", []⟩])
    let close : Message := .toPool .closePool
    let events : List Event := [.send close, .turn, .send script, .send close]
    ∃ c, start 64 48 {} = .ok c ∧
      ((c.run events).2 ++ (c.run events).1.flush.2).filter Notice.isSendFailure =
        refusals 48 [script] ∧
      ∀ chunks : List Bytes,
        chunks.flatten = (c.run events).1.flush.1.writer.sink.written →
        ∃ fs r, Decoder.empty.drainChunks chunks = (fs, .incomplete .empty) ∧
          (Reassembler.new 48).Delivers fs
            [(close.target, close.encode), (close.target, close.encode)] r := by
  intro script close events
  have hscript : 48 < script.encode.length := by decide
  have hclose : close.encode.length ≤ 48 := by decide
  obtain ⟨c, hstart, -, hwritten, hnews, -, hchunks⟩ := transparent_of_run 64 48 {} events
    (by decide) (by decide) (by decide) ⟨rfl, by decide, rfl⟩ (by decide) (by decide)
  have hqueued : queuedBy events = [close, script, close] := rfl
  have hsent : sendable 48 [close, script, close] =
      [(close.target, close.encode), (close.target, close.encode)] := by
    simp [sendable, hclose, hscript]
  have hrefused : refusals 48 [close, script, close] = refusals 48 [script] := by
    simp [refusals, hscript, Nat.not_lt.2 hclose]
  rw [hqueued] at hnews
  simp only [hqueued, hsent] at hwritten hchunks
  refine ⟨c, hstart, hnews.trans hrefused, fun chunks hc => ?_⟩
  obtain ⟨hdrain, r, hdelivers, -⟩ := hchunks chunks (hc.trans hwritten)
  exact ⟨_, r, hdrain, hdelivers⟩

end Connection

end Runspace
