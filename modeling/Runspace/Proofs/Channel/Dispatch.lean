import Runspace.Proofs.Channel.Runs
import Runspace.Proofs.Message.Bodies
import Runspace.Proofs.Wire.Chunking
import Runspace.Proofs.Wire.Soundness

/-!
# Dispatch — what a connection makes of the bytes it receives

What the handler hears of the receiving half is a function of the bytes received so far and of how
reading ended, however the bytes arrived and whatever the sending half did meanwhile.

* `Reassembler.Outcome.notices`: what the handler hears of what a fragment did;
* `Receiver.expected`: what a receiver has to tell of bytes and of their end;
* **`Receiver.expected_append`**: chunks are told of as they come;
* **`Connection.inbound_run`**: so are arrivals, whatever else happens;
* **`dispatch_of_chunks`**: the whole sequence of what the handler hears.
-/

namespace Runspace

/-! ## Fragments -/

namespace Reassembler

/-- What the handler hears of what a fragment did. -/
def Outcome.notices (f : Fragment) : Outcome → List Notice
  | .incomplete => []
  | .complete body =>
    match Message.decode f.target body with
    | .ok m => [.message m]
    | .error fault => [.framingError f.target (.malformed fault)]
  | .lost fault => [.framingError fault.target fault.toFault]

theorem notices_eq (r : Reassembler) (f : Fragment) :
    r.notices f = ((r.feed f).2, (r.feed f).1.notices f) := by
  unfold Reassembler.notices
  generalize r.feed f = fed
  obtain ⟨outcome, r'⟩ := fed
  cases outcome with
  | incomplete => rfl
  | complete body =>
    dsimp only [Outcome.notices]
    cases Message.decode f.target body <;> rfl
  | lost fault => rfl

theorem allNotices_cons (r : Reassembler) (f : Fragment) (fs : List Fragment) :
    r.allNotices (f :: fs) =
      (((r.notices f).1.allNotices fs).1, (r.notices f).2 ++ ((r.notices f).1.allNotices fs).2) :=
  rfl

theorem allNotices_eq (r : Reassembler) (fs : List Fragment) :
    (r.allNotices fs).2 = (r.outcomes fs).flatMap fun o => o.2.notices o.1 := by
  induction fs generalizing r with
  | nil => rfl
  | cons f fs ih =>
    rw [allNotices_cons, notices_eq, outcomes, List.flatMap_cons, ih]

theorem allNotices_append (r : Reassembler) (fs gs : List Fragment) :
    r.allNotices (fs ++ gs) =
      (((r.allNotices fs).1.allNotices gs).1,
        (r.allNotices fs).2 ++ ((r.allNotices fs).1.allNotices gs).2) := by
  induction fs generalizing r with
  | nil => rfl
  | cons f fs ih =>
    rw [List.cons_append, allNotices_cons, allNotices_cons, ih, List.append_assoc]

end Reassembler

/-! ## Chunks -/

/-- Why the channel has ended, once its bytes were found to be corrupt or to leave some over, and
reading has ended: a corrupt record counts before anything else, and a failed source before a lost
one. -/
def endFault? : WireFault ⊕ Nat → ReadEnd → Option Fault
  | .inl fault, _ => some (.transport (.corrupt fault))
  | .inr _, .failed fault => some (.transport fault)
  | .inr _, .lost => some .channelClosed
  | .inr 0, .finished => none
  | .inr (n + 1), .finished => some (.transport (.truncated (n + 1)))

/-- What is told of the end: of corrupt bytes at once, of others when reading has ended. -/
def endNotices : WireFault ⊕ Nat → Option ReadEnd → List Notice
  | .inl fault, _ => [.closed (some (.transport (.corrupt fault)))]
  | .inr _, none => []
  | .inr n, some readEnd => [.closed (endFault? (.inr n) readEnd)]

namespace Receiver

/-- What a receiver has to tell of bytes that are still to come and of their end. -/
def expected (r : Receiver) (bytes : Bytes) (readEnd : Option ReadEnd) : List Notice :=
  if r.isReceiving then
    (r.reassembler.allNotices (r.decoder.extend bytes).drain.1).2 ++
      endNotices (r.decoder.extend bytes).drain.2.verdict readEnd
  else []

theorem expected_of_stopped {r : Receiver} (hr : r.isReceiving = false) (bytes : Bytes)
    (readEnd : Option ReadEnd) : r.expected bytes readEnd = [] := by
  rw [expected, hr]
  rfl

/-- A receiver whose decoder has been drained. -/
def IsDrained (r : Receiver) : Prop := r.decoder.drain = ([], .incomplete r.decoder)

variable {r : Receiver}

theorem takeChunk_of_stopped (hr : r.isReceiving = false) (isHeard : Bool) (chunk : Bytes) :
    r.takeChunk isHeard chunk = (r, []) := by
  rw [takeChunk, hr]
  rfl

theorem takeChunks_cons (r : Receiver) (isHeard : Bool) (chunk : Bytes) (chunks : List Bytes) :
    r.takeChunks isHeard (chunk :: chunks) =
      (((r.takeChunk isHeard chunk).1.takeChunks isHeard chunks).1,
        (r.takeChunk isHeard chunk).2 ++
          ((r.takeChunk isHeard chunk).1.takeChunks isHeard chunks).2) :=
  rfl

theorem takeChunks_of_stopped (hr : r.isReceiving = false) (isHeard : Bool)
    (chunks : List Bytes) : r.takeChunks isHeard chunks = (r, []) := by
  induction chunks with
  | nil => rfl
  | cons chunk chunks ih => rw [takeChunks_cons, takeChunk_of_stopped hr, ih, List.append_nil]

theorem takeChunk_of_receiving (hr : r.isReceiving = true) (chunk : Bytes) :
    r.takeChunk true chunk =
      match (r.decoder.extend chunk).drain with
      | (fs, .incomplete decoder) =>
        ({ r with decoder, reassembler := (r.reassembler.allNotices fs).1 },
          (r.reassembler.allNotices fs).2)
      | (fs, .corrupt fault decoder) =>
        (({ r with decoder, reassembler := (r.reassembler.allNotices fs).1 } : Receiver).stop,
          (r.reassembler.allNotices fs).2 ++ [.closed (some (.transport (.corrupt fault)))]) := by
  rw [takeChunk, if_pos hr]
  generalize (r.decoder.extend chunk).drain = found
  obtain ⟨fs, stop⟩ := found
  cases stop <;> rfl

/-- **A chunk is told of as it comes:** then the rest of the bytes is left to tell of. -/
theorem expected_takeChunk (r : Receiver) (chunk more : Bytes) (readEnd : Option ReadEnd) :
    r.expected (chunk ++ more) readEnd =
      (r.takeChunk true chunk).2 ++ (r.takeChunk true chunk).1.expected more readEnd := by
  cases hr : r.isReceiving with
  | false => rw [takeChunk_of_stopped hr, expected_of_stopped hr, expected_of_stopped hr]; rfl
  | true =>
    have hall := Decoder.drain_extend (r.decoder.extend chunk) more
    rw [Decoder.extend_extend] at hall
    rw [takeChunk_of_receiving hr, expected, if_pos hr, hall, Reassembler.allNotices_append]
    generalize (r.decoder.extend chunk).drain = found
    obtain ⟨fs, stop⟩ := found
    cases stop with
    | incomplete decoder =>
      show _ = (r.reassembler.allNotices fs).2 ++ if r.isReceiving then _ else []
      rw [if_pos hr, List.append_assoc]
      rfl
    | corrupt fault decoder =>
      show (_ ++ []) ++ [_] = (_ ++ [_]) ++ []
      rw [List.append_nil, List.append_nil]

theorem isDrained_takeChunk (h : r.isReceiving = true → r.IsDrained) (chunk : Bytes)
    (hr : (r.takeChunk true chunk).1.isReceiving = true) :
    (r.takeChunk true chunk).1.IsDrained := by
  cases hrec : r.isReceiving with
  | false =>
    rw [takeChunk_of_stopped hrec] at hr ⊢
    exact h hr
  | true =>
    have hstop : ∀ rest, (r.decoder.extend chunk).drain.2 = .incomplete rest →
        rest.drain = ([], .incomplete rest) := fun rest => Decoder.drain_of_stop
    rw [takeChunk_of_receiving hrec] at hr ⊢
    generalize (r.decoder.extend chunk).drain = found at hr hstop ⊢
    obtain ⟨fs, stop⟩ := found
    cases stop with
    | incomplete decoder => exact hstop decoder rfl
    | corrupt fault decoder => cases hr

/-- **Chunks are told of as they come.** -/
theorem expected_append (r : Receiver) (chunks : List Bytes) (more : Bytes)
    (readEnd : Option ReadEnd) :
    r.expected (chunks.flatten ++ more) readEnd =
      (r.takeChunks true chunks).2 ++ (r.takeChunks true chunks).1.expected more readEnd := by
  induction chunks generalizing r with
  | nil => rfl
  | cons chunk chunks ih =>
    rw [List.flatten_cons, List.append_assoc, expected_takeChunk, ih, takeChunks_cons,
      List.append_assoc]

theorem isDrained_takeChunks (h : r.isReceiving = true → r.IsDrained) (chunks : List Bytes)
    (hr : (r.takeChunks true chunks).1.isReceiving = true) :
    (r.takeChunks true chunks).1.IsDrained := by
  induction chunks generalizing r with
  | nil => exact h hr
  | cons chunk chunks ih => exact ih (isDrained_takeChunk h chunk) hr

theorem expected_nil (h : r.isReceiving = true → r.IsDrained) (readEnd : ReadEnd) :
    r.expected [] (some readEnd) = (r.takeEnd readEnd).2 := by
  cases hr : r.isReceiving with
  | false => simp [expected, takeEnd, hr]
  | true =>
    have hdrain : r.decoder.drain = ([], .incomplete r.decoder) := h hr
    rw [expected, if_pos hr, Decoder.extend_nil, hdrain, takeEnd, if_pos hr]
    show [Notice.closed (Runspace.endFault? (.inr r.decoder.buffered) readEnd)] =
      [.closed (r.endFault? readEnd)]
    unfold Receiver.endFault?
    cases readEnd with
    | failed fault => rfl
    | lost => rfl
    | finished => cases r.decoder.buffered <;> rfl

theorem expected_nothing (h : r.isReceiving = true → r.IsDrained) : r.expected [] none = [] := by
  rw [expected]
  cases hr : r.isReceiving with
  | false => rfl
  | true =>
    have hdrain : r.decoder.drain = ([], .incomplete r.decoder) := h hr
    rw [if_pos rfl, Decoder.extend_nil, hdrain]
    rfl

/-- What a receiver tells, of its bytes or their end: no end while it goes on, and one at last when
it stops. -/
def Tells (r r' : Receiver) (ns : List Notice) : Prop :=
  r'.isReceiving = true ∧ r'.source = r.source ∧ (∀ n ∈ ns, n.isEnd = false) ∨
    r'.isReceiving = false ∧ ∃ ns' fault, ns = ns' ++ [.closed fault] ∧ ∀ n ∈ ns', n.isEnd = false

theorem tells_takeChunk (hr : r.isReceiving = true) (chunk : Bytes) :
    r.Tells (r.takeChunk true chunk).1 (r.takeChunk true chunk).2 := by
  rw [takeChunk_of_receiving hr]
  generalize (r.decoder.extend chunk).drain = found
  obtain ⟨fs, stop⟩ := found
  cases stop with
  | incomplete decoder => exact .inl ⟨hr, rfl, fun n hn => (Reassembler.news_allNotices hn).2⟩
  | corrupt fault decoder =>
    exact .inr ⟨rfl, _, _, rfl, fun n hn => (Reassembler.news_allNotices hn).2⟩

theorem tells_takeChunks (hr : r.isReceiving = true) (chunks : List Bytes) :
    r.Tells (r.takeChunks true chunks).1 (r.takeChunks true chunks).2 := by
  induction chunks generalizing r with
  | nil => exact .inl ⟨hr, rfl, fun n hn => by cases hn⟩
  | cons chunk chunks ih =>
    rw [takeChunks_cons]
    rcases tells_takeChunk hr chunk with ⟨hgo, hsource, hns⟩ | ⟨hstop, hns⟩
    · have hall : ∀ {ms : List Notice}, (∀ n ∈ ms, n.isEnd = false) →
          ∀ n ∈ (r.takeChunk true chunk).2 ++ ms, n.isEnd = false := by
        intro ms hms n hn
        rcases List.mem_append.1 hn with hn | hn
        · exact hns n hn
        · exact hms n hn
      rcases ih hgo with ⟨hgo', hsource', hms⟩ | ⟨hstop, ms, fault, heq, hms⟩
      · exact .inl ⟨hgo', hsource'.trans hsource, hall hms⟩
      · refine .inr ⟨hstop, _ ++ ms, fault, ?_, hall hms⟩
        rw [heq, List.append_assoc]
    · rw [takeChunks_of_stopped hstop, List.append_nil]
      exact .inr ⟨hstop, hns⟩

end Receiver

/-! ## Arrivals -/

/-- The bytes that some arrivals bring, and how reading ends after them. -/
def Arrival.content : List Arrival → Bytes × Option ReadEnd
  | [] => ([], none)
  | .bytes bs :: rest => (bs ++ (content rest).1, (content rest).2)
  | .ended :: _ => ([], some .finished)
  | .failed cause :: _ => ([], some (.failed (.read cause)))
  | .lost :: _ => ([], some .lost)

theorem Source.take_bytes (bs : Bytes) :
    ∃ cs, ({} : Source).take (.bytes bs) = (cs, {}) ∧ cs.flatten = bs := by
  cases bs with
  | nil => exact ⟨[], rfl, rfl⟩
  | cons b bs => exact ⟨chunks readChunk (b :: bs), rfl, flatten_chunks _ _⟩

namespace Receiver

variable {r : Receiver}

theorem arrive_of_stopped (hr : r.isReceiving = false) (isHeard : Bool) (a : Arrival) :
    (r.arrive isHeard a).1.isReceiving = false ∧ (r.arrive isHeard a).2 = [] := by
  have hchunks := fun source => takeChunks_of_stopped (r := { r with source }) hr isHeard
  unfold arrive
  split
  · exact ⟨hr, rfl⟩
  · dsimp only
    split
    · rw [hchunks]
      exact ⟨hr, rfl⟩
    · rw [takeEnd]
      simp [hr]

/-- **Arrivals are told of as they come.** -/
theorem expected_arrive (hr : r.isReceiving = true) (hs : r.source = {}) (hd : r.IsDrained)
    (a : Arrival) (rest : List Arrival) :
    r.expected (Arrival.content (a :: rest)).1 (Arrival.content (a :: rest)).2 =
        (r.arrive true a).2 ++
          (r.arrive true a).1.expected (Arrival.content rest).1 (Arrival.content rest).2 ∧
      r.Tells (r.arrive true a).1 (r.arrive true a).2 ∧
      ((r.arrive true a).1.isReceiving = true → (r.arrive true a).1.IsDrained) := by
  -- the three ways in which reading ends
  have hend : ∀ (e : ReadEnd) (bs : Bytes) (end? : Option ReadEnd),
      let r' := ({ r with source := { ended := some e } } : Receiver).takeEnd e
      r.expected [] (some e) = r'.2 ++ r'.1.expected bs end? ∧ r.Tells r'.1 r'.2 ∧
        (r'.1.isReceiving = true → r'.1.IsDrained) := by
    intro e bs end? r'
    have hr' : r' = (({ r with source := { ended := some e } } : Receiver).stop,
        [.closed (r.endFault? e)]) := if_pos hr
    have htold : (r.takeEnd e).2 = [.closed (r.endFault? e)] := by rw [takeEnd, if_pos hr]
    rw [expected_nil (fun _ => hd), hr', htold]
    exact ⟨rfl, .inr ⟨rfl, [], _, rfl, fun n hn => by cases hn⟩, fun h => by cases h⟩
  unfold arrive
  rw [hs]
  cases a with
  | bytes bs =>
    obtain ⟨cs, htake, hcs⟩ := Source.take_bytes bs
    have hsame : ({ r with source := {} } : Receiver) = r := by rw [← hs]
    rw [htake]
    dsimp only
    rw [hsame, Arrival.content, ← hcs]
    exact ⟨expected_append r cs _ _, tells_takeChunks hr cs, isDrained_takeChunks (fun _ => hd) cs⟩
  | ended => exact hend .finished _ _
  | failed cause => exact hend (.failed (.read cause)) _ _
  | lost => exact hend .lost _ _

end Receiver

/-! ## Connections -/

namespace Connection

/-- Whether an event leaves the handler alone and does not shut the connection down. -/
def Event.isQuiet : Event → Bool
  | .shutDown | .dropHandler => false
  | _ => true

/-- What some events bring to the source. -/
def arrivals (events : List Event) : List Arrival :=
  events.filterMap fun
    | .arrive a => some a
    | _ => none

/-- Whether no turn of the writer among some events finds that a write has failed. -/
def WritesSucceed (c : Connection) : List Event → Prop
  | [] => True
  | e :: events =>
    (e = .turn → ∀ w ns, c.writer.turn? = some (w, ns) → ∀ n ∈ ns, n.isEnd = false) ∧
      (c.step e).1.WritesSucceed events

/-- A connection whose handler is told of whatever its receiver has to tell. -/
structure Listening (c : Connection) : Prop where
  hasHandler : c.hasHandler = true
  isShuttingDown : c.isShuttingDown = false
  isEndSettled : c.receiver.isReceiving = true → c.isEndSettled = false
  source : c.receiver.isReceiving = true → c.receiver.source = {}
  isDrained : c.receiver.isReceiving = true → c.receiver.IsDrained

/-- What a connection's receiver has to tell of some arrivals. -/
def expected (c : Connection) (as : List Arrival) : List Notice :=
  c.receiver.expected (Arrival.content as).1 (Arrival.content as).2

variable {c : Connection}

theorem Listening.congr (h : c.Listening) {d : Connection} (hh : d.hasHandler = c.hasHandler)
    (hs : d.isShuttingDown = c.isShuttingDown) (he : d.isEndSettled = c.isEndSettled)
    (hr : d.receiver = c.receiver) : d.Listening where
  hasHandler := hh.trans h.hasHandler
  isShuttingDown := hs.trans h.isShuttingDown
  isEndSettled hgo := he.trans (h.isEndSettled (hr ▸ hgo))
  source hgo := by
    rw [hr] at hgo ⊢
    exact h.source hgo
  isDrained hgo := by
    rw [hr] at hgo ⊢
    exact h.isDrained hgo

theorem Listening.of_stopped {d : Connection} (hh : d.hasHandler = true)
    (hs : d.isShuttingDown = false) (hstop : d.receiver.isReceiving = false) : d.Listening := by
  have hno : ∀ {P : Prop}, d.receiver.isReceiving = true → P := by
    intro P hgo
    rw [hstop] at hgo
    cases hgo
  exact ⟨hh, hs, hno, hno, hno⟩

theorem Listening.expected_nil (h : c.Listening) : c.expected [] = [] :=
  Receiver.expected_nothing h.isDrained

theorem Listening.tell (h : c.Listening) (hr : c.receiver.isReceiving = true) {r : Receiver}
    {ns : List Notice} (ht : c.receiver.Tells r ns) (hd : r.isReceiving = true → r.IsDrained) :
    (({ c with receiver := r } : Connection).tell ns).1.Listening ∧
      (({ c with receiver := r } : Connection).tell ns).1.receiver = r ∧
      (({ c with receiver := r } : Connection).tell ns).2 = ns := by
  rcases ht with ⟨hgo, hsource, hns⟩ | ⟨hstop, ns', fault, rfl, hns⟩
  · rw [tell_of_open (c := { c with receiver := r }) h.hasHandler hns]
    exact ⟨⟨h.hasHandler, h.isShuttingDown, fun _ => h.isEndSettled hr,
      fun _ => hsource.trans (h.source hr), hd⟩, rfl, rfl⟩
  · rw [tell_end (c := { c with receiver := r }) h.hasHandler (h.isEndSettled hr) hns]
    exact ⟨.of_stopped h.hasHandler h.isShuttingDown hstop, rfl, rfl⟩

/-- **Each event is told of as it comes:** then the rest of the arrivals is left to tell of. -/
theorem Listening.step (h : c.Listening) {e : Event} (he : e.isQuiet = true)
    (hw : e = .turn → ∀ w ns, c.writer.turn? = some (w, ns) → ∀ n ∈ ns, n.isEnd = false)
    (rest : List Arrival) :
    (c.step e).1.Listening ∧ c.expected (arrivals [e] ++ rest) =
      (c.step e).2.filter (fun n => ! n.isSendFailure) ++ (c.step e).1.expected rest := by
  cases e with
  | send m =>
    show (c.send m).1.Listening ∧ _ = [] ++ (c.send m).1.expected rest
    unfold send
    split
    · exact ⟨h.congr rfl rfl rfl rfl, rfl⟩
    · exact ⟨h, rfl⟩
  | release =>
    show c.release.Listening ∧ _ = [] ++ c.release.expected rest
    unfold release
    split
    · exact ⟨h.congr rfl rfl rfl rfl, rfl⟩
    · exact ⟨h, rfl⟩
  | conduct conduct =>
    exact ⟨h.congr rfl rfl rfl rfl, rfl⟩
  | turn =>
    cases hturn : c.writer.turn? with
    | none =>
      rw [step_turn_of_none hturn]
      exact ⟨h, rfl⟩
    | some result =>
      obtain ⟨w, ns⟩ := result
      have hns := hw rfl w ns hturn
      have hnone : ns.filter (fun n => ! n.isSendFailure) = [] := by
        refine List.filter_eq_nil_iff.2 fun n hn => ?_
        have hnews := (Writer.turn_of_turn? hturn).news hn
        rcases Notice.isSendFailure_or_isEnd hnews with hfail | hend
        · rw [hfail]
          decide
        · rw [hns n hn] at hend
          cases hend
      rw [step_turn hturn, endShutDown_of_not (c := { c with writer := w }) h.isShuttingDown,
        tell_of_open (c := { c with writer := w }) h.hasHandler hns, hnone]
      exact ⟨h.congr rfl rfl rfl rfl, rfl⟩
  | arrive a =>
    have harrive : c.step (.arrive a) =
        ({ c with receiver := (c.receiver.arrive true a).1 } : Connection).tell
          (c.receiver.arrive true a).2 := by
      rw [step_arrive, h.hasHandler]
    have hall : (c.receiver.arrive true a).2.filter (fun n => ! n.isSendFailure) =
        (c.receiver.arrive true a).2 :=
      List.filter_eq_self.2 fun n hn => by
        rw [Notice.isSendFailure_of_inbound (Receiver.news_arrive hn)]
        decide
    rw [harrive]
    cases hr : c.receiver.isReceiving with
    | false =>
      obtain ⟨hstop, hnone⟩ := Receiver.arrive_of_stopped hr true a
      rw [hnone, Connection.tell]
      refine ⟨.of_stopped h.hasHandler h.isShuttingDown hstop, ?_⟩
      rw [expected, expected, Receiver.expected_of_stopped hr, Receiver.expected_of_stopped hstop]
      rfl
    | true =>
      obtain ⟨hexpected, htells, hdrained⟩ :=
        Receiver.expected_arrive hr (h.source hr) (h.isDrained hr) a rest
      obtain ⟨hnext, hreceiver, htold⟩ := h.tell hr htells hdrained
      refine ⟨hnext, ?_⟩
      rw [htold, hall, expected, expected, hreceiver]
      exact hexpected
  | shutDown | dropHandler => cases he

/-- **Whatever else happens, arrivals are told of as they come.** -/
theorem inbound_run (h : c.Listening) {events : List Event} (he : ∀ e ∈ events, e.isQuiet = true)
    (hw : c.WritesSucceed events) :
    (c.run events).2.filter (fun n => ! n.isSendFailure) = c.expected (arrivals events) := by
  induction events generalizing c with
  | nil => exact h.expected_nil.symm
  | cons e events ih =>
    obtain ⟨hnow, hlater⟩ := hw
    obtain ⟨hnext, hstep⟩ := h.step (he e List.mem_cons_self) hnow (arrivals events)
    have hsplit : arrivals (e :: events) = arrivals [e] ++ arrivals events := by
      rw [arrivals, arrivals, arrivals, ← List.filterMap_append]
      rfl
    rw [run_cons, List.filter_append, hsplit, hstep,
      ih hnext (fun e' h => he e' (List.mem_cons_of_mem _ h)) hlater]

theorem listening_start {size limit : Nat} {sink : Sink} (hc : start size limit sink = .ok c) :
    c.Listening ∧ c.receiver = { reassembler := .new limit } := by
  have hdrain : Decoder.empty.drain = ([], .incomplete .empty) := Decoder.drain_of_incomplete rfl
  unfold start at hc
  split at hc
  · cases hc
  · cases hc
    exact ⟨⟨rfl, rfl, fun _ => rfl, fun _ => rfl, fun _ => hdrain⟩, rfl⟩

end Connection

/-! ## The whole sequence -/

/-- What is heard of the fragments that some bytes hold. -/
def inboundNews (limit : Nat) (bytes : Bytes) : List Notice :=
  ((Reassembler.new limit).outcomes (⟨bytes⟩ : Decoder).drain.1).flatMap fun o => o.2.notices o.1

theorem isEnd_of_mem_inboundNews {limit : Nat} {bytes : Bytes} {n : Notice}
    (hn : n ∈ inboundNews limit bytes) : n.isEnd = false := by
  rw [inboundNews, ← Reassembler.allNotices_eq] at hn
  exact (Reassembler.news_allNotices hn).2

theorem Receiver.expected_new (limit : Nat) (bytes : Bytes) (readEnd : Option ReadEnd) :
    ({ reassembler := .new limit } : Receiver).expected bytes readEnd =
      inboundNews limit bytes ++ endNotices (⟨bytes⟩ : Decoder).drain.2.verdict readEnd := by
  rw [expected, if_pos rfl, Reassembler.allNotices_eq]
  rfl

theorem endNotices_some (verdict : WireFault ⊕ Nat) (readEnd : ReadEnd) :
    endNotices verdict (some readEnd) = [.closed (endFault? verdict readEnd)] := by
  cases verdict <;> rfl

/-- **What a handler hears does not depend on how the bytes arrive.**

A decoder cuts any byte string in one way into the records of fragments and a rest that starts with
no record. Whatever chunks make the bytes up, a receiver tells in order of each fragment what it
did, and then of the end, once: that the rest is corrupt, or else how reading ended and whether a
rest was left. The handler of a connection hears the same of what arrives, whatever is queued and
written in between, as long as it is there, nobody shuts the connection down and no write fails;
until reading ends, it hears all but the end. -/
theorem dispatch_of_chunks (limit : Nat) :
    (∀ bytes : Bytes,
      let found := (⟨bytes⟩ : Decoder).drain
      (found.1.map Fragment.record).flatten ++ found.2.rest.pending = bytes ∧
        (∀ f ∈ found.1, f.payload.length ≤ maxFragmentPayload) ∧
        found.2.rest.drain = ([], found.2)) ∧
    (∀ (chunks : List Bytes) (readEnd : ReadEnd),
      let r := ({ reassembler := .new limit } : Receiver).takeChunks true chunks
      let verdict := (⟨chunks.flatten⟩ : Decoder).drain.2.verdict
      r.2 ++ (r.1.takeEnd readEnd).2 =
          inboundNews limit chunks.flatten ++ [.closed (endFault? verdict readEnd)] ∧
        (r.2 ++ (r.1.takeEnd readEnd).2).filter Notice.isEnd =
          [.closed (endFault? verdict readEnd)]) ∧
    ∀ (size : Nat) (sink : Sink) (c : Connection), Connection.start size limit sink = .ok c →
      ∀ events : List Connection.Event, (∀ e ∈ events, e.isQuiet = true) →
        c.WritesSucceed events →
        let content := Arrival.content (Connection.arrivals events)
        let verdict := (⟨content.1⟩ : Decoder).drain.2.verdict
        (c.run events).2.filter (fun n => ! n.isSendFailure) =
          inboundNews limit content.1 ++ endNotices verdict content.2 := by
  refine ⟨fun bytes => Decoder.pending_drain _, fun chunks readEnd => ?_,
    fun size sink c hc events he hw => ?_⟩
  · intro r verdict
    have hdrain : Decoder.empty.drain = ([], .incomplete .empty) := Decoder.drain_of_incomplete rfl
    have hheard : r.2 ++ (r.1.takeEnd readEnd).2 =
        inboundNews limit chunks.flatten ++ [.closed (endFault? verdict readEnd)] := by
      have hall := Receiver.expected_append ({ reassembler := .new limit } : Receiver) chunks []
        (some readEnd)
      have hdrained := Receiver.isDrained_takeChunks
        (r := { reassembler := .new limit }) (fun _ => hdrain) chunks
      rw [List.append_nil, Receiver.expected_new, endNotices_some,
        Receiver.expected_nil hdrained] at hall
      exact hall.symm
    refine ⟨hheard, ?_⟩
    rw [hheard, List.filter_append, List.filter_eq_nil_iff.2 fun n hn => by
      rw [isEnd_of_mem_inboundNews hn]; decide]
    rfl
  · obtain ⟨hlisten, hreceiver⟩ := Connection.listening_start hc
    intro content verdict
    rw [Connection.inbound_run hlisten he hw, Connection.expected, hreceiver,
      Receiver.expected_new]

/-- A message, then one without a body, then a header with a flag without a meaning; the second
record and the header are cut in two. -/
theorem dispatch_of_chunks_corrupt :
    let close : Message := .toPool .closePool
    let f : Fragment := ⟨0, 0, .pool, true, close.encode⟩
    let g : Fragment := ⟨1, 0, .pool, true, []⟩
    let bad : Bytes := List.replicate 24 0 ++ [2, 0, 0, 0, 0]
    ∃ c, Connection.start 64 48 {} = .ok c ∧
      (c.run [.arrive (.bytes (f.record ++ g.record.take 9)),
        .arrive (.bytes (g.record.drop 9 ++ bad.take 7)), .send close,
        .arrive (.bytes (bad.drop 7)), .arrive .ended]).2.filter (fun n => ! n.isSendFailure) =
        [.message close, .framingError .pool (.malformed .body),
          .closed (some (.transport (.corrupt (.reservedFlags 2))))] := by
  intro close f g bad
  have hf : ∀ h ∈ [f, g], h.payload.length ≤ maxFragmentPayload := by decide
  have hbad : (⟨bad⟩ : Decoder).next = .corrupt (.reservedFlags 2) := rfl
  have hdrain : (⟨f.record ++ (g.record ++ bad)⟩ : Decoder).drain =
      ([f, g], .corrupt (.reservedFlags 2) ⟨bad⟩) := by
    have h := Decoder.drain_records hf bad
    rw [Decoder.drain_of_corrupt hbad, List.append_nil] at h
    simpa using h
  have hdecode : Message.decode .pool close.encode = .ok close :=
    Message.decode_encode close ⟨rfl, by decide⟩
  have hnews : inboundNews 48 (f.record ++ (g.record ++ bad)) =
      [.message close, .framingError .pool (.malformed .body)] := by
    have hfed : (Reassembler.new 48).outcomes [f, g] =
        [(f, .complete close.encode), (g, .complete [])] := rfl
    rw [inboundNews, hdrain]
    dsimp only
    rw [hfed, List.flatMap_cons, Reassembler.Outcome.notices, hdecode]
    rfl
  have hcontent : Arrival.content [.bytes (f.record ++ g.record.take 9),
      .bytes (g.record.drop 9 ++ bad.take 7), .bytes (bad.drop 7), .ended] =
      (f.record ++ (g.record ++ bad), some .finished) := by
    have hcut : g.record.take 9 ++ (g.record.drop 9 ++ bad) = g.record ++ bad := by
      rw [← List.append_assoc, List.take_append_drop]
    simp [Arrival.content, hcut]
  obtain ⟨c, hc⟩ : ∃ c, Connection.start 64 48 {} = .ok c := ⟨_, rfl⟩
  have h := (dispatch_of_chunks 48).2.2 64 {} c hc
    [.arrive (.bytes (f.record ++ g.record.take 9)),
      .arrive (.bytes (g.record.drop 9 ++ bad.take 7)), .send close, .arrive (.bytes (bad.drop 7)),
      .arrive .ended] (by
        intro e he
        simp only [List.mem_cons, List.not_mem_nil, or_false] at he
        rcases he with rfl | rfl | rfl | rfl | rfl <;> rfl)
    (by
      refine ⟨fun h => ?_, fun h => ?_, fun h => ?_, fun h => ?_, fun h => ?_, trivial⟩ <;>
        cases h)
  dsimp only [Connection.arrivals, List.filterMap] at h
  rw [hcontent, hnews, hdrain] at h
  exact ⟨c, hc, h⟩

end Runspace
