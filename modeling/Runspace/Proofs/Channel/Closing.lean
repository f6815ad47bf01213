import Runspace.Proofs.Channel.Dispatch
import Runspace.Proofs.Wire.Delivery

/-!
# Closing — what a handler is told of the end of a channel

A handler is told of the end at most once, and not at all when the connection was shut down before.
An end that the receiver has found comes after everything inbound. A failed write stops the writer
alone, and what arrives after it is still told.

* `Notice.isInbound`, `Notice.Precedes`: what may follow a notice;
* `Brings`, `step_brings`: what a step brings before the handler;
* **`run_precedes`**: any two notices of a run are in order;
* **`closed_of_run`**: the single end of a run and what comes after it;
* `Candid`, **`told_of_deaf`**: a connection that accepts no more messages has told of its end.
-/

namespace Runspace

/-! ## Orders of notices -/

/-- Whether a notice is about something that has arrived. -/
def Notice.isInbound : Notice → Bool
  | .message _ | .framingError _ _ => true
  | _ => false

/-- Whether a notice may be told some time after another: there is no second end, and nothing
inbound after an end unless that was a failed write. -/
def Notice.Precedes (n m : Notice) : Prop :=
  n.isEnd = true → m.isEnd = false ∧ (n.isOutbound = false → m.isInbound = false)

namespace Notice

variable {ns : List Notice}

theorem isInbound_of_isOutbound {n : Notice} (h : n.isOutbound = true) : n.isInbound = false := by
  cases n with
  | message | framingError => cases h
  | sendFailed | closed => rfl

/-- Only the last of some notices need be looked at if no other is an end. -/
theorem pairwise_precedes (hns : ∀ n ∈ ns, n.isEnd = false) (last : List Notice)
    (hlast : last.length ≤ 1) : (ns ++ last).Pairwise Precedes := by
  induction ns with
  | nil =>
    match last, hlast with
    | [], _ => exact .nil
    | [n], _ => exact List.pairwise_singleton _ n
  | cons n ns ih =>
    refine List.pairwise_cons.2 ⟨?_, ih fun m hm => hns m (List.mem_cons_of_mem _ hm)⟩
    intro m _ hend
    cases (hns n List.mem_cons_self).symm.trans hend

theorem countP_isEnd_le (h : ns.Pairwise Precedes) : ns.countP isEnd ≤ 1 := by
  induction h with
  | nil => exact Nat.zero_le 1
  | @cons n ns hn _ ih =>
    by_cases hend : n.isEnd = true
    · have hrest : ns.countP isEnd = 0 :=
        List.countP_eq_zero.2 fun m hm => by rw [(hn m hm hend).1]; decide
      rw [List.countP_cons_of_pos hend, hrest]
    · rw [List.countP_cons_of_neg hend]
      exact ih

end Notice

/-! ## Receivers -/

namespace Receiver

variable {r : Receiver}

/-- An end is the last thing that a receiver tells of an arrival, and then it has stopped. -/
theorem arrive_cases (hr : r.isReceiving = true) (a : Arrival) :
    (∀ n ∈ (r.arrive true a).2, n.isEnd = false) ∨
      (r.arrive true a).1.isReceiving = false ∧
        ∃ ns fault, (r.arrive true a).2 = ns ++ [.closed fault] ∧ ∀ n ∈ ns, n.isEnd = false := by
  unfold arrive
  split
  · exact .inl fun n hn => by cases hn
  · generalize r.source.take a = taken
    obtain ⟨chunks, source⟩ := taken
    dsimp only
    split
    · rcases tells_takeChunks (r := { r with source }) hr chunks with ⟨-, -, hns⟩ | hstop
      · exact .inl hns
      · exact .inr hstop
    · rw [takeEnd, if_pos hr]
      exact .inr ⟨rfl, [], _, rfl, fun n hn => by cases hn⟩

theorem arrive_record (limit : Nat) {f : Fragment} (hf : f.payload.length ≤ maxFragmentPayload) :
    (({ reassembler := .new limit } : Receiver).arrive true (.bytes f.record)).2 =
      ((Reassembler.new limit).notices f).2 := by
  have hempty : (⟨[]⟩ : Decoder).drain = ([], .incomplete ⟨[]⟩) := Decoder.drain_of_incomplete rfl
  have hdrain : (⟨f.record⟩ : Decoder).drain = ([f], .incomplete ⟨[]⟩) := by
    have hall : ∀ g ∈ [f], g.payload.length ≤ maxFragmentPayload := fun g hg =>
      List.mem_singleton.1 hg ▸ hf
    have h := Decoder.drain_records hall []
    rw [hempty] at h
    simpa using h
  obtain ⟨htold, -, hdrained⟩ := expected_arrive (r := { reassembler := .new limit }) rfl rfl hempty
    (.bytes f.record) []
  have hcontent : Arrival.content [.bytes f.record] = (f.record, none) := by
    simp [Arrival.content]
  rw [hcontent, Arrival.content, expected_nothing hdrained, List.append_nil, expected_new,
    inboundNews, ← Reassembler.allNotices_eq, hdrain] at htold
  rw [← htold]
  simp [Reassembler.allNotices, endNotices, Decoder.Stop.verdict]

end Receiver

/-! ## Telling -/

namespace Connection

section Tell

variable {c : Connection} {ns : List Notice}

theorem tell_of_not_hasHandler (hc : c.hasHandler = false) (ns : List Notice) :
    (c.tell ns).2 = [] := by
  induction ns generalizing c with
  | nil => rfl
  | cons n ns ih =>
    rw [tell_cons]
    split
    · exact ih hc
    · show (if c.hasHandler = true then _ else _) = []
      rw [if_neg (by rw [hc]; decide)]
      exact ih (c := { c with isEndSettled := _ }) hc

theorem tell_of_settled (hs : c.isEndSettled = true) (ns : List Notice) :
    (c.tell ns).1.isEndSettled = true ∧ ∀ n ∈ (c.tell ns).2, n.isEnd = false := by
  induction ns generalizing c with
  | nil => exact ⟨hs, fun n hn => by cases hn⟩
  | cons n ns ih =>
    rw [tell_cons, hs, Bool.and_true]
    by_cases hend : n.isEnd = true
    · rw [if_pos hend]
      exact ih hs
    · obtain ⟨hset, hrest⟩ := ih (c := { c with isEndSettled := n.isEnd || true }) (Bool.or_true _)
      rw [if_neg hend]
      refine ⟨hset, fun m hm => ?_⟩
      dsimp only at hm
      split at hm
      · rcases List.mem_cons.1 hm with rfl | hm
        · exact Bool.not_eq_true _ ▸ hend
        · exact hrest m hm
      · exact hrest m hm

theorem settled_of_tell (ns : List Notice) {n : Notice} (hn : n ∈ (c.tell ns).2)
    (hend : n.isEnd = true) : (c.tell ns).1.isEndSettled = true := by
  by_cases hs : c.isEndSettled = true
  · exact (tell_of_settled hs ns).1
  induction ns generalizing c with
  | nil => cases hn
  | cons m ns ih =>
    rw [tell_cons, eq_false_of_ne_true hs, Bool.and_false, if_neg Bool.false_ne_true,
      Bool.or_false] at hn ⊢
    by_cases hm : m.isEnd = true
    · exact (tell_of_settled (c := { c with isEndSettled := _ }) hm ns).1
    · have hnot : ¬ ({ c with isEndSettled := m.isEnd } : Connection).isEndSettled = true := hm
      refine ih ?_ hnot
      dsimp only at hn
      split at hn
      · rcases List.mem_cons.1 hn with rfl | hn
        · exact absurd hend hm
        · exact hn
      · exact hn

end Tell

/-! ## Steps -/

/-- Whether an event tells the writer to stop. -/
def Event.isStop : Event → Bool
  | .shutDown | .release => true
  | _ => false

/-- What a step of a connection brings before the handler, at the connection that tells it: an end
comes last, and one that the receiver has found has stopped it. -/
structure Brings (c d : Connection) (ns : List Notice) : Prop where
  settled : c.isEndSettled = true → d.isEndSettled = true
  stopped : c.receiver.isReceiving = false →
    d.receiver.isReceiving = false ∧ ∀ n ∈ ns, n.isInbound = false
  order : d.hasHandler = true → ns.Pairwise Notice.Precedes
  last : d.hasHandler = true → ∀ n ∈ ns, n.isEnd = true → n.isOutbound = false →
    d.receiver.isReceiving = false

section Steps

variable {c d : Connection} {ns : List Notice}

theorem brings_nil (hs : c.isEndSettled = true → d.isEndSettled = true)
    (hr : c.receiver.isReceiving = false → d.receiver.isReceiving = false) : Brings c d [] where
  settled := hs
  stopped h := ⟨hr h, fun n hn => by cases hn⟩
  order _ := .nil
  last _ n hn := by cases hn

theorem isEndSettled_endShutDown (c : Connection) :
    c.endShutDown.isEndSettled = c.isEndSettled := by
  obtain ⟨r, hr⟩ := endShutDown_eq c
  rw [hr]

theorem isReceiving_endShutDown (h : c.receiver.isReceiving = false) :
    c.endShutDown.receiver.isReceiving = false := by
  unfold endShutDown
  split
  · rfl
  · exact h

theorem brings_turn {w : Writer} (ht : c.writer.turn? = some (w, ns)) :
    Brings c ({ c with writer := w } : Connection).endShutDown ns where
  settled h := (isEndSettled_endShutDown _).trans h
  stopped h := ⟨isReceiving_endShutDown h, fun n hn =>
    Notice.isInbound_of_isOutbound ((Writer.turn_of_turn? ht).news hn)⟩
  order _ := by
    have hnone : ∀ n ∈ ([] : List Notice), n.isEnd = false := fun n hn => by cases hn
    exact Notice.pairwise_precedes hnone ns (Writer.turn_of_turn? ht).length_le
  last _ n hn _ hin := by cases ((Writer.turn_of_turn? ht).news hn).symm.trans hin

theorem brings_arrive (c : Connection) (a : Arrival) :
    Brings c { c with receiver := (c.receiver.arrive c.hasHandler a).1 }
      (c.receiver.arrive c.hasHandler a).2 where
  settled h := h
  stopped h := by
    obtain ⟨hstop, hnone⟩ := Receiver.arrive_of_stopped h c.hasHandler a
    exact ⟨hstop, fun n hn => by rw [hnone] at hn; cases hn⟩
  order hh := by
    have hc : c.hasHandler = true := hh
    rw [hc]
    by_cases hr : c.receiver.isReceiving = true
    · rcases Receiver.arrive_cases hr a with hns | ⟨-, ns, fault, heq, hns⟩
      · rw [← List.append_nil (Receiver.arrive _ _ _).2]
        exact Notice.pairwise_precedes hns [] (by decide)
      · rw [heq]
        exact Notice.pairwise_precedes hns _ (Nat.le_refl 1)
    · rw [(Receiver.arrive_of_stopped (eq_false_of_ne_true hr) true a).2]
      exact .nil
  last hh n hn hend _ := by
    have hc : c.hasHandler = true := hh
    rw [hc] at hn ⊢
    by_cases hr : c.receiver.isReceiving = true
    · rcases Receiver.arrive_cases hr a with hns | ⟨hstop, -⟩
      · cases (hns n hn).symm.trans hend
      · exact hstop
    · exact (Receiver.arrive_of_stopped (eq_false_of_ne_true hr) true a).1

/-- **Every step tells what it brings.** -/
theorem step_brings (c : Connection) (e : Event) :
    ∃ d ns, c.step e = d.tell ns ∧ Brings c d ns := by
  cases e with
  | send m =>
    refine ⟨(c.send m).1, [], rfl, ?_⟩
    unfold send
    split <;> exact brings_nil (fun h => h) fun h => h
  | shutDown =>
    refine ⟨c.shutDown, [], rfl, ?_⟩
    unfold shutDown
    split
    · exact brings_nil (fun _ => isEndSettled_endShutDown _) fun h => isReceiving_endShutDown h
    · exact brings_nil (fun h => h) fun h => h
  | release =>
    refine ⟨c.release, [], rfl, ?_⟩
    unfold release
    split <;> exact brings_nil (fun h => h) fun h => h
  | dropHandler => exact ⟨c.dropHandler, [], rfl, brings_nil (fun h => h) fun h => h⟩
  | conduct conduct => exact ⟨c.conduct conduct, [], rfl, brings_nil (fun h => h) fun h => h⟩
  | turn =>
    cases ht : c.writer.turn? with
    | none => exact ⟨c, [], step_turn_of_none ht, brings_nil (fun h => h) fun h => h⟩
    | some result => exact ⟨_, result.2, step_turn ht, brings_turn ht⟩
  | arrive a => exact ⟨_, _, step_arrive c a, brings_arrive c a⟩

theorem step_of_settled (hs : c.isEndSettled = true) (e : Event) :
    (c.step e).1.isEndSettled = true ∧ ∀ n ∈ (c.step e).2, n.isEnd = false := by
  obtain ⟨d, ns, heq, hd⟩ := step_brings c e
  rw [heq]
  exact tell_of_settled (hd.settled hs) ns

theorem step_of_stopped (hr : c.receiver.isReceiving = false) (e : Event) :
    (c.step e).1.receiver.isReceiving = false ∧ ∀ n ∈ (c.step e).2, n.isInbound = false := by
  obtain ⟨d, ns, heq, hd⟩ := step_brings c e
  obtain ⟨b, hb⟩ := tell_fst d ns
  obtain ⟨hstop, hns⟩ := hd.stopped hr
  rw [heq]
  refine ⟨?_, fun n hn => hns n ((tell_sublist d ns).subset hn)⟩
  rw [hb]
  exact hstop

/-- What one step tells is in order; an end that it tells is settled then, and the receiver has
stopped unless that end was a failed write. -/
theorem step_precedes (c : Connection) (e : Event) :
    (c.step e).2.Pairwise Notice.Precedes ∧
      ∀ n ∈ (c.step e).2, n.isEnd = true → (c.step e).1.isEndSettled = true ∧
        (n.isOutbound = false → (c.step e).1.receiver.isReceiving = false) := by
  obtain ⟨d, ns, heq, hd⟩ := step_brings c e
  obtain ⟨b, hb⟩ := tell_fst d ns
  rw [heq]
  by_cases hh : d.hasHandler = true
  · refine ⟨(hd.order hh).sublist (tell_sublist d ns), fun n hn hend => ?_⟩
    refine ⟨settled_of_tell ns hn hend, fun hin => ?_⟩
    rw [hb]
    exact hd.last hh n ((tell_sublist d ns).subset hn) hend hin
  · rw [tell_of_not_hasHandler (eq_false_of_ne_true hh)]
    exact ⟨.nil, fun n hn => by cases hn⟩

end Steps

/-! ## Runs -/

section Runs

variable {c : Connection}

theorem run_of_settled (hs : c.isEndSettled = true) (events : List Event) :
    ∀ n ∈ (c.run events).2, n.isEnd = false :=
  (run_induction (P := fun d => d.isEndSettled = true) (fun _ e _ hd => step_of_settled hd e) hs).2

theorem run_of_stopped (hr : c.receiver.isReceiving = false) (events : List Event) :
    ∀ n ∈ (c.run events).2, n.isInbound = false :=
  (run_induction (P := fun d => d.receiver.isReceiving = false)
    (fun _ e _ hd => step_of_stopped hd e) hr).2

/-- **Whatever a handler is told is told in order.** -/
theorem run_precedes (c : Connection) (events : List Event) :
    (c.run events).2.Pairwise Notice.Precedes := by
  induction events generalizing c with
  | nil => exact .nil
  | cons e events ih =>
    obtain ⟨hnow, hlast⟩ := step_precedes c e
    rw [run_cons]
    refine List.pairwise_append.2 ⟨hnow, ih _, fun n hn m hm hend => ?_⟩
    obtain ⟨hset, hstop⟩ := hlast n hn hend
    exact ⟨run_of_settled hset events m hm, fun hin => run_of_stopped (hstop hin) events m hm⟩

theorem isHeld_step (h : c.isHeld = true) {e : Event} (he : e.isStop = false) :
    (c.step e).1.isHeld = true := by
  cases e with
  | send m =>
    show (c.send m).1.isHeld = true
    unfold send
    split <;> exact h
  | shutDown | release => cases he
  | dropHandler | conduct => exact h
  | turn =>
    cases ht : c.writer.turn? with
    | none =>
      rw [step_turn_of_none ht]
      exact h
    | some result =>
      obtain ⟨r, b, hb⟩ := step_turn_fst ht
      rw [hb]
      exact h
  | arrive a =>
    obtain ⟨b, hb⟩ := tell_fst { c with receiver := (c.receiver.arrive c.hasHandler a).1 }
      (c.receiver.arrive c.hasHandler a).2
    rw [step_arrive, hb]
    exact h

theorem isEndSettled_shutDown (h : c.isHeld = true) : c.shutDown.isEndSettled = true := by
  rw [shutDown, if_pos h]
  exact isEndSettled_endShutDown _

theorem settled_of_shutDown (hc : c.isHeld = true) {before : List Event} (he : .release ∉ before) :
    ((c.run before).1.step .shutDown).1.isEndSettled = true := by
  have hrun : (c.run before).1.isHeld = true ∨ (c.run before).1.isEndSettled = true := by
    refine (run_induction (P := fun d => d.isHeld = true ∨ d.isEndSettled = true)
      (Q := fun _ => True) (fun d e hmem hd => ⟨?_, fun _ _ => trivial⟩) (.inl hc)).1
    rcases hd with hd | hd
    · cases e with
      | shutDown => exact .inr (isEndSettled_shutDown hd)
      | release => exact absurd hmem he
      | _ => exact .inl (isHeld_step hd rfl)
    · exact .inr (step_of_settled hd e).1
  rcases hrun with hrun | hrun
  · exact isEndSettled_shutDown hrun
  · exact (step_of_settled hrun .shutDown).1

end Runs

/-- **What a handler is told of the end, in any run of a connection.**

Whatever is queued, written, received or refused, and however the writes go, it is told of an end
once at most. If the connection is shut down before it was told, it is not told at all; a connection
that was let go cannot be shut down any more. And once it was told of an end that was no failed
write, it is told of nothing more that has arrived. -/
theorem closed_of_run {size limit : Nat} {sink : Sink} {c : Connection}
    (hc : start size limit sink = .ok c) (events : List Event) :
    let heard := (c.run events).2
    heard.countP Notice.isEnd ≤ 1 ∧
      (∀ before after, events = before ++ .shutDown :: after → .release ∉ before →
        (∀ n ∈ (c.run before).2, n.isEnd = false) → ∀ n ∈ heard, n.isEnd = false) ∧
      ∀ before fault after, heard = before ++ .closed fault :: after →
        (Notice.closed fault).isOutbound = false → ∀ n ∈ after, n.isInbound = false := by
  intro heard
  have horder : heard.Pairwise Notice.Precedes := run_precedes c events
  refine ⟨Notice.countP_isEnd_le horder, ?_, ?_⟩
  · intro before after hev hrelease hbefore n hn
    have hheld : c.isHeld = true := by
      unfold start at hc
      split at hc <;> cases hc
      rfl
    have hset := settled_of_shutDown hheld hrelease
    have hheard : heard = (c.run before).2 ++ ((c.run before).1.run (.shutDown :: after)).2 := by
      show (c.run events).2 = _
      rw [hev, run_append]
    rw [hheard] at hn
    rcases List.mem_append.1 hn with hn | hn
    · exact hbefore n hn
    · -- the shutdown itself tells nothing
      exact run_of_settled hset after n hn
  · intro before fault after hheard hin n hn
    rw [hheard] at horder
    have hlast := (List.pairwise_append.1 horder).2.1
    exact ((List.pairwise_cons.1 hlast).1 n hn rfl).2 hin

/-- The other side ends the channel, and then a write fails and a message arrives: of both nothing
is told. -/
theorem closed_of_run_ended :
    let close : Message := .toPool .closePool
    let sink : Sink := { conduct := { failAfter := some 0 } }
    let record := Fragment.record ⟨0, 0, .pool, true, close.encode⟩
    ∃ c, start 64 48 sink = .ok c ∧
      ∃ later, (c.run [.arrive .ended, .send close, .turn, .arrive (.bytes record)]).2 =
          .closed none :: later ∧
        ∀ n ∈ later, n.isEnd = false ∧ n.isInbound = false := by
  intro close sink record
  obtain ⟨c, hc⟩ : ∃ c, start 64 48 sink = .ok c := ⟨_, rfl⟩
  obtain ⟨hcount, -, hlast⟩ := closed_of_run hc
    [.arrive .ended, .send close, .turn, .arrive (.bytes record)]
  obtain ⟨later, hheard⟩ : ∃ later,
      (c.run [.arrive .ended, .send close, .turn, .arrive (.bytes record)]).2 =
        .closed none :: later := by
    cases hc
    exact ⟨_, rfl⟩
  refine ⟨c, hc, later, hheard, fun n hn => ⟨?_, hlast [] none later hheard rfl n hn⟩⟩
  rw [hheard, List.countP_cons_of_pos rfl] at hcount
  have hzero : later.countP Notice.isEnd = 0 := by omega
  exact Bool.not_eq_true _ ▸ List.countP_eq_zero.1 hzero n hn

theorem arrive_message {c : Connection} {limit : Nat} {m : Message} (hc : c.hasHandler = true)
    (hr : c.receiver = { reassembler := .new limit })
    (hm : Message.decode m.target m.encode = .ok m) (hlen : m.encode.length ≤ maxFragmentPayload)
    (hfeed : ((Reassembler.new limit).feed ⟨0, 0, m.target, true, m.encode⟩).1 =
      .complete m.encode) :
    (c.arrive (.bytes (Fragment.record ⟨0, 0, m.target, true, m.encode⟩))).2 = [.message m] := by
  have hnews : (({ reassembler := .new limit } : Receiver).arrive true
      (.bytes (Fragment.record ⟨0, 0, m.target, true, m.encode⟩))).2 = [.message m] := by
    rw [Receiver.arrive_record limit hlen, Reassembler.notices_eq, hfeed]
    simp only [Reassembler.Outcome.notices, hm]
  change (c.step (.arrive _)).2 = _
  rw [step_arrive, hc, hr, hnews]
  have hopen : ∀ n ∈ [Notice.message m], n.isEnd = false := fun n hn =>
    List.mem_singleton.1 hn ▸ rfl
  exact congrArg Prod.snd (tell_of_open rfl hopen)

theorem sendFragments_broken {s : Sink} (hs : s.conduct.failAfter = some 0)
    (objectId : UInt64) (target : Target) (body : Bytes) (size : Nat) :
    s.sendFragments (splitMessage objectId target body size) =
      (s, some (.write s.conduct.failure)) := by
  obtain ⟨pieces, hsplit, hsome, -⟩ := splitMessage_eq objectId target body size
  rw [hsplit]
  cases pieces with
  | nil => exact absurd rfl hsome
  | cons piece pieces =>
    rw [numberPieces, Sink.sendFragments]
    generalize (⟨objectId, UInt64.ofNat 0, target, pieces.isEmpty, piece⟩ : Fragment) = f
    have hrecord : f.record ≠ [] := List.ne_nil_of_length_pos (by
      rw [f.length_record]
      exact Nat.add_pos_left (by decide) _)
    rw [Sink.send, Sink.writeAll, if_neg hrecord, if_pos hs]

theorem step_turn_broken {c : Connection} {m : Message} {rest : List Message}
    (hhandler : c.hasHandler = true) (hsettled : c.isEndSettled = false)
    (hdown : c.isShuttingDown = false) (hphase : c.writer.phase = .writing)
    (hqueue : c.writer.queue = m :: rest) (hfits : m.encode.length ≤ c.writer.limit)
    (hsink : c.writer.sink.conduct.failAfter = some 0) :
    (c.step .turn).2 = [.closed (some (.transport (.write c.writer.sink.conduct.failure)))] ∧
      (c.step .turn).1.hasHandler = true ∧ (c.step .turn).1.receiver = c.receiver := by
  obtain ⟨w, hturn⟩ : ∃ w, c.writer.turn? =
      some (w, [.closed (some (.transport (.write c.writer.sink.conduct.failure)))]) := by
    rw [Writer.turn?, hphase, hqueue]
    dsimp only
    rw [Writer.write, if_neg (Nat.not_lt.2 hfits)]
    dsimp only [Splitter.push]
    rw [sendFragments_broken hsink]
    exact ⟨_, rfl⟩
  rw [step_turn hturn, endShutDown_of_not (c := { c with writer := w }) hdown]
  have htell := tell_end (c := { c with writer := w }) hhandler hsettled
    (List.forall_mem_nil fun n : Notice => n.isEnd = false)
    (some (.transport (.write c.writer.sink.conduct.failure)))
  rw [List.nil_append] at htell
  rw [htell]
  exact ⟨rfl, hhandler, rfl⟩

/-- A write fails, and then a message arrives, of which the handler is told after the end. -/
theorem message_of_run_broken :
    let close : Message := .toPool .closePool
    let sink : Sink := { conduct := { failAfter := some 0 } }
    let record := Fragment.record ⟨0, 0, .pool, true, close.encode⟩
    ∃ c, start 64 48 sink = .ok c ∧
      (c.run [.send close, .turn, .arrive (.bytes record)]).2 =
        [.closed (some (.transport (.write "broken pipe"))), .message close] := by
  intro close sink record
  obtain ⟨c, d, hc, hd, hhandler, hsettled, hdown, hphase, hqueue, hfits, hsink, hreceiver⟩ :
      ∃ c d, start 64 48 sink = .ok c ∧ c.step (.send close) = (d, []) ∧ d.hasHandler = true ∧
        d.isEndSettled = false ∧ d.isShuttingDown = false ∧ d.writer.phase = .writing ∧
        d.writer.queue = [close] ∧ close.encode.length ≤ d.writer.limit ∧ d.writer.sink = sink ∧
        d.receiver = { reassembler := .new 48 } :=
    ⟨_, _, rfl, rfl, rfl, rfl, rfl, rfl, rfl, by decide, rfl, rfl⟩
  obtain ⟨hend, hhandler', hreceiver'⟩ :=
    step_turn_broken hhandler hsettled hdown hphase hqueue hfits (by rw [hsink])
  have hdecode : Message.decode .pool close.encode = .ok close :=
    Message.decode_encode close ⟨rfl, by decide⟩
  have htold := arrive_message hhandler' (hreceiver'.trans hreceiver) hdecode (by decide) rfl
  refine ⟨c, hc, ?_⟩
  rw [run_cons, hd, run_cons, hend, hsink]
  exact congrArg ([Notice.closed _] ++ ·) ((List.append_nil _).trans htold)

/-! ## Connections that have ended -/

section Candid

variable {c : Connection} {ns told : List Notice} {e : Event}

theorem told_of_settled (hc : c.hasHandler = true) (hs : (c.tell ns).1.isEndSettled = true) :
    c.isEndSettled = true ∨ ∃ f, Notice.closed f ∈ (c.tell ns).2 := by
  induction ns generalizing c with
  | nil => exact .inl hs
  | cons n ns ih =>
    rw [tell_cons] at hs ⊢
    split at hs
    · next hskip =>
      exact .inl (Bool.and_eq_true_iff.1 hskip).2
    · next hskip =>
      rw [if_neg hskip]
      dsimp only at hs ⊢
      rw [if_pos hc]
      rcases ih (c := { c with isEndSettled := n.isEnd || c.isEndSettled }) hc hs with h | ⟨f, hf⟩
      · cases n with
        | closed f => exact .inr ⟨f, List.mem_cons_self⟩
        | _ => exact .inl h
      · exact .inr ⟨f, List.mem_cons_of_mem _ hf⟩

/-- A connection with a handler that nobody has stopped: if it has ended, it has told of that. -/
structure Candid (c : Connection) (told : List Notice) : Prop where
  hasHandler : c.hasHandler = true
  isShuttingDown : c.isShuttingDown = false
  isStopping : c.writer.isStopping = false
  ended : c.isEndSettled = true ∨ c.writer.phase ≠ .writing → ∃ f, Notice.closed f ∈ told

theorem Candid.tell (h : Candid c told) (ns : List Notice) :
    Candid (c.tell ns).1 (told ++ (c.tell ns).2) := by
  obtain ⟨b, hb⟩ := tell_fst c ns
  refine ⟨by rw [hb]; exact h.hasHandler, by rw [hb]; exact h.isShuttingDown,
    by rw [hb]; exact h.isStopping, fun hend => ?_⟩
  have hor : (c.isEndSettled = true ∨ c.writer.phase ≠ .writing) ∨
      ∃ f, Notice.closed f ∈ (c.tell ns).2 := by
    rcases hend with hs | hp
    · exact (told_of_settled h.hasHandler hs).imp_left .inl
    · rw [hb] at hp
      exact .inl (.inr hp)
  rcases hor with hend | ⟨f, hf⟩
  · obtain ⟨f, hf⟩ := h.ended hend
    exact ⟨f, List.mem_append_left _ hf⟩
  · exact ⟨f, List.mem_append_right _ hf⟩

theorem Candid.fail (h : Candid c told) {w : Writer} (hw : w.isStopping = c.writer.isStopping)
    (f : Option Fault) :
    Candid (({ c with writer := w } : Connection).tell [.closed f]).1
      (told ++ (({ c with writer := w } : Connection).tell [.closed f]).2) := by
  have htold : ∃ f', Notice.closed f' ∈
      told ++ (({ c with writer := w } : Connection).tell [.closed f]).2 := by
    by_cases hs : c.isEndSettled = true
    · obtain ⟨f', hf'⟩ := h.ended (.inl hs)
      exact ⟨f', List.mem_append_left _ hf'⟩
    · -- this is the first end that it tells of
      have htell := tell_end (c := { c with writer := w }) h.hasHandler (eq_false_of_ne_true hs)
        (List.forall_mem_nil fun n : Notice => n.isEnd = false) f
      rw [List.nil_append] at htell
      exact ⟨f, List.mem_append_right _ (by rw [htell]; exact List.mem_cons_self)⟩
  obtain ⟨b, hb⟩ := tell_fst ({ c with writer := w } : Connection) [.closed f]
  rw [hb]
  exact ⟨h.hasHandler, h.isShuttingDown, hw.trans h.isStopping, fun _ => htold⟩

theorem Candid.turn (h : Candid c told) :
    Candid (c.step .turn).1 (told ++ (c.step .turn).2) := by
  cases ht : c.writer.turn? with
  | none =>
    rw [step_turn_of_none ht, List.append_nil]
    exact h
  | some next =>
    obtain ⟨w, ns⟩ := next
    rw [step_turn ht, endShutDown_of_not (c := { c with writer := w }) h.isShuttingDown]
    have hgo : w.isStopping = c.writer.isStopping → w.phase = c.writer.phase →
        Candid ({ c with writer := w } : Connection) told := fun hi hp =>
      ⟨h.hasHandler, h.isShuttingDown, hi.trans h.isStopping, fun hend => h.ended (hp ▸ hend)⟩
    cases Writer.turn_of_turn? ht with
    | refuse | write => exact (hgo rfl rfl).tell _
    | close _ _ hs => cases h.isStopping.symm.trans hs
    | stop hp =>
      have hended := h.ended (.inr (by simp [hp]))
      have hstop : Candid ({ c with writer := { c.writer with phase := .stopped } } : Connection)
          told := ⟨h.hasHandler, h.isShuttingDown, h.isStopping, fun _ => hended⟩
      exact hstop.tell _
    | fail => exact h.fail (by rfl) _

theorem Candid.step (h : Candid c told) (he : e.isStop = false) (hd : e ≠ .dropHandler) :
    Candid (c.step e).1 (told ++ (c.step e).2) := by
  cases e with
  | shutDown | release => cases he
  | dropHandler => exact absurd rfl hd
  | turn => exact h.turn
  | arrive a =>
    have harrive : Candid ({ c with receiver := (c.receiver.arrive c.hasHandler a).1 } :
        Connection) told := ⟨h.hasHandler, h.isShuttingDown, h.isStopping, h.ended⟩
    exact harrive.tell _
  | send m =>
    rw [show (c.step (.send m)).2 = [] from rfl, List.append_nil]
    change Candid (c.send m).1 told
    unfold send
    split
    · exact ⟨h.hasHandler, h.isShuttingDown, h.isStopping, h.ended⟩
    · exact h
  | conduct conduct =>
    rw [show (c.step (.conduct conduct)).2 = [] from rfl, List.append_nil]
    exact ⟨h.hasHandler, h.isShuttingDown, h.isStopping, h.ended⟩

theorem Candid.run (h : Candid c told) {events : List Event}
    (he : ∀ e ∈ events, e.isStop = false ∧ e ≠ .dropHandler) :
    Candid (c.run events).1 (told ++ (c.run events).2) := by
  induction events generalizing c told with
  | nil =>
    rw [run, List.append_nil]
    exact h
  | cons e events ih =>
    obtain ⟨hstop, hdrop⟩ := he e List.mem_cons_self
    rw [run_cons, ← List.append_assoc]
    exact ih (h.step hstop hdrop) fun e' he' => he e' (List.mem_cons_of_mem _ he')

/-- **A connection that accepts no more messages has told of its end,** unless somebody has stopped
it or taken its handler away. -/
theorem told_of_deaf {size limit : Nat} {sink : Sink} (hc : start size limit sink = .ok c)
    {events : List Event} (he : ∀ e ∈ events, e.isStop = false ∧ e ≠ .dropHandler)
    (hdeaf : (c.run events).1.isAccepting = false) :
    ∃ f, Notice.closed f ∈ (c.run events).2 := by
  have hnew : Candid c [] := by
    unfold start at hc
    split at hc <;> cases hc
    exact ⟨rfl, rfl, rfl, by simp⟩
  have hrun := hnew.run he
  rw [List.nil_append] at hrun
  refine hrun.ended (.inr fun hp => ?_)
  simp [isAccepting, hp] at hdeaf

end Candid

end Connection

end Runspace
