import Runspace.Proofs.Channel.Writing
import Runspace.Proofs.Message.Sizes
import Runspace.Proofs.Pool.Load

/-!
# Fitting — which messages of a pool can be too large

The bodies that a connection sends are limited in size, and one that is too large is dropped. Where
the request for the pool itself fits, so does all else that the pool says, but for the requests to
run pipelines.

* `Writer.Frames`, `Connection.frames_of_fits`: a message that is not too large is cut and sent;
* **`Connection.refused_of_run`**: a connection refuses only what was queued and is too large;
* **`said_of_run`**: what a pool says on its channels;
* **`fitting_of_run`**: only requests to run pipelines are refused.
-/

namespace Runspace

/-! ## Connections -/

namespace Writer

variable {size limit : Nat} {sink : Sink} {queued rest : List Message} {m : Message}
  {w w' : Writer} {ns : List Notice}

/-- What becomes of the numbers and the sink of a writer that frames a message: it is numbered and
cut, and the fragments are sent, up to the first fault. -/
def Frames (w : Writer) (m : Message) (w' : Writer) : Prop :=
  w'.splitter = (w.splitter.push m.target m.encode).2 ∧
    w'.sink.written = (w.sink.sendFragments (w.splitter.push m.target m.encode).1).1.written

theorem Turn.frames (h : w.Turn w' ns) (hp : w.phase = .writing) (hq : w.queue = m :: rest)
    (hfits : m.encode.length ≤ w.limit) : w.Frames m w' := by
  cases h with
  | refuse _ hq' hlarge =>
    cases hq.symm.trans hq'
    exact absurd hfits (Nat.not_le.2 hlarge)
  | write _ hq' _ hsend | fail _ hq' _ hsend =>
    cases hq.symm.trans hq'
    unfold Frames
    rw [hsend]
    exact ⟨rfl, rfl⟩
  | close _ hq' => cases hq.symm.trans hq'
  | stop hp' => cases hp.symm.trans hp'

theorem turn?_large (hp : w.phase = .writing) (hq : w.queue = m :: rest)
    (hlarge : w.limit < m.encode.length) :
    w.turn? = some ({ w with queue := rest },
      [.sendFailed m.target (.invalidArgument (.messageTooLarge m.encode.length w.limit))]) := by
  obtain ⟨_, splitter, limit, sink, _, isStopping⟩ := w
  cases hp
  cases hq
  exact congrArg some (if_pos hlarge)

theorem Written.refused (h : w.Written size limit sink queued) (ht : w.Turn w' ns) {n : Notice}
    (hn : n ∈ ns) (hf : n.isSendFailure = true) : n ∈ refusals limit queued := by
  cases ht with
  | @refuse m rest hp hq hlarge =>
    have hm : m ∈ queued := h.queue_subset (hq ▸ List.mem_cons_self)
    rw [List.mem_singleton.1 hn, h.limit_eq]
    rw [h.limit_eq] at hlarge
    exact List.mem_map.2 ⟨m, List.mem_filter.2 ⟨hm, decide_eq_true hlarge⟩, rfl⟩
  | fail =>
    rw [List.mem_singleton.1 hn] at hf
    cases hf
  | write | close | stop => cases hn

end Writer

namespace Connection

variable {size limit : Nat} {sink : Sink} {c : Connection} {e : Event} {events : List Event}
  {n : Notice}

theorem frames_of_fits {m : Message} {rest : List Message} (hp : c.writer.phase = .writing)
    (hq : c.writer.queue = m :: rest) (hfits : m.encode.length ≤ c.writer.limit) :
    c.writer.Frames m (c.step .turn).1.writer := by
  obtain ⟨⟨w, ns⟩, ht⟩ : ∃ next, c.writer.turn? = some next := by simp [Writer.turn?, hp, hq]
  obtain ⟨r, b, hstep⟩ := step_turn_fst ht
  rw [hstep]
  exact (Writer.turn_of_turn? ht).frames hp hq hfits

/-- A turn that comes to a message that is too large drops it and tells so. -/
theorem step_turn_large {m : Message} {rest : List Message} (hhandler : c.hasHandler = true)
    (hdown : c.isShuttingDown = false) (hp : c.writer.phase = .writing)
    (hq : c.writer.queue = m :: rest) (hlarge : c.writer.limit < m.encode.length) :
    c.step .turn = ({ c with writer := { c.writer with queue := rest } },
      [.sendFailed m.target (.invalidArgument (.messageTooLarge m.encode.length c.writer.limit))]) := by
  have hend : ({ c with writer := { c.writer with queue := rest } } : Connection).endShutDown = _ :=
    endShutDown_of_not hdown
  rw [step_turn (Writer.turn?_large hp hq hlarge), hend]
  exact tell_of_open hhandler fun n hn => by rw [List.mem_singleton.1 hn]; rfl

theorem turn_of_isSendFailure (hn : n ∈ (c.step e).2) (hf : n.isSendFailure = true) :
    ∃ w ns, c.writer.Turn w ns ∧ n ∈ ns := by
  cases e with
  | turn =>
    cases ht : c.writer.turn? with
    | none =>
      rw [step_turn_of_none ht] at hn
      cases hn
    | some next =>
      obtain ⟨w, ns⟩ := next
      rw [step_turn ht] at hn
      exact ⟨w, ns, Writer.turn_of_turn? ht, (tell_sublist _ _).subset hn⟩
  | arrive a =>
    rw [step_arrive] at hn
    have hinbound := Receiver.news_arrive ((tell_sublist _ _).subset hn)
    rw [Notice.isSendFailure_of_inbound hinbound] at hf
    cases hf
  | send | shutDown | release | dropHandler | conduct => cases hn

/-- **A connection refuses only what was queued and is too large.** -/
theorem refused_of_run (h : c.writer.Written size limit sink []) (hn : n ∈ (c.run events).2)
    (hf : n.isSendFailure = true) : n ∈ refusals limit (queuedBy events) := by
  obtain ⟨before, e, after, rfl, htold⟩ := step_of_mem_run hn
  obtain ⟨w, ns, ht, hnews⟩ := turn_of_isSendFailure htold hf
  have hrefused := (written_run h before).refused ht hnews hf
  rw [queuedBy_append, refusals_append]
  exact List.mem_append_left _ hrefused

end Connection

/-! ## Pools -/

namespace Pool

variable {id : PoolId} {options : PoolOptions} {m : Message} {g : Nat}

theorem isControl_of_isRequest (h : m.isRequest = true) : m.payload.isControl = true ∨
    ∃ i commands, m = .toPipeline i (.createPipeline commands) := by
  unfold Message.isRequest at h
  split at h
  · exact .inl rfl
  · next i commands => exact .inr ⟨i, commands, rfl⟩
  · exact .inl rfl
  · cases h

theorem Greeted.eq_or_isControl {events : List Event} (h : Greeted (new id options) events g m) :
    m = .toPool ((new id options).hello .opening) ∨ m.payload.isControl = true := by
  obtain ⟨before, a, after, -, hwords, -⟩ := h
  cases hwords with
  | opening => exact .inl rfl
  | reconnecting => exact .inr rfl

/-- **What a pool says:** it asks the host for itself, or for a pipeline, or says what is
control. -/
theorem said_of_run (events : List Event) (hm : m ∈ ((new id options).run events).sentOn g) :
    m = .toPool ((new id options).hello .opening) ∨ m.payload.isControl = true ∨
      ∃ i commands, m = .toPipeline i (.createPipeline commands) := by
  have hconv := (conversing_new id options).run (attached_new id options) events
  by_cases hstarted : Effect.started g ∈ ((new id options).run events).outbox
  · have hspoken := hconv.spoken g hstarted
    generalize ((new id options).run events).sentOn g = said at hm hspoken
    cases hspoken with
    | greeted hg =>
      rw [List.mem_singleton.1 hm]
      exact hg.eq_or_isControl.imp_right .inl
    | @answered first body last hg ha hb hl =>
      rcases List.mem_cons.1 hm with rfl | hm
      · exact hg.eq_or_isControl.imp_right .inl
      · rcases List.mem_append.1 hm with hm | hm
        · exact .inr (isControl_of_isRequest (hb m hm))
        · rcases hl with rfl | rfl
          · cases hm
          · rw [List.mem_singleton.1 hm]
            exact .inr (.inl rfl)
  · rw [hconv.silent g hstarted] at hm
    cases hm

/-- **Only requests to run pipelines can be too large.**

Where a request for a pool fits, whatever the pool and its bounds, so does every control message.
Let the request of a pool for itself fit. Then after any events, of what the pool said on any of its
channels only requests to run pipelines are larger than the limit. A connection with that limit on
which some of it is queued tells of no message that could not be sent but of such requests, and
each other message that its writer comes to is numbered, cut and handed to the sink. -/
theorem fitting_of_run (limit : Nat) :
    (∀ (pool : PoolId) (lo hi : UInt32),
      (Message.toPool (.initPool pool lo hi)).encode.length ≤ limit →
      ∀ m : Message, m.payload.isControl = true → m.encode.length ≤ limit) ∧
    ∀ (id : PoolId) (options : PoolOptions),
      (Message.toPool ((new id options).hello .opening)).encode.length ≤ limit →
      ∀ (events : List Event) (g : Nat),
        let said := ((new id options).run events).sentOn g
        (∀ m ∈ said, limit < m.encode.length →
          ∃ i commands, m = .toPipeline i (.createPipeline commands)) ∧
        ∀ (size : Nat) (sink : Sink) (c : Connection) (work : List Connection.Event),
          Connection.start size limit sink = .ok c → Connection.queuedBy work ⊆ said →
          let d := (c.run work).1
          let w := d.writer
          (∀ n ∈ (c.run work).2, n.isSendFailure = true → ∃ i commands,
            let m : Message := .toPipeline i (.createPipeline commands)
            m ∈ Connection.queuedBy work ∧ limit < m.encode.length ∧ n = .sendFailed (.pipeline i)
              (.invalidArgument (.messageTooLarge m.encode.length limit))) ∧
          ∀ (m : Message) (rest : List Message), w.phase = .writing → w.queue = m :: rest →
            m.payload.isCreate = false →
            w.Frames m (d.step .turn).1.writer := by
  have hcontrol (pool : PoolId) (lo hi : UInt32)
      (hfits : (Message.toPool (.initPool pool lo hi)).encode.length ≤ limit) (m : Message)
      (hm : m.payload.isControl = true) : m.encode.length ≤ limit :=
    Nat.le_trans (Message.length_le_of_isControl hm .pool pool lo hi) hfits
  refine ⟨hcontrol, fun id options hfits events g => ?_⟩
  intro said
  have hlarge (m) (hm : m ∈ said) (hsize : limit < m.encode.length) :
      ∃ i commands, m = .toPipeline i (.createPipeline commands) := by
    rcases said_of_run events hm with rfl | hm | hm
    · exact absurd hfits (Nat.not_le.2 hsize)
    · exact absurd (hcontrol _ _ _ hfits m hm) (Nat.not_le.2 hsize)
    · exact hm
  refine ⟨hlarge, fun size sink c work hc hwork => ?_⟩
  intro d w
  have hstart := (Connection.written_start hc).1
  have hw : w.Written size limit sink (Connection.queuedBy work) :=
    Connection.written_run hstart work
  refine ⟨fun n hn hf => ?_, fun m rest hp hq hcreate => ?_⟩
  · obtain ⟨m, hm, rfl⟩ := List.mem_map.1 (Connection.refused_of_run hstart hn hf)
    obtain ⟨hqueued, hsize⟩ := List.mem_filter.1 hm
    obtain ⟨i, commands, rfl⟩ := hlarge m (hwork hqueued) (of_decide_eq_true hsize)
    exact ⟨i, commands, hqueued, of_decide_eq_true hsize, rfl⟩
  · have hqueued : m ∈ Connection.queuedBy work := hw.queue_subset (hq ▸ List.mem_cons_self)
    have hsmall : m.encode.length ≤ w.limit := by
      rw [hw.limit_eq]
      refine Nat.le_of_not_lt fun hsize => ?_
      obtain ⟨i, commands, rfl⟩ := hlarge m (hwork hqueued) hsize
      cases hcreate
    exact Connection.frames_of_fits hp hq hsmall

/-- An opened pool that changes its limit tells the host. -/
theorem step_setMaxRunspaces {p : Pool} {l : Line} {n : Nat} (hn : n ≤ maxWireCount)
    (hm : p.options.minRunspaces ≤ n) (hs : p.state = .opened) (hl : p.readyLine? = some l)
    (ha : l.isAccepting = true) :
    p.step (.setMaxRunspaces n) = ({ p.emit (.queued l.generation
      (.toPool (.setMaxRunspaces (UInt32.ofNat n)))) with limit := n } : Pool).admitQueued := by
  obtain ⟨hline, hready⟩ := readyLine?_eq_some.1 hl
  change (p.setMaxRunspaces n).1 = _
  rw [setMaxRunspaces, wireCount, if_neg (Nat.not_lt.2 hn)]
  dsimp only
  rw [if_neg (Nat.not_lt.2 hm), hs]
  dsimp only
  rw [if_neg (by simp [hl]), send?_of_ready hline hready ha]

/-- In a pool whose request for itself just fits, a script is too large: it is refused, and the
message that stops it is framed. -/
theorem fitting_of_run_script :
    let one : PipelineId := ⟨1, by decide⟩
    let start := new (.ofDraw 0) { maxRunspaces := 2 }
    let script : List Command := List.replicate 5 ⟨"Get-Item", []⟩
    let run : Message := .toPipeline one (.createPipeline script)
    let stop : Message := .toPipeline one .stopPipeline
    let said := (start.run [.beginOpen, .connected .opening,
      .notice 1 (.message (.toPool (.poolState .opened none))), .submit script,
      .setMaxRunspaces 4294967295, .stop one, .beginClose]).sentOn 1
    (Message.toPool (start.hello .opening)).encode.length = 102 ∧ 102 < run.encode.length ∧
      said = [.toPool (start.hello .opening), run, .toPool (.setMaxRunspaces 4294967295), stop,
        .toPool .closePool] ∧
      ∃ c, Connection.start 64 102 {} = .ok c ∧
        let d := c.run [.send run, .send stop, .turn]
        d.2.map Notice.isSendFailure = [true] ∧
          (∀ n ∈ d.2, n.isSendFailure = true → ∃ m ∈ [run, stop], 102 < m.encode.length ∧
            n = .sendFailed m.target (.invalidArgument (.messageTooLarge m.encode.length 102))) ∧
          d.1.writer.Frames stop (d.1.step .turn).1.writer := by
  intro one start script run stop said
  have hhello : (Message.toPool (start.hello .opening)).encode.length = 102 :=
    (Message.length_initPool .pool (.ofDraw 0) 1 2).trans (by decide)
  have hsaid : said = [.toPool (start.hello .opening), run, .toPool (.setMaxRunspaces 4294967295),
    stop, .toPool .closePool] := by
    let before : List Event := [.beginOpen, .connected .opening,
      .notice 1 (.message (.toPool (.poolState .opened none))), .submit script]
    have hset := step_setMaxRunspaces (p := start.run before) (l := ⟨1, true, true⟩)
      (n := 4294967295) (by decide) (by decide) (by decide) (by decide) rfl
    have hrun : said = ((start.run before).run
        [.setMaxRunspaces 4294967295, .stop one, .beginClose]).sentOn 1 := by
      rw [run_run]
      rfl
    rw [hrun, Pool.run, List.foldl_cons, hset]
    simp only [before, start, script, run, stop, one]
    cbv
  have hlarge : 102 < run.encode.length := by decide +kernel
  obtain ⟨c, d, hc, hd, hhandler, hdown, hphase, hqueue, hlimit⟩ :
      ∃ c d, Connection.start 64 102 {} = .ok c ∧ c.run [.send run, .send stop] = (d, []) ∧
        d.hasHandler = true ∧ d.isShuttingDown = false ∧ d.writer.phase = .writing ∧
        d.writer.queue = [run, stop] ∧ d.writer.limit = 102 :=
    ⟨_, _, rfl, rfl, rfl, rfl, rfl, rfl, rfl⟩
  have hturn := Connection.step_turn_large hhandler hdown hphase hqueue (hlimit ▸ hlarge)
  have hrun : c.run [.send run, .send stop, .turn] = d.step .turn := by
    change c.run ([.send run, .send stop] ++ [.turn]) = _
    rw [Connection.run_append, hd, Connection.run_cons, hturn]
    rfl
  obtain ⟨-, hconn⟩ := (fitting_of_run 102).2 (.ofDraw 0) { maxRunspaces := 2 }
    (Nat.le_of_eq hhello) _ 1
  obtain ⟨hnews, hframes⟩ := hconn 64 {} c [.send run, .send stop, .turn] hc (by
    change [run, stop] ⊆ said
    rw [hsaid]
    simp)
  refine ⟨hhello, hlarge, hsaid, c, hc, ?_, fun n hn hf => ?_, ?_⟩
  · rw [hrun, hturn]
    rfl
  · obtain ⟨i, commands, hm, hsize, hn⟩ := hnews n hn hf
    exact ⟨_, hm, hsize, hn⟩
  · refine hframes stop [] ?_ ?_ rfl
    · rw [hrun, hturn]
      exact hphase
    · rw [hrun, hturn]

end Pool

end Runspace
