import Zhengqi.ConnectionLoopSound
import Zhengqi.EventLoopSound
import Zhengqi.OutputSound
import Zhengqi.SendThreads

/-!
# Messages from several threads

`send(Buffer *)` can be called in any thread; `send(const StringPiece &)` aborts the
process when it is called on a connected connection in a thread that is not the loop's.
Where it is not, every message reaches the output stream whole, and the messages of one
thread in the order of its calls.
-/

namespace Zhengqi

open Run

/-! ## The stream under the steps of the connection -/

namespace World

section
variable {P : Type}

structure Streams (w : World P) : Prop where
  wf : w.conn.outputBuffer.WF
  stream : wire w.effects ++ w.conn.outputBuffer.readable = sent w.effects

theorem shutdown_effects (w : World P) :
    wire w.shutdown.effects = wire w.effects ∧ sent w.shutdown.effects = sent w.effects ∧
    w.shutdown.conn.outputBuffer = w.conn.outputBuffer := by
  unfold World.shutdown
  split
  · unfold World.shutdownInLoop
    split <;> simp [log, setState, wire, sent]
  · exact ⟨rfl, rfl, rfl⟩

theorem Streams.drops [Poller P] {w : World P} (h : w.Streams) {m : Bytes} {r : WriteResult}
    (hd : w.drops m r = true) :
    ∃ v, w.sendInLoop m r = .ok v ∧ wire v.effects ++ v.conn.outputBuffer.readable ≠ sent w.effects ++ m := by
  simp only [World.drops, Bool.and_eq_true, decide_eq_true_eq] at hd
  obtain ⟨⟨hi, hr⟩, hm⟩ := hd
  cases r with
  | room n => cases hr
  | error e =>
    have he : e.isFault = true := by simpa [WriteResult.intact] using hr
    have hb : w.conn.outputBuffer.readableBytes = 0 := h.wf.readableBytes_eq_zero.mpr hi.2
    refine ⟨(w.log (.sendInLoop m)).log (.write m (.error e)), ?_, ?_⟩
    · simp [sendInLoop, tryWrite, log, hi.1, hb, writeDirect, WriteResult.wrote, he]
    · have hw : wire w.effects = sent w.effects := by simpa [hi.2] using h.stream
      change wire (w.effects ++ [.sendInLoop m] ++ [.write m (.error e)]) ++ w.conn.outputBuffer.readable ≠ _
      rw [hi.2, wire_append, wire_append, hw]
      simpa [wire, WriteResult.taken] using hm

end

section
variable {P : Type} [Poller P] [LawfulPoller P] {w v : World P}

omit [LawfulPoller P] in
theorem Streams.send (h : w.Streams) {m : Bytes} {r : WriteResult} (hd : w.drops m r = false)
    (hs : w.sendInLoop m r = .ok v) : v.Streams ∧ sent v.effects = sent w.effects ++ m := by
  have hs := sendInLoop_inv h.wf hs
  refine ⟨⟨hs.wf, hs.stream hd h.stream⟩, ?_⟩
  rw [hs.effects, sent_append, sent_sendEffects]

theorem Streams.step (h : w.Streams) {l : Label} (hl : l.isSend = false) (hs : w.step l = .ok v) :
    v.Streams ∧ sent v.effects = sent w.effects := by
  cases step_out h.wf hs with
  | sendPiece => cases hl
  | sendBuffer => cases hl
  | flush ha ht hf =>
    refine ⟨⟨hf.wf, hf.stream h.stream⟩, ?_⟩
    rw [hf.effects, sent_append, sent_flushEffects, List.append_nil]
  | shutdown hc =>
    obtain ⟨hw, hsn, hb⟩ := w.shutdown_effects
    exact ⟨⟨hb ▸ h.wf, by rw [hw, hsn, hb]; exact h.stream⟩, hsn⟩
  | keep hk =>
    obtain ⟨es, he, hes⟩ := hk.effects
    have hsn : sent v.effects = sent w.effects := by rw [he, sent_append, sent_of_not_output hes, List.append_nil]
    refine ⟨⟨hk.buffer ▸ h.wf, ?_⟩, hsn⟩
    rw [hsn, hk.buffer, he, wire_append, wire_of_not_output hes, List.append_nil]
    exact h.stream

end

end World

/-! ## The queue of the loop -/

namespace EventLoop

variable {φ : Type} {s t : EventLoop φ} {l : LoopLabel φ}

theorem step_stops (s : EventLoop φ) (l : LoopLabel φ) : Stops (· ≠ .abortNotInLoopThread) (s.step l) := by
  cases l with
  | loop => exact Stops.ite (fun _ => Stops.ok _) fun _ => check_stops (fun _ => by simp) fun _ => Stops.ok _
  | _ => exact Stops.ok _

theorem step_history (hs : s.step l = .ok t) (hq : l.queues = false) :
    t.threadId = s.threadId ∧ t.enqueued = s.enqueued ∧ t.executed = s.executed ++ (s.callee l).toList := by
  cases l with
  | queueInLoop thread cb => cases hq
  | loop =>
    rcases ite_ok hs with ⟨-, hs⟩ | ⟨-, hs⟩
    · cases hs
      simp [callee]
    · obtain ⟨_, -, hs⟩ := bind_ok.mp hs
      cases hs
      simp [callee]
  | advance wakeup =>
    cases hs
    by_cases ho : s.threadId ∈ s.queueing
    · simp [callee, ho]
    · simp only [if_neg ho, callee, EventLoop.advance]
      split
      case h_2 => unfold EventLoop.test; split <;> simp [*]
      all_goals simp_all [poll, EventLoop.handleRead, doPendingFunctors, swap, runFunctor, endFunctors]
  | _ =>
    cases hs
    split <;> simp [callee, setQuit, EventLoop.wakeup]

end EventLoop

/-! ## What a step does -/

namespace Senders

variable {P : Type} [Poller P] {s t : Senders P} {st : SendStep} {m : Message} {r : WriteResult}

/-- What a step does before it executes `sendInLoop` of the message in the loop's thread. -/
inductive Starts (s : Senders P) (m : Message) : Senders P → Prop
  | direct (hm : m.thread = s.loop.threadId) : Starts s m { s with called := s.called ++ [m] }
  | functor {l : LoopLabel Message} {loop : EventLoop Message} (hl : s.loop.step l = .ok loop)
      (hc : s.loop.callee l = some m) (hq : l.queues = false) : Starts s m { s with loop }

/-- What a step does that does not execute `sendInLoop`. -/
inductive Passes (s : Senders P) : Senders P → Prop
  | idle : Passes s s
  | queued {m : Message} (hm : m.thread ≠ s.loop.threadId) :
      Passes s { s with called := s.called ++ [m], loop := s.loop.queueInLoop m.thread m }
  | loop {l : LoopLabel Message} {loop : EventLoop Message} (hl : s.loop.step l = .ok loop)
      (hc : s.loop.callee l = none) (hq : l.queues = false) : Passes s { s with loop }
  | connection {l : Label} {world : World P} (hl : l.isSend = false) (hw : s.world.step l = .ok world) :
      Passes s { s with world }

theorem sending_step (h : s.sending st = some (m, r)) :
    ∃ u, Starts s m u ∧ s.step st = u.sendInLoop u.loop.threadId m r := by
  cases st with
  | sendPiece m r =>
    simp only [sending, Option.ite_none_right_eq_some, Bool.and_eq_true] at h
    obtain ⟨⟨hs, hin⟩, h⟩ := h
    cases h
    have hm : m.thread = s.loop.threadId := of_decide_eq_true hin
    refine ⟨_, .direct hm, ?_⟩
    change _ = Senders.sendInLoop _ s.loop.threadId m r
    rw [← hm]
    simp only [step, hs, if_true, sendPiece, runInLoop, hin, ite_self]
  | sendBuffer m r =>
    simp only [sending, Option.ite_none_right_eq_some, Bool.and_eq_true, decide_eq_true_eq] at h
    obtain ⟨⟨⟨hs, hc⟩, hin⟩, h⟩ := h
    cases h
    have hm : m.thread = s.loop.threadId := of_decide_eq_true hin
    refine ⟨_, .direct hm, ?_⟩
    change _ = Senders.sendInLoop _ s.loop.threadId m r
    rw [← hm]
    simp only [step, hs, if_true, sendBuffer, hc, hin]
  | loop l r =>
    simp only [sending, Option.ite_none_right_eq_some, Option.map_eq_some_iff] at h
    obtain ⟨ha, m, hc, h⟩ := h
    cases h
    cases l with
    | advance wakeup =>
      have hl : s.loop.step (.advance wakeup) = .ok _ := rfl
      refine ⟨_, .functor hl hc rfl, ?_⟩
      have hst : s.step (.loop (.advance wakeup) r) = s.loopStep (.advance wakeup) r := if_pos (by rw [ha]; rfl)
      rw [hst]
      simp only [loopStep, hl, ok_bind, hc, Option.elim_some]
      rw [(EventLoop.step_history hl rfl).1]
    | _ => cases hc
  | connection l => cases h

theorem step_passes (hn : s.sending st = none) (ha : s.astray st = false) (hs : s.step st = .ok t) : Passes s t := by
  cases st with
  | sendPiece m r =>
    refine ite_pure_inv (fun hsend hs => ?_) .idle hs
    simp only [sending, hsend, Bool.true_and, ite_eq_right_iff] at hn
    have hin : ¬ s.loop.isInLoopThread m.thread = true := fun hin => by cases hn hin
    have hst : ¬ s.world.conn.state = .kConnected := by simpa [astray, hsend, hin] using ha
    simp only [sendPiece, hst, if_false, runInLoop, hin] at hs
    cases hs
    exact .queued fun hm => hin (decide_eq_true hm)
  | sendBuffer m r =>
    refine ite_pure_inv (fun hsend hs => ite_pure_inv (fun hst hs => ?_) .idle hs) .idle hs
    simp only [sending, hsend, hst, Bool.true_and, decide_true, ite_eq_right_iff] at hn
    have hin : ¬ s.loop.isInLoopThread m.thread = true := fun hin => by cases hn hin
    simp only [runInLoop, hin] at hs
    cases hs
    exact .queued fun hm => hin (decide_eq_true hm)
  | loop l r =>
    refine ite_pure_inv (fun hc hs => ?_) .idle hs
    rw [Bool.and_eq_true, Bool.not_eq_true'] at hc
    obtain ⟨ha, hq⟩ := hc
    obtain ⟨loop, hl, hs⟩ := bind_ok.mp hs
    have hc : s.loop.callee l = none := by simpa [sending, ha] using hn
    rw [hc] at hs
    cases hs
    exact .loop hl hc hq
  | connection l =>
    rcases ite_ok hs with ⟨-, hs⟩ | ⟨hl, hs⟩
    · cases hs
      exact .idle
    · obtain ⟨world, hw, hs⟩ := bind_ok.mp hs
      cases hs
      exact .connection (Bool.not_eq_true _ ▸ hl) hw

section
variable [LawfulPoller P]

theorem sendInLoop_stops {thread : Nat} (hin : s.loop.isInLoopThread thread = true) :
    Stops (· ≠ .abortNotInLoopThread) (s.sendInLoop thread m r) := by
  refine check_stops (fun hn => absurd hin hn) fun _ => Stops.bind ?_ fun _ _ => Stops.ok _
  refine (World.sendInLoop_stops s.world m.data r).mono fun f hf he => ?_
  rw [he] at hf
  cases hf

theorem runInLoop_stops (s : Senders P) (m : Message) (r : WriteResult) :
    Stops (· ≠ .abortNotInLoopThread) (s.runInLoop m r) :=
  Stops.ite (fun hin => sendInLoop_stops hin) fun _ => Stops.ok _

theorem step_stops (h : s.astray st = false) : Stops (· ≠ .abortNotInLoopThread) (s.step st) := by
  cases st with
  | sendPiece m r =>
    refine Stops.ite (fun hs => Stops.ite (fun hc => sendInLoop_stops ?_) fun _ => runInLoop_stops _ m r)
      fun _ => Stops.ok _
    change s.world.conn.state = .kConnected at hc
    simpa [astray, hs, hc] using h
  | sendBuffer m r =>
    refine Stops.ite (fun _ => Stops.ite (fun _ => ?_) fun _ => Stops.ok _) fun _ => Stops.ok _
    exact Stops.ite (fun hin => sendInLoop_stops hin) fun _ => runInLoop_stops _ m r
  | loop l r =>
    refine Stops.ite (fun hc => Stops.bind ?_ fun loop hl => ?_) fun _ => Stops.ok _
    · exact EventLoop.step_stops s.loop l
    · rw [Bool.and_eq_true, Bool.not_eq_true'] at hc
      cases s.loop.callee l with
      | none => exact Stops.ok _
      | some m => exact sendInLoop_stops (decide_eq_true (EventLoop.step_history hl hc.2).1.symm)
  | connection l =>
    refine Stops.ite (fun _ => Stops.ok _) fun _ => Stops.bind ?_ fun _ _ => Stops.ok _
    refine (World.step_stops s.world l).mono fun f hf he => ?_
    rw [he] at hf
    simp [Fault.lifeCycle, World.LifeCycleFault] at hf

end

/-! ## The invariant -/

structure Inv (s : Senders P) : Prop where
  loop : s.loop.Inv
  streams : s.world.Streams
  sent : Zhengqi.sent s.world.effects = s.executed.flatMap (·.data)
  -- A thread that is not the loop's sends through the queue, the loop's never does
  others : ∀ thread ≠ s.loop.threadId,
    s.executed.filter (·.thread = thread) = s.loop.executed.filter (·.thread = thread) ∧
      s.called.filter (·.thread = thread) = s.loop.enqueued.filter (·.thread = thread)
  own : s.executed.filter (·.thread = s.loop.threadId) = s.called.filter (·.thread = s.loop.threadId)
  foreign : ∀ m ∈ s.loop.enqueued, m.thread ≠ s.loop.threadId

/-- The messages are on their way whole, those of each thread in order. -/
structure Delivers (s : Senders P) : Prop where
  stream : wire s.world.effects ++ s.world.conn.outputBuffer.readable = s.executed.flatMap (·.data)
  order : ∀ thread, (s.executed ++ s.loop.phase.batch ++ s.loop.pendingFunctors).filter (·.thread = thread) =
    s.called.filter (·.thread = thread)

omit [Poller P] in
theorem Inv.delivers (h : s.Inv) : s.Delivers := by
  refine ⟨h.streams.stream.trans h.sent, fun thread => ?_⟩
  by_cases ho : thread = s.loop.threadId
  · have hnone : (s.loop.phase.batch ++ s.loop.pendingFunctors).filter (·.thread = thread) = [] := by
      rw [List.filter_eq_nil_iff]
      intro m hm
      have hq : m ∈ s.loop.enqueued := by
        rw [← h.loop.fifo, List.append_assoc]
        exact List.mem_append_right _ hm
      simp [ho, h.foreign m hq]
    rw [List.append_assoc, List.filter_append, hnone, List.append_nil, ho]
    exact h.own
  · obtain ⟨hx, hc⟩ := h.others thread ho
    rw [hc, ← h.loop.fifo]
    simp only [List.filter_append, hx]

theorem sendInLoop_inv {thread : Nat} (h : s.sendInLoop thread m r = .ok t) :
    ∃ world, s.world.sendInLoop m.data r = .ok world ∧ t = { s with world, executed := s.executed ++ [m] } := by
  obtain ⟨_, -, h⟩ := bind_ok.mp h
  obtain ⟨world, hw, h⟩ := bind_ok.mp h
  cases h
  exact ⟨world, hw, rfl⟩

theorem Inv.starts (h : s.Inv) (hs : Starts s m t) {v : Senders P} (hd : s.world.drops m.data r = false)
    (hv : t.sendInLoop t.loop.threadId m r = .ok v) : v.Inv := by
  obtain ⟨world, hw, rfl⟩ := sendInLoop_inv hv
  cases hs with
  | direct hm =>
    obtain ⟨hst, hsn⟩ := h.streams.send hd hw
    refine ⟨h.loop, hst, ?_, fun thread ho => ?_, ?_, h.foreign⟩
    · simp [hsn, h.sent]
    · have hne : ¬ m.thread = thread := fun he => ho (he.symm.trans hm)
      simpa [hne] using h.others thread ho
    · simp [hm, h.own]
  | functor hl hc hq =>
    obtain ⟨hst, hsn⟩ := h.streams.send hd hw
    obtain ⟨hid, henq, hex⟩ := EventLoop.step_history hl hq
    rw [hc, Option.toList_some] at hex
    have hi := h.loop.of_step hl
    have hm : m.thread ≠ s.loop.threadId := by
      apply h.foreign
      rw [← henq, ← hi.fifo, hex]
      simp
    refine ⟨hi, hst, ?_, fun thread ho => ?_, ?_, ?_⟩
    · simp [hsn, h.sent]
    · obtain ⟨hx, hc⟩ := h.others thread (hid ▸ ho)
      rw [henq, hex, List.filter_append, List.filter_append, hx]
      exact ⟨rfl, hc⟩
    · simp [hid, hm, h.own]
    · rw [henq, hid]
      exact h.foreign

theorem Inv.passes [LawfulPoller P] (h : s.Inv) (hs : Passes s t) : t.Inv := by
  cases hs with
  | idle => exact h
  | @queued m hm =>
    refine ⟨h.loop.queueInLoop m.thread m, h.streams, h.sent, fun thread ho => ?_, ?_, ?_⟩
    · obtain ⟨hx, hc⟩ := h.others thread ho
      refine ⟨hx, ?_⟩
      change (s.called ++ [m]).filter _ = (s.loop.enqueued ++ [m]).filter _
      rw [List.filter_append, List.filter_append, hc]
    · change s.executed.filter (·.thread = s.loop.threadId) = (s.called ++ [m]).filter (·.thread = s.loop.threadId)
      simpa [hm] using h.own
    · intro m' hm'
      rcases List.mem_append.mp hm' with hm' | hm'
      · exact h.foreign m' hm'
      · rw [List.mem_singleton.mp hm']
        exact hm
  | loop hl hc hq =>
    obtain ⟨hid, henq, hex⟩ := EventLoop.step_history hl hq
    rw [hc, Option.toList_none, List.append_nil] at hex
    refine ⟨h.loop.of_step hl, h.streams, h.sent, ?_, ?_, ?_⟩
    · dsimp only
      rw [hid, henq, hex]
      exact h.others
    · dsimp only
      rw [hid]
      exact h.own
    · rw [henq, hid]
      exact h.foreign
  | connection hl hw =>
    obtain ⟨hst, hsn⟩ := h.streams.step hl hw
    exact ⟨h.loop, hst, hsn.trans h.sent, h.others, h.own, h.foreign⟩

/-- The step gives up on bytes of the message that it sends. -/
def givesUp (s : Senders P) (st : SendStep) : Bool := (s.sending st).any fun (m, r) => s.world.drops m.data r

theorem Inv.step [LawfulPoller P] (h : s.Inv) (ha : s.astray st = false) (hg : s.givesUp st = false)
    (hs : s.step st = .ok t) : t.Inv := by
  cases hn : s.sending st with
  | none => exact h.passes (step_passes hn ha hs)
  | some p =>
    obtain ⟨u, hu, hstep⟩ := sending_step hn
    rw [hstep] at hs
    exact h.starts hu (by simpa [givesUp, hn] using hg) hs

end Senders

end Zhengqi
