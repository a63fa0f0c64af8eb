import Zhengqi.ConnectionLoopSound
import Zhengqi.OutputSound
import Mathlib.Data.List.TakeWhile

/-!
# Output after shutdown

`send(Buffer *)` drops a message once `shutdown()` has taken effect, while
`send(const StringPiece &)` passes it on to `sendInLoop` in every state
(`late_message_is_written`). A run that makes no such call writes a part of what
was sent before `shutdown()`, and nothing after `shutdownWrite()`
(`no_data_after_shutdown`).
-/

namespace Zhengqi

open Run

def sentBefore (es : List Effect) : Bytes := sent (es.takeWhile (· ≠ .shutdown))

/-! ## Traces that grow -/

theorem sentBefore_eq_sent {es : List Effect} (h : .shutdown ∉ es) : sentBefore es = sent es := by
  unfold sentBefore
  rw [List.takeWhile_eq_self_iff.mpr]
  intro e he
  have : e ≠ .shutdown := fun hc => h (hc ▸ he)
  simpa using this

theorem sentBefore_append {es fs : List Effect} (h : .shutdown ∈ es) : sentBefore (es ++ fs) = sentBefore es := by
  unfold sentBefore
  rw [List.takeWhile_append, if_neg]
  intro hl
  have := (List.takeWhile_prefix (l := es) (· ≠ .shutdown)).eq_of_length hl
  have := List.takeWhile_eq_self_iff.mp this _ h
  simp at this

theorem sent_takeWhile {es : List Effect} (p : Effect → Bool) (h : sent es = []) : sent (es.takeWhile p) = [] := by
  have hp := (List.takeWhile_append_dropWhile (p := p) (l := es))
  rw [← hp, sent_append] at h
  exact (List.append_eq_nil_iff.mp h).1

theorem sentBefore_append_nil {es fs : List Effect} (h : sent fs = []) : sentBefore (es ++ fs) = sentBefore es := by
  by_cases hs : .shutdown ∈ es
  · exact sentBefore_append hs
  · rw [sentBefore_eq_sent hs]
    unfold sentBefore
    rw [List.takeWhile_append_of_pos, sent_append, sent_takeWhile _ h, List.append_nil]
    intro e he
    have : e ≠ .shutdown := fun hc => hs (hc ▸ he)
    simpa using this

theorem broken_append (es fs : List Effect) : World.broken (es ++ fs) = (World.broken es || World.broken fs) :=
  List.any_append

namespace World

section
variable {P : Type}

/-- Only an empty message behind queued output may be passed to
`send(const StringPiece &)` after `shutdown()` or `shutdownWrite()`. -/
def NoLateSend (w : World P) : Label → Prop
  | .call (.sendPiece m _) => (.shutdown ∈ w.effects ∨ w.effects.any (·.isFin) = true) → m = [] ∧ ¬ w.Idle
  | _ => True

instance (w : World P) : ∀ l, Decidable (w.NoLateSend l)
  | .call (.sendPiece ..) => inferInstanceAs (Decidable (_ → _))
  | .call (.sendBuffer ..) | .call .shutdown | .call .forceClose | .call .forceCloseWithDelay | .call .startRead
  | .call .stopRead | .call .setWriteCompleteCallback | .call (.setHighWaterMarkCallback _) | .poll _ | .task ..
  | .doPendingFunctors | .endIteration | .removeConnectionInLoop | .destroy => .isTrue trivial

structure Shut (w : World P) : Prop where
  wf : w.conn.outputBuffer.WF
  pre : wire w.effects <+: sentBefore w.effects
  stream : broken w.effects = false → wire w.effects ++ w.conn.outputBuffer.readable = sentBefore w.effects
  closed : .shutdown ∈ w.effects ∨ w.effects.any (·.isFin) = true → w.conn.state ≠ .kConnected
  fin : w.effects.any (·.isFin) = true → w.conn.channel.isWriting = false
  last : w.effects.Pairwise fun a b => a.isFin = true → b.isWrite = false

theorem last_append {es fs : List Effect} (h : es.Pairwise fun a b => a.isFin = true → b.isWrite = false)
    (hfs : ∀ e ∈ fs, e.isWrite = false) : (es ++ fs).Pairwise fun a b => a.isFin = true → b.isWrite = false :=
  List.pairwise_append.mpr
    ⟨h, List.pairwise_of_forall_mem_list fun _ _ b hb _ => hfs b hb, fun _ _ b hb _ => hfs b hb⟩

theorem taken_of_broken {w : World P} {r : WriteResult} (ha : w.answers r = true) (hb : broken w.effects = true)
    (data : Bytes) : r.taken data = [] := by
  cases r with
  | error e => rfl
  | room n =>
    have : n = 0 := by simpa [answers, hb] using ha
    simp [WriteResult.taken, this]

theorem Shut.keep {w v : World P} {l : Label} (h : w.Shut) (hk : Keeps w l v) : v.Shut := by
  obtain ⟨es, he, hes⟩ := hk.effects
  have hsent := sent_of_not_output hes
  have hb : broken v.effects = broken w.effects := by
    rw [he, broken_append]
    have : broken es = false := List.any_eq_false.mpr fun e hm => by
      have := hes e hm
      cases e <;> simp_all [Effect.isOutput]
    rw [this, Bool.or_false]
  have hfin : v.effects.any (·.isFin) = w.effects.any (·.isFin) := by
    rw [he, List.any_append]
    have : es.any (·.isFin) = false := List.any_eq_false.mpr fun e hm => by simp [Effect.isFin_of_not_output (hes e hm)]
    rw [this, Bool.or_false]
  have hsh : .shutdown ∈ v.effects → .shutdown ∈ w.effects := by
    rw [he, List.mem_append]
    rintro (hm | hm)
    · exact hm
    · cases hes _ hm
  refine ⟨by rw [hk.buffer]; exact h.wf, ?_, ?_, ?_, ?_, ?_⟩
  · rw [he, wire_append, wire_of_not_output hes, List.append_nil, sentBefore_append_nil hsent]; exact h.pre
  · rw [hb, he, wire_append, wire_of_not_output hes, List.append_nil, sentBefore_append_nil hsent, hk.buffer]
    exact h.stream
  · rw [hfin]
    intro hc hs
    exact h.closed (hc.imp_left hsh) (hk.opened hs)
  · rw [hfin]
    intro hf
    cases hw : v.conn.channel.isWriting with
    | false => rfl
    | true => rw [← h.fin hf, hk.writing hw]
  · rw [he]
    exact last_append h.last fun e hm => Effect.isWrite_of_not_output (hes e hm)

theorem Shut.shutdown {w : World P} (h : w.Shut) (hs : w.conn.state = .kConnected) : w.shutdown.Shut := by
  have hnf : w.effects.any (·.isFin) = false := by
    cases hf : w.effects.any (·.isFin) with
    | false => rfl
    | true => exact absurd hs (h.closed (.inr hf))
  obtain ⟨fs, hv, hfs⟩ := shutdown_inv hs
  have hw : wire fs = [] := by rcases hfs with rfl | ⟨-, rfl⟩ <;> rfl
  have hsn : sent fs = [] := by rcases hfs with rfl | ⟨-, rfl⟩ <;> rfl
  have hb : broken fs = false := by rcases hfs with rfl | ⟨-, rfl⟩ <;> rfl
  have hl : ∀ e ∈ fs, e.isWrite = false := by rcases hfs with rfl | ⟨-, rfl⟩ <;> simp [Effect.isWrite]
  rw [hv]
  refine ⟨h.wf, ?_, ?_, fun _ => by simp [setState], ?_, ?_⟩
  · change wire (w.effects ++ fs) <+: sentBefore (w.effects ++ fs)
    rw [wire_append, hw, List.append_nil, sentBefore_append_nil hsn]; exact h.pre
  · change broken (w.effects ++ fs) = false → wire (w.effects ++ fs) ++ w.conn.outputBuffer.readable = _
    rw [broken_append, hb, Bool.or_false, wire_append, hw, List.append_nil]
    exact fun hn => (h.stream hn).trans (sentBefore_append_nil hsn).symm
  · intro hf
    change (w.effects ++ fs).any _ = true at hf
    rw [List.any_append, hnf, Bool.false_or] at hf
    rcases hfs with rfl | ⟨hw, -⟩
    · simp [Effect.isFin] at hf
    · exact hw
  · exact last_append h.last hl

/-- A trace without `shutdownWrite` puts no demand on what follows. -/
theorem last_of_no_fin {es : List Effect} (h : es.any (·.isFin) = false) :
    es.Pairwise fun a b => a.isFin = true → b.isWrite = false :=
  List.pairwise_of_forall_mem_list fun a ha _ _ hf => absurd hf (List.any_eq_false.mp h a ha)

theorem sendEffects_no_fin (w : World P) (m : Bytes) (r : WriteResult) : (w.sendEffects m r).any (·.isFin) = false := by
  unfold sendEffects
  split <;> rfl

theorem sendEffects_no_shutdown (w : World P) (m : Bytes) (r : WriteResult) : .shutdown ∉ w.sendEffects m r := by
  unfold sendEffects
  split <;> simp

end

section
variable {P : Type} [Poller P]

theorem Shut.send {w v : World P} {m : Bytes} {r : WriteResult} (h : w.Shut) (hsh : .shutdown ∉ w.effects)
    (hnf : w.effects.any (·.isFin) = false) (ha : w.answers r = true) (hs : Sends w m r v) : v.Shut := by
  have hsh' : .shutdown ∉ v.effects := by
    rw [hs.effects, List.mem_append]
    rintro (hm | hm)
    · exact hsh hm
    · exact sendEffects_no_shutdown w m r hm
  have hnf' : v.effects.any (·.isFin) = false := by
    rw [hs.effects, List.any_append, hnf, sendEffects_no_fin]; rfl
  have hw : wire v.effects = wire w.effects ++ (if w.Idle then r.taken m else []) := by
    rw [hs.effects, wire_append, wire_sendEffects]
  have hsn : sentBefore v.effects = sentBefore w.effects ++ m := by
    rw [sentBefore_eq_sent hsh', sentBefore_eq_sent hsh, hs.effects, sent_append, sent_sendEffects]
  -- an unbroken trace means that the answer, if it was used, was no fault
  have hstream : broken v.effects = false → wire v.effects ++ v.conn.outputBuffer.readable = sentBefore v.effects := by
    intro hb
    rw [hs.effects, broken_append, Bool.or_eq_false_iff] at hb
    rw [hw, hsn, ← h.stream hb.1, hs.readable]
    by_cases hi : w.Idle
    · have hin : r.intact = true := by
        have := hb.2
        cases r with
        | room n => rfl
        | error e => simpa [sendEffects, hi, broken, WriteResult.intact] using this
      have := taken_leftover (drops_of_intact w m hin)
      rw [if_pos hi] at this ⊢
      rw [hi.2, List.append_nil, List.nil_append, List.append_assoc, this]
    · simp [leftover, hi]
  refine ⟨hs.wf, ?_, hstream, ?_, ?_, last_of_no_fin hnf'⟩
  · cases hb : broken v.effects with
    | false => rw [← hstream hb]; exact List.prefix_append ..
    | true =>
      -- nothing more was taken
      have htk : (if w.Idle then r.taken m else []) = [] := by
        split
        · rw [hs.effects, broken_append, Bool.or_eq_true] at hb
          rcases hb with hb | hb
          · exact taken_of_broken ha hb m
          · cases r with
            | room n => simp [sendEffects, broken] at hb
            | error e => rfl
        · rfl
      rw [hw, htk, List.append_nil, hsn]
      exact h.pre.trans (List.prefix_append ..)
  · rintro (hc | hc)
    · exact absurd hc hsh'
    · rw [hnf'] at hc; cases hc
  · intro hc
    rw [hnf'] at hc; cases hc

theorem Shut.send_late {w v : World P} {r : WriteResult} (h : w.Shut) (hi : ¬ w.Idle) (hs : Sends w [] r v) :
    v.Shut := by
  obtain ⟨he, hc⟩ := hs.of_empty hi
  have hb : broken v.effects = broken w.effects := by rw [he, broken_append]; simp [broken]
  have hf : v.effects.any (·.isFin) = w.effects.any (·.isFin) := by rw [he, List.any_append]; simp [Effect.isFin]
  have hw : wire v.effects = wire w.effects := by rw [he, wire_append]; simp [wire]
  have hsn : sentBefore v.effects = sentBefore w.effects := by rw [he, sentBefore_append_nil rfl]
  refine ⟨hs.wf, by rw [hw, hsn]; exact h.pre, by rw [hb, hw, hsn, hc]; exact h.stream, ?_, ?_, ?_⟩
  · rw [hf, hs.frame.state]
    rintro (hm | hm)
    · refine h.closed (.inl ?_)
      rw [he] at hm; simpa using hm
    · exact h.closed (.inr hm)
  · rw [hf, hc]; exact h.fin
  · rw [he]
    exact last_append h.last (by simp [Effect.isWrite])

theorem newConnection_shut {p : P} {addr : Nat} {sockfd : Int} {phase : Phase} {sameLoop : Bool} {w : World P}
    (hw : newConnection p addr sockfd phase sameLoop = .ok w) : w.Shut := by
  obtain ⟨q, c, -, rfl⟩ := newConnection_inv hw
  refine ⟨Buffer.fresh_wf (by decide), List.nil_prefix, fun _ => Buffer.fresh_readable _, ?_, ?_, ?_⟩
  · rintro (hc | hc) <;> simp [Effect.isFin] at hc
  · intro hc; simp [Effect.isFin] at hc
  · exact List.pairwise_singleton ..

theorem Shut.flush_quiet {w v : World P} {r : WriteResult} (h : w.Shut) (hf : Flushes w r v)
    (hwr : w.conn.channel.isWriting = false) : v.Shut := by
  have hq := hf.quiet (fun hd => by rw [hd.1] at hwr; cases hwr)
  have hfe : v.effects = w.effects := by rw [hf.effects]; simp [flushEffects, hwr]
  have hfl : w.flushed r = [] := by simp [flushed, hwr]
  have hr : v.conn.outputBuffer.readable = w.conn.outputBuffer.readable := by rw [hf.readable, hfl]; rfl
  refine ⟨hf.wf, by rw [hfe]; exact h.pre, by rw [hfe, hr]; exact h.stream, ?_, ?_, by rw [hfe]; exact h.last⟩
  · rw [hfe, hf.frame.state]; exact h.closed
  · rw [hfe, hq.2]; exact h.fin

omit [Poller P] in
theorem flushEffects_writing {w : World P} {r : WriteResult} (hwr : w.conn.channel.isWriting = true) :
    ∃ fs, w.flushEffects r = .write w.conn.outputBuffer.readable r :: fs ∧
      (fs = [] ∨ fs = [.shutdownWrite []] ∧ w.Drains r ∧ w.conn.state = .kDisconnecting) := by
  simp only [flushEffects, hwr, if_true]
  refine ⟨_, rfl, ?_⟩
  split
  · split
    · exact .inr ⟨rfl, ‹_›, ‹_›⟩
    · exact .inl rfl
  · exact .inl rfl

variable [LawfulPoller P]

theorem Shut.flush {w v : World P} {r : WriteResult} (h : w.Shut) (ha : w.answers r = true) (hf : Flushes w r v) :
    v.Shut := by
  cases hwr : w.conn.channel.isWriting with
  | false => exact h.flush_quiet hf hwr
  | true =>
    have hw : wire v.effects = wire w.effects ++ w.flushed r := by rw [hf.effects, wire_append, wire_flushEffects]
    have hsn : sentBefore v.effects = sentBefore w.effects := by
      rw [hf.effects, sentBefore_append_nil (sent_flushEffects w r)]
    have hstream : broken w.effects = false →
        wire v.effects ++ v.conn.outputBuffer.readable = sentBefore v.effects := by
      intro hb
      rw [hw, hsn, ← h.stream hb, List.append_assoc, ← hf.readable]
    -- a channel that is writing has not seen shutdownWrite
    have hnf : w.effects.any (·.isFin) = false := by
      cases hc : w.effects.any (·.isFin) with
      | false => rfl
      | true => rw [h.fin hc] at hwr; cases hwr
    obtain ⟨fs, hfs, hshape⟩ := flushEffects_writing (r := r) hwr
    rw [← List.append_cancel_left_eq w.effects, ← hf.effects] at hfs
    have hfin : v.effects.any (·.isFin) = true → w.Drains r ∧ w.conn.state = .kDisconnecting := by
      intro hc
      rcases hshape with rfl | ⟨-, hd⟩
      · rw [hfs, List.any_append, hnf] at hc; simp [Effect.isFin] at hc
      · exact hd
    refine ⟨hf.wf, ?_, ?_, ?_, ?_, ?_⟩
    · cases hb : broken w.effects with
      | false => rw [← hstream hb]; exact List.prefix_append ..
      | true =>
        have : w.flushed r = [] := by
          rw [flushed, if_pos hwr]
          exact taken_of_broken ha hb _
        rw [hw, this, List.append_nil, hsn]; exact h.pre
    · intro hb
      rw [hf.effects, broken_append, Bool.or_eq_false_iff] at hb
      exact hstream hb.1
    · rw [hf.frame.state]
      rintro (hm | hm)
      · refine h.closed (.inl ?_)
        rw [hfs] at hm
        rcases hshape with rfl | ⟨rfl, -⟩ <;> simpa using hm
      · rw [(hfin hm).2]; simp
    · intro hm
      rw [Channel.isWriting_eq, Channel.disableWriting_events (hf.disarmed (hfin hm).1)]
      simp [Events.diff, kWriteEvent]
    · rw [hfs, List.pairwise_append, List.pairwise_cons]
      refine ⟨h.last, ⟨by simp [Effect.isFin], ?_⟩, fun a hm b _ hc => ?_⟩
      · rcases hshape with rfl | ⟨rfl, -⟩ <;> simp
      · exact absurd hc (List.any_eq_false.mp hnf a hm)

theorem Shut.step {w v : World P} {l : Label} (h : w.Shut) (hl : w.NoLateSend l) (hv : w.step l = .ok v) : v.Shut := by
  cases step_out h.wf hv with
  | sendPiece ha hs =>
    by_cases hc : .shutdown ∈ w.effects ∨ w.effects.any (·.isFin) = true
    · obtain ⟨rfl, hi⟩ := hl hc
      exact h.send_late hi hs
    · rw [not_or, Bool.not_eq_true] at hc
      exact h.send hc.1 hc.2 ha hs
  | sendBuffer ha hst hs =>
    have hc : ¬ (.shutdown ∈ w.effects ∨ w.effects.any (·.isFin) = true) := fun hc => h.closed hc hst
    rw [not_or, Bool.not_eq_true] at hc
    exact h.send hc.1 hc.2 ha hs
  | @flush _ _ ts _ ha _ hf =>
    have h' : { w with todo := ts }.Shut := ⟨h.wf, h.pre, h.stream, h.closed, h.fin, h.last⟩
    exact h'.flush ha hf
  | shutdown hs => exact h.shutdown hs
  | keep hk => exact h.keep hk

end

end World

/-- No data after shutdown: without late calls of `send(const StringPiece &)` the
bytes written are a part of the messages sent before `shutdown()`, no `write`
follows `shutdownWrite()`, and a later message is neither written nor queued. -/
theorem no_data_after_shutdown {P : Type} [Poller P] [LawfulPoller P] {p : P} {addr : Nat}
    {sockfd : Int} {phase : Phase}
    {sameLoop : Bool} {w v : World P} (hw : World.newConnection p addr sockfd phase sameLoop = .ok w) (ls : List Label)
    (hm : Meets World.step World.NoLateSend w ls) (hr : run World.step w ls = .ok v) :
    wire v.effects <+: sentBefore v.effects ∧
      (v.effects.Pairwise fun a b => a.isFin = true → b.isWrite = false) ∧
      ∀ m r c t, c = .sendPiece m r ∨ c = .sendBuffer m r → .shutdown ∈ v.effects → v.NoLateSend (.call c) →
        v.step (.call c) = .ok t →
        t.conn.outputBuffer = v.conn.outputBuffer ∧
          t.effects.filter (·.isWrite) = v.effects.filter (·.isWrite) := by
  have hv : v.Shut := Meets.inv (fun _ _ _ h hl hv => h.step hl hv) hm (World.newConnection_shut hw) hr
  refine ⟨hv.pre, hv.last, fun m r c t hc hsh hl ht => ?_⟩
  rcases hc with rfl | rfl
  · cases World.step_out hv.wf ht with
    | sendPiece ha hs =>
      obtain ⟨rfl, hi⟩ := hl (.inl hsh)
      obtain ⟨he, hc⟩ := hs.of_empty hi
      exact ⟨by rw [hc], by rw [he, List.filter_append]; simp [Effect.isWrite]⟩
    | keep hk => exact ⟨hk.buffer, hk.writes⟩
  · cases World.step_out hv.wf ht with
    | sendBuffer ha hst hs => exact absurd hst (hv.closed (.inl hsh))
    | keep hk => exact ⟨hk.buffer, hk.writes⟩

def sendAroundShutdown (late : Call) : List Label :=
  [.call (.sendPiece [65, 65] (.room 1)), .call .shutdown, .call late, .endIteration, .poll kWriteEvent,
    .task (.room 9) (.data [])]

theorem no_data_after_shutdown_dropped :
    ∃ w v : World EPollPoller, World.newConnection EPollPoller.empty 1 5 .functors true = .ok w ∧
      run World.step w (sendAroundShutdown (.sendBuffer [66] (.room 0))) = .ok v ∧
      v.effects.any (·.isFin) = true ∧ wire v.effects <+: sentBefore v.effects := by
  obtain ⟨w, hw, he⟩ := ok_of_map (show (World.newConnection EPollPoller.empty 1 5 .functors true).map (fun w =>
    (decide (Meets World.step World.NoLateSend w (sendAroundShutdown (.sendBuffer [66] (.room 0)))),
      (run World.step w (sendAroundShutdown (.sendBuffer [66] (.room 0)))).map (·.effects.any (·.isFin)))) =
    .ok (true, .ok true) by decide +kernel)
  rw [Prod.mk.injEq] at he
  obtain ⟨v, hv, hf⟩ := ok_of_map he.2
  exact ⟨w, v, hw, hv, hf, (no_data_after_shutdown hw _ (of_decide_eq_true he.1) hv).1⟩

/-- `send(const StringPiece &)` after `shutdown()`: the message goes out behind
the one that was queued. -/
theorem late_message_is_written :
    ∃ w v : World EPollPoller, World.newConnection EPollPoller.empty 1 5 .functors true = .ok w ∧
      run World.step w (sendAroundShutdown (.sendPiece [66] (.room 0))) = .ok v ∧
      wire v.effects = [65, 65, 66] ∧ sentBefore v.effects = [65, 65] := by
  obtain ⟨v, hv, he⟩ := ok_of_map (show (World.newConnection EPollPoller.empty 1 5 .functors true >>= fun w =>
    run World.step w (sendAroundShutdown (.sendPiece [66] (.room 0)))).map
      (fun v => (wire v.effects, sentBefore v.effects)) = .ok ([65, 65, 66], [65, 65]) by decide +kernel)
  obtain ⟨w, hw, hv⟩ := bind_ok.mp hv
  rw [Prod.mk.injEq] at he
  exact ⟨w, v, hw, hv, he⟩

end Zhengqi
