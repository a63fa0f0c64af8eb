import Zhengqi.ConnectionLoopSound
import Zhengqi.EPollPollerSound

/-!
# A closed connection

After the state has become `kDisconnected` the channel has no events, nothing is
written and `outputBuffer_` stays as it is, so that `channel_->remove()` in
`connectDestroyed` finds no events (`closed_connection_is_quiet`). Two calls can
break this: `startRead`, which does not look at the state, and
`send(const StringPiece &)`, since `sendInLoop` only logs that it gives up
(`send_on_down_breaks_remove`).
-/

namespace Zhengqi

open Run

namespace World

section
variable {P : Type}

/-- In `kDisconnected` there is no `startRead`, and `send(const StringPiece &)` at
most with an empty message behind queued output. -/
def NoCallAfterClose (w : World P) : Label → Prop
  | .call .startRead => w.conn.state ≠ .kDisconnected
  | .call (.sendPiece m _) => w.conn.state = .kDisconnected → m = [] ∧ w.conn.outputBuffer.readable ≠ []
  | _ => True

instance (w : World P) : ∀ l, Decidable (w.NoCallAfterClose l)
  | .call .startRead => inferInstanceAs (Decidable (_ ≠ _))
  | .call (.sendPiece ..) => inferInstanceAs (Decidable (_ → _))
  | .call (.sendBuffer ..) | .call .shutdown | .call .forceClose | .call .forceCloseWithDelay | .call .stopRead
  | .call .setWriteCompleteCallback | .call (.setHighWaterMarkCallback _) | .poll _ | .task ..
  | .doPendingFunctors | .endIteration | .removeConnectionInLoop | .destroy => .isTrue trivial

structure Quiet (w : World P) : Prop where
  wf : w.conn.outputBuffer.WF
  noEvents : w.conn.state = .kDisconnected → w.conn.channel.events = kNoneEvent

structure Rests (w v : World P) : Prop where
  state : v.conn.state = .kDisconnected
  events : v.conn.channel.events = kNoneEvent
  buffer : v.conn.outputBuffer = w.conn.outputBuffer
  writes : v.effects.filter (·.isWrite) = w.effects.filter (·.isWrite)

end

section
variable {P : Type} [Poller P]

theorem newConnection_quiet {p : P} {addr : Nat} {sockfd : Int} {phase : Phase} {sameLoop : Bool} {w : World P}
    (hw : newConnection p addr sockfd phase sameLoop = .ok w) : w.Quiet := by
  obtain ⟨q, c, -, rfl⟩ := newConnection_inv hw
  exact ⟨Buffer.fresh_wf (by decide), by simp⟩

variable [LawfulPoller P]

theorem Quiet.step_closed {w v : World P} {l : Label} (h : w.Quiet) (hc : w.conn.state = .kDisconnected)
    (hl : w.NoCallAfterClose l) (hv : w.step l = .ok v) : Rests w v := by
  have hn := h.noEvents hc
  cases step_out h.wf hv with
  | sendPiece ha hs =>
    obtain ⟨rfl, hr⟩ := hl hc
    obtain ⟨he, hco⟩ := hs.of_empty (fun hi => hr hi.2)
    refine ⟨by rw [hco]; exact hc, by rw [hco]; exact hn, by rw [hco], ?_⟩
    rw [he, List.filter_append]
    simp [Effect.isWrite]
  | sendBuffer ha hst hs => rw [hc] at hst; cases hst
  | flush ha ht hf =>
    have hw : w.conn.channel.isWriting = false := by rw [Channel.isWriting_eq, hn]; rfl
    rw [hf.untouched hw]
    exact ⟨hc, hn, rfl, rfl⟩
  | shutdown hs => rw [hc] at hs; cases hs
  | keep hk =>
    refine ⟨hk.stays hc, hk.quiet hn ?_, hk.buffer, hk.writes⟩
    rintro rfl
    exact hl hc

theorem Quiet.step {w v : World P} {l : Label} (h : w.Quiet) (hl : w.NoCallAfterClose l) (hv : w.step l = .ok v) :
    v.Quiet := by
  by_cases hc : w.conn.state = .kDisconnected
  · have hr := h.step_closed hc hl hv
    exact ⟨by rw [hr.buffer]; exact h.wf, fun _ => hr.events⟩
  · cases step_out h.wf hv with
    | sendPiece ha hs => exact ⟨hs.wf, fun hd => absurd (hs.frame.state ▸ hd) hc⟩
    | sendBuffer ha hst hs => exact ⟨hs.wf, fun hd => absurd (hs.frame.state ▸ hd) hc⟩
    | flush ha ht hf => exact ⟨hf.wf, fun hd => absurd (hf.frame.state ▸ hd) hc⟩
    | shutdown hs =>
      obtain ⟨es, hv, -⟩ := shutdown_inv hs
      rw [hv]
      exact ⟨h.wf, by simp [setState]⟩
    | keep hk => exact ⟨by rw [hk.buffer]; exact h.wf, fun hd => (hk.closed hd).resolve_left hc⟩

theorem Quiet.no_channelRemove {w : World P} (h : w.Quiet) (hc : w.conn.state = .kDisconnected) (l : Label) :
    w.step l ≠ .error .channelRemove := by
  intro he
  rcases step_stops w l _ he with hf | ⟨-, hf⟩ | ⟨hf, -⟩
  · cases hf
  · exact hf (h.noEvents hc)
  · cases hf

end

end World

/-- Quiescence: once a run has reached `kDisconnected`, whatever follows it
performs no `write`, leaves `outputBuffer_` and the empty event set alone, and
does not fail the assertion of `channel_->remove()`. -/
theorem closed_connection_is_quiet {P : Type} [Poller P] [LawfulPoller P] {p : P} {addr : Nat} {sockfd : Int}
    {phase : Phase} {sameLoop : Bool} {w u : World P} (hw : World.newConnection p addr sockfd phase sameLoop = .ok w)
    (ls ms : List Label) (hm : Meets World.step World.NoCallAfterClose w (ls ++ ms)) (hu : run World.step w ls = .ok u)
    (hc : u.conn.state = .kDisconnected) :
    run World.step u ms ≠ .error .channelRemove ∧
      ∀ v, run World.step u ms = .ok v →
        v.effects.filter (·.isWrite) = u.effects.filter (·.isWrite) ∧ v.conn.outputBuffer = u.conn.outputBuffer ∧
          v.conn.channel.isNoneEvent = true := by
  obtain ⟨hm₁, hm₂⟩ := hm.append hu
  have hq : u.Quiet := Meets.inv (fun _ _ _ h hl hv => h.step hl hv) hm₁ (World.newConnection_quiet hw) hu
  have hstep : ∀ s l t, s.Quiet ∧ World.Rests u s → s.NoCallAfterClose l → s.step l = .ok t →
      t.Quiet ∧ World.Rests u t := by
    rintro s l t ⟨hs, hr⟩ hl ht
    have hr' := hs.step_closed hr.state hl ht
    exact ⟨hs.step hl ht, hr'.state, hr'.events, hr'.buffer.trans hr.buffer, hr'.writes.trans hr.writes⟩
  have h₀ : u.Quiet ∧ World.Rests u u := ⟨hq, hc, hq.noEvents hc, rfl, rfl⟩
  refine ⟨hm₂.no_error hstep (fun s l hs _ => hs.1.no_channelRemove hs.2.state l) h₀, fun v hv => ?_⟩
  obtain ⟨-, hr⟩ := hm₂.inv hstep h₀ hv
  exact ⟨hr.writes, hr.buffer, Channel.isNoneEvent_iff.mpr hr.events⟩

def peerCloses : List Label := [.endIteration, .poll kReadEvent, .task (.room 0) (.data [])]

def callOnDown (c : Call) : List Label :=
  [.call c, .task (.room 0) (.data []), .doPendingFunctors, .task (.room 0) (.data [])]

theorem closed_connection_is_quiet_stopRead :
    ∃ w u : World EPollPoller, World.newConnection EPollPoller.empty 1 5 .functors true = .ok w ∧
      run World.step w peerCloses = .ok u ∧ u.conn.state = .kDisconnected ∧
      run World.step u (callOnDown .stopRead) ≠ .error .channelRemove := by
  obtain ⟨w, hw, he⟩ := ok_of_map (show (World.newConnection EPollPoller.empty 1 5 .functors true).map (fun w =>
    (decide (Meets World.step World.NoCallAfterClose w (peerCloses ++ callOnDown .stopRead)),
      (run World.step w peerCloses).map (·.conn.state))) = .ok (true, .ok .kDisconnected) by decide +kernel)
  rw [Prod.mk.injEq] at he
  obtain ⟨u, hu, hc⟩ := ok_of_map he.2
  exact ⟨w, u, hw, hu, hc, (closed_connection_is_quiet hw _ _ (of_decide_eq_true he.1) hu hc).1⟩

/-- A message sent in the DOWN callback that the kernel does not take at once: it
is queued, the channel is armed again, and `channel_->remove()` asserts. -/
theorem send_on_down_breaks_remove :
    ∃ w u : World EPollPoller, World.newConnection EPollPoller.empty 1 5 .functors true = .ok w ∧
      run World.step w peerCloses = .ok u ∧ u.conn.state = .kDisconnected ∧
      run World.step u (callOnDown (.sendPiece [104, 10] (.error .EWOULDBLOCK))) = .error .channelRemove := by
  obtain ⟨u, hu, he⟩ := ok_of_map (show (World.newConnection EPollPoller.empty 1 5 .functors true >>= fun w =>
    run World.step w peerCloses).map (fun u => (u.conn.state,
      (run World.step u (callOnDown (.sendPiece [104, 10] (.error .EWOULDBLOCK)))).map (·.effects))) =
    .ok (.kDisconnected, .error .channelRemove) by decide +kernel)
  obtain ⟨w, hw, hu⟩ := bind_ok.mp hu
  rw [Prod.mk.injEq] at he
  refine ⟨w, u, hw, hu, he.1, ?_⟩
  exact error_of_map he.2

end Zhengqi
