import Zhengqi.ConnectionLoop
import Zhengqi.OutputSound

/-!
# What one step of a connection does

`step_out` sorts the steps by what they do to the output side: a send, a flush,
the call of `shutdown()` that takes effect, and everything else, which leaves the
output side alone. `step_stops` says when a step can fail an assertion on the
life cycle.
-/

namespace Zhengqi

open Run

def Effect.isOutput : Effect → Bool
  | .sendInLoop _ | .write .. | .shutdown | .shutdownWrite _ => true
  | _ => false

def Effect.isWrite : Effect → Bool
  | .write .. => true
  | _ => false

def Effect.isFin : Effect → Bool
  | .shutdownWrite _ => true
  | _ => false

theorem Effect.isWrite_of_not_output {e : Effect} (h : e.isOutput = false) : e.isWrite = false := by
  cases e <;> first | rfl | cases h

theorem Effect.isFin_of_not_output {e : Effect} (h : e.isOutput = false) : e.isFin = false := by
  cases e <;> first | rfl | cases h

theorem wire_of_not_output {es : List Effect} (h : ∀ e ∈ es, e.isOutput = false) : wire es = [] := by
  refine List.flatMap_eq_nil_iff.mpr fun e he => ?_
  have := h e he
  cases e <;> simp_all [Effect.isOutput]

theorem sent_of_not_output {es : List Effect} (h : ∀ e ∈ es, e.isOutput = false) : sent es = [] := by
  refine List.flatMap_eq_nil_iff.mpr fun e he => ?_
  have := h e he
  cases e <;> simp_all [Effect.isOutput]

namespace World

section
variable {P : Type}

/-- The output side is left alone, the channel gets no write interest, and its
read interest only from `startRead`. -/
structure Keeps (w : World P) (l : Label) (v : World P) : Prop where
  buffer : v.conn.outputBuffer = w.conn.outputBuffer
  effects : ∃ es, v.effects = w.effects ++ es ∧ ∀ e ∈ es, e.isOutput = false
  writing : v.conn.channel.isWriting = true → w.conn.channel.isWriting = true
  opened : v.conn.state = .kConnected → w.conn.state = .kConnected
  closed : v.conn.state = .kDisconnected → w.conn.state = .kDisconnected ∨ v.conn.channel.events = kNoneEvent
  stays : w.conn.state = .kDisconnected → v.conn.state = .kDisconnected
  quiet : w.conn.channel.events = kNoneEvent → l ≠ .call .startRead → v.conn.channel.events = kNoneEvent

theorem Keeps.writes {w v : World P} {l : Label} (h : Keeps w l v) :
    v.effects.filter (·.isWrite) = w.effects.filter (·.isWrite) := by
  obtain ⟨es, he, hes⟩ := h.effects
  have : es.filter (·.isWrite) = [] := by
    rw [List.filter_eq_nil_iff]
    intro e hm
    simp [Effect.isWrite_of_not_output (hes e hm)]
  rw [he, List.filter_append, this, List.append_nil]

theorem Keeps.of_source {w u v : World P} {l : Label} (h : Keeps u l v)
    (hb : u.conn.outputBuffer = w.conn.outputBuffer) (hs : u.conn.state = w.conn.state)
    (hc : u.conn.channel = w.conn.channel) (he : u.effects = w.effects) : Keeps w l v where
  buffer := h.buffer.trans hb
  effects := he ▸ h.effects
  writing := hc ▸ h.writing
  opened := hs ▸ h.opened
  closed := hs ▸ h.closed
  stays := hs ▸ h.stays
  quiet := hc ▸ h.quiet

theorem Keeps.of_same {w v : World P} {l : Label} (hb : v.conn.outputBuffer = w.conn.outputBuffer)
    (hs : v.conn.state = w.conn.state) (hc : v.conn.channel = w.conn.channel)
    (he : ∃ es, v.effects = w.effects ++ es ∧ ∀ e ∈ es, e.isOutput = false) : Keeps w l v where
  buffer := hb
  effects := he
  writing h := by rw [← hc]; exact h
  opened h := by rw [← hs]; exact h
  closed h := .inl (by rw [← hs]; exact h)
  stays h := by rw [hs]; exact h
  quiet h _ := by rw [hc]; exact h

theorem Keeps.refl (w : World P) (l : Label) : Keeps w l w := Keeps.of_same rfl rfl rfl ⟨[], by simp⟩

theorem Keeps.of_closed {w v : World P} {l : Label} (hb : v.conn.outputBuffer = w.conn.outputBuffer)
    (hs : v.conn.state = .kDisconnected) (hc : v.conn.channel.events = kNoneEvent)
    (he : ∃ es, v.effects = w.effects ++ es ∧ ∀ e ∈ es, e.isOutput = false) : Keeps w l v where
  buffer := hb
  effects := he
  writing h := by rw [Channel.isWriting_eq, hc] at h; cases h
  opened h := by rw [hs] at h; cases h
  closed _ := .inr hc
  stays _ := hs
  quiet _ _ := hc

theorem Keeps.of_removed {w v : World P} {l : Label} (hb : v.conn.outputBuffer = w.conn.outputBuffer)
    (hs : v.conn.state = w.conn.state) (hc : v.conn.channel.events = kNoneEvent)
    (he : ∃ es, v.effects = w.effects ++ es ∧ ∀ e ∈ es, e.isOutput = false) : Keeps w l v where
  buffer := hb
  effects := he
  writing h := by rw [Channel.isWriting_eq, hc] at h; cases h
  opened h := by rw [← hs]; exact h
  closed h := .inl (by rw [← hs]; exact h)
  stays h := by rw [hs]; exact h
  quiet _ _ := hc

theorem Keeps.of_closing {w v : World P} {l : Label} (hw : w.conn.state = .kConnected ∨ w.conn.state = .kDisconnecting)
    (hb : v.conn.outputBuffer = w.conn.outputBuffer) (hs : v.conn.state = .kDisconnecting)
    (hc : v.conn.channel = w.conn.channel) (he : v.effects = w.effects) : Keeps w l v where
  buffer := hb
  effects := ⟨[], by simp [he]⟩
  writing h := by rw [← hc]; exact h
  opened h := by rw [hs] at h; cases h
  closed h := by rw [hs] at h; cases h
  stays h := by rw [h] at hw; simp at hw
  quiet h _ := by rw [hc]; exact h

end

section
variable {P : Type} [Poller P]

inductive OutStep (w : World P) : Label → World P → Prop
  | sendPiece {m r v} (ha : w.answers r = true) (h : Sends w m r v) : OutStep w (.call (.sendPiece m r)) v
  | sendBuffer {m r v} (ha : w.answers r = true) (hs : w.conn.state = .kConnected) (h : Sends w m r v) :
      OutStep w (.call (.sendBuffer m r)) v
  | flush {r rr ts v} (ha : w.answers r = true) (ht : w.todo = .handleWrite :: ts)
      (h : Flushes { w with todo := ts } r v) : OutStep w (.task r rr) v
  | shutdown (hs : w.conn.state = .kConnected) : OutStep w (.call .shutdown) w.shutdown
  | keep {l v} (h : Keeps w l v) : OutStep w l v

variable [LawfulPoller P]

theorem handleClose_keeps {w v : World P} {l : Label} (h : w.handleClose = .ok v) : Keeps w l v := by
  obtain ⟨-, p, c, hc, rfl⟩ := handleClose_inv h
  exact .of_closed rfl rfl (Channel.disableAll_events hc) ⟨_, rfl, by simp [Effect.isOutput]⟩

theorem remove_keeps {w v : World P} {l : Label} (h : w.onChannel Channel.remove = .ok v) : Keeps w l v := by
  obtain ⟨p, c, hc, rfl⟩ := onChannel_inv h
  exact .of_removed rfl rfl (Channel.remove_events hc).2 ⟨[], by simp⟩

theorem connectDestroyed_keeps {w v : World P} {l : Label} (h : w.connectDestroyed = .ok v) : Keeps w l v := by
  rcases connectDestroyed_inv h with ⟨-, p, c, hc, rfl⟩ | ⟨-, p, c, hc, rfl⟩
  · exact .of_closed rfl rfl (Channel.disableAll_events hc) ⟨_, rfl, by simp [Effect.isOutput]⟩
  · exact .of_removed rfl rfl (Channel.remove_events hc).2 ⟨_, rfl, by simp [Effect.isOutput]⟩

theorem call_out {w v : World P} (hb : w.conn.outputBuffer.WF) {c : Call} (hp : w.possible (.call c) = true)
    (h : w.call c = .ok v) : OutStep w (.call c) v := by
  cases c with
  | sendPiece m r =>
    change w.sendPiece m r = .ok v at h
    rw [sendPiece_eq] at h
    exact .sendPiece hp (sendInLoop_inv hb h)
  | sendBuffer m r =>
    rcases sendBuffer_inv h with ⟨hs, h⟩ | ⟨-, rfl⟩
    · exact .sendBuffer hp hs (sendInLoop_inv hb h)
    · exact .keep (.refl v _)
  | shutdown =>
    cases h
    by_cases hs : w.conn.state = .kConnected
    · exact .shutdown hs
    · rw [World.shutdown, if_neg hs]; exact .keep (.refl w _)
  | forceClose =>
    cases h
    unfold World.forceClose
    split
    · exact .keep (.of_closing ‹_› rfl rfl rfl rfl)
    · exact .keep (.refl w _)
  | forceCloseWithDelay =>
    cases h
    unfold World.forceCloseWithDelay
    split
    · exact .keep (.of_closing ‹_› rfl rfl rfl rfl)
    · exact .keep (.refl w _)
  | startRead =>
    rcases startReadInLoop_inv h with rfl | ⟨p, c, hc, rfl⟩
    · exact .keep (.refl v _)
    · refine .keep ⟨rfl, ⟨[], by simp⟩, fun hw => ?_, id, .inl, id, fun _ hl => absurd rfl hl⟩
      rw [Channel.isWriting_eq, Channel.enableReading_events hc] at hw
      rw [Channel.isWriting_eq]
      simpa [Events.union, kReadEvent] using hw
  | stopRead =>
    rcases stopReadInLoop_inv h with rfl | ⟨-, p, c, hc, rfl⟩
    · exact .keep (.refl v _)
    · refine .keep ⟨rfl, ⟨[], by simp⟩, fun hw => ?_, id, .inl, id, fun hn _ => ?_⟩
      · rw [Channel.isWriting_eq, Channel.disableReading_events hc] at hw
        rw [Channel.isWriting_eq]
        simpa [Events.diff, kReadEvent] using hw
      · change c.events = _
        rw [Channel.disableReading_events hc, hn]
        rfl
  | setWriteCompleteCallback => cases h; exact .keep (.of_same rfl rfl rfl ⟨[], by simp⟩)
  | setHighWaterMarkCallback m => cases h; exact .keep (.of_same rfl rfl rfl ⟨[], by simp⟩)

theorem runFunctor_keeps {w v : World P} {f : Functor} {l : Label} (h : w.runFunctor f = .ok v) : Keeps w l v := by
  cases f with
  | forceCloseInLoop =>
    change w.forceCloseInLoop = .ok v at h
    unfold forceCloseInLoop at h
    split at h
    · exact handleClose_keeps h
    · cases h; exact .refl w _
  | connectDestroyed => exact connectDestroyed_keeps h
  | writeComplete => cases h; exact .of_same rfl rfl rfl ⟨_, rfl, by simp [Effect.isOutput]⟩
  | highWaterMark len => cases h; exact .of_same rfl rfl rfl ⟨_, rfl, by simp [Effect.isOutput]⟩

theorem runTask_keeps {w v : World P} {t : Task} {wr : WriteResult} {rr : ReadResult} {l : Label}
    (ht : t ≠ .handleWrite) (h : w.runTask wr rr t = .ok v) : Keeps w l v := by
  cases t with
  | handleClose => exact handleClose_keeps h
  | handleError => cases h; exact .refl w _
  | handleRead =>
    obtain ⟨b, (rfl | rfl) | ⟨-, h⟩⟩ := handleRead_inv h
    · exact .of_same rfl rfl rfl ⟨[], by simp⟩
    · exact .of_same rfl rfl rfl ⟨_, rfl, by simp [Effect.isOutput]⟩
    · have hk := handleClose_keeps h (l := l)
      exact hk.of_source rfl rfl rfl rfl
  | handleWrite => exact absurd rfl ht
  | closeCallback =>
    rcases closeCallback_inv h with rfl | rfl
    · exact .of_same rfl rfl rfl ⟨_, rfl, by simp [Effect.isOutput]⟩
    · exact .of_same rfl rfl rfl ⟨_, rfl, by simp [Effect.isOutput]⟩
  | channelRemove => exact remove_keeps h
  | functor f => exact runFunctor_keeps h

theorem step_out {w v : World P} (hb : w.conn.outputBuffer.WF) {l : Label} (h : w.step l = .ok v) : OutStep w l v := by
  unfold step at h
  split at h
  · rename_i hp
    cases l with
    | call c => exact call_out hb hp h
    | poll rev => cases h; exact .keep (.of_same rfl rfl rfl ⟨[], by simp⟩)
    | task wr rr =>
      unfold act at h
      dsimp only at h
      split at h
      · cases h; exact .keep (.refl w _)
      · rename_i t ts ht
        by_cases htw : t = .handleWrite
        · subst htw
          exact .flush hp ht (handleWrite_inv (w := { w with todo := ts }) hb h)
        · have hk := runTask_keeps (l := .task wr rr) htw h
          exact .keep (hk.of_source rfl rfl rfl rfl)
    | doPendingFunctors => cases h; exact .keep (.of_same rfl rfl rfl ⟨[], by simp⟩)
    | endIteration => cases h; exact .keep (.of_same rfl rfl rfl ⟨[], by simp⟩)
    | removeConnectionInLoop =>
      have hv := removeConnectionInLoop_inv h
      subst hv
      exact .keep (.of_same rfl rfl rfl ⟨[], by simp⟩)
    | destroy =>
      unfold act destroy at h
      dsimp only at h
      split at h
      · have hk := connectDestroyed_keeps h (l := .destroy)
        exact .keep (hk.of_source rfl rfl rfl rfl)
      · cases h; exact .keep (.of_same rfl rfl rfl ⟨[], by simp [queueInLoop]⟩)
  · cases h; exact .keep (.refl w _)

/-! ## Failing assertions -/

theorem sendInLoop_stops (w : World P) (m : Bytes) (r : WriteResult) :
    Stops (·.lifeCycle = false) (w.sendInLoop m r) := by
  unfold sendInLoop
  refine check_stops (fun _ => rfl) fun _ => Stops.ite (fun _ => ?_) fun _ => Stops.ok _
  unfold appendOutput
  refine (Buffer.append_stops _ _).bind fun _ _ => Stops.ite (fun _ => Stops.ok _) fun _ => ?_
  exact onChannel_stops (Channel.enableWriting_stops _ _)

theorem handleWrite_stops (w : World P) (r : WriteResult) : Stops (·.lifeCycle = false) (w.handleWrite r) := by
  unfold handleWrite
  refine Stops.ite (fun _ => Stops.ite (fun _ => ?_) fun _ => Stops.ok _) fun _ => Stops.ok _
  refine (Buffer.retrieve_stops _ _).bind fun _ _ => Stops.ite (fun _ => ?_) fun _ => Stops.ok _
  exact (onChannel_stops (Channel.disableWriting_stops _ _)).bind fun _ _ =>
    Stops.ite (fun _ => Stops.ok _) fun _ => Stops.ok _

theorem remove_stops (p : P) (c : Channel) :
    Stops (fun f => f.lifeCycle = false ∨ f = .channelRemove ∧ c.events ≠ kNoneEvent) (Channel.remove p c) := by
  unfold Channel.remove
  refine check_stops (fun hn => .inr ⟨rfl, fun hc => hn (Channel.isNoneEvent_iff.mpr hc)⟩) fun _ => ?_
  exact (LawfulPoller.removeChannel_stops _ _).mono fun _ => .inl

theorem handleClose_stops (w : World P) :
    Stops (fun f => f.lifeCycle = false ∨
      f = .handleClose ∧ ¬ (w.conn.state = .kConnected ∨ w.conn.state = .kDisconnecting)) w.handleClose := by
  unfold handleClose
  refine check_stops (fun hn => .inr ⟨rfl, hn⟩) fun _ => Stops.bind ?_ fun _ _ => Stops.ok _
  exact onChannel_stops ((Channel.disableAll_stops _ _).mono fun _ => .inl)

theorem connectDestroyed_stops (w : World P) :
    Stops (fun f => f.lifeCycle = false ∨ f = .channelRemove ∧ w.conn.channel.events ≠ kNoneEvent)
      w.connectDestroyed := by
  unfold connectDestroyed
  refine Stops.ite (fun _ => Stops.bind ?_ fun _ _ => Stops.ok _) fun _ => onChannel_stops (remove_stops _ _)
  exact onChannel_stops ((Channel.disableAll_stops _ _).mono fun _ => .inl)

theorem call_stops (w : World P) (c : Call) : Stops (·.lifeCycle = false) (w.call c) := by
  cases c with
  | sendPiece m r =>
    change Stops _ (w.sendPiece m r)
    rw [sendPiece_eq]
    exact sendInLoop_stops w m r
  | sendBuffer m r => exact Stops.ite (fun _ => sendInLoop_stops w m r) fun _ => Stops.ok _
  | startRead =>
    exact Stops.ite (fun _ => (onChannel_stops (Channel.enableReading_stops _ _)).bind fun _ _ => Stops.ok _)
      fun _ => Stops.ok _
  | stopRead =>
    exact Stops.ite (fun _ => (onChannel_stops (Channel.disableReading_stops _ _)).bind fun _ _ => Stops.ok _)
      fun _ => Stops.ok _
  | shutdown | forceClose | forceCloseWithDelay | setWriteCompleteCallback | setHighWaterMarkCallback =>
    exact Stops.ok _

omit [Poller P] [LawfulPoller P] in
theorem removeConnectionInLoop_stops (w : World P) : Stops (·.lifeCycle = false) w.removeConnectionInLoop := by
  unfold removeConnectionInLoop
  exact check_stops (fun _ => rfl) fun _ => Stops.ok _

/-- When the two assertions on the life cycle fail: `channel_->remove()` of a
channel with events, and `handleClose` of a connection that is closed. -/
def LifeCycleFault (w : World P) (f : Fault) : Prop :=
  f = .channelRemove ∧ w.conn.channel.events ≠ kNoneEvent ∨
  f = .handleClose ∧ ¬ (w.conn.state = .kConnected ∨ w.conn.state = .kDisconnecting) ∧
    ∃ ts, w.todo = .handleClose :: ts ∨ w.todo = .handleRead :: ts

theorem runTask_stops (w : World P) {t : Task} {ts : List Task} (ht : w.todo = t :: ts) (wr : WriteResult)
    (rr : ReadResult) : Stops (fun f => f.lifeCycle = false ∨ w.LifeCycleFault f)
    ({ w with todo := ts }.runTask wr rr t) := by
  cases t with
  | handleClose =>
    exact (handleClose_stops { w with todo := ts }).mono fun f hf => hf.imp_right fun h => .inr ⟨h.1, h.2, ts, .inl ht⟩
  | handleError => exact Stops.ok _
  | handleRead =>
    refine Stops.bind ((Buffer.readFd_stops _ _).mono fun _ => .inl) fun a _ => Stops.ite (fun _ => Stops.ok _)
      fun _ => ?_
    refine Stops.ite (fun _ => ?_) fun _ => Stops.ok _
    exact (handleClose_stops _).mono fun f hf => hf.imp_right fun h => .inr ⟨h.1, h.2, ts, .inr ht⟩
  | handleWrite => exact (handleWrite_stops _ _).mono fun _ => .inl
  | closeCallback =>
    exact Stops.ite (fun _ => (removeConnectionInLoop_stops _).mono fun _ => .inl) fun _ => Stops.ok _
  | channelRemove => exact onChannel_stops ((remove_stops _ _).mono fun f hf => hf.imp_right .inl)
  | functor f =>
    cases f with
    | forceCloseInLoop =>
      refine Stops.ite (fun hs => ?_) fun _ => Stops.ok _
      exact (handleClose_stops _).mono fun f hf => hf.imp_right fun h => absurd hs h.2
    | connectDestroyed => exact (connectDestroyed_stops _).mono fun f hf => hf.imp_right .inl
    | writeComplete => exact Stops.ok _
    | highWaterMark => exact Stops.ok _

theorem step_stops (w : World P) (l : Label) :
    Stops (fun f => f.lifeCycle = false ∨ w.LifeCycleFault f) (w.step l) := by
  refine Stops.ite (fun _ => ?_) fun _ => Stops.ok _
  cases l with
  | call c => exact (call_stops w c).mono fun _ => .inl
  | task wr rr =>
    unfold act
    dsimp only
    split
    · exact Stops.ok _
    · exact runTask_stops w ‹_› wr rr
  | removeConnectionInLoop => exact (removeConnectionInLoop_stops _).mono fun _ => .inl
  | destroy =>
    refine Stops.ite (fun _ => ?_) fun _ => Stops.ok _
    exact (connectDestroyed_stops { w with owned := false }).mono fun f hf => hf.imp_right .inl
  | poll | doPendingFunctors | endIteration => exact Stops.ok _

end

end World

end Zhengqi
