import Zhengqi.CloseOnceSound
import Zhengqi.OutputTotalSound

/-!
# Destroying a live connection

`~TcpServer` runs `connectDestroyed` on the connections that are left. On a connection in
`kConnected` it calls the DOWN callback, and removes the channel unless that callback has
armed it again. On one in `kDisconnecting`, after `shutdown` or `forceCloseWithDelay`, it
goes straight to `channel_->remove()`.
-/

namespace Zhengqi

open Run

namespace World

variable {P : Type} [Poller P]

/-- `connectDestroyed` with the calls that `connectionCallback_` makes on the DOWN event. -/
def connectDestroyedWith (w : World P) (down : List Call) : Except Fault (World P) := do
  let v ← w.connectDestroyed
  if w.conn.state = .kConnected then do
    let v ← run World.call v down
    -- `channel_->remove()`
    v.step (.task (.room 0) (.data []))
  else pure v

end World

/-- `sendInLoop` is done with the message: the kernel takes all of it, or the connection is broken. -/
def WriteResult.settles (m : Bytes) : WriteResult → Bool
  | .room n => m.length ≤ n
  | .error e => e.isFault

/-- Whether the channel reads after the call. -/
def Call.reads (reading : Bool) : Call → Bool
  | .startRead => true
  | .stopRead => false
  | _ => reading

/-- Tasks that come after the connection has closed. -/
def Task.closing : Task → Bool
  | .closeCallback | .channelRemove | .functor .connectDestroyed => true
  | _ => false

namespace World

variable {w v : World EPollPoller}

/-! ## Steps that leave the connection alive -/

/-- What a step does that neither closes the connection nor removes its channel. -/
structure Serves (w v : World EPollPoller) : Prop where
  held : EPollPoller.Held w.poller w.conn.channel → EPollPoller.Held v.poller v.conn.channel
  wf : v.conn.outputBuffer.WF
  todo : v.todo = w.todo
  removals : v.removals = w.removals
  pending : ∃ fs, v.pendingFunctors = w.pendingFunctors ++ fs ∧ .connectDestroyed ∉ fs
  effects : ∃ es, v.effects = w.effects ++ es ∧ ∀ e ∈ es, e.isClosing = false
  state : v.conn.state = w.conn.state ∨
    (w.conn.state = .kConnected ∨ w.conn.state = .kDisconnecting) ∧ v.conn.state = .kDisconnecting

theorem Serves.of_quiet (hb : v.conn.outputBuffer.WF) (hp : v.poller = w.poller)
    (hc : v.conn.channel = w.conn.channel) (hs : v.conn.state = w.conn.state) (ht : v.todo = w.todo)
    (hr : v.removals = w.removals) (hf : v.pendingFunctors = w.pendingFunctors)
    (he : ∃ es, v.effects = w.effects ++ es ∧ ∀ e ∈ es, e.isClosing = false) : Serves w v where
  held h := by rw [hp, hc]; exact h
  wf := hb
  todo := ht
  removals := hr
  pending := ⟨[], by simp [hf]⟩
  effects := he
  state := .inl hs

theorem Serves.of_sends {m : Bytes} {r : WriteResult} (h : Sends w m r v) : Serves w v where
  held hh := by
    by_cases hl : w.leftover m r = []
    · obtain ⟨hp, hc⟩ := h.untouched hl
      rw [hp, hc]; exact hh
    · cases hw : w.conn.channel.isWriting with
      | true =>
        obtain ⟨hp, hc⟩ := h.quiet hw
        rw [hp, hc]; exact hh
      | false => exact hh.of_update (h.armed hl hw)
  wf := h.wf
  todo := h.frame.todo
  removals := h.frame.removals
  pending := by
    obtain ⟨fs, hp, -, hfs⟩ := h.notifies
    exact ⟨fs, hp, hfs⟩
  effects := ⟨_, h.effects, sendEffects_closing w m r⟩
  state := .inl h.frame.state

theorem Serves.of_flushes {r : WriteResult} (h : Flushes w r v) : Serves w v where
  held hh := by
    by_cases hd : w.Drains r
    · exact hh.of_update (h.disarmed hd)
    · obtain ⟨hp, hc⟩ := h.quiet hd
      rw [hp, hc]; exact hh
  wf := h.wf
  todo := h.frame.todo
  removals := h.frame.removals
  pending := by
    obtain ⟨fs, hp, -, hfs⟩ := h.notifies
    exact ⟨fs, hp, hfs⟩
  effects := ⟨_, h.effects, flushEffects_closing w r⟩
  state := .inl h.frame.state

theorem Serves.of_update (hb : w.conn.outputBuffer.WF) {ev : Events} {p : EPollPoller} {c : Channel} {reading : Bool}
    (hu : w.poller.updateChannel { w.conn.channel with events := ev, addedToLoop := true } = .ok (p, c)) :
    Serves w { w with poller := p, conn := { w.conn with channel := c, reading } } where
  held hh := hh.of_update hu
  wf := hb
  todo := rfl
  removals := rfl
  pending := ⟨[], by simp⟩
  effects := ⟨[], by simp⟩
  state := .inl rfl

theorem Serves.of_closing (hb : w.conn.outputBuffer.WF)
    (hs : w.conn.state = .kConnected ∨ w.conn.state = .kDisconnecting)
    (fs : List Functor) (hfs : .connectDestroyed ∉ fs) (es : List Effect) (hes : ∀ e ∈ es, e.isClosing = false) :
    Serves w { w.setState .kDisconnecting with
      pendingFunctors := w.pendingFunctors ++ fs, effects := w.effects ++ es } where
  held := id
  wf := hb
  todo := rfl
  removals := rfl
  pending := ⟨fs, rfl, hfs⟩
  effects := ⟨es, rfl, hes⟩
  state := .inr ⟨hs, rfl⟩

theorem Serves.refl (hb : w.conn.outputBuffer.WF) : Serves w w :=
  .of_quiet hb rfl rfl rfl rfl rfl rfl ⟨[], by simp⟩

theorem call_serves (hb : w.conn.outputBuffer.WF) {c : Call} (h : w.call c = .ok v) : Serves w v := by
  cases c with
  | sendPiece m r =>
    change w.sendPiece m r = .ok v at h
    rw [sendPiece_eq] at h
    exact .of_sends (sendInLoop_inv hb h)
  | sendBuffer m r =>
    rcases sendBuffer_inv h with ⟨-, h⟩ | ⟨-, rfl⟩
    · exact .of_sends (sendInLoop_inv hb h)
    · exact .refl hb
  | shutdown =>
    cases h
    by_cases hs : w.conn.state = .kConnected
    · obtain ⟨es, hv, hes⟩ := shutdown_inv hs
      rw [hv]
      have hes : ∀ e ∈ es, e.isClosing = false := by
        rcases hes with rfl | ⟨-, rfl⟩ <;> simp [Effect.isClosing]
      have := Serves.of_closing hb (.inl hs) [] List.not_mem_nil es hes
      rw [List.append_nil] at this
      exact this
    · rw [World.shutdown, if_neg hs]
      exact .refl hb
  | forceClose =>
    cases h
    unfold World.forceClose
    split
    · have := Serves.of_closing hb ‹_› [.forceCloseInLoop] (by simp) [] (by simp)
      rw [List.append_nil] at this
      exact this
    · exact .refl hb
  | forceCloseWithDelay =>
    cases h
    unfold World.forceCloseWithDelay
    split
    · have := Serves.of_closing hb ‹_› [] List.not_mem_nil [] (by simp)
      rw [List.append_nil, List.append_nil] at this
      exact this
    · exact .refl hb
  | startRead =>
    rcases startReadInLoop_inv h with rfl | ⟨p, c, hc, rfl⟩
    · exact .refl hb
    · exact .of_update hb hc
  | stopRead =>
    rcases stopReadInLoop_inv h with rfl | ⟨-, p, c, hc, rfl⟩
    · exact .refl hb
    · exact .of_update hb hc
  | setWriteCompleteCallback => cases h; exact .of_quiet hb rfl rfl rfl rfl rfl rfl ⟨[], by simp⟩
  | setHighWaterMarkCallback m => cases h; exact .of_quiet hb rfl rfl rfl rfl rfl rfl ⟨[], by simp⟩

/-! ## The live states -/

structure Live (w : World EPollPoller) : Prop where
  wf : w.conn.outputBuffer.WF
  held : EPollPoller.Held w.poller w.conn.channel
  state : w.conn.state = .kConnected ∨ w.conn.state = .kDisconnecting
  todo : ∀ t ∈ w.todo, t.closing = false
  removals : w.removals = 0
  pending : .connectDestroyed ∉ w.pendingFunctors
  downs : w.effects.count (.connectionCallback false) = 0

theorem Live.serves (h : w.Live) (hs : Serves w v) : v.Live := by
  obtain ⟨fs, hp, hfs⟩ := hs.pending
  obtain ⟨es, he, hes⟩ := hs.effects
  refine ⟨hs.wf, hs.held h.held, ?_, hs.todo ▸ h.todo, hs.removals.trans h.removals, ?_, ?_⟩
  · rcases hs.state with hst | ⟨-, hst⟩
    · rw [hst]; exact h.state
    · exact .inr hst
  · rw [hp, List.mem_append, not_or]
    exact ⟨h.pending, hfs⟩
  · rw [he, List.count_append, count_closing hes rfl]
    exact h.downs

theorem Live.pop (h : w.Live) {t : Task} {ts : List Task} (ht : w.todo = t :: ts) : { w with todo := ts }.Live :=
  { h with todo := fun t' ht' => h.todo t' (ht ▸ List.mem_cons_of_mem t ht') }

/-- `handleClose` has been entered. -/
structure Closed (w : World EPollPoller) : Prop where
  wf : w.conn.outputBuffer.WF
  state : w.conn.state = .kDisconnected

theorem Live.handleClose (h : w.Live) (hv : w.handleClose = .ok v) : v.Closed := by
  obtain ⟨-, p, c, -, rfl⟩ := handleClose_inv hv
  exact ⟨h.wf, rfl⟩

theorem Live.task (h : w.Live) {t : Task} {ts : List Task} (ht : w.todo = t :: ts) {wr : WriteResult} {rr : ReadResult}
    (hv : { w with todo := ts }.runTask wr rr t = .ok v) : v.Live ∨ v.Closed := by
  have hl := h.pop ht
  have ht' := h.todo t (ht ▸ List.mem_cons_self ..)
  cases t with
  | handleClose => exact .inr (hl.handleClose hv)
  | handleError => cases hv; exact .inl hl
  | handleRead =>
    obtain ⟨b, (rfl | rfl) | ⟨-, hv⟩⟩ := handleRead_inv hv
    · exact .inl (hl.serves (.of_quiet h.wf rfl rfl rfl rfl rfl rfl ⟨[], by simp⟩))
    · exact .inl (hl.serves (.of_quiet h.wf rfl rfl rfl rfl rfl rfl ⟨_, rfl, by simp [Effect.isClosing]⟩))
    · have hb : { w with todo := ts, conn := { w.conn with inputBuffer := b } }.Live :=
        hl.serves (.of_quiet h.wf rfl rfl rfl rfl rfl rfl ⟨[], by simp⟩)
      exact .inr (hb.handleClose hv)
  | handleWrite => exact .inl (hl.serves (.of_flushes (handleWrite_inv hl.wf hv)))
  | closeCallback => cases ht'
  | channelRemove => cases ht'
  | functor f =>
    cases f with
    | forceCloseInLoop =>
      rcases ite_ok hv with ⟨-, hv⟩ | ⟨-, hv⟩
      · exact .inr (hl.handleClose hv)
      · cases hv; exact .inl hl
    | connectDestroyed => cases ht'
    | writeComplete =>
      cases hv
      exact .inl (hl.serves (.of_quiet h.wf rfl rfl rfl rfl rfl rfl ⟨_, rfl, by simp [Effect.isClosing]⟩))
    | highWaterMark len =>
      cases hv
      exact .inl (hl.serves (.of_quiet h.wf rfl rfl rfl rfl rfl rfl ⟨_, rfl, by simp [Effect.isClosing]⟩))

theorem handleEvent_closing {rev : Events} {t : Task} (h : t ∈ handleEventWithGuard rev) : t.closing = false := by
  unfold handleEventWithGuard at h
  simp only [List.mem_append] at h
  rcases h with ((h | h) | h) | h <;> split at h <;> simp at h <;> subst h <;> rfl

theorem Live.step (h : w.Live) {l : Label} (hl : l ≠ .destroy) (hv : w.step l = .ok v) : v.Live ∨ v.Closed := by
  rcases ite_ok hv with ⟨hp, hv⟩ | ⟨-, hv⟩
  · cases l with
    | call c => exact .inl (h.serves (call_serves h.wf hv))
    | poll rev =>
      cases hv
      exact .inl { h with todo := fun t ht => handleEvent_closing ht }
    | task wr rr =>
      cases ht : w.todo with
      | nil =>
        simp only [act, ht] at hv
        cases hv
        exact .inl h
      | cons t ts =>
        simp only [act, ht] at hv
        exact h.task ht hv
    | doPendingFunctors =>
      cases hv
      refine .inl { h with todo := fun t ht => ?_, pending := List.not_mem_nil }
      obtain ⟨f, hf, rfl⟩ := List.mem_map.mp ht
      cases f with
      | connectDestroyed => exact absurd hf h.pending
      | _ => rfl
    | endIteration =>
      cases hv
      exact .inl { h with }
    | removeConnectionInLoop =>
      simp [possible, h.removals] at hp
    | destroy => exact absurd rfl hl
  · cases hv
    exact .inl h

theorem newConnection_live {p : EPollPoller} {addr : Nat} {sockfd : Int} {phase : Phase} {sameLoop : Bool}
    (hw : newConnection p addr sockfd phase sameLoop = .ok w) : w.Live := by
  obtain ⟨q, c, hc, rfl⟩ := newConnection_inv hw
  change p.updateChannel { addr, fd := sockfd, events := kNoneEvent.union kReadEvent, addedToLoop := true } = _ at hc
  refine ⟨Buffer.fresh_wf (by decide), EPollPoller.held_of_new rfl hc, .inl rfl, ?_, rfl, ?_, rfl⟩
  · simp
  · simp

theorem Closed.step (h : w.Closed) {l : Label} (hv : w.step l = .ok v) : v.Closed := by
  obtain ⟨hb, hc⟩ := h
  cases step_out hb hv with
  | sendPiece _ h => exact ⟨h.wf, h.frame.state.trans hc⟩
  | sendBuffer _ _ h => exact ⟨h.wf, h.frame.state.trans hc⟩
  | flush _ _ h => exact ⟨h.wf, h.frame.state.trans hc⟩
  | shutdown hs => rw [hc] at hs; cases hs
  | keep h => exact ⟨h.buffer ▸ hb, h.stays hc⟩

/-- Up to the first `handleClose` the connection is live. -/
theorem Live.of_run (h : w.Live) {ls : List Label} (hd : .destroy ∉ ls) (hv : run World.step w ls = .ok v)
    (ho : v.conn.state ≠ .kDisconnected) : v.Live := by
  have hm : Meets World.step (fun _ l => l ≠ .destroy) w ls :=
    Meets.of_forall fun l hl _ he => hd (he ▸ hl)
  have hi : v.Live ∨ v.Closed := by
    refine hm.inv (I := fun v => v.Live ∨ v.Closed) ?_ (.inl h) hv
    rintro u l t (hu | hu) hl ht
    · exact hu.step hl ht
    · exact .inr (hu.step ht)
  exact hi.resolve_right fun hc => ho hc.state

/-! ## Destruction -/

/-- In `connectDestroyed`, while `connectionCallback_` runs. -/
structure Down (w : World EPollPoller) (ts : List Task) : Prop where
  wf : w.conn.outputBuffer.WF
  held : EPollPoller.Held w.poller w.conn.channel
  state : w.conn.state = .kDisconnected
  todo : w.todo = .channelRemove :: ts
  downs : w.effects.count (.connectionCallback false) = 1

theorem Live.connectDestroyed (h : w.Live) (hc : w.conn.state = .kConnected) :
    ∃ v, w.connectDestroyed = .ok v ∧ v.Down w.todo ∧ v.conn.channel.events = kNoneEvent ∧
      v.conn.outputBuffer = w.conn.outputBuffer := by
  obtain ⟨p, c, hu, hh⟩ := h.held.updateChannel kNoneEvent
  have hda : Channel.disableAll w.poller w.conn.channel = .ok (p, c) := hu
  refine ⟨{ w with
    poller := p, conn := { w.conn with state := .kDisconnected, channel := c }
    effects := w.effects ++ [.connectDestroyed, .connectionCallback false], todo := .channelRemove :: w.todo },
    ?_, ?_, Channel.disableAll_events hda, rfl⟩
  · simp [World.connectDestroyed, log, setState, hc, onChannel, hda]
  · refine ⟨h.wf, hh, rfl, rfl, ?_⟩
    simp [List.count_append, h.downs]

theorem Down.call (h : w.Down ts) {c : Call} (hv : w.call c = .ok v) : v.Down ts := by
  have hs := call_serves h.wf hv
  obtain ⟨es, he, hes⟩ := hs.effects
  refine ⟨hs.wf, hs.held h.held, ?_, hs.todo.trans h.todo, ?_⟩
  · rcases hs.state with hst | ⟨hst, -⟩
    · exact hst.trans h.state
    · rw [h.state] at hst
      simp at hst
  · rw [he, List.count_append, count_closing hes rfl]
    exact h.downs

/-- `channel_->remove()` at the end of `connectDestroyed`. -/
theorem Down.remove (h : w.Down ts) (hn : w.conn.channel.isNoneEvent = true) :
    ∃ v, w.step (.task (.room 0) (.data [])) = .ok v ∧ v.effects = w.effects ∧ v.conn.state = w.conn.state := by
  obtain ⟨p, c, hr⟩ := h.held.removeChannel (Channel.isNoneEvent_iff.mp hn)
  have hrm : Channel.remove w.poller w.conn.channel = .ok (p, c) := by
    rw [Channel.remove, check_of hn]
    exact hr
  refine ⟨{ w with todo := ts, poller := p, conn := { w.conn with channel := c } }, ?_, rfl, rfl⟩
  simp [World.step, possible, answers, act, h.todo, runTask, onChannel, hrm]

theorem Down.none_of_remove (h : w.Down ts) (hv : w.step (.task (.room 0) (.data [])) = .ok v) :
    w.conn.channel.isNoneEvent = true := by
  simp only [World.step, possible, answers, act, h.todo, runTask] at hv
  obtain ⟨p, c, hr, -⟩ := onChannel_inv hv
  exact Channel.isNoneEvent_iff.mpr (Channel.remove_events hr).1

end World

/-! ### The calls of the DOWN callback -/

/-- The call makes the channel write, in a connection that has closed with `queued` in its output
buffer: `send(Buffer *)` does nothing there, and a message queues up behind what is there already. -/
def Call.arms (queued : Bytes) : Call → Bool
  | .sendPiece m r => !m.isEmpty && !(queued.isEmpty && r.settles m)
  | _ => false

/-- Whether the channel reads, and whether it writes. -/
def Call.next (queued : Bytes) (armed : Bool × Bool) (c : Call) : Bool × Bool :=
  (c.reads armed.1, armed.2 || c.arms queued)

theorem Call.foldl_next (queued : Bytes) (down : List Call) (armed : Bool × Bool) :
    down.foldl (Call.next queued) armed = (down.foldl Call.reads armed.1, armed.2 || down.any (Call.arms queued)) := by
  induction down generalizing armed with
  | nil => simp
  | cons c down ih => simp only [List.foldl_cons, ih, Call.next, List.any_cons, Bool.or_assoc]

theorem Call.arms_iff {queued : Bytes} {down : List Call} : down.any (Call.arms queued) = false ↔
    ∀ m r, .sendPiece m r ∈ down → m = [] ∨ queued = [] ∧ r.settles m = true := by
  rw [List.any_eq_false]
  constructor
  · intro h m r hm
    have := h _ hm
    simpa [Call.arms, Classical.or_iff_not_imp_left] using this
  · intro h c hc
    cases c with
    | sendPiece m r =>
      have := h m r hc
      simpa [Call.arms, Classical.or_iff_not_imp_left] using this
    | _ => simp [Call.arms]

namespace World

variable {w v : World EPollPoller} {ts : List Task}

structure Armed (queued : Bytes) (ts : List Task) (w : World EPollPoller) (armed : Bool × Bool) : Prop where
  down : w.Down ts
  events : w.conn.channel.events = { pollin := armed.1, pollpri := armed.1, pollout := armed.2 }
  queued : armed.2 = false → w.conn.outputBuffer.readable = queued

variable {queued : Bytes} {armed : Bool × Bool}

theorem Armed.isWriting (h : Armed queued ts w armed) : w.conn.channel.isWriting = armed.2 := by
  rw [Channel.isWriting_eq, h.events]

theorem Armed.isReading (h : Armed queued ts w armed) : w.conn.channel.isReading = armed.1 := by
  rw [Channel.isReading_eq, h.events, Bool.or_self]

theorem leftover_eq_nil {m : Bytes} {r : WriteResult} (hw : w.conn.channel.isWriting = false) :
    w.leftover m r = [] ↔ Call.arms w.conn.outputBuffer.readable (.sendPiece m r) = false := by
  unfold leftover
  by_cases hi : w.Idle
  · rw [if_pos hi, hi.2]
    cases r with
    | room n =>
      rw [List.drop_eq_nil_iff]
      cases m <;> simp [Call.arms, WriteResult.settles]
    | error e =>
      cases he : e.isFault <;> cases m <;> simp [Call.arms, WriteResult.settles, he]
  · have hq : w.conn.outputBuffer.readable ≠ [] := fun hq => hi ⟨hw, hq⟩
    rw [if_neg hi]
    cases hr : w.conn.outputBuffer.readable with
    | nil => exact absurd hr hq
    | cons b bs => cases m <;> simp [Call.arms]

theorem Armed.send (h : Armed queued ts w armed) {m : Bytes} {r : WriteResult} (hd : v.Down ts) (hs : Sends w m r v) :
    Armed queued ts v (Call.next queued armed (.sendPiece m r)) := by
  obtain ⟨reading, writing⟩ := armed
  cases writing with
  | true =>
    refine ⟨hd, ?_, fun hf => by cases hf⟩
    rw [(hs.quiet h.isWriting).2]
    exact h.events
  | false =>
    have hq := h.queued rfl
    have hl := leftover_eq_nil (m := m) (r := r) h.isWriting
    rw [hq] at hl
    cases ha : Call.arms queued (.sendPiece m r) with
    | false =>
      obtain ⟨-, hc⟩ := hs.untouched (hl.mpr ha)
      refine ⟨hd, ?_, fun _ => by rw [hc, hq]⟩
      rw [hc, h.events]
      simp [Call.next, Call.reads, ha]
    | true =>
      have hne : w.leftover m r ≠ [] := fun he => by rw [hl.mp he] at ha; cases ha
      refine ⟨hd, ?_, fun hf => by simp [Call.next, ha] at hf⟩
      rw [Channel.enableWriting_events (hs.armed hne h.isWriting), h.events]
      cases reading <;> simp [Call.next, Call.reads, ha, Events.union, kWriteEvent]

theorem Armed.call (h : Armed queued ts w armed) {c : Call} (hv : w.call c = .ok v) :
    Armed queued ts v (Call.next queued armed c) := by
  have hd := h.down.call hv
  have hidle : c.reads armed.1 = armed.1 → c.arms queued = false → Call.next queued armed c = armed := by
    intro hr ha
    rw [Call.next, hr, ha, Bool.or_false]
  have hst : w.conn.state = .kDisconnected := h.down.state
  cases c with
  | sendPiece m r =>
    change w.sendPiece m r = .ok v at hv
    rw [sendPiece_eq] at hv
    exact h.send hd (sendInLoop_inv h.down.wf hv)
  | startRead =>
    rcases ite_ok hv with ⟨-, hv⟩ | ⟨hn, hv⟩
    · obtain ⟨u, hu, hv⟩ := bind_ok.mp hv
      obtain ⟨p, c, hc, rfl⟩ := onChannel_inv hu
      cases hv
      refine ⟨hd, ?_, fun hf => h.queued (by simpa [Call.next, Call.arms] using hf)⟩
      rw [Channel.enableReading_events hc, h.events]
      simp [Call.next, Call.reads, Call.arms, Events.union, kReadEvent]
    · cases hv
      rw [not_or, Bool.not_eq_false, Bool.not_eq_false, h.isReading] at hn
      rw [hidle hn.2.symm rfl]
      exact h
  | stopRead =>
    rcases ite_ok hv with ⟨-, hv⟩ | ⟨hn, hv⟩
    · obtain ⟨u, hu, hv⟩ := bind_ok.mp hv
      obtain ⟨p, c, hc, rfl⟩ := onChannel_inv hu
      cases hv
      refine ⟨hd, ?_, fun hf => h.queued (by simpa [Call.next, Call.arms] using hf)⟩
      rw [Channel.disableReading_events hc, h.events]
      simp [Call.next, Call.reads, Call.arms, Events.diff, kReadEvent]
    · cases hv
      rw [not_or, Bool.not_eq_true, Bool.not_eq_true, h.isReading] at hn
      rw [hidle hn.2.symm rfl]
      exact h
  | sendBuffer m r =>
    rcases sendBuffer_inv hv with ⟨hs, -⟩ | ⟨-, rfl⟩
    · rw [hst] at hs
      cases hs
    · rw [hidle rfl rfl]
      exact h
  | shutdown =>
    cases hv
    rw [World.shutdown, if_neg (by simp [hst])] at hd ⊢
    rw [hidle rfl rfl]
    exact h
  | forceClose =>
    cases hv
    rw [World.forceClose, if_neg (by simp [hst])] at hd ⊢
    rw [hidle rfl rfl]
    exact h
  | forceCloseWithDelay =>
    cases hv
    rw [World.forceCloseWithDelay, if_neg (by simp [hst])] at hd ⊢
    rw [hidle rfl rfl]
    exact h
  | setWriteCompleteCallback =>
    cases hv
    rw [hidle rfl rfl]
    exact ⟨hd, h.events, h.queued⟩
  | setHighWaterMarkCallback m =>
    cases hv
    rw [hidle rfl rfl]
    exact ⟨hd, h.events, h.queued⟩

theorem Armed.call_total (h : Armed queued ts w armed) (hw : armed.2 = false) {c : Call} (hc : c.arms queued = false) :
    ∃ v, w.call c = .ok v := by
  have hheld := h.down.held
  cases c with
  | sendPiece m r =>
    change ∃ v, w.sendPiece m r = .ok v
    rw [sendPiece_eq]
    apply sendInLoop_settled h.down.wf
    rw [leftover_eq_nil (h.isWriting.trans hw), h.queued hw]
    exact hc
  | sendBuffer m r => exact ⟨w, if_neg (by simp [h.down.state])⟩
  | startRead =>
    change ∃ v, w.startReadInLoop = .ok v
    unfold startReadInLoop
    split
    · obtain ⟨u, hu⟩ := onChannel_total hheld (w.conn.channel.events.union kReadEvent) (f := Channel.enableReading) rfl
      rw [hu]
      exact ⟨_, rfl⟩
    · exact ⟨w, rfl⟩
  | stopRead =>
    change ∃ v, w.stopReadInLoop = .ok v
    unfold stopReadInLoop
    split
    · obtain ⟨u, hu⟩ := onChannel_total hheld (w.conn.channel.events.diff kReadEvent) (f := Channel.disableReading) rfl
      rw [hu]
      exact ⟨_, rfl⟩
    · exact ⟨w, rfl⟩
  | _ => exact ⟨_, rfl⟩

theorem Armed.calls (h : Armed queued ts w armed) {down : List Call} (hv : run World.call w down = .ok v) :
    Armed queued ts v (down.foldl Call.reads armed.1, armed.2 || down.any (Call.arms queued)) := by
  rw [← Call.foldl_next]
  have hcall : ∀ (u : World EPollPoller) armed c t, Armed queued ts u armed → u.call c = .ok t →
      Armed queued ts t (Call.next queued armed c) := fun _ _ _ _ h ht => h.call ht
  exact run_follows hcall h hv

theorem Armed.calls_total (h : Armed queued ts w (false, false)) {down : List Call}
    (ha : down.any (Call.arms queued) = false) : ∃ v, run World.call w down = .ok v := by
  have hm : Meets World.call (fun _ c => c.arms queued = false) w down :=
    Meets.of_forall fun c hc _ => Bool.eq_false_iff.mpr (List.any_eq_false.mp ha c hc)
  have hall : ∃ v, run World.call w down = .ok v ∧ ∃ armed : Bool × Bool, armed.2 = false ∧
      Armed queued ts v armed := by
    refine Meets.total ?_ hm ⟨_, rfl, h⟩
    rintro w c ⟨armed, hw, h⟩ hc
    obtain ⟨v, hv⟩ := h.call_total hw hc
    exact ⟨v, hv, Call.next queued armed c, by rw [Call.next, hw, hc]; rfl, h.call hv⟩
  obtain ⟨v, hv, -⟩ := hall
  exact ⟨v, hv⟩

theorem Live.destroyed (h : w.Live) (hc : w.conn.state = .kConnected) (down : List Call) :
    (∃ v, w.connectDestroyedWith down = .ok v ∧ v.effects.count (.connectionCallback false) = 1 ∧
      v.conn.state = .kDisconnected) ↔
      down.foldl Call.reads false = false ∧ down.any (Call.arms w.conn.outputBuffer.readable) = false := by
  obtain ⟨u, hu, hdown, hnone, hbuf⟩ := h.connectDestroyed hc
  have harmed : Armed w.conn.outputBuffer.readable w.todo u (false, false) := ⟨hdown, hnone, fun _ => by rw [hbuf]⟩
  simp only [connectDestroyedWith, hu, ok_bind, if_pos hc]
  constructor
  · rintro ⟨v, hv, -⟩
    obtain ⟨t, ht, hv⟩ := bind_ok.mp hv
    have hend := harmed.calls ht
    have he := hend.events
    rw [Channel.isNoneEvent_iff.mp (hend.down.none_of_remove hv)] at he
    exact ⟨(congrArg Events.pollin he).symm, (congrArg Events.pollout he).symm⟩
  · rintro ⟨hr, ha⟩
    obtain ⟨t, ht⟩ := harmed.calls_total ha
    have hend := harmed.calls ht
    rw [hr, ha] at hend
    obtain ⟨v, hv, he, hs⟩ := hend.down.remove (Channel.isNoneEvent_iff.mpr hend.events)
    refine ⟨v, ?_, by rw [he]; exact hend.down.downs, hs.trans hend.down.state⟩
    rw [ht]
    exact hv

/-- No DOWN callback, and either the assertion of `channel_->remove()` or a state that the destructor does not
accept. -/
theorem Live.not_destroyed (h : w.Live) (hc : w.conn.state ≠ .kConnected) {down : List Call}
    (hv : w.connectDestroyedWith down = .ok v) : v.effects.count (.connectionCallback false) = 0 := by
  obtain ⟨u, hu, hv⟩ := bind_ok.mp hv
  rw [if_neg hc] at hv
  cases hv
  rcases connectDestroyed_inv hu with ⟨hc', -⟩ | ⟨-, p, c, -, rfl⟩
  · exact absurd hc' hc
  · simpa [List.count_append] using h.downs

end World

/-- `~TcpServer` destroys a connection on which no `handleClose` has been entered: the channel
is removed, the DOWN callback is called once and the state is `kDisconnected`, exactly when
the connection was in `kConnected`, the last `startRead` of the DOWN callback, if any, is
followed by a `stopRead`, and no `send` in it leaves bytes for later. In a closed connection
`send(Buffer *)` does nothing; the other one leaves its message for later behind output that was
queued before, and else what the kernel does not take. -/
theorem destroyed_safely_iff_connected {p : EPollPoller} {addr : Nat} {sockfd : Int} {phase : Phase} {sameLoop : Bool}
    {w u : World EPollPoller} (hw : World.newConnection p addr sockfd phase sameLoop = .ok w) (ls : List Label)
    (hd : .destroy ∉ ls) (hu : run World.step w ls = .ok u) (ho : u.conn.state ≠ .kDisconnected) (down : List Call) :
    (∃ v, u.connectDestroyedWith down = .ok v ∧ v.effects.count (.connectionCallback false) = 1 ∧
        v.conn.state = .kDisconnected) ↔
      u.conn.state = .kConnected ∧ down.foldl Call.reads false = false ∧
        ∀ m r, .sendPiece m r ∈ down → m = [] ∨ u.conn.outputBuffer.readable = [] ∧ r.settles m = true := by
  have hl : u.Live := (World.newConnection_live hw).of_run hd hu ho
  rw [← Call.arms_iff]
  by_cases hc : u.conn.state = .kConnected
  · rw [hl.destroyed hc]
    exact (and_iff_right hc).symm
  · constructor
    · rintro ⟨v, hv, hone, -⟩
      rw [hl.not_destroyed hc hv] at hone
      cases hone
    · exact fun h => absurd h.1 hc

/-- With output queued, and a DOWN callback that starts reading, stops again and calls `shutdown`. -/
theorem destroyed_safely_with_output :
    ∃ w u v : World EPollPoller, World.newConnection EPollPoller.empty 1 5 .functors true = .ok w ∧
      run World.step w [.call (.sendPiece [104, 105] (.room 1))] = .ok u ∧ u.conn.outputBuffer.readable = [105] ∧
      u.connectDestroyedWith [.startRead, .stopRead, .shutdown] = .ok v ∧
      v.effects.count (.connectionCallback false) = 1 ∧ v.conn.state = .kDisconnected := by
  obtain ⟨u, hu, he⟩ := ok_of_map (show (World.newConnection EPollPoller.empty 1 5 .functors true >>= fun w =>
    run World.step w [.call (.sendPiece [104, 105] (.room 1))]).map (fun u =>
      (u.conn.state, u.conn.outputBuffer.readable)) = .ok (.kConnected, [105]) by decide +kernel)
  rw [Prod.mk.injEq] at he
  obtain ⟨w, hw, hu⟩ := bind_ok.mp hu
  obtain ⟨v, hv, hone, hs⟩ := (destroyed_safely_iff_connected hw _ (by simp) hu (by simp [he.1])
    [.startRead, .stopRead, .shutdown]).mpr ⟨he.1, rfl, by simp⟩
  exact ⟨w, u, v, hw, hu, he.2, hv, hone, hs⟩

/-- After `shutdown()` the channel still reads, and `channel_->remove()` asserts. After
`stopRead()` and `shutdown()` it is removed, but there is no DOWN callback and the state stays
`kDisconnecting`, which the destructor of the connection asserts against. -/
theorem shut_connection_destroyed_badly :
    ∃ w u t v : World EPollPoller, World.newConnection EPollPoller.empty 1 5 .functors true = .ok w ∧
      run World.step w [.call .shutdown] = .ok u ∧ u.connectDestroyedWith [] = .error .channelRemove ∧
      run World.step w [.call .stopRead, .call .shutdown] = .ok t ∧ t.connectDestroyedWith [] = .ok v ∧
      v.effects.count (.connectionCallback false) = 0 ∧ v.conn.state = .kDisconnecting := by
  obtain ⟨w, hw, he⟩ := ok_of_map (show (World.newConnection EPollPoller.empty 1 5 .functors true).map (fun w =>
    ((run World.step w [.call .shutdown]).map fun u => (u.connectDestroyedWith []).map (·.conn.state),
      (run World.step w [.call .stopRead, .call .shutdown]).map fun t => (t.connectDestroyedWith []).map fun v =>
        (v.effects.count (.connectionCallback false), v.conn.state))) =
    .ok (.ok (.error .channelRemove), .ok (.ok (0, .kDisconnecting))) by decide +kernel)
  rw [Prod.mk.injEq] at he
  obtain ⟨u, hu, hru⟩ := ok_of_map he.1
  obtain ⟨t, ht, hrt⟩ := ok_of_map he.2
  obtain ⟨v, hv, hrv⟩ := ok_of_map hrt
  rw [Prod.mk.injEq] at hrv
  exact ⟨w, u, t, v, hw, hu, error_of_map hru, ht, hv, hrv.1, hrv.2⟩

end Zhengqi
