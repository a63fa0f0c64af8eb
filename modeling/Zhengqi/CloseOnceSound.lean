import Zhengqi.ConnectionLoopSound
import Zhengqi.EPollPollerSound
import Mathlib.Data.List.Count

/-!
# A connection closes once

On a loop with an `EPollPoller`, `handleClose` finds the connection open and the
DOWN callback, `closeCallback_` and `connectDestroyed` happen at most once
(`connection_closes_once`), as long as the kernel stops watching the descriptor
when the connection closes. `updateChannel` undoes that for a channel that has
no events: it adds the descriptor to the epoll set again, with no events, and
the kernel still reports `EPOLLHUP` there (`hangup_after_forceClose_asserts`).
-/

namespace Zhengqi

open Run

def StateE.closed : StateE → Nat
  | .kDisconnected => 1
  | _ => 0

def Effect.isClosing : Effect → Bool
  | .connectionCallback false | .closeCallback | .connectDestroyed => true
  | _ => false

namespace World

section
variable {P : Type}

/-- The next task calls `handleClose`. -/
def entersClose (w : World P) (rr : ReadResult) : Bool :=
  match w.todo.head? with
  | some .handleClose => true
  | some .handleRead => rr = .data []
  | some (.functor .forceCloseInLoop) => w.conn.state = .kConnected || w.conn.state = .kDisconnecting
  | _ => false

/-- The server is not destroyed; `handleClose` is not entered while the channel
has no events; and after it no call reaches `updateChannel`. -/
def ClosesCleanly (w : World P) : Label → Prop
  | .call .startRead => w.conn.state ≠ .kDisconnected
  | .call .stopRead => w.conn.state = .kDisconnected → w.conn.reading = false
  | .call (.sendPiece m r) => w.conn.state = .kDisconnected → w.leftover m r = []
  | .task _ rr => w.entersClose rr = true → w.conn.channel.events ≠ kNoneEvent
  | .destroy => False
  | _ => True

instance (w : World P) : ∀ l, Decidable (w.ClosesCleanly l)
  | .call .startRead => inferInstanceAs (Decidable (_ ≠ _))
  | .call .stopRead => inferInstanceAs (Decidable (_ → _))
  | .call (.sendPiece ..) => inferInstanceAs (Decidable (_ → _))
  | .task .. => inferInstanceAs (Decidable (_ → _))
  | .destroy => .isFalse id
  | .call (.sendBuffer ..) | .call .shutdown | .call .forceClose | .call .forceCloseWithDelay
  | .call .setWriteCompleteCallback | .call (.setHighWaterMarkCallback _) | .poll _
  | .doPendingFunctors | .endIteration | .removeConnectionInLoop => .isTrue trivial

/-! ## Counting -/

def readers (ts : List Task) : Nat := ts.countP fun t => t = .handleClose || t = .handleRead

/-- Every DOWN callback, `closeCallback_` and `connectDestroyed`, made or still to
come, belongs to the one transition to `kDisconnected`. -/
structure Counted (w : World P) : Prop where
  readers_le : readers w.todo ≤ 1
  closed : w.conn.state = .kDisconnected → readers w.todo = 0
  functors : ∀ f, .functor f ∈ w.todo → readers w.todo = 0
  downs : w.effects.count (.connectionCallback false) = w.conn.state.closed
  closes : w.todo.count .closeCallback + w.effects.count .closeCallback = w.conn.state.closed
  destroys : w.removals + w.pendingFunctors.count .connectDestroyed + w.todo.count (.functor .connectDestroyed) +
    w.effects.count .connectDestroyed = w.effects.count .closeCallback

theorem count_closing {es : List Effect} (h : ∀ e ∈ es, e.isClosing = false) {e : Effect} (he : e.isClosing = true) :
    es.count e = 0 :=
  List.count_eq_zero.mpr fun hm => by rw [h e hm] at he; cases he

theorem closed_congr {a b : StateE} (h : a = .kDisconnected ↔ b = .kDisconnected) : a.closed = b.closed := by
  cases a <;> cases b <;> simp_all [StateE.closed]

theorem Counted.of_frame {w v : World P} (h : w.Counted)
    (hs : v.conn.state = .kDisconnected ↔ w.conn.state = .kDisconnected) (ht : v.todo = w.todo)
    (hr : v.removals = w.removals) {fs : List Functor} (hp : v.pendingFunctors = w.pendingFunctors ++ fs)
    (hfs : .connectDestroyed ∉ fs) {es : List Effect} (he : v.effects = w.effects ++ es)
    (hes : ∀ e ∈ es, e.isClosing = false) : v.Counted := by
  refine ⟨by rw [ht]; exact h.readers_le, by rw [ht, hs]; exact h.closed, by rw [ht]; exact h.functors, ?_, ?_, ?_⟩
  · rw [he, List.count_append, count_closing hes rfl, closed_congr hs]; exact h.downs
  · rw [he, List.count_append, count_closing hes rfl, closed_congr hs, ht]; exact h.closes
  · rw [he, List.count_append, List.count_append, count_closing hes rfl, count_closing hes rfl, hr, hp,
      List.count_append, List.count_eq_zero.mpr hfs, ht]
    exact h.destroys

theorem Counted.congr {w v : World P} (h : w.Counted) (hs : v.conn.state = w.conn.state) (ht : v.todo = w.todo)
    (hr : v.removals = w.removals) (hp : v.pendingFunctors = w.pendingFunctors) (he : v.effects = w.effects) :
    v.Counted :=
  h.of_frame (by rw [hs]) ht hr (by rw [hp, List.append_nil]) List.not_mem_nil
    (by rw [he, List.append_nil]) (by simp)

theorem sendEffects_closing (w : World P) (m : Bytes) (r : WriteResult) :
    ∀ e ∈ w.sendEffects m r, e.isClosing = false := by
  unfold sendEffects
  split <;> simp [Effect.isClosing]

theorem flushEffects_closing (w : World P) (r : WriteResult) : ∀ e ∈ w.flushEffects r, e.isClosing = false := by
  unfold flushEffects
  split
  · split
    · split <;> simp [Effect.isClosing]
    · simp [Effect.isClosing]
  · simp

theorem Counted.log {w : World P} (h : w.Counted) {e : Effect} (he : e.isClosing = false) : (w.log e).Counted :=
  h.of_frame Iff.rfl rfl rfl (List.append_nil _).symm List.not_mem_nil rfl (by simpa using he)

theorem readers_tail_le {w : World P} {t : Task} {ts : List Task} (ht : w.todo = t :: ts) :
    readers ts ≤ readers w.todo := by
  rw [ht, readers, readers, List.countP_cons]
  exact Nat.le_add_right ..

theorem Counted.pop {w : World P} (h : w.Counted) {t : Task} {ts : List Task} (ht : w.todo = t :: ts)
    (h₁ : t ≠ .closeCallback) (h₂ : t ≠ .functor .connectDestroyed) : { w with todo := ts }.Counted := by
  have hle := readers_tail_le ht
  refine ⟨Nat.le_trans hle h.readers_le, fun hc => ?_, fun f hf => ?_, h.downs, ?_, ?_⟩
  · have := h.closed hc; change readers ts = 0; omega
  · have := h.functors f (by rw [ht]; exact List.mem_cons_of_mem _ hf)
    change readers ts = 0; omega
  · have := h.closes
    rw [ht, List.count_cons_of_ne h₁] at this; exact this
  · have := h.destroys
    rw [ht, List.count_cons_of_ne h₂] at this; exact this

theorem Counted.readers_tail {w : World P} (h : w.Counted) {t : Task} {ts : List Task} (ht : w.todo = t :: ts)
    (hr : (∃ f, t = .functor f) ∨ t = .handleClose ∨ t = .handleRead) : readers ts = 0 := by
  have hle := readers_tail_le ht
  rcases hr with ⟨f, rfl⟩ | hr
  · have := h.functors f (by rw [ht]; exact List.mem_cons_self ..)
    omega
  · have hc : readers w.todo = readers ts + 1 := by
      rw [ht, readers, List.countP_cons]
      rcases hr with rfl | rfl <;> rfl
    have := h.readers_le
    omega

theorem Counted.open_of_reader {w : World P} (h : w.Counted) {t : Task} {ts : List Task} (ht : w.todo = t :: ts)
    (hr : t = .handleClose ∨ t = .handleRead) : w.conn.state ≠ .kDisconnected := by
  intro hc
  have h₀ := h.closed hc
  rw [ht, readers, List.countP_cons] at h₀
  rcases hr with rfl | rfl <;> simp at h₀

theorem Counted.removeConnectionInLoop {w v : World P} (h : w.Counted) (hr : 0 < w.removals)
    (hv : { w with removals := w.removals - 1 }.removeConnectionInLoop = .ok v) : v.Counted := by
  have hv := removeConnectionInLoop_inv hv
  subst hv
  refine ⟨h.readers_le, h.closed, h.functors, h.downs, h.closes, ?_⟩
  have := h.destroys
  simp only [List.count_append, List.count_singleton_self]
  omega

theorem Counted.closeCallback {w v : World P} (h : w.Counted) {ts : List Task} (ht : w.todo = .closeCallback :: ts)
    (hv : { w with todo := ts }.closeCallback = .ok v) : v.Counted := by
  have hle := readers_tail_le ht
  have h₁ := h.closes
  have h₂ := h.destroys
  rw [ht, List.count_cons_self] at h₁
  rw [ht, List.count_cons_of_ne (by simp)] at h₂
  have hd := h.downs
  have hc : w.conn.state = .kDisconnected → readers ts = 0 := fun hc => by have := h.closed hc; omega
  have hf : ∀ f, .functor f ∈ ts → readers ts = 0 := fun f hm => by
    have := h.functors f (by rw [ht]; exact List.mem_cons_of_mem _ hm)
    omega
  -- the removal is queued in this loop or in the server's
  rcases closeCallback_inv hv with rfl | rfl <;> refine ⟨Nat.le_trans hle h.readers_le, hc, hf, ?_, ?_, ?_⟩
  · simpa [List.count_append] using hd
  · simp only [List.count_append, List.count_singleton_self]; omega
  · simp only [List.count_append, List.count_singleton_self]; simp; omega
  · simpa [List.count_append] using hd
  · simp only [List.count_append, List.count_singleton_self]; omega
  · simp only [List.count_append, List.count_singleton_self]; simp; omega

theorem Counted.doPendingFunctors {w : World P} (h : w.Counted) (ht : w.todo = []) :
    { w with phase := .functors, todo := w.pendingFunctors.map .functor, pendingFunctors := [] }.Counted := by
  have hr : readers (w.pendingFunctors.map .functor) = 0 := by
    rw [readers, List.countP_eq_zero]
    intro t hm
    obtain ⟨f, -, rfl⟩ := List.mem_map.mp hm
    simp
  have hcl : (w.pendingFunctors.map Task.functor).count .closeCallback = 0 := by
    rw [List.count_eq_zero]
    simp
  have hcd : (w.pendingFunctors.map Task.functor).count (.functor .connectDestroyed) =
      w.pendingFunctors.count .connectDestroyed :=
    List.count_map_of_injective _ _ (fun _ _ he => Task.functor.inj he) _
  have h₂ := h.closes
  have h₃ := h.destroys
  rw [ht] at h₂ h₃
  simp only [List.count_nil, Nat.zero_add, Nat.add_zero] at h₂ h₃
  refine ⟨by rw [hr]; exact Nat.zero_le _, fun _ => hr, fun _ _ => hr, h.downs, by rw [hcl]; simpa using h₂, ?_⟩
  rw [hcd, List.count_nil]; exact h₃

end

section
variable {P : Type} [Poller P]

theorem Counted.handleClose {w v : World P} (h : w.Counted) (hr : readers w.todo = 0) (hv : w.handleClose = .ok v) :
    v.Counted := by
  obtain ⟨hs, p, c, -, rfl⟩ := handleClose_inv hv
  have hw : w.conn.state.closed = 0 := by rcases hs with hs | hs <;> rw [hs] <;> rfl
  have h₁ := h.downs
  have h₂ := h.closes
  have h₃ := h.destroys
  rw [hw] at h₁ h₂
  have hrd : readers (.closeCallback :: w.todo) = 0 := by
    rw [readers, List.countP_cons]; exact hr
  refine ⟨by rw [hrd]; exact Nat.zero_le _, fun _ => hrd, fun _ _ => hrd, ?_, ?_, ?_⟩
  · simp [List.count_append, h₁, StateE.closed]
  · simp [List.count_append, StateE.closed]; omega
  · simp [List.count_append]; omega

theorem Counted.connectDestroyed {w v : World P} (h : w.Counted) {ts : List Task}
    (ht : w.todo = .functor .connectDestroyed :: ts) (hv : { w with todo := ts }.connectDestroyed = .ok v) :
    v.Counted ∧ ∃ p c, Channel.remove w.poller w.conn.channel = .ok (p, c) ∧
      v.poller = p ∧ v.conn = { w.conn with channel := c } := by
  have hr := h.readers_tail ht (.inl ⟨_, rfl⟩)
  have h₁ := h.downs
  have h₂ := h.closes
  have h₃ := h.destroys
  rw [ht, List.count_cons_of_ne (by simp)] at h₂
  rw [ht, List.count_cons_self] at h₃
  rcases connectDestroyed_inv hv with ⟨hs, -⟩ | ⟨-, p, c, hc, rfl⟩
  · -- the functor was queued by the transition to kDisconnected
    have : w.conn.state.closed = 0 := by rw [show w.conn.state = .kConnected from hs]; rfl
    omega
  · refine ⟨⟨by rw [hr]; exact Nat.zero_le _, fun _ => hr, fun _ _ => hr, ?_, ?_, ?_⟩, p, c, hc, rfl, rfl⟩
    · simpa [List.count_append] using h₁
    · simpa [List.count_append] using h₂
    · simp [List.count_append]; omega

end

/-! ## What the kernel can report -/

theorem reportable_some {ev rev : Events} (h : reportable (some ev) rev = true) :
    (rev.pollpri = true → ev.pollpri = true) ∧ (rev.pollrdhup = true → ev.pollrdhup = true) ∧
      (rev.pollhup = true → ev.pollin = true → rev.pollin = true) := by
  simp only [reportable, Events.diff, Events.union, kNoneEvent, Bool.and_eq_true, decide_eq_true_eq, Events.mk.injEq]
    at h
  grind

/-- `EPOLLHUP` without `EPOLLIN` comes without anything to read. -/
theorem readers_handleEvent {ev rev : Events} (hp : ev.pollpri = ev.pollin) (hr : ev.pollrdhup = false)
    (h : reportable (some ev) rev = true) : readers (handleEventWithGuard rev) ≤ 1 := by
  obtain ⟨h₁, h₂, h₃⟩ := reportable_some h
  have hrd : rev.pollrdhup = false := by
    cases hc : rev.pollrdhup with
    | false => rfl
    | true => rw [h₂ hc] at hr; cases hr
  have hpri : rev.pollhup = true → rev.pollin = false → rev.pollpri = false := by
    intro hh hi
    cases hc : rev.pollpri with
    | false => rfl
    | true => rw [h₃ hh (hp ▸ h₁ hc)] at hi; cases hi
  unfold handleEventWithGuard readers
  rw [hrd]
  cases hh : rev.pollhup <;> cases hi : rev.pollin <;> cases hpr : rev.pollpri <;>
    cases rev.pollerr <;> cases rev.pollnval <;> cases rev.pollout <;> simp_all

theorem handleEvent_count (rev : Events) : (handleEventWithGuard rev).count .closeCallback = 0 ∧
    (handleEventWithGuard rev).count (.functor .connectDestroyed) = 0 ∧
    ∀ f, .functor f ∉ handleEventWithGuard rev := by
  unfold handleEventWithGuard
  refine ⟨List.count_eq_zero.mpr ?_, List.count_eq_zero.mpr ?_, fun f => ?_⟩ <;>
    simp only [List.mem_append, not_or] <;> refine ⟨⟨⟨?_, ?_⟩, ?_⟩, ?_⟩ <;> split <;> simp

/-! ## The channel and the epoll set -/

/-- The kernel watches an open connection for the events of its channel and a
closed one not at all. -/
structure Wired (p : EPollPoller) (c : TcpConnection) : Prop where
  wf : c.outputBuffer.WF
  synced : EPollPoller.Synced p c.channel
  paired : c.channel.events.pollpri = c.channel.events.pollin
  rdhup : c.channel.events.pollrdhup = false
  closed : c.state = .kDisconnected → c.channel.events = kNoneEvent
  reads : c.state ≠ .kDisconnected → c.channel.events.pollin = c.reading

theorem Wired.congr {p : EPollPoller} {c d : TcpConnection} (h : Wired p c) (hb : d.outputBuffer = c.outputBuffer)
    (hch : d.channel = c.channel) (hs : d.state = c.state) (hr : d.reading = c.reading) : Wired p d := by
  refine ⟨?_, ?_, ?_, ?_, ?_, ?_⟩
  · rw [hb]; exact h.wf
  · rw [hch]; exact h.synced
  · rw [hch]; exact h.paired
  · rw [hch]; exact h.rdhup
  · rw [hs, hch]; exact h.closed
  · rw [hs, hch, hr]; exact h.reads

theorem union_ne_none (a : Events) : a.union kReadEvent ≠ kNoneEvent ∧ a.union kWriteEvent ≠ kNoneEvent := by
  simp [Events.union, kReadEvent, kWriteEvent, kNoneEvent]

section
variable {w v : World EPollPoller}

theorem Wired.of_sends (h : Wired w.poller w.conn) {m : Bytes} {r : WriteResult} (hs : Sends w m r v)
    (hc : w.conn.state = .kDisconnected → w.leftover m r = []) : Wired v.poller v.conn := by
  by_cases hl : w.leftover m r = []
  · obtain ⟨hp, hco⟩ := hs.untouched hl
    rw [hp, hco]; exact h
  · have ho : v.conn.state ≠ .kDisconnected := by rw [hs.frame.state]; exact fun hd => hl (hc hd)
    have hr := h.reads fun hd => hl (hc hd)
    cases hw : w.conn.channel.isWriting with
    | true =>
      obtain ⟨hp, hch⟩ := hs.quiet hw
      refine ⟨hs.wf, ?_, ?_, ?_, fun hd => absurd hd ho, fun _ => ?_⟩
      · rw [hp, hch]; exact h.synced
      · rw [hch]; exact h.paired
      · rw [hch]; exact h.rdhup
      · rw [hch, hs.frame.reading]; exact hr
    | false =>
      have ha := hs.armed hl hw
      have he := Channel.enableWriting_events ha
      refine ⟨hs.wf, ?_, ?_, ?_, fun hd => absurd hd ho, fun _ => ?_⟩
      · exact EPollPoller.updateChannel_synced h.synced (.inl (union_ne_none _).2) ha
      · rw [he]; simpa [Events.union, kWriteEvent] using h.paired
      · rw [he]; simpa [Events.union, kWriteEvent] using h.rdhup
      · rw [he, hs.frame.reading]; simpa [Events.union, kWriteEvent] using hr

theorem Wired.of_flushes (h : Wired w.poller w.conn) {r : WriteResult} (hf : Flushes w r v) :
    Wired v.poller v.conn := by
  by_cases hd : w.Drains r
  · have hw := hd.1
    have ho : w.conn.state ≠ .kDisconnected := by
      intro hc
      rw [Channel.isWriting_eq, h.closed hc] at hw; cases hw
    have ha := hf.disarmed hd
    have he := Channel.disableWriting_events ha
    refine ⟨hf.wf, ?_, ?_, ?_, fun hc => absurd (hf.frame.state ▸ hc) ho, fun _ => ?_⟩
    · refine EPollPoller.updateChannel_synced h.synced (.inr fun hc => ?_) ha
      rw [Channel.isWriting_eq, hc] at hw; cases hw
    · rw [he]; simpa [Events.diff, kWriteEvent] using h.paired
    · rw [he]; simpa [Events.diff, kWriteEvent] using h.rdhup
    · rw [he, hf.frame.reading]; simpa [Events.diff, kWriteEvent] using h.reads ho
  · obtain ⟨hp, hch⟩ := hf.quiet hd
    refine ⟨hf.wf, by rw [hp, hch]; exact h.synced, by rw [hch]; exact h.paired, by rw [hch]; exact h.rdhup, ?_, ?_⟩
    · rw [hf.frame.state, hch]; exact h.closed
    · rw [hf.frame.state, hf.frame.reading, hch]; exact h.reads

theorem Wired.handleClose (h : Wired w.poller w.conn) (hn : w.conn.channel.events ≠ kNoneEvent)
    (hv : w.handleClose = .ok v) : Wired v.poller v.conn := by
  obtain ⟨-, p, c, hc, rfl⟩ := handleClose_inv hv
  have he := Channel.disableAll_events hc
  refine ⟨h.wf, EPollPoller.updateChannel_synced h.synced (.inr hn) hc, ?_, ?_, fun _ => he, fun ho => absurd rfl ho⟩
  · change c.events.pollpri = c.events.pollin
    rw [he]; rfl
  · change c.events.pollrdhup = false
    rw [he]; rfl

theorem Wired.remove {p : EPollPoller} {c : TcpConnection} (h : Wired p c) {q : EPollPoller} {d : Channel}
    (hr : Channel.remove p c.channel = .ok (q, d)) : Wired q { c with channel := d } := by
  obtain ⟨hn, he⟩ := Channel.remove_events hr
  obtain ⟨⟨⟩, -, hr⟩ := bind_ok.mp hr
  refine ⟨h.wf, EPollPoller.removeChannel_synced h.synced hr, by rw [he]; rfl, by rw [he]; rfl,
    fun _ => he, fun ho => ?_⟩
  rw [← h.reads ho, hn, he]

theorem Wired.startRead (h : Wired w.poller w.conn) (ho : w.conn.state ≠ .kDisconnected)
    (hv : w.startReadInLoop = .ok v) : Wired v.poller v.conn := by
  rcases startReadInLoop_inv hv with rfl | ⟨p, c, hc, rfl⟩
  · exact h
  · have he := Channel.enableReading_events hc
    refine ⟨h.wf, EPollPoller.updateChannel_synced h.synced (.inl (union_ne_none _).1) hc, ?_, ?_,
      fun hd => absurd hd ho, fun _ => ?_⟩
    · rw [he]; simp [Events.union, kReadEvent]
    · rw [he]; simpa [Events.union, kReadEvent] using h.rdhup
    · rw [he]; simp [Events.union, kReadEvent]

theorem Wired.stopRead (h : Wired w.poller w.conn) (ho : w.conn.state = .kDisconnected → w.conn.reading = false)
    (hv : w.stopReadInLoop = .ok v) : Wired v.poller v.conn := by
  rcases stopReadInLoop_inv hv with rfl | ⟨hr, p, c, hc, rfl⟩
  · exact h
  · -- a channel that is asked to stop reading is reading
    have hin : w.conn.channel.events.pollin = true := by
      rw [Channel.isReading_eq, h.paired, Bool.or_self] at hr
      by_cases hd : w.conn.state = .kDisconnected
      · rw [ho hd] at hr
        exact hr.resolve_left (by simp)
      · rw [← h.reads hd, or_self] at hr; exact hr
    have hop : w.conn.state ≠ .kDisconnected := fun hd => by rw [h.closed hd] at hin; cases hin
    have he := Channel.disableReading_events hc
    refine ⟨h.wf, EPollPoller.updateChannel_synced h.synced (.inr fun hn => ?_) hc, ?_, ?_,
      fun hd => absurd hd hop, fun _ => ?_⟩
    · rw [hn] at hin; cases hin
    · rw [he]; simp [Events.diff, kReadEvent]
    · rw [he]; simpa [Events.diff, kReadEvent] using h.rdhup
    · rw [he]; simp [Events.diff, kReadEvent]

/-! ## The invariant -/

structure Once (w : World EPollPoller) : Prop where
  wired : Wired w.poller w.conn
  counted : w.Counted
  started : w.conn.state ≠ .kConnecting

theorem Once.of_sends (h : w.Once) {m : Bytes} {r : WriteResult} (hs : Sends w m r v)
    (hc : w.conn.state = .kDisconnected → w.leftover m r = []) : v.Once := by
  obtain ⟨fs, hp, -, hfs⟩ := hs.notifies
  refine ⟨h.wired.of_sends hs hc, ?_, by rw [hs.frame.state]; exact h.started⟩
  exact h.counted.of_frame (by rw [hs.frame.state]) hs.frame.todo hs.frame.removals hp hfs hs.effects
    (sendEffects_closing w m r)

theorem Once.of_closing (h : w.Once) (hs : w.conn.state = .kConnected ∨ w.conn.state = .kDisconnecting)
    {fs : List Functor} (hfs : .connectDestroyed ∉ fs) :
    { w.setState .kDisconnecting with pendingFunctors := w.pendingFunctors ++ fs }.Once := by
  have ho : w.conn.state ≠ .kDisconnected := by rcases hs with hs | hs <;> rw [hs] <;> simp
  refine ⟨⟨h.wired.wf, h.wired.synced, h.wired.paired, h.wired.rdhup, by simp [setState], fun _ => h.wired.reads ho⟩,
    ?_, by simp [setState]⟩
  exact h.counted.of_frame (by simp [setState, ho]) rfl rfl rfl hfs (List.append_nil _).symm (by simp)

theorem Once.call (h : w.Once) {c : Call} (hl : w.ClosesCleanly (.call c)) (hv : w.call c = .ok v) : v.Once := by
  cases c with
  | sendPiece m r =>
    change w.sendPiece m r = .ok v at hv
    rw [sendPiece_eq] at hv
    exact h.of_sends (sendInLoop_inv h.wired.wf hv) hl
  | sendBuffer m r =>
    rcases sendBuffer_inv hv with ⟨hs, hv⟩ | ⟨-, rfl⟩
    · exact h.of_sends (sendInLoop_inv h.wired.wf hv) fun hd => by rw [hs] at hd; cases hd
    · exact h
  | shutdown =>
    cases hv
    by_cases hs : w.conn.state = .kConnected
    · obtain ⟨es, hv, hes⟩ := shutdown_inv hs
      rw [hv]
      have h' := h.of_closing (.inl hs) (List.not_mem_nil (a := Functor.connectDestroyed))
      refine ⟨h'.wired, ?_, h'.started⟩
      refine h.counted.of_frame (by simp [setState, hs]) rfl rfl (List.append_nil _).symm List.not_mem_nil rfl ?_
      rcases hes with rfl | ⟨-, rfl⟩ <;> simp [Effect.isClosing]
    · rw [World.shutdown, if_neg hs]; exact h
  | forceClose =>
    cases hv
    unfold World.forceClose
    split
    · exact h.of_closing ‹_› (by simp)
    · exact h
  | forceCloseWithDelay =>
    cases hv
    unfold World.forceCloseWithDelay
    split
    · have h' := h.of_closing ‹_› (List.not_mem_nil (a := Functor.connectDestroyed))
      rw [List.append_nil] at h'; exact h'
    · exact h
  | startRead =>
    have hw := h.wired.startRead hl hv
    rcases startReadInLoop_inv hv with rfl | ⟨p, c, -, rfl⟩
    · exact h
    · exact ⟨hw, h.counted.congr rfl rfl rfl rfl rfl, h.started⟩
  | stopRead =>
    have hw := h.wired.stopRead hl hv
    rcases stopReadInLoop_inv hv with rfl | ⟨-, p, c, -, rfl⟩
    · exact h
    · exact ⟨hw, h.counted.congr rfl rfl rfl rfl rfl, h.started⟩
  | setWriteCompleteCallback =>
    cases hv
    exact ⟨h.wired.congr rfl rfl rfl rfl, h.counted.congr rfl rfl rfl rfl rfl, h.started⟩
  | setHighWaterMarkCallback m =>
    cases hv
    exact ⟨h.wired.congr rfl rfl rfl rfl, h.counted.congr rfl rfl rfl rfl rfl, h.started⟩

theorem Once.handleClose (h : w.Once) (hr : readers w.todo = 0) (hn : w.conn.channel.events ≠ kNoneEvent)
    (hv : w.handleClose = .ok v) : v.Once := by
  refine ⟨h.wired.handleClose hn hv, h.counted.handleClose hr hv, ?_⟩
  obtain ⟨-, p, c, -, rfl⟩ := handleClose_inv hv
  simp

theorem Once.task (h : w.Once) {t : Task} {ts : List Task} (ht : w.todo = t :: ts) {wr : WriteResult} {rr : ReadResult}
    (hl : w.entersClose rr = true → w.conn.channel.events ≠ kNoneEvent)
    (hv : { w with todo := ts }.runTask wr rr t = .ok v) : v.Once := by
  have hpop : t ≠ .closeCallback → t ≠ .functor .connectDestroyed → { w with todo := ts }.Once :=
    fun h₁ h₂ => ⟨h.wired, h.counted.pop ht h₁ h₂, h.started⟩
  cases t with
  | handleClose =>
    have hn := hl (by simp [entersClose, ht])
    exact (hpop (by simp) (by simp)).handleClose (h.counted.readers_tail ht (.inr (.inl rfl))) hn hv
  | handleError => cases hv; exact hpop (by simp) (by simp)
  | handleRead =>
    have h' := hpop (by simp) (by simp)
    have hb : ∀ b, Once { w with todo := ts, conn := { w.conn with inputBuffer := b } } := fun b =>
      ⟨h'.wired.congr rfl rfl rfl rfl, h'.counted.congr rfl rfl rfl rfl rfl, h'.started⟩
    obtain ⟨b, (rfl | rfl) | ⟨rfl, hv'⟩⟩ := handleRead_inv hv
    · exact hb b
    · exact ⟨(hb b).wired, (hb b).counted.log rfl, h.started⟩
    · have hn := hl (by simp [entersClose, ht])
      exact (hb b).handleClose (h.counted.readers_tail ht (.inr (.inr rfl))) hn hv'
  | handleWrite =>
    have h' := hpop (by simp) (by simp)
    have hf := handleWrite_inv (w := { w with todo := ts }) h.wired.wf hv
    obtain ⟨fs, hp, -, hfs⟩ := hf.notifies
    refine ⟨Wired.of_flushes (w := { w with todo := ts }) h.wired hf, ?_, by rw [hf.frame.state]; exact h.started⟩
    exact h'.counted.of_frame (by rw [hf.frame.state]) hf.frame.todo hf.frame.removals hp hfs hf.effects
      (flushEffects_closing _ wr)
  | closeCallback =>
    refine ⟨?_, h.counted.closeCallback ht hv, ?_⟩
    · rcases closeCallback_inv hv with rfl | rfl <;> exact h.wired
    · rcases closeCallback_inv hv with rfl | rfl <;> exact h.started
  | channelRemove =>
    have h' := hpop (by simp) (by simp)
    obtain ⟨p, c, hc, rfl⟩ := onChannel_inv hv
    exact ⟨h.wired.remove hc, h'.counted.congr rfl rfl rfl rfl rfl, h.started⟩
  | functor f =>
    cases f with
    | forceCloseInLoop =>
      have h' := hpop (by simp) (by simp)
      change World.forceCloseInLoop { w with todo := ts } = .ok v at hv
      unfold World.forceCloseInLoop at hv
      split at hv
      · rename_i hs
        have hn := hl (by simpa [entersClose, ht] using hs)
        exact h'.handleClose (h.counted.readers_tail ht (.inl ⟨_, rfl⟩)) hn hv
      · cases hv; exact h'
    | connectDestroyed =>
      obtain ⟨hcnt, p, c, hc, hp, hco⟩ := h.counted.connectDestroyed ht hv
      exact ⟨by rw [hp, hco]; exact h.wired.remove hc, hcnt, by rw [hco]; exact h.started⟩
    | writeComplete =>
      cases hv
      exact ⟨h.wired, (hpop (by simp) (by simp)).counted.log rfl, h.started⟩
    | highWaterMark len =>
      cases hv
      exact ⟨h.wired, (hpop (by simp) (by simp)).counted.log rfl, h.started⟩

theorem Once.poll (h : w.Once) {rev : Events} (ht : w.todo = [])
    (hrep : reportable (Poller.registered w.poller w.conn.channel.fd) rev = true) :
    { w with phase := .handleEvents, todo := handleEventWithGuard rev }.Once := by
  obtain ⟨hcl, hcd, hf⟩ := handleEvent_count rev
  rw [h.wired.synced.registered] at hrep
  have h₂ := h.counted.closes
  have h₃ := h.counted.destroys
  rw [ht, List.count_nil] at h₂ h₃
  have hrd : readers (handleEventWithGuard rev) ≤ 1 ∧
      (w.conn.state = .kDisconnected → readers (handleEventWithGuard rev) = 0) := by
    by_cases hn : w.conn.channel.events = kNoneEvent
    · rw [if_pos hn] at hrep
      have : rev = kNoneEvent := by simpa [reportable] using hrep
      rw [this]; exact ⟨by decide, fun _ => rfl⟩
    · rw [if_neg hn] at hrep
      exact ⟨readers_handleEvent h.wired.paired h.wired.rdhup hrep, fun hc => absurd (h.wired.closed hc) hn⟩
  refine ⟨h.wired, ⟨hrd.1, hrd.2, fun f hm => absurd hm (hf f), h.counted.downs, ?_, ?_⟩, h.started⟩
  · rw [hcl]; exact h₂
  · rw [hcd]; exact h₃

theorem Once.step (h : w.Once) {l : Label} (hl : w.ClosesCleanly l) (hv : w.step l = .ok v) : v.Once := by
  unfold World.step at hv
  split at hv
  · rename_i hp
    cases l with
    | call c => exact h.call hl hv
    | poll rev =>
      cases hv
      simp only [possible, Bool.and_eq_true, decide_eq_true_eq] at hp
      exact h.poll hp.1.2 hp.2
    | task wr rr =>
      unfold act at hv
      dsimp only at hv
      split at hv
      · cases hv; exact h
      · exact h.task ‹_› hl hv
    | doPendingFunctors =>
      cases hv
      simp only [possible, Bool.and_eq_true, decide_eq_true_eq] at hp
      exact ⟨h.wired, h.counted.doPendingFunctors hp.2, h.started⟩
    | endIteration =>
      cases hv
      exact ⟨h.wired, h.counted.congr rfl rfl rfl rfl rfl, h.started⟩
    | removeConnectionInLoop =>
      refine ⟨?_, h.counted.removeConnectionInLoop (by simpa [possible] using hp) hv, ?_⟩
      · rw [removeConnectionInLoop_inv hv]; exact h.wired
      · rw [removeConnectionInLoop_inv hv]; exact h.started
    | destroy => exact hl.elim
  · cases hv; exact h

theorem Once.no_handleClose (h : w.Once) (l : Label) : w.step l ≠ .error .handleClose := by
  intro he
  rcases step_stops w l _ he with hf | ⟨hf, -⟩ | ⟨-, hs, ts, ht⟩
  · cases hf
  · cases hf
  · have ho : w.conn.state ≠ .kDisconnected := by
      rcases ht with ht | ht
      · exact h.counted.open_of_reader ht (.inl rfl)
      · exact h.counted.open_of_reader ht (.inr rfl)
    have hst := h.started
    cases hc : w.conn.state <;> simp_all

theorem newConnection_once {p : EPollPoller} {addr : Nat} {sockfd : Int} {phase : Phase} {sameLoop : Bool}
    (hw : newConnection p addr sockfd phase sameLoop = .ok w) : w.Once := by
  obtain ⟨q, c, hc, rfl⟩ := newConnection_inv hw
  have he : c.events = kReadEvent := Channel.enableReading_events hc
  have hs : EPollPoller.Synced q c := by
    change p.updateChannel { addr, fd := sockfd, events := kNoneEvent.union kReadEvent, addedToLoop := true } = _ at hc
    rcases EPollPoller.updateChannel_inv hc with ⟨-, rfl, hq⟩ | ⟨hi, -⟩ | ⟨hi, -⟩
    · exact ⟨by simp [Poller.registered, hq, Events.union, kReadEvent, kNoneEvent],
        by simp [Events.union, kReadEvent, kNoneEvent]⟩
    · cases hi
    · cases hi
  refine ⟨⟨Buffer.fresh_wf (by decide), hs, by rw [he]; rfl, by rw [he]; rfl, by simp, fun _ => by rw [he]; rfl⟩,
    ?_, by simp⟩
  exact ⟨Nat.zero_le _, by simp, by simp, rfl, rfl, rfl⟩

end

end World

/-- A connection closes at most once: no run fails the assertion of `handleClose`,
and the three effects of closing happen at most once each. -/
theorem connection_closes_once {p : EPollPoller} {addr : Nat} {sockfd : Int} {phase : Phase} {sameLoop : Bool}
    {w : World EPollPoller} (hw : World.newConnection p addr sockfd phase sameLoop = .ok w) (ls : List Label)
    (hm : Meets World.step World.ClosesCleanly w ls) :
    run World.step w ls ≠ .error .handleClose ∧
      ∀ v, run World.step w ls = .ok v →
        v.effects.count (.connectionCallback false) ≤ 1 ∧ v.effects.count .closeCallback ≤ 1 ∧
          v.effects.count .connectDestroyed ≤ 1 := by
  have h₀ := World.newConnection_once hw
  have hstep : ∀ s l t, World.Once s → s.ClosesCleanly l → s.step l = .ok t → World.Once t :=
    fun _ _ _ hs hl ht => hs.step hl ht
  refine ⟨hm.no_error hstep (fun s l hs _ => hs.no_handleClose l) h₀, fun v hv => ?_⟩
  have h := (hm.inv hstep h₀ hv).counted
  have hle : v.conn.state.closed ≤ 1 := by cases v.conn.state <;> simp [StateE.closed]
  have h₁ := h.downs
  have h₂ := h.closes
  have h₃ := h.destroys
  refine ⟨?_, ?_, ?_⟩ <;> omega

theorem connection_closes_once_peer :
    ∃ w v : World EPollPoller, World.newConnection EPollPoller.empty 1 5 .functors true = .ok w ∧
      run World.step w [.endIteration, .poll kReadEvent, .task (.room 0) (.data []), .task (.room 0) (.data []),
        .doPendingFunctors, .task (.room 0) (.data [])] = .ok v ∧
      v.effects.count .connectDestroyed = 1 ∧ v.effects.count (.connectionCallback false) ≤ 1 := by
  obtain ⟨w, hw, he⟩ := ok_of_map (show (World.newConnection EPollPoller.empty 1 5 .functors true).map (fun w =>
    (decide (Meets World.step World.ClosesCleanly w [.endIteration, .poll kReadEvent, .task (.room 0) (.data []),
        .task (.room 0) (.data []), .doPendingFunctors, .task (.room 0) (.data [])]),
      (run World.step w [.endIteration, .poll kReadEvent, .task (.room 0) (.data []), .task (.room 0) (.data []),
        .doPendingFunctors, .task (.room 0) (.data [])]).map (·.effects.count .connectDestroyed))) =
    .ok (true, .ok 1) by decide +kernel)
  rw [Prod.mk.injEq] at he
  obtain ⟨v, hv, hd⟩ := ok_of_map he.2
  exact ⟨w, v, hw, hv, hd, ((connection_closes_once hw _ (of_decide_eq_true he.1)).2 v hv).1⟩

/-- `stopRead` and `forceClose`: closing puts the descriptor back into the epoll
set, and the hangup reported there meets a closed connection. -/
theorem hangup_after_forceClose_asserts :
    ∃ w : World EPollPoller, World.newConnection EPollPoller.empty 1 5 .functors true = .ok w ∧
      run World.step w [.call .stopRead, .call .forceClose, .endIteration, .poll kNoneEvent, .doPendingFunctors,
        .task (.room 0) (.data []), .task (.room 0) (.data []), .endIteration, .poll { pollhup := true },
        .task (.room 0) (.data [])] = .error .handleClose := by
  obtain ⟨w, hw, he⟩ := ok_of_map (show (World.newConnection EPollPoller.empty 1 5 .functors true).map (fun w =>
    (run World.step w [.call .stopRead, .call .forceClose, .endIteration, .poll kNoneEvent, .doPendingFunctors,
      .task (.room 0) (.data []), .task (.room 0) (.data []), .endIteration, .poll { pollhup := true },
      .task (.room 0) (.data [])]).map (·.effects)) = .ok (.error .handleClose) by decide +kernel)
  exact ⟨w, hw, error_of_map he⟩

end Zhengqi
