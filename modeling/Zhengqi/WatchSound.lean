import Zhengqi.TunnelSound

/-!
# A connection that is up

While a connection of a tunnel is up, the poller holds its channel, and the kernel watches it for reading where
`reading_` says so and for writing exactly while there is output.
-/

namespace Zhengqi

open Run

/-! ## Interest in a connection -/

def interest (reading writing : Bool) : Events := { pollin := reading, pollpri := reading, pollout := writing }

section
variable (reading writing : Bool)

theorem interest_union_read : (interest reading writing).union kReadEvent = interest true writing := by
  simp [interest, Events.union, kReadEvent]

theorem interest_diff_read : (interest reading writing).diff kReadEvent = interest false writing := by
  simp [interest, Events.diff, kReadEvent]

theorem interest_union_write : (interest reading writing).union kWriteEvent = interest reading true := by
  simp [interest, Events.union, kWriteEvent]

theorem interest_diff_write : (interest reading writing).diff kWriteEvent = interest reading false := by
  simp [interest, Events.diff, kWriteEvent]

theorem interest_eq_none : interest reading writing = kNoneEvent ↔ reading = false ∧ writing = false := by
  cases reading <;> cases writing <;> decide

end

namespace EPollPoller

variable {p q : EPollPoller} {c d e : Channel}

/-- The poller holds the channel and the kernel watches it for its events. -/
structure Attends (p : EPollPoller) (c : Channel) : Prop where
  held : Held p c
  synced : Synced p c

theorem Attends.of_update (h : Attends p c) {ev : Events} (hev : ev ≠ kNoneEvent ∨ c.events ≠ kNoneEvent)
    (hu : p.updateChannel { c with events := ev, addedToLoop := true } = .ok (q, d)) :
    Attends q d ∧ d.fd = c.fd ∧ d.events = ev ∧ ∀ e : Channel, e.fd ≠ c.fd → Attends p e → Attends q e := by
  have hframe := LawfulPoller.updateChannel_frame (P := EPollPoller) hu
  refine ⟨⟨h.held.of_update hu, updateChannel_synced h.synced hev hu⟩, by rw [hframe], by rw [hframe],
    fun e hfd he => ?_⟩
  have hh : Held p { c with events := ev, addedToLoop := true } := ⟨h.held.channels, h.held.index⟩
  obtain ⟨q', d', hu', hd⟩ := hh.tracked.1.updateChannel (.inr hh.tracked.2)
  rw [hu] at hu'
  cases hu'
  have hsame : q.channels e.fd = p.channels e.fd ∧ q.epoll e.fd = p.epoll e.fd := by
    cases hd <;> simp [Function.update_of_ne hfd]
  refine ⟨⟨hsame.1 ▸ he.held.channels, hsame.2 ▸ he.held.index⟩, ⟨?_, he.synced.index⟩⟩
  have hr := he.synced.registered
  simp only [Poller.registered] at hr ⊢
  rw [hsame.2]
  exact hr

theorem Attends.of_new (hi : c.index = kNew) (hev : c.events ≠ kNoneEvent) (hu : p.updateChannel c = .ok (q, d)) :
    p.channels c.fd = none ∧ Attends q d ∧ d.fd = c.fd ∧ d.events = c.events ∧
      ∀ e : Channel, e.fd ≠ c.fd → Attends p e → Attends q e := by
  have hheld := held_of_new hi hu
  unfold updateChannel at hu
  rw [if_pos (.inl hi), if_pos hi] at hu
  obtain ⟨p', hp', hu⟩ := bind_ok.mp hu
  obtain ⟨_, hnone, hp'⟩ := bind_ok.mp hp'
  cases hp'
  obtain ⟨q', hq', hu⟩ := bind_ok.mp hu
  cases hu
  have hq : q.channels = Function.update p.channels c.fd (some c.addr) ∧
      q.epoll = Function.update p.epoll c.fd (some (c.events, c.addr)) := by
    unfold update epollCtl at hq'
    cases he : p.epoll c.fd with
    | none => simp only [he] at hq'; cases hq'; exact ⟨rfl, rfl⟩
    | some x => simp only [he] at hq'; cases hq'
  refine ⟨check_ok.mp hnone, ⟨hheld, ⟨?_, by simp [hev]⟩⟩, rfl, rfl, fun e hfd he => ⟨⟨?_, ?_⟩, ⟨?_, he.synced.index⟩⟩⟩
  · simp [Poller.registered, hq.2, hev]
  · rw [hq.1, Function.update_of_ne hfd]
    exact he.held.channels
  · rw [hq.2, Function.update_of_ne hfd]
    exact he.held.index
  · have hr := he.synced.registered
    simp only [Poller.registered] at hr ⊢
    rw [hq.2, Function.update_of_ne hfd]
    exact hr

theorem Attends.of_established {addr : Nat} {sockfd : Int}
    (h : Channel.enableReading p { addr, fd := sockfd } = .ok (q, c)) :
    p.channels sockfd = none ∧ Attends q c ∧ c.fd = sockfd ∧ c.events = interest true false ∧
      ∀ e : Channel, e.fd ≠ sockfd → Attends p e → Attends q e :=
  of_new (c := { addr, fd := sockfd, events := interest true false, addedToLoop := true }) rfl
    (show interest true false ≠ kNoneEvent by decide) h

end EPollPoller

namespace Buffer

/-- Everything was retrieved. -/
structure Emptied (b : Buffer) : Prop where
  wf : b.WF
  reader : b.readerIndex = kCheapPrepend
  writer : b.writerIndex = kCheapPrepend

theorem Emptied.readable {b : Buffer} (h : b.Emptied) : b.readable = [] := by
  rw [Buffer.readable, h.reader, h.writer]
  exact Slice.slice_self _ _

theorem WF.emptied {b : Buffer} (h : b.WF) : b.retrieveAll.Emptied := ⟨retrieveAll_wf h, rfl, rfl⟩

theorem fresh_emptied : (fresh kInitialSize).Emptied := ⟨fresh_wf (by decide), rfl, rfl⟩

theorem offered_pos (b : Buffer) : 0 < b.offered := by
  rw [offered_eq]
  unfold kExtraBuf
  split <;> omega

theorem delivered_ne_nil (b : Buffer) {arrived : Bytes} (h : arrived ≠ []) : b.delivered (.data arrived) ≠ [] := by
  have := b.offered_pos
  rw [delivered, ← List.length_pos_iff, List.length_take]
  have := List.length_pos_iff.mpr h
  omega

theorem delivered_length (b : Buffer) (arrived : Bytes) : (b.delivered (.data arrived)).length ≤ arrived.length := by
  rw [delivered, List.length_take]
  omega

/-- A read into an empty buffer fails only at the limit of the vector. -/
theorem Emptied.readFd_total {b : Buffer} (h : b.Emptied) (arrived : Bytes) (hs : arrived.length + 16 ≤ maxSize) :
    ∃ n c, b.readFd (.data arrived) = .ok (n, c) := by
  have hcur := h.wf.cursors
  have hwe := hcur.writableBytes_eq
  have hwl := hcur.writer_le
  rw [h.writer] at hwe hwl
  rw [kCheapPrepend] at hwe hwl
  have hex : ∃ extraBuf : Bytes, extraBuf.length = kExtraBuf := ⟨List.replicate kExtraBuf 0, List.length_replicate⟩
  obtain ⟨extraBuf, hextra⟩ := hex
  have htake : b.readFd (.data (arrived.take b.offered)) = b.readFd (.data arrived) := by
    have htwice : (arrived.take b.offered).take b.offered = arrived.take b.offered := by
      rw [List.take_take, Nat.min_self]
    unfold readFd
    dsimp only
    rw [← offered_eq, htwice]
  have hlen : (arrived.take b.offered).length ≤ arrived.length := by
    rw [List.length_take]
    omega
  rw [← htake, ← hcur.readFdVec_readFd hextra none]
  rcases hcur.readFdVec_data hextra none (List.length_take_le ..) with ⟨c, hc, -⟩ | ⟨hgt, hmax, -⟩
  · exact ⟨_, c, by rw [hc]; rfl⟩
  · omega

end Buffer

namespace World

open EPollPoller

/-- A connection of a tunnel that is up, with an output of at most `n` bytes. -/
structure Ready (w : World EPollPoller) (n : Nat) : Prop where
  state : w.conn.state = .kConnected
  mark : w.conn.highWaterMark = Tunnel.kHighWaterMark
  callback : w.conn.highWaterMarkCallback = true
  output : w.conn.outputBuffer.WF
  size : w.conn.outputBuffer.readable.length ≤ n
  events : w.conn.channel.events = interest w.conn.reading (w.conn.outputBuffer.readable ≠ [])
  watched : Attends w.poller w.conn.channel

/-- The connection stays what it is, and so do those with other descriptors. -/
structure Tends (w v : World EPollPoller) : Prop where
  fd : v.conn.channel.fd = w.conn.channel.fd
  others : ∀ e : Channel, e.fd ≠ w.conn.channel.fd → Attends w.poller e → Attends v.poller e

variable {w v : World EPollPoller} {n : Nat}

theorem Tends.of_same (hp : v.poller = w.poller) (hc : v.conn.channel = w.conn.channel) : Tends w v :=
  ⟨by rw [hc], fun _ _ he => hp ▸ he⟩

theorem Ready.isWriting (h : w.Ready n) : w.conn.channel.isWriting = decide (w.conn.outputBuffer.readable ≠ []) := by
  rw [Channel.isWriting_eq, h.events]
  rfl

/-- The channel was left alone, or its events were brought up to date. -/
theorem Ready.of_events (h : w.Ready n) (hs : v.conn.state = w.conn.state)
    (hm : v.conn.highWaterMark = w.conn.highWaterMark)
    (hk : v.conn.highWaterMarkCallback = w.conn.highWaterMarkCallback) (ho : v.conn.outputBuffer.WF) {m : Nat}
    (hn : v.conn.outputBuffer.readable.length ≤ m) {ev : Events}
    (hev : ev = interest v.conn.reading (v.conn.outputBuffer.readable ≠ []))
    (hc : v.poller = w.poller ∧ v.conn.channel = w.conn.channel ∧ w.conn.channel.events = ev ∨
      (ev ≠ kNoneEvent ∨ w.conn.channel.events ≠ kNoneEvent) ∧
        w.poller.updateChannel { w.conn.channel with events := ev, addedToLoop := true } =
          .ok (v.poller, v.conn.channel)) :
    v.Ready m ∧ Tends w v := by
  rcases hc with ⟨hp, hc, hevents⟩ | ⟨hne, hu⟩
  · refine ⟨⟨hs.trans h.state, hm.trans h.mark, hk.trans h.callback, ho, hn, ?_, ?_⟩, .of_same hp hc⟩
    · rw [hc, hevents, hev]
    · rw [hp, hc]
      exact h.watched
  · obtain ⟨hw, hfd, hevents, hothers⟩ := h.watched.of_update hne hu
    exact ⟨⟨hs.trans h.state, hm.trans h.mark, hk.trans h.callback, ho, hn, hevents.trans hev, hw⟩, hfd, hothers⟩

theorem Ready.sendInLoop (h : w.Ready n) {data : Bytes} {r : WriteResult} (hv : w.sendInLoop data r = .ok v) :
    v.Ready (n + data.length) ∧ Tends w v ∧ v.conn.reading = w.conn.reading := by
  have hs := sendInLoop_inv h.output hv
  have hn := hs.notes
  have hread := hs.frame.reading
  have hsize := h.size
  have hlen := length_leftover_le w data r
  have hout : v.conn.outputBuffer.readable.length ≤ n + data.length := by
    rw [hs.readable, List.length_append]
    omega
  suffices hr : v.Ready (n + data.length) ∧ Tends w v from ⟨hr.1, hr.2, hread⟩
  refine h.of_events hs.frame.state hn.highWaterMark hn.highWaterMarkCallback hs.wf hout rfl ?_
  by_cases hl : w.leftover data r = []
  · obtain ⟨hp, hc⟩ := hs.untouched hl
    left
    exact ⟨hp, congrArg _ hc, by rw [hc]; exact h.events⟩
  · have hne : v.conn.outputBuffer.readable ≠ [] := by
      rw [hs.readable]
      simp [hl]
    simp only [hne, ne_eq, not_false_eq_true, decide_true, hread]
    cases hwr : w.conn.channel.isWriting with
    | true =>
      obtain ⟨hp, hc⟩ := hs.quiet hwr
      left
      refine ⟨hp, hc, ?_⟩
      rw [h.isWriting] at hwr
      rw [h.events, hwr]
    | false =>
      right
      have hu := hs.armed hl hwr
      rw [← interest_union_write _ (w.conn.outputBuffer.readable ≠ []), ← h.events]
      exact ⟨.inl (by simp [h.events, interest_union_write, interest_eq_none]), hu⟩

theorem Ready.handleWrite (h : w.Ready n) {r : WriteResult} (hv : w.handleWrite r = .ok v) :
    v.Ready n ∧ Tends w v ∧ v.conn.reading = w.conn.reading := by
  have hs := handleWrite_inv h.output hv
  have hn := hs.notes
  have hread := hs.frame.reading
  have hsize := h.size
  have hout : v.conn.outputBuffer.readable.length ≤ n := by
    rw [hs.readable, List.length_append] at hsize
    omega
  suffices hr : v.Ready n ∧ Tends w v from ⟨hr.1, hr.2, hread⟩
  refine h.of_events hs.frame.state hn.highWaterMark hn.highWaterMarkCallback hs.wf hout rfl ?_
  have hwr : w.conn.channel.isWriting = true ↔ w.conn.outputBuffer.readable ≠ [] := by
    rw [h.isWriting, decide_eq_true_iff]
  have hvr := hs.writing hwr
  by_cases hd : w.Drains r
  · right
    have hu := hs.disarmed hd
    have hnil : v.conn.outputBuffer.readable = [] := by
      by_contra hne
      have hw := hvr.mpr hne
      rw [Channel.isWriting_eq, Channel.disableWriting_events hu] at hw
      simp [Events.diff, kWriteEvent] at hw
    simp only [hnil, ne_eq, not_true_eq_false, decide_false, hread]
    rw [← interest_diff_write _ (w.conn.outputBuffer.readable ≠ []), ← h.events]
    exact ⟨.inr (by simp [h.events, interest_eq_none, hd.2.1]), hu⟩
  · left
    obtain ⟨hp, hc⟩ := hs.quiet hd
    refine ⟨hp, hc, ?_⟩
    rw [h.events, hread]
    congr 1
    rw [hc, hwr] at hvr
    simp only [hvr]

theorem Ready.mono (h : w.Ready n) {m : Nat} (hm : w.conn.outputBuffer.readable.length ≤ m) : w.Ready m :=
  ⟨h.state, h.mark, h.callback, h.output, hm, h.events, h.watched⟩

/-- The same connection, up to its input and its `writeCompleteCallback_`. -/
structure Alike (c d : TcpConnection) : Prop where
  state : d.state = c.state
  highWaterMark : d.highWaterMark = c.highWaterMark
  highWaterMarkCallback : d.highWaterMarkCallback = c.highWaterMarkCallback
  outputBuffer : d.outputBuffer = c.outputBuffer
  reading : d.reading = c.reading
  channel : d.channel = c.channel

theorem Alike.of_eq {c d : TcpConnection} (h : d = c) : Alike c d :=
  ⟨by rw [h], by rw [h], by rw [h], by rw [h], by rw [h], by rw [h]⟩

theorem Ready.congr (h : w.Ready n) (ha : Alike w.conn v.conn) (hw : Attends v.poller w.conn.channel) : v.Ready n where
  state := ha.state.trans h.state
  mark := ha.highWaterMark.trans h.mark
  callback := ha.highWaterMarkCallback.trans h.callback
  output := ha.outputBuffer ▸ h.output
  size := ha.outputBuffer ▸ h.size
  events := by rw [ha.channel, ha.reading, ha.outputBuffer]; exact h.events
  watched := ha.channel ▸ hw

/-- The connection with another interest in reading. -/
def rearmed (w : World EPollPoller) (p : EPollPoller) (c : Channel) (reading : Bool) : World EPollPoller :=
  { w with poller := p, conn := { w.conn with channel := c, reading } }

theorem Ready.rearmed (h : w.Ready n) (reading : Bool) (hne : w.conn.reading ≠ reading) :
    ∃ p c, w.poller.updateChannel { w.conn.channel with
        events := interest reading (w.conn.outputBuffer.readable ≠ []), addedToLoop := true } = .ok (p, c) ∧
      (w.rearmed p c reading).Ready n ∧ Tends w (w.rearmed p c reading) := by
  obtain ⟨p, c, hu, -⟩ := h.watched.held.updateChannel (interest reading (w.conn.outputBuffer.readable ≠ []))
  refine ⟨p, c, hu, h.of_events (v := w.rearmed p c reading) rfl rfl rfl h.output h.size rfl (.inr ⟨?_, hu⟩)⟩
  -- one of the two interests is an interest in reading
  rw [h.events]
  cases reading with
  | false =>
    have : w.conn.reading = true := by simpa using hne
    simp [interest_eq_none, this]
  | true => simp [interest_eq_none, World.rearmed]

theorem Ready.startReadInLoop (h : w.Ready n) (hr : w.conn.reading = false) : ∃ p c,
    w.startReadInLoop = .ok (w.rearmed p c true) ∧ (w.rearmed p c true).Ready n ∧ Tends w (w.rearmed p c true) := by
  obtain ⟨p, c, hu, hready, ht⟩ := h.rearmed true (by simp [hr])
  refine ⟨p, c, ?_, hready, ht⟩
  rw [World.startReadInLoop, if_pos (.inl hr), onChannel, Channel.enableReading, h.events, interest_union_read]
  exact bind_ok.mpr ⟨_, bind_ok.mpr ⟨(p, c), hu, rfl⟩, rfl⟩

theorem Ready.stopReadInLoop (h : w.Ready n) (hr : w.conn.reading = true) : ∃ p c,
    w.stopReadInLoop = .ok (w.rearmed p c false) ∧ (w.rearmed p c false).Ready n ∧ Tends w (w.rearmed p c false) := by
  obtain ⟨p, c, hu, hready, ht⟩ := h.rearmed false (by simp [hr])
  refine ⟨p, c, ?_, hready, ht⟩
  rw [World.stopReadInLoop, if_pos (.inl hr), onChannel, Channel.disableReading, h.events, interest_diff_read]
  exact bind_ok.mpr ⟨_, bind_ok.mpr ⟨(p, c), hu, rfl⟩, rfl⟩

theorem handleRead_data {b : Buffer} {k : Int} {arrived : Bytes}
    (hb : w.conn.inputBuffer.readFd (.data arrived) = .ok (k, b)) (hk : 0 < k) : w.handleRead (.data arrived) =
      .ok ({ w with conn := { w.conn with inputBuffer := b } }.log .messageCallback) := by
  rw [World.handleRead, hb, ok_bind]
  dsimp only
  rw [if_pos hk]
  rfl

end World

end Zhengqi
