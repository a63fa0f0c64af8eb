import Zhengqi.BufferStorageSound
import Zhengqi.ConnectionLoopSound
import Zhengqi.Lib.Valve
import Zhengqi.OutputTotalSound
import Zhengqi.OutputSound
import Zhengqi.Tunnel

/-!
# A tunnel relays both streams

Whatever happens to the two connections, the bytes that one of them has received are those that were written to
the other, then those in its `outputBuffer_`, then those still in the `inputBuffer_` they came through.
-/

namespace Zhengqi

open Run

namespace Buffer

theorem fill_inv {b c : Buffer} {data : Bytes} (h : b.fill data = .ok c) :
    b.writerIndex + data.length ≤ b.buffer.length ∧
      c = { b with buffer := Slice.overwrite b.buffer b.writerIndex data } := by
  unfold fill at h
  obtain ⟨u, hu, h⟩ := bind_ok.mp h
  cases h
  exact ⟨check_ok.mp hu, rfl⟩

/-- `readFd` appends what was delivered. -/
theorem readFd_inv {b c : Buffer} (hb : b.WF) {r : ReadResult} {n : Int} (h : b.readFd r = .ok (n, c)) :
    c.WF ∧ c.readable = b.readable ++ b.delivered r ∧ (0 < n ↔ b.delivered r ≠ []) := by
  cases r with
  | error e =>
    cases h
    exact ⟨hb, (List.append_nil _).symm, by simp [delivered]⟩
  | data arrived =>
    unfold readFd at h
    dsimp only at h
    rw [← offered_eq] at h
    change _ ∧ _ = _ ++ arrived.take b.offered ∧ (_ ↔ arrived.take b.offered ≠ [])
    generalize arrived.take b.offered = data at h ⊢
    obtain ⟨d, hd, h⟩ := bind_ok.mp h
    obtain ⟨hfit, rfl⟩ := fill_inv hd
    have hsize := hb.size_le
    have hl := Slice.length_overwrite hfit
    obtain ⟨hcur, hread⟩ := hb.cursors.written hfit
    have hcheap := hb.cheap_le
    split at h
    · rename_i hle
      cases h
      rw [List.take_of_length_le hle] at hfit hl hcur hread ⊢
      have hsum : sizeT (b.writerIndex + data.length) = b.writerIndex + data.length := by
        unfold maxSize at hsize
        exact sizeT_of_lt (by omega)
      rw [hsum]
      refine ⟨hcur.wf (by rw [hl]; exact hcheap), hread, ?_⟩
      rw [← List.length_pos_iff]
      omega
    · rename_i hgt
      obtain ⟨e, he, h⟩ := bind_ok.mp h
      cases h
      have hfull : b.writerIndex + (data.take b.writableBytes).length =
          (Slice.overwrite b.buffer b.writerIndex (data.take b.writableBytes)).length := by
        rw [hl, List.length_take, hb.writableBytes_eq]
        have h₁ := hb.writer_le
        have h₂ := hb.writableBytes_eq
        omega
      rw [hfull] at hcur hread
      obtain ⟨hwf, hr⟩ := append_inv (hcur.wf (by rw [hl]; exact hcheap)) he
      refine ⟨hwf, ?_, ?_⟩
      · rw [hr, hread, List.append_assoc, List.take_append_drop]
      · rw [← List.length_pos_iff]
        omega

end Buffer

/-! ## What a connection does to its streams -/

namespace World

section
variable {P : Type}

/-- What was written, then what is to be written. -/
def flow (w : World P) : Bytes := wire w.effects ++ w.conn.outputBuffer.readable

/-- As long as the connection is open its channel is writing exactly when there is output, and the end of
stream was never sent ahead of output. -/
structure Fine (w : World P) : Prop where
  output : w.conn.outputBuffer.WF
  input : w.conn.inputBuffer.WF
  writing : w.conn.state = .kConnected ∨ w.conn.state = .kDisconnecting →
    (w.conn.channel.isWriting = true ↔ w.conn.outputBuffer.readable ≠ [])
  fin : ∀ u, .shutdownWrite u ∈ w.effects → u = []

/-- `put` joins the flow, and `got` the input. -/
structure Moves (w : World P) (put got : Bytes) (v : World P) : Prop where
  fine : v.Fine
  flow : v.flow = w.flow ++ put
  input : v.conn.inputBuffer.readable = w.conn.inputBuffer.readable ++ got
  effects : w.effects <+: v.effects

variable {w v : World P}

theorem Moves.refl (h : w.Fine) : Moves w [] [] w :=
  ⟨h, (List.append_nil _).symm, (List.append_nil _).symm, List.prefix_rfl⟩

theorem Moves.trans {u : World P} {put got put' got' : Bytes} (h₁ : Moves w put got u) (h₂ : Moves u put' got' v) :
    Moves w (put ++ put') (got ++ got') v where
  fine := h₂.fine
  flow := by rw [h₂.flow, h₁.flow, List.append_assoc]
  input := by rw [h₂.input, h₁.input, List.append_assoc]
  effects := h₁.effects.trans h₂.effects

/-- What the new effects write has left the output. -/
theorem Moves.of_effects (h : w.Fine) {es : List Effect} {put : Bytes} (hb : v.conn.outputBuffer.WF)
    (hi : v.conn.inputBuffer = w.conn.inputBuffer) (he : v.effects = w.effects ++ es)
    (hw : v.conn.state = .kConnected ∨ v.conn.state = .kDisconnecting →
      (v.conn.channel.isWriting = true ↔ v.conn.outputBuffer.readable ≠ []))
    (hfin : ∀ u, .shutdownWrite u ∈ es → u = [])
    (hflow : wire es ++ v.conn.outputBuffer.readable = w.conn.outputBuffer.readable ++ put) : Moves w put [] v where
  fine := by
    refine ⟨hb, hi ▸ h.input, hw, fun u hu => ?_⟩
    rcases List.mem_append.mp (he ▸ hu) with hu | hu
    · exact h.fin u hu
    · exact hfin u hu
  flow := by rw [World.flow, he, wire_append, List.append_assoc, hflow, ← List.append_assoc]; rfl
  input := by rw [hi, List.append_nil]
  effects := he ▸ List.prefix_append _ _

/-- Neither buffer changes, nothing is written, and the channel of an open connection still writes if it did. -/
theorem Moves.of_same (h : w.Fine) (ho : v.conn.outputBuffer = w.conn.outputBuffer)
    (hi : v.conn.inputBuffer = w.conn.inputBuffer) {es : List Effect} (he : v.effects = w.effects ++ es)
    (hes : ∀ e ∈ es, e.isOutput = false)
    (hw : v.conn.state = .kConnected ∨ v.conn.state = .kDisconnecting →
      (w.conn.state = .kConnected ∨ w.conn.state = .kDisconnecting) ∧
        v.conn.channel.isWriting = w.conn.channel.isWriting) :
    Moves w [] [] v := by
  refine .of_effects h (ho ▸ h.output) hi he (fun hs => ?_) (fun u hu => by cases hes _ hu) ?_
  · obtain ⟨hs, hc⟩ := hw hs
    rw [hc, ho]
    exact h.writing hs
  · have hwire : wire es = [] := by
      refine List.flatMap_eq_nil_iff.mpr fun e hm => ?_
      have := hes e hm
      cases e <;> first | rfl | cases this
    rw [hwire, ho, List.append_nil, List.nil_append]

theorem Moves.log (h : w.Fine) {e : Effect} (he : e.isOutput = false) : Moves w [] [] (w.log e) :=
  .of_same h rfl rfl rfl (by simpa using he) fun hs => ⟨hs, rfl⟩

theorem Moves.shutdown (h : w.Fine) : Moves w [] [] w.shutdown := by
  by_cases hs : w.conn.state = .kConnected
  · obtain ⟨es, hes, hcase⟩ := shutdown_inv hs
    have hfin : ∀ u, .shutdownWrite u ∈ es → u = [] := by
      rcases hcase with rfl | ⟨hw, rfl⟩
      · simp
      · intro u hu
        have hu : u = w.conn.outputBuffer.readable := by simpa using hu
        rw [hu]
        by_contra hne
        rw [(h.writing (.inl hs)).mpr hne] at hw
        cases hw
    have hwire : wire es = [] := by
      rcases hcase with rfl | ⟨-, rfl⟩ <;> rfl
    rw [hes]
    exact .of_effects h h.output rfl rfl (fun _ => h.writing (.inl hs)) hfin (by simp [hwire, setState])
  · rw [World.shutdown, if_neg hs]
    exact .refl h

end

section
variable {P : Type} [Poller P] [LawfulPoller P] {w v : World P}

theorem Moves.startReadInLoop (h : w.Fine) (hv : w.startReadInLoop = .ok v) : Moves w [] [] v := by
  rcases startReadInLoop_inv hv with rfl | ⟨p, c, hc, rfl⟩
  · exact .refl h
  · refine .of_same h rfl rfl (List.append_nil _).symm (by simp) fun hs => ⟨hs, ?_⟩
    show c.isWriting = _
    rw [Channel.isWriting_eq, Channel.isWriting_eq, Channel.enableReading_events hc]
    simp [Events.union, kReadEvent]

theorem Moves.stopReadInLoop (h : w.Fine) (hv : w.stopReadInLoop = .ok v) : Moves w [] [] v := by
  rcases stopReadInLoop_inv hv with rfl | ⟨-, p, c, hc, rfl⟩
  · exact .refl h
  · refine .of_same h rfl rfl (List.append_nil _).symm (by simp) fun hs => ⟨hs, ?_⟩
    show c.isWriting = _
    rw [Channel.isWriting_eq, Channel.isWriting_eq, Channel.disableReading_events hc]
    simp [Events.diff, kReadEvent]

omit [LawfulPoller P] in
theorem Moves.handleClose (h : w.Fine) (hv : w.handleClose = .ok v) : Moves w [] [] v := by
  obtain ⟨-, p, c, -, rfl⟩ := handleClose_inv hv
  exact .of_same h rfl rfl rfl (by simp [Effect.isOutput]) fun hs => by simp at hs

theorem Moves.handleWrite (h : w.Fine) {r : WriteResult} (hv : w.handleWrite r = .ok v) : Moves w [] [] v := by
  have hf := handleWrite_inv h.output hv
  refine .of_effects h hf.wf hf.notes.inputBuffer hf.effects
    (fun hs => hf.writing (h.writing (hf.frame.state ▸ hs))) (fun u hu => ?_) ?_
  · unfold flushEffects at hu
    split at hu
    · split at hu
      · split at hu <;> simp at hu
        exact hu
      · simp at hu
    · simp at hu
  · rw [wire_flushEffects, ← hf.readable, List.append_nil]

theorem Moves.sendBuffer (h : w.Fine) {m : Bytes} {r : WriteResult} (hr : r.intact = true)
    (hv : w.sendBuffer m r = .ok v) : Moves w (if w.conn.state = .kConnected then m else []) [] v := by
  rcases sendBuffer_inv hv with ⟨hs, hv⟩ | ⟨hs, rfl⟩
  · rw [if_pos hs]
    have hf := sendInLoop_inv h.output hv
    refine .of_effects h hf.wf hf.notes.inputBuffer hf.effects
      (fun hs => hf.writing (h.writing (hf.frame.state ▸ hs))) (fun u hu => ?_) ?_
    · unfold sendEffects at hu
      split at hu <;> simp at hu
    · -- what the kernel takes now was queued behind nothing
      have hm := taken_leftover (drops_of_intact w m hr)
      rw [wire_sendEffects, hf.readable]
      by_cases hi : w.Idle
      · rw [if_pos hi] at hm ⊢
        rw [hi.2, List.nil_append, List.nil_append, hm]
      · rw [if_neg hi, List.nil_append] at hm
        rw [if_neg hi, hm, List.nil_append]
  · rw [if_neg hs]
    exact .refl h

omit [LawfulPoller P] in
theorem Moves.handleRead (h : w.Fine) {r : ReadResult} (hv : w.handleRead r = .ok v) :
    Moves w [] (w.conn.inputBuffer.delivered r) v := by
  unfold World.handleRead at hv
  obtain ⟨⟨n, b⟩, hb, hv⟩ := bind_ok.mp hv
  obtain ⟨hwf, hread, -⟩ := Buffer.readFd_inv h.input hb
  have hm : Moves w [] (w.conn.inputBuffer.delivered r) { w with conn := { w.conn with inputBuffer := b } } :=
    ⟨⟨h.output, hwf, h.writing, h.fin⟩, (List.append_nil _).symm, hread, List.prefix_rfl⟩
  dsimp only at hv
  split at hv
  · cases hv
    have := hm.trans (.log hm.fine (e := .messageCallback) rfl)
    rwa [List.append_nil, List.append_nil] at this
  · split at hv
    · have := hm.trans (.handleClose hm.fine hv)
      rwa [List.append_nil, List.append_nil] at this
    · cases hv
      exact hm

theorem Moves.remove (h : w.Fine) (hv : w.onChannel Channel.remove = .ok v) : Moves w [] [] v := by
  obtain ⟨p, c, hc, rfl⟩ := onChannel_inv hv
  obtain ⟨hn, hd⟩ := Channel.remove_events hc
  refine .of_same h rfl rfl (List.append_nil _).symm (by simp) fun hs => ⟨hs, ?_⟩
  show c.isWriting = _
  rw [Channel.isWriting_eq, Channel.isWriting_eq, hn, hd]

theorem Moves.connectDestroyed (h : w.Fine) (hv : w.connectDestroyed = .ok v) : Moves w [] [] v := by
  rcases connectDestroyed_inv hv with ⟨-, p, c, -, rfl⟩ | ⟨-, p, c, hc, rfl⟩
  · exact .of_same h rfl rfl rfl (by simp [Effect.isOutput]) fun hs => by simp at hs
  · obtain ⟨hn, hd⟩ := Channel.remove_events hc
    refine .of_same h rfl rfl rfl (by simp [Effect.isOutput]) fun hs => ⟨hs, ?_⟩
    show c.isWriting = _
    rw [Channel.isWriting_eq, Channel.isWriting_eq, hn, hd]

theorem Moves.runFunctor (h : w.Fine) {f : Functor} (hv : w.runFunctor f = .ok v) : Moves w [] [] v := by
  cases f with
  | forceCloseInLoop =>
    change w.forceCloseInLoop = .ok v at hv
    unfold World.forceCloseInLoop at hv
    split at hv
    · exact .handleClose h hv
    · cases hv
      exact .refl h
  | connectDestroyed => exact .connectDestroyed h hv
  | writeComplete =>
    cases hv
    exact .log h rfl
  | highWaterMark len =>
    cases hv
    exact .log h rfl

omit [Poller P] [LawfulPoller P] in
theorem Moves.removeConnectionInLoop (h : w.Fine) (hv : w.removeConnectionInLoop = .ok v) : Moves w [] [] v := by
  rw [removeConnectionInLoop_inv hv]
  exact .of_same h rfl rfl (List.append_nil _).symm (by simp) fun hs => ⟨hs, rfl⟩

omit [Poller P] [LawfulPoller P] in
theorem Moves.closeCallback (h : w.Fine) (hv : w.closeCallback = .ok v) : Moves w [] [] v := by
  rcases closeCallback_inv hv with rfl | rfl
  · exact .of_same h rfl rfl rfl (by simp [Effect.isOutput]) fun hs => ⟨hs, rfl⟩
  · exact .of_same h rfl rfl rfl (by simp [Effect.isOutput]) fun hs => ⟨hs, rfl⟩

theorem Moves.runTask (h : w.Fine) {wr : WriteResult} {rr : ReadResult} {task : Task}
    (hv : w.runTask wr rr task = .ok v) :
    Moves w [] (if task = .handleRead then w.conn.inputBuffer.delivered rr else []) v := by
  cases task with
  | handleClose => exact .handleClose h hv
  | handleError =>
    cases hv
    exact .refl h
  | handleRead => exact .handleRead h hv
  | handleWrite => exact .handleWrite h hv
  | closeCallback => exact .closeCallback h hv
  | channelRemove => exact .remove h hv
  | functor f => exact .runFunctor h hv

end

end World

/-! ## What the tunnel does to them -/

@[simp] theorem ServerClient.other_other (s : ServerClient) : s.other.other = s := by cases s <;> rfl

@[simp] theorem ServerClient.other_ne (s : ServerClient) : s.other ≠ s := by cases s <;> simp [other]

theorem ServerClient.forall_iff {p : ServerClient → Prop} (s : ServerClient) : (∀ s', p s') ↔ p s ∧ p s.other := by
  refine ⟨fun h => ⟨h s, h s.other⟩, fun ⟨h₁, h₂⟩ s' => ?_⟩
  by_cases hs : s' = s
  · exact hs ▸ h₁
  · have : s' = s.other := by cases s <;> cases s' <;> simp_all [other]
    exact this ▸ h₂

namespace Tunnel

section
variable {P : Type} {t u : Tunnel P} {s : ServerClient}

@[simp] theorem peer_setPeer (t : Tunnel P) (s : ServerClient) (p : Peer) : (t.setPeer s p).peer s = p := by
  simp [setPeer]

@[simp] theorem peer_setPeer_other (t : Tunnel P) (s : ServerClient) (p : Peer) :
    (t.setPeer s p).peer s.other = t.peer s.other := by simp [setPeer]

@[simp] theorem peer_setPeer_of_other (t : Tunnel P) (s : ServerClient) (p : Peer) :
    (t.setPeer s.other p).peer s = t.peer s := by simpa using peer_setPeer_other t s.other p

/-- What one connection has received is on its way through the other, in order. -/
structure Conserves (t : Tunnel P) : Prop where
  fine : ∀ s, (t.world s).Fine
  relayed : ∀ s, (t.world s).flow ++ (t.conn s.other).inputBuffer.readable = (t.peer s.other).received

theorem Conserves.of_peer (h : t.Conserves) (hp : u.peer = t.peer) : u.Conserves := by
  refine ⟨fun s => ?_, fun s => ?_⟩
  · have hf := h.fine s
    refine ⟨?_, ?_, ?_, ?_⟩ <;> simp only [world, conn, hp]
    exacts [hf.output, hf.input, hf.writing, hf.fin]
  · have hr := h.relayed s
    simp only [World.flow, world, conn, hp] at hr ⊢
    exact hr

theorem Conserves.setPeer (h : t.Conserves) {p : Peer} {w : World P} {got : Bytes}
    (hm : World.Moves (t.world s) [] got w)
    (hc : p.conn = w.conn) (he : p.effects = w.effects) (hr : p.received = (t.peer s).received ++ got) :
    (t.setPeer s p).Conserves := by
  have hrest := h.relayed s.other
  have hthis := h.relayed s
  rw [ServerClient.other_other] at hrest
  refine ⟨(ServerClient.forall_iff s).mpr ⟨?_, ?_⟩, (ServerClient.forall_iff s).mpr ⟨?_, ?_⟩⟩
  · have hf := hm.fine
    refine ⟨?_, ?_, ?_, ?_⟩ <;> simp only [world, conn, peer_setPeer, hc, he]
    exacts [hf.output, hf.input, hf.writing, hf.fin]
  · have hf := h.fine s.other
    refine ⟨?_, ?_, ?_, ?_⟩ <;> simp only [world, conn, peer_setPeer_other]
    exacts [hf.output, hf.input, hf.writing, hf.fin]
  · have hflow := hm.flow
    rw [List.append_nil] at hflow
    simp only [conn, peer_setPeer_other] at hthis ⊢
    rw [← hthis, ← hflow]
    simp only [World.flow, world, conn, peer_setPeer, hc, he]
  · have hin := hm.input
    rw [ServerClient.other_other]
    simp only [conn, peer_setPeer, hc, hr]
    rw [hin, ← List.append_assoc, ← hrest]
    simp only [World.flow, world, conn, peer_setPeer_other]

theorem on_ok {f : World P → Except Fault (World P)} (h : t.on s f = .ok u) :
    ∃ w, f (t.world s) = .ok w ∧ u = t.put s w := by
  obtain ⟨w, hw, h⟩ := bind_ok.mp h
  cases h
  exact ⟨w, hw, rfl⟩

theorem Conserves.put (h : t.Conserves) {w : World P} (hm : World.Moves (t.world s) [] [] w) :
    (t.put s w).Conserves := by
  have := h.setPeer (p := { t.peer s with
    conn := w.conn, effects := w.effects, sameLoop := w.sameLoop, removals := w.removals, owned := w.owned }) hm rfl rfl
    (List.append_nil _).symm
  exact this.of_peer rfl

theorem Conserves.on (h : t.Conserves) {f : World P → Except Fault (World P)}
    (hf : ∀ w, f (t.world s) = .ok w → World.Moves (t.world s) [] [] w) (hu : t.on s f = .ok u) : u.Conserves := by
  obtain ⟨w, hw, rfl⟩ := on_ok hu
  exact h.put (hf w hw)

/-- A callback is set. -/
theorem Conserves.setConn (h : t.Conserves) {c : TcpConnection} (ho : c.outputBuffer = (t.conn s).outputBuffer)
    (hi : c.inputBuffer = (t.conn s).inputBuffer) (hc : c.channel = (t.conn s).channel)
    (hs : c.state = (t.conn s).state) :
    (t.setConn s c).Conserves := by
  refine h.setPeer (w := { t.world s with conn := c })
    (.of_same (h.fine s) ho hi (List.append_nil _).symm (by simp) ?_) rfl rfl
    (List.append_nil _).symm
  intro hst
  exact ⟨hs ▸ hst, congrArg _ hc⟩

theorem Conserves.teardown (h : t.Conserves) (hu : t.teardown = .ok u) : u.Conserves := by
  obtain ⟨v, hv, hu⟩ := bind_ok.mp hu
  cases hu
  have hv' : v.Conserves := by
    refine (h.of_peer (u := { t with bound := false, context := false }) rfl).on (fun w hw => ?_) hv
    cases hw
    exact .shutdown (h.fine .kServer)
  exact hv'.of_peer rfl

section
variable [Poller P] [LawfulPoller P]

theorem Conserves.startRead (h : t.Conserves) (hu : t.startRead s = .ok u) : u.Conserves :=
  h.on (fun _ hw => .startReadInLoop (h.fine s) hw) hu

theorem Conserves.stopRead (h : t.Conserves) (hu : t.stopRead s = .ok u) : u.Conserves :=
  h.on (fun _ hw => .stopReadInLoop (h.fine s) hw) hu

theorem Conserves.send (h : t.Conserves) {r : WriteResult} (hr : r.intact = true) (hu : t.send s r = .ok u) :
    u.Conserves := by
  obtain ⟨v, hv, hu⟩ := bind_ok.mp hu
  obtain ⟨w, hw, rfl⟩ := on_ok hv
  have hm := World.Moves.sendBuffer (h.fine s) hr hw
  have hconn : (t.world s).conn.state = (t.conn s).state := rfl
  rw [hconn] at hm
  split at hu
  · rename_i hs
    rw [if_pos hs] at hm
    cases hu
    have hother := h.fine s.other
    have hthis := h.relayed s
    have hrest := h.relayed s.other
    have hflow := hm.flow
    have hin := hm.input
    have hf := hm.fine
    rw [ServerClient.other_other] at hrest
    rw [List.append_nil] at hin
    refine ⟨(ServerClient.forall_iff s).mpr ⟨?_, ?_⟩, (ServerClient.forall_iff s).mpr ⟨?_, ?_⟩⟩
    · refine ⟨?_, ?_, ?_, ?_⟩ <;> simp only [world, Tunnel.setConn, Tunnel.put, conn,
        peer_setPeer_of_other, peer_setPeer]
      exacts [hf.output, hf.input, hf.writing, hf.fin]
    · refine ⟨?_, ?_, ?_, ?_⟩ <;> simp only [world, Tunnel.setConn, Tunnel.put, conn, peer_setPeer_other, peer_setPeer]
      exacts [hother.output, Buffer.retrieveAll_wf hother.input, hother.writing, hother.fin]
    · simp only [World.flow, world, Tunnel.setConn, Tunnel.put, conn, peer_setPeer, peer_setPeer_other,
        peer_setPeer_of_other, Buffer.retrieveAll_readable, List.append_nil] at hthis hflow ⊢
      rw [← hthis]
      exact hflow
    · simp only [World.flow, world, Tunnel.setConn, Tunnel.put, conn, peer_setPeer, peer_setPeer_other,
        peer_setPeer_of_other, ServerClient.other_other] at hrest hin ⊢
      rw [hin]
      exact hrest
  · rename_i hs
    rw [if_neg hs] at hm
    cases hu
    exact h.put hm

theorem Conserves.onClientConnection (h : t.Conserves) {r : WriteResult} (hr : r.intact = true)
    (hu : t.onClientConnection r = .ok u) : u.Conserves := by
  unfold Tunnel.onClientConnection at hu
  split at hu
  · obtain ⟨v, hv, hu⟩ := bind_ok.mp hu
    have hset : (t.setHighWaterMarkCallback .kClient).Conserves := h.setConn rfl rfl rfl rfl
    have hv' := (hset.of_peer (u := { t.setHighWaterMarkCallback .kClient with context := true }) rfl).startRead hv
    have hv'' := hv'.of_peer (u := { v with clientConn := true }) rfl
    exact ite_pure_inv (fun _ hu => hv''.send hr hu) hv'' hu
  · exact h.teardown hu

theorem Conserves.onHighWaterMark (h : t.Conserves) (hu : t.onHighWaterMark s = .ok u) : u.Conserves := by
  cases s with
  | kServer =>
    refine ite_pure_inv (fun _ hu => ?_) h hu
    obtain ⟨-, -, hu⟩ := bind_ok.mp hu
    obtain ⟨v, hv, hu⟩ := bind_ok.mp hu
    cases hu
    exact (h.stopRead hv).setConn rfl rfl rfl rfl
  | kClient =>
    obtain ⟨-, -, hu⟩ := bind_ok.mp hu
    refine ite_pure_inv (fun _ hu => ?_) h hu
    obtain ⟨v, hv, hu⟩ := bind_ok.mp hu
    cases hu
    exact (h.stopRead hv).setConn rfl rfl rfl rfl

theorem Conserves.onWriteComplete (h : t.Conserves) (hu : t.onWriteComplete s = .ok u) : u.Conserves := by
  cases s with
  | kServer =>
    obtain ⟨-, -, hu⟩ := bind_ok.mp hu
    obtain ⟨v, hv, hu⟩ := bind_ok.mp hu
    cases hu
    exact (h.startRead hv).setConn rfl rfl rfl rfl
  | kClient =>
    obtain ⟨v, hv, hu⟩ := bind_ok.mp hu
    obtain ⟨-, -, hu⟩ := bind_ok.mp hu
    cases hu
    exact (h.startRead hv).setConn rfl rfl rfl rfl

omit [Poller P] [LawfulPoller P] in
theorem Conserves.onServerDown (h : t.Conserves) (hu : t.onServerDown = .ok u) : u.Conserves := by
  obtain ⟨-, -, hu⟩ := bind_ok.mp hu
  obtain ⟨v, hv, hu⟩ := bind_ok.mp hu
  cases hu
  refine Conserves.of_peer (t := v) ?_ rfl
  unfold disconnect at hv
  split at hv
  · refine h.on (fun w hw => ?_) hv
    cases hw
    exact .shutdown (h.fine .kClient)
  · cases hv
    exact h

theorem Conserves.callback (h : t.Conserves) {r : WriteResult} (hr : r.intact = true) {locked : Bool} {e : Effect}
    (hu : callback s r locked t e = .ok u) : u.Conserves := by
  cases e with
  | connectionCallback up =>
    cases s with
    | kServer => exact h.onServerDown hu
    | kClient => exact h.onClientConnection hr hu
  | messageCallback =>
    cases s with
    | kServer => exact ite_pure_inv (fun _ hu => h.send hr hu) h hu
    | kClient => exact h.send hr hu
  | highWaterMarkCallback len => exact ite_pure_inv (fun _ hu => h.onHighWaterMark hu) h hu
  | writeCompleteCallback => exact ite_pure_inv (fun _ hu => h.onWriteComplete hu) h hu
  | _ =>
    cases hu
    exact h

/-! ## Along a run -/

omit [Poller P] [LawfulPoller P] in
theorem removeConnection_moves {w v : World P} (h : w.Fine) (hv : removeConnection w = .ok v) :
    World.Moves w [] [] v := by
  obtain ⟨-, -, hv⟩ := bind_ok.mp hv
  cases hv
  exact .of_same h rfl rfl rfl (by simp [Effect.isOutput]) fun hs => ⟨hs, rfl⟩

theorem body_moves {w v : World P} (h : w.Fine) {wr : WriteResult} {rr : ReadResult} {task : Task}
    (hv : body s wr rr task w = .ok v) :
    World.Moves w [] (if task = .handleRead then w.conn.inputBuffer.delivered rr else []) v := by
  unfold body at hv
  split at hv
  · rename_i hc
    rw [hc.2]
    exact removeConnection_moves h hv
  · exact .runTask h hv

theorem Conserves.runTask (h : t.Conserves) {wr : WriteResult} (hr : wr.intact = true) {rr : ReadResult} {locked : Bool}
    {task : Task} (hu : t.runTask s wr rr locked task = .ok u) : u.Conserves := by
  obtain ⟨v, hv, hu⟩ := bind_ok.mp hu
  obtain ⟨w, hw, rfl⟩ := on_ok hv
  have hm := body_moves (h.fine s) hw
  refine foldlM_inv (fun t e u ht hu => ht.callback hr hu) ?_ hu
  refine (h.setPeer (s := s) (p := { (t.put s w).peer s with received := (t.peer s).received ++ _ }) hm
    ?_ ?_ rfl).of_peer ?_
  · simp [Tunnel.put]
  · simp [Tunnel.put]
  · simp [Tunnel.put, Tunnel.setPeer]
    rfl

theorem Conserves.step (h : t.Conserves) {l : Label} (hl : ∀ wr rr locked, l = .task wr rr locked → wr.intact = true)
    (hu : t.step l = .ok u) : u.Conserves := by
  refine ite_pure_inv (fun _ hu => ?_) h hu
  cases l with
  | poll first revents =>
    cases hu
    exact h.of_peer rfl
  | task wr rr locked =>
    cases ht : t.todo with
    | nil =>
      simp only [act, ht] at hu
      cases hu
      exact h
    | cons next todo =>
      simp only [act, ht] at hu
      exact (h.of_peer (u := { t with todo }) rfl).runTask (hl wr rr locked rfl) hu
  | doPendingFunctors =>
    cases hu
    exact h.of_peer rfl
  | endIteration =>
    cases hu
    exact h.of_peer rfl
  | removeConnectionInLoop =>
    simp only [act] at hu
    refine h.on (fun w hw => ?_) hu
    have hf := h.fine .kServer
    have hm := World.Moves.removeConnectionInLoop
      (w := { t.world .kServer with removals := (t.world .kServer).removals - 1 })
      ⟨hf.output, hf.input, hf.writing, hf.fin⟩ hw
    exact ⟨hm.fine, hm.flow, hm.input, hm.effects⟩

/-! ## The start -/

omit [LawfulPoller P] in
theorem newConnection_fine {p : P} {addr : Nat} {sockfd : Int} {phase : Phase} {sameLoop : Bool}
    {w : World P} [LawfulPoller P] (h : World.newConnection p addr sockfd phase sameLoop = .ok w) :
    w.Fine ∧ w.flow = [] ∧ w.conn.inputBuffer.readable = [] := by
  obtain ⟨q, c, hc, rfl⟩ := World.newConnection_inv h
  have hwf : (Buffer.fresh Buffer.kInitialSize).WF := Buffer.fresh_wf (by decide)
  have hw : c.isWriting = false := by
    rw [Channel.isWriting_eq, Channel.enableReading_events hc]
    rfl
  refine ⟨⟨hwf, hwf, fun _ => ?_, by simp⟩, ?_, Buffer.fresh_readable _⟩
  · rw [hw, Buffer.fresh_readable]
    simp
  · simp [World.flow, wire, Buffer.fresh_readable]

theorem accept_fine {p : P} {addr : Nat} {sockfd : Int} {sameLoop : Bool} {w : World P}
    (h : accept p addr sockfd sameLoop = .ok w) : w.Fine ∧ w.flow = [] ∧ w.conn.inputBuffer.readable = [] := by
  obtain ⟨v, hv, h⟩ := bind_ok.mp h
  obtain ⟨x, hx, h⟩ := bind_ok.mp h
  cases h
  obtain ⟨hfine, hflow, hin⟩ := newConnection_fine hv
  have hm := World.Moves.stopReadInLoop hfine hx
  have hm' : World.Moves x [] []
      { x with conn := { x.conn with highWaterMarkCallback := true, highWaterMark := kHighWaterMark } } :=
    .of_same hm.fine rfl rfl (List.append_nil _).symm (by simp) fun hs => ⟨hs, rfl⟩
  refine ⟨hm'.fine, ?_, ?_⟩
  · rw [hm'.flow, hm.flow, hflow]
    rfl
  · rw [hm'.input, hm.input, hin]
    rfl

theorem newConnection_conserves {w : World P} (hw : w.Fine) (hflow : w.flow = [])
    (hin : w.conn.inputBuffer.readable = [])
    {addr : Nat} {sockfd : Int} {r : WriteResult} (hr : r.intact = true) (h : newConnection w addr sockfd r = .ok t) :
    t.Conserves := by
  obtain ⟨v, hv, h⟩ := bind_ok.mp h
  obtain ⟨hfine, hvflow, hvin⟩ := newConnection_fine hv
  refine Conserves.onClientConnection ⟨(ServerClient.forall_iff .kServer).mpr ⟨?_, ?_⟩,
    (ServerClient.forall_iff .kServer).mpr ⟨?_, ?_⟩⟩ hr h
  · exact ⟨hw.output, hw.input, hw.writing, hw.fin⟩
  · exact ⟨hfine.output, hfine.input, hfine.writing, hfine.fin⟩
  · exact List.append_eq_nil_iff.mpr ⟨hflow, hvin⟩
  · exact List.append_eq_nil_iff.mpr ⟨hvflow, hin⟩

/-- Along every run of the loop, whatever happens to the connections, as long as no write fails with a broken
connection: what one side has received was written to the other, or is in the output of that one, or in the
input it came through, in this order; and the end of the stream was not sent ahead of output. -/
theorem tunnel_relays_streams {p : P} {serverAddr clientAddr : Nat} {serverFd clientFd : Int}
    {sameLoop : Bool} {w : World P}
    {r : WriteResult} (hw : accept p serverAddr serverFd sameLoop = .ok w) (hr : r.intact = true)
    (ht : newConnection w clientAddr clientFd r = .ok t) (ls : List Label)
    (hls : ∀ wr rr locked, .task wr rr locked ∈ ls → wr.intact = true) (hu : run step t ls = .ok u) (s : ServerClient) :
    wire (u.peer s).effects ++ (u.conn s).outputBuffer.readable ++ (u.conn s.other).inputBuffer.readable =
        (u.peer s.other).received ∧
      ∀ unsent, .shutdownWrite unsent ∈ (u.peer s).effects → unsent = [] := by
  obtain ⟨hfine, hflow, hin⟩ := accept_fine hw
  have hstep : ∀ t l u, Conserves (P := P) t → (∀ wr rr locked, l = .task wr rr locked → wr.intact = true) →
      step t l = .ok u → u.Conserves := fun t l u h hl hu => h.step hl hu
  have h := Meets.inv hstep (Meets.of_forall fun l hl _ wr rr locked he => hls wr rr locked (he ▸ hl))
    (newConnection_conserves hfine hflow hin hr ht) hu
  exact ⟨h.relayed s, (h.fine s).fin⟩

end

theorem tunnel_relays_streams_short_write : ∃ (w : World EPollPoller) (t u : Tunnel EPollPoller),
    accept EPollPoller.empty 1 5 true = .ok w ∧ newConnection w 2 6 (.room 0) = .ok t ∧
      run step t [.doPendingFunctors, .endIteration,
        .poll .kServer fun | .kServer => { pollin := true } | .kClient => {},
        .task (.room 2) (.data [1, 2, 3]) false] = .ok u ∧
      (u.peer .kServer).received = [1, 2, 3] ∧
      wire (u.peer .kClient).effects ++ (u.conn .kClient).outputBuffer.readable ++
        (u.conn .kServer).inputBuffer.readable = (u.peer .kServer).received := by
  obtain ⟨w, hw, he⟩ := ok_of_map (show (accept EPollPoller.empty 1 5 true).map (fun w =>
    (newConnection w 2 6 (.room 0)).map fun t => (run step t [.doPendingFunctors, .endIteration,
      .poll .kServer fun | .kServer => { pollin := true } | .kClient => {},
      .task (.room 2) (.data [1, 2, 3]) false]).map
      fun u => (u.peer .kServer).received) = .ok (.ok (.ok [1, 2, 3])) by decide +kernel)
  obtain ⟨t, ht, he⟩ := ok_of_map he
  obtain ⟨u, hu, he⟩ := ok_of_map he
  exact ⟨w, t, u, hw, ht, hu, he, (tunnel_relays_streams hw rfl ht _ (by simp [WriteResult.intact]) hu .kClient).1⟩

end

end Tunnel

end Zhengqi
