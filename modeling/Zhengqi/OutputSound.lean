import Zhengqi.EPollPollerSound
import Zhengqi.TcpConnectionSound

/-!
# The output stream

The bytes the kernel has taken followed by the bytes in `outputBuffer_` are the
messages of the calls of `send`, in order (`output_stream_intact`). `wire` and
`sent` are read off the trace of a connection: the bytes of the `write` calls,
and those of the entries of `sendInLoop`; `OutOp.messages` says from the calls
and the state before them which messages have to reach it.
-/

namespace Zhengqi

open Run

def wire (es : List Effect) : Bytes :=
  es.flatMap fun
    | .write data r => r.taken data
    | _ => []

def sent (es : List Effect) : Bytes :=
  es.flatMap fun
    | .sendInLoop data => data
    | _ => []

@[simp] theorem wire_append (es fs : List Effect) : wire (es ++ fs) = wire es ++ wire fs := List.flatMap_append

@[simp] theorem sent_append (es fs : List Effect) : sent (es ++ fs) = sent es ++ sent fs := List.flatMap_append

def WriteResult.intact : WriteResult → Bool
  | .room _ => true
  | .error e => !e.isFault

namespace World

section
variable {P : Type}

theorem wire_sendEffects (w : World P) (m : Bytes) (r : WriteResult) :
    wire (w.sendEffects m r) = if w.Idle then r.taken m else [] := by
  unfold sendEffects wire
  split <;> simp

theorem sent_sendEffects (w : World P) (m : Bytes) (r : WriteResult) : sent (w.sendEffects m r) = m := by
  unfold sendEffects sent
  split <;> simp

/-- `sendInLoop` gives up on bytes of the message: the connection turns out to be broken. -/
def drops (w : World P) (m : Bytes) (r : WriteResult) : Bool := w.Idle && !r.intact && !m.isEmpty

theorem drops_of_intact (w : World P) (m : Bytes) {r : WriteResult} (hr : r.intact = true) : w.drops m r = false := by
  simp [drops, hr]

theorem taken_leftover {w : World P} {m : Bytes} {r : WriteResult} (hd : w.drops m r = false) :
    (if w.Idle then r.taken m else []) ++ w.leftover m r = m := by
  unfold leftover
  by_cases hi : w.Idle
  · simp only [if_pos hi]
    cases r with
    | room n => exact List.take_append_drop n m
    | error e =>
      cases he : e.isFault with
      | false => simp [WriteResult.taken, he]
      | true =>
        have hm : m = [] := by simpa [drops, hi, WriteResult.intact, he] using hd
        simp [WriteResult.taken, hm]
  · simp only [if_neg hi, List.nil_append]

theorem wire_flushEffects (w : World P) (r : WriteResult) : wire (w.flushEffects r) = w.flushed r := by
  unfold flushEffects flushed
  split
  · split
    · split <;> simp [wire]
    · simp [wire]
  · rfl

theorem sent_flushEffects (w : World P) (r : WriteResult) : sent (w.flushEffects r) = [] := by
  unfold flushEffects
  split
  · split
    · split <;> simp [sent]
    · simp [sent]
  · rfl

end

section
variable {P : Type} [Poller P]

theorem Sends.stream {w v : World P} {m : Bytes} {r : WriteResult} (h : Sends w m r v) (hd : w.drops m r = false)
    (hw : wire w.effects ++ w.conn.outputBuffer.readable = sent w.effects) :
    wire v.effects ++ v.conn.outputBuffer.readable = sent v.effects := by
  rw [h.effects, h.readable, wire_append, sent_append, wire_sendEffects, sent_sendEffects, ← hw]
  -- what is taken now was not taken earlier only if nothing was queued
  have hm := taken_leftover hd
  by_cases hi : w.Idle
  · rw [if_pos hi] at hm ⊢
    rw [hi.2, List.append_nil, List.nil_append, List.append_assoc, hm]
  · rw [if_neg hi, List.nil_append] at hm
    rw [if_neg hi, List.append_nil, hm, List.append_assoc]

theorem Flushes.stream {w v : World P} {r : WriteResult} (h : Flushes w r v)
    (hw : wire w.effects ++ w.conn.outputBuffer.readable = sent w.effects) :
    wire v.effects ++ v.conn.outputBuffer.readable = sent v.effects := by
  rw [h.effects, wire_append, sent_append, wire_flushEffects, sent_flushEffects, List.append_nil, List.append_assoc,
    ← h.readable]
  exact hw

/-- The channel is writing after `sendInLoop` exactly when something is queued. -/
theorem Sends.writing [LawfulPoller P] {w v : World P} {m : Bytes} {r : WriteResult} (h : Sends w m r v)
    (hw : w.conn.channel.isWriting = true ↔ w.conn.outputBuffer.readable ≠ []) :
    v.conn.channel.isWriting = true ↔ v.conn.outputBuffer.readable ≠ [] := by
  rw [h.readable]
  by_cases hl : w.leftover m r = []
  · rw [(h.untouched hl).2, hl, List.append_nil]; exact hw
  · cases hwr : w.conn.channel.isWriting with
    | true => rw [(h.quiet hwr).2]; simp [hwr, hl]
    | false =>
      rw [Channel.isWriting_eq, Channel.enableWriting_events (h.armed hl hwr)]
      simp [Events.union, kWriteEvent, hl]

theorem Flushes.writing [LawfulPoller P] {w v : World P} {r : WriteResult} (h : Flushes w r v)
    (hw : w.conn.channel.isWriting = true ↔ w.conn.outputBuffer.readable ≠ []) :
    v.conn.channel.isWriting = true ↔ v.conn.outputBuffer.readable ≠ [] := by
  have hr := h.readable
  by_cases hd : w.Drains r
  · have hnil : v.conn.outputBuffer.readable = [] := by
      simp only [flushed, if_pos hd.1, hd.2.2] at hr
      simpa using hr
    rw [Channel.isWriting_eq, Channel.disableWriting_events (h.disarmed hd), hnil]
    simp [Events.diff, kWriteEvent]
  · rw [(h.quiet hd).2, hw]
    refine not_congr ⟨fun he => ?_, fun he => ?_⟩
    · rw [he] at hr
      exact (List.append_eq_nil_iff.mp hr.symm).2
    · -- everything taken would mean that the buffer drained
      by_contra hne
      have hwr := hw.mpr hne
      rw [he, List.append_nil] at hr
      simp only [flushed, if_pos hwr] at hr
      exact hd ⟨hwr, hne, hr.symm⟩

end

end World

/-! ## Runs of the output side -/

/-- What the output side of a connection can be asked to do. -/
inductive OutOp
  | sendPiece (message : Bytes) (r : WriteResult)
  | sendBuffer (message : Bytes) (r : WriteResult)
  | handleWrite (r : WriteResult)
  | shutdown
  deriving DecidableEq, Repr

namespace OutOp

variable {P : Type} [Poller P]

def exec (w : World P) : OutOp → Except Fault (World P)
  | .sendPiece m r => w.sendPiece m r
  | .sendBuffer m r => w.sendBuffer m r
  | .handleWrite r => w.handleWrite r
  | .shutdown => pure w.shutdown

def intact : OutOp → Bool
  | .sendPiece _ r | .sendBuffer _ r | .handleWrite r => r.intact
  | .shutdown => true

/-- The state of the connection after the call. -/
def next (s : StateE) : OutOp → StateE
  | .shutdown => if s = .kConnected then .kDisconnecting else s
  | _ => s

/-- The message that has to reach `sendInLoop`: of the two overloads of `send`, only the one that
takes a `Buffer` looks at the state. -/
def message (s : StateE) : OutOp → Bytes
  | .sendPiece m _ => m
  | .sendBuffer m _ => if s = .kConnected then m else []
  | _ => []

def messages : StateE → List OutOp → Bytes
  | _, [] => []
  | s, op :: ops => op.message s ++ messages (op.next s) ops

theorem disconnecting_of_next {s : StateE} {op : OutOp} (h : op.next s = .kDisconnecting) :
    s = .kDisconnecting ∨ op = .shutdown := by
  cases op with
  | shutdown => exact .inr rfl
  | _ => exact .inl h

end OutOp

namespace World

section
variable {P : Type}

structure Intact (w : World P) : Prop where
  wf : w.conn.outputBuffer.WF
  stream : wire w.effects ++ w.conn.outputBuffer.readable = sent w.effects
  writing : w.conn.channel.isWriting = true ↔ w.conn.outputBuffer.readable ≠ []
  -- `shutdownWrite` was executed only when everything sent was on the wire
  fin : ∀ e₁ u e₂, w.effects = e₁ ++ .shutdownWrite u :: e₂ → u = [] ∧ wire e₁ = sent e₁

/-- An effect of a longer trace is one of what was added, or an old one. -/
theorem split_append {es fs e₁ e₂ : List Effect} {x : Effect} (h : es ++ fs = e₁ ++ x :: e₂) :
    (∃ f₁, e₁ = es ++ f₁ ∧ fs = f₁ ++ x :: e₂) ∨ ∃ e₃, es = e₁ ++ x :: e₃ := by
  rcases List.append_eq_append_iff.mp h with ⟨a, ha, hb⟩ | ⟨a, ha, hb⟩
  · exact .inl ⟨a, ha, hb⟩
  · cases a with
    | nil => exact .inl ⟨[], by rw [ha, List.append_nil, List.append_nil], hb.symm⟩
    | cons y a =>
      obtain ⟨rfl, -⟩ := List.cons.inj hb
      exact .inr ⟨a, ha⟩

theorem fin_append {es fs : List Effect}
    (h : ∀ e₁ u e₂, es = e₁ ++ .shutdownWrite u :: e₂ → u = [] ∧ wire e₁ = sent e₁)
    (hfs : ∀ f₁ u f₂, fs = f₁ ++ .shutdownWrite u :: f₂ → u = [] ∧ wire (es ++ f₁) = sent (es ++ f₁)) :
    ∀ e₁ u e₂, es ++ fs = e₁ ++ .shutdownWrite u :: e₂ → u = [] ∧ wire e₁ = sent e₁ := by
  intro e₁ u e₂ he
  rcases split_append he with ⟨f₁, rfl, hf⟩ | ⟨e₃, he⟩
  · exact hfs f₁ u e₂ hf
  · exact h e₁ u e₃ he

theorem Intact.shutdownInLoop {w : World P} (h : w.Intact) : w.shutdownInLoop.Intact := by
  unfold World.shutdownInLoop
  split
  · rename_i hw
    have hnil : w.conn.outputBuffer.readable = [] := by
      by_contra hne
      rw [h.writing.mpr hne] at hw
      cases hw
    have hs := h.stream
    rw [hnil, List.append_nil] at hs
    refine ⟨h.wf, ?_, h.writing, fin_append h.fin ?_⟩
    · simp [log, wire, sent]; exact h.stream
    · intro f₁ u f₂ hf
      cases f₁ with
      | nil =>
        simp only [List.nil_append, List.cons.injEq, Effect.shutdownWrite.injEq] at hf
        rw [List.append_nil]
        exact ⟨by rw [← hf.1]; exact hnil, hs⟩
      | cons x f₁ => simp at hf
  · exact h

end

section
variable {P : Type} [Poller P] [LawfulPoller P]

theorem Intact.send {w v : World P} (h : w.Intact) {m : Bytes} {r : WriteResult} (hr : r.intact = true)
    (hs : w.sendInLoop m r = .ok v) : v.Intact := by
  have hs := sendInLoop_inv h.wf hs
  refine ⟨hs.wf, hs.stream (drops_of_intact w m hr) h.stream, hs.writing h.writing, ?_⟩
  rw [hs.effects]
  refine fin_append h.fin fun f₁ u f₂ hf => ?_
  have : Effect.shutdownWrite u ∈ w.sendEffects m r := by rw [hf]; simp
  unfold sendEffects at this
  split at this <;> simp at this

theorem Intact.handleWrite {w v : World P} (h : w.Intact) {r : WriteResult} (hw : w.handleWrite r = .ok v) :
    v.Intact := by
  have hf := handleWrite_inv h.wf hw
  refine ⟨hf.wf, hf.stream h.stream, hf.writing h.writing, ?_⟩
  rw [hf.effects]
  refine fin_append h.fin fun f₁ u f₂ hf' => ?_
  unfold flushEffects at hf'
  split at hf'
  · rename_i hwr
    split at hf'
    · rename_i hd
      split at hf'
      · -- the end of stream comes right after the write that drained the buffer
        cases f₁ with
        | nil => simp at hf'
        | cons x f₁ =>
          cases f₁ with
          | nil =>
            simp only [List.cons_append, List.nil_append, List.cons.injEq, Effect.shutdownWrite.injEq] at hf'
            obtain ⟨rfl, rfl, -⟩ := hf'
            refine ⟨rfl, ?_⟩
            rw [wire_append, sent_append]
            simp only [wire, sent, List.flatMap_cons, List.flatMap_nil, List.append_nil, hd.2.2]
            exact h.stream
          | cons y f₁ => simp at hf'
      · have : Effect.shutdownWrite u ∈ [Effect.write w.conn.outputBuffer.readable r] := by rw [hf']; simp
        simp at this
    · have : Effect.shutdownWrite u ∈ [Effect.write w.conn.outputBuffer.readable r] := by rw [hf']; simp
      simp at this
  · simp at hf'

theorem Intact.exec {w v : World P} {op : OutOp} (h : w.Intact) (hop : op.intact = true) (hv : op.exec w = .ok v) :
    v.Intact := by
  cases op with
  | sendPiece m r =>
    change w.sendPiece m r = .ok v at hv
    rw [sendPiece_eq] at hv
    exact h.send hop hv
  | sendBuffer m r =>
    rcases sendBuffer_inv hv with ⟨-, hv⟩ | ⟨-, rfl⟩
    · exact h.send hop hv
    · exact h
  | handleWrite r => exact h.handleWrite hv
  | shutdown =>
    cases hv
    unfold World.shutdown
    split
    · refine Intact.shutdownInLoop ⟨h.wf, ?_, h.writing, fin_append h.fin ?_⟩
      · simp [log, setState, wire, sent]; exact h.stream
      · intro f₁ u f₂ hf
        have : Effect.shutdownWrite u ∈ [Effect.shutdown] := by rw [hf]; simp
        simp at this
    · exact h

end

end World

/-! ## The messages of a run -/

namespace OutOp

variable {P : Type} [Poller P] [LawfulPoller P] {w v : World P} {op : OutOp}

/-- What one call adds to the trace: its message, and the end of the stream only in a connection
that is being shut down. -/
structure Emits (op : OutOp) (w v : World P) (fs : List Effect) : Prop where
  state : v.conn.state = op.next w.conn.state
  effects : v.effects = w.effects ++ fs
  sent : sent fs = op.message w.conn.state
  fin : ∀ f₁ u f₂, fs = f₁ ++ .shutdownWrite u :: f₂ →
    Zhengqi.sent f₁ = op.message w.conn.state ∧ (w.conn.state = .kDisconnecting ∨ op = .shutdown)

omit [Poller P] [LawfulPoller P] in
theorem Emits.nothing (hs : op.next w.conn.state = w.conn.state) (hm : op.message w.conn.state = []) :
    op.Emits w w [] :=
  ⟨hs.symm, (List.append_nil _).symm, hm.symm, fun f₁ u f₂ h => by simp at h⟩

omit [LawfulPoller P] in
theorem Emits.send {m : Bytes} {r : WriteResult} (h : World.Sends w m r v)
    (hs : op.next w.conn.state = w.conn.state) (hm : op.message w.conn.state = m) :
    op.Emits w v (w.sendEffects m r) := by
  refine ⟨h.frame.state.trans hs.symm, h.effects, (World.sent_sendEffects w m r).trans hm.symm, ?_⟩
  intro f₁ u f₂ hf
  have hmem : Effect.shutdownWrite u ∈ w.sendEffects m r := by rw [hf]; simp
  unfold World.sendEffects at hmem
  split at hmem <;> simp at hmem

omit [LawfulPoller P] in
theorem Emits.handleWrite {r : WriteResult} (h : World.Flushes w r v) :
    (OutOp.handleWrite r).Emits w v (w.flushEffects r) := by
  refine ⟨h.frame.state, h.effects, World.sent_flushEffects w r, ?_⟩
  intro f₁ u f₂ hf
  have hd : w.conn.state = .kDisconnecting := by
    by_contra hne
    have hmem : Effect.shutdownWrite u ∈ w.flushEffects r := by rw [hf]; simp
    unfold World.flushEffects at hmem
    rw [if_neg hne, ite_self] at hmem
    split at hmem <;> simp at hmem
  have hs := World.sent_flushEffects w r
  rw [hf, sent_append] at hs
  exact ⟨(List.append_eq_nil_iff.mp hs).1, .inl hd⟩

omit [Poller P] [LawfulPoller P] in
theorem Emits.shutdown (w : World P) : ∃ fs, OutOp.shutdown.Emits w w.shutdown fs := by
  by_cases hs : w.conn.state = .kConnected
  · have hnext : OutOp.shutdown.next w.conn.state = .kDisconnecting := if_pos hs
    obtain ⟨es, hw, hes⟩ := World.shutdown_inv hs
    rw [hw]
    refine ⟨es, hnext.symm, rfl, ?_, ?_⟩
    · rcases hes with rfl | ⟨-, rfl⟩ <;> rfl
    · intro f₁ u f₂ hf
      refine ⟨?_, .inr rfl⟩
      have hall : Zhengqi.sent es = [] := by rcases hes with rfl | ⟨-, rfl⟩ <;> rfl
      rw [hf, sent_append] at hall
      exact (List.append_eq_nil_iff.mp hall).1
  · rw [World.shutdown, if_neg hs]
    exact ⟨[], Emits.nothing (if_neg hs) rfl⟩

theorem emits (hb : w.conn.outputBuffer.WF) (hv : op.exec w = .ok v) : ∃ fs, op.Emits w v fs := by
  cases op with
  | sendPiece m r =>
    change w.sendPiece m r = .ok v at hv
    rw [World.sendPiece_eq] at hv
    exact ⟨_, Emits.send (World.sendInLoop_inv hb hv) rfl rfl⟩
  | sendBuffer m r =>
    rcases World.sendBuffer_inv hv with ⟨hs, hv⟩ | ⟨hs, rfl⟩
    · exact ⟨_, Emits.send (World.sendInLoop_inv hb hv) rfl (if_pos hs)⟩
    · exact ⟨[], Emits.nothing rfl (if_neg hs)⟩
  | handleWrite r => exact ⟨_, Emits.handleWrite (World.handleWrite_inv hb hv)⟩
  | shutdown =>
    cases hv
    exact Emits.shutdown w

/-- What a run adds to the trace, along the calls that it has made when the stream ends. -/
theorem emits_run (h : w.Intact) : ∀ {ops : List OutOp}, (∀ op ∈ ops, op.intact = true) → run OutOp.exec w ops = .ok v →
    v.Intact ∧ ∃ fs, v.effects = w.effects ++ fs ∧ sent fs = messages w.conn.state ops ∧
      ∀ f₁ u f₂, fs = f₁ ++ .shutdownWrite u :: f₂ → ∃ ops₁, ops₁ <+: ops ∧
        (w.conn.state = .kDisconnecting ∨ .shutdown ∈ ops₁) ∧ sent f₁ = messages w.conn.state ops₁ := by
  intro ops hops hr
  induction ops generalizing w with
  | nil =>
    cases hr
    exact ⟨h, [], (List.append_nil _).symm, rfl, fun f₁ u f₂ hf => by simp at hf⟩
  | cons op ops ih =>
    obtain ⟨x, hx, hr⟩ := (run_cons_ok _).mp hr
    obtain ⟨hop, hops⟩ := List.forall_mem_cons.mp hops
    obtain ⟨gs, hg⟩ := emits h.wf hx
    obtain ⟨hv, fs, hfs, hsent, hfin⟩ := ih (h.exec hop hx) hops hr
    rw [hg.state] at hsent hfin
    refine ⟨hv, gs ++ fs, ?_, ?_, ?_⟩
    · rw [hfs, hg.effects, List.append_assoc]
    · rw [sent_append, hg.sent, hsent, messages]
    · intro f₁ u f₂ hf
      -- the stream ends in this call, or in a later one
      rcases World.split_append hf with ⟨a, rfl, ha⟩ | ⟨a, ha⟩
      · obtain ⟨ops₁, hpre, hwhy, hs⟩ := hfin a u f₂ ha
        refine ⟨op :: ops₁, List.cons_prefix_cons.mpr ⟨rfl, hpre⟩, ?_, ?_⟩
        · rcases hwhy with hd | hm
          · refine (disconnecting_of_next hd).imp_right fun he => ?_
            rw [he]
            exact List.mem_cons_self ..
          · exact .inr (List.mem_cons_of_mem _ hm)
        · rw [sent_append, hg.sent, hs, messages]
      · obtain ⟨hs, hwhy⟩ := hg.fin f₁ u a ha
        refine ⟨[op], List.prefix_append [op] ops, ?_, ?_⟩
        · refine hwhy.imp_right fun he => ?_
          rw [he]
          exact List.mem_singleton_self _
        · rw [hs, messages, messages, List.append_nil]

end OutOp

/-- Output stream integrity, from a connection that has sent nothing yet and whatever its state. The
bytes on the wire and those in the buffer are the messages of the calls, in order; the channel is
writing exactly when the buffer is not empty; and the stream ends with an empty buffer, when every
message of the calls up to then is on the wire, the call of `shutdown` among them. -/
theorem output_stream_intact {P : Type} [Poller P] [LawfulPoller P] {w v : World P} (hb : w.conn.outputBuffer.WF)
    (hi : w.Idle) (hw : wire w.effects = []) (hs : sent w.effects = []) (hf : ∀ u, .shutdownWrite u ∉ w.effects)
    (ops : List OutOp) (hops : ∀ op ∈ ops, op.intact = true) (hr : run OutOp.exec w ops = .ok v) :
    wire v.effects ++ v.conn.outputBuffer.readable = OutOp.messages w.conn.state ops ∧
      (v.conn.channel.isWriting = true ↔ v.conn.outputBuffer.readable ≠ []) ∧
      ∀ e₁ u e₂, v.effects = e₁ ++ .shutdownWrite u :: e₂ → u = [] ∧ ∃ ops₁, ops₁ <+: ops ∧
        (w.conn.state = .kDisconnecting ∨ .shutdown ∈ ops₁) ∧ wire e₁ = OutOp.messages w.conn.state ops₁ := by
  have h₀ : w.Intact := by
    refine ⟨hb, by rw [hw, hs, hi.2]; rfl, by rw [hi.1, hi.2]; simp, fun e₁ u e₂ h => ?_⟩
    exact absurd (show Effect.shutdownWrite u ∈ w.effects by rw [h]; simp) (hf u)
  obtain ⟨hv, fs, hfs, hsent, hfin⟩ := OutOp.emits_run h₀ hops hr
  refine ⟨?_, hv.writing, fun e₁ u e₂ he => ?_⟩
  · rw [hv.stream, hfs, sent_append, hs, hsent, List.nil_append]
  · obtain ⟨hu, hwire⟩ := hv.fin e₁ u e₂ he
    refine ⟨hu, ?_⟩
    rw [hfs] at he
    rcases World.split_append he with ⟨f₁, rfl, hf₁⟩ | ⟨e₃, he₃⟩
    · obtain ⟨ops₁, hpre, hwhy, hs₁⟩ := hfin f₁ u e₂ hf₁
      refine ⟨ops₁, hpre, hwhy, ?_⟩
      rw [hwire, sent_append, hs, hs₁, List.nil_append]
    · exact absurd (by rw [he₃]; simp) (hf u)

/-- "hi" and "!" go out in two parts, and the end of the stream after them; what `send(Buffer *)` is given
after `shutdown` does not. -/
def partialWrites : List OutOp :=
  [.sendPiece [104, 105] (.room 1), .sendBuffer [33] (.room 1), .shutdown, .sendBuffer [63] (.room 1),
    .handleWrite (.room 9)]

theorem output_stream_intact_partial_write :
    ∃ w v : World EPollPoller, World.newConnection EPollPoller.empty 1 5 .handleEvents true = .ok w ∧
      run OutOp.exec w partialWrites = .ok v ∧
      wire v.effects ++ v.conn.outputBuffer.readable = [104, 105, 33] ∧ wire v.effects = [104, 105, 33] ∧
      v.effects.getLast? = some (.shutdownWrite []) := by
  obtain ⟨v, hv, hl⟩ := ok_of_map (show (World.newConnection EPollPoller.empty 1 5 .handleEvents true >>= fun w =>
    run OutOp.exec w partialWrites).map (fun v => (wire v.effects, v.effects.getLast?)) =
      .ok ([104, 105, 33], some (.shutdownWrite [])) by decide +kernel)
  obtain ⟨w, hw, hv⟩ := bind_ok.mp hv
  obtain ⟨hwire, hlast⟩ := Prod.mk.inj hl
  refine ⟨w, v, hw, hv, ?_, hwire, hlast⟩
  obtain ⟨q, c, hc, rfl⟩ := World.newConnection_inv hw
  have hwr : c.isWriting = false := by rw [Channel.isWriting_eq, Channel.enableReading_events hc]; rfl
  exact (output_stream_intact (Buffer.fresh_wf (by decide)) ⟨hwr, Buffer.fresh_readable _⟩ rfl rfl
    (by simp) partialWrites (by decide) hv).1

end Zhengqi
