import Zhengqi.BufferSound
import Zhengqi.TcpConnection

/-!
# What the functions of a connection do

One lemma for each function that can fail: which fields a successful call
changes and how. The later modules cite these and do not unfold the functions.
-/

namespace Zhengqi

open Run

/-! ## Interest flags -/

namespace Channel

theorem isWriting_eq (c : Channel) : c.isWriting = c.events.pollout := by
  unfold isWriting kNoneEvent kWriteEvent Events.inter
  cases c.events.pollout <;> simp

theorem isReading_eq (c : Channel) : c.isReading = (c.events.pollin || c.events.pollpri) := by
  unfold isReading kNoneEvent kReadEvent Events.inter
  cases c.events.pollin <;> cases c.events.pollpri <;> simp

theorem isNoneEvent_iff {c : Channel} : c.isNoneEvent = true ↔ c.events = kNoneEvent := by
  simp [isNoneEvent]

section
variable {P : Type} [Poller P] [LawfulPoller P] {p q : P} {c d : Channel}

theorem update_inv (h : update p c = .ok (q, d)) : d = { c with index := d.index, addedToLoop := true } :=
  LawfulPoller.updateChannel_frame h

theorem enableReading_events (h : enableReading p c = .ok (q, d)) : d.events = c.events.union kReadEvent := by
  rw [update_inv h]

theorem disableReading_events (h : disableReading p c = .ok (q, d)) : d.events = c.events.diff kReadEvent := by
  rw [update_inv h]

theorem enableWriting_events (h : enableWriting p c = .ok (q, d)) : d.events = c.events.union kWriteEvent := by
  rw [update_inv h]

theorem disableWriting_events (h : disableWriting p c = .ok (q, d)) : d.events = c.events.diff kWriteEvent := by
  rw [update_inv h]

theorem disableAll_events (h : disableAll p c = .ok (q, d)) : d.events = kNoneEvent := by
  rw [update_inv h]

theorem update_stops (p : P) (c : Channel) : Stops (·.lifeCycle = false) (update p c) :=
  LawfulPoller.updateChannel_stops _ _

theorem enableReading_stops (p : P) (c : Channel) : Stops (·.lifeCycle = false) (enableReading p c) := update_stops _ _

theorem disableReading_stops (p : P) (c : Channel) : Stops (·.lifeCycle = false) (disableReading p c) :=
  update_stops _ _

theorem enableWriting_stops (p : P) (c : Channel) : Stops (·.lifeCycle = false) (enableWriting p c) := update_stops _ _

theorem disableWriting_stops (p : P) (c : Channel) : Stops (·.lifeCycle = false) (disableWriting p c) :=
  update_stops _ _

theorem disableAll_stops (p : P) (c : Channel) : Stops (·.lifeCycle = false) (disableAll p c) := update_stops _ _

theorem remove_events (h : remove p c = .ok (q, d)) : c.events = kNoneEvent ∧ d.events = kNoneEvent := by
  obtain ⟨u, hu, h⟩ := bind_ok.mp h
  have hn := isNoneEvent_iff.mp (check_ok.mp hu)
  rw [LawfulPoller.removeChannel_frame h]
  exact ⟨hn, hn⟩

end

end Channel

/-- The kernel takes all of it. -/
def WriteResult.complete (data : Bytes) : WriteResult → Bool
  | .room n => data.length ≤ n
  | .error _ => false

namespace World

section
variable {P : Type}

theorem onChannel_inv {w v : World P} {f : P → Channel → Except Fault (P × Channel)} (h : w.onChannel f = .ok v) :
    ∃ p c, f w.poller w.conn.channel = .ok (p, c) ∧
      v = { w with poller := p, conn := { w.conn with channel := c } } := by
  obtain ⟨⟨p, c⟩, hf, h⟩ := bind_ok.mp h
  cases h
  exact ⟨p, c, hf, rfl⟩

theorem onChannel_stops {p : Fault → Prop} {w : World P} {f : P → Channel → Except Fault (P × Channel)}
    (h : Stops p (f w.poller w.conn.channel)) : Stops p (w.onChannel f) := h.bind fun _ _ => Stops.ok _

/-- Neither the life cycle nor the position in the iteration changes. -/
structure Frame (w v : World P) : Prop where
  state : v.conn.state = w.conn.state
  reading : v.conn.reading = w.conn.reading
  phase : v.phase = w.phase
  todo : v.todo = w.todo
  sameLoop : v.sameLoop = w.sameLoop
  removals : v.removals = w.removals
  owned : v.owned = w.owned

theorem Frame.refl (w : World P) : Frame w w := ⟨rfl, rfl, rfl, rfl, rfl, rfl, rfl⟩

theorem Frame.trans {u v w : World P} (h₁ : Frame u v) (h₂ : Frame v w) : Frame u w :=
  ⟨h₂.state.trans h₁.state, h₂.reading.trans h₁.reading, h₂.phase.trans h₁.phase, h₂.todo.trans h₁.todo,
    h₂.sameLoop.trans h₁.sameLoop, h₂.removals.trans h₁.removals, h₂.owned.trans h₁.owned⟩

theorem Frame.log (w : World P) (e : Effect) : Frame w (w.log e) := ⟨rfl, rfl, rfl, rfl, rfl, rfl, rfl⟩

/-- Only notifications for the user were queued. -/
def Notifies (w v : World P) : Prop :=
  ∃ fs, v.pendingFunctors = w.pendingFunctors ++ fs ∧ .forceCloseInLoop ∉ fs ∧ .connectDestroyed ∉ fs

/-- The notifications that were queued, and what else the output side leaves alone. -/
structure Notes (w : World P) (fs : List Functor) (v : World P) : Prop where
  pending : v.pendingFunctors = w.pendingFunctors ++ fs
  inputBuffer : v.conn.inputBuffer = w.conn.inputBuffer
  highWaterMark : v.conn.highWaterMark = w.conn.highWaterMark
  writeCompleteCallback : v.conn.writeCompleteCallback = w.conn.writeCompleteCallback
  highWaterMarkCallback : v.conn.highWaterMarkCallback = w.conn.highWaterMarkCallback

theorem Notes.of_conn {w v : World P} {fs : List Functor} (hp : v.pendingFunctors = w.pendingFunctors ++ fs)
    (hc : v.conn = w.conn) : Notes w fs v := ⟨hp, by rw [hc], by rw [hc], by rw [hc], by rw [hc]⟩

theorem Notes.refl (w : World P) : Notes w [] w := .of_conn (List.append_nil _).symm rfl

theorem Notes.trans {u v w : World P} {fs gs : List Functor} (h₁ : Notes u fs v) (h₂ : Notes v gs w) :
    Notes u (fs ++ gs) w where
  pending := by rw [h₂.pending, h₁.pending, List.append_assoc]
  inputBuffer := h₂.inputBuffer.trans h₁.inputBuffer
  highWaterMark := h₂.highWaterMark.trans h₁.highWaterMark
  writeCompleteCallback := h₂.writeCompleteCallback.trans h₁.writeCompleteCallback
  highWaterMarkCallback := h₂.highWaterMarkCallback.trans h₁.highWaterMarkCallback

/-! ## Sending -/

def Idle (w : World P) : Prop := w.conn.channel.isWriting = false ∧ w.conn.outputBuffer.readable = []

instance (w : World P) : Decidable w.Idle := inferInstanceAs (Decidable (_ ∧ _))

/-- The bytes `sendInLoop` leaves for later: all of them behind queued output,
else those the kernel did not take, unless the connection is broken. -/
def leftover (w : World P) (data : Bytes) (r : WriteResult) : Bytes :=
  if w.Idle then
    match r with
    | .room n => data.drop n
    | .error e => if e.isFault then [] else data
  else data

def sendEffects (w : World P) (data : Bytes) (r : WriteResult) : List Effect :=
  .sendInLoop data :: if w.Idle then [.write data r] else []

/-- What `sendInLoop` queues. -/
def sendNotices (w : World P) (data : Bytes) (r : WriteResult) : List Functor :=
  (if w.Idle ∧ r.complete data = true ∧ w.conn.writeCompleteCallback = true then [.writeComplete] else []) ++
  let len := w.conn.outputBuffer.readable.length
  if w.leftover data r ≠ [] ∧ w.conn.highWaterMark ≤ len + (w.leftover data r).length ∧ len < w.conn.highWaterMark ∧
    w.conn.highWaterMarkCallback = true then [.highWaterMark (len + (w.leftover data r).length)] else []

theorem wrote_remaining_zero (data : Bytes) (n : Nat) :
    ((WriteResult.room n).wrote data.length).remaining = 0 ↔ (WriteResult.room n).complete data = true := by
  simp only [WriteResult.wrote, WriteResult.complete, decide_eq_true_eq]
  omega

theorem length_leftover_le (w : World P) (data : Bytes) (r : WriteResult) :
    (w.leftover data r).length ≤ data.length := by
  unfold leftover
  split
  · cases r with
    | room k => simp
    | error e => dsimp only; split <;> simp
  · exact Nat.le_refl _

theorem wrote_rest (data : Bytes) (r : WriteResult) :
    (data.drop (r.wrote data.length).nwrote).take (r.wrote data.length).remaining =
      match r with
      | .room n => data.drop n
      | .error _ => data := by
  cases r with
  | error e => simp [WriteResult.wrote]
  | room n =>
    simp only [WriteResult.wrote]
    rw [List.take_of_length_le (by simp)]
    rcases Nat.le_total n data.length with h | h
    · rw [Nat.min_eq_left h]
    · rw [Nat.min_eq_right h, List.drop_of_length_le (Nat.le_refl _), List.drop_of_length_le h]

theorem wrote_remaining (data : Bytes) (r : WriteResult) :
    ((data.drop (r.wrote data.length).nwrote).take (r.wrote data.length).remaining).length =
      (r.wrote data.length).remaining := by
  cases r <;> simp [WriteResult.wrote]

theorem writeDirect_inv (w : World P) (data : Bytes) (r : WriteResult) :
    (w.writeDirect data r).2 = r.wrote data.length ∧ Frame w (w.writeDirect data r).1 ∧
      Notes w (if r.complete data = true ∧ w.conn.writeCompleteCallback = true then [.writeComplete] else [])
        (w.writeDirect data r).1 ∧
      (w.writeDirect data r).1.effects = w.effects ++ [.write data r] ∧
      (w.writeDirect data r).1.conn = w.conn ∧ (w.writeDirect data r).1.poller = w.poller := by
  have hf := Frame.log w (.write data r)
  have hn : Notes w [] (w.log (.write data r)) := .of_conn (List.append_nil _).symm rfl
  unfold writeDirect
  cases r with
  | error e => exact ⟨rfl, hf, hn, rfl, rfl, rfl⟩
  | room n =>
    simp only [wrote_remaining_zero, show (w.log (.write data (.room n))).conn = w.conn from rfl]
    by_cases hc : (WriteResult.room n).complete data = true ∧ w.conn.writeCompleteCallback = true
    · rw [if_pos hc, if_pos hc]
      exact ⟨rfl, ⟨rfl, rfl, rfl, rfl, rfl, rfl, rfl⟩, .of_conn rfl rfl, rfl, rfl, rfl⟩
    · rw [if_neg hc, if_neg hc]
      exact ⟨rfl, hf, hn, rfl, rfl, rfl⟩

theorem tryWrite_inv {w u : World P} {a : Wrote} (hb : w.conn.outputBuffer.WF) {data : Bytes} {r : WriteResult}
    (h : (w.log (.sendInLoop data)).tryWrite data r = (u, a)) :
    Frame w u ∧
      Notes w (if w.Idle ∧ r.complete data = true ∧ w.conn.writeCompleteCallback = true then [.writeComplete] else [])
        u ∧
      u.effects = w.effects ++ w.sendEffects data r ∧ u.conn = w.conn ∧ u.poller = w.poller ∧
      ((data.drop a.nwrote).take a.remaining).length = a.remaining ∧
      (a.faultError = false ∧ 0 < a.remaining → (data.drop a.nwrote).take a.remaining = w.leftover data r) ∧
      (¬ (a.faultError = false ∧ 0 < a.remaining) → w.leftover data r = []) := by
  have hidle : ((w.log (.sendInLoop data)).conn.channel.isWriting = false ∧
      (w.log (.sendInLoop data)).conn.outputBuffer.readableBytes = 0) ↔ w.Idle := by
    change w.conn.channel.isWriting = false ∧ w.conn.outputBuffer.readableBytes = 0 ↔ _
    rw [hb.readableBytes_eq_zero]; rfl
  unfold tryWrite at h
  by_cases hi : w.Idle
  · rw [if_pos (hidle.mpr hi)] at h
    obtain ⟨h₁, h₂, h₃, h₄, h₅, h₆⟩ := writeDirect_inv (w.log (.sendInLoop data)) data r
    rw [h] at h₁ h₂ h₃ h₄ h₅ h₆
    dsimp only at h₁ h₂ h₃ h₄ h₅ h₆
    subst h₁
    refine ⟨(Frame.log w _).trans h₂, ?_, ?_, h₅, h₆, wrote_remaining data r, ?_, ?_⟩
    · simp only [hi, true_and]
      exact .of_conn h₃.pending h₅
    · rw [h₄]; simp [log, sendEffects, hi]
    · rintro ⟨hf, -⟩
      rw [wrote_rest]
      cases r with
      | room n => simp [leftover, hi]
      | error e =>
        have hf : e.isFault = false := hf
        simp [leftover, hi, hf]
    · intro hn
      cases r with
      | room n =>
        have : data.length ≤ n := by simp [WriteResult.wrote] at hn; omega
        simp [leftover, hi, this]
      | error e =>
        simp only [WriteResult.wrote, not_and, Nat.not_lt, Nat.le_zero, List.length_eq_zero_iff] at hn
        cases he : e.isFault with
        | true => simp [leftover, hi, he]
        | false => simp [leftover, hi, he, hn he]
  · rw [if_neg (fun hc => hi (hidle.mp hc))] at h
    cases h
    refine ⟨⟨rfl, rfl, rfl, rfl, rfl, rfl, rfl⟩, ?_, ?_, rfl, rfl, by simp, ?_, ?_⟩
    · simp only [hi, false_and, if_false]
      exact .of_conn (List.append_nil _).symm rfl
    · simp [log, sendEffects, hi]
    · intro _; simp [leftover, hi]
    · intro hn
      simp only [true_and, Nat.not_lt, Nat.le_zero, List.length_eq_zero_iff] at hn
      simp [leftover, hi, hn]

end

section
variable {P : Type} [Poller P]

/-- What `sendInLoop` does: it logs its effects, appends what is left over and,
when something is, makes sure that the channel is writing. -/
structure Sends (w : World P) (data : Bytes) (r : WriteResult) (v : World P) : Prop where
  frame : Frame w v
  notes : Notes w (w.sendNotices data r) v
  effects : v.effects = w.effects ++ w.sendEffects data r
  wf : v.conn.outputBuffer.WF
  readable : v.conn.outputBuffer.readable = w.conn.outputBuffer.readable ++ w.leftover data r
  untouched : w.leftover data r = [] → v.poller = w.poller ∧ v.conn = w.conn
  quiet : w.conn.channel.isWriting = true → v.poller = w.poller ∧ v.conn.channel = w.conn.channel
  armed : w.leftover data r ≠ [] → w.conn.channel.isWriting = false →
    Channel.enableWriting w.poller w.conn.channel = .ok (v.poller, v.conn.channel)

theorem appendOutput_inv {w v : World P} (hb : w.conn.outputBuffer.WF) {rest : Bytes}
    (h : w.appendOutput rest = .ok v) :
    Frame w v ∧
      Notes w (if w.conn.highWaterMark ≤ w.conn.outputBuffer.readable.length + rest.length ∧
        w.conn.outputBuffer.readable.length < w.conn.highWaterMark ∧ w.conn.highWaterMarkCallback = true then
          [.highWaterMark (w.conn.outputBuffer.readable.length + rest.length)] else []) v ∧
      v.effects = w.effects ∧ v.conn.outputBuffer.WF ∧
      v.conn.outputBuffer.readable = w.conn.outputBuffer.readable ++ rest ∧
      (w.conn.channel.isWriting = true → v.poller = w.poller ∧ v.conn.channel = w.conn.channel) ∧
      (w.conn.channel.isWriting = false →
        Channel.enableWriting w.poller w.conn.channel = .ok (v.poller, v.conn.channel)) := by
  unfold appendOutput at h
  rw [← hb.length_readable] at h
  dsimp only at h
  -- the high water mark only queues a notification
  generalize hu : (if w.conn.highWaterMark ≤ w.conn.outputBuffer.readable.length + rest.length ∧
      w.conn.outputBuffer.readable.length < w.conn.highWaterMark ∧ w.conn.highWaterMarkCallback = true then
      w.queueInLoop (.highWaterMark (w.conn.outputBuffer.readable.length + rest.length)) else w) = u at h
  generalize hfs : (if w.conn.highWaterMark ≤ w.conn.outputBuffer.readable.length + rest.length ∧
      w.conn.outputBuffer.readable.length < w.conn.highWaterMark ∧ w.conn.highWaterMarkCallback = true then
      [Functor.highWaterMark (w.conn.outputBuffer.readable.length + rest.length)] else []) = fs
  have hu' : Frame w u ∧ Notes w fs u ∧ u.effects = w.effects ∧ u.conn = w.conn ∧ u.poller = w.poller := by
    rw [← hu, ← hfs]
    split
    · exact ⟨⟨rfl, rfl, rfl, rfl, rfl, rfl, rfl⟩, .of_conn rfl rfl, rfl, rfl, rfl⟩
    · exact ⟨Frame.refl w, Notes.refl w, rfl, rfl, rfl⟩
  obtain ⟨hfr, hno, hef, hco, hpo⟩ := hu'
  rw [hco] at h
  obtain ⟨b, hb', h⟩ := bind_ok.mp h
  obtain ⟨hwf, hread⟩ := Buffer.append_inv hb hb'
  split at h
  · rename_i hw
    cases h
    have hw : w.conn.channel.isWriting = true := hw
    refine ⟨hfr.trans ⟨?_, ?_, rfl, rfl, rfl, rfl, rfl⟩, ⟨hno.pending, rfl, rfl, rfl, rfl⟩, hef, hwf, hread,
      fun _ => ⟨hpo, rfl⟩, ?_⟩
    · exact congrArg (·.state) hco.symm
    · exact congrArg (·.reading) hco.symm
    · intro hn; rw [hw] at hn; cases hn
  · rename_i hw
    obtain ⟨p, c, hc, hv⟩ := onChannel_inv h
    subst hv
    have hw : ¬ w.conn.channel.isWriting = true := hw
    refine ⟨hfr.trans ⟨?_, ?_, rfl, rfl, rfl, rfl, rfl⟩, ⟨hno.pending, rfl, rfl, rfl, rfl⟩, hef, hwf, hread, ?_,
      fun _ => ?_⟩
    · exact congrArg (·.state) hco.symm
    · exact congrArg (·.reading) hco.symm
    · intro hn; exact absurd hn hw
    · rw [← hpo]; exact hc

/-- First the kernel gets what it takes, then what is left over is appended. -/
theorem sendInLoop_eq {w : World P} (hb : w.conn.outputBuffer.WF) (data : Bytes) (r : WriteResult) :
    ∃ u, Frame w u ∧
      Notes w (if w.Idle ∧ r.complete data = true ∧ w.conn.writeCompleteCallback = true then [.writeComplete] else [])
        u ∧
      u.effects = w.effects ++ w.sendEffects data r ∧ u.conn = w.conn ∧ u.poller = w.poller ∧
      w.sendInLoop data r = if w.leftover data r = [] then .ok u else u.appendOutput (w.leftover data r) := by
  unfold sendInLoop
  cases ht : (w.log (.sendInLoop data)).tryWrite data r with
  | mk u a =>
    obtain ⟨h₁, h₂, h₃, h₄, h₅, hl, hrest, hnone⟩ := tryWrite_inv hb ht
    refine ⟨u, h₁, h₂, h₃, h₄, h₅, ?_⟩
    have hle : a.remaining ≤ data.length := by
      rw [List.length_take, List.length_drop] at hl
      omega
    dsimp only
    rw [check_of hle, ok_bind]
    by_cases hc : a.faultError = false ∧ 0 < a.remaining
    · have hne : w.leftover data r ≠ [] := by
        rw [← hrest hc, ← List.length_pos_iff, hl]
        exact hc.2
      rw [if_pos hc, if_neg hne, hrest hc]
    · rw [if_neg hc, if_pos (hnone hc)]
      rfl

theorem sendInLoop_inv {w v : World P} (hb : w.conn.outputBuffer.WF) {data : Bytes} {r : WriteResult}
    (h : w.sendInLoop data r = .ok v) : Sends w data r v := by
  obtain ⟨u, h₁, h₂, h₃, h₄, h₅, heq⟩ := sendInLoop_eq hb data r
  rw [heq] at h
  by_cases he : w.leftover data r = []
  · rw [if_pos he] at h
    cases h
    refine ⟨h₁, ?_, h₃, by rw [h₄]; exact hb, by rw [h₄, he, List.append_nil], fun _ => ⟨h₅, h₄⟩,
      fun _ => ⟨h₅, by rw [h₄]⟩, fun hne => absurd he hne⟩
    simp only [sendNotices, he, ne_eq, not_true_eq_false, false_and, if_false, List.append_nil]
    exact h₂
  · rw [if_neg he] at h
    obtain ⟨k₁, k₂, k₃, k₄, k₅, k₆, k₇⟩ := appendOutput_inv (by rw [h₄]; exact hb) h
    rw [h₄, h₅] at k₆ k₇
    rw [h₄] at k₂ k₅
    refine ⟨h₁.trans k₁, h₂.trans ?_, k₃.trans h₃, k₄, k₅, fun hnil => absurd hnil he, k₆, fun _ => k₇⟩
    simp only [he, ne_eq, not_false_eq_true, true_and]
    exact k₂

theorem Sends.notifies {w v : World P} {data : Bytes} {r : WriteResult} (hs : Sends w data r v) : Notifies w v := by
  refine ⟨_, hs.notes.pending, ?_, ?_⟩
  · simp [sendNotices]
  · simp [sendNotices]

theorem Sends.of_empty {w v : World P} {r : WriteResult} (hs : Sends w [] r v) (hi : ¬ w.Idle) :
    v.effects = w.effects ++ [.sendInLoop []] ∧ v.conn = w.conn := by
  have hl : w.leftover [] r = [] := by simp [leftover, hi]
  refine ⟨?_, (hs.untouched hl).2⟩
  rw [hs.effects]; simp [sendEffects, hi]

/-- In the loop thread both branches of `send(const StringPiece &)` are `sendInLoop`. -/
theorem sendPiece_eq (w : World P) (m : Bytes) (r : WriteResult) : w.sendPiece m r = w.sendInLoop m r := ite_self _

theorem sendBuffer_inv {w v : World P} {m : Bytes} {r : WriteResult} (h : w.sendBuffer m r = .ok v) :
    (w.conn.state = .kConnected ∧ w.sendInLoop m r = .ok v) ∨ (w.conn.state ≠ .kConnected ∧ v = w) := by
  unfold sendBuffer at h
  split at h
  · exact .inl ⟨‹_›, h⟩
  · cases h; exact .inr ⟨‹_›, rfl⟩

/-! ## Flushing -/

def flushed (w : World P) (r : WriteResult) : Bytes :=
  if w.conn.channel.isWriting then r.taken w.conn.outputBuffer.readable else []

def Drains (w : World P) (r : WriteResult) : Prop :=
  w.conn.channel.isWriting = true ∧ w.conn.outputBuffer.readable ≠ [] ∧
    r.taken w.conn.outputBuffer.readable = w.conn.outputBuffer.readable

instance (w : World P) (r : WriteResult) : Decidable (w.Drains r) := inferInstanceAs (Decidable (_ ∧ _ ∧ _))

def flushEffects (w : World P) (r : WriteResult) : List Effect :=
  if w.conn.channel.isWriting then
    .write w.conn.outputBuffer.readable r ::
      if w.Drains r then if w.conn.state = .kDisconnecting then [.shutdownWrite []] else [] else []
  else []

/-- What `handleWrite` queues. -/
def flushNotices (w : World P) (r : WriteResult) : List Functor :=
  if w.Drains r ∧ w.conn.writeCompleteCallback = true then [.writeComplete] else []

theorem taken_eq (data : Bytes) (r : WriteResult) : r.taken data = data.take (r.wrote data.length).nwrote := by
  cases r with
  | error e => rfl
  | room n =>
    simp only [WriteResult.taken, WriteResult.wrote]
    rcases Nat.le_total n data.length with h | h
    · rw [Nat.min_eq_left h]
    · rw [Nat.min_eq_right h, List.take_of_length_le h, List.take_length]

theorem wrote_le (len : Nat) (r : WriteResult) : (r.wrote len).nwrote ≤ len := by
  cases r with
  | error e => exact Nat.zero_le _
  | room n => exact Nat.min_le_right ..

/-- What `handleWrite` does: the kernel takes a part from the front of
`outputBuffer_`, and when that was all of it the channel stops writing. -/
structure Flushes (w : World P) (r : WriteResult) (v : World P) : Prop where
  frame : Frame w v
  notes : Notes w (w.flushNotices r) v
  effects : v.effects = w.effects ++ w.flushEffects r
  wf : v.conn.outputBuffer.WF
  readable : w.conn.outputBuffer.readable = w.flushed r ++ v.conn.outputBuffer.readable
  untouched : w.conn.channel.isWriting = false → v = w
  quiet : ¬ w.Drains r → v.poller = w.poller ∧ v.conn.channel = w.conn.channel
  disarmed : w.Drains r → Channel.disableWriting w.poller w.conn.channel = .ok (v.poller, v.conn.channel)

theorem Flushes.notifies {w v : World P} {r : WriteResult} (hf : Flushes w r v) : Notifies w v := by
  refine ⟨_, hf.notes.pending, ?_, ?_⟩
  · simp [flushNotices]
  · simp [flushNotices]

theorem Flushes.of_not_writing {w : World P} (hb : w.conn.outputBuffer.WF) (r : WriteResult)
    (h : ¬ w.conn.channel.isWriting = true) : Flushes w r w where
  frame := Frame.refl w
  notes := by
    rw [flushNotices, if_neg fun hc => h hc.1.1]
    exact Notes.refl w
  effects := by simp only [flushEffects, if_neg h, List.append_nil]
  wf := hb
  readable := by simp only [flushed, if_neg h, List.nil_append]
  untouched _ := rfl
  quiet _ := ⟨rfl, rfl⟩
  disarmed hd := absurd hd.1 h

theorem outputDrained_inv [LawfulPoller P] {w v : World P} (he : w.conn.outputBuffer.readable = [])
    (h : w.outputDrained = .ok v) :
    Frame w v ∧ Notes w (if w.conn.writeCompleteCallback then [.writeComplete] else []) v ∧
      v.conn.outputBuffer = w.conn.outputBuffer ∧
      v.effects = w.effects ++ (if w.conn.state = .kDisconnecting then [.shutdownWrite []] else []) ∧
      Channel.disableWriting w.poller w.conn.channel = .ok (v.poller, v.conn.channel) := by
  unfold outputDrained at h
  obtain ⟨u, hu, h⟩ := bind_ok.mp h
  obtain ⟨p, c, hc, rfl⟩ := onChannel_inv hu
  have hw : c.isWriting = false := by
    rw [Channel.isWriting_eq, Channel.disableWriting_events hc]; simp [Events.diff, kWriteEvent]
  dsimp only at h
  generalize hx : (if w.conn.writeCompleteCallback then
    ({ w with poller := p, conn := { w.conn with channel := c } } : World P).queueInLoop .writeComplete
    else { w with poller := p, conn := { w.conn with channel := c } }) = x at h
  generalize hfs : (if w.conn.writeCompleteCallback then [Functor.writeComplete] else []) = fs
  have hx' : Frame w x ∧ Notes w fs x ∧ x.effects = w.effects ∧ x.conn = { w.conn with channel := c } ∧
      x.poller = p := by
    rw [← hx, ← hfs]
    split
    · exact ⟨⟨rfl, rfl, rfl, rfl, rfl, rfl, rfl⟩, ⟨rfl, rfl, rfl, rfl, rfl⟩, rfl, rfl, rfl⟩
    · exact ⟨⟨rfl, rfl, rfl, rfl, rfl, rfl, rfl⟩, ⟨(List.append_nil _).symm, rfl, rfl, rfl, rfl⟩, rfl, rfl, rfl⟩
  obtain ⟨hf, hn, hef, hco, hpo⟩ := hx'
  have hst : x.conn.state = w.conn.state := hf.state
  rw [hst] at h
  split at h
  · rename_i hd
    cases h
    have : x.shutdownInLoop = x.log (.shutdownWrite []) := by
      unfold shutdownInLoop
      rw [hco, if_pos hw, he]
    rw [this, if_pos hd]
    exact ⟨hf.trans (Frame.log x _), ⟨hn.pending, hn.2, hn.3, hn.4, hn.5⟩, by simp [log, hco], by simp [log, hef],
      by simp [log, hco, hpo, hc]⟩
  · rename_i hd
    cases h
    rw [if_neg hd]
    exact ⟨hf, hn, by rw [hco], by simp [hef], by rw [hco, hpo]; exact hc⟩

theorem Flushes.of_drained [LawfulPoller P] {w v : World P} {r : WriteResult} {b : Buffer} (hd : w.Drains r)
    (hwf : b.WF) (hnil : b.readable = [])
    (h : outputDrained { w.log (.write w.conn.outputBuffer.readable r) with
      conn := { w.conn with outputBuffer := b } } = .ok v) : Flushes w r v := by
  obtain ⟨k₁, k₂, k₃, k₄, k₅⟩ := outputDrained_inv hnil h
  refine ⟨⟨k₁.state, k₁.reading, k₁.phase, k₁.todo, k₁.sameLoop, k₁.removals, k₁.owned⟩, ?_, ?_, ?_, ?_, ?_,
    fun hn => absurd hd hn, fun _ => k₅⟩
  · simp only [flushNotices, hd, true_and]
    exact ⟨k₂.pending, k₂.inputBuffer, k₂.highWaterMark, k₂.writeCompleteCallback, k₂.highWaterMarkCallback⟩
  · rw [k₄]
    simp only [flushEffects, if_pos hd.1, if_pos hd, log, List.append_assoc, List.singleton_append]
  · rw [k₃]; exact hwf
  · simp only [flushed, if_pos hd.1, hd.2.2, k₃, hnil, List.append_nil]
  · intro hn
    rw [hd.1] at hn; cases hn

theorem Flushes.of_rest {w : World P} {r : WriteResult} {b : Buffer} (hw : w.conn.channel.isWriting = true)
    (hwf : b.WF) (hb : w.conn.outputBuffer.readable = r.taken w.conn.outputBuffer.readable ++ b.readable)
    (hd : ¬ w.Drains r) :
    Flushes w r { w.log (.write w.conn.outputBuffer.readable r) with conn := { w.conn with outputBuffer := b } } where
  frame := ⟨rfl, rfl, rfl, rfl, rfl, rfl, rfl⟩
  notes := by
    rw [flushNotices, if_neg fun hc => hd hc.1]
    exact ⟨(List.append_nil _).symm, rfl, rfl, rfl, rfl⟩
  effects := by simp [log, flushEffects, hw, hd]
  wf := hwf
  readable := by simp only [flushed, if_pos hw]; exact hb
  untouched hn := by rw [hw] at hn; cases hn
  quiet _ := ⟨rfl, rfl⟩
  disarmed hd' := absurd hd' hd

theorem handleWrite_inv [LawfulPoller P] {w v : World P} (hb : w.conn.outputBuffer.WF) {r : WriteResult}
    (h : w.handleWrite r = .ok v) : Flushes w r v := by
  unfold handleWrite at h
  split at h
  · rename_i hw
    dsimp only at h
    have htake := taken_eq w.conn.outputBuffer.readable r
    split at h
    · rename_i hpos
      obtain ⟨b, hbr, h⟩ := bind_ok.mp h
      have hle : (r.wrote w.conn.outputBuffer.readable.length).nwrote ≤ w.conn.outputBuffer.readableBytes := by
        rw [← hb.length_readable]; exact wrote_le ..
      obtain ⟨b', hb', hwf, hrd, -⟩ := Buffer.retrieve_spec hb hle
      change w.conn.outputBuffer.retrieve _ = _ at hbr
      rw [hb'] at hbr; cases hbr
      have hsplit : w.conn.outputBuffer.readable = r.taken w.conn.outputBuffer.readable ++ b.readable := by
        rw [htake, hrd, List.take_append_drop]
      split at h
      · rename_i hz
        have hnil := hwf.readableBytes_eq_zero.mp hz
        rw [hnil, List.append_nil] at hsplit
        refine .of_drained ⟨hw, fun he => ?_, hsplit.symm⟩ hwf hnil h
        -- the kernel took at least one byte
        have := wrote_le 0 r
        rw [he, List.length_nil] at hpos
        omega
      · rename_i hz
        cases h
        refine .of_rest hw hwf hsplit ?_
        rintro ⟨-, -, ht⟩
        rw [ht, List.self_eq_append_right] at hsplit
        exact hz (hwf.readableBytes_eq_zero.mpr hsplit)
    · rename_i hpos
      cases h
      have hz : r.taken w.conn.outputBuffer.readable = [] := by
        rw [htake, Nat.eq_zero_of_not_pos hpos, List.take_zero]
      refine .of_rest hw hb (by rw [hz, List.nil_append]) ?_
      rintro ⟨-, hne, ht⟩
      exact hne (ht.symm.trans hz)
  · rename_i hw
    cases h
    exact Flushes.of_not_writing hb r hw

/-! ## Reading and closing -/

theorem newConnection_inv {p : P} {addr : Nat} {sockfd : Int} {phase : Phase} {sameLoop : Bool} {w : World P}
    (h : newConnection p addr sockfd phase sameLoop = .ok w) :
    ∃ q c, Channel.enableReading p { addr, fd := sockfd } = .ok (q, c) ∧
      w = {
        conn := {
          state := .kConnected, channel := c
          inputBuffer := Buffer.fresh Buffer.kInitialSize, outputBuffer := Buffer.fresh Buffer.kInitialSize }
        poller := q, phase, sameLoop, effects := [.connectionCallback true] } := by
  have hc : Buffer.ctor Buffer.kInitialSize = .ok (Buffer.fresh Buffer.kInitialSize) := Buffer.ctor_spec (by decide)
  unfold newConnection TcpConnection.ctor at h
  simp only [hc, ok_bind, pure_eq_ok] at h
  obtain ⟨⟨⟩, -, h⟩ := bind_ok.mp h
  obtain ⟨u, hu, h⟩ := bind_ok.mp h
  obtain ⟨q, c, hq, rfl⟩ := onChannel_inv hu
  cases h
  exact ⟨q, c, hq, rfl⟩

theorem startReadInLoop_inv {w v : World P} (h : w.startReadInLoop = .ok v) :
    v = w ∨ ∃ p c, Channel.enableReading w.poller w.conn.channel = .ok (p, c) ∧
      v = { w with poller := p, conn := { w.conn with channel := c, reading := true } } := by
  unfold startReadInLoop at h
  split at h
  · obtain ⟨u, hu, h⟩ := bind_ok.mp h
    obtain ⟨p, c, hc, rfl⟩ := onChannel_inv hu
    cases h
    exact .inr ⟨p, c, hc, rfl⟩
  · cases h; exact .inl rfl

theorem stopReadInLoop_inv {w v : World P} (h : w.stopReadInLoop = .ok v) :
    v = w ∨ (w.conn.reading = true ∨ w.conn.channel.isReading = true) ∧
      ∃ p c, Channel.disableReading w.poller w.conn.channel = .ok (p, c) ∧
        v = { w with poller := p, conn := { w.conn with channel := c, reading := false } } := by
  unfold stopReadInLoop at h
  split at h
  · rename_i hr
    obtain ⟨u, hu, h⟩ := bind_ok.mp h
    obtain ⟨p, c, hc, rfl⟩ := onChannel_inv hu
    cases h
    exact .inr ⟨hr, p, c, hc, rfl⟩
  · cases h; exact .inl rfl

theorem handleClose_inv {w v : World P} (h : w.handleClose = .ok v) :
    (w.conn.state = .kConnected ∨ w.conn.state = .kDisconnecting) ∧
      ∃ p c, Channel.disableAll w.poller w.conn.channel = .ok (p, c) ∧
        v = { w with
          poller := p, conn := { w.conn with state := .kDisconnected, channel := c }
          effects := w.effects ++ [.connectionCallback false], todo := .closeCallback :: w.todo } := by
  unfold handleClose at h
  obtain ⟨⟨⟩, hs, h⟩ := bind_ok.mp h
  obtain ⟨u, hu, h⟩ := bind_ok.mp h
  obtain ⟨p, c, hc, rfl⟩ := onChannel_inv hu
  cases h
  exact ⟨check_ok.mp hs, p, c, hc, rfl⟩

theorem connectDestroyed_inv {w v : World P} (h : w.connectDestroyed = .ok v) :
    (w.conn.state = .kConnected ∧ ∃ p c, Channel.disableAll w.poller w.conn.channel = .ok (p, c) ∧
        v = { w with
          poller := p, conn := { w.conn with state := .kDisconnected, channel := c }
          effects := w.effects ++ [.connectDestroyed, .connectionCallback false], todo := .channelRemove :: w.todo }) ∨
      (w.conn.state ≠ .kConnected ∧ ∃ p c, Channel.remove w.poller w.conn.channel = .ok (p, c) ∧
        v = { w with
          poller := p, conn := { w.conn with channel := c }, effects := w.effects ++ [.connectDestroyed] }) := by
  unfold connectDestroyed at h
  dsimp only at h
  split at h
  · rename_i hs
    obtain ⟨u, hu, h⟩ := bind_ok.mp h
    obtain ⟨p, c, hc, rfl⟩ := onChannel_inv hu
    cases h
    exact .inl ⟨hs, p, c, hc, by simp [log, setState]⟩
  · rename_i hs
    obtain ⟨p, c, hc, rfl⟩ := onChannel_inv h
    exact .inr ⟨hs, p, c, hc, rfl⟩

/-- A read leaves the connection open, or meets the end of the stream and closes it. -/
theorem handleRead_inv {w v : World P} {r : ReadResult} (h : w.handleRead r = .ok v) :
    ∃ b, (v = { w with conn := { w.conn with inputBuffer := b } } ∨
        v = { w with conn := { w.conn with inputBuffer := b }, effects := w.effects ++ [.messageCallback] }) ∨
      (r = .data [] ∧ { w with conn := { w.conn with inputBuffer := b } }.handleClose = .ok v) := by
  unfold handleRead at h
  obtain ⟨⟨n, b⟩, hr, h⟩ := bind_ok.mp h
  refine ⟨b, ?_⟩
  dsimp only at h
  split at h
  · cases h; exact .inl (.inr rfl)
  · split at h
    · rename_i hz
      refine .inr ⟨?_, h⟩
      exact Buffer.readFd_zero (by rw [← hz]; exact hr)
    · cases h; exact .inl (.inl rfl)

end

section
variable {P : Type}

theorem shutdown_inv {w : World P} (hs : w.conn.state = .kConnected) :
    ∃ es, w.shutdown = { w.setState .kDisconnecting with effects := w.effects ++ es } ∧
      (es = [.shutdown] ∨
        w.conn.channel.isWriting = false ∧ es = [.shutdown, .shutdownWrite w.conn.outputBuffer.readable]) := by
  rw [shutdown, if_pos hs]
  unfold shutdownInLoop
  split
  · exact ⟨[.shutdown, .shutdownWrite w.conn.outputBuffer.readable], by simp [log, setState], .inr ⟨‹_›, rfl⟩⟩
  · exact ⟨[.shutdown], rfl, .inl rfl⟩

theorem removeConnectionInLoop_inv {w v : World P} (h : w.removeConnectionInLoop = .ok v) :
    v = { w with owned := false, pendingFunctors := w.pendingFunctors ++ [.connectDestroyed] } := by
  unfold removeConnectionInLoop at h
  obtain ⟨⟨⟩, -, h⟩ := bind_ok.mp h
  cases h; rfl

theorem closeCallback_inv {w v : World P} (h : w.closeCallback = .ok v) :
    v = { w with
        effects := w.effects ++ [.closeCallback], owned := false
        pendingFunctors := w.pendingFunctors ++ [.connectDestroyed] } ∨
      v = { w with effects := w.effects ++ [.closeCallback], removals := w.removals + 1 } := by
  unfold closeCallback at h
  dsimp only at h
  split at h
  · exact .inl (removeConnectionInLoop_inv h)
  · cases h; exact .inr rfl

end

end World

end Zhengqi
