import Zhengqi.Lib.Valve
import Zhengqi.WatchSound

/-!
# A tunnel with both connections up

Each direction of a tunnel is a valve: the source is the connection it is read from, the tank the `outputBuffer_`
of the other one, and the two notices are the functors that `onHighWaterMark` and `onWriteComplete` run in. While
both connections are up every task keeps the stages of the two valves.
-/

namespace Zhengqi

open Run Valve

/-! ## What the callbacks of the tunnel do -/

namespace Tunnel

section
variable {P : Type} {t u : Tunnel P} {s : ServerClient}

@[simp] theorem conn_put (t : Tunnel P) (s : ServerClient) (w : World P) : (t.put s w).conn s = w.conn := by
  simp [conn, put]

@[simp] theorem conn_put_other (t : Tunnel P) (s : ServerClient) (w : World P) :
    (t.put s w).conn s.other = t.conn s.other := by simp [conn, put]

@[simp] theorem conn_put_of_other (t : Tunnel P) (s : ServerClient) (w : World P) :
    (t.put s.other w).conn s = t.conn s := by simp [conn, put]

@[simp] theorem conn_setConn (t : Tunnel P) (s : ServerClient) (c : TcpConnection) : (t.setConn s c).conn s = c := by
  simp [conn, setConn]

@[simp] theorem conn_setConn_other (t : Tunnel P) (s : ServerClient) (c : TcpConnection) :
    (t.setConn s c).conn s.other = t.conn s.other := by simp [conn, setConn]

/-- What a task of a connection leaves for its callbacks. -/
def after (t : Tunnel P) (s : ServerClient) (w : World P) (delivered : Bytes) : Tunnel P :=
  (t.put s w).setPeer s { (t.put s w).peer s with received := ((t.put s w).peer s).received ++ delivered }

@[simp] theorem conn_after (t : Tunnel P) (s : ServerClient) (w : World P) (d : Bytes) :
    (t.after s w d).conn s = w.conn := by
  simp [conn, after, put]

@[simp] theorem conn_after_other (t : Tunnel P) (s : ServerClient) (w : World P) (d : Bytes) :
    (t.after s w d).conn s.other = t.conn s.other := by simp [conn, after, put]

section
variable [Poller P]

theorem runTask_eq {wr : WriteResult} {rr : ReadResult} {locked : Bool} {task : Task} {w : World P} {es : List Effect}
    (hw : body s wr rr task (t.world s) = .ok w) (he : w.effects = (t.peer s).effects ++ es) :
    t.runTask s wr rr locked task = es.foldlM (callback s wr locked)
      (t.after s w (if task = .handleRead then (t.conn s).inputBuffer.delivered rr else [])) := by
  have hdrop : (((t.after s w (if task = .handleRead then (t.conn s).inputBuffer.delivered rr else [])).peer
    s).effects.drop
      (t.peer s).effects.length) = es := by
    simp [after, put, he]
  rw [runTask, on, hw, ok_bind, pure_eq_ok, ok_bind]
  change List.foldlM _ _ (List.drop _ ((t.after s w _).peer s).effects) = _
  rw [hdrop]
  rfl

/-- A task that makes one callback. -/
theorem runTask_callback {wr : WriteResult} {rr : ReadResult} {locked : Bool} {task : Task} {w : World P} {e : Effect}
    (hw : body s wr rr task (t.world s) = .ok w) (he : w.effects = (t.peer s).effects ++ [e]) :
    t.runTask s wr rr locked task = callback s wr locked
      (t.after s w (if task = .handleRead then (t.conn s).inputBuffer.delivered rr else [])) e := by
  rw [runTask_eq hw he]
  exact bind_pure _

/-- A task that makes no callback. -/
theorem runTask_silent {wr : WriteResult} {rr : ReadResult} {locked : Bool} {task : Task}
    {w : World P} {es : List Effect}
    (hw : body s wr rr task (t.world s) = .ok w) (he : w.effects = (t.peer s).effects ++ es)
    (hes : ∀ e ∈ es, ∀ t : Tunnel P, callback s wr locked t e = pure t) : t.runTask s wr rr locked task =
      .ok (t.after s w (if task = .handleRead then (t.conn s).inputBuffer.delivered rr else [])) := by
  rw [runTask_eq hw he]
  generalize t.after s w _ = u
  clear he
  induction es with
  | nil => rfl
  | cons e es ih =>
    rw [List.foldlM_cons, hes e List.mem_cons_self, pure_bind]
    exact ih fun e he => hes e (List.mem_cons_of_mem _ he)

theorem callback_message (hc : t.context = true) (r : WriteResult) (locked : Bool) :
    callback s r locked t .messageCallback = t.send s.other r := by
  cases s with
  | kServer => exact if_pos hc
  | kClient => rfl

omit [Poller P] in
theorem lock_of_registered (hr : t.registered = true) (locked : Bool) : t.lock locked = true := by
  simp [lock, hr]

theorem callback_highWaterMark (hr : t.registered = true) (r : WriteResult) (locked : Bool) (len : Nat) :
    callback s r locked t (.highWaterMarkCallback len) = t.onHighWaterMark s := if_pos (lock_of_registered hr locked)

theorem callback_writeComplete (hr : t.registered = true) (r : WriteResult) (locked : Bool) :
    callback s r locked t .writeCompleteCallback = t.onWriteComplete s := if_pos (lock_of_registered hr locked)

theorem onHighWaterMark_eq (hc : t.clientConn = true) (s : ServerClient) : t.onHighWaterMark s =
    if 0 < (t.conn s).outputBuffer.readableBytes then
      t.stopRead s.other >>= fun t => pure (t.setWriteCompleteCallback s true)
    else pure t := by
  cases s with
  | kServer => simp [onHighWaterMark, deref, hc, ServerClient.other]
  | kClient => simp [onHighWaterMark, deref, hc, ServerClient.other]

theorem onWriteComplete_eq (hc : t.clientConn = true) (s : ServerClient) :
    t.onWriteComplete s = t.startRead s.other >>= fun t => pure (t.setWriteCompleteCallback s false) := by
  cases s with
  | kServer => simp [onWriteComplete, deref, hc, ServerClient.other]
  | kClient =>
    simp only [onWriteComplete, startRead, on, ServerClient.other]
    cases (t.world .kServer).runInLoop World.startReadInLoop with
    | error f => rfl
    | ok w => simp [deref, put, setPeer, hc]

end

end

/-! ## The stages of a direction -/

def noticeOf : Functor → Option Notice
  | .highWaterMark _ => some .high
  | .writeComplete => some .drained
  | _ => none

/-- The notices among the functors of a connection. -/
def notices (s : ServerClient) (fs : List (ServerClient × Functor)) : List Notice :=
  fs.filterMap fun x => if x.1 = s then noticeOf x.2 else none

def functors (todo : List (ServerClient × Task)) : List (ServerClient × Functor) :=
  todo.filterMap fun x =>
    match x.2 with
    | .functor f => some (x.1, f)
    | _ => none

@[simp] theorem notices_append (s : ServerClient) (fs gs : List (ServerClient × Functor)) :
    notices s (fs ++ gs) = notices s fs ++ notices s gs := List.filterMap_append

theorem notices_map (s : ServerClient) (fs : List Functor) : notices s (fs.map (s, ·)) = fs.filterMap noticeOf := by
  simp [notices, List.filterMap_map]

theorem notices_map_other (s : ServerClient) (fs : List Functor) : notices s (fs.map (s.other, ·)) = [] := by
  simp [notices, List.filterMap_map]

theorem notices_cons {f : Functor} {x : Notice} (h : noticeOf f = some x) (s : ServerClient)
    (fs : List (ServerClient × Functor)) :
    notices s ((s, f) :: fs) = x :: notices s fs := by simp [notices, h]

theorem notices_cons_other (s : ServerClient) (f : Functor) (fs : List (ServerClient × Functor)) :
    notices s.other ((s, f) :: fs) = notices s.other fs := by
  simp [notices, (ServerClient.other_ne s).symm]

theorem functors_map (fs : List (ServerClient × Functor)) : functors (fs.map fun x => (x.1, .functor x.2)) = fs := by
  simp [functors, List.filterMap_map]

@[simp] theorem functors_cons_functor (s : ServerClient) (f : Functor) (todo : List (ServerClient × Task)) :
    functors ((s, .functor f) :: todo) = (s, f) :: functors todo := rfl

theorem functors_eq_nil {todo : List (ServerClient × Task)} (h : ∀ x ∈ todo, ∀ f, x.2 ≠ .functor f) :
    functors todo = [] := by
  refine List.filterMap_eq_nil_iff.mpr fun x hx => ?_
  have hf := h x hx
  split
  · rename_i f hx
    exact absurd hx (hf f)
  · rfl

theorem functors_cons {x : ServerClient × Task} (h : ∀ f, x.2 ≠ .functor f) (todo : List (ServerClient × Task)) :
    functors (x :: todo) = functors todo := by
  obtain ⟨s, task⟩ := x
  cases task with
  | functor f => exact absurd rfl (h f)
  | _ => rfl

def Quiet (task : Task) : Prop := task = .handleError ∨ task = .handleRead ∨ task = .handleWrite

/-- What an iteration holds while both connections are up: the tasks of the channels, each with at most one
read, then the functors that they queued. -/
structure Shape (phase : Phase) (todo : List (ServerClient × Task)) (pending : List (ServerClient × Functor)) :
    Prop where
  polls : phase = .poll → todo = [] ∧ pending = []
  handles : phase = .handleEvents → ∀ x ∈ todo, Quiet x.2
  runs : phase = .functors → pending = [] ∧ ∀ x ∈ todo, ∃ f, x.2 = .functor f ∧ noticeOf f ≠ none
  notices : ∀ x ∈ pending, noticeOf x.2 ≠ none
  once : ∀ s, todo.count (s, .handleRead) ≤ 1

theorem Shape.pop {phase : Phase} {todo : List (ServerClient × Task)} {pending : List (ServerClient × Functor)}
    {x : ServerClient × Task} (h : Shape phase (x :: todo) pending) : Shape phase todo pending where
  polls hp := absurd (h.polls hp).1 (List.cons_ne_nil _ _)
  handles hp y hy := h.handles hp y (List.mem_cons_of_mem _ hy)
  runs hp := ⟨(h.runs hp).1, fun y hy => (h.runs hp).2 y (List.mem_cons_of_mem _ hy)⟩
  notices := h.notices
  once s := Nat.le_trans (List.count_le_count_cons) (h.once s)

theorem Shape.queue {todo : List (ServerClient × Task)} {pending : List (ServerClient × Functor)}
    (h : Shape .handleEvents todo pending) {fs : List (ServerClient × Functor)} (hfs : ∀ x ∈ fs, noticeOf x.2 ≠ none) :
    Shape .handleEvents todo (pending ++ fs) where
  polls hp := by cases hp
  handles := h.handles
  runs hp := by cases hp
  notices x hx := (List.mem_append.mp hx).elim (h.notices x) (hfs x)
  once := h.once

variable {t u : Tunnel EPollPoller} {n : Nat} {s : ServerClient}

/-- The read of the connection is still to come in this iteration. -/
def reads (t : Tunnel EPollPoller) (s : ServerClient) : Bool := (s, Task.handleRead) ∈ t.todo

/-- The direction that ends in the output of `s`. -/
def Valved (t : Tunnel EPollPoller) (s : ServerClient) : Prop :=
  Valve.Stage kHighWaterMark (t.conn s.other).reading (t.conn s).writeCompleteCallback (t.reads s.other)
    (t.conn s).outputBuffer.readable.length (notices s (functors t.todo ++ t.pendingFunctors))

/-- Both connections are up, on descriptors of their own. -/
structure Linked (n : Nat) (t : Tunnel EPollPoller) : Prop where
  ready : ∀ s, (t.world s).Ready n
  fds : (t.conn .kServer).channel.fd ≠ (t.conn .kClient).channel.fd
  clientConn : t.clientConn = true
  context : t.context = true
  registered : t.registered = true
  removals : (t.peer .kServer).removals = 0

theorem Linked.fd_ne (h : Linked n t) (s : ServerClient) : (t.conn s.other).channel.fd ≠ (t.conn s).channel.fd := by
  cases s with
  | kServer => exact h.fds.symm
  | kClient => exact h.fds

/-- Only inputs, `writeCompleteCallback_` and the tasks change. -/
theorem Linked.congr (h : Linked n t) (hc : ∀ s, World.Alike (t.conn s) (u.conn s)) (hp : u.poller = t.poller)
    (hcc : u.clientConn = t.clientConn) (hx : u.context = t.context) (hg : u.registered = t.registered)
    (hr : (u.peer .kServer).removals = (t.peer .kServer).removals) : Linked n u where
  ready s := (h.ready s).congr (hc s) (by rw [show (u.world s).poller = t.poller from hp]; exact (h.ready s).watched)
  fds := by rw [(hc _).channel, (hc _).channel]; exact h.fds
  clientConn := hcc.trans h.clientConn
  context := hx.trans h.context
  registered := hg.trans h.registered
  removals := hr.trans h.removals

/-- A member function of one connection leaves the other one alone. -/
theorem Linked.put (h : Linked n t) {v : World EPollPoller} (hv : v.Ready n) (ht : World.Tends (t.world s) v)
    (hr : v.removals = (t.peer s).removals) : Linked n (t.put s v) where
  ready := by
    refine (ServerClient.forall_iff s).mpr ⟨?_, ?_⟩
    · exact hv.congr (.of_eq (conn_put t s v)) hv.watched
    · exact (h.ready s.other).congr (.of_eq (conn_put_other t s v)) (ht.others _ (h.fd_ne s) (h.ready s.other).watched)
  fds := by
    have hfd := h.fd_ne s
    have h₁ : ((t.put s v).conn s).channel.fd = (t.conn s).channel.fd := by rw [conn_put]; exact ht.fd
    have h₂ : ((t.put s v).conn s.other).channel.fd = (t.conn s.other).channel.fd := by rw [conn_put_other]
    rw [← h₁, ← h₂] at hfd
    cases s with
    | kServer => exact hfd.symm
    | kClient => exact hfd
  clientConn := h.clientConn
  context := h.context
  registered := h.registered
  removals := by
    rw [← h.removals]
    cases s with
    | kServer => simpa [Tunnel.put] using hr
    | kClient => simp [Tunnel.put, setPeer]

/-- Both connections are up, and no read delivers more than `n` bytes. -/
structure Up (n : Nat) (t : Tunnel EPollPoller) : Prop where
  linked : Linked (kHighWaterMark - 1 + n) t
  emptied : ∀ s, (t.conn s).inputBuffer.Emptied
  valved : ∀ s, t.Valved s
  shape : Shape t.phase t.todo t.pendingFunctors

theorem Valved.congr (h : t.Valved s) (hr : (u.conn s.other).reading = (t.conn s.other).reading)
    (hw : (u.conn s).writeCompleteCallback = (t.conn s).writeCompleteCallback) (hd : u.reads s.other = t.reads s.other)
    (ho : (u.conn s).outputBuffer = (t.conn s).outputBuffer)
    (hn : notices s (functors u.todo ++ u.pendingFunctors) = notices s (functors t.todo ++ t.pendingFunctors)) :
      u.Valved s := by
  unfold Valved
  rw [hr, hw, hd, ho, hn]
  exact h

/-- The read that is taken is the last one of the connection in this iteration. -/
theorem Shape.read_taken {phase : Phase} {todo : List (ServerClient × Task)} {pending : List (ServerClient × Functor)}
    (h : Shape phase ((s, .handleRead) :: todo) pending) : (s, Task.handleRead) ∉ todo := by
  intro hm
  have h₁ := h.once s
  rw [List.count_cons_self] at h₁
  have h₂ := List.count_pos_iff.mpr hm
  omega

theorem reads_of_mem {t u : Tunnel EPollPoller} (h : ∀ x ∈ u.todo, x ∈ t.todo) (s : ServerClient) :
    u.reads s = true → t.reads s = true := by
  simp only [reads, decide_eq_true_eq]
  exact h _

/-- A task of the channel is taken that does nothing to the direction. -/
theorem Valved.popped (h : t.Valved s) {x : ServerClient × Task} {todo : List (ServerClient × Task)}
    (ht : t.todo = x :: todo) (hx : ∀ f, x.2 ≠ .functor f) (hr : (u.conn s.other).reading = (t.conn s.other).reading)
    (hw : (u.conn s).writeCompleteCallback = (t.conn s).writeCompleteCallback)
    (ho : (u.conn s).outputBuffer = (t.conn s).outputBuffer) (htodo : u.todo = todo)
    (hp : notices s u.pendingFunctors = notices s t.pendingFunctors) : u.Valved s := by
  unfold Valved at h ⊢
  rw [ht, functors_cons hx, notices_append, ← hp, ← notices_append] at h
  rw [hr, hw, ho, htodo]
  refine h.mono (reads_of_mem (fun y hy => ?_) _)
  rw [ht]
  exact List.mem_cons_of_mem _ (htodo ▸ hy)

theorem Shape.handling {phase : Phase} {x : ServerClient × Task} {todo : List (ServerClient × Task)}
    {pending : List (ServerClient × Functor)} (h : Shape phase (x :: todo) pending) (hx : ∀ f, x.2 ≠ .functor f) :
    phase = .handleEvents := by
  cases phase with
  | poll => exact absurd (h.polls rfl).1 (List.cons_ne_nil _ _)
  | handleEvents => rfl
  | functors =>
    obtain ⟨f, hf, -⟩ := (h.runs rfl).2 x List.mem_cons_self
    exact absurd hf (hx f)

/-- A task that changes no connection. -/
theorem Up.idle (h : Up n t) {task : Task} {todo : List (ServerClient × Task)} (ht : t.todo = (s, task) :: todo)
    (hf : ∀ f, task ≠ .functor f) {wr : WriteResult} {rr : ReadResult} {locked : Bool}
    (hb : body s wr rr task (t.world s) = .ok (t.world s))
    (hd : (if task = .handleRead then (t.conn s).inputBuffer.delivered rr else []) = []) :
    ∃ u, ({ t with todo } : Tunnel EPollPoller).runTask s wr rr locked task = .ok u ∧ Up n u := by
  refine ⟨_, runTask_silent (t := { t with todo }) hb (List.append_nil _).symm nofun, ?_⟩
  change Up n (after { t with todo } s (t.world s)
    (if task = .handleRead then (t.conn s).inputBuffer.delivered rr else []))
  rw [hd]
  have hconn : ∀ s', (after { t with todo } s (t.world s) []).conn s' = t.conn s' :=
    (ServerClient.forall_iff s).mpr ⟨conn_after .., conn_after_other ..⟩
  have hpend : (after { t with todo } s (t.world s) []).pendingFunctors = t.pendingFunctors := List.append_nil _
  refine ⟨h.linked.congr (fun s' => .of_eq (hconn s')) rfl rfl rfl rfl ?_, fun s' => ?_, fun s' => ?_, ?_⟩
  · cases s <;> simp [after, put, world, setPeer]
  · rw [hconn]
    exact h.emptied s'
  · exact (h.valved s').popped ht hf (by rw [hconn]) (by rw [hconn]) (by rw [hconn]) rfl (by rw [hpend])
  · have hshape := h.shape
    rw [ht] at hshape
    rw [hpend]
    exact hshape.pop

/-- Below the mark and without a `writeCompleteCallback_` the only notice of a send is that of the mark. -/
theorem notices_send {w : World EPollPoller} (hm : w.conn.highWaterMark = kHighWaterMark)
    (hk : w.conn.highWaterMarkCallback = true)
    (hw : w.conn.writeCompleteCallback = false) (hl : w.conn.outputBuffer.readable.length < kHighWaterMark)
    (data : Bytes) (r : WriteResult) : (w.sendNotices data r).filterMap noticeOf =
      if kHighWaterMark ≤ w.conn.outputBuffer.readable.length + (w.leftover data r).length then [.high] else [] := by
  simp only [World.sendNotices, hm, hk, hw, hl, Bool.false_eq_true, and_false, if_false, and_true, List.nil_append]
  by_cases hle : kHighWaterMark ≤ w.conn.outputBuffer.readable.length + (w.leftover data r).length
  · have hne : w.leftover data r ≠ [] := by
      intro hnil
      rw [hnil, List.length_nil] at hle
      omega
    rw [if_pos ⟨hne, hle⟩, if_pos hle]
    rfl
  · rw [if_neg fun hc => hle hc.2, if_neg hle]
    rfl

theorem sendNotices_noticeOf (w : World EPollPoller) (data : Bytes) (r : WriteResult) :
    ∀ f ∈ w.sendNotices data r, noticeOf f ≠ none := by
  intro f hf
  unfold World.sendNotices at hf
  rcases List.mem_append.mp hf with hf | hf
  · split at hf
    · rw [List.mem_singleton.mp hf]
      simp [noticeOf]
    · cases hf
  · dsimp only at hf
    split at hf
    · rw [List.mem_singleton.mp hf]
      simp [noticeOf]
    · cases hf

/-- Something was read from the connection `s` and is to be sent to the other, whose output is below the mark. -/
structure Loaded (n : Nat) (t : Tunnel EPollPoller) (s : ServerClient) : Prop where
  linked : Linked (kHighWaterMark - 1 + n) t
  input : (t.conn s).inputBuffer.WF
  size : (t.conn s).inputBuffer.readable.length ≤ n
  emptied : (t.conn s.other).inputBuffer.Emptied
  valved : t.Valved s
  flowing : (t.conn s).reading = true ∧ (t.conn s.other).writeCompleteCallback = false ∧
    (t.conn s.other).outputBuffer.readable.length < kHighWaterMark ∧
    notices s.other (functors t.todo ++ t.pendingFunctors) = []
  reads : t.reads s = false
  phase : t.phase = .handleEvents
  shape : Shape .handleEvents t.todo t.pendingFunctors

theorem Loaded.send (h : Loaded n t s) (hn : n ≤ 2 ^ 60) (r : WriteResult) :
    ∃ u, t.send s.other r = .ok u ∧ Up n u := by
  obtain ⟨hopen, harmed, hbelow, hnone⟩ := h.flowing
  have hready : (t.world s.other).Ready (kHighWaterMark - 1) :=
    (h.linked.ready s.other).mono (Nat.le_sub_one_of_lt hbelow)
  have hsize := h.size
  obtain ⟨v, hv⟩ := World.sendInLoop_total (w := t.world s.other) hready.output hready.watched.held
    (t.conn s).inputBuffer.readable (by
      have := hready.size
      unfold kHighWaterMark at this
      unfold Buffer.maxSize
      omega) r
  obtain ⟨hvready, htends, hvreading⟩ := hready.sendInLoop hv
  have hs := World.sendInLoop_inv hready.output hv
  have hnotes := hs.notes
  have hstate : (t.conn s.other).state = .kConnected := hready.state
  refine ⟨(t.put s.other v).setConn s { t.conn s with inputBuffer := (t.conn s).inputBuffer.retrieveAll }, ?_, ?_⟩
  · have hsend : (t.world s.other).sendBuffer (t.conn s).inputBuffer.readable r = .ok v := by
      rw [World.sendBuffer, if_pos hready.state]
      exact hv
    rw [Tunnel.send, ServerClient.other_other, on, hsend]
    rw [ok_bind, pure_eq_ok, ok_bind, if_pos hstate, pure_eq_ok, conn_put_of_other]
  · have hput : Linked (kHighWaterMark - 1 + n) (t.put s.other v) := by
      refine h.linked.put (hvready.mono ?_) htends hs.frame.removals
      have := hvready.size
      omega
    generalize hu : (t.put s.other v).setConn s { t.conn s with inputBuffer := (t.conn s).inputBuffer.retrieveAll } = u
    have hconn : u.conn s = { t.conn s with inputBuffer := (t.conn s).inputBuffer.retrieveAll } := by
      rw [← hu, conn_setConn]
    have hother : u.conn s.other = v.conn := by rw [← hu, conn_setConn_other, conn_put]
    have hphase : u.phase = .handleEvents := by rw [← hu]; exact h.phase
    have htodo : u.todo = t.todo := by
      rw [← hu]
      show v.todo.map _ ++ t.todo = t.todo
      rw [hs.frame.todo]
      rfl
    have hpend : u.pendingFunctors = t.pendingFunctors ++
        ((t.world s.other).sendNotices (t.conn s).inputBuffer.readable r).map (s.other, ·) := by
      rw [← hu]
      show t.pendingFunctors ++ v.pendingFunctors.map _ = _
      rw [hnotes.pending]
      rfl
    have hreads : ∀ s', u.reads s' = t.reads s' := fun s' => by rw [Tunnel.reads, Tunnel.reads, htodo]
    refine ⟨?_, ?_, ?_, ?_⟩
    · rw [← hu]
      refine hput.congr ((ServerClient.forall_iff s).mpr ⟨?_, ?_⟩) rfl rfl rfl rfl ?_
      · rw [conn_setConn, conn_put_of_other]
        exact ⟨rfl, rfl, rfl, rfl, rfl, rfl⟩
      · rw [conn_setConn_other]
        exact .of_eq rfl
      · cases s <;> simp [setConn, setPeer]
    · refine (ServerClient.forall_iff s).mpr ⟨?_, ?_⟩
      · rw [hconn]
        exact h.input.emptied
      · rw [hother, hnotes.inputBuffer]
        exact h.emptied
    · refine (ServerClient.forall_iff s).mpr ⟨?_, ?_⟩
      · refine h.valved.congr ?_ ?_ (hreads _) ?_ ?_
        · rw [hother]
          exact hvreading
        · rw [hconn]
        · rw [hconn]
        · rw [htodo, hpend, ← List.append_assoc, notices_append, notices_map_other, List.append_nil]
      · unfold Valved
        have hlen : (u.conn s.other).outputBuffer.readable.length = (t.conn s.other).outputBuffer.readable.length +
            ((t.world s.other).leftover (t.conn s).inputBuffer.readable r).length := by
          rw [hother, hs.readable, List.length_append]
          rfl
        rw [ServerClient.other_other, hreads, h.reads, htodo, hpend, ← List.append_assoc, notices_append, hnone,
          notices_map, notices_send hready.mark hready.callback harmed hbelow, List.nil_append, hlen, hconn, hother,
          hnotes.writeCompleteCallback]
        exact Valve.Stage.fill (.flowing hopen harmed hbelow)
    · rw [hphase, htodo, hpend]
      refine h.shape.queue fun x hx => ?_
      obtain ⟨f, hf, rfl⟩ := List.mem_map.mp hx
      exact sendNotices_noticeOf _ _ _ f hf

theorem body_eq (s : ServerClient) (wr : WriteResult) (rr : ReadResult) {task : Task} (h : task ≠ .closeCallback)
    (w : World EPollPoller) :
    body s wr rr task w = w.runTask wr rr task := if_neg fun hc => h hc.2

/-- `handleRead` and the `send` to the other connection. -/
theorem Up.relay (h : Up n t) (hn : n ≤ 2 ^ 60) {todo : List (ServerClient × Task)}
    (ht : t.todo = (s, .handleRead) :: todo)
    {arrived : Bytes} (hne : arrived ≠ []) (hle : arrived.length ≤ n) (wr : WriteResult) (locked : Bool) :
    ∃ u, ({ t with todo } : Tunnel EPollPoller).runTask s wr (.data arrived) locked .handleRead = .ok u ∧ Up n u := by
  have hf : ∀ f, (s, Task.handleRead).2 ≠ .functor f := nofun
  have hempty := h.emptied s
  obtain ⟨k, b, hb⟩ := hempty.readFd_total arrived (by unfold Buffer.maxSize; omega)
  obtain ⟨hwf, hread, hpos⟩ := Buffer.readFd_inv hempty.wf hb
  have hw := (body_eq s wr (.data arrived) (show Task.handleRead ≠ _ from nofun) _).trans
    (World.handleRead_data (w := t.world s) hb (hpos.mpr (Buffer.delivered_ne_nil _ hne)))
  rw [runTask_callback (t := { t with todo }) hw rfl, if_pos rfl]
  generalize hu : after { t with todo } s ({ t.world s with
    conn := { (t.world s).conn with inputBuffer := b } }.log .messageCallback) _ = u
  have hconn : u.conn s = { t.conn s with inputBuffer := b } := by rw [← hu]; exact conn_after ..
  have hother : u.conn s.other = t.conn s.other := by rw [← hu]; exact conn_after_other ..
  have htodo : u.todo = todo := by rw [← hu]; rfl
  have hpend : u.pendingFunctors = t.pendingFunctors := by rw [← hu]; exact List.append_nil _
  have hshape := h.shape
  rw [ht] at hshape
  have hphase := hshape.handling hf
  have hbelow := (h.valved s.other).below (by simp [reads, ht])
  rw [ServerClient.other_other, ht, functors_cons hf] at hbelow
  have hcontext : u.context = true := by rw [← hu]; exact h.linked.context
  rw [callback_message hcontext]
  refine Loaded.send ⟨?_, ?_, ?_, ?_, ?_, ?_, ?_, ?_, ?_⟩ hn wr
  · refine h.linked.congr ((ServerClient.forall_iff s).mpr ⟨?_, ?_⟩) ?_ ?_ ?_ ?_ ?_
    · rw [hconn]
      exact ⟨rfl, rfl, rfl, rfl, rfl, rfl⟩
    · rw [hother]
      exact .of_eq rfl
    all_goals rw [← hu]
    all_goals try rfl
    cases s <;> simp [after, put, world, setPeer, World.log]
  · rw [hconn]
    exact hwf
  · rw [hconn, hread, hempty.readable, List.nil_append]
    exact Nat.le_trans (Buffer.delivered_length _ _) hle
  · rw [hother]
    exact h.emptied s.other
  · exact (h.valved s).popped ht hf (by rw [hother]) (by rw [hconn]) (by rw [hconn]) htodo (by rw [hpend])
  · rw [hconn, hother, htodo, hpend]
    exact hbelow
  · rw [reads, htodo, decide_eq_false_iff_not]
    exact hshape.read_taken
  · rw [← hu]
    exact hphase
  · rw [htodo, hpend, ← hphase]
    exact hshape.pop

/-- `handleWrite` drains a direction. -/
theorem notices_flush {w v : World EPollPoller} {r : WriteResult} (h : w.Ready n) (hv : World.Flushes w r v) :
    (w.flushNotices r).filterMap noticeOf =
      if 0 < w.conn.outputBuffer.readable.length ∧ v.conn.outputBuffer.readable.length = 0 ∧
        w.conn.writeCompleteCallback = true
      then [.drained] else [] := by
  have hd : w.Drains r ↔ 0 < w.conn.outputBuffer.readable.length ∧ v.conn.outputBuffer.readable.length = 0 := by
    have hlen := congrArg List.length hv.readable
    rw [List.length_append] at hlen
    rw [List.length_pos_iff, List.length_eq_zero_iff]
    have hw := h.isWriting
    refine ⟨fun hd => ⟨hd.2.1, ?_⟩, fun ⟨hne, hnil⟩ => ⟨by simp [hw, hne], hne, ?_⟩⟩
    · have hall : w.flushed r = w.conn.outputBuffer.readable := by rw [World.flushed, if_pos hd.1, hd.2.2]
      rw [hall] at hlen
      exact List.length_eq_zero_iff.mp (by omega)
    · have hall := hv.readable
      rw [hnil, List.append_nil, World.flushed, if_pos (by simp [hw, hne])] at hall
      exact hall.symm
  simp only [World.flushNotices, hd, and_assoc]
  split <;> rfl

theorem Up.flush (h : Up n t) {todo : List (ServerClient × Task)} (ht : t.todo = (s, .handleWrite) :: todo)
    (wr : WriteResult) (rr : ReadResult) (locked : Bool) :
    ∃ u, ({ t with todo } : Tunnel EPollPoller).runTask s wr rr locked .handleWrite = .ok u ∧ Up n u := by
  have hf : ∀ f, (s, Task.handleWrite).2 ≠ .functor f := nofun
  have hready := h.linked.ready s
  obtain ⟨v, hv⟩ := World.handleWrite_total hready.output hready.watched.held wr
  obtain ⟨hvready, htends, hvreading⟩ := hready.handleWrite hv
  have hs := World.handleWrite_inv hready.output hv
  have hnotes := hs.notes
  have hw := (body_eq s wr rr (show Task.handleWrite ≠ _ from nofun) _).trans hv
  rw [runTask_silent (t := { t with todo }) hw hs.effects]
  · refine ⟨_, rfl, ?_⟩
    have hput : Linked (kHighWaterMark - 1 + n) (({ t with todo } : Tunnel EPollPoller).put s v) :=
      Linked.put (t := { t with todo }) (h.linked.congr (fun _ => .of_eq rfl) rfl rfl rfl rfl rfl) hvready htends
        hs.frame.removals
    generalize hu : after { t with todo } s v _ = u
    have hconn : u.conn s = v.conn := by rw [← hu]; exact conn_after ..
    have hother : u.conn s.other = t.conn s.other := by rw [← hu]; exact conn_after_other ..
    have htodo : u.todo = todo := by
      rw [← hu]
      show v.todo.map _ ++ todo = todo
      rw [hs.frame.todo]
      rfl
    have hpend : u.pendingFunctors = t.pendingFunctors ++ ((t.world s).flushNotices wr).map (s, ·) := by
      rw [← hu]
      show t.pendingFunctors ++ v.pendingFunctors.map _ = _
      rw [hnotes.pending]
      rfl
    have hshape := h.shape
    rw [ht] at hshape
    have hphase := hshape.handling hf
    refine ⟨?_, (ServerClient.forall_iff s).mpr ⟨?_, ?_⟩, (ServerClient.forall_iff s).mpr ⟨?_, ?_⟩, ?_⟩
    · refine hput.congr ((ServerClient.forall_iff s).mpr ⟨?_, ?_⟩) ?_ ?_ ?_ ?_ ?_
      · rw [hconn, conn_put]
        exact .of_eq rfl
      · rw [hother, conn_put_other]
        exact .of_eq rfl
      all_goals rw [← hu]
      all_goals try rfl
      cases s <;> simp [after, setPeer]
    · rw [hconn, hnotes.inputBuffer]
      exact h.emptied s
    · rw [hother]
      exact h.emptied s.other
    · have hstage := h.valved s
      have hle : (u.conn s).outputBuffer.readable.length ≤ (t.conn s).outputBuffer.readable.length := by
        have hlen := congrArg List.length hs.readable
        rw [List.length_append] at hlen
        rw [hconn]
        exact hlen ▸ Nat.le_add_left ..
      unfold Valved at hstage ⊢
      rw [ht, functors_cons hf] at hstage
      have hdrain := hstage.drain hle
      rw [htodo, hpend, ← List.append_assoc, notices_append, notices_map, notices_flush hready hs, hother, hconn,
        hnotes.writeCompleteCallback]
      rw [hconn] at hdrain
      refine hdrain.mono (reads_of_mem (fun y hy => ?_) _)
      rw [ht]
      exact List.mem_cons_of_mem _ (htodo ▸ hy)
    · refine (h.valved s.other).popped ht hf ?_ (by rw [hother]) (by rw [hother]) htodo ?_
      · rw [ServerClient.other_other, hconn]
        exact hvreading
      · rw [hpend, notices_append, ← ServerClient.other_other s, ServerClient.other_other s.other, notices_map_other,
          List.append_nil]
    · have hq : u.phase = .handleEvents := by rw [← hu]; exact hphase
      rw [hphase] at hshape
      rw [hq, htodo, hpend]
      refine hshape.pop.queue fun x hx => ?_
      obtain ⟨f, hfm, rfl⟩ := List.mem_map.mp hx
      unfold World.flushNotices at hfm
      split at hfm
      · rw [List.mem_singleton.mp hfm]
        simp [noticeOf]
      · cases hfm
  · intro e he u
    unfold World.flushEffects at he
    rw [hready.state] at he
    split at he
    · simp only [reduceCtorEq, if_false, ite_self, List.mem_singleton] at he
      rw [he]
      rfl
    · cases he

/-- The notice `x` of the connection `s` has arrived. -/
structure Called (n : Nat) (t : Tunnel EPollPoller) (s : ServerClient) (x : Notice) : Prop where
  linked : Linked (kHighWaterMark - 1 + n) t
  emptied : ∀ s, (t.conn s).inputBuffer.Emptied
  valved : t.Valved s.other
  stage : Valve.Stage kHighWaterMark (t.conn s.other).reading (t.conn s).writeCompleteCallback (t.reads s.other)
    (t.conn s).outputBuffer.readable.length (x :: notices s (functors t.todo ++ t.pendingFunctors))
  shape : Shape t.phase t.todo t.pendingFunctors

theorem Up.called (h : Up n t) {f : Functor} {todo : List (ServerClient × Task)} (ht : t.todo = (s, .functor f) :: todo)
    {x : Notice} (hx : noticeOf f = some x) (e : Effect) :
    Called n (after { t with todo } s ((t.world s).log e) []) s x := by
  generalize hu : after { t with todo } s ((t.world s).log e) [] = u
  have hconn : ∀ s', u.conn s' = t.conn s' := by
    rw [← hu]
    exact (ServerClient.forall_iff s).mpr ⟨conn_after .., conn_after_other ..⟩
  have htodo : u.todo = todo := by rw [← hu]; rfl
  have hpend : u.pendingFunctors = t.pendingFunctors := by rw [← hu]; exact List.append_nil _
  have hphase : u.phase = t.phase := by rw [← hu]; rfl
  have hreads : ∀ s', u.reads s' = t.reads s' := fun s' => by simp [reads, htodo, ht]
  have hshape := h.shape
  rw [ht] at hshape
  refine ⟨?_, fun s' => ?_, ?_, ?_, ?_⟩
  · refine h.linked.congr (fun s' => .of_eq (hconn s')) ?_ ?_ ?_ ?_ ?_
    all_goals rw [← hu]
    all_goals try rfl
    cases s <;> simp [after, put, world, setPeer, World.log]
  · rw [hconn]
    exact h.emptied s'
  · refine (h.valved s.other).congr (by rw [hconn]) (by rw [hconn]) (hreads _) (by rw [hconn]) ?_
    rw [htodo, hpend, ht, functors_cons_functor, List.cons_append, notices_cons_other]
  · have hstage := h.valved s
    unfold Valved at hstage
    rw [ht, functors_cons_functor, List.cons_append, notices_cons hx] at hstage
    rw [hconn, hconn, hreads, htodo, hpend]
    exact hstage
  · rw [htodo, hpend, hphase]
    exact hshape.pop

/-- The other connection is read or not, and `writeCompleteCallback_` says so. -/
theorem Called.gate {x : Notice} (h : Called n t s x) {p : EPollPoller} {c : Channel} {reading : Bool}
    (hready : ((t.world s.other).rearmed p c reading).Ready (kHighWaterMark - 1 + n))
    (htends : World.Tends (t.world s.other) ((t.world s.other).rearmed p c reading))
    (hstage : Valve.Stage kHighWaterMark reading (!reading) (t.reads s.other) (t.conn s).outputBuffer.readable.length
      (notices s (functors t.todo ++ t.pendingFunctors))) :
    Up n ((t.put s.other ((t.world s.other).rearmed p c reading)).setWriteCompleteCallback s (!reading)) := by
  have hput : Linked (kHighWaterMark - 1 + n) (t.put s.other ((t.world s.other).rearmed p c reading)) :=
    h.linked.put hready htends rfl
  generalize hu : (t.put s.other ((t.world s.other).rearmed p c reading)).setWriteCompleteCallback s (!reading) = u
  have hconn : u.conn s = { t.conn s with writeCompleteCallback := !reading } := by
    rw [← hu, setWriteCompleteCallback, conn_setConn, conn_put_of_other]
  have hother : u.conn s.other = { t.conn s.other with channel := c, reading } := by
    rw [← hu, setWriteCompleteCallback, conn_setConn_other, conn_put]
    rfl
  have htodo : u.todo = t.todo := by rw [← hu]; rfl
  have hpend : u.pendingFunctors = t.pendingFunctors := by rw [← hu]; exact List.append_nil _
  have hphase : u.phase = t.phase := by rw [← hu]; rfl
  have hreads : ∀ s', u.reads s' = t.reads s' := fun s' => by rw [Tunnel.reads, Tunnel.reads, htodo]
  refine ⟨?_, (ServerClient.forall_iff s).mpr ⟨?_, ?_⟩, (ServerClient.forall_iff s).mpr ⟨?_, ?_⟩, ?_⟩
  · rw [← hu]
    refine hput.congr ((ServerClient.forall_iff s).mpr ⟨?_, ?_⟩) rfl rfl rfl rfl ?_
    · rw [setWriteCompleteCallback, conn_setConn, conn_put_of_other]
      exact ⟨rfl, rfl, rfl, rfl, rfl, rfl⟩
    · rw [setWriteCompleteCallback, conn_setConn_other]
      exact .of_eq rfl
    · cases s <;> simp [setWriteCompleteCallback, setConn, setPeer]
  · rw [hconn]
    exact h.emptied s
  · rw [hother]
    exact h.emptied s.other
  · unfold Valved
    rw [hconn, hother, hreads, htodo, hpend]
    exact hstage
  · refine h.valved.congr ?_ (by rw [hother]) (hreads _) (by rw [hother]) (by rw [htodo, hpend])
    rw [ServerClient.other_other, hconn]
  · rw [hphase, htodo, hpend]
    exact h.shape

theorem Called.onHighWaterMark (h : Called n t s .high) : ∃ u, t.onHighWaterMark s = .ok u ∧ Up n u := by
  obtain ⟨hopen, -, hnil, hshut, hflow⟩ := h.stage.high
  have hready := h.linked.ready s.other
  have hlen : (t.conn s).outputBuffer.readable.length = (t.conn s).outputBuffer.readableBytes :=
    (h.linked.ready s).output.length_readable
  rw [onHighWaterMark_eq h.linked.clientConn, ← hlen]
  split
  · rename_i hpos
    obtain ⟨p, c, hstop, hrearmed, htends⟩ := hready.stopReadInLoop hopen
    refine ⟨_, ?_, h.gate hrearmed htends ?_⟩
    · rw [Tunnel.stopRead, on, World.runInLoop, hstop, ok_bind, pure_eq_ok, ok_bind]
      rfl
    · rw [hnil]
      exact hshut hpos
  · rename_i hzero
    refine ⟨t, rfl, h.linked, h.emptied, (ServerClient.forall_iff s).mpr ⟨?_, h.valved⟩, h.shape⟩
    unfold Valved
    rw [hnil]
    exact hflow (by omega) (by decide)

theorem Called.onWriteComplete (h : Called n t s .drained) : ∃ u, t.onWriteComplete s = .ok u ∧ Up n u := by
  obtain ⟨hshut, -, hnil, -, hflow⟩ := h.stage.reopen (by decide)
  obtain ⟨p, c, hstart, hrearmed, htends⟩ := (h.linked.ready s.other).startReadInLoop hshut
  rw [onWriteComplete_eq h.linked.clientConn]
  refine ⟨_, ?_, h.gate hrearmed htends ?_⟩
  · rw [Tunnel.startRead, on, World.runInLoop, hstart, ok_bind, pure_eq_ok, ok_bind]
    rfl
  · rw [hnil]
    exact hflow

theorem Up.functor (h : Up n t) {f : Functor} {todo : List (ServerClient × Task)}
    (ht : t.todo = (s, .functor f) :: todo)
    (hf : noticeOf f ≠ none) (wr : WriteResult) (rr : ReadResult) (locked : Bool) :
    ∃ u, ({ t with todo } : Tunnel EPollPoller).runTask s wr rr locked (.functor f) = .ok u ∧ Up n u := by
  have hbody := fun f => body_eq s wr rr (show Task.functor f ≠ _ from nofun) (t.world s)
  cases f with
  | forceCloseInLoop => exact absurd rfl hf
  | connectDestroyed => exact absurd rfl hf
  | highWaterMark len =>
    have hcalled := h.called ht rfl (.highWaterMarkCallback len)
    rw [runTask_callback (t := { t with todo }) (hbody _) rfl, if_neg nofun,
      callback_highWaterMark hcalled.linked.registered]
    exact hcalled.onHighWaterMark
  | writeComplete =>
    have hcalled := h.called ht rfl .writeCompleteCallback
    rw [runTask_callback (t := { t with todo }) (hbody _) rfl, if_neg nofun,
      callback_writeComplete hcalled.linked.registered]
    exact hcalled.onWriteComplete

end Tunnel

end Zhengqi
