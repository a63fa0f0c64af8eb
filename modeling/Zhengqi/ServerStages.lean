import Zhengqi.ServerLog
import Zhengqi.SocketSound

/-!
# Stages of a connection

The invariant of a `TcpServer` that is not destroyed: every connection is in a stage of its
life, which says what has started for it, which functor it waits for, its `state_` and
whether it is in `connections_`. What concerns one connection leaves the others where they
are (`Inv.touch`, `Inv.create`).
-/

namespace Zhengqi

open Run

/-! ## Names -/

namespace TcpServer

/-- The name that `newConnection` gives for a value of `nextConnId_`. -/
def nameOf (s : TcpServer) (n : Nat) : Bytes :=
  s.name ++ snprintf 64 (ascii "-" ++ s.ipPort ++ ascii "#" ++ decimal n)

/-- The buffer is long enough, so that no digit is cut off. -/
theorem nameOf_inj {s : TcpServer} (hip : s.ipPort.length ≤ 47) {m n : Nat} (hm : m < 10 ^ 10) (hn : n < 10 ^ 10)
    (h : s.nameOf m = s.nameOf n) : m = n := by
  have hfits : ∀ {n}, n < 10 ^ 10 → snprintf 64 (ascii "-" ++ s.ipPort ++ ascii "#" ++ decimal n) =
      ascii "-" ++ s.ipPort ++ ascii "#" ++ decimal n := by
    intro n hn
    apply List.take_of_length_le
    have := length_decimal (by decide) hn
    simp only [List.length_append, ascii, List.length_map]
    change 1 + s.ipPort.length + 1 + _ ≤ 63
    omega
  rw [nameOf, nameOf, hfits hm, hfits hn] at h
  exact decimal_inj (List.append_cancel_left (List.append_cancel_left h))

end TcpServer

/-! ## Stages -/

def ServerFunctor.forced : ServerFunctor → Bool
  | .forceCloseInLoop _ => true
  | _ => false

theorem ServerFunctor.eq_of_forced {f : ServerFunctor} (h : f.forced = true) : f = .forceCloseInLoop f.conn := by
  cases f with
  | forceCloseInLoop conn => rfl
  | _ => cases h

/-- What has started last for a connection. -/
inductive Stage
  | created | established | closed | removed | destroyed

namespace Stage

variable {c : Connection} {st : Stage} {loop : Nat}

def past : Stage → List LifeStep
  | .created => []
  | .established => [.connectEstablished]
  | .closed => [.connectEstablished, .handleClose]
  | .removed => [.connectEstablished, .handleClose, .removeConnectionInLoop]
  | .destroyed => lifeCycle

def Allows : Stage → StateE → Prop
  | .created, state => state = .kConnecting
  | .established, state => Connection.isOpen state = true
  | _, state => state = .kDisconnected

/-- Its entry is in `connections_`. -/
def Listed : Stage → Prop
  | .created | .established | .closed => True
  | _ => False

/-- The functor that takes the connection to the next stage, and the loop it waits in. -/
def next (c : Connection) : Stage → Option (Nat × ServerFunctor)
  | .created => some (c.loop, .connectEstablished c.id)
  | .closed => some (0, .removeConnectionInLoop c.id)
  | .removed => some (c.loop, .connectDestroyed c.id)
  | _ => none

def due (c : Connection) (st : Stage) (loop : Nat) : List ServerFunctor :=
  match st.next c with
  | some (l, f) => if loop = l then [f] else []
  | none => []

theorem past_isPrefix (st : Stage) : st.past <+: lifeCycle := by
  cases st <;> decide

theorem listed_iff : st.Listed ↔ LifeStep.removeConnectionInLoop ∉ st.past := by
  cases st <;> simp [Listed, past, lifeCycle]

theorem Allows.disconnected (h : st.Allows c.state) (hn : ¬ st.Listed) : c.state = .kDisconnected := by
  cases st <;> first | exact h | exact absurd trivial hn

theorem Allows.established (h : st.Allows c.state) (ho : Connection.isOpen c.state = true) : st = .established := by
  cases st with
  | established => rfl
  | _ =>
    rw [show c.state = _ from h] at ho
    cases ho

theorem Allows.shutdown {state : StateE} (h : st.Allows state) : st.Allows (Connection.shutdown state) := by
  cases st <;> cases state <;> first | exact h | cases h

/-- A functor waits in one loop only. -/
theorem due_cons {f : ServerFunctor} {fs : List ServerFunctor} (h : st.due c loop = f :: fs) :
    st.next c = some (loop, f) ∧ fs = [] ∧ ∀ loop', loop' ≠ loop → st.due c loop' = [] := by
  unfold due at h ⊢
  cases hn : st.next c with
  | none =>
    rw [hn] at h
    cases h
  | some lf =>
    simp only [hn] at h ⊢
    split at h
    · rename_i hl
      cases h
      subst hl
      exact ⟨rfl, rfl, fun loop' hne => if_neg hne⟩
    · cases h

end Stage

/-- What `setState` does not change. -/
def Connection.fixed (c : Connection) : Nat × Bytes × Nat := (c.id, c.name, c.loop)

theorem startsOf_append (log starts : List Start) (conn : Nat) :
    startsOf (log ++ starts) conn = startsOf log conn ++ startsOf starts conn := by
  simp [startsOf]

theorem startsOf_other {starts : List Start} {conn : Nat} (h : ∀ e ∈ starts, e.conn ≠ conn) :
    startsOf starts conn = [] := by
  rw [startsOf, List.filter_eq_nil_iff.mpr (by simpa using h), List.map_nil]

namespace TcpServer

variable {s s' s'' : TcpServer} {log starts : List Start} {c d : Connection} {st : Stage} {conn loop l : Nat}
  {f : ServerFunctor} {fs : List ServerFunctor} {state : StateE}

/-- The functors of a connection in the queue of a loop. -/
def queued (s : TcpServer) (conn loop : Nat) : List ServerFunctor := (s.queues loop).filter (·.conn = conn)

def dequeue (s : TcpServer) (loop : Nat) : TcpServer :=
  { s with queues := Function.update s.queues loop (s.queues loop).tail }

theorem mem_queued : f ∈ s.queued conn loop ↔ f ∈ s.queues loop ∧ f.conn = conn := by
  simp [queued]

theorem queued_queueInLoop (s : TcpServer) (l : Nat) (f : ServerFunctor) (conn loop : Nat) :
    (s.queueInLoop l f).queued conn loop = s.queued conn loop ++ if loop = l ∧ f.conn = conn then [f] else [] := by
  unfold queued queueInLoop
  by_cases hl : loop = l
  · subst hl
    by_cases hc : f.conn = conn <;> simp [hc]
  · simp [hl]

/-- The functors that take a connection to its next stage. -/
def pending (s : TcpServer) (conn loop : Nat) : List ServerFunctor := (s.queued conn loop).filter (!·.forced)

/-- `forceCloseInLoop` waits in the connection's own loop. -/
def Forced (s : TcpServer) (c : Connection) : Prop :=
  ∀ loop, .forceCloseInLoop c.id ∈ s.queued c.id loop → loop = c.loop

theorem queued_dequeue (h : s.queues l = f :: fs) (conn loop : Nat) :
    s.queued conn loop = (if loop = l ∧ f.conn = conn then [f] else []) ++ (s.dequeue l).queued conn loop := by
  unfold queued dequeue
  by_cases hl : loop = l
  · subst hl
    by_cases hc : f.conn = conn <;> simp [h, hc]
  · simp [hl]

theorem pending_queueInLoop (hf : f.forced = false) (hc : f.conn = conn) (loop : Nat) :
    (s.queueInLoop l f).pending conn loop = s.pending conn loop ++ if loop = l then [f] else [] := by
  rw [pending, queued_queueInLoop, List.filter_append, ← pending]
  by_cases hl : loop = l <;> simp [hl, hf, hc]

theorem pending_queueInLoop_forced (hf : f.forced = true) (conn loop : Nat) :
    (s.queueInLoop l f).pending conn loop = s.pending conn loop := by
  rw [pending, queued_queueInLoop, List.filter_append, ← pending]
  by_cases hl : loop = l ∧ f.conn = conn <;> simp [hl, hf]

theorem Forced.queueInLoop (h : s.Forced c) (hf : f.forced = true → l = c.loop) : (s.queueInLoop l f).Forced c := by
  intro loop hm
  rw [queued_queueInLoop] at hm
  rcases List.mem_append.mp hm with hm | hm
  · exact h loop hm
  · split at hm
    · rw [List.mem_singleton] at hm
      rename_i hl
      rw [hl.1]
      exact hf (hm ▸ rfl)
    · simp at hm

theorem Forced.dequeue (h : s.Forced c) (hq : s.queues l = f :: fs) : (s.dequeue l).Forced c := by
  intro loop hm
  apply h loop
  rw [queued_dequeue hq]
  exact List.mem_append_right _ hm

/-! ## Objects -/

theorem mem_all (h : c ∈ s.objects.alive) : c ∈ s.all := List.mem_append_left _ h

theorem eq_of_id (hnd : (s.all.map (·.id)).Nodup) (hc : c ∈ s.all) (hd : d ∈ s.all) (he : c.id = d.id) : c = d :=
  List.inj_on_of_nodup_map hnd hc hd he

theorem find_alive (hnd : (s.all.map (·.id)).Nodup) (hc : c ∈ s.objects.alive) :
    s.objects.alive.find? (·.id = c.id) = some c := by
  cases hf : s.objects.alive.find? (·.id = c.id) with
  | none => simpa using List.find?_eq_none.mp hf c hc
  | some d =>
    have hd := List.find?_some hf
    rw [eq_of_id hnd (mem_all (List.mem_of_find?_eq_some hf)) (mem_all hc) (by simpa using hd)]

theorem get_alive (hnd : (s.all.map (·.id)).Nodup) (hc : c ∈ s.objects.alive) : s.objects.get c.id = .ok c := by
  rw [Connections.get, find_alive hnd hc]

/-- `setState` as it acts on every object, and not only on those alive. -/
theorem all_setState (hnd : (s.all.map (·.id)).Nodup) (hc : c ∈ s.objects.alive)
    (ho : s'.objects = s.objects.setState c.id state) :
    s'.all = s.all.map fun d => if d.id = c.id then { d with state } else d := by
  unfold all
  rw [ho, List.map_append]
  congr 1
  refine ((List.map_congr_left fun d hd => ?_).trans (List.map_id _)).symm
  refine if_neg fun he => ?_
  rw [all, List.map_append] at hnd
  exact List.disjoint_of_nodup_append hnd (List.mem_map_of_mem hc) (he ▸ List.mem_map_of_mem hd)

theorem setState_self (hnd : (s.all.map (·.id)).Nodup) (hc : c ∈ s.objects.alive) :
    s.objects.setState c.id c.state = s.objects := by
  unfold Connections.setState
  rw [(List.map_congr_left fun d hd => ?_).trans (List.map_id _)]
  split
  · rw [eq_of_id hnd (mem_all hd) (mem_all hc) ‹_›]
    rfl
  · rfl

/-! ## Numbers and names -/

/-- `s'` differs from `s` in its connections only. -/
def Alike (s s' : TcpServer) : Prop :=
  s'.name = s.name ∧ s'.ipPort = s.ipPort ∧ s'.numThreads = s.numThreads ∧ s'.nextConnId = s.nextConnId ∧
    s'.next = s.next ∧ s'.destroyed = s.destroyed

theorem nameOf_congr (hn : s'.name = s.name) (hip : s'.ipPort = s.ipPort) : s'.nameOf = s.nameOf := by
  funext n
  rw [nameOf, nameOf, hn, hip]

/-- `nextConnId_` counts the connections, which are named after it. -/
structure Numbered (s : TcpServer) : Prop where
  up : s.destroyed = false
  short : s.ipPort.length ≤ 47
  small : s.nextConnId ≤ 2 ^ 31
  pool : s.numThreads = 0 ∨ s.next < s.numThreads
  nodup : (s.all.map (·.id)).Nodup
  count : s.nextConnId = s.all.length + 1
  ids : ∀ c ∈ s.all, c.id < s.all.length
  names : ∀ c ∈ s.all, c.name = s.nameOf (c.id + 1)
  loops : ∀ c ∈ s.all, c.loop ≤ s.numThreads

theorem Numbered.of_perm (h : s.Numbered) (ha : s.Alike s')
    (hp : (s'.all.map Connection.fixed).Perm (s.all.map Connection.fixed)) : s'.Numbered := by
  obtain ⟨hn, hip, hthreads, hconn, hnext, hup⟩ := ha
  have hlen : s'.all.length = s.all.length := by simpa using hp.length_eq
  have hback : ∀ c ∈ s'.all, ∃ d ∈ s.all, d.id = c.id ∧ d.name = c.name ∧ d.loop = c.loop := by
    intro c hc
    obtain ⟨d, hd, he⟩ := List.mem_map.mp (hp.mem_iff.mp (List.mem_map_of_mem hc))
    simp only [Connection.fixed, Prod.mk.injEq] at he
    exact ⟨d, hd, he⟩
  constructor
  case up => exact hup.trans h.up
  case short => exact hip ▸ h.short
  case small => exact hconn ▸ h.small
  case pool =>
    rw [hthreads, hnext]
    exact h.pool
  case nodup =>
    have hmap := hp.map (·.1)
    rw [List.map_map, List.map_map] at hmap
    exact hmap.nodup_iff.mpr h.nodup
  case count => rw [hconn, hlen, h.count]
  case ids =>
    intro c hc
    obtain ⟨d, hd, he, -⟩ := hback c hc
    rw [hlen, ← he]
    exact h.ids d hd
  case names =>
    intro c hc
    obtain ⟨d, hd, he, hname, -⟩ := hback c hc
    rw [nameOf_congr hn hip, ← he, ← hname]
    exact h.names d hd
  case loops =>
    intro c hc
    obtain ⟨d, hd, -, -, hloop⟩ := hback c hc
    rw [hthreads, ← hloop]
    exact h.loops d hd

theorem Numbered.cons (h : s.Numbered) (hb : s.nextConnId < 2 ^ 31)
    (hrest : s'.name = s.name ∧ s'.ipPort = s.ipPort ∧ s'.numThreads = s.numThreads ∧
      s'.nextConnId = s.nextConnId + 1 ∧ s'.destroyed = s.destroyed)
    (hpool : s'.numThreads = 0 ∨ s'.next < s'.numThreads) (halive : s'.objects.alive = s.objects.alive ++ [c])
    (hdestroyed : s'.objects.destroyed = s.objects.destroyed) (hid : c.id = s.all.length) (hname : c.name = s.connName)
    (hloop : c.loop ≤ s.numThreads) : s'.Numbered := by
  obtain ⟨hn, hip, hthreads, hconn, hup⟩ := hrest
  have hp : s'.all.Perm (c :: s.all) := by
    rw [all, halive, hdestroyed, List.append_assoc]
    exact List.perm_middle
  have hlen : s'.all.length = s.all.length + 1 := hp.length_eq
  constructor
  case up => exact hup.trans h.up
  case short => exact hip ▸ h.short
  case small => exact hconn ▸ hb
  case pool => exact hpool
  case nodup =>
    rw [(hp.map _).nodup_iff, List.map_cons, List.nodup_cons]
    refine ⟨fun hm => ?_, h.nodup⟩
    obtain ⟨d, hd, he⟩ := List.mem_map.mp hm
    exact Nat.ne_of_lt (h.ids d hd) (he.trans hid)
  case count => rw [hconn, hlen, h.count]
  case ids =>
    intro d hd
    rcases List.mem_cons.mp (hp.mem_iff.mp hd) with rfl | hd
    · omega
    · have := h.ids d hd
      omega
  case names =>
    intro d hd
    rw [nameOf_congr hn hip]
    rcases List.mem_cons.mp (hp.mem_iff.mp hd) with rfl | hd
    · rw [hname, hid, ← h.count]
      rfl
    · exact h.names d hd
  case loops =>
    intro d hd
    rw [hthreads]
    rcases List.mem_cons.mp (hp.mem_iff.mp hd) with rfl | hd
    · exact hloop
    · exact h.loops d hd

theorem Numbered.eq_of_name (h : s.Numbered) (hc : c ∈ s.all) (hd : d ∈ s.all) (he : c.name = d.name) : c = d := by
  have hid : ∀ {c}, c ∈ s.all → c.id + 1 < 10 ^ 10 := by
    intro c hc
    have h₁ := h.ids c hc
    have h₂ := h.small
    have h₃ := h.count
    omega
  rw [h.names c hc, h.names d hd] at he
  apply eq_of_id h.nodup hc hd
  have := nameOf_inj h.short (hid hc) (hid hd) he
  omega

theorem Numbered.name_fresh (h : s.Numbered) (hb : s.nextConnId < 2 ^ 31) : ∀ c ∈ s.all, c.name ≠ s.connName := by
  intro c hc hn
  have hid := h.ids c hc
  have hcount := h.count
  rw [h.names c hc] at hn
  have := nameOf_inj (n := s.nextConnId) h.short (by omega) (by omega) hn
  omega

/-! ## The invariant -/

structure InStage (s : TcpServer) (log : List Start) (c : Connection) (st : Stage) : Prop where
  past : startsOf log c.id = st.past
  state : st.Allows c.state
  due : ∀ loop, s.pending c.id loop = st.due c loop
  forced : s.Forced c
  listed : (c.name, c.id) ∈ s.connections ↔ st.Listed

structure Inv (s : TcpServer) (log : List Start) : Prop extends Numbered s where
  functors : ∀ loop, ∀ f ∈ s.queues loop, ∃ c ∈ s.objects.alive, c.id = f.conn
  entries : ∀ e ∈ s.connections, ∃ c ∈ s.objects.alive, (c.name, c.id) = e
  keys : (s.connections.map (·.1)).Nodup
  stages : ∀ c ∈ s.all, ∃ st, s.InStage log c st
  logged : ∀ e ∈ log, ∃ c ∈ s.all, c.id = e.conn ∧ e.loop = if e.step = .removeConnectionInLoop then 0 else c.loop

theorem Inv.unused (h : s.Inv log) (hn : ∀ d ∈ s.all, d.id ≠ conn) :
    (∀ loop, s.queued conn loop = []) ∧ startsOf log conn = [] := by
  constructor
  · intro loop
    rw [queued, List.filter_eq_nil_iff]
    intro f hf
    obtain ⟨d, hd, he⟩ := h.functors loop f hf
    rw [decide_eq_true_eq, ← he]
    exact hn d (mem_all hd)
  · refine startsOf_other fun e he => ?_
    obtain ⟨d, hd, hde, -⟩ := h.logged e he
    exact hde ▸ hn d hd

/-- Objects may go that neither `connections_` nor a functor holds. -/
theorem Inv.settle (h : s.Inv log) {kept : List Nat} {objects : Connections}
    (hp : (objects.alive ++ objects.destroyed).Perm s.all)
    (ha : ∀ c ∈ s.objects.alive, (c.name, c.id) ∈ s.connections ∨ (∃ loop, ∃ f ∈ s.queues loop, f.conn = c.id) →
      c ∈ objects.alive) : ({ s with kept, objects } : TcpServer).Inv log where
  toNumbered := h.of_perm ⟨rfl, rfl, rfl, rfl, rfl, rfl⟩ (hp.map _)
  functors loop f hf := by
    obtain ⟨c, hc, hid⟩ := h.functors loop f hf
    exact ⟨c, ha c hc (.inr ⟨loop, f, hf, hid.symm⟩), hid⟩
  entries e he := by
    obtain ⟨c, hc, rfl⟩ := h.entries e he
    exact ⟨c, ha c hc (.inl he), rfl⟩
  keys := h.keys
  stages c hc := by
    obtain ⟨st, hi⟩ := h.stages c (hp.mem_iff.mp hc)
    exact ⟨st, hi.past, hi.state, hi.due, hi.forced, hi.listed⟩
  logged e he := by
    obtain ⟨c, hc, hd⟩ := h.logged e he
    exact ⟨c, hp.mem_iff.mpr hc, hd⟩

/-! ## What concerns one connection only -/

/-- The queues and `connections_` have changed for one connection at most. -/
structure Touch (s s' : TcpServer) (conn : Nat) : Prop where
  alike : s.Alike s'
  queued : ∀ d, d ≠ conn → ∀ loop, s'.queued d loop = s.queued d loop
  sublist : s'.connections.Sublist s.connections
  connections : ∀ e ∈ s.connections, e.2 ≠ conn → e ∈ s'.connections

theorem Touch.refl (s : TcpServer) (conn : Nat) : s.Touch s conn :=
  ⟨by simp [Alike], fun _ _ _ => rfl, List.Sublist.refl _, fun _ he _ => he⟩

theorem Touch.setState (h : s.Touch s' conn) (id : Nat) (state : StateE) : s.Touch (s'.setState id state) conn :=
  ⟨h.alike, h.queued, h.sublist, h.connections⟩

theorem Touch.queueInLoop (h : s.Touch s' conn) (l : Nat) (hf : f.conn = conn) : s.Touch (s'.queueInLoop l f) conn := by
  refine ⟨h.alike, fun d hd loop => ?_, h.sublist, h.connections⟩
  rw [queued_queueInLoop, if_neg (fun hc => hd (hc.2.symm.trans hf)), List.append_nil, h.queued d hd]

theorem Touch.dequeue (hq : s.queues l = f :: fs) : s.Touch (s.dequeue l) f.conn := by
  refine ⟨by simp [Alike, TcpServer.dequeue], fun d hd loop => ?_, List.Sublist.refl _, fun _ he _ => he⟩
  rw [queued_dequeue hq, if_neg (fun hc => hd hc.2.symm), List.nil_append]

theorem InStage.frame (h : s.InStage log d st) (hq : ∀ loop, s'.queued d.id loop = s.queued d.id loop)
    (hc : (d.name, d.id) ∈ s'.connections ↔ (d.name, d.id) ∈ s.connections) (hl : ∀ e ∈ starts, e.conn ≠ d.id) :
    s'.InStage (log ++ starts) d st where
  past := by rw [startsOf_append, h.past, startsOf_other hl, List.append_nil]
  state := h.state
  due loop := by
    rw [pending, hq]
    exact h.due loop
  forced loop := by
    rw [hq]
    exact h.forced loop
  listed := hc.trans h.listed

theorem Inv.functor_of_other (h : s.Inv log) (hq : ∀ d, d ≠ conn → ∀ loop, s'.queued d loop = s.queued d loop)
    (hf : f ∈ s'.queues loop) : f.conn = conn ∨ ∃ c ∈ s.objects.alive, c.id = f.conn := by
  by_cases hfc : f.conn = conn
  · exact .inl hfc
  · have hm := mem_queued.mpr ⟨hf, rfl⟩
    rw [hq _ hfc] at hm
    exact .inr (h.functors loop f (mem_queued.mp hm).1)

/-- What is done for one connection keeps the others as they are. -/
theorem Inv.touch (h : s.Inv log) (st : Stage) (hc : c ∈ s.objects.alive) (ht : s.Touch s' c.id)
    (ho : s'.objects = s.objects.setState c.id state)
    (hl : ∀ e ∈ starts, e.conn = c.id ∧ e.loop = if e.step = .removeConnectionInLoop then 0 else c.loop)
    (hi : s'.InStage (log ++ starts) { c with state } st) : s'.Inv (log ++ starts) := by
  have hall := all_setState h.nodup hc ho
  have halive : s'.objects.alive = s.objects.alive.map fun d => if d.id = c.id then { d with state } else d := by
    rw [ho, Connections.setState]
  have hid : ∀ d : Connection, (if d.id = c.id then { d with state } else d).id = d.id := fun d => by split <;> rfl
  have hname : ∀ d : Connection, (if d.id = c.id then { d with state } else d).name = d.name :=
    fun d => by split <;> rfl
  have hloop : ∀ d : Connection, (if d.id = c.id then { d with state } else d).loop = d.loop :=
    fun d => by split <;> rfl
  have hkept : ∀ {d}, d ∈ s.objects.alive → ∃ d' ∈ s'.objects.alive, d'.id = d.id ∧ d'.name = d.name :=
    fun hd => ⟨_, halive ▸ List.mem_map_of_mem hd, hid _, hname _⟩
  constructor
  case toNumbered =>
    refine h.of_perm ht.alike ?_
    rw [hall, List.map_map]
    simp only [Function.comp_def, Connection.fixed, hid, hname, hloop]
    exact List.Perm.refl _
  case functors =>
    intro loop f hf
    rcases h.functor_of_other ht.queued hf with hfc | ⟨d, hd, hdf⟩
    · obtain ⟨d', hd', he, -⟩ := hkept hc
      exact ⟨d', hd', he.trans hfc.symm⟩
    · obtain ⟨d', hd', he, -⟩ := hkept hd
      exact ⟨d', hd', he.trans hdf⟩
  case entries =>
    intro e he
    obtain ⟨d, hd, rfl⟩ := h.entries e (ht.sublist.subset he)
    obtain ⟨d', hd', hi', hn'⟩ := hkept hd
    exact ⟨d', hd', by rw [hi', hn']⟩
  case keys => exact (ht.sublist.map _).nodup h.keys
  case stages =>
    rw [hall, List.forall_mem_map]
    intro d hd
    by_cases hdc : d.id = c.id
    · rw [if_pos hdc, eq_of_id h.nodup hd (mem_all hc) hdc]
      exact ⟨st, hi⟩
    · obtain ⟨st', hst⟩ := h.stages d hd
      rw [if_neg hdc]
      refine ⟨st', hst.frame (ht.queued d.id hdc) ?_ fun e he => (hl e he).1 ▸ Ne.symm hdc⟩
      exact ⟨fun he => ht.sublist.subset he, fun he => ht.connections _ he hdc⟩
  case logged =>
    intro e he
    have hd : ∃ d ∈ s.all, d.id = e.conn ∧ e.loop = if e.step = .removeConnectionInLoop then 0 else d.loop := by
      rcases List.mem_append.mp he with he | he
      · exact h.logged e he
      · exact ⟨c, mem_all hc, (hl e he).1.symm, (hl e he).2⟩
    obtain ⟨d, hd, hde, hdl⟩ := hd
    rw [hall]
    refine ⟨_, List.mem_map_of_mem hd, ?_⟩
    rw [hid, hloop]
    exact ⟨hde, hdl⟩

/-- Adding an object, with its entry, keeps the others as they are. -/
theorem Inv.create (h : s.Inv log) (st : Stage) (hn : s'.Numbered) (hfresh : ∀ d ∈ s.all, d.id ≠ c.id ∧ d.name ≠ c.name)
    (halive : s'.objects.alive = s.objects.alive ++ [c]) (hdestroyed : s'.objects.destroyed = s.objects.destroyed)
    (hconn : s'.connections = s.connections ++ [(c.name, c.id)])
    (hq : ∀ d, d ≠ c.id → ∀ loop, s'.queued d loop = s.queued d loop)
    (hl : ∀ e ∈ starts, e.conn = c.id ∧ e.loop = if e.step = .removeConnectionInLoop then 0 else c.loop)
    (hi : s'.InStage (log ++ starts) c st) : s'.Inv (log ++ starts) := by
  have hmem : ∀ {d}, d ∈ s'.all ↔ d = c ∨ d ∈ s.all := by
    intro d
    simp only [all, halive, hdestroyed, List.mem_append, List.mem_singleton]
    rw [or_right_comm, or_comm]
  have hstay : ∀ {d}, d ∈ s.objects.alive → d ∈ s'.objects.alive := fun hd => halive ▸ List.mem_append_left _ hd
  have hc : c ∈ s'.objects.alive := halive ▸ List.mem_append_right _ (List.mem_singleton_self c)
  constructor
  case toNumbered => exact hn
  case functors =>
    intro loop f hf
    rcases h.functor_of_other hq hf with hfc | ⟨d, hd, hdf⟩
    · exact ⟨c, hc, hfc.symm⟩
    · exact ⟨d, hstay hd, hdf⟩
  case entries =>
    intro e he
    rw [hconn] at he
    rcases List.mem_append.mp he with he | he
    · obtain ⟨d, hd, hde⟩ := h.entries e he
      exact ⟨d, hstay hd, hde⟩
    · exact ⟨c, hc, (List.mem_singleton.mp he).symm⟩
  case keys =>
    rw [hconn, List.map_append, List.map_singleton, List.nodup_append_comm, List.singleton_append, List.nodup_cons]
    refine ⟨fun hm => ?_, h.keys⟩
    obtain ⟨e, he, hec⟩ := List.mem_map.mp hm
    obtain ⟨d, hd, rfl⟩ := h.entries e he
    exact (hfresh d (mem_all hd)).2 hec
  case stages =>
    intro d hd
    rcases hmem.mp hd with rfl | hd
    · exact ⟨st, hi⟩
    · obtain ⟨st', hst⟩ := h.stages d hd
      have hdc := (hfresh d hd).1
      refine ⟨st', hst.frame (hq d.id hdc) ?_ fun e he => (hl e he).1 ▸ hdc.symm⟩
      rw [hconn, List.mem_append, List.mem_singleton, Prod.mk.injEq]
      exact or_iff_left fun he => hdc he.2
  case logged =>
    intro e he
    rcases List.mem_append.mp he with he | he
    · obtain ⟨d, hd, hde⟩ := h.logged e he
      exact ⟨d, hmem.mpr (.inr hd), hde⟩
    · exact ⟨c, mem_all hc, (hl e he).1.symm, (hl e he).2⟩

end TcpServer

end Zhengqi
