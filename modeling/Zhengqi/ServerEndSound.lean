import Zhengqi.ServerLifeSound

/-!
# The end of a server

`~TcpServer` against the peers' closes. Before it the stages of `ServerStages` hold. After
it every connection has a fate: its `connectDestroyed` waits in its loop or has run. What
breaks this is a close that reaches the server afterwards, directly or by a
`removeConnectionInLoop` that was queued before.
-/

namespace Zhengqi

open Run

def ServerFunctor.removes : ServerFunctor → Bool
  | .removeConnectionInLoop _ => true
  | _ => false

/-- What `~TcpServer` has done for a connection: nothing so far, `connectDestroyed` waits, or it has run. -/
inductive Fate
  | left | planned | gone
  deriving DecidableEq

/-- The functors of a connection in its loop. -/
def Fate.waits (c : Connection) (fate : Fate) : List ServerFunctor :=
  (if c.state = .kConnecting then [.connectEstablished c.id] else []) ++
    if fate = .planned then [.connectDestroyed c.id] else []

theorem Fate.mem_waits {c : Connection} {fate : Fate} {f : ServerFunctor} (h : f ∈ fate.waits c) :
    f = .connectEstablished c.id ∨ f = .connectDestroyed c.id := by
  rcases List.mem_append.mp h with h | h
  · split at h
    · exact .inl (List.mem_singleton.mp h)
    · cases h
  · split at h
    · exact .inr (List.mem_singleton.mp h)
    · cases h

namespace TcpServer

variable {s s' : TcpServer} {log starts : List Start} {c d : Connection} {conn loop l : Nat} {f : ServerFunctor}
  {fs : List ServerFunctor} {state : StateE} {conns ids ids' : List Nat}

/-! ## Connections closed by their peers -/

/-- Nothing was shut down or closed from this side, and the base loop establishes its connections at once. -/
structure Plain (s : TcpServer) : Prop where
  states : ∀ c ∈ s.all, c.state ≠ .kDisconnecting
  functors : ∀ loop, ∀ f ∈ s.queues loop, f.forced = false ∧ ∀ conn, f = .connectEstablished conn → loop ≠ 0

theorem Plain.setState (h : s.Plain) (conn : Nat) (hs : state ≠ .kDisconnecting) : (s.setState conn state).Plain := by
  refine ⟨fun c hc => ?_, h.functors⟩
  rcases List.mem_append.mp hc with hc | hc
  · obtain ⟨d, hd, rfl⟩ := List.mem_map.mp hc
    split
    · exact hs
    · exact h.states d (mem_all hd)
  · exact h.states c (List.mem_append_right _ hc)

theorem Plain.queueInLoop (h : s.Plain) (hf : f.forced = false) (he : ∀ conn, f = .connectEstablished conn → l ≠ 0) :
    (s.queueInLoop l f).Plain := by
  refine ⟨h.states, fun loop g hg => ?_⟩
  by_cases hl : loop = l
  · subst hl
    simp only [TcpServer.queueInLoop, Function.update_self] at hg
    rcases List.mem_append.mp hg with hg | hg
    · exact h.functors loop g hg
    · rw [List.mem_singleton.mp hg]
      exact ⟨hf, he⟩
  · simp only [TcpServer.queueInLoop, Function.update_of_ne hl] at hg
    exact h.functors loop g hg

theorem Plain.dequeue (h : s.Plain) (l : Nat) : (s.dequeue l).Plain := by
  refine ⟨h.states, fun loop f hf => h.functors loop f ?_⟩
  by_cases hl : loop = l
  · subst hl
    simp only [TcpServer.dequeue, Function.update_self] at hf
    exact List.mem_of_mem_tail hf
  · simpa only [TcpServer.dequeue, Function.update_of_ne hl] using hf

theorem Plain.removeConnectionInLoop (h : s.Plain) (hr : s.removeConnectionInLoop conn = .ok s') : s'.Plain := by
  obtain ⟨-, -, hr⟩ := bind_ok.mp hr
  obtain ⟨c, -, hr⟩ := bind_ok.mp hr
  obtain ⟨-, -, hr⟩ := bind_ok.mp hr
  cases hr
  exact Plain.queueInLoop (s := { s with connections := _ }) ⟨h.states, h.functors⟩ rfl (by simp)

theorem Plain.handleClose (h : s.Plain) (hr : s.handleClose conn = .ok s') : s'.Plain := by
  obtain ⟨c, -, hr⟩ := bind_ok.mp hr
  obtain ⟨state, hs, hr⟩ := bind_ok.mp hr
  obtain ⟨-, -, hs⟩ := bind_ok.mp hs
  cases hs
  have hp : (s.setState conn .kDisconnected).Plain := h.setState conn (by decide)
  obtain ⟨-, -, hr⟩ := bind_ok.mp hr
  rcases ite_ok hr with ⟨-, hr⟩ | ⟨-, hr⟩
  · exact hp.removeConnectionInLoop hr
  · cases hr
    exact hp.queueInLoop rfl (by simp)

theorem Plain.connectEstablished (h : s.Plain) (hr : s.connectEstablished conn = .ok s') : s'.Plain := by
  obtain ⟨c, -, hr⟩ := bind_ok.mp hr
  obtain ⟨state, hs, hr⟩ := bind_ok.mp hr
  obtain ⟨-, -, hs⟩ := bind_ok.mp hs
  cases hs
  cases hr
  exact h.setState conn (by decide)

theorem connectDestroyed_state (hs : state ≠ .kDisconnecting) :
    Connection.connectDestroyed state ≠ .kDisconnecting := by
  cases state <;> simp_all [Connection.connectDestroyed]

theorem Plain.connectDestroyed (h : s.Plain) (hr : s.connectDestroyed conn = .ok s') : s'.Plain := by
  obtain ⟨c, hg, hr⟩ := bind_ok.mp hr
  cases hr
  have hc : c ∈ s.objects.alive := by
    unfold Connections.get at hg
    cases hf : s.objects.alive.find? (·.id = conn) with
    | none => simp [hf] at hg
    | some d =>
      rw [hf] at hg
      cases hg
      exact List.mem_of_find?_eq_some hf
  exact h.setState conn (connectDestroyed_state (h.states c (mem_all hc)))

theorem Plain.runFunctor (h : s.Plain) (hr : s.runFunctor loop = .ok s') : s'.Plain := by
  unfold TcpServer.runFunctor at hr
  cases hq : s.queues loop with
  | nil =>
    rw [hq] at hr
    cases hr
    exact h
  | cons f fs =>
    rw [hq] at hr
    have hd := h.dequeue loop
    rw [TcpServer.dequeue, hq, List.tail_cons] at hd
    cases f with
    | connectEstablished conn => exact hd.connectEstablished hr
    | removeConnectionInLoop conn => exact hd.removeConnectionInLoop hr
    | connectDestroyed conn => exact hd.connectDestroyed hr
    | forceCloseInLoop conn =>
      exact absurd (h.functors loop _ (hq ▸ List.mem_cons_self ..)).1 (by simp [ServerFunctor.forced])

theorem Plain.newConnection (h : s.Plain) (hr : s.newConnection conn = .ok s') : s'.Plain := by
  have hn : ∃ next, s.getNextLoop.2 = { s with next } := by
    unfold TcpServer.getNextLoop
    split
    · exact ⟨s.next, rfl⟩
    · exact ⟨_, rfl⟩
  obtain ⟨next, hnext⟩ := hn
  unfold TcpServer.newConnection at hr
  simp only [Connections.create, hnext] at hr
  have hp : ∀ nextConnId connections descriptors, ∀ c : Connection, c.state = .kConnecting →
      ({ s with next, nextConnId, connections, objects :=
        { s.objects with descriptors, alive := s.objects.alive ++ [c] } } : TcpServer).Plain := by
    intro nextConnId connections descriptors c hc
    refine ⟨fun d hd => ?_, h.functors⟩
    simp only [all, List.mem_append, List.mem_singleton] at hd
    rcases hd with (hd | rfl) | hd
    · exact h.states d (mem_all hd)
    · simp [hc]
    · exact h.states d (List.mem_append_right _ hd)
  rcases ite_ok hr with ⟨-, hr⟩ | ⟨hl, hr⟩
  · exact Plain.connectEstablished (hp _ _ _ _ rfl) hr
  · cases hr
    exact Plain.queueInLoop (hp _ _ _ _ rfl) rfl fun _ _ => hl

theorem Plain.act {w : LoggedServer} {l : Label} (h : w.server.Plain) (hc : w.Closing l) (hd : l ≠ .dtor)
    (hr : w.server.act l = .ok s') : s'.Plain := by
  cases l with
  | accept connfd => exact ite_pure_inv (I := Plain) (fun _ => h.newConnection) h hr
  | runFunctor loop => exact h.runFunctor hr
  | handleClose conn => exact ite_pure_inv (I := Plain) (fun _ => h.handleClose) h hr
  | keep conn =>
    refine ite_pure_inv (I := Plain) (fun _ hk => ?_) h hr
    cases hk
    exact ⟨h.states, h.functors⟩
  | acceptFails =>
    cases hr
    exact h
  | drop conn =>
    cases hr
    exact ⟨h.states, h.functors⟩
  | shutdown conn => exact hc.elim
  | forceClose conn => exact hc.elim
  | dtor => exact absurd rfl hd

/-! ## Fates -/

/-- A connection that was in `connections_`. -/
structure Fated (s : TcpServer) (log : List Start) (c : Connection) (fate : Fate) : Prop where
  state : c.state ≠ .kDisconnecting
  base : c.state = .kConnecting → c.loop ≠ 0
  waits : ∀ loop, s.queued c.id loop = if loop = c.loop then fate.waits c else []
  count : (startsOf log c.id).count .connectDestroyed = if fate = .gone then 1 else 0
  gone : fate = .gone → c.state = .kDisconnected

/-- A connection that `removeConnectionInLoop` had removed before. -/
structure Removed (s : TcpServer) (c : Connection) : Prop where
  state : c.state = .kDisconnected
  waits : ∀ loop, ∀ f ∈ s.queued c.id loop, loop = c.loop ∧ f = .connectDestroyed c.id

/-- What the destructor does with a connection, which was in `connections_` if it is one of `conns`; the destructor
has still to go through `ids`. -/
structure Settled (s : TcpServer) (log : List Start) (conns ids : List Nat) (c : Connection) : Prop where
  fated : c.id ∈ conns → ∃ fate, s.Fated log c fate ∧ (c.id ∈ ids ↔ fate = .left)
  removed : c.id ∉ conns → s.Removed c

structure Ended (s : TcpServer) (log : List Start) (conns ids : List Nat) : Prop where
  nodup : (s.all.map (·.id)).Nodup
  loops : ∀ c ∈ s.all, c.loop ≤ s.numThreads
  functors : ∀ loop, ∀ f ∈ s.queues loop, ∃ c ∈ s.objects.alive, c.id = f.conn
  made : ∀ id ∈ conns, ∃ c ∈ s.all, c.id = id
  listed : ∀ id ∈ ids, id ∈ conns ∧ id ∈ s.connections.map (·.2) ∧ ∃ c ∈ s.objects.alive, c.id = id
  settled : ∀ c ∈ s.all, s.Settled log conns ids c

theorem Settled.frame (h : s.Settled log conns ids d) (hq : ∀ loop, s'.queued d.id loop = s.queued d.id loop)
    (hl : ∀ e ∈ starts, e.conn ≠ d.id) (hids : d.id ∈ ids' ↔ d.id ∈ ids) : s'.Settled (log ++ starts) conns ids' d where
  fated hm := by
    obtain ⟨fate, hf, hin⟩ := h.fated hm
    refine ⟨fate, ⟨hf.state, hf.base, fun loop => (hq loop).trans (hf.waits loop), ?_, hf.gone⟩, hids.trans hin⟩
    rw [startsOf_append, startsOf_other hl, List.append_nil, hf.count]
  removed hn := ⟨(h.removed hn).state, fun loop => hq loop ▸ (h.removed hn).waits loop⟩

theorem Settled.congr (h : s.Settled log conns ids d) (hq : ∀ loop, s'.queued d.id loop = s.queued d.id loop) :
    s'.Settled log conns ids d := by
  have hs := h.frame hq (List.forall_mem_nil fun e : Start => e.conn ≠ d.id) Iff.rfl
  rwa [List.append_nil] at hs

/-- What is done for one connection keeps the fates of the others. -/
theorem Ended.touch (h : s.Ended log conns ids) (hc : c ∈ s.objects.alive) (ht : s.Touch s' c.id)
    (ho : s'.objects = s.objects.setState c.id state) (hl : ∀ e ∈ starts, e.conn = c.id)
    (hids : ∀ id, id ≠ c.id → (id ∈ ids' ↔ id ∈ ids))
    (hown : c.id ∈ ids' → c.id ∈ ids ∧ s'.connections = s.connections)
    (hf : s'.Settled (log ++ starts) conns ids' { c with state }) : s'.Ended (log ++ starts) conns ids' := by
  have hall := all_setState h.nodup hc ho
  have hid : ∀ d : Connection, (if d.id = c.id then { d with state } else d).id = d.id := fun d => by split <;> rfl
  have hkept : ∀ {d}, d ∈ s.objects.alive → ∃ d' ∈ s'.objects.alive, d'.id = d.id := by
    intro d hd
    rw [ho]
    exact ⟨_, List.mem_map_of_mem hd, hid d⟩
  constructor
  case nodup =>
    rw [hall, List.map_map, Function.comp_def]
    simp only [hid]
    exact h.nodup
  case loops =>
    rw [hall, List.forall_mem_map, ht.alike.2.2.1]
    intro d hd
    split <;> exact h.loops d hd
  case functors =>
    intro loop f hf
    by_cases hfc : f.conn = c.id
    · exact hfc ▸ hkept hc
    · have hm := mem_queued.mpr ⟨hf, rfl⟩
      rw [ht.queued _ hfc] at hm
      obtain ⟨d, hd, hdf⟩ := h.functors loop f (mem_queued.mp hm).1
      exact hdf ▸ hkept hd
  case made =>
    intro id hi
    obtain ⟨d, hd, hdi⟩ := h.made id hi
    rw [hall]
    exact ⟨_, List.mem_map_of_mem hd, (hid d).trans hdi⟩
  case listed =>
    intro id hi
    by_cases hic : id = c.id
    · subst hic
      obtain ⟨hi, hcon⟩ := hown hi
      obtain ⟨hin, hl, -⟩ := h.listed _ hi
      exact ⟨hin, hcon ▸ hl, hkept hc⟩
    · obtain ⟨hin, hl, d, hd, hdi⟩ := h.listed id ((hids id hic).mp hi)
      obtain ⟨e, he, hei⟩ := List.mem_map.mp hl
      exact ⟨hin, List.mem_map.mpr ⟨e, ht.connections e he (hei ▸ hic), hei⟩, hdi ▸ hkept hd⟩
  case settled =>
    rw [hall, List.forall_mem_map]
    intro d hd
    by_cases hdc : d.id = c.id
    · rw [if_pos hdc, eq_of_id h.nodup hd (mem_all hc) hdc]
      exact hf
    · rw [if_neg hdc]
      exact (h.settled d hd).frame (ht.queued d.id hdc) (fun e he => hl e he ▸ Ne.symm hdc) (hids d.id hdc)

theorem Ended.loop_of_queued (h : s.Ended log conns ids) (hc : c ∈ s.all) (hf : f ∈ s.queues loop)
    (hid : f.conn = c.id) :
    loop = c.loop := by
  have hm := mem_queued.mpr ⟨hf, hid⟩
  by_cases hin : c.id ∈ conns
  · obtain ⟨fate, hfate, -⟩ := (h.settled c hc).fated hin
    rw [hfate.waits] at hm
    by_contra hne
    rw [if_neg hne] at hm
    cases hm
  · exact (((h.settled c hc).removed hin).waits loop f hm).1

theorem Ended.no_removal (h : s.Ended log conns ids) (hf : f ∈ s.queues loop) :
    f = .connectEstablished f.conn ∨ f = .connectDestroyed f.conn := by
  obtain ⟨c, hc, hid⟩ := h.functors loop f hf
  have hm := mem_queued.mpr ⟨hf, hid.symm⟩
  by_cases hin : c.id ∈ conns
  · obtain ⟨fate, hfate, -⟩ := (h.settled c (mem_all hc)).fated hin
    rw [hfate.waits] at hm
    split at hm
    · exact hid ▸ Fate.mem_waits hm
    · cases hm
  · rw [← hid]
    exact .inr (((h.settled c (mem_all hc)).removed hin).waits loop f hm).2

/-! ## The body of the destructor -/

theorem destroyStarts_of_alive (hnd : (s.all.map (·.id)).Nodup) (hc : c ∈ s.objects.alive) :
    s.destroyStarts c.id = if c.loop = 0 then [⟨c.id, .connectDestroyed, 0⟩] else [] := by
  rw [destroyStarts, find_alive hnd hc, Option.elim_some]

/-- The server with the pointer of a connection reset. -/
def reset (s : TcpServer) (conn : Nat) : TcpServer := { s with connections := s.connections.filter (·.2 ≠ conn) }

theorem Touch.reset (s : TcpServer) (conn : Nat) : s.Touch (s.reset conn) conn := by
  refine ⟨by simp [Alike, TcpServer.reset], fun _ _ _ => rfl, List.filter_sublist, fun e he hne => ?_⟩
  exact List.mem_filter.mpr ⟨he, by simpa using hne⟩

theorem Ended.destroyConnection (h : s.Ended log conns (conn :: ids)) (hn : conn ∉ ids) :
    ∃ s', (s.reset conn).destroyConnection conn = .ok s' ∧ s'.Ended (log ++ s.destroyStarts conn) conns ids := by
  obtain ⟨hin, -, c, hc, rfl⟩ := h.listed conn (List.mem_cons_self ..)
  obtain ⟨fate, hf, hleft⟩ := (h.settled c (mem_all hc)).fated hin
  obtain rfl : fate = .left := hleft.mp (List.mem_cons_self ..)
  have hids : ∀ id, id ≠ c.id → (id ∈ ids ↔ id ∈ c.id :: ids) := by
    intro id hne
    rw [List.mem_cons]
    exact (or_iff_right hne).symm
  have hget : (s.reset c.id).objects.get c.id = .ok c := get_alive h.nodup hc
  rw [TcpServer.destroyConnection, hget, ok_bind, destroyStarts_of_alive h.nodup hc]
  by_cases hl : c.loop = 0
  · -- in the thread of the base loop `runInLoop` destroys the connection at once
    rw [if_pos hl, if_pos hl, TcpServer.connectDestroyed, hget]
    refine ⟨_, rfl, ?_⟩
    have hs : Connection.connectDestroyed c.state = .kDisconnected := by
      have hstate := hf.state
      have hbase := hf.base
      cases hcs : c.state <;> simp_all [Connection.connectDestroyed]
    have hw : ∀ loop, s.queued c.id loop = [] := by
      intro loop
      rw [hf.waits, Fate.waits, if_neg (fun hcs => hf.base hcs hl)]
      simp
    rw [hs]
    refine h.touch hc ((Touch.reset s c.id).setState ..) rfl (by simp) hids (fun hm => absurd hm hn)
      ⟨fun _ => ⟨.gone, ⟨by simp, by simp, fun loop => ?_, ?_, fun _ => rfl⟩, by simpa using hn⟩,
        fun hno => absurd hin hno⟩
    · exact (hw loop).trans (by simp [Fate.waits])
    · rw [startsOf_append, List.count_append, hf.count]
      simp [startsOf]
  · rw [if_neg hl, if_neg hl]
    refine ⟨_, rfl, ?_⟩
    refine h.touch hc ((Touch.reset s c.id).queueInLoop c.loop rfl) (setState_self h.nodup hc).symm (by simp)
      hids (fun hm => absurd hm hn)
      ⟨fun _ => ⟨.planned, ⟨hf.state, hf.base, fun loop => ?_, ?_, by simp⟩, by simpa using hn⟩,
        fun hno => absurd hin hno⟩
    · rw [queued_queueInLoop, show (s.reset c.id).queued c.id loop = _ from hf.waits loop]
      by_cases hloop : loop = c.loop <;> simp [hloop, Fate.waits, ServerFunctor.conn]
    · rw [List.append_nil]
      exact hf.count

theorem mem_inOrder (s : TcpServer) (id : Nat) : id ∈ s.inOrder ↔ id ∈ s.connections.map (·.2) :=
  ((List.perm_insertionSort _ _).map _).mem_iff

theorem Inv.mem_connections (h : s.Inv log) (hc : c ∈ s.all) :
    c.id ∈ s.connections.map (·.2) ↔ (c.name, c.id) ∈ s.connections := by
  refine ⟨fun hm => ?_, fun hm => List.mem_map_of_mem hm⟩
  obtain ⟨e, he, hid⟩ := List.mem_map.mp hm
  obtain ⟨d, hd, rfl⟩ := h.entries e he
  rwa [eq_of_id h.nodup (mem_all hd) hc hid] at he

theorem InStage.queued {st : Stage} (hi : s.InStage log c st) (hp : s.Plain) (loop : Nat) :
    s.queued c.id loop = st.due c loop := by
  rw [← hi.due loop, pending, eq_comm, List.filter_eq_self]
  intro f hf
  simp [(hp.functors loop f (mem_queued.mp hf).1).1]

/-- No close waits in the base loop, so that each connection is in one of its other stages. -/
theorem InStage.settled {st : Stage} (hi : s.InStage log c st) (h : s.Inv log) (hp : s.Plain)
    (hr : ∀ conn, .removeConnectionInLoop conn ∉ s.queues 0) (hc : c ∈ s.all) :
    s.Settled log (s.connections.map (·.2)) s.inOrder c := by
  have hq := hi.queued hp
  have hstate := hi.state
  have hlisted := (h.mem_connections hc).trans hi.listed
  have hclosed : st ≠ .closed := by
    rintro rfl
    have hm : ServerFunctor.removeConnectionInLoop c.id ∈ s.queued c.id 0 := by simp [hq, Stage.due, Stage.next]
    exact hr c.id (mem_queued.mp hm).1
  constructor
  case fated =>
    intro hm
    refine ⟨.left, ⟨hp.states c hc, fun hcs hl => ?_, fun loop => ?_, ?_, by simp⟩, by simp [mem_inOrder, hm]⟩
    · have he : ServerFunctor.connectEstablished c.id ∈ s.queued c.id c.loop := by
        cases st <;> simp_all [Stage.Allows, Connection.isOpen, Stage.due, Stage.next]
      exact (hp.functors c.loop _ (mem_queued.mp he).1).2 c.id rfl hl
    · have hnot := hp.states c hc
      rw [hq]
      cases st <;> by_cases hl : loop = c.loop <;>
        simp_all [Stage.due, Stage.next, Fate.waits, Stage.Allows, Stage.Listed, Connection.isOpen]
    · rw [hi.past]
      cases st <;> first | rfl | exact (hlisted.mp hm).elim
  case removed =>
    intro hm
    rw [hlisted] at hm
    refine ⟨hi.state.disconnected hm, fun loop f hf => ?_⟩
    rw [hq] at hf
    cases st with
    | removed => simpa [Stage.due, Stage.next] using hf
    | destroyed => simp [Stage.due, Stage.next] at hf
    | _ => exact absurd trivial hm

theorem Inv.ended (h : s.Inv log) (hp : s.Plain) (hr : ∀ conn, .removeConnectionInLoop conn ∉ s.queues 0) :
    s.Ended log (s.connections.map (·.2)) s.inOrder where
  nodup := h.nodup
  loops := h.loops
  functors := h.functors
  made id hid := by
    obtain ⟨e, he, rfl⟩ := List.mem_map.mp hid
    obtain ⟨c, hc, rfl⟩ := h.entries e he
    exact ⟨c, mem_all hc, rfl⟩
  listed id hid := by
    rw [mem_inOrder] at hid
    obtain ⟨e, he, rfl⟩ := List.mem_map.mp hid
    obtain ⟨c, hc, rfl⟩ := h.entries e he
    exact ⟨hid, hid, c, hc, rfl⟩
  settled c hc := by
    obtain ⟨st, hi⟩ := h.stages c hc
    exact hi.settled h hp hr hc

/-! ## The functors of the loops -/

/-- A functor is the first that its connection waits for. -/
theorem Fated.head {fate : Fate} (h : s.Fated log c fate) (hq : s.queues l = f :: fs) (hid : c.id = f.conn) :
    ∃ rest, fate.waits c = f :: rest ∧ ∀ loop, (s.dequeue l).queued c.id loop = if loop = c.loop then rest else [] := by
  have hp : ∀ loop, s.queued c.id loop = (if loop = l then [f] else []) ++ (s.dequeue l).queued c.id loop := by
    intro loop
    rw [queued_dequeue hq]
    by_cases hl : loop = l <;> simp [hl, hid]
  have hw := hp l
  rw [h.waits, if_pos rfl] at hw
  have hl : l = c.loop := by
    by_contra hne
    rw [if_neg hne] at hw
    cases hw
  rw [if_pos hl, List.singleton_append] at hw
  refine ⟨_, hw, fun loop => ?_⟩
  by_cases hloop : loop = c.loop
  · rw [if_pos hloop, hloop, hl]
  · have hother := hp loop
    rw [h.waits, if_neg hloop, if_neg (hl ▸ hloop), List.nil_append] at hother
    rw [if_neg hloop, hother]

theorem Removed.head (h : s.Removed c) (hq : s.queues l = f :: fs) (hid : c.id = f.conn) :
    f = .connectDestroyed c.id ∧ ∀ loop, ∀ g ∈ (s.dequeue l).queued c.id loop, loop = c.loop ∧
      g = .connectDestroyed c.id := by
  constructor
  · exact (h.waits l f (mem_queued.mpr ⟨hq ▸ List.mem_cons_self .., hid.symm⟩)).2
  · intro loop g hg
    apply h.waits loop g
    rw [queued_dequeue hq]
    exact List.mem_append_right _ hg

theorem Ended.connectEstablished (h : s.Ended log conns ids) (hq : s.queues l = .connectEstablished conn :: fs) :
    ∃ state, (s.dequeue l).connectEstablished conn = .ok ((s.dequeue l).setState conn state) ∧
      ((s.dequeue l).setState conn state).Ended (log ++ [⟨conn, .connectEstablished, l⟩]) conns ids := by
  obtain ⟨c, hc, hid⟩ := h.functors l _ (hq ▸ List.mem_cons_self ..)
  change c.id = conn at hid
  subst hid
  have hin : c.id ∈ conns := by
    by_contra hno
    cases (((h.settled c (mem_all hc)).removed hno).head hq rfl).1
  obtain ⟨fate, hf, hleft⟩ := (h.settled c (mem_all hc)).fated hin
  obtain ⟨rest, hw, hrest⟩ := hf.head hq rfl
  have hcs : c.state = .kConnecting := by
    by_contra hne
    rw [Fate.waits, if_neg hne] at hw
    split at hw <;> simp at hw
  rw [Fate.waits, if_pos hcs, List.singleton_append, List.cons.injEq] at hw
  refine ⟨.kConnected, ?_, ?_⟩
  · rw [TcpServer.connectEstablished, show (s.dequeue l).objects.get c.id = _ from get_alive h.nodup hc, ok_bind, hcs]
    rfl
  · refine h.touch hc ((Touch.dequeue hq).setState ..) rfl (by simp) (fun _ _ => Iff.rfl) (fun hm => ⟨hm, rfl⟩)
      ⟨fun _ => ⟨fate, ⟨by simp, by simp, fun loop => (hrest loop).trans ?_, ?_, fun hg => ?_⟩, hleft⟩,
        fun hno => absurd hin hno⟩
    · rw [← hw.2]
      simp [Fate.waits]
    · rw [startsOf_append, List.count_append, hf.count]
      simp [startsOf]
    · rw [hf.gone hg] at hcs
      cases hcs

theorem Ended.connectDestroyed (h : s.Ended log conns ids) (hq : s.queues l = .connectDestroyed conn :: fs) :
    ∃ state, (s.dequeue l).connectDestroyed conn = .ok ((s.dequeue l).setState conn state) ∧
      ((s.dequeue l).setState conn state).Ended (log ++ [⟨conn, .connectDestroyed, l⟩]) conns ids := by
  obtain ⟨c, hc, hid⟩ := h.functors l _ (hq ▸ List.mem_cons_self ..)
  change c.id = conn at hid
  subst hid
  refine ⟨Connection.connectDestroyed c.state, ?_, ?_⟩
  · rw [TcpServer.connectDestroyed, show (s.dequeue l).objects.get c.id = _ from get_alive h.nodup hc, ok_bind]
    rfl
  refine h.touch hc ((Touch.dequeue hq).setState ..) rfl (by simp) (fun _ _ => Iff.rfl) (fun hm => ⟨hm, rfl⟩)
    ⟨fun hin => ?_, fun hno => ?_⟩
  · obtain ⟨fate, hf, hleft⟩ := (h.settled c (mem_all hc)).fated hin
    obtain ⟨rest, hw, hrest⟩ := hf.head hq rfl
    have hcs : c.state ≠ .kConnecting := by
      intro hcs
      rw [Fate.waits, if_pos hcs] at hw
      cases hw
    rw [Fate.waits, if_neg hcs, List.nil_append] at hw
    obtain ⟨rfl, rfl⟩ : fate = .planned ∧ rest = [] := by
      split at hw
      · exact ⟨‹_›, (List.cons.inj hw).2.symm⟩
      · cases hw
    have hs : Connection.connectDestroyed c.state = .kDisconnected := by
      have hstate := hf.state
      cases hc' : c.state <;> simp_all [Connection.connectDestroyed]
    rw [hs]
    refine ⟨.gone, ⟨by simp, by simp, fun loop => (hrest loop).trans (by simp [Fate.waits]), ?_, fun _ => rfl⟩, ?_⟩
    · rw [startsOf_append, List.count_append, hf.count]
      simp [startsOf]
    · simpa using hleft
  · have hrem := (h.settled c (mem_all hc)).removed hno
    refine ⟨?_, (hrem.head hq rfl).2⟩
    rw [hrem.state]
    rfl

theorem Ended.runFunctor (h : s.Ended log conns ids) (loop : Nat) :
    ∃ s', s.runFunctor loop = .ok s' ∧ s'.Ended (log ++ s.starts (.runFunctor loop)) conns ids ∧
      s.Alike s' ∧ s'.queues = (s.dequeue loop).queues := by
  rw [TcpServer.runFunctor, starts]
  cases hq : s.queues loop with
  | nil =>
    refine ⟨s, rfl, ?_, (Touch.refl s 0).alike, ?_⟩
    · rw [List.head?_nil, Option.elim_none, List.append_nil]
      exact h
    · rw [dequeue, hq, List.tail_nil, ← hq, Function.update_eq_self]
  | cons f fs =>
    have hu : ({ s with queues := Function.update s.queues loop fs } : TcpServer) = s.dequeue loop := by
      rw [dequeue, hq, List.tail_cons]
    dsimp only
    rw [List.head?_cons, Option.elim_some, hu]
    rcases h.no_removal (hq ▸ List.mem_cons_self ..) with hf | hf
    · rw [hf] at hq ⊢
      obtain ⟨state, hs, hend⟩ := h.connectEstablished hq
      exact ⟨_, hs, hend, (Touch.dequeue hq).alike, rfl⟩
    · rw [hf] at hq ⊢
      obtain ⟨state, hs, hend⟩ := h.connectDestroyed hq
      exact ⟨_, hs, hend, (Touch.dequeue hq).alike, rfl⟩

theorem Ended.kept (h : s.Ended log conns ids) (kept : List Nat) :
    ({ s with kept } : TcpServer).Ended log conns ids := by
  refine ⟨h.nodup, h.loops, h.functors, h.made, h.listed, fun c hc => ?_⟩
  exact (h.settled c hc).congr fun _ => rfl

theorem Ended.down (h : s.Ended log conns ids) : ({ s with destroyed := true } : TcpServer).Ended log conns ids := by
  refine ⟨h.nodup, h.loops, h.functors, h.made, h.listed, fun c hc => ?_⟩
  exact (h.settled c hc).congr fun _ => rfl

/-- A loop that has quit drops what concerns none of the connections. -/
theorem Ended.dropQueue (h : s.Ended log conns ids) (hl : ∀ f ∈ s.queues loop, f.conn ∉ conns) :
    ({ s with queues := Function.update s.queues loop [] } : TcpServer).Ended log conns ids := by
  have hsub : ∀ {l f}, f ∈ Function.update s.queues loop [] l → f ∈ s.queues l := by
    intro l f hf
    by_cases hll : l = loop
    · subst hll
      simp at hf
    · rwa [Function.update_of_ne hll] at hf
  refine ⟨h.nodup, h.loops, fun l f hf => h.functors l f (hsub hf), h.made, h.listed,
    fun c hc => ⟨fun hin => ?_, fun hno => ?_⟩⟩
  · obtain ⟨fate, hf, hleft⟩ := (h.settled c hc).fated hin
    refine ⟨fate, ⟨hf.state, hf.base, fun l => ?_, hf.count, hf.gone⟩, hleft⟩
    rw [← hf.waits]
    by_cases hll : l = loop
    · subst hll
      have hnil : s.queued c.id l = [] := by
        rw [queued, List.filter_eq_nil_iff]
        intro f hm hid
        rw [decide_eq_true_eq] at hid
        exact hl f hm (hid ▸ hin)
      rw [hnil]
      simp [queued]
    · simp [queued, Function.update_of_ne hll]
  · have hrem := (h.settled c hc).removed hno
    refine ⟨hrem.state, fun l f hf => hrem.waits l f ?_⟩
    obtain ⟨hm, hid⟩ := mem_queued.mp hf
    exact mem_queued.mpr ⟨hsub hm, hid⟩

theorem Ended.release (h : s.Ended log conns ids) :
    ∃ objects, s.objects.release s.held = .ok objects ∧ ({ s with objects } : TcpServer).Ended log conns ids := by
  have hnd : s.objects.alive.Nodup := (List.Nodup.of_map _ h.nodup).of_append_left
  have hheld : ∀ {c loop f}, c ∈ s.all → f ∈ s.queues loop → f.conn = c.id → c.id ∈ s.held := by
    intro c loop f hc hm hid
    rw [held, List.mem_append, List.mem_append, List.mem_flatMap]
    refine .inl (.inr ⟨loop, List.mem_range.mpr (Nat.lt_succ_of_le ?_), hid ▸ List.mem_map_of_mem hm⟩)
    exact h.loop_of_queued hc hm hid ▸ h.loops c hc
  have hlisted : ∀ {id}, id ∈ ids → id ∈ s.held := fun hid =>
    List.mem_append_left _ (List.mem_append_left _ (h.listed _ hid).2.1)
  have hst : ∀ c ∈ s.objects.alive.filter (·.id ∉ s.held), c.state = .kDisconnected := by
    intro c hc
    obtain ⟨hc, hn⟩ := List.mem_filter.mp hc
    simp only [decide_eq_true_eq] at hn
    by_cases hin : c.id ∈ conns
    · obtain ⟨fate, hf, hleft⟩ := (h.settled c (mem_all hc)).fated hin
      apply hf.gone
      cases fate with
      | gone => rfl
      | left => exact absurd (hlisted (hleft.mpr rfl)) hn
      | planned =>
        have hm : ServerFunctor.connectDestroyed c.id ∈ s.queued c.id c.loop := by simp [hf.waits, Fate.waits]
        exact absurd (hheld (mem_all hc) (mem_queued.mp hm).1 rfl) hn
    · exact ((h.settled c (mem_all hc)).removed hin).state
  obtain ⟨objects, hr, hp, ha⟩ := destroyAll_ok (hnd.filter _) (fun c hc => (List.mem_filter.mp hc).1) hst
  have hstay : ∀ c ∈ s.objects.alive, c.id ∈ s.held → c ∈ objects.alive := by
    intro c hc hh
    refine ha c hc fun hm => ?_
    have hn := (List.mem_filter.mp hm).2
    simp only [decide_eq_true_eq] at hn
    exact hn hh
  refine ⟨objects, hr, ?_, fun c hc => h.loops c (hp.mem_iff.mp hc), fun loop f hf => ?_, fun id hid => ?_,
    fun id hid => ?_, fun c hc => ?_⟩
  · exact (hp.map _).nodup_iff.mpr h.nodup
  · obtain ⟨c, hc, hid⟩ := h.functors loop f hf
    exact ⟨c, hstay c hc (hheld (mem_all hc) hf hid.symm), hid⟩
  · obtain ⟨c, hc, hci⟩ := h.made id hid
    exact ⟨c, hp.mem_iff.mpr hc, hci⟩
  · obtain ⟨hin, hl, c, hc, rfl⟩ := h.listed id hid
    exact ⟨hin, hl, c, hstay c hc (hlisted hid), rfl⟩
  · exact (h.settled c (hp.mem_iff.mp hc)).congr fun _ => rfl

end TcpServer

namespace LoggedServer

theorem orderly_of_closing {w : LoggedServer} {l : TcpServer.Label} (hc : w.Closing l) (hd : l ≠ .dtor) :
    w.Orderly l := by
  cases l with
  | handleClose conn => exact fun hk => ⟨(hc hk).1, (hc hk).2.1⟩
  | accept connfd => exact hc
  | dtor => exact absurd rfl hd
  | _ => trivial

end LoggedServer

end Zhengqi
