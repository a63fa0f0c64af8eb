import Zhengqi.ServerStages

/-!
# Connections live in order

Over every run of a server that is not destroyed, in which each connection is closed at
most once and after it was established: names are distinct, `connections_` holds the
connections that have not been removed, no assertion fails, and the four steps in the life
of a connection come in order, each in its loop.
-/

namespace Zhengqi

open Run

namespace TcpServer

variable {s s' : TcpServer} {log : List Start} {c d : Connection} {conn loop l : Nat} {f : ServerFunctor}
  {fs : List ServerFunctor}

/-! ## Functors and events -/

/-- A functor in a queue is the one that takes its connection to the next stage, and the only one. -/
theorem Inv.head (h : s.Inv log) (hq : s.queues l = f :: fs) (hf : f.forced = false) :
    ∃ c ∈ s.objects.alive, ∃ st, s.InStage log c st ∧ c.id = f.conn ∧ st.next c = some (l, f) ∧
      ∀ loop, (s.dequeue l).pending c.id loop = [] := by
  obtain ⟨c, hc, hid⟩ := h.functors l f (hq ▸ List.mem_cons_self ..)
  obtain ⟨st, hi⟩ := h.stages c (mem_all hc)
  have hp : ∀ loop, st.due c loop = (if loop = l then [f] else []) ++ (s.dequeue l).pending c.id loop := by
    intro loop
    rw [← hi.due, pending, queued_dequeue hq, List.filter_append, ← pending]
    by_cases hl : loop = l <;> simp [hl, hid, hf]
  have hd := hp l
  rw [if_pos rfl] at hd
  obtain ⟨hn, hnil, hother⟩ := Stage.due_cons hd
  refine ⟨c, hc, st, hi, hid, hn, fun loop => ?_⟩
  by_cases hl : loop = l
  · rw [hl]
    exact hnil
  · have := hp loop
    rwa [if_neg hl, hother loop hl, List.nil_append, eq_comm] at this

theorem Inv.dequeue_forced (h : s.Inv log) (hq : s.queues l = f :: fs) (hf : f.forced = true) :
    (s.dequeue l).Inv log := by
  obtain ⟨c, hc, hid⟩ := h.functors l f (hq ▸ List.mem_cons_self ..)
  obtain ⟨st, hi⟩ := h.stages c (mem_all hc)
  have ht : s.Touch (s.dequeue l) c.id := hid ▸ Touch.dequeue hq
  have hi' : (s.dequeue l).InStage log c st := by
    refine ⟨hi.past, hi.state, fun loop => ?_, hi.forced.dequeue hq, hi.listed⟩
    rw [← hi.due loop, pending, pending, queued_dequeue hq, List.filter_append]
    by_cases hl : loop = l <;> simp [hl, hid, hf]
  rw [← List.append_nil log] at hi' ⊢
  exact h.touch st hc ht (setState_self h.nodup hc).symm (by simp) hi'

theorem Inv.connectEstablished (h : s.Inv log) (hq : s.queues l = .connectEstablished conn :: fs) :
    ∃ s', (s.dequeue l).connectEstablished conn = .ok s' ∧ s'.Inv (log ++ [⟨conn, .connectEstablished, l⟩]) := by
  obtain ⟨c, hc, st, hi, hid, hn, hnil⟩ := h.head hq rfl
  change c.id = conn at hid
  subst hid
  obtain ⟨rfl, rfl⟩ : st = .created ∧ l = c.loop := by
    cases st <;> simp [Stage.next] at hn
    exact ⟨rfl, hn.symm⟩
  refine ⟨(s.dequeue c.loop).setState c.id .kConnected, ?_, ?_⟩
  · rw [TcpServer.connectEstablished, show (s.dequeue c.loop).objects.get c.id = _ from get_alive h.nodup hc, ok_bind,
      show c.state = .kConnecting from hi.state]
    rfl
  · refine h.touch .established hc ((Touch.dequeue hq).setState ..) rfl (by simp) ?_
    refine ⟨?_, rfl, hnil, hi.forced.dequeue hq, hi.listed⟩
    rw [startsOf_append, hi.past]
    simp [startsOf, Stage.past]

theorem Inv.connectDestroyed (h : s.Inv log) (hq : s.queues l = .connectDestroyed conn :: fs) :
    ∃ s', (s.dequeue l).connectDestroyed conn = .ok s' ∧ s'.Inv (log ++ [⟨conn, .connectDestroyed, l⟩]) := by
  obtain ⟨c, hc, st, hi, hid, hn, hnil⟩ := h.head hq rfl
  change c.id = conn at hid
  subst hid
  obtain ⟨rfl, rfl⟩ : st = .removed ∧ l = c.loop := by
    cases st <;> simp [Stage.next] at hn
    exact ⟨rfl, hn.symm⟩
  refine ⟨(s.dequeue c.loop).setState c.id .kDisconnected, ?_, ?_⟩
  · rw [TcpServer.connectDestroyed, show (s.dequeue c.loop).objects.get c.id = _ from get_alive h.nodup hc, ok_bind,
      show c.state = .kDisconnected from hi.state]
    rfl
  · refine h.touch .destroyed hc ((Touch.dequeue hq).setState ..) rfl (by simp) ?_
    refine ⟨?_, rfl, hnil, hi.forced.dequeue hq, hi.listed⟩
    rw [startsOf_append, hi.past]
    simp [startsOf, Stage.past, lifeCycle]

/-- What `removeConnectionInLoop` leaves. -/
def erase (s : TcpServer) (c : Connection) : TcpServer :=
  { s with connections := s.connections.filter (·.1 ≠ c.name) }.queueInLoop c.loop (.connectDestroyed c.id)

theorem Inv.count_name (h : s.Inv log) (hl : (c.name, c.id) ∈ s.connections) :
    (s.connections.filter (·.1 = c.name)).length = 1 := by
  have hone := List.count_eq_one_of_mem h.keys (List.mem_map_of_mem hl)
  rw [List.count, List.countP_map] at hone
  rw [← List.countP_eq_length_filter, ← hone]
  apply List.countP_congr
  simp

theorem removeConnectionInLoop_ok (hup : s.destroyed = false) (hg : s.objects.get conn = .ok c) (hid : c.id = conn)
    (hn : (s.connections.filter (·.1 = c.name)).length = 1) : s.removeConnectionInLoop conn = .ok (s.erase c) := by
  rw [TcpServer.removeConnectionInLoop, hg, ← hid, erase]
  simp [check, hn, hup]

/-- No other connection has the name. -/
theorem Inv.touch_erase (h : s.Inv log) (hc : c ∈ s.all) (ht : s.Touch s' c.id) (hu : s'.connections = s.connections)
    (hid : d.id = c.id) (hname : d.name = c.name) : s.Touch (s'.erase d) c.id := by
  have he : s.Touch { s' with connections := s'.connections.filter (·.1 ≠ d.name) } c.id := by
    refine ⟨ht.alike, ht.queued, ?_, fun e he hne => ?_⟩
    · rw [← hu]
      exact List.filter_sublist
    · rw [hu, List.mem_filter, hname]
      refine ⟨he, ?_⟩
      obtain ⟨x, hx, rfl⟩ := h.entries e he
      simp only [ne_eq, decide_eq_true_eq]
      exact fun hn => hne (congrArg Connection.id (h.eq_of_name (mem_all hx) hc hn))
  exact he.queueInLoop _ hid

theorem inStage_erase (hp : startsOf log c.id = Stage.removed.past) (hs : c.state = .kDisconnected)
    (hnil : ∀ loop, s.pending c.id loop = []) (hf : s.Forced c) : (s.erase c).InStage log c .removed := by
  refine ⟨hp, hs, fun loop => ?_, ?_, ?_⟩
  · refine (pending_queueInLoop (f := .connectDestroyed c.id) rfl rfl loop).trans ?_
    exact congrArg (· ++ _) (hnil loop)
  · exact Forced.queueInLoop (s := { s with connections := _ }) hf (by simp [ServerFunctor.forced])
  · simp [erase, TcpServer.queueInLoop, Stage.Listed]

theorem Inv.removeConnectionInLoop (h : s.Inv log) (hq : s.queues l = .removeConnectionInLoop conn :: fs) :
    ∃ s', (s.dequeue l).removeConnectionInLoop conn = .ok s' ∧
      s'.Inv (log ++ [⟨conn, .removeConnectionInLoop, l⟩]) := by
  obtain ⟨c, hc, st, hi, hid, hn, hnil⟩ := h.head hq rfl
  change c.id = conn at hid
  subst hid
  obtain ⟨rfl, rfl⟩ : st = .closed ∧ l = 0 := by
    cases st <;> simp [Stage.next] at hn
    exact ⟨rfl, hn.symm⟩
  have ht : s.Touch ((s.dequeue 0).erase c) c.id := h.touch_erase (mem_all hc) (Touch.dequeue hq) rfl rfl rfl
  refine ⟨(s.dequeue 0).erase c, ?_, ?_⟩
  · exact removeConnectionInLoop_ok h.up (get_alive h.nodup hc) rfl (h.count_name (hi.listed.mpr trivial))
  · refine h.touch .removed hc ht (setState_self h.nodup hc).symm (by simp)
      (inStage_erase ?_ hi.state hnil (hi.forced.dequeue hq))
    rw [startsOf_append, hi.past]
    simp [startsOf, Stage.past]

theorem find_setState (t : Connections) (conn id : Nat) (state : StateE) :
    (t.setState conn state).alive.find? (·.id = id) =
      (t.alive.find? (·.id = id)).map fun d => if d.id = conn then { d with state } else d := by
  have hp : ((fun d : Connection => decide (d.id = id)) ∘ fun d => if d.id = conn then { d with state } else d) =
      fun d => decide (d.id = id) := by
    funext d
    simp only [Function.comp]
    split <;> rfl
  rw [Connections.setState, List.find?_map, hp]

theorem get_setState {t : Connections} (hg : t.get conn = .ok c) (state : StateE) :
    (t.setState conn state).get conn = .ok { c with state } := by
  unfold Connections.get at hg ⊢
  rw [find_setState]
  cases hf : t.alive.find? (·.id = conn) with
  | none =>
    rw [hf] at hg
    cases hg
  | some d =>
    rw [hf] at hg
    cases hg
    have hid : c.id = conn := by simpa using List.find?_some hf
    rw [Option.map_some, if_pos hid]

theorem Inv.handleClose (h : s.Inv log) (hc : c ∈ s.objects.alive) (hi : s.InStage log c .established) :
    ∃ s', s.handleClose c.id = .ok s' ∧ s'.Inv (log ++ closeStarts c c.loop) := by
  have hclose : Connection.handleClose c.state = .ok .kDisconnected := by
    rw [Connection.handleClose, show Connection.isOpen c.state = true from hi.state]
    rfl
  rw [TcpServer.handleClose, get_alive h.nodup hc, ok_bind, hclose, ok_bind, removeConnection,
    show (s.setState _ _).destroyed = _ from h.up]
  have ht := (Touch.refl s c.id).setState c.id .kDisconnected
  by_cases hl : c.loop = 0
  · -- in the thread of the base loop the connection is removed at once
    refine ⟨(s.setState c.id .kDisconnected).erase { c with state := .kDisconnected }, ?_, ?_⟩
    · rw [if_pos hl]
      exact removeConnectionInLoop_ok h.up (get_setState (get_alive h.nodup hc) _) rfl
        (h.count_name (hi.listed.mpr trivial))
    · refine h.touch .removed hc (h.touch_erase (mem_all hc) ht rfl rfl rfl) rfl ?_
        (inStage_erase ?_ rfl hi.due hi.forced)
      · simp [closeStarts, hl]
      · rw [startsOf_append, hi.past]
        simp [startsOf, closeStarts, hl, Stage.past]
  · refine ⟨(s.setState c.id .kDisconnected).queueInLoop 0 (.removeConnectionInLoop c.id), ?_, ?_⟩
    · rw [if_neg hl]
      rfl
    · refine h.touch .closed hc (ht.queueInLoop 0 rfl) rfl ?_ ⟨?_, rfl, fun loop => ?_, ?_, hi.listed⟩
      · simp [closeStarts, hl]
      · rw [startsOf_append, hi.past]
        simp [startsOf, closeStarts, hl, Stage.past]
      · refine (pending_queueInLoop (f := .removeConnectionInLoop c.id) rfl rfl loop).trans ?_
        exact congrArg (· ++ _) (hi.due loop)
      · exact Forced.queueInLoop (s := s.setState c.id _) hi.forced (by simp [ServerFunctor.forced])

theorem Inv.forceCloseInLoop (h : s.Inv log) (hq : s.queues l = .forceCloseInLoop conn :: fs) :
    ∃ s', (s.dequeue l).forceCloseInLoop conn = .ok s' ∧
      s'.Inv (log ++ s.functorStarts l (.forceCloseInLoop conn)) := by
  have hd := h.dequeue_forced hq rfl
  obtain ⟨c, hc, hid⟩ := h.functors l _ (hq ▸ List.mem_cons_self ..)
  obtain ⟨st, hi⟩ := h.stages c (mem_all hc)
  change c.id = conn at hid
  subst hid
  have hl : l = c.loop := hi.forced l (mem_queued.mpr ⟨hq ▸ List.mem_cons_self .., rfl⟩)
  rw [TcpServer.forceCloseInLoop, get_alive hd.nodup hc, ok_bind, functorStarts,
    find_alive h.nodup hc, Option.elim_some]
  by_cases ho : Connection.isOpen c.state = true
  · obtain ⟨st', hi'⟩ := hd.stages c (mem_all hc)
    rw [if_pos ho, if_pos ho, hl]
    rw [hl] at hd hi'
    exact hd.handleClose hc (hi'.state.established ho ▸ hi')
  · rw [if_neg ho, if_neg ho, List.append_nil]
    exact ⟨_, rfl, hd⟩

theorem Inv.runFunctor (h : s.Inv log) (loop : Nat) :
    ∃ s', s.runFunctor loop = .ok s' ∧ s'.Inv (log ++ s.starts (.runFunctor loop)) := by
  rw [TcpServer.runFunctor, starts]
  cases hq : s.queues loop with
  | nil =>
    refine ⟨s, rfl, ?_⟩
    rw [List.head?_nil, Option.elim_none, List.append_nil]
    exact h
  | cons f fs =>
    have hu : ({ s with queues := Function.update s.queues loop fs } : TcpServer) = s.dequeue loop := by
      rw [dequeue, hq, List.tail_cons]
    dsimp only
    rw [List.head?_cons, Option.elim_some, hu]
    cases f with
    | connectEstablished conn => exact h.connectEstablished hq
    | removeConnectionInLoop conn => exact h.removeConnectionInLoop hq
    | connectDestroyed conn => exact h.connectDestroyed hq
    | forceCloseInLoop conn => exact h.forceCloseInLoop hq

theorem Inv.forceClose (h : s.Inv log) (hc : c ∈ s.objects.alive) : ∃ s', s.forceClose c.id = .ok s' ∧ s'.Inv log := by
  obtain ⟨st, hi⟩ := h.stages c (mem_all hc)
  rw [TcpServer.forceClose, get_alive h.nodup hc, ok_bind]
  by_cases ho : Connection.isOpen c.state = true
  · rw [if_pos ho]
    have hst := hi.state.established ho
    subst hst
    have ht := (Touch.refl s c.id).setState c.id .kDisconnecting
    refine ⟨_, rfl, ?_⟩
    rw [← List.append_nil log] at hi ⊢
    refine h.touch .established hc (ht.queueInLoop c.loop rfl) rfl (by simp)
      ⟨hi.past, rfl, fun loop => ?_, ?_, hi.listed⟩
    · exact (pending_queueInLoop_forced rfl c.id loop).trans (hi.due loop)
    · exact Forced.queueInLoop (s := s.setState c.id _) hi.forced fun _ => rfl
  · rw [if_neg ho]
    exact ⟨s, rfl, h⟩

theorem Inv.shutdown (h : s.Inv log) (hc : c ∈ s.objects.alive) : ∃ s', s.shutdown c.id = .ok s' ∧ s'.Inv log := by
  obtain ⟨st, hi⟩ := h.stages c (mem_all hc)
  rw [TcpServer.shutdown, get_alive h.nodup hc, ok_bind]
  refine ⟨_, rfl, ?_⟩
  rw [← List.append_nil log] at hi ⊢
  refine h.touch st hc ((Touch.refl s c.id).setState ..) rfl (by simp) ?_
  exact ⟨hi.past, hi.state.shutdown, hi.due, hi.forced, hi.listed⟩

/-! ## What the pointers hold -/

theorem Inv.kept (h : s.Inv log) (kept : List Nat) : ({ s with kept } : TcpServer).Inv log :=
  h.settle (List.Perm.refl _) fun _ hc _ => hc

theorem destroyAll_ok : ∀ {cs : List Connection} {t : Connections}, cs.Nodup → (∀ c ∈ cs, c ∈ t.alive) →
    (∀ c ∈ cs, c.state = .kDisconnected) →
    ∃ t', cs.foldlM Connections.destroy t = .ok t' ∧ (t'.alive ++ t'.destroyed).Perm (t.alive ++ t.destroyed) ∧
      ∀ c ∈ t.alive, c ∉ cs → c ∈ t'.alive
  | [], t, _, _, _ => ⟨t, rfl, List.Perm.refl _, fun _ hc _ => hc⟩
  | c :: cs, t, hnd, hcs, hst => by
    obtain ⟨hc, hnd⟩ := List.nodup_cons.mp hnd
    have hd : t.destroy c = .ok { t with alive := t.alive.erase c, destroyed := t.destroyed ++ [c] } := by
      rw [Connections.destroy, hst c (List.mem_cons_self ..)]
      rfl
    have hstay : ∀ x ∈ t.alive, x ≠ c → x ∈ t.alive.erase c := fun x hx hne => (List.mem_erase_of_ne hne).mpr hx
    obtain ⟨t', ht', hp, ha⟩ := destroyAll_ok
      (t := { t with alive := t.alive.erase c, destroyed := t.destroyed ++ [c] }) hnd
      (fun x hx => hstay x (hcs x (List.mem_cons_of_mem _ hx)) fun he => hc (he ▸ hx))
      (fun x hx => hst x (List.mem_cons_of_mem _ hx))
    refine ⟨t', ?_, hp.trans (Connections.destroy_perm (hcs c (List.mem_cons_self ..))), fun x hx hxs => ?_⟩
    · rw [List.foldlM_cons, hd]
      exact ht'
    · rw [List.mem_cons, not_or] at hxs
      exact ha x (hstay x hx hxs.1) hxs.2

theorem Inv.held_of_queued (h : s.Inv log) (hf : f ∈ s.queues loop) : f.conn ∈ s.held := by
  have hl : loop ≤ s.numThreads := by
    obtain ⟨c, hc, hid⟩ := h.functors loop f hf
    obtain ⟨st, hi⟩ := h.stages c (mem_all hc)
    have hloop := h.loops c (mem_all hc)
    have hq : f ∈ s.queued c.id loop := mem_queued.mpr ⟨hf, hid.symm⟩
    cases hforced : f.forced with
    | true =>
      rw [ServerFunctor.eq_of_forced hforced, ← hid] at hq
      rw [hi.forced loop hq]
      exact hloop
    | false =>
      have hp : f ∈ s.pending c.id loop := List.mem_filter.mpr ⟨hq, by simp [hforced]⟩
      rw [hi.due, Stage.due] at hp
      split at hp
      · split at hp
        · rename_i l f' hn he
          cases st <;> simp [Stage.next] at hn <;> omega
        · cases hp
      · cases hp
  rw [held, List.mem_append, List.mem_append, List.mem_flatMap]
  refine .inl (.inr ⟨loop, List.mem_range.mpr (Nat.lt_succ_of_le hl), List.mem_map_of_mem hf⟩)

theorem Inv.release (h : s.Inv log) : ∃ objects, s.objects.release s.held = .ok objects ∧
    (objects.alive ++ objects.destroyed).Perm s.all ∧ ({ s with objects } : TcpServer).Inv log := by
  have hnd : s.objects.alive.Nodup := (List.Nodup.of_map _ h.nodup).of_append_left
  have hst : ∀ c ∈ s.objects.alive.filter (·.id ∉ s.held), c.state = .kDisconnected := by
    intro c hc
    obtain ⟨hc, hn⟩ := List.mem_filter.mp hc
    obtain ⟨st, hi⟩ := h.stages c (mem_all hc)
    refine hi.state.disconnected fun hl => ?_
    have hm := List.mem_map_of_mem (f := Prod.snd) (hi.listed.mpr hl)
    simp only [decide_eq_true_eq] at hn
    exact hn (List.mem_append_left _ (List.mem_append_left _ hm))
  obtain ⟨objects, hr, hp, ha⟩ := destroyAll_ok (hnd.filter _) (fun c hc => (List.mem_filter.mp hc).1) hst
  refine ⟨objects, hr, hp, h.settle hp fun c hc hheld => ha c hc fun hm => ?_⟩
  have hn := (List.mem_filter.mp hm).2
  simp only [decide_eq_true_eq] at hn
  apply hn
  rcases hheld with hl | ⟨loop, f, hf, hfc⟩
  · exact List.mem_append_left _ (List.mem_append_left _ (List.mem_map_of_mem (f := Prod.snd) hl))
  · exact hfc ▸ h.held_of_queued hf

/-! ## New connections -/

theorem Inv.getNextLoop (h : s.Inv log) : s.getNextLoop.1 ≤ s.numThreads ∧
    ∃ next, s.getNextLoop.2 = { s with next } ∧ (s.numThreads = 0 ∨ next < s.numThreads) := by
  unfold TcpServer.getNextLoop
  by_cases hn : s.numThreads = 0
  · rw [if_pos hn]
    exact ⟨Nat.zero_le _, s.next, rfl, .inl hn⟩
  · rw [if_neg hn]
    have hlt := h.pool.resolve_left hn
    refine ⟨hlt, _, rfl, .inr ?_⟩
    split <;> omega

theorem setState_last {cs : List Connection} (ha : s.objects.alive = cs ++ [c]) (hne : ∀ d ∈ cs, d.id ≠ c.id)
    (state : StateE) : (s.setState c.id state).objects.alive = cs ++ [{ c with state }] := by
  change s.objects.alive.map _ = _
  rw [ha, List.map_append]
  congr 1
  · exact (List.map_congr_left fun d hd => if_neg (hne d hd)).trans (List.map_id _)
  · simp

theorem connectEstablished_last {cs : List Connection} (ha : s.objects.alive = cs ++ [c]) (hne : ∀ d ∈ cs, d.id ≠ c.id)
    (hs : c.state = .kConnecting) : s.connectEstablished c.id = .ok (s.setState c.id .kConnected) := by
  have hf : cs.find? (·.id = c.id) = none := by simpa using hne
  have hg : s.objects.get c.id = .ok c := by simp [Connections.get, ha, List.find?_append, hf]
  rw [TcpServer.connectEstablished, hg, ok_bind, hs]
  rfl

theorem Inv.newConnection (h : s.Inv log) (hb : s.nextConnId < 2 ^ 31) (sockfd : Nat) :
    ∃ s', s.newConnection sockfd = .ok s' ∧ s'.Inv (log ++ if s.getNextLoop.1 = 0 then
      [⟨(s.objects.create s.connName sockfd 0).1, .connectEstablished, 0⟩] else []) := by
  obtain ⟨hle, next, hnext, hpool⟩ := h.getNextLoop
  have hlen : s.objects.alive.length + s.objects.destroyed.length = s.all.length := List.length_append.symm
  have hne : ∀ d ∈ s.all, d.id ≠ s.all.length := fun d hd => Nat.ne_of_lt (h.ids d hd)
  obtain ⟨hqueued, hstarts⟩ := h.unused hne
  have hfilter : s.connections.filter (·.1 ≠ s.connName) = s.connections := by
    rw [List.filter_eq_self]
    intro e he
    obtain ⟨d, hd, rfl⟩ := h.entries e he
    simpa using h.name_fresh hb d (mem_all hd)
  have hfresh : ∀ d ∈ s.all, d.id ≠ s.all.length ∧ d.name ≠ s.connName := fun d hd => ⟨hne d hd, h.name_fresh hb d hd⟩
  unfold TcpServer.newConnection
  simp only [Connections.create, hnext, hfilter, hlen]
  generalize s.getNextLoop.1 = ioLoop at hle
  by_cases h0 : ioLoop = 0
  · -- in its own loop `runInLoop` establishes the connection at once
    rw [if_pos h0, if_pos h0]
    have ha : ∀ d ∈ s.objects.alive, d.id ≠ s.all.length := fun d hd => hne d (mem_all hd)
    refine ⟨_, connectEstablished_last (c := ⟨s.all.length, _, _, _, _⟩) rfl ha rfl, ?_⟩
    refine h.create .established ?_ hfresh (setState_last rfl ha _) rfl rfl (fun _ _ _ => rfl) ?_ ⟨?_, rfl, ?_, ?_, ?_⟩
    · exact h.cons hb ⟨rfl, rfl, rfl, rfl, rfl⟩ hpool (setState_last rfl ha _) rfl rfl rfl hle
    · simp [h0]
    · rw [startsOf_append]
      simp only [hstarts]
      simp [startsOf, Stage.past]
    · exact fun loop => congrArg (List.filter _) (hqueued loop)
    · exact fun loop hm => absurd (hqueued loop ▸ hm) (by simp)
    · simp [TcpServer.setState, Stage.Listed]
  · rw [if_neg h0, if_neg h0]
    refine ⟨_, rfl, h.create .created ?_ hfresh rfl rfl rfl ?_ (by simp) ⟨?_, rfl, ?_, ?_, ?_⟩⟩
    · exact h.cons hb ⟨rfl, rfl, rfl, rfl, rfl⟩ hpool rfl rfl rfl rfl hle
    · intro d hd loop
      rw [queued_queueInLoop, if_neg (fun hc => hd hc.2.symm), List.append_nil]
      rfl
    · rw [List.append_nil]
      exact hstarts
    · intro loop
      refine (pending_queueInLoop (f := .connectEstablished s.all.length) rfl rfl loop).trans ?_
      exact congrArg (· ++ _) (congrArg (List.filter _) (hqueued loop))
    · refine Forced.queueInLoop (fun loop hm => ?_) (by simp [ServerFunctor.forced])
      exact absurd (hqueued loop ▸ hm) (by simp)
    · simp [TcpServer.queueInLoop, Stage.Listed]

end TcpServer

/-! ## Runs -/

namespace LoggedServer

open TcpServer

variable {w : LoggedServer} {l : TcpServer.Label} {conn : Nat}

theorem knows_iff {s : TcpServer} : s.knows conn = true ↔ ∃ c ∈ s.objects.alive, c.id = conn := by
  simp [TcpServer.knows]

/-- What is called on a living object keeps the invariant, and a call on no object does nothing. -/
theorem ite_knows {s : TcpServer} {log log' : List Start} {x : Except Fault TcpServer} (h : s.Inv log)
    (hx : ∀ c ∈ s.objects.alive, c.id = conn → ∃ s', x = .ok s' ∧ s'.Inv log')
    (hn : s.knows conn = false → log' = log) :
    ∃ s', (if s.knows conn then x else pure s) = .ok s' ∧ s'.Inv log' := by
  cases hk : s.knows conn with
  | true =>
    obtain ⟨c, hc, hid⟩ := knows_iff.mp hk
    exact hx c hc hid
  | false =>
    rw [hn hk]
    exact ⟨s, rfl, h⟩

theorem inv_act (h : w.server.Inv w.log) (ho : w.Orderly l) :
    ∃ s', w.server.act l = .ok s' ∧ s'.Inv (w.log ++ w.server.starts l) := by
  cases l with
  | accept connfd =>
    rw [act, starts]
    by_cases hc : w.server.destroyed = false ∧ connfd ∉ w.server.objects.descriptors
    · rw [if_pos hc]
      simp only [eq_true hc, true_and]
      exact h.newConnection ho connfd
    · rw [if_neg hc, if_neg fun hn => hc hn.1, List.append_nil]
      exact ⟨_, rfl, h⟩
  | runFunctor loop => exact h.runFunctor loop
  | handleClose conn =>
    rw [act, starts]
    refine ite_knows h (fun c hc hid => ?_) fun hk => ?_
    · subst hid
      obtain ⟨st, hi⟩ := h.stages c (mem_all hc)
      obtain ⟨he, hn⟩ := ho (knows_iff.mpr ⟨c, hc, rfl⟩)
      rw [hi.past] at he hn
      have hst : st = .established := by
        cases st <;> simp [Stage.past, lifeCycle] at he hn ⊢
      rw [find_alive h.nodup hc]
      exact h.handleClose hc (hst ▸ hi)
    · have hf : w.server.objects.alive.find? (·.id = conn) = none := by simpa [knows] using hk
      rw [hf, Option.elim_none, List.append_nil]
  | acceptFails =>
    rw [show w.server.starts .acceptFails = [] from rfl, List.append_nil]
    exact ⟨_, rfl, h⟩
  | shutdown conn =>
    rw [show w.server.starts (.shutdown conn) = [] from rfl, List.append_nil]
    exact ite_knows h (fun c hc hid => hid ▸ h.shutdown hc) fun _ => rfl
  | forceClose conn =>
    rw [show w.server.starts (.forceClose conn) = [] from rfl, List.append_nil]
    exact ite_knows h (fun c hc hid => hid ▸ h.forceClose hc) fun _ => rfl
  | keep conn =>
    rw [show w.server.starts (.keep conn) = [] from rfl, List.append_nil]
    exact ite_knows h (fun _ _ _ => ⟨_, rfl, h.kept _⟩) fun _ => rfl
  | drop conn =>
    rw [show w.server.starts (.drop conn) = [] from rfl, List.append_nil]
    exact ⟨_, rfl, h.kept _⟩
  | dtor => exact ho.elim

theorem step_of_act {s : TcpServer} {objects : Connections} (hs : w.server.act l = .ok s)
    (hr : s.objects.release s.held = .ok objects) :
    w.step l = .ok ⟨{ s with objects }, w.log ++ w.server.starts l⟩ := by
  rw [step, TcpServer.step, hs, ok_bind, hr]
  rfl

theorem inv_step (h : w.server.Inv w.log) (ho : w.Orderly l) : ∃ w', w.step l = .ok w' ∧ w'.server.Inv w'.log := by
  obtain ⟨s, hs, h⟩ := inv_act h ho
  obtain ⟨objects, hr, -, h⟩ := h.release
  exact ⟨_, step_of_act hs hr, h⟩

theorem inv_start {name ipPort : Bytes} (numThreads : Nat) (hip : ipPort.length ≤ 47) :
    ({ name, ipPort, numThreads } : TcpServer).Inv [] := by
  have hn : ({ name, ipPort, numThreads } : TcpServer).Numbered := by
    constructor
    case pool => exact Nat.eq_zero_or_pos numThreads
    case short => exact hip
    case count => rfl
    all_goals simp [all]
  exact ⟨hn, by simp, by simp, by simp, by simp [all], by simp⟩

/-- Whatever connections are made and closed, no assertion fails, `connections_` holds those
not removed yet, and each goes through its life in order, in its own loop. -/
theorem connections_live_in_order (name ipPort : Bytes) (numThreads : Nat) (hip : ipPort.length ≤ 47)
    (ls : List TcpServer.Label) (hm : Meets step Orderly { server := { name, ipPort, numThreads } } ls) :
    ∃ w, run step { server := { name, ipPort, numThreads } } ls = .ok w ∧
      (w.server.all.map (·.name)).Nodup ∧
      (∀ connName conn, (connName, conn) ∈ w.server.connections ↔
        (∃ c ∈ w.server.all, c.name = connName ∧ c.id = conn) ∧ .removeConnectionInLoop ∉ startsOf w.log conn) ∧
      (∀ conn, startsOf w.log conn <+: lifeCycle) ∧
      ∀ e ∈ w.log, ∃ c ∈ w.server.all, c.id = e.conn ∧
        e.loop = if e.step = .removeConnectionInLoop then 0 else c.loop := by
  obtain ⟨w, hr, h⟩ := hm.total (I := fun w => w.server.Inv w.log) (fun _ _ => inv_step) (inv_start numThreads hip)
  refine ⟨w, hr, ?_, fun connName conn => ?_, fun conn => ?_, h.logged⟩
  · refine (List.Nodup.of_map _ h.nodup).map_on fun c hc d hd => h.eq_of_name hc hd
  · constructor
    · intro he
      obtain ⟨c, hc, he'⟩ := h.entries _ he
      cases he'
      obtain ⟨st, hi⟩ := h.stages c (mem_all hc)
      refine ⟨⟨c, mem_all hc, rfl, rfl⟩, ?_⟩
      rw [hi.past, ← Stage.listed_iff, ← hi.listed]
      exact he
    · rintro ⟨⟨c, hc, rfl, rfl⟩, hn⟩
      obtain ⟨st, hi⟩ := h.stages c hc
      rw [hi.past, ← Stage.listed_iff, ← hi.listed] at hn
      exact hn
  · by_cases hc : ∃ c ∈ w.server.all, c.id = conn
    · obtain ⟨c, hc, rfl⟩ := hc
      obtain ⟨st, hi⟩ := h.stages c hc
      rw [hi.past]
      exact st.past_isPrefix
    · rw [(h.unused fun d hd he => hc ⟨d, hd, he⟩).2]
      exact List.nil_prefix

/-- A connection of the pool's only thread, through the whole of its life. -/
theorem connections_live_in_order_once :
    Meets step Orderly { server := { name := ascii "s", ipPort := ascii "0.0.0.0:80", numThreads := 1 } }
      [.accept 7, .runFunctor 1, .handleClose 0, .runFunctor 0, .runFunctor 1] ∧
    ∃ w, run step { server := { name := ascii "s", ipPort := ascii "0.0.0.0:80", numThreads := 1 } }
        [.accept 7, .runFunctor 1, .handleClose 0, .runFunctor 0, .runFunctor 1] = .ok w ∧
      startsOf w.log 0 = lifeCycle ∧ (w.server.all.map (·.name)).Nodup := by
  have hm : Meets step Orderly { server := { name := ascii "s", ipPort := ascii "0.0.0.0:80", numThreads := 1 } }
      [.accept 7, .runFunctor 1, .handleClose 0, .runFunctor 0, .runFunctor 1] := by
    decide +kernel
  have hl : (run step { server := { name := ascii "s", ipPort := ascii "0.0.0.0:80", numThreads := 1 } }
      [.accept 7, .runFunctor 1, .handleClose 0, .runFunctor 0, .runFunctor 1]).map (fun w => startsOf w.log 0) =
      .ok lifeCycle := by
    decide +kernel
  obtain ⟨w, hr, hnames, -⟩ := connections_live_in_order _ _ _ (by decide) _ hm
  rw [hr] at hl
  exact ⟨hm, w, hr, Except.ok.inj hl, hnames⟩

end LoggedServer

end Zhengqi
