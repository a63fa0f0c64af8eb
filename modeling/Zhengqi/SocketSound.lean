import Zhengqi.TcpServer
import Zhengqi.TcpClient
import Mathlib.Data.List.Nodup

/-!
# Who closes the descriptors

The destructor of a `Socket` closes nothing, so a descriptor outlives the
`TcpConnection` it was handed to. `open_descriptors_iff_none_destroyed`: over every
run of a server or of a client, the open descriptors are those of the living
connections exactly as long as no connection has been destroyed.
-/

namespace Zhengqi

open Run

namespace Connections

variable {t t' : Connections}

/-- The open descriptors are those of the objects still alive. -/
def Exact (t : Connections) : Prop := ∀ fd, fd ∈ t.descriptors ↔ ∃ c ∈ t.alive, c.sockfd = fd

/-- Every object was given a descriptor of its own, and it is still open. -/
structure Leaked (t : Connections) : Prop where
  nodup : ((t.alive ++ t.destroyed).map (·.sockfd)).Nodup
  descriptors : ∀ fd, fd ∈ t.descriptors ↔ fd ∈ (t.alive ++ t.destroyed).map (·.sockfd)

theorem Leaked.exact_iff (h : t.Leaked) : t.Exact ↔ t.destroyed = [] := by
  constructor
  · intro he
    rw [List.eq_nil_iff_forall_not_mem]
    intro c hc
    have hd : c.sockfd ∈ t.descriptors := by
      rw [h.descriptors]
      exact List.mem_map_of_mem (List.mem_append_right _ hc)
    obtain ⟨c', hc', hfd⟩ := (he c.sockfd).mp hd
    -- no other object has this descriptor
    have hnd := h.nodup
    rw [List.map_append] at hnd
    exact List.disjoint_of_nodup_append hnd (List.mem_map_of_mem hc') (hfd ▸ List.mem_map_of_mem hc)
  · intro hd fd
    rw [h.descriptors, hd, List.append_nil, List.mem_map]

theorem Leaked.of_perm {l : List Connection} (h : t.Leaked) (hp : (t'.alive ++ t'.destroyed).Perm l)
    (hl : l.map (·.sockfd) = (t.alive ++ t.destroyed).map (·.sockfd)) (hd : t'.descriptors = t.descriptors) :
    t'.Leaked := by
  have hmap := hp.map (·.sockfd)
  rw [hl] at hmap
  refine ⟨hmap.nodup_iff.mpr h.nodup, fun fd => ?_⟩
  rw [hd, h.descriptors, hmap.mem_iff]

theorem Leaked.create (h : t.Leaked) {sockfd : Nat} (hf : sockfd ∉ t.descriptors) (name : Bytes) (loop : Nat) :
    (t.create name sockfd loop).2.Leaked := by
  generalize hc : Connection.mk (t.alive.length + t.destroyed.length) name sockfd loop .kConnecting = c
  have hperm : ((t.alive ++ [c]) ++ t.destroyed).Perm (c :: (t.alive ++ t.destroyed)) := by
    rw [List.append_assoc]
    exact List.perm_middle
  have hmap := hperm.map (·.sockfd)
  have hfd : c.sockfd = sockfd := by rw [← hc]
  simp only [List.map_cons, hfd] at hmap
  constructor
  · simp only [Connections.create, hc]
    rw [hmap.nodup_iff, List.nodup_cons, ← h.descriptors]
    exact ⟨hf, h.nodup⟩
  · intro fd
    simp only [Connections.create, hc]
    rw [hmap.mem_iff, List.mem_cons, List.mem_cons, h.descriptors]

theorem Leaked.setState (h : t.Leaked) (id : Nat) (state : StateE) : (t.setState id state).Leaked := by
  refine h.of_perm (List.Perm.refl _) ?_ rfl
  simp only [Connections.setState, List.map_append, List.map_map]
  congr 1
  apply List.map_congr_left
  intro c _
  simp only [Function.comp]
  split <;> rfl

theorem destroy_perm {c : Connection} (hc : c ∈ t.alive) :
    (t.alive.erase c ++ (t.destroyed ++ [c])).Perm (t.alive ++ t.destroyed) := by
  have h₁ : (t.alive.erase c ++ (t.destroyed ++ [c])).Perm (c :: (t.alive.erase c ++ t.destroyed)) := by
    rw [← List.append_assoc]
    exact List.perm_append_singleton ..
  exact h₁.trans ((List.perm_cons_erase hc).symm.append_right t.destroyed)

theorem Leaked.destroy (h : t.Leaked) {c : Connection} (hc : c ∈ t.alive) (ht : t.destroy c = .ok t') :
    t'.Leaked ∧ t'.alive = t.alive.erase c ∧ t'.descriptors = t.descriptors := by
  obtain ⟨⟨⟩, -, ht⟩ := bind_ok.mp ht
  cases ht
  exact ⟨h.of_perm (destroy_perm hc) rfl rfl, rfl, rfl⟩

theorem Leaked.destroyAll : ∀ {cs : List Connection} {t : Connections}, t.Leaked → cs.Nodup →
    (∀ c ∈ cs, c ∈ t.alive) → cs.foldlM Connections.destroy t = .ok t' →
    t'.Leaked ∧ t'.descriptors = t.descriptors
  | [], t, h, _, _, ht => by cases ht; exact ⟨h, rfl⟩
  | c :: cs, t, h, hnd, hcs, ht => by
    obtain ⟨u, hu, ht⟩ := bind_ok.mp ht
    obtain ⟨hc, hnd⟩ := List.nodup_cons.mp hnd
    obtain ⟨hl, ha, hd⟩ := h.destroy (hcs c (List.mem_cons_self ..)) hu
    have hcs' : ∀ x ∈ cs, x ∈ u.alive := by
      intro x hx
      rw [ha, List.mem_erase_of_ne (show x ≠ c from fun he => hc (he ▸ hx))]
      exact hcs x (List.mem_cons_of_mem _ hx)
    obtain ⟨hl', hd'⟩ := Leaked.destroyAll hl hnd hcs' ht
    exact ⟨hl', hd'.trans hd⟩

theorem Leaked.release (h : t.Leaked) {held : List Nat} (ht : t.release held = .ok t') :
    t'.Leaked ∧ t'.descriptors = t.descriptors := by
  have hnd : t.alive.Nodup := by
    have := h.nodup
    rw [List.map_append] at this
    exact List.Nodup.of_map _ this.of_append_left
  exact h.destroyAll (hnd.filter _) (fun c hc => (List.mem_filter.mp hc).1) ht

end Connections

/-! ## The server -/

namespace TcpServer

variable {s s' : TcpServer} {conn : Nat}

def Leaked (s : TcpServer) : Prop := s.objects.Leaked

theorem Leaked.setState (hs : s.Leaked) (state : StateE) : (s.setState conn state).Leaked :=
  Connections.Leaked.setState hs conn state

theorem Leaked.connectEstablished (hs : s.Leaked) (h : s.connectEstablished conn = .ok s') : s'.Leaked := by
  obtain ⟨c, -, h⟩ := bind_ok.mp h
  obtain ⟨state, -, h⟩ := bind_ok.mp h
  cases h
  exact hs.setState state

theorem Leaked.connectDestroyed (hs : s.Leaked) (h : s.connectDestroyed conn = .ok s') : s'.Leaked := by
  obtain ⟨c, -, h⟩ := bind_ok.mp h
  cases h
  exact hs.setState _

theorem Leaked.newConnection {sockfd : Nat} (hs : s.Leaked) (hf : sockfd ∉ s.objects.descriptors)
    (h : s.newConnection sockfd = .ok s') : s'.Leaked := by
  have hc := Connections.Leaked.create hs hf s.connName s.getNextLoop.1
  rcases ite_ok h with ⟨-, h⟩ | ⟨-, h⟩
  · refine Leaked.connectEstablished ?_ h
    exact hc
  · cases h
    exact hc

theorem Leaked.removeConnectionInLoop (hs : s.Leaked) (h : s.removeConnectionInLoop conn = .ok s') : s'.Leaked := by
  obtain ⟨⟨⟩, -, h⟩ := bind_ok.mp h
  obtain ⟨c, -, h⟩ := bind_ok.mp h
  obtain ⟨⟨⟩, -, h⟩ := bind_ok.mp h
  cases h
  exact hs

theorem Leaked.removeConnection {loop : Nat} (hs : s.Leaked) (h : s.removeConnection loop conn = .ok s') :
    s'.Leaked := by
  obtain ⟨⟨⟩, -, h⟩ := bind_ok.mp h
  rcases ite_ok h with ⟨-, h⟩ | ⟨-, h⟩
  · exact hs.removeConnectionInLoop h
  · cases h
    exact hs

theorem Leaked.handleClose (hs : s.Leaked) (h : s.handleClose conn = .ok s') : s'.Leaked := by
  obtain ⟨c, -, h⟩ := bind_ok.mp h
  obtain ⟨state, -, h⟩ := bind_ok.mp h
  exact (hs.setState state).removeConnection h

theorem Leaked.forceClose (hs : s.Leaked) (h : s.forceClose conn = .ok s') : s'.Leaked := by
  obtain ⟨c, -, h⟩ := bind_ok.mp h
  refine ite_pure_inv (fun _ h => ?_) hs h
  cases h
  exact hs.setState .kDisconnecting

theorem Leaked.forceCloseInLoop (hs : s.Leaked) (h : s.forceCloseInLoop conn = .ok s') : s'.Leaked := by
  obtain ⟨c, -, h⟩ := bind_ok.mp h
  exact ite_pure_inv (fun _ => hs.handleClose) hs h

theorem Leaked.shutdown (hs : s.Leaked) (h : s.shutdown conn = .ok s') : s'.Leaked := by
  obtain ⟨c, -, h⟩ := bind_ok.mp h
  cases h
  exact hs.setState _

theorem Leaked.runFunctor {loop : Nat} (hs : s.Leaked) (h : s.runFunctor loop = .ok s') : s'.Leaked := by
  unfold TcpServer.runFunctor at h
  split at h
  case h_1 =>
    cases h
    exact hs
  case h_2 f fs _ =>
    -- the functor is taken from its queue before it runs
    generalize hu : ({ s with queues := Function.update s.queues loop fs } : TcpServer) = u at h
    have hs' : u.Leaked := by
      rw [← hu]
      exact hs
    cases f with
    | connectEstablished conn => exact hs'.connectEstablished h
    | removeConnectionInLoop conn => exact hs'.removeConnectionInLoop h
    | connectDestroyed conn => exact hs'.connectDestroyed h
    | forceCloseInLoop conn => exact hs'.forceCloseInLoop h

theorem Leaked.destroyConnection (hs : s.Leaked) (h : s.destroyConnection conn = .ok s') : s'.Leaked := by
  obtain ⟨c, -, h⟩ := bind_ok.mp h
  rcases ite_ok h with ⟨-, h⟩ | ⟨-, h⟩
  · exact hs.connectDestroyed h
  · cases h
    exact hs

theorem Leaked.dtor (hs : s.Leaked) (h : s.dtor = .ok s') : s'.Leaked := by
  refine foldlM_inv (I := TcpServer.Leaked) (fun s conn t hs h => ?_) ?_ h
  · exact hs.destroyConnection h
  · exact hs

theorem Leaked.act {l : Label} (hs : s.Leaked) (h : s.act l = .ok s') : s'.Leaked := by
  cases l with
  | accept connfd => exact ite_pure_inv (fun hc => hs.newConnection hc.2) hs h
  | acceptFails => cases h; exact hs
  | runFunctor loop => exact hs.runFunctor h
  | handleClose conn => exact ite_pure_inv (fun _ => hs.handleClose) hs h
  | shutdown conn => exact ite_pure_inv (fun _ => hs.shutdown) hs h
  | forceClose conn => exact ite_pure_inv (fun _ => hs.forceClose) hs h
  | keep conn =>
    refine ite_pure_inv (fun _ h => ?_) hs h
    cases h
    exact hs
  | drop conn => cases h; exact hs
  | dtor => exact ite_pure_inv (fun _ => hs.dtor) hs h

theorem Leaked.step {l : Label} (hs : s.Leaked) (h : s.step l = .ok s') : s'.Leaked := by
  obtain ⟨u, hu, h⟩ := bind_ok.mp h
  obtain ⟨objects, ho, h⟩ := bind_ok.mp h
  cases h
  exact ((hs.act hu).release ho).1

end TcpServer

/-! ## The connector

It closes only descriptors of its own, and hands over each of them once. -/

namespace Connector

variable {c c' : Connector} {descriptors : List Nat} {sockfd : Nat} {savedErrno : ConnectErrno}

/-- Neither the descriptor being connected nor one that was closed is among those handed out. -/
structure Apart (descriptors : List Nat) (c : Connector) : Prop where
  pending : c.state = .kConnecting → ∀ fd, c.channel = some fd → fd ∉ descriptors
  closed : ∀ fd ∈ c.closed, fd ∉ descriptors

theorem Apart.idle (ha : c.Apart descriptors) (hs : c'.state ≠ .kConnecting) (hc : c'.closed = c.closed) :
    c'.Apart descriptors := by
  refine ⟨fun h => absurd h hs, ?_⟩
  rw [hc]
  exact ha.closed

theorem Apart.close (ha : c.Apart descriptors) (hf : sockfd ∉ descriptors) : (c.close sockfd).Apart descriptors := by
  refine ⟨ha.pending, fun fd hfd => ?_⟩
  rcases List.mem_cons.mp hfd with rfl | hfd
  · exact hf
  · exact ha.closed fd hfd

theorem Apart.retry (ha : c.Apart descriptors) (hf : sockfd ∉ descriptors) : (c.retry sockfd).Apart descriptors := by
  have hc := ha.close hf
  unfold Connector.retry
  dsimp only
  split
  · exact hc.idle (by simp) rfl
  · exact hc.idle (by simp) rfl

theorem Apart.startInLoop (ha : c.Apart descriptors) (hf : sockfd ∉ descriptors)
    (h : c.startInLoop sockfd savedErrno = .ok c') : c'.Apart descriptors := by
  obtain ⟨⟨⟩, -, h⟩ := bind_ok.mp h
  refine ite_pure_inv (fun _ h => ?_) ha h
  have ha' : Apart descriptors { c with sockets := sockfd :: c.sockets } := ⟨ha.pending, ha.closed⟩
  rcases connect_cases c sockfd savedErrno with hc | hc | hc
  · rw [hc] at h
    obtain ⟨⟨⟩, -, h⟩ := bind_ok.mp h
    cases h
    refine ⟨fun _ fd hfd => ?_, ha.closed⟩
    cases hfd
    exact hf
  · rw [hc] at h
    cases h
    exact ha'.retry hf
  · rw [hc] at h
    cases h
    exact ha'.close hf

theorem removeAndResetChannel_ok {r : Nat × Connector} (h : c.removeAndResetChannel = .ok r) :
    c.channel = some r.1 ∧ r.2 = { c with pendingFunctors := c.pendingFunctors ++ [.resetChannel] } := by
  unfold removeAndResetChannel at h
  split at h
  · rename_i fd hfd
    cases h
    exact ⟨hfd, rfl⟩
  · cases h

theorem Apart.stop (ha : c.Apart descriptors) : c.stop.Apart descriptors := ⟨ha.pending, ha.closed⟩

theorem Apart.removeAndResetChannel {r : Nat × Connector} (ha : c.Apart descriptors) (hs : c.state = .kConnecting)
    (h : c.removeAndResetChannel = .ok r) : r.1 ∉ descriptors ∧ r.2.Apart descriptors := by
  obtain ⟨hfd, hr⟩ := removeAndResetChannel_ok h
  refine ⟨ha.pending hs r.1 hfd, ?_⟩
  rw [hr]
  exact ⟨ha.pending, ha.closed⟩

theorem Apart.handleError (ha : c.Apart descriptors) (h : c.handleError = .ok c') : c'.Apart descriptors := by
  refine ite_pure_inv (fun hs h => ?_) ha h
  obtain ⟨r, hr, h⟩ := bind_ok.mp h
  obtain ⟨hf, hu⟩ := ha.removeAndResetChannel hs hr
  cases h
  exact hu.retry hf

theorem Apart.stopInLoop (ha : c.Apart descriptors) (h : c.stopInLoop = .ok c') : c'.Apart descriptors := by
  refine ite_pure_inv (fun hs h => ?_) ha h
  -- the state is left before the channel is read
  obtain ⟨r, hr, h⟩ := bind_ok.mp h
  obtain ⟨hfd, hu⟩ := removeAndResetChannel_ok hr
  cases h
  refine Apart.retry ?_ (ha.pending hs r.1 hfd)
  rw [hu]
  exact ha.idle (by simp) rfl

theorem Apart.runFunctor (ha : c.Apart descriptors) (h : c.runFunctor = .ok c') : c'.Apart descriptors := by
  unfold Connector.runFunctor at h
  split at h
  · cases h
    exact ha
  · refine Apart.stopInLoop ?_ h
    exact ⟨ha.pending, ha.closed⟩
  · cases h
    refine ⟨fun _ fd hfd => ?_, ha.closed⟩
    cases hfd

theorem Apart.runTimer {i : Nat} (ha : c.Apart descriptors) (hf : sockfd ∉ descriptors)
    (h : c.runTimer i sockfd savedErrno = .ok c') : c'.Apart descriptors := by
  refine ite_pure_inv (fun _ h => ?_) ha h
  refine Apart.startInLoop ?_ hf h
  exact ⟨ha.pending, ha.closed⟩

theorem Apart.start (ha : c.Apart descriptors) (hf : sockfd ∉ descriptors)
    (h : c.start sockfd savedErrno = .ok c') : c'.Apart descriptors := by
  refine Apart.startInLoop ?_ hf h
  exact ⟨ha.pending, ha.closed⟩

theorem Apart.restart (ha : c.Apart descriptors) (hf : sockfd ∉ descriptors)
    (h : c.restart sockfd savedErrno = .ok c') : c'.Apart descriptors := by
  refine Apart.startInLoop ?_ hf h
  exact ha.idle (by simp) rfl

theorem Apart.handleWrite {err isSelfConnect : Bool} {r : Option Nat × Connector} (ha : c.Apart descriptors)
    (h : c.handleWrite err isSelfConnect = .ok r) :
    r.2.Apart descriptors ∧ ∀ fd, r.1 = some fd → fd ∉ descriptors ∧ r.2.state = .kConnected := by
  rcases ite_ok h with ⟨hs, h⟩ | ⟨hs, h⟩
  · obtain ⟨⟨fd, u⟩, hu, h⟩ := bind_ok.mp h
    obtain ⟨hf, hu⟩ := ha.removeAndResetChannel hs hu
    rcases ite_ok h with ⟨-, h⟩ | ⟨-, h⟩
    · cases h
      exact ⟨hu.retry hf, by simp⟩
    rcases ite_ok h with ⟨-, h⟩ | ⟨-, h⟩
    · cases h
      exact ⟨hu.retry hf, by simp⟩
    rcases ite_ok h with ⟨-, h⟩ | ⟨-, h⟩
    · cases h
      refine ⟨hu.idle (by simp) rfl, fun fd' he => ?_⟩
      cases he
      exact ⟨hf, rfl⟩
    · cases h
      refine ⟨Apart.close (hu.idle (by simp) rfl) hf, by simp⟩
  · obtain ⟨⟨⟩, -, h⟩ := bind_ok.mp h
    cases h
    exact ⟨ha, by simp⟩

end Connector

/-! ## The client -/

namespace TcpClient

variable {c c' : TcpClient} {conn : Nat} {a : Attempt}

def Leaked (c : TcpClient) : Prop := c.objects.Leaked ∧ c.connector.Apart c.objects.descriptors

theorem Leaked.setState (hc : c.Leaked) (state : StateE) : (c.setState conn state).Leaked :=
  ⟨hc.1.setState conn state, hc.2⟩

theorem Leaked.setConnector (hc : c.Leaked) {connector : Connector} (ha : connector.Apart c.objects.descriptors) :
    (c.setConnector connector).Leaked ∧ (c.setConnector connector).objects = c.objects := by
  have hd : c.objects.descriptors.filter (· ∉ connector.closed) = c.objects.descriptors := by
    rw [List.filter_eq_self]
    intro fd hfd
    exact decide_eq_true fun hcl => ha.closed fd hcl hfd
  have ho : (c.setConnector connector).objects = c.objects := by
    simp only [TcpClient.setConnector, Connections.close, hd]
  refine ⟨?_, ho⟩
  unfold Leaked
  rw [ho]
  exact ⟨hc.1, ha.pending, by simp [TcpClient.setConnector]⟩

theorem Leaked.connect (hc : c.Leaked) (hf : a.sockfd ∉ c.objects.descriptors) (h : c.connect a = .ok c') :
    c'.Leaked := by
  obtain ⟨connector, hk, h⟩ := bind_ok.mp h
  cases h
  refine (Leaked.setConnector ?_ ?_).1
  · exact hc
  · exact hc.2.start hf hk

theorem Leaked.disconnect (hc : c.Leaked) (h : c.disconnect = .ok c') : c'.Leaked := by
  unfold TcpClient.disconnect at h
  split at h
  · obtain ⟨x, -, h⟩ := bind_ok.mp h
    cases h
    exact Leaked.setState hc _
  · cases h
    exact hc

theorem Leaked.newConnection {sockfd : Nat} {peerAddr : Bytes} (hc : c.Leaked) (hf : sockfd ∉ c.objects.descriptors)
    (hk : c.connector.state = .kConnected) (hcl : c.connector.closed = [])
    (h : c.newConnection sockfd peerAddr = .ok c') : c'.Leaked := by
  obtain ⟨x, -, h⟩ := bind_ok.mp h
  obtain ⟨state, -, h⟩ := bind_ok.mp h
  cases h
  refine ⟨(hc.1.create hf (c.connName peerAddr) 0).setState _ state, ?_, ?_⟩
  · intro hs
    exact absurd (hk.symm.trans hs) (by decide)
  · intro fd hfd
    have hfd : fd ∈ c.connector.closed := hfd
    simp [hcl] at hfd

theorem Leaked.removeConnection (hc : c.Leaked) (hf : a.sockfd ∉ c.objects.descriptors)
    (h : c.removeConnection conn a = .ok c') : c'.Leaked := by
  rcases ite_ok h with ⟨-, h⟩ | ⟨-, h⟩
  · cases h
    exact hc
  · obtain ⟨⟨⟩, -, h⟩ := bind_ok.mp h
    rcases ite_ok h with ⟨-, h⟩ | ⟨-, h⟩
    · obtain ⟨connector, hk, h⟩ := bind_ok.mp h
      cases h
      refine (Leaked.setConnector ?_ ?_).1
      · exact hc
      · exact hc.2.restart hf hk
    · cases h
      exact hc

theorem Leaked.handleClose (hc : c.Leaked) (hf : a.sockfd ∉ c.objects.descriptors)
    (h : c.handleClose conn a = .ok c') : c'.Leaked := by
  obtain ⟨x, -, h⟩ := bind_ok.mp h
  obtain ⟨state, -, h⟩ := bind_ok.mp h
  exact (hc.setState state).removeConnection hf h

theorem Leaked.forceClose (hc : c.Leaked) (h : c.forceClose conn = .ok c') : c'.Leaked := by
  obtain ⟨x, -, h⟩ := bind_ok.mp h
  refine ite_pure_inv (fun _ h => ?_) hc h
  cases h
  exact Leaked.setState hc .kDisconnecting

theorem Leaked.shutdown (hc : c.Leaked) (h : c.shutdown conn = .ok c') : c'.Leaked := by
  obtain ⟨x, -, h⟩ := bind_ok.mp h
  cases h
  exact Leaked.setState hc _

theorem Leaked.runFunctor (hc : c.Leaked) (hf : a.sockfd ∉ c.objects.descriptors) (h : c.runFunctor a = .ok c') :
    c'.Leaked := by
  unfold TcpClient.runFunctor at h
  split at h
  · cases h
    exact hc
  · obtain ⟨x, -, h⟩ := bind_ok.mp h
    cases h
    exact Leaked.setState hc _
  · obtain ⟨x, -, h⟩ := bind_ok.mp h
    rcases ite_ok h with ⟨-, h⟩ | ⟨-, h⟩
    · refine Leaked.handleClose ?_ ?_ h
      · exact hc
      · exact hf
    · cases h
      exact hc

theorem Leaked.dtor (hc : c.Leaked) (h : c.dtor = .ok c') : c'.Leaked := by
  unfold TcpClient.dtor at h
  split at h
  · obtain ⟨u, hu, h⟩ := bind_ok.mp h
    cases h
    have hl : u.Leaked := by
      refine ite_pure_inv (fun _ hu => ?_) ?_ hu
      · refine Leaked.forceClose ?_ hu
        exact hc
      · exact hc
    exact hl
  · cases h
    exact ⟨hc.1, hc.2.stop⟩

theorem Leaked.handleWrite {err isSelfConnect : Bool} {peerAddr : Bytes} (hc : c.Leaked)
    (h : c.act (.handleWrite err isSelfConnect peerAddr) = .ok c') : c'.Leaked := by
  refine ite_pure_inv (fun _ h => ?_) hc h
  obtain ⟨⟨handed, connector⟩, hw, h⟩ := bind_ok.mp h
  obtain ⟨ha, hfd⟩ := hc.2.handleWrite hw
  obtain ⟨hl, ho⟩ := hc.setConnector ha
  cases handed with
  | none =>
    cases h
    exact hl
  | some sockfd =>
    obtain ⟨⟨⟩, -, h⟩ := bind_ok.mp h
    obtain ⟨hf, hk⟩ := hfd sockfd rfl
    rw [← ho] at hf
    exact hl.newConnection hf hk rfl h

theorem fresh_descriptors (h : c.fresh a = true) : a.sockfd ∉ c.objects.descriptors := by
  simp only [fresh, Bool.and_eq_true, decide_eq_true_eq] at h
  exact h.1

theorem Leaked.act {l : Label} (hc : c.Leaked) (h : c.act l = .ok c') : c'.Leaked := by
  cases l with
  | connect a =>
    refine ite_pure_inv (fun hg h => ?_) hc h
    exact hc.connect (fresh_descriptors (Bool.and_eq_true_iff.mp hg).2) h
  | disconnect => exact ite_pure_inv (fun _ => hc.disconnect) hc h
  | stop =>
    refine ite_pure_inv (fun _ h => ?_) hc h
    cases h
    exact ⟨hc.1, hc.2.stop⟩
  | enableRetry =>
    refine ite_pure_inv (fun _ h => ?_) hc h
    cases h
    exact hc
  | handleWrite err isSelfConnect peerAddr => exact hc.handleWrite h
  | handleError =>
    refine ite_pure_inv (fun _ h => ?_) hc h
    obtain ⟨connector, hk, h⟩ := bind_ok.mp h
    cases h
    exact (hc.setConnector (hc.2.handleError hk)).1
  | runConnectorFunctor =>
    obtain ⟨connector, hk, h⟩ := bind_ok.mp h
    cases h
    exact (hc.setConnector (hc.2.runFunctor hk)).1
  | runTimer i a =>
    refine ite_pure_inv (fun hg h => ?_) hc h
    have hf := fresh_descriptors hg
    obtain ⟨connector, hk, h⟩ := bind_ok.mp h
    cases h
    exact (hc.setConnector (hc.2.runTimer hf hk)).1
  | runFunctor a => exact ite_pure_inv (fun hf => hc.runFunctor (fresh_descriptors hf)) hc h
  | handleClose conn a =>
    refine ite_pure_inv (fun hg h => ?_) hc h
    exact hc.handleClose (fresh_descriptors (Bool.and_eq_true_iff.mp hg).2) h
  | shutdown conn => exact ite_pure_inv (fun _ => hc.shutdown) hc h
  | forceClose conn => exact ite_pure_inv (fun _ => hc.forceClose) hc h
  | keep conn =>
    refine ite_pure_inv (fun _ h => ?_) hc h
    cases h
    exact hc
  | drop conn => cases h; exact hc
  | dtor => exact ite_pure_inv (fun _ => hc.dtor) hc h

theorem Leaked.step {l : Label} (hc : c.Leaked) (h : c.step l = .ok c') : c'.Leaked := by
  obtain ⟨u, hu, h⟩ := bind_ok.mp h
  obtain ⟨objects, ho, h⟩ := bind_ok.mp h
  obtain ⟨hl, hk⟩ := hc.act hu
  obtain ⟨hr, hd⟩ := hl.release ho
  cases h
  refine ⟨hr, ?_⟩
  rw [hd]
  exact hk

end TcpClient

/-! ## Every run -/

theorem Connections.leaked_empty : Connections.Leaked {} := ⟨by simp, by simp⟩

theorem open_descriptors_iff_none_destroyed (name ipPort : Bytes) (numThreads : Nat) :
    (∀ (ls : List TcpServer.Label) (s : TcpServer), run TcpServer.step { name, ipPort, numThreads } ls = .ok s →
      (s.objects.Exact ↔ s.objects.destroyed = [])) ∧
    (∀ (ls : List TcpClient.Label) (c : TcpClient), run TcpClient.step { name } ls = .ok c →
      (c.objects.Exact ↔ c.objects.destroyed = [])) := by
  constructor
  · intro ls s hrun
    have hinit : TcpServer.Leaked { name, ipPort, numThreads } := Connections.leaked_empty
    have hs : s.Leaked := run_inv (fun s l t hs => hs.step) hinit hrun
    exact Connections.Leaked.exact_iff hs
  · intro ls c hrun
    have hinit : TcpClient.Leaked { name } := ⟨Connections.leaked_empty, by simp, by simp⟩
    have hc : c.Leaked := run_inv (fun c l d hc => hc.step) hinit hrun
    exact hc.1.exact_iff

theorem open_descriptors_iff_none_destroyed_alive :
    (∃ s, run TcpServer.step { name := ascii "s", ipPort := ascii "a", numThreads := 2 }
        [.accept 7, .accept 8, .runFunctor 1, .runFunctor 2, .shutdown 0] = .ok s ∧
      s.objects.descriptors = [8, 7] ∧ s.objects.Exact) ∧
    (∃ c, run TcpClient.step { name := ascii "c" }
        [.connect ⟨7, .EINPROGRESS⟩, .handleWrite false false (ascii "p"), .runConnectorFunctor] = .ok c ∧
      c.objects.descriptors = [7] ∧ c.objects.Exact) := by
  constructor
  · obtain ⟨s, hs, he⟩ := ok_of_map (show (run TcpServer.step
        { name := ascii "s", ipPort := ascii "a", numThreads := 2 }
        [.accept 7, .accept 8, .runFunctor 1, .runFunctor 2, .shutdown 0]).map
      (fun s => decide (s.objects.descriptors = [8, 7] ∧ s.objects.destroyed = [])) = .ok true by decide +kernel)
    obtain ⟨hd, hn⟩ := of_decide_eq_true he
    exact ⟨s, hs, hd, ((open_descriptors_iff_none_destroyed _ _ 2).1 _ s hs).mpr hn⟩
  · obtain ⟨c, hc, he⟩ := ok_of_map (show (run TcpClient.step { name := ascii "c" }
        [.connect ⟨7, .EINPROGRESS⟩, .handleWrite false false (ascii "p"), .runConnectorFunctor]).map
      (fun c => decide (c.objects.descriptors = [7] ∧ c.objects.destroyed = [])) = .ok true by decide +kernel)
    obtain ⟨hd, hn⟩ := of_decide_eq_true he
    exact ⟨c, hc, hd, ((open_descriptors_iff_none_destroyed (ascii "c") [] 0).2 _ c hc).mpr hn⟩

/-- The peer closes an accepted connection: the object is destroyed in the next round of the
loop, and its descriptor stays open. The same for the connection of a client. -/
theorem closed_connection_leaks_descriptor :
    (∃ s, run TcpServer.step { name := ascii "s", ipPort := ascii "a", numThreads := 0 }
        [.accept 7, .handleClose 0, .runFunctor 0] = .ok s ∧
      s.objects.alive = [] ∧ s.objects.descriptors = [7] ∧ ¬ s.objects.Exact) ∧
    (∃ c, run TcpClient.step { name := ascii "c" }
        [.connect ⟨7, .EINPROGRESS⟩, .handleWrite false false (ascii "p"), .handleClose 0 ⟨8, .zero⟩,
          .runFunctor ⟨8, .zero⟩] = .ok c ∧
      c.objects.alive = [] ∧ c.objects.descriptors = [7] ∧ ¬ c.objects.Exact) := by
  have hleak : ∀ t : Connections, t.alive = [] ∧ t.descriptors = [7] →
      t.alive = [] ∧ t.descriptors = [7] ∧ ¬ t.Exact := by
    rintro t ⟨ha, hd⟩
    refine ⟨ha, hd, fun he => ?_⟩
    obtain ⟨c, hc, -⟩ := (he 7).mp (by simp [hd])
    simp [ha] at hc
  constructor
  · obtain ⟨s, hs, he⟩ := ok_of_map (show (run TcpServer.step
        { name := ascii "s", ipPort := ascii "a", numThreads := 0 } [.accept 7, .handleClose 0, .runFunctor 0]).map
      (fun s => decide (s.objects.alive = [] ∧ s.objects.descriptors = [7])) = .ok true by decide +kernel)
    exact ⟨s, hs, hleak s.objects (of_decide_eq_true he)⟩
  · obtain ⟨c, hc, he⟩ := ok_of_map (show (run TcpClient.step { name := ascii "c" }
        [.connect ⟨7, .EINPROGRESS⟩, .handleWrite false false (ascii "p"), .handleClose 0 ⟨8, .zero⟩,
          .runFunctor ⟨8, .zero⟩]).map
      (fun c => decide (c.objects.alive = [] ∧ c.objects.descriptors = [7])) = .ok true by decide +kernel)
    exact ⟨c, hc, hleak c.objects (of_decide_eq_true he)⟩

end Zhengqi
