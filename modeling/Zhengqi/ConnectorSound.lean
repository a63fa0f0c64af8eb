import Zhengqi.ConnectorLoop

/-!
# The attempts of a connector and its sockets

Between two operations a connector is at one of three points (`Phase`): without a channel,
with the channel of the socket it is connecting, or with a channel that has left the poller
and waits for its `resetChannel`. A call of `restart` while connecting leads away from these.
-/

namespace Zhengqi

open Run

namespace Connector

variable {c c' : Connector} {fd : Nat} {savedErrno : ConnectErrno} {r : Option Nat}

/-! ## One call -/

/-- What becomes of the socket that `connect` makes. -/
inductive Connects (c : Connector) (fd : Nat) : Connector → Prop
  | connecting (hc : c.channel = none) :
      Connects c fd { c with sockets := fd :: c.sockets, state := .kConnecting, channel := some fd }
  | failed {timers : List Nat} {delay : Nat} (ht : timers.length ≤ c.timers.length + 1) :
      Connects c fd { c with closed := fd :: c.closed, timers, retryDelayMs := delay }

theorem startInLoop_ok (h : c.startInLoop fd savedErrno = .ok c') :
    c.state = .kDisconnected ∧ (c.wanted = true ∧ Connects c fd c' ∨ c.wanted = false ∧ c' = c) := by
  obtain ⟨⟨⟩, hs, h⟩ := bind_ok.mp h
  have hs := check_ok.mp hs
  refine ⟨hs, ?_⟩
  rcases ite_ok h with ⟨hw, h⟩ | ⟨hw, h⟩
  · refine .inl ⟨hw, ?_⟩
    rcases connect_cases c fd savedErrno with hc | hc | hc
    · rw [hc] at h
      obtain ⟨⟨⟩, hnone, h⟩ := bind_ok.mp h
      cases h
      exact .connecting (check_ok.mp hnone)
    · rw [hc] at h
      cases h
      unfold retry close
      simp only [List.erase_cons_head, ← hs]
      rw [if_pos hw]
      exact .failed (by simp)
    · rw [hc] at h
      cases h
      simp only [close, List.erase_cons_head]
      exact .failed (Nat.le_succ _)
  · cases h
    exact .inr ⟨by simpa using hw, rfl⟩

theorem startInLoop_total (hs : c.state = .kDisconnected) (hc : c.channel = none) (fd : Nat)
    (savedErrno : ConnectErrno) :
    ∃ c', c.startInLoop fd savedErrno = .ok c' := by
  rw [startInLoop, check_of hs, ok_bind]
  split
  · rcases connect_cases c fd savedErrno with h | h | h
    · rw [h, connecting, check_of hc]
      exact ⟨_, rfl⟩
    · exact ⟨_, h⟩
    · exact ⟨_, h⟩
  · exact ⟨c, rfl⟩

/-- The assertions of `Connector.cpp`. -/
def asserts : Fault → Bool
  | .startInLoop | .connecting | .handleWrite => true
  | _ => false

theorem startInLoop_stops : Stops (asserts · = true) (c.startInLoop fd savedErrno) := by
  refine check_stops (fun _ => rfl) fun _ => Stops.ite (fun _ => ?_) fun _ => Stops.ok c
  rcases connect_cases c fd savedErrno with h | h | h
  · rw [h]
    exact check_stops (fun _ => rfl) fun _ => Stops.ok _
  · rw [h]
    exact Stops.ok _
  · rw [h]
    exact Stops.ok _

/-- How an attempt ends; the socket may be handed over. -/
inductive Leaves (c : Connector) (fd : Nat) : Option Nat → Connector → Prop
  | closed {state : States} {timers : List Nat} {delay : Nat} (hs : state ≠ .kConnecting)
      (ht : timers.length ≤ c.timers.length + if state = .kDisconnected then 1 else 0) :
      Leaves c fd none { c with
        state, pendingFunctors := c.pendingFunctors ++ [.resetChannel], sockets := c.sockets.erase fd
        closed := fd :: c.closed, timers, retryDelayMs := delay }
  | handed : Leaves c fd (some fd) { c with
      state := .kConnected, pendingFunctors := c.pendingFunctors ++ [.resetChannel], sockets := c.sockets.erase fd }

theorem retry_leaves (c : Connector) (fd : Nat) (state : States) :
    Leaves c fd none (retry { c with state, pendingFunctors := c.pendingFunctors ++ [.resetChannel] } fd) ∧
      (retry { c with state, pendingFunctors := c.pendingFunctors ++ [.resetChannel] } fd).state = .kDisconnected := by
  unfold retry close
  dsimp only
  split
  · exact ⟨.closed (by simp) (by simp), rfl⟩
  · exact ⟨.closed (by simp) (by simp), rfl⟩

theorem removeAndResetChannel_of (hc : c.channel = some fd) :
    c.removeAndResetChannel = .ok (fd, { c with pendingFunctors := c.pendingFunctors ++ [.resetChannel] }) := by
  rw [removeAndResetChannel, hc]

section
variable (hs : c.state = .kConnecting) (hc : c.channel = some fd)
include hs hc

theorem handleError_leaves : ∃ c', c.handleError = .ok c' ∧ Leaves c fd none c' ∧ c'.state = .kDisconnected := by
  refine ⟨_, ?_, retry_leaves c fd c.state⟩
  rw [handleError, if_pos hs, removeAndResetChannel_of hc]
  rfl

theorem stopInLoop_leaves : ∃ c', c.stopInLoop = .ok c' ∧ Leaves c fd none c' := by
  refine ⟨_, ?_, (retry_leaves c fd .kDisconnected).1⟩
  rw [stopInLoop, if_pos hs, removeAndResetChannel_of
    (show ({ c with state := .kDisconnected } : Connector).channel = _ from hc)]
  rfl

theorem handleWrite_leaves (err isSelfConnect : Bool) :
    ∃ r c', c.handleWrite err isSelfConnect = .ok (r, c') ∧ Leaves c fd r c' := by
  have hretry := (retry_leaves c fd c.state).1
  rw [handleWrite, if_pos hs, removeAndResetChannel_of hc, ok_bind]
  dsimp only
  split
  · exact ⟨_, _, rfl, hretry⟩
  split
  · exact ⟨_, _, rfl, hretry⟩
  split
  · exact ⟨_, _, rfl, .handed⟩
  · exact ⟨_, _, rfl, .closed (by simp) (Nat.le_add_right ..)⟩

end

theorem stopInLoop_idle (hs : c.state ≠ .kConnecting) : c.stopInLoop = .ok c := if_neg hs

theorem handleWrite_idle (hs : c.state = .kDisconnected) (err isSelfConnect : Bool) :
    c.handleWrite err isSelfConnect = .ok (none, c) := by
  rw [handleWrite, if_neg (by simp [hs]), check_of hs]
  rfl

/-! ## Between the calls -/

/-- The `resetChannel`s on their way. -/
def resets (c : Connector) : Nat := c.pendingFunctors.count .resetChannel

inductive Phase (c : Connector) : Prop
  | idle (hs : c.state ≠ .kConnecting) (ho : c.sockets = []) (hc : c.channel = none) (hr : c.resets = 0)
  | trying {fd : Nat} (hs : c.state = .kConnecting) (ho : c.sockets = [fd]) (hc : c.channel = some fd)
      (hr : c.resets = 0)
  | leaving {fd : Nat} (hs : c.state ≠ .kConnecting) (ho : c.sockets = []) (hc : c.channel = some fd)
      (hr : c.resets = 1)

theorem Phase.congr (h : Phase c) (hs : c'.state = .kConnecting ↔ c.state = .kConnecting) (ho : c'.sockets = c.sockets)
    (hc : c'.channel = c.channel) (hr : c'.resets = c.resets) : Phase c' := by
  cases h with
  | idle hs' ho' hc' hr' => exact .idle (fun h => hs' (hs.mp h)) (ho.trans ho') (hc.trans hc') (hr.trans hr')
  | trying hs' ho' hc' hr' => exact .trying (hs.mpr hs') (ho.trans ho') (hc.trans hc') (hr.trans hr')
  | leaving hs' ho' hc' hr' => exact .leaving (fun h => hs' (hs.mp h)) (ho.trans ho') (hc.trans hc') (hr.trans hr')

theorem Phase.sockets (h : Phase c) : c.sockets.length = if c.state = .kConnecting then 1 else 0 := by
  cases h with
  | idle hs ho hc hr => rw [ho, if_neg hs, List.length_nil]
  | trying hs ho hc hr => rw [ho, if_pos hs, List.length_singleton]
  | leaving hs ho hc hr => rw [ho, if_neg hs, List.length_nil]

/-- Where no channel waits for its `resetChannel`, there is one only while connecting. -/
theorem Phase.channel (h : Phase c) (hs : c.state ≠ .kConnecting) (hr : .resetChannel ∉ c.pendingFunctors) :
    c.channel = none := by
  cases h with
  | idle _ _ hc _ => exact hc
  | trying hs' => exact absurd hs' hs
  | leaving _ _ _ hone => exact absurd hone (by rw [resets, List.count_eq_zero.mpr hr]; simp)

theorem Phase.registered (h : Phase c) (hr : c.registered = true) :
    ∃ fd, c.state = .kConnecting ∧ c.channel = some fd := by
  rw [Connector.registered, Bool.and_eq_true, decide_eq_true_eq] at hr
  by_cases hs : c.state = .kConnecting
  · obtain ⟨fd, hc⟩ := Option.isSome_iff_exists.mp hr.1
    exact ⟨fd, hs, hc⟩
  · simp [h.channel hs hr.2] at hr

/-- Attempts that are under way or will be made by a timer, or the connection that was made. -/
def load (c : Connector) : Nat := c.timers.length + if c.state = .kDisconnected then 0 else 1

/-- What a call does with the sockets, given those it has made and those it has handed over. -/
structure Effect (c : Connector) (made handed : List Nat) (c' : Connector) : Prop where
  phase : Phase c'
  sockets : (made ++ (c.closed ++ c.sockets)).Perm (handed ++ (c'.closed ++ c'.sockets))
  load : c'.load ≤ c.load + made.length
  connected : c.state = .kConnected → c'.state = .kConnected
  handed : handed = [] ∨ c.state = .kConnecting ∧ c'.state = .kConnected ∧ handed.length = 1

theorem Phase.refl (h : Phase c) : Effect c [] [] c := ⟨h, List.Perm.refl _, Nat.le_refl _, id, .inl rfl⟩

theorem Phase.connects (h : Phase c) (hs : c.state = .kDisconnected) (hc : Connects c fd c') : Effect c [fd] [] c' := by
  cases hc with
  | connecting hnone =>
    cases h with
    | idle _ ho _ hr =>
      refine ⟨.trying rfl (by rw [ho]) rfl hr, ?_, ?_, by simp [hs], .inl rfl⟩
      · simpa using List.perm_middle.symm
      · simp [Connector.load, hs]
    | trying hs' => simp [hs] at hs'
    | leaving _ _ hsome => simp [hnone] at hsome
  | failed ht =>
    refine ⟨h.congr Iff.rfl rfl rfl rfl, List.Perm.refl _, ?_, id, .inl rfl⟩
    simpa [Connector.load, hs] using ht

theorem Phase.startInLoop (h : Phase c) (hok : c.startInLoop fd savedErrno = .ok c') :
    Effect c (if c.wanted then [fd] else []) [] c' := by
  obtain ⟨hs, ⟨hw, hc⟩ | ⟨hw, rfl⟩⟩ := startInLoop_ok hok
  · rw [if_pos hw]
    exact h.connects hs hc
  · rw [if_neg (by simp [hw])]
    exact h.refl

theorem Phase.leaves (h : Phase c) (hs : c.state = .kConnecting) (hc : c.channel = some fd) (hl : Leaves c fd r c') :
    Effect c [] r.toList c' := by
  cases h with
  | idle hs' => exact absurd hs hs'
  | leaving hs' => exact absurd hs hs'
  | @trying fd' _ ho hc' hr =>
    obtain rfl : fd' = fd := by simpa [hc] using hc'.symm
    have hr' : (c.pendingFunctors ++ [ConnectorFunctor.resetChannel]).count .resetChannel = 1 := by
      rw [List.count_append, ← resets, hr, List.count_singleton_self]
    have hload : c.load = c.timers.length + 1 := by simp [Connector.load, hs]
    cases hl with
    | @closed state timers delay hs' ht =>
      refine ⟨.leaving hs' (by simp [ho]) hc hr', ?_, ?_, by simp [hs], .inl rfl⟩
      · simp [ho]
      · rw [hload]
        unfold Connector.load
        dsimp only
        by_cases hd : state = .kDisconnected
        · rw [if_pos hd] at ht ⊢
          exact ht
        · rw [if_neg hd] at ht ⊢
          exact Nat.succ_le_succ ht
    | handed =>
      refine ⟨.leaving (by simp) (by simp [ho]) hc hr', ?_, ?_, by simp [hs], .inr ⟨hs, rfl, rfl⟩⟩
      · simp [ho]
      · rw [hload]
        exact Nat.le_refl _

theorem Phase.connecting (h : Phase c) (hs : c.state = .kConnecting) : ∃ fd, c.channel = some fd := by
  cases h with
  | idle hs' => exact absurd hs hs'
  | trying _ _ hc _ => exact ⟨_, hc⟩
  | leaving hs' => exact absurd hs hs'

theorem Phase.runFunctor (h : Phase c) : ∃ c', c.runFunctor = .ok c' ∧ Effect c [] [] c' := by
  unfold Connector.runFunctor
  cases hq : c.pendingFunctors with
  | nil => exact ⟨c, rfl, h.refl⟩
  | cons f fs =>
    cases f with
    | stopInLoop =>
      have h' : Phase { c with pendingFunctors := fs } := h.congr Iff.rfl rfl rfl (by simp [resets, hq])
      by_cases hs : c.state = .kConnecting
      · obtain ⟨fd, hc⟩ := h.connecting hs
        obtain ⟨c', hc', hl⟩ := stopInLoop_leaves (c := { c with pendingFunctors := fs }) hs hc
        have he := h'.leaves hs hc hl
        exact ⟨c', hc', he.phase, he.sockets, he.load, he.connected, he.handed⟩
      · exact ⟨_, stopInLoop_idle (c := { c with pendingFunctors := fs }) hs, h', List.Perm.refl _,
          Nat.le_refl _, id, .inl rfl⟩
    | resetChannel =>
      have hr : c.resets = fs.count .resetChannel + 1 := by simp [resets, hq]
      refine ⟨_, rfl, ?_, List.Perm.refl _, Nat.le_refl _, id, .inl rfl⟩
      cases h with
      | idle _ _ _ hr' => omega
      | trying _ _ _ hr' => omega
      | leaving hs ho _ hr' => exact .idle hs ho rfl (by rw [hr'] at hr; exact (Nat.succ.inj hr).symm)

end Connector

/-! ## On the loop -/

namespace ConnectorLoop

open Connector (Phase Effect)

variable {w v : ConnectorLoop} {l : Label}

theorem handleEvent_effect (h : w.connector.Phase) (hr : w.connector.registered = true) (revents : Events)
    (err isSelfConnect : Bool) :
    ∃ (r : Option Nat) (c' : Connector), w.handleEvent revents err isSelfConnect = .ok { w with
        connector := c', handed := r.toList ++ w.handed, connections := w.connections + r.toList.length } ∧
      Effect w.connector [] r.toList c' := by
  obtain ⟨fd, hs, hc⟩ := h.registered hr
  unfold handleEvent
  by_cases he : (revents.pollerr || revents.pollnval) = true
  · -- `handleError` leaves the state in which `handleWrite` does nothing
    obtain ⟨c', hc', hl, hs'⟩ := Connector.handleError_leaves hs hc
    refine ⟨none, c', ?_, h.leaves hs hc hl⟩
    rw [if_pos he, hc', ok_bind, Connector.handleWrite_idle hs']
    split <;> rfl
  · rw [if_neg he]
    by_cases ho : revents.pollout = true
    · obtain ⟨r, c', hc', hl⟩ := Connector.handleWrite_leaves hs hc err isSelfConnect
      refine ⟨r, c', ?_, h.leaves hs hc hl⟩
      rw [pure_eq_ok, ok_bind, if_pos ho, hc']
      rfl
    · refine ⟨none, w.connector, ?_, h.refl⟩
      rw [pure_eq_ok, ok_bind, if_neg ho]
      rfl

/-- The call of `startInLoop` that a label leads to. -/
def calls (w : ConnectorLoop) : Label → Option (Connector × Attempt)
  | .start a => some ({ w.connector with wanted := true }, a)
  | .restart a =>
    some ({ w.connector with state := .kDisconnected, retryDelayMs := Connector.kInitRetryDelayMs, wanted := true }, a)
  | .runTimer i a =>
    if i < w.connector.timers.length then some ({ w.connector with timers := w.connector.timers.eraseIdx i }, a)
    else none
  | _ => none

/-- The connections that are open when it returns. -/
def connectionsAfter (w : ConnectorLoop) : Label → Nat
  | .restart _ => w.connections - 1
  | _ => w.connections

section
variable {c : Connector} {a : Attempt}

theorem calls_cases (h : w.calls l = some (c, a)) :
    l = .start a ∧ c = { w.connector with wanted := true } ∨
    l = .restart a ∧
      c = { w.connector with state := .kDisconnected, retryDelayMs := Connector.kInitRetryDelayMs, wanted := true } ∨
    ∃ i, l = .runTimer i a ∧ i < w.connector.timers.length ∧
      c = { w.connector with timers := w.connector.timers.eraseIdx i } := by
  cases l with
  | start b => cases h; exact .inl ⟨rfl, rfl⟩
  | restart b => cases h; exact .inr (.inl ⟨rfl, rfl⟩)
  | runTimer i b =>
    rw [calls] at h
    split at h
    · rename_i hi
      cases h
      exact .inr (.inr ⟨i, rfl, hi, rfl⟩)
    · cases h
  | _ => cases h

theorem step_of_calls (h : w.calls l = some (c, a)) :
    w.step l = c.startInLoop a.sockfd a.savedErrno >>= fun c' => .ok { w with
      connector := c', created := (if c.wanted then [a.sockfd] else []) ++ w.created
      connections := w.connectionsAfter l } := by
  obtain ⟨rfl, rfl⟩ | ⟨rfl, rfl⟩ | ⟨i, rfl, hi, rfl⟩ := calls_cases h
  · rfl
  · rfl
  · rw [step, Connector.runTimer, if_pos hi]
    congr
    funext c'
    by_cases hw : w.connector.wanted = true
    · simp [hi, hw, connectionsAfter]
    · simp [hw, connectionsAfter]

theorem calls_sockets (h : w.calls l = some (c, a)) :
    c.closed = w.connector.closed ∧ c.sockets = w.connector.sockets := by
  obtain ⟨rfl, rfl⟩ | ⟨rfl, rfl⟩ | ⟨i, rfl, hi, rfl⟩ := calls_cases h <;> exact ⟨rfl, rfl⟩

end

theorem step_of_calls_none (h : w.connector.Phase) (hl : w.calls l = none) :
    ∃ (r : Option Nat) (c' : Connector) (connections : Nat), w.step l = .ok { w with
        connector := c', handed := r.toList ++ w.handed, connections } ∧
      Effect w.connector [] r.toList c' ∧ connections ≤ w.connections + r.toList.length := by
  cases l with
  | start a => cases hl
  | restart a => cases hl
  | stop =>
    refine ⟨none, _, _, rfl, ⟨h.congr Iff.rfl rfl rfl ?_, List.Perm.refl _, Nat.le_refl _, id, .inl rfl⟩, Nat.le_refl _⟩
    simp [Connector.stop, Connector.resets]
  | connectionClosed => exact ⟨none, _, _, rfl, h.refl, Nat.sub_le ..⟩
  | handleEvent revents err isSelfConnect =>
    rw [step]
    split
    · rename_i hr
      obtain ⟨r, c', hc', he⟩ := handleEvent_effect h hr revents err isSelfConnect
      exact ⟨r, c', _, hc', he, Nat.le_refl _⟩
    · exact ⟨none, w.connector, w.connections, rfl, h.refl, Nat.le_refl _⟩
  | runTimer i a =>
    rw [calls] at hl
    split at hl
    · cases hl
    · rename_i hi
      refine ⟨none, w.connector, w.connections, ?_, h.refl, Nat.le_refl _⟩
      simp [step, Connector.runTimer, hi]
  | runFunctor =>
    obtain ⟨c', hc', he⟩ := h.runFunctor
    refine ⟨none, c', w.connections, ?_, he, Nat.le_refl _⟩
    rw [step, hc']
    rfl

/-! ## Sockets -/

/-- Every socket was closed, handed over, or is the connector's. -/
structure Owned (w : ConnectorLoop) : Prop where
  phase : w.connector.Phase
  ledger : w.created.Perm (w.handed ++ (w.connector.closed ++ w.connector.sockets))

theorem Owned.effect {c c' : Connector} {made handed : List Nat} {connections : Nat} (h : Owned w)
    (he : Effect c made handed c') (hc : c.closed = w.connector.closed ∧ c.sockets = w.connector.sockets) :
    Owned { connector := c', created := made ++ w.created, handed := handed ++ w.handed, connections } := by
  refine ⟨he.phase, ?_⟩
  have hledger := h.ledger
  rw [← hc.1, ← hc.2] at hledger
  calc (made ++ w.created).Perm (made ++ (w.handed ++ (c.closed ++ c.sockets))) := hledger.append_left made
    _ |>.Perm (w.handed ++ (made ++ (c.closed ++ c.sockets))) := List.perm_append_comm_assoc ..
    _ |>.Perm (w.handed ++ (handed ++ (c'.closed ++ c'.sockets))) := he.sockets.append_left w.handed
    _ |>.Perm (handed ++ w.handed ++ (c'.closed ++ c'.sockets)) := by
      rw [List.append_assoc]
      exact List.perm_append_comm_assoc ..

/-- The connector is not restarted while it connects. -/
def Patient (w : ConnectorLoop) : Label → Prop
  | .restart _ => w.connector.state ≠ .kConnecting
  | _ => True

instance (w : ConnectorLoop) : (l : Label) → Decidable (w.Patient l)
  | .restart _ => inferInstanceAs (Decidable (_ ≠ _))
  | .start _ | .stop | .connectionClosed | .handleEvent .. | .runTimer .. | .runFunctor =>
    inferInstanceAs (Decidable True)

theorem Patient.phase {c : Connector} {a : Attempt} (hp : Patient w l) (h : w.connector.Phase)
    (hc : w.calls l = some (c, a)) : c.Phase := by
  obtain ⟨rfl, rfl⟩ | ⟨rfl, rfl⟩ | ⟨i, rfl, hi, rfl⟩ := calls_cases hc
  · exact h.congr Iff.rfl rfl rfl rfl
  · exact h.congr (iff_of_false (by simp) hp) rfl rfl rfl
  · exact h.congr Iff.rfl rfl rfl rfl

theorem Owned.step (h : Owned w) (hd : Stops (fun f => Connector.asserts f = false) (w.step l)) (hp : Patient w l) :
    ∃ v, w.step l = .ok v ∧ Owned v := by
  cases hcall : w.calls l with
  | some x =>
    obtain ⟨c, a⟩ := x
    rw [step_of_calls hcall] at hd ⊢
    cases hc : c.startInLoop a.sockfd a.savedErrno with
    | ok c' => exact ⟨_, rfl, h.effect ((hp.phase h.phase hcall).startInLoop hc) (calls_sockets hcall)⟩
    | error f =>
      have htrue : Connector.asserts f = true := Connector.startInLoop_stops f hc
      rw [hd f (by rw [hc, error_bind])] at htrue
      cases htrue
  | none =>
    obtain ⟨r, c', n, hv, he, -⟩ := step_of_calls_none h.phase hcall
    exact ⟨_, hv, h.effect he ⟨rfl, rfl⟩⟩

/-- A restart while connecting leaves the socket of the attempt behind. -/
theorem Owned.left_behind (h : Owned w) (hp : ¬ Patient w l) (hv : w.step l = .ok v) :
    v.connector.state ≠ .kConnecting ∧ v.connector.sockets ≠ [] := by
  obtain ⟨a, rfl⟩ : ∃ a, l = .restart a := by
    cases l with
    | restart a => exact ⟨a, rfl⟩
    | _ => exact absurd trivial hp
  have hs : w.connector.state = .kConnecting := not_not.mp hp
  obtain ⟨c', hc', hv⟩ := bind_ok.mp hv
  cases hv
  obtain ⟨hs', ⟨-, hc⟩ | ⟨hw, -⟩⟩ := Connector.startInLoop_ok hc'
  · cases h.phase with
    | idle hn => exact absurd hs hn
    | leaving hn => exact absurd hs hn
    | trying _ ho hsome =>
      cases hc with
      | connecting hnone => simp [hsome] at hnone
      | failed => simp [ho]
  · cases hw

/-- Every run of a connector in which its own assertions hold: each socket is closed once, handed
over once, or the connector's, which has one while it is connecting and none otherwise, exactly as
long as it is not restarted while connecting. -/
theorem sockets_owned_iff_patient (ls : List Label)
    (hls : ∀ f, run step {} ls = .error f → Connector.asserts f = false) :
    (∀ ms, ms <+: ls → ∃ w, run step {} ms = .ok w ∧
      w.created.Perm (w.handed ++ (w.connector.closed ++ w.connector.sockets)) ∧
      w.connector.sockets.length = if w.connector.state = .kConnecting then 1 else 0) ↔
    Meets step Patient {} ls := by
  have hstart : Owned {} := ⟨.idle (by simp) rfl rfl rfl, List.Perm.refl _⟩
  refine Meets.total_iff (fun w h => ⟨h.ledger, h.phase.sockets⟩) (fun w l h hd hp => h.step hd hp)
    (fun w l v h hd hp hv hg => ?_) (meets_of_stops hls) hstart
  obtain ⟨hs, hne⟩ := h.left_behind hp hv
  rw [if_neg hs] at hg
  exact hne (List.eq_nil_of_length_eq_zero hg.2)

/-- An attempt fails, the next one gives a connection, and after its close one is stopped. -/
theorem sockets_owned_iff_patient_three :
    ∃ w, run step {} [.start ⟨3, .EINPROGRESS⟩, .handleEvent { pollerr := true, pollout := true } true false,
        .runFunctor, .runTimer 0 ⟨3, .zero⟩, .handleEvent { pollout := true } false false, .runFunctor,
        .restart ⟨4, .EINPROGRESS⟩, .stop, .runFunctor] = .ok w ∧
      w.created.Perm (w.handed ++ (w.connector.closed ++ w.connector.sockets)) ∧
      w.connector.sockets.length = if w.connector.state = .kConnecting then 1 else 0 := by
  obtain ⟨w, hw, -⟩ := ok_of_map (show (run step {} [.start ⟨3, .EINPROGRESS⟩,
    .handleEvent { pollerr := true, pollout := true } true false, .runFunctor, .runTimer 0 ⟨3, .zero⟩,
    .handleEvent { pollout := true } false false, .runFunctor, .restart ⟨4, .EINPROGRESS⟩, .stop, .runFunctor]).map
      (fun _ => ()) = .ok () by decide +kernel)
  exact (sockets_owned_iff_patient _ (by simp [hw])).mpr (by decide +kernel) _ (List.prefix_refl _)

/-- The restart is refused at once, and the first socket stays open in `channel_`. -/
theorem restart_leaves_socket :
    ∃ w, run step {} [.start ⟨3, .EINPROGRESS⟩, .restart ⟨4, .ECONNREFUSED⟩] = .ok w ∧
      w.connector.state = .kDisconnected ∧ w.connector.sockets = [3] ∧ w.connector.channel = some 3 := by
  obtain ⟨w, hw, he⟩ := ok_of_map (show (run step {} [.start ⟨3, .EINPROGRESS⟩, .restart ⟨4, .ECONNREFUSED⟩]).map
    (fun w => (w.connector.state, w.connector.sockets, w.connector.channel)) =
      .ok (.kDisconnected, [3], some 3) by decide +kernel)
  rw [Prod.mk.injEq, Prod.mk.injEq] at he
  exact ⟨w, hw, he.1, he.2.1, he.2.2⟩

/-! ## Attempts -/

/-- The last attempt is over, no timer will make another one, and its channel was reset. -/
def AtRest (c : Connector) : Prop := c.state = .kDisconnected ∧ c.timers = [] ∧ .resetChannel ∉ c.pendingFunctors

instance (c : Connector) : Decidable (AtRest c) := inferInstanceAs (Decidable (_ ∧ _))

/-- A turn of the loop ends with the functors queued in it: what came of an attempt, a connection
that is closed or a retry timer, comes after its `resetChannel`. -/
def Ordered (w : ConnectorLoop) : Label → Prop
  | .restart _ => w.connections ≠ 0 ∧ .resetChannel ∉ w.connector.pendingFunctors
  | .runTimer _ _ => .resetChannel ∉ w.connector.pendingFunctors
  | _ => True

def Orderly (w : ConnectorLoop) : Label → Prop
  | .start _ => AtRest w.connector
  | l => w.Ordered l

instance (w : ConnectorLoop) : (l : Label) → Decidable (w.Orderly l)
  | .start _ => inferInstanceAs (Decidable (AtRest _))
  | .restart _ => inferInstanceAs (Decidable (_ ∧ _))
  | .runTimer .. => inferInstanceAs (Decidable (_ ∉ _))
  | .stop | .connectionClosed | .handleEvent .. | .runFunctor => inferInstanceAs (Decidable True)

/-- There is one attempt at most, and no other while a connection is open. -/
structure Calm (w : ConnectorLoop) : Prop where
  phase : w.connector.Phase
  load : w.connector.load ≤ 1
  connections : w.connections ≤ 1
  connected : w.connections ≠ 0 → w.connector.state = .kConnected

theorem Calm.disconnected (h : Calm w) (hs : w.connector.state ≠ .kConnected) : w.connections = 0 := by
  by_contra hne
  exact hs (h.connected hne)

theorem Calm.patient (h : Calm w) (ho : Orderly w l) : Patient w l := by
  cases l with
  | restart a =>
    show w.connector.state ≠ .kConnecting
    rw [h.connected ho.1]
    simp
  | _ => trivial

/-- Whenever `startInLoop` is reached, nothing is left of an attempt before. -/
theorem Calm.calls {c : Connector} {a : Attempt} (h : Calm w) (ho : Orderly w l) (hc : w.calls l = some (c, a)) :
    c.state = .kDisconnected ∧ c.channel = none ∧ c.load = 0 ∧ w.connectionsAfter l = 0 := by
  have hload := h.load
  unfold Connector.load at hload ⊢
  obtain ⟨rfl, rfl⟩ | ⟨rfl, rfl⟩ | ⟨i, rfl, hi, rfl⟩ := calls_cases hc
  · obtain ⟨hs, ht, hr⟩ := ho
    refine ⟨hs, h.phase.channel (by simp [hs]) hr, by simp [hs, ht], h.disconnected (by simp [hs])⟩
  · obtain ⟨hn, hr⟩ := ho
    have hs := h.connected hn
    have hone := h.connections
    rw [if_neg (by simp [hs])] at hload
    refine ⟨rfl, h.phase.channel (by simp [hs]) hr, ?_, ?_⟩
    · rw [if_pos rfl]
      exact Nat.le_zero.mp (Nat.le_of_succ_le_succ hload)
    · show w.connections - 1 = 0
      omega
  · have hs : w.connector.state = .kDisconnected := by
      by_contra hs
      rw [if_neg hs] at hload
      omega
    rw [if_pos hs] at hload ⊢
    refine ⟨hs, h.phase.channel (by simp [hs]) ho, ?_, h.disconnected (by simp [hs])⟩
    dsimp only
    rw [List.length_eraseIdx, if_pos hi]
    omega

theorem Calm.step (h : Calm w) (ho : Orderly w l) : ∃ v, w.step l = .ok v ∧ Calm v := by
  cases hcall : w.calls l with
  | some x =>
    obtain ⟨c, a⟩ := x
    obtain ⟨hs, hc, hload, hn⟩ := h.calls ho hcall
    obtain ⟨c', hc'⟩ := Connector.startInLoop_total hs hc a.sockfd a.savedErrno
    have he := ((h.patient ho).phase h.phase hcall).startInLoop hc'
    rw [step_of_calls hcall, hc', ok_bind]
    refine ⟨_, rfl, he.phase, ?_, ?_, fun hne => absurd hn hne⟩
    · have hl := he.load
      rw [hload] at hl
      split at hl
      · exact hl
      · exact Nat.le_succ_of_le hl
    · dsimp only
      omega
  | none =>
    obtain ⟨r, c', n, hv, he, hn⟩ := step_of_calls_none h.phase hcall
    refine ⟨_, hv, he.phase, Nat.le_trans he.load h.load, ?_, fun hne => ?_⟩
    · rcases he.handed with hr | ⟨hs, -, hr⟩
      · rw [hr] at hn
        exact Nat.le_trans hn h.connections
      · rw [hr, h.disconnected (by simp [hs])] at hn
        exact hn
    · rcases he.handed with hr | ⟨-, hs, -⟩
      · refine he.connected (h.connected fun hz => hne ?_)
        rw [hr, hz] at hn
        exact Nat.le_zero.mp hn
      · exact hs

theorem Ordered.orderly {ms : List Label} (hms : ∀ b, .start b ∉ ms) : ∀ {w : ConnectorLoop},
    Meets step Ordered w ms → Meets step Orderly w ms := by
  induction ms with
  | nil => exact fun _ => trivial
  | cons l ms ih =>
    refine fun h => ⟨?_, fun v hv => ih (fun b hb => hms b (List.mem_cons_of_mem _ hb)) (h.2 v hv)⟩
    cases l with
    | start b => exact absurd (List.mem_cons_self ..) (hms b)
    | _ => exact h.1

/-- A `start` that is not at rest may be followed by an assertion that fails: at once, or when
the connection is made, or when the timer fires. -/
theorem at_rest_of_safe (h : Calm w) (hsafe : ∀ a ms, (∀ b, .start b ∉ ms) → Meets step Ordered w (.start a :: ms) →
    ∃ v, run step w (.start a :: ms) = .ok v) : AtRest w.connector := by
  obtain ⟨v, hv⟩ := hsafe ⟨0, .zero⟩ [] (by simp) ⟨trivial, fun _ _ => trivial⟩
  obtain ⟨u, hu, hv⟩ := (run_cons_ok step).mp hv
  cases hv
  obtain ⟨c', hc', hv⟩ := bind_ok.mp hu
  cases hv
  have hs : w.connector.state = .kDisconnected := (Connector.startInLoop_ok hc').1
  have hcon : ({ w.connector with wanted := true } : Connector).connect 0 .zero = .ok c' := by
    rw [Connector.start, Connector.startInLoop, check_of hs] at hc'
    exact hc'
  obtain ⟨⟨⟩, hnone, hc'⟩ := bind_ok.mp hcon
  cases hc'
  have hnone : w.connector.channel = none := check_ok.mp hnone
  have hr : .resetChannel ∉ w.connector.pendingFunctors := by
    cases h.phase with
    | idle _ _ _ hr => exact List.count_eq_zero.mp hr
    | trying _ _ hsome => simp [hnone] at hsome
    | leaving _ _ hsome => simp [hnone] at hsome
  refine ⟨hs, ?_, hr⟩
  by_contra ht
  -- the timer finds the attempt that was just begun
  have hmeets : Meets step Ordered w [.start ⟨0, .zero⟩, .runTimer 0 ⟨1, .zero⟩] := by
    refine ⟨trivial, fun v hv => ⟨?_, fun _ _ => trivial⟩⟩
    rw [hu] at hv
    cases hv
    exact hr
  obtain ⟨v, hv⟩ := hsafe _ _ (by simp) hmeets
  obtain ⟨u, hu', hv⟩ := (run_cons_ok step).mp hv
  rw [hu] at hu'
  cases hu'
  obtain ⟨x, hx, -⟩ := (run_cons_ok step).mp hv
  obtain ⟨c'', hc'', -⟩ := bind_ok.mp hx
  rw [Connector.runTimer, if_pos (List.length_pos_iff.mpr ht)] at hc''
  exact absurd (Connector.startInLoop_ok hc'').1 (by simp)

/-- As long as `start` is called at rest only, and neither a retry timer nor the close of a
connection comes before the `resetChannel` of its attempt, no assertion fails and there is one
attempt at most; and the next call of `start` is safe, whatever follows, exactly at rest. -/
theorem start_safe_iff_at_rest (ls : List Label) (hls : Meets step Orderly {} ls) :
    ∃ w, run step {} ls = .ok w ∧ w.connector.sockets.length + w.connector.timers.length ≤ 1 ∧
      ((∀ a ms, (∀ b, .start b ∉ ms) → Meets step Ordered w (.start a :: ms) →
        ∃ v, run step w (.start a :: ms) = .ok v) ↔ AtRest w.connector) := by
  have hstart : Calm {} := ⟨.idle (by simp) rfl rfl rfl, by decide, by decide, fun h => absurd rfl h⟩
  have hstep : ∀ w l, Calm w → Orderly w l → ∃ v, w.step l = .ok v ∧ Calm v := fun w l h ho => h.step ho
  obtain ⟨w, hw, h⟩ := Meets.total hstep hls hstart
  refine ⟨w, hw, ?_, at_rest_of_safe h, fun hr a ms hms ho => ?_⟩
  · have hload := h.load
    rw [h.phase.sockets]
    unfold Connector.load at hload
    split
    · rename_i hs
      rw [if_neg (by simp [hs])] at hload
      omega
    · omega
  · have hm : Meets step Orderly w (.start a :: ms) := ⟨hr, fun v hv => Ordered.orderly hms (ho.2 v hv)⟩
    obtain ⟨v, hv, -⟩ := Meets.total hstep hm h
    exact ⟨v, hv⟩

/-- A refused attempt is stopped before its retry; the connector is then at rest again. -/
theorem start_safe_iff_at_rest_stopped :
    ∃ w, run step {} [.start ⟨3, .ECONNREFUSED⟩, .stop, .runFunctor, .runTimer 0 ⟨3, .zero⟩] = .ok w ∧
      ∀ a ms, (∀ b, .start b ∉ ms) → Meets step Ordered w (.start a :: ms) →
        ∃ v, run step w (.start a :: ms) = .ok v := by
  obtain ⟨w, hw, -, h⟩ := start_safe_iff_at_rest
    [.start ⟨3, .ECONNREFUSED⟩, .stop, .runFunctor, .runTimer 0 ⟨3, .zero⟩] (by decide +kernel)
  obtain ⟨w', hw', hr⟩ := ok_of_map (show (run step {} [.start ⟨3, .ECONNREFUSED⟩, .stop, .runFunctor,
    .runTimer 0 ⟨3, .zero⟩]).map (fun w => decide (AtRest w.connector)) = .ok true by decide +kernel)
  obtain rfl : w = w' := by simpa using hw.symm.trans hw'
  exact ⟨w, hw, h.mpr (of_decide_eq_true hr)⟩

/-- A second `start`; a `start` before the failed attempt's channel was reset; a `start` before the
retry timer; a `start` after a success that `stop` had given up; and one after the connection was closed. -/
theorem start_fails_assertions :
    run step {} [.start ⟨3, .EINPROGRESS⟩, .start ⟨4, .EINPROGRESS⟩] = .error .startInLoop ∧
    run step {} [.start ⟨3, .EINPROGRESS⟩, .handleEvent { pollerr := true } true false, .start ⟨4, .EINPROGRESS⟩] =
      .error .connecting ∧
    run step {} [.start ⟨3, .ECONNREFUSED⟩, .start ⟨4, .EINPROGRESS⟩, .runTimer 0 ⟨5, .EINPROGRESS⟩] =
      .error .startInLoop ∧
    run step {} [.start ⟨3, .EINPROGRESS⟩, .stop, .handleEvent { pollout := true } false false, .runFunctor,
      .runFunctor, .start ⟨4, .EINPROGRESS⟩] = .error .startInLoop ∧
    run step {} [.start ⟨3, .EINPROGRESS⟩, .handleEvent { pollout := true } false false, .runFunctor, .connectionClosed,
      .start ⟨4, .EINPROGRESS⟩] = .error .startInLoop := by
  refine ⟨?_, ?_, ?_, ?_, ?_⟩
  all_goals exact error_of_map (f := fun _ => ()) (by decide +kernel)

end ConnectorLoop

end Zhengqi
