import Zhengqi.TunnelUpSound
import Mathlib.Data.List.Count

/-!
# The back-pressure of a tunnel

Along every run of the loop in which neither peer closes, no assertion fails, the outputs stay bounded, and a side
that is not read has a write to wait for that makes it read again.
-/

namespace Zhengqi

open Run Valve

namespace Tunnel

variable {t u : Tunnel EPollPoller} {n : Nat} {s : ServerClient}

/-- Neither peer closes its connection, and no read delivers more than `n` bytes. -/
def Label.calm (n : Nat) : Label → Bool
  | .poll _ revents => [ServerClient.kServer, .kClient].all fun s => !(revents s).pollhup || (revents s).pollin
  | .task _ (.data arrived) _ => arrived ≠ [] && arrived.length ≤ n
  | _ => true

theorem quiet_of_calm {ev : Events} (h : (!ev.pollhup || ev.pollin) = true) :
    ∀ task ∈ handleEventWithGuard ev, Quiet task := by
  have hhup : (ev.pollhup && !ev.pollin) = false := by
    rw [Bool.or_eq_true, Bool.not_eq_true'] at h
    rcases h with h | h <;> simp [h]
  intro task ht
  simp only [handleEventWithGuard, hhup, Bool.false_eq_true, if_false, List.nil_append, List.mem_append] at ht
  rcases ht with (ht | ht) | ht <;> split at ht <;> simp_all [Quiet]

theorem count_handleRead (ev : Events) : (handleEventWithGuard ev).count .handleRead ≤ 1 := by
  unfold handleEventWithGuard
  split <;> split <;> split <;> split <;> decide

theorem count_map_handleRead (s s' : ServerClient) (ev : Events) :
    ((handleEventWithGuard ev).map (s, ·)).count (s', .handleRead) ≤ if s = s' then 1 else 0 := by
  split
  · rename_i hs
    rw [← hs, List.count_map_of_injective _ _ fun _ _ h => (Prod.mk.inj h).2]
    exact count_handleRead ev
  · rename_i hs
    refine Nat.le_of_eq (List.count_eq_zero.mpr fun hm => ?_)
    obtain ⟨task, -, heq⟩ := List.mem_map.mp hm
    exact hs (congrArg Prod.fst heq)

/-- A read is reported only on a connection that is read. -/
theorem reading_of_reported {w : World EPollPoller} (h : w.Ready n) {ev : Events}
    (hr : reportable (Poller.registered w.poller w.conn.channel.fd) ev = true)
    (hm : .handleRead ∈ handleEventWithGuard ev) :
    w.conn.reading = true := by
  have hin : (ev.pollin || ev.pollpri || ev.pollrdhup) = true := by
    simp only [handleEventWithGuard, List.mem_append] at hm
    rcases hm with ((hm | hm) | hm) | hm <;> split at hm <;> simp_all
  have hdiff : ev.diff ((interest w.conn.reading (w.conn.outputBuffer.readable ≠ [])).union
    { pollerr := true, pollhup := true }) =
      kNoneEvent := by
    rw [h.watched.synced.registered, ← h.events] at *
    split at hr
    · rw [of_decide_eq_true hr]
      rfl
    · rw [reportable, Bool.and_eq_true, decide_eq_true_iff] at hr
      exact hr.1
  cases hrd : w.conn.reading with
  | true => rfl
  | false =>
    rw [hrd] at hdiff
    simp [Events.diff, Events.union, interest, kNoneEvent] at hdiff
    simp [hdiff] at hin

theorem Up.poll (h : Up n t) {first : ServerClient} {revents : ServerClient → Events}
    (hc : (Label.poll first revents).calm n = true) (hp : t.possible (.poll first revents) = true) :
    ∃ u, t.act (.poll first revents) = .ok u ∧ Up n u := by
  simp only [possible, Bool.and_eq_true, decide_eq_true_iff] at hp
  obtain ⟨⟨hphase, htodo⟩, hserver, hclient⟩ := hp
  have hpend := (h.shape.polls hphase).2
  have hreport : ∀ s, reportable (Poller.registered t.poller (t.conn s).channel.fd) (revents s) = true :=
    (ServerClient.forall_iff .kServer).mpr ⟨hserver, hclient⟩
  have hcalm : ∀ s, ∀ task ∈ handleEventWithGuard (revents s), Quiet task := by
    simp only [Label.calm, List.all_cons, List.all_nil, Bool.and_true, Bool.and_eq_true] at hc
    exact (ServerClient.forall_iff .kServer).mpr ⟨quiet_of_calm hc.1, quiet_of_calm hc.2⟩
  refine ⟨_, rfl, ?_⟩
  generalize hu : ({ t with
      phase := .handleEvents
      todo := (handleEventWithGuard (revents first)).map (first, ·) ++
        (handleEventWithGuard (revents first.other)).map (first.other, ·) } : Tunnel EPollPoller) = u
  have hmem : ∀ s task, (s, task) ∈ u.todo → task ∈ handleEventWithGuard (revents s) := by
    rw [← hu]
    intro s task hm
    rcases List.mem_append.mp hm with hm | hm <;>
      obtain ⟨task', ht, heq⟩ := List.mem_map.mp hm <;> cases heq <;> exact ht
  have hquiet : ∀ x ∈ u.todo, Quiet x.2 := fun x hx => hcalm x.1 x.2 (hmem x.1 x.2 hx)
  have hfunctors : functors u.todo = [] := by
    refine functors_eq_nil fun x hx f hf => ?_
    rcases hquiet x hx with h | h | h <;> rw [h] at hf <;> cases hf
  have hconn : ∀ s, u.conn s = t.conn s := fun s => by rw [← hu]; rfl
  have hpend' : u.pendingFunctors = [] := by rw [← hu]; exact hpend
  have hphase' : u.phase = .handleEvents := by rw [← hu]
  refine ⟨?_, fun s => ?_, fun s => ?_, ?_⟩
  · refine h.linked.congr (fun s => .of_eq (hconn s)) ?_ ?_ ?_ ?_ ?_
    all_goals rw [← hu]
  · rw [hconn]
    exact h.emptied s
  · have hstage := h.valved s
    unfold Valved at hstage ⊢
    rw [htodo, hpend] at hstage
    rw [hconn, hconn, hfunctors, hpend']
    refine hstage.poll fun hr => ?_
    exact reading_of_reported (h.linked.ready s.other) (hreport s.other) (hmem _ _ (of_decide_eq_true hr))
  · rw [hphase', hpend']
    refine ⟨nofun, fun _ => hquiet, nofun, nofun, fun s => ?_⟩
    rw [← hu]
    show List.count _ (_ ++ _) ≤ 1
    rw [List.count_append]
    have h₁ := count_map_handleRead first s (revents first)
    have h₂ := count_map_handleRead first.other s (revents first.other)
    have hne := ServerClient.other_ne first
    split at h₁ <;> split at h₂ <;> first | omega | simp_all

theorem Up.doPendingFunctors (h : Up n t) (hp : t.possible .doPendingFunctors = true) :
    ∃ u, t.act .doPendingFunctors = .ok u ∧ Up n u := by
  simp only [possible, Bool.and_eq_true, decide_eq_true_iff] at hp
  obtain ⟨u, hu, hpeer, hframe, hphase, htodo, hpend⟩ : ∃ u, t.act .doPendingFunctors = .ok u ∧ u.peer = t.peer ∧
      (u.poller = t.poller ∧ u.clientConn = t.clientConn ∧ u.context = t.context ∧ u.registered = t.registered) ∧
      u.phase = .functors ∧ u.todo = t.pendingFunctors.map (fun x => (x.1, .functor x.2)) ∧ u.pendingFunctors = [] :=
    ⟨_, rfl, rfl, ⟨rfl, rfl, rfl, rfl⟩, rfl, rfl, rfl⟩
  obtain ⟨hpoller, hclient, hcontext, hregistered⟩ := hframe
  have hconn : ∀ s, u.conn s = t.conn s := fun s => by rw [Tunnel.conn, hpeer]; rfl
  have hnone : ∀ s, (s, Task.handleRead) ∉ u.todo := by
    intro s hm
    rw [htodo] at hm
    obtain ⟨x, -, hx⟩ := List.mem_map.mp hm
    cases hx
  refine ⟨u, hu, ?_, fun s => ?_, fun s => (h.valved s).congr (by rw [hconn]) (by rw [hconn]) ?_ (by rw [hconn]) ?_, ?_⟩
  · exact h.linked.congr (fun s => .of_eq (hconn s)) hpoller hclient hcontext hregistered (by rw [hpeer])
  · rw [hconn]
    exact h.emptied s
  · simp [Tunnel.reads, hp.2, hnone]
  · rw [htodo, hpend, functors_map, hp.2, List.append_nil]
    rfl
  · rw [hphase, hpend]
    refine ⟨(fun hp => by cases hp), (fun hp => by cases hp), fun _ => ⟨rfl, fun x hx => ?_⟩,
      (fun x hx => by cases hx), fun s => ?_⟩
    · rw [htodo] at hx
      obtain ⟨y, hy, rfl⟩ := List.mem_map.mp hx
      exact ⟨y.2, rfl, h.shape.notices y hy⟩
    · rw [List.count_eq_zero.mpr (hnone s)]
      exact Nat.zero_le _

theorem Up.endIteration (h : Up n t) (hp : t.possible .endIteration = true) :
    ∃ u, t.act .endIteration = .ok u ∧ Up n u := by
  simp only [possible, Bool.and_eq_true, decide_eq_true_iff] at hp
  have hpend := (h.shape.runs hp.1).1
  refine ⟨_, rfl, h.linked.congr (fun _ => .of_eq rfl) rfl rfl rfl rfl rfl, h.emptied, fun s => ?_, ?_⟩
  · exact (h.valved s).congr rfl rfl rfl rfl rfl
  · exact ⟨fun _ => ⟨hp.2, hpend⟩, nofun, nofun, h.shape.notices, h.shape.once⟩

theorem Up.task (h : Up n t) (hn : n ≤ 2 ^ 60) {wr : WriteResult} {rr : ReadResult} {locked : Bool}
    (hc : (Label.task wr rr locked).calm n = true) : ∃ u, t.act (.task wr rr locked) = .ok u ∧ Up n u := by
  cases ht : t.todo with
  | nil => exact ⟨t, by simp only [act, ht]; rfl, h⟩
  | cons x todo =>
    obtain ⟨s, task⟩ := x
    have hshape := h.shape
    rw [ht] at hshape
    have hact : t.act (.task wr rr locked) = ({ t with todo } : Tunnel EPollPoller).runTask s wr rr locked task := by
      simp only [act, ht]
    rw [hact]
    by_cases hf : ∃ f, task = .functor f
    · obtain ⟨f, rfl⟩ := hf
      have hphase : t.phase = .functors := by
        cases hp : t.phase with
        | poll =>
          rw [hp] at hshape
          exact absurd (hshape.polls rfl).1 (List.cons_ne_nil _ _)
        | handleEvents =>
          rw [hp] at hshape
          rcases hshape.handles rfl _ List.mem_cons_self with h | h | h <;> cases h
        | functors => rfl
      obtain ⟨f', hf', hnotice⟩ := (hshape.runs hphase).2 _ List.mem_cons_self
      cases hf'
      exact h.functor ht hnotice wr rr locked
    · have hf' : ∀ f, task ≠ .functor f := fun f hf' => hf ⟨f, hf'⟩
      rcases hshape.handles (hshape.handling hf') _ List.mem_cons_self with rfl | rfl | rfl
      · exact h.idle ht hf' (body_eq s wr _ (by decide) _) rfl
      · cases rr with
        | data arrived =>
          simp only [Label.calm, Bool.and_eq_true, decide_eq_true_iff] at hc
          exact h.relay hn ht hc.1 hc.2 wr locked
        | error e =>
          exact h.idle ht hf' (body_eq s wr _ (by decide) _) rfl
      · exact h.flush ht wr rr locked

theorem Up.step (h : Up n t) (hn : n ≤ 2 ^ 60) {l : Label} (hc : l.calm n = true) : ∃ u, t.step l = .ok u ∧ Up n u := by
  by_cases hp : t.possible l = true
  · rw [Tunnel.step, if_pos hp]
    cases l with
    | poll first revents => exact h.poll hc hp
    | task wr rr locked => exact h.task hn hc
    | doPendingFunctors => exact h.doPendingFunctors hp
    | endIteration => exact h.endIteration hp
    | removeConnectionInLoop =>
      rw [possible, h.linked.removals] at hp
      cases hp
  · exact ⟨t, if_neg hp, h⟩

/-! ## The start -/

theorem accept_ready {p : EPollPoller} {addr : Nat} {sockfd : Int} {sameLoop : Bool} {w : World EPollPoller}
    (h : accept p addr sockfd sameLoop = .ok w) :
    w.Ready 0 ∧ w.conn.reading = false ∧ w.conn.writeCompleteCallback = false ∧ w.conn.inputBuffer.Emptied ∧
      w.conn.outputBuffer.readable = [] := by
  obtain ⟨v, hv, h⟩ := bind_ok.mp h
  obtain ⟨x, hx, h⟩ := bind_ok.mp h
  cases h
  obtain ⟨q, c, hc, rfl⟩ := World.newConnection_inv hv
  obtain ⟨-, hwatch, -, hevents, -⟩ := EPollPoller.Attends.of_established hc
  rw [World.runInLoop, World.stopReadInLoop, if_pos (.inl rfl)] at hx
  obtain ⟨y, hy, hx⟩ := bind_ok.mp hx
  obtain ⟨q', c', hc', rfl⟩ := World.onChannel_inv hy
  cases hx
  obtain ⟨hwatch', -, hevents', -⟩ := hwatch.of_update (.inr (by rw [hevents]; decide)) hc'
  have hempty := Buffer.fresh_readable Buffer.kInitialSize
  refine ⟨⟨rfl, rfl, rfl, Buffer.fresh_wf (by decide), by rw [hempty]; exact Nat.le_refl _, ?_, hwatch'⟩, rfl, rfl,
    Buffer.fresh_emptied, hempty⟩
  rw [hevents', hevents, hempty]
  exact interest_diff_read true false

theorem Shape.start : Shape .handleEvents [] [] := by
  refine ⟨fun hp => ?_, fun _ _ hx => ?_, fun hp => ?_, fun _ hx => ?_, fun _ => Nat.zero_le _⟩
  · cases hp
  · cases hx
  · cases hp
  · cases hx

/-- The tunnel in which `startRead` is called, with `clientConn_` as it is set right after that. -/
def paired (w : World EPollPoller) (q : EPollPoller) (c : Channel) : Tunnel EPollPoller :=
  { ({ peer := fun
        | .kServer => { conn := w.conn, effects := w.effects, sameLoop := w.sameLoop }
        | .kClient => {
          conn := {
            state := .kConnected, channel := c
            inputBuffer := Buffer.fresh Buffer.kInitialSize, outputBuffer := Buffer.fresh Buffer.kInitialSize }
          effects := [.connectionCallback true] }
       poller := q } : Tunnel EPollPoller).setHighWaterMarkCallback .kClient with context := true, clientConn := true }

section
variable {w : World EPollPoller} {q : EPollPoller} {c : Channel} {addr : Nat} {sockfd : Int}

theorem paired_linked (hw : w.Ready 0) (hc : Channel.enableReading w.poller { addr, fd := sockfd } = .ok (q, c)) :
    Linked 0 (paired w q c) := by
  obtain ⟨hnone, hwatch, hfd, hevents, hothers⟩ := EPollPoller.Attends.of_established hc
  have hne : w.conn.channel.fd ≠ sockfd := by
    intro heq
    have hheld := hw.watched.held.channels
    rw [heq, hnone] at hheld
    cases hheld
  have hempty := Buffer.fresh_readable Buffer.kInitialSize
  have hserver : ((paired w q c).world .kServer).Ready 0 := hw.congr (.of_eq rfl) (hothers _ hne hw.watched)
  have hclient : ((paired w q c).world .kClient).Ready 0 := by
    refine ⟨rfl, rfl, rfl, Buffer.fresh_wf (by decide), ?_, ?_, hwatch⟩
    · show (Buffer.fresh Buffer.kInitialSize).readable.length ≤ 0
      rw [hempty]
      exact Nat.le_refl _
    · show c.events = interest true (decide ((Buffer.fresh Buffer.kInitialSize).readable ≠ []))
      rw [hevents, hempty]
      rfl
  exact ⟨(ServerClient.forall_iff .kServer).mpr ⟨hserver, hclient⟩, fun he => hne (he.trans hfd), rfl, rfl, rfl, rfl⟩

/-- Nothing has come in on the accepted connection, so all that is left of `onClientConnection` is `startRead`. -/
theorem newConnection_eq {r : WriteResult} (hw : w.Ready 0) (hreading : w.conn.reading = false)
    (hin : w.conn.inputBuffer.Emptied) (h : newConnection w addr sockfd r = .ok t) :
    ∃ q c p' c', Linked 0 (paired w q c) ∧
      t = (paired w q c).put .kServer (((paired w q c).world .kServer).rearmed p' c' true) ∧
      Linked 0 t := by
  obtain ⟨v, hv, h⟩ := bind_ok.mp h
  obtain ⟨q, c, hc, rfl⟩ := World.newConnection_inv hv
  have hlinked := paired_linked hw hc
  obtain ⟨p', c', hstart, hrearmed, htends⟩ := (hlinked.ready .kServer).startReadInLoop hreading
  have ht : t = (paired w q c).put .kServer (((paired w q c).world .kServer).rearmed p' c' true) := by
    have hzero : w.conn.inputBuffer.readableBytes = 0 := by
      rw [hin.wf.readableBytes_eq_zero, hin.readable]
    obtain ⟨-, h⟩ | ⟨hn, -⟩ := ite_ok h
    swap
    · exact absurd rfl hn
    obtain ⟨u, hu, h⟩ := bind_ok.mp h
    obtain ⟨x, hx, hu⟩ := bind_ok.mp hu
    cases hstart.symm.trans hx
    cases hu
    refine (Except.ok.inj ((if_neg ?_).symm.trans h)).symm
    exact hzero ▸ Nat.lt_irrefl 0
  refine ⟨q, c, p', c', hlinked, ht, ?_⟩
  rw [ht]
  exact hlinked.put (s := .kServer) hrearmed htends rfl

/-- The tunnel starts with both connections up. -/
theorem newConnection_up {r : WriteResult} (n : Nat) (hw : w.Ready 0) (hreading : w.conn.reading = false)
    (harmed : w.conn.writeCompleteCallback = false) (hin : w.conn.inputBuffer.Emptied)
    (h : newConnection w addr sockfd r = .ok t) : Up n t := by
  obtain ⟨q, c, p', c', hlinked, ht, hput⟩ := newConnection_eq hw hreading hin h
  have hsconn : t.conn .kServer = { w.conn with channel := c', reading := true } := by
    rw [ht, conn_put]
    rfl
  have hcconn : t.conn .kClient = (paired w q c).conn .kClient := by
    rw [ht]
    exact conn_put_other (paired w q c) .kServer _
  have hidle : t.phase = .handleEvents ∧ t.todo = [] ∧ t.pendingFunctors = [] := by
    rw [ht]
    exact ⟨rfl, rfl, rfl⟩
  have hlevel : ∀ s, (t.conn s).outputBuffer.readable.length < kHighWaterMark := fun s => by
    have hsize : (t.conn s).outputBuffer.readable.length ≤ 0 := (hput.ready s).size
    exact Nat.lt_of_le_of_lt hsize (by decide)
  refine ⟨⟨fun s => (hput.ready s).mono (Nat.le_trans (hput.ready s).size (Nat.zero_le _)), hput.fds, hput.clientConn,
    hput.context, hput.registered, hput.removals⟩, (ServerClient.forall_iff .kServer).mpr ⟨?_, ?_⟩,
    (ServerClient.forall_iff .kServer).mpr ⟨?_, ?_⟩, ?_⟩
  · rw [hsconn]
    exact hin
  · show (t.conn .kClient).inputBuffer.Emptied
    rw [hcconn]
    exact Buffer.fresh_emptied
  · unfold Valved
    rw [hidle.2.1, hidle.2.2]
    refine .flowing ?_ ?_ (hlevel _)
    · show (t.conn .kClient).reading = true
      rw [hcconn]
      rfl
    · rw [hsconn]
      exact harmed
  · unfold Valved
    rw [hidle.2.1, hidle.2.2]
    refine .flowing ?_ ?_ (hlevel _)
    · show (t.conn .kServer).reading = true
      rw [hsconn]
    · show (t.conn .kClient).writeCompleteCallback = false
      rw [hcconn]
      rfl
  · rw [hidle.1, hidle.2.1, hidle.2.2]
    exact Shape.start

end

/-- Every run of the tunnel from its start, while neither peer closes. -/
theorem run_up {p : EPollPoller} {serverAddr clientAddr : Nat} {serverFd clientFd : Int} {sameLoop : Bool}
    {w : World EPollPoller} {r : WriteResult} (hw : accept p serverAddr serverFd sameLoop = .ok w)
    (ht : newConnection w clientAddr clientFd r = .ok t) (hn : n ≤ 2 ^ 60) {ls : List Label}
    (hls : ∀ l ∈ ls, l.calm n = true) :
    ∃ u, run step t ls = .ok u ∧ Up n u := by
  obtain ⟨hready, hreading, harmed, hin, -⟩ := accept_ready hw
  exact Meets.total (C := fun _ l => l.calm n = true) (fun t l h hc => h.step hn hc) (.of_forall fun l hl _ => hls l hl)
    (newConnection_up n hready hreading harmed hin ht)

/-- While neither peer closes, no run of the tunnel fails, and neither output grows beyond the high water mark by
more than a read. -/
theorem tunnel_output_bounded {p : EPollPoller} {serverAddr clientAddr : Nat}
    {serverFd clientFd : Int} {sameLoop : Bool}
    {w : World EPollPoller} {r : WriteResult} (hw : accept p serverAddr serverFd sameLoop = .ok w)
    (ht : newConnection w clientAddr clientFd r = .ok t) (hn : n ≤ 2 ^ 60) (ls : List Label)
    (hls : ∀ l ∈ ls, l.calm n = true) :
    ∃ u, run step t ls = .ok u ∧
      ∀ s, (u.conn s).state = .kConnected ∧ (u.conn s).outputBuffer.readable.length < kHighWaterMark + n := by
  obtain ⟨u, hu, h⟩ := run_up hw ht hn hls
  refine ⟨u, hu, fun s => ⟨(h.linked.ready s).state, ?_⟩⟩
  have hsize : (u.conn s).outputBuffer.readable.length ≤ kHighWaterMark - 1 + n := (h.linked.ready s).size
  unfold kHighWaterMark at hsize ⊢
  omega

theorem tunnel_output_bounded_start : ∃ (w : World EPollPoller) (t u : Tunnel EPollPoller),
    accept EPollPoller.empty 1 5 true = .ok w ∧ newConnection w 2 6 (.room 0) = .ok t ∧
      run step t [.doPendingFunctors, .endIteration,
        .poll .kServer fun | .kServer => { pollin := true } | .kClient => {},
        .task (.room 2) (.data [1, 2, 3]) false] = .ok u ∧
      (u.conn .kClient).outputBuffer.readable.length < kHighWaterMark + 3 := by
  obtain ⟨w, hw, he⟩ := ok_of_map (show (accept EPollPoller.empty 1 5 true).map (fun w =>
    (newConnection w 2 6 (.room 0)).map fun _ => ()) = .ok (.ok ()) by decide +kernel)
  obtain ⟨t, ht, -⟩ := ok_of_map he
  obtain ⟨u, hu, h⟩ := tunnel_output_bounded (n := 3) hw ht (by decide) [.doPendingFunctors, .endIteration,
    .poll .kServer fun | .kServer => { pollin := true } | .kClient => {}, .task (.room 2) (.data [1, 2, 3]) false]
    (by decide)
  exact ⟨w, t, u, hw, ht, hu, (h .kClient).2⟩

/-- While neither peer closes: when the loop waits for events, each connection is read and the output it feeds is
below the mark, or that output is not empty and the loop waits to write it. -/
theorem tunnel_never_stalls {p : EPollPoller} {serverAddr clientAddr : Nat} {serverFd clientFd : Int} {sameLoop : Bool}
    {w : World EPollPoller} {r : WriteResult} (hw : accept p serverAddr serverFd sameLoop = .ok w)
    (ht : newConnection w clientAddr clientFd r = .ok t) (hn : n ≤ 2 ^ 60) (ls : List Label)
    (hls : ∀ l ∈ ls, l.calm n = true) (hu : run step t ls = .ok u) (hp : u.phase = .poll) (s : ServerClient) :
    ((u.conn s).reading = true → (u.conn s.other).outputBuffer.readable.length < kHighWaterMark ∧
      ∃ ev, Poller.registered u.poller (u.conn s).channel.fd = some ev ∧ ev.pollin = true) ∧
    ((u.conn s).reading = false → (u.conn s.other).outputBuffer.readable ≠ [] ∧
      ∃ ev, Poller.registered u.poller (u.conn s.other).channel.fd = some ev ∧ ev.pollout = true) := by
  obtain ⟨u', hu', h⟩ := run_up hw ht hn hls
  rw [hu] at hu'
  cases hu'
  obtain ⟨htodo, hpend⟩ := h.shape.polls hp
  have hstage := h.valved s.other
  unfold Valved at hstage
  rw [htodo, hpend, ServerClient.other_other] at hstage
  obtain ⟨-, hshut, hopen⟩ := hstage.shut_iff
  have hregistered : ∀ s, interest (u.conn s).reading ((u.conn s).outputBuffer.readable ≠ []) ≠ kNoneEvent →
      Poller.registered u.poller (u.conn s).channel.fd =
        some (interest (u.conn s).reading ((u.conn s).outputBuffer.readable ≠ [])) := by
    intro s hne
    have hready := h.linked.ready s
    have hr := hready.watched.synced.registered
    rw [hready.events] at hr
    exact hr.trans (if_neg hne)
  constructor
  · intro hr
    refine ⟨hopen hr, _, hregistered s ?_, hr⟩
    simp [interest_eq_none, hr]
  · intro hr
    have hne : (u.conn s.other).outputBuffer.readable ≠ [] := List.length_pos_iff.mp (hshut hr)
    refine ⟨hne, _, hregistered s.other ?_, decide_eq_true hne⟩
    simp [interest_eq_none, hne]

theorem tunnel_never_stalls_start : ∃ (w : World EPollPoller) (t u : Tunnel EPollPoller),
    accept EPollPoller.empty 1 5 true = .ok w ∧ newConnection w 2 6 (.room 0) = .ok t ∧
      run step t [.doPendingFunctors, .endIteration,
        .poll .kServer fun | .kServer => { pollin := true } | .kClient => {},
        .task (.room 2) (.data [1, 2, 3]) false, .doPendingFunctors, .endIteration] = .ok u ∧
      (u.conn .kServer).reading = true ∧
      ∃ ev, Poller.registered u.poller (u.conn .kServer).channel.fd = some ev ∧ ev.pollin = true := by
  obtain ⟨w, hw, he⟩ := ok_of_map (show (accept EPollPoller.empty 1 5 true).map (fun w =>
    (newConnection w 2 6 (.room 0)).map fun t => (run step t [.doPendingFunctors, .endIteration,
      .poll .kServer fun | .kServer => { pollin := true } | .kClient => {}, .task (.room 2) (.data [1, 2, 3]) false,
      .doPendingFunctors, .endIteration]).map fun u => (u.phase, (u.conn .kServer).reading)) =
    .ok (.ok (.ok (.poll, true))) by decide +kernel)
  obtain ⟨t, ht, he⟩ := ok_of_map he
  obtain ⟨u, hu, he⟩ := ok_of_map he
  rw [Prod.mk.injEq] at he
  have h := tunnel_never_stalls (n := 3) hw ht (by decide) _ (by decide) hu he.1 .kServer
  exact ⟨w, t, u, hw, ht, hu, he.2, (h.1 he.2).2⟩

end Tunnel

end Zhengqi
