import Zhengqi.ServerEndSound
import Zhengqi.ServerPool

/-!
# The end of a server with its pool

Runs of `ServerPool`. Up to `~TcpServer` the stages of `ServerStages` hold, and from there on
the fates of `ServerEndSound`, as long as no close comes in and no loop quits with a
`connectDestroyed` behind its batch. Otherwise the server is spoiled for good: a functor bound
to it waits in the base loop, or a `connectDestroyed` is lost.
-/

namespace Zhengqi

open Run TcpServer

namespace PooledServer

variable {w w' : PooledServer} {l : TcpServer.Label} {conns : List Nat} {conn loop : Nat} {f : ServerFunctor}

/-! ## Steps -/

theorem quits_iff : w.quits loop = true ↔ (loop ≠ 0 ∧ loop ≤ w.server.numThreads ∧ w.shared = false) ∧
    ((∃ l, w.ending = .quit l ∧ loop < l) ∨ (∃ l, w.ending = .join l ∧ loop ≤ l) ∨ w.ending = .down) := by
  unfold quits
  cases w.ending <;> simp [and_assoc]

theorem quits_quit {l : Nat} (he : w.ending = .quit l) : w.quits loop = true ↔
    (loop ≠ 0 ∧ loop ≤ w.server.numThreads ∧ w.shared = false) ∧ loop < l := by
  rw [quits_iff, he]
  simp

theorem quits_join {l : Nat} (he : w.ending = .join l) : w.quits loop = true ↔
    (loop ≠ 0 ∧ loop ≤ w.server.numThreads ∧ w.shared = false) ∧ loop ≤ l := by
  rw [quits_iff, he]
  simp

theorem not_body_of_quits (h : w.quits loop = true) (rest : List Nat) : w.ending ≠ .body rest := by
  intro he
  simp [quits, he] at h

theorem quits_congr (he : w'.ending = w.ending) (hs : w'.shared = w.shared)
    (hn : w'.server.numThreads = w.server.numThreads) : w'.quits = w.quits := by
  funext loop
  rw [quits, quits, he, hs, hn]

theorem act_of_ok {v : LoggedServer} (h : w.toLoggedServer.step l = .ok v) :
    w.act l = .ok { w with toLoggedServer := v, phase := w.phaseAfter l } := by
  rw [act, h]
  rfl

theorem settle_of_ok {server : TcpServer} {objects : Connections} (starts : List Start)
    (h : server.objects.release server.held = .ok objects) :
    w.settle server starts = .ok { w with server := { server with objects }, log := w.log ++ starts } := by
  rw [settle, h]
  rfl

theorem settle_ok {server : TcpServer} {starts : List Start} (h : w.settle server starts = .ok w') :
    ∃ objects, w' = { w with server := { server with objects }, log := w.log ++ starts } := by
  obtain ⟨objects, -, h⟩ := bind_ok.mp h
  exact ⟨objects, (Except.ok.inj h).symm⟩

theorem behind_suffix (w : PooledServer) (loop : Nat) : w.behind loop <:+ w.server.queues loop := by
  unfold behind
  split
  · exact List.nil_suffix
  · exact List.drop_suffix _ _
  · exact List.suffix_refl _

theorem pop_ne_ended {phase : IoPhase} (h : phase ≠ .ended) : phase.pop ≠ .ended := by
  unfold IoPhase.pop
  split
  · simp
  · exact h

/-! ## Before the destructor -/

structure Up (w : PooledServer) : Prop where
  up : w.ending = .up
  inv : w.server.Inv w.log
  plain : w.server.Plain
  running : ∀ loop, w.phase loop ≠ .ended

theorem setPhase_ne_ended {phase : IoPhase} (h : ∀ l, w.phase l ≠ .ended) (hp : phase ≠ .ended) (l : Nat) :
    Function.update w.phase loop phase l ≠ .ended := by
  by_cases hl : l = loop
  · rwa [hl, Function.update_self]
  · rw [Function.update_of_ne hl]
    exact h l

theorem Up.act (h : w.Up) (hc : w.toLoggedServer.Closing l) (hd : l ≠ .dtor) : ∃ w', w.act l = .ok w' ∧ w'.Up := by
  obtain ⟨s, hs, hinv⟩ := LoggedServer.inv_act h.inv (LoggedServer.orderly_of_closing hc hd)
  have hplain := h.plain.act hc hd hs
  obtain ⟨objects, hr, hperm, hinv⟩ := hinv.release
  refine ⟨_, act_of_ok (LoggedServer.step_of_act hs hr), h.up, hinv, ?_, fun loop => ?_⟩
  · exact ⟨fun c hm => hplain.states c (hperm.mem_iff.mp hm), hplain.functors⟩
  · change w.phaseAfter l loop ≠ .ended
    unfold phaseAfter
    split
    · exact setPhase_ne_ended h.running (pop_ne_ended (h.running _)) loop
    · exact h.running loop

theorem Up.step {l : PoolLabel} (h : w.Up) (hc : w.Closing l) (hd : l ≠ .dtor) : ∃ w', w.step l = .ok w' ∧ w'.Up := by
  cases l with
  | server l =>
    rw [PooledServer.step]
    cases hp : w.possible l with
    | false => exact ⟨w, rfl, h⟩
    | true => exact h.act hc fun hl => by simp [hl, possible] at hp
  | swap loop =>
    refine ⟨_, rfl, ?_⟩
    unfold PooledServer.swap
    split
    · exact ⟨h.up, h.inv, h.plain, setPhase_ne_ended h.running (by simp)⟩
    · exact h
  | iterate loop =>
    have hq : w.quits loop = false := by simp [quits, h.up]
    rw [PooledServer.step, iterate, hq]
    split
    · exact ⟨_, rfl, h.up, h.inv, h.plain, setPhase_ne_ended h.running (by simp)⟩
    · exact ⟨w, rfl, h⟩
  | dtor => exact absurd rfl hd

/-! ## From the destructor on -/

structure Leaving (conns : List Nat) (w : PooledServer) : Prop where
  past : w.ending ≠ .up
  ended : w.server.Ended w.log conns w.ending.rest
  nodup : w.ending.rest.Nodup
  down : w.ending = .down → w.server.destroyed = true
  pool : ∀ loop, w.ending = .quit loop ∨ w.ending = .join loop →
    loop ≠ 0 ∧ loop ≤ w.server.numThreads ∧ w.shared = false
  stopped : ∀ loop, w.phase loop = .ended → w.quits loop = true
  clear : ∀ loop, w.quits loop = true → ∀ f ∈ w.behind loop, f.conn ∉ conns

/-- The thread of one loop goes on, and `~TcpServer` does not. -/
theorem Leaving.move (h : w.Leaving conns) (loop : Nat) (he : w'.ending = w.ending) (hs : w'.shared = w.shared)
    (hn : w'.server.numThreads = w.server.numThreads) (hd : w'.server.destroyed = w.server.destroyed)
    (hend : w'.server.Ended w'.log conns w.ending.rest) (hp : ∀ l, l ≠ loop → w'.phase l = w.phase l)
    (hq : ∀ l, l ≠ loop → w'.server.queues l = w.server.queues l) (hstop : w'.phase loop = .ended → w.quits loop = true)
    (hclear : w.quits loop = true → ∀ f ∈ w'.behind loop, f.conn ∉ conns) : w'.Leaving conns := by
  have hquits := quits_congr he hs hn
  constructor
  case past => exact he ▸ h.past
  case ended => exact he ▸ hend
  case nodup => exact he ▸ h.nodup
  case down =>
    rw [he, hd]
    exact h.down
  case pool =>
    rw [he, hs, hn]
    exact h.pool
  case stopped =>
    intro l hl
    rw [hquits]
    by_cases hll : l = loop
    · subst hll
      exact hstop hl
    · exact h.stopped l (hp l hll ▸ hl)
  case clear =>
    intro l hl
    rw [hquits] at hl
    by_cases hll : l = loop
    · subst hll
      exact hclear hl
    · rw [behind, hp l hll, hq l hll]
      exact h.clear l hl

theorem Leaving.runFunctor (h : w.Leaving conns) (hp : w.runs loop = true) :
    ∃ w', w.act (.runFunctor loop) = .ok w' ∧ w'.Leaving conns := by
  obtain ⟨s, hs, hend, ha, hq⟩ := h.ended.runFunctor loop
  obtain ⟨objects, hr, hend⟩ := hend.release
  refine ⟨_, act_of_ok (LoggedServer.step_of_act (l := .runFunctor loop) hs hr),
    h.move loop rfl rfl ha.2.2.1 ha.2.2.2.2.2 hend (fun l hl => ?_) (fun l hl => ?_) (fun he => ?_) fun hquit => ?_⟩
  · exact Function.update_of_ne hl ..
  · exact (congrFun hq l).trans (Function.update_of_ne hl ..)
  · apply h.stopped
    by_contra hn
    exact pop_ne_ended hn ((Function.update_self ..).symm.trans he)
  · -- the functor was one of the batch, and what is behind it stays there
    rw [runs, if_neg (quits_iff.mp hquit).1.1] at hp
    have hclear := h.clear loop hquit
    cases hphase : w.phase loop with
    | functors left =>
      cases left with
      | zero => simp [hphase, IoPhase.hasFunctors] at hp
      | succ left =>
        have hb : ∀ v : PooledServer, v.phase loop = .functors left →
          v.server.queues loop = (w.server.queues loop).tail →
            v.behind loop = w.behind loop := by
          intro v hv hvq
          rw [behind, behind, hphase, hv, hvq]
          exact List.drop_tail
        rw [hb]
        · exact hclear
        · simp [phaseAfter, hphase, IoPhase.pop]
        · exact (congrFun hq loop).trans (Function.update_self ..)
    | _ => simp [hphase, IoPhase.hasFunctors] at hp

theorem Leaving.server (h : w.Leaving conns) (hc : w.toLoggedServer.Closing l) (hq : w.Calm conns (.server l))
    (hp : w.possible l = true) : ∃ w', w.act l = .ok w' ∧ w'.Leaving conns := by
  -- the user's code keeps or drops a pointer
  have hkept : ∀ l kept, w.server.act l = .ok { w.server with kept } → w.server.starts l = [] →
    w.phaseAfter l = w.phase →
      ∃ w', w.act l = .ok w' ∧ w'.Leaving conns := by
    intro l kept hact hstarts hphase
    obtain ⟨objects, hr, hend⟩ := (h.ended.kept kept).release
    refine ⟨_, act_of_ok (LoggedServer.step_of_act hact hr), h.move 0 rfl rfl rfl rfl ?_ ?_ (fun _ _ => rfl) ?_ ?_⟩
    · dsimp only
      rw [hstarts, List.append_nil]
      exact hend
    · intro l _
      exact congrFun hphase l
    · intro he
      exact h.stopped 0 ((congrFun hphase 0).symm.trans he)
    · intro hquit
      exact absurd rfl (quits_iff.mp hquit).1.1
  cases l with
  | runFunctor loop => exact h.runFunctor hp
  | handleClose conn => exact absurd hp (by rw [show w.possible _ = false from hq]; simp)
  | keep conn =>
    cases hk : w.server.knows conn with
    | true => exact hkept _ (w.server.kept ++ [conn]) (by rw [TcpServer.act, hk]; rfl) rfl rfl
    | false => exact hkept _ w.server.kept (by rw [TcpServer.act, hk]; rfl) rfl rfl
  | drop conn => exact hkept _ _ rfl rfl rfl
  | accept connfd => exact absurd (of_decide_eq_true hp) h.past
  | acceptFails => exact absurd (of_decide_eq_true hp) h.past
  | shutdown conn => exact hc.elim
  | forceClose conn => exact hc.elim
  | dtor => cases hp

theorem Leaving.setPhase {phase : IoPhase} (h : w.Leaving conns) (hp : phase ≠ .ended)
    (hb : (w.setPhase loop phase).behind loop = []) : (w.setPhase loop phase).Leaving conns := by
  refine h.move loop rfl rfl rfl rfl h.ended (fun l hl => Function.update_of_ne hl ..) (fun _ _ => rfl)
    (fun he => ?_) fun _ => ?_
  · exact absurd ((Function.update_self ..).symm.trans he) hp
  · rw [hb]
    simp

theorem Leaving.swap (h : w.Leaving conns) (loop : Nat) : (w.swap loop).Leaving conns := by
  unfold PooledServer.swap
  split
  · exact h.setPhase (by simp) (by simp [behind, PooledServer.setPhase])
  · exact h

theorem Leaving.iterate (h : w.Leaving conns) (loop : Nat) : ∃ w', w.iterate loop = .ok w' ∧ w'.Leaving conns := by
  unfold PooledServer.iterate
  by_cases hp : w.phase loop = .functors 0
  · rw [if_pos hp]
    cases hquit : w.quits loop with
    | true =>
      have hclear : ∀ f ∈ w.server.queues loop, f.conn ∉ conns := by
        have hb := h.clear loop hquit
        rwa [behind, hp] at hb
      obtain ⟨objects, hr, hend⟩ := (h.ended.dropQueue hclear).release
      refine ⟨_, settle_of_ok [] hr, h.move loop rfl rfl rfl rfl ?_ (fun l hl => Function.update_of_ne hl ..)
        (fun l hl => Function.update_of_ne hl ..) (fun _ => hquit) fun _ => ?_⟩
      · dsimp only
        rw [List.append_nil]
        exact hend
      · simp [behind, PooledServer.setPhase]
    | false => exact ⟨_, rfl, h.setPhase (by simp) (by simp [behind, PooledServer.setPhase])⟩
  · rw [if_neg hp]
    exact ⟨w, rfl, h⟩

/-! ## The destructor goes on -/

theorem quits_next (hq : ∀ l, w.quits l = true ↔ (l ≠ 0 ∧ l ≤ w.server.numThreads ∧ w.shared = false) ∧ l < loop) :
    (w.next loop).quits = w.quits := by
  funext l
  rw [Bool.eq_iff_iff, hq, quits_iff]
  unfold PooledServer.next
  split
  · simp
  · rename_i hn
    simp only [Bool.not_eq_true', not_and, Nat.not_le] at hn
    simp only [reduceCtorEq, false_and, exists_const, or_true, and_true, iff_self_and]
    rintro ⟨-, hl, hs⟩
    exact Nat.lt_of_le_of_lt hl (hn hs)

theorem behind_next (w : PooledServer) (loop : Nat) : (w.next loop).behind = w.behind := by
  unfold PooledServer.next
  split <;> rfl

theorem Leaving.next (h : w.Leaving conns) (hrest : w.ending.rest = []) (h0 : loop ≠ 0)
    (hq : ∀ l, w.quits l = true ↔ (l ≠ 0 ∧ l ≤ w.server.numThreads ∧ w.shared = false) ∧ l < loop) :
    (w.next loop).Leaving conns := by
  have hend := h.ended
  rw [hrest] at hend
  have hphase : (w.next loop).phase = w.phase := by
    unfold PooledServer.next
    split <;> rfl
  constructor
  case stopped =>
    rw [hphase, quits_next hq]
    exact h.stopped
  case clear =>
    rw [behind_next, quits_next hq]
    exact h.clear
  all_goals unfold PooledServer.next; split
  case past.isTrue => simp
  case past.isFalse => simp
  case ended.isTrue => exact hend
  case ended.isFalse => exact hend.down
  case nodup.isTrue => exact List.nodup_nil
  case nodup.isFalse => exact List.nodup_nil
  case down.isTrue => simp
  case down.isFalse => simp
  case pool.isTrue hn =>
    rintro l (he | he)
    · cases he
      exact ⟨h0, hn.2, by simpa using hn.1⟩
    · cases he
  case pool.isFalse => simp

/-- A connection's `connectDestroyed` is the last of its functors. -/
theorem Leaving.destroyed_behind (h : w.Leaving conns) (hrest : w.ending.rest = []) (hf : f ∈ w.behind loop)
    (hin : f.conn ∈ conns) : .connectDestroyed f.conn ∈ w.behind loop := by
  obtain ⟨c, hc, hid⟩ := h.ended.functors loop f ((w.behind_suffix loop).subset hf)
  obtain ⟨fate, hfate, hleft⟩ := (h.ended.settled c (mem_all hc)).fated (hid ▸ hin)
  have hsuf : (w.behind loop).filter (·.conn = c.id) <:+ w.server.queued c.id loop := (w.behind_suffix loop).filter _
  have hm : f ∈ (w.behind loop).filter (·.conn = c.id) := List.mem_filter.mpr ⟨hf, by simp [hid]⟩
  have hwaits : w.server.queued c.id loop = fate.waits c := by
    have hw := hfate.waits loop
    split at hw
    · exact hw
    · exact absurd (hw ▸ hsuf.subset hm) List.not_mem_nil
  rw [hwaits] at hsuf
  obtain rfl : fate = .planned := by
    cases fate with
    | planned => rfl
    | left =>
      rw [hrest] at hleft
      exact absurd (hleft.mpr rfl) List.not_mem_nil
    | gone =>
      have hnil : Fate.gone.waits c = [] := by simp [Fate.waits, hfate.gone rfl]
      exact absurd (hnil ▸ hsuf.subset hm) List.not_mem_nil
  have hlast := List.getLast_mem (List.ne_nil_of_mem hm)
  rw [hsuf.getLast] at hlast
  simp only [Fate.waits, if_true, List.getLast_append_singleton] at hlast
  exact hid ▸ (List.mem_filter.mp hlast).1

theorem Leaving.dtor (h : w.Leaving conns) (hq : w.Calm conns .dtor) : ∃ w', w.dtor = .ok w' ∧ w'.Leaving conns := by
  unfold PooledServer.dtor
  cases he : w.ending with
  | up => exact absurd he h.past
  | body rest =>
    have hquits : ∀ l, w.quits l = false := fun l => by simp [quits, he]
    cases rest with
    | nil =>
      refine ⟨_, rfl, h.next (by rw [he]; rfl) Nat.one_ne_zero fun l => ?_⟩
      rw [hquits]
      simp only [Bool.false_eq_true, false_iff, not_and]
      rintro ⟨h0, -⟩ h1
      omega
    | cons conn rest =>
      have hend := h.ended
      have hnd := h.nodup
      rw [he] at hend hnd
      obtain ⟨s, hs, hend⟩ := hend.destroyConnection (List.nodup_cons.mp hnd).1
      obtain ⟨objects, hr, hend⟩ := hend.release
      rw [TcpServer.reset] at hs
      dsimp only
      rw [hs, ok_bind]
      refine ⟨_, settle_of_ok _ hr, by simp, hend, (List.nodup_cons.mp hnd).2, by simp, by simp,
        fun l hl => ?_, fun l hl => ?_⟩
      · have hst := h.stopped l hl
        rw [hquits] at hst
        cases hst
      · simp [quits] at hl
  | quit loop =>
    have hrest : w.ending.rest = [] := by rw [he]; rfl
    obtain ⟨h0, hn, hs⟩ := h.pool loop (.inl he)
    have hend := h.ended
    rw [hrest] at hend
    refine ⟨_, rfl, by simp, hend, List.nodup_nil, by simp, fun l hl => ?_, fun l hl => ?_, fun l hl f hf hin => ?_⟩
    · rcases hl with hl | hl
      · cases hl
      · cases hl
        exact ⟨h0, hn, hs⟩
    · obtain ⟨hp, hlt⟩ := (quits_quit he).mp (h.stopped l hl)
      exact (quits_join rfl).mpr ⟨hp, Nat.le_of_lt hlt⟩
    · obtain ⟨hp, hle⟩ := (quits_join rfl).mp hl
      by_cases hll : l = loop
      · subst hll
        exact hq l (by rw [he]; rfl) f.conn hin (h.destroyed_behind hrest hf hin)
      · exact h.clear l ((quits_quit he).mpr ⟨hp, Nat.lt_of_le_of_ne hle hll⟩) f hf hin
  | join loop =>
    dsimp only
    split
    · refine ⟨_, rfl, h.next (by rw [he]; rfl) (Nat.succ_ne_zero _) fun l => ?_⟩
      rw [quits_join he, Nat.lt_succ_iff]
    · exact ⟨w, rfl, h⟩
  | down => exact ⟨w, rfl, h⟩

theorem Leaving.step {l : PoolLabel} (h : w.Leaving conns) (hc : w.Closing l) (hq : w.Calm conns l) :
    ∃ w', w.step l = .ok w' ∧ w'.Leaving conns := by
  cases l with
  | server l =>
    rw [PooledServer.step]
    cases hp : w.possible l with
    | false => exact ⟨w, rfl, h⟩
    | true => exact h.server hc hq hp
  | swap loop => exact ⟨_, rfl, h.swap loop⟩
  | iterate loop => exact h.iterate loop
  | dtor => exact h.dtor hq

/-! ## A spoiled server -/

/-- Functors bound to the server wait in the base loop only. -/
structure Sane (w : PooledServer) : Prop where
  past : w.ending ≠ .up
  down : w.ending = .down → w.server.destroyed = true
  functors : ∀ loop, ∀ f ∈ w.server.queues loop, f.forced = false ∧ (f.removes = true → loop = 0)

/-- The loop quits without the `connectDestroyed` of a connection. -/
structure Lost (w : PooledServer) (conn loop : Nat) : Prop where
  quits : w.quits loop = true
  count : (startsOf w.log conn).count .connectDestroyed = 0
  elsewhere : ∀ l, l ≠ loop → .connectDestroyed conn ∉ w.server.queues l
  behind : w.phase loop = .ended ∨ ∃ left, w.phase loop = .functors left ∧
    .connectDestroyed conn ∉ (w.server.queues loop).take left

structure Spoiled (conns : List Nat) (w : PooledServer) : Prop extends Sane w where
  spoiled : (∃ f ∈ w.server.queues 0, f.removes = true) ∨ ∃ conn ∈ conns, ∃ loop, w.Lost conn loop

theorem Sane.of_queues (h : w.Sane) (hp : w'.ending ≠ .up) (hd : w'.ending = .down → w'.server.destroyed = true)
    (hq : ∀ loop, ∀ f ∈ w'.server.queues loop, f ∈ w.server.queues loop ∨
      f.forced = false ∧ (f.removes = true → loop = 0)) :
    w'.Sane :=
  ⟨hp, hd, fun loop f hf => (hq loop f hf).elim (h.functors loop f) id⟩

theorem Sane.destroyed_of_free (h : w.Sane) (hf : w.baseFree = true) : w.server.destroyed = true := by
  simp only [baseFree, Bool.or_eq_true, decide_eq_true_eq] at hf
  exact h.down (hf.resolve_left h.past)

/-- What a loop does in a spoiled server: it runs its first functor, or closes a connection. -/
structure Moved (w w' : PooledServer) : Prop where
  ending : w'.ending = w.ending
  shared : w'.shared = w.shared
  numThreads : w'.server.numThreads = w.server.numThreads
  destroyed : w'.server.destroyed = w.server.destroyed
  queues : (∃ loop, w.runs loop = true ∧ w'.server.queues = (w.server.dequeue loop).queues ∧
      w'.phase = Function.update w.phase loop (w.phase loop).pop ∧
      (∀ f ∈ (w.server.queues loop).head?, f.removes = false) ∧
      ∃ starts, w'.log = w.log ++ starts ∧
        ∀ e ∈ starts, e.step = .connectDestroyed → (w.server.queues loop).head? = some (.connectDestroyed e.conn)) ∨
    (∃ fs, (∀ f ∈ fs, f.removes = true) ∧
    w'.server.queues = Function.update w.server.queues 0 (w.server.queues 0 ++ fs)) ∧
      w'.phase = w.phase ∧ ∃ starts, w'.log = w.log ++ starts ∧ ∀ e ∈ starts, e.step ≠ .connectDestroyed

theorem act_ok (h : w.act l = .ok w') : ∃ s objects, w.server.act l = .ok s ∧
    w' = { w with server := { s with objects }, log := w.log ++ w.server.starts l, phase := w.phaseAfter l } := by
  obtain ⟨v, hv, h⟩ := bind_ok.mp h
  obtain ⟨u, hu, hv⟩ := bind_ok.mp hv
  obtain ⟨s, hs, hu⟩ := bind_ok.mp hu
  obtain ⟨objects, -, hu⟩ := bind_ok.mp hu
  cases hu
  cases hv
  exact ⟨s, objects, hs, (Except.ok.inj h).symm⟩

/-- A functor that was bound to the server stops the run, which has no server any more. -/
theorem Sane.runFunctor {s : TcpServer} (h : w.Sane) (hp : w.runs loop = true) (hr : w.server.runFunctor loop = .ok s) :
    w.server.Alike s ∧ s.queues = (w.server.dequeue loop).queues ∧
      (∀ f ∈ (w.server.queues loop).head?, f.removes = false) ∧
      ∀ e ∈ w.server.starts (.runFunctor loop), e.step = .connectDestroyed →
        (w.server.queues loop).head? = some (.connectDestroyed e.conn) := by
  unfold TcpServer.runFunctor at hr
  rw [starts]
  cases hq : w.server.queues loop with
  | nil =>
    rw [hq] at hr
    cases hr
    refine ⟨(Touch.refl _ 0).alike, ?_, by simp, by simp⟩
    rw [dequeue, hq, List.tail_nil, ← hq, Function.update_eq_self]
  | cons f fs =>
    rw [hq] at hr
    have hu : Function.update w.server.queues loop fs = (w.server.dequeue loop).queues := by
      rw [dequeue, hq, List.tail_cons]
    have hf := h.functors loop f (hq ▸ List.mem_cons_self ..)
    cases f with
    | connectEstablished conn =>
      obtain ⟨c, -, hr⟩ := bind_ok.mp hr
      obtain ⟨state, -, hr⟩ := bind_ok.mp hr
      cases hr
      exact ⟨(Touch.dequeue hq).alike, hu, by simp [ServerFunctor.removes], by simp [functorStarts]⟩
    | connectDestroyed conn =>
      obtain ⟨c, -, hr⟩ := bind_ok.mp hr
      cases hr
      exact ⟨(Touch.dequeue hq).alike, hu, by simp [ServerFunctor.removes], by simp [functorStarts]⟩
    | removeConnectionInLoop conn =>
      obtain rfl := hf.2 rfl
      rw [runs, if_pos rfl] at hp
      obtain ⟨_, hc, -⟩ := bind_ok.mp hr
      simp [check, h.destroyed_of_free hp] at hc
    | forceCloseInLoop conn => cases hf.1

theorem Sane.handleClose {s : TcpServer} (h : w.Sane) (hp : w.possible (.handleClose conn) = true)
    (hr : w.server.act (.handleClose conn) = .ok s) :
    w.server.Alike s ∧ s.queues = (w.server.queueInLoop 0 (.removeConnectionInLoop conn)).queues ∧
      ∀ e ∈ w.server.starts (.handleClose conn), e.step ≠ .connectDestroyed := by
  rw [possible] at hp
  cases hf : w.server.objects.alive.find? (·.id = conn) with
  | none => simp [hf] at hp
  | some c =>
    have hk : w.server.knows conn = true :=
      LoggedServer.knows_iff.mpr ⟨c, List.mem_of_find?_eq_some hf, by simpa using List.find?_some hf⟩
    rw [hf, Option.any_some, handles] at hp
    rw [TcpServer.act, if_pos hk, TcpServer.handleClose, Connections.get, hf, ok_bind] at hr
    obtain ⟨state, -, hr⟩ := bind_ok.mp hr
    obtain ⟨_, hup, hr⟩ := bind_ok.mp hr
    have hl : c.loop ≠ 0 := by
      intro hl
      rw [if_pos hl] at hp
      simp [check, TcpServer.setState, h.destroyed_of_free hp] at hup
    rw [if_neg hl] at hr
    cases hr
    refine ⟨by simp [Alike, TcpServer.setState, TcpServer.queueInLoop], rfl, ?_⟩
    simp [starts, hf, closeStarts, hl]

theorem Sane.act (h : w.Sane) (hc : w.toLoggedServer.Closing l) (hp : w.possible l = true) (hr : w.act l = .ok w') :
    w.Moved w' := by
  obtain ⟨s, objects, hs, rfl⟩ := act_ok hr
  have hsame : ∀ kept, s = { w.server with kept } → w.server.starts l = [] → w.phaseAfter l = w.phase →
      w.Moved { w with server := { s with objects }, log := w.log ++ w.server.starts l, phase := w.phaseAfter l } := by
    rintro kept rfl hst hph
    exact ⟨rfl, rfl, rfl, rfl, .inr ⟨⟨[], by simp, by simp⟩, hph, [], by rw [hst], by simp⟩⟩
  cases l with
  | runFunctor loop =>
    obtain ⟨ha, hq, hf, hst⟩ := h.runFunctor hp hs
    exact ⟨rfl, rfl, ha.2.2.1, ha.2.2.2.2.2, .inl ⟨loop, hp, hq, rfl, hf, _, rfl, hst⟩⟩
  | handleClose conn =>
    obtain ⟨ha, hq, hst⟩ := h.handleClose hp hs
    exact ⟨rfl, rfl, ha.2.2.1, ha.2.2.2.2.2, .inr ⟨⟨_, by simp [ServerFunctor.removes], hq⟩, rfl, _, rfl, hst⟩⟩
  | keep conn =>
    rw [TcpServer.act] at hs
    rcases ite_ok hs with ⟨-, hs⟩ | ⟨-, hs⟩
    · exact hsame _ (Except.ok.inj hs).symm rfl rfl
    · exact hsame _ (Except.ok.inj hs).symm rfl rfl
  | drop conn => exact hsame _ (Except.ok.inj hs).symm rfl rfl
  | accept connfd => exact absurd (of_decide_eq_true hp) h.past
  | acceptFails => exact absurd (of_decide_eq_true hp) h.past
  | shutdown conn => exact hc.elim
  | forceClose conn => exact hc.elim
  | dtor => cases hp

theorem dequeue_subset {s : TcpServer} {l : Nat} (h : f ∈ (s.dequeue loop).queues l) : f ∈ s.queues l := by
  by_cases hl : l = loop
  · subst hl
    simp only [TcpServer.dequeue, Function.update_self] at h
    exact List.mem_of_mem_tail h
  · simpa only [TcpServer.dequeue, Function.update_of_ne hl] using h

theorem Sane.moved (h : w.Sane) (hm : w.Moved w') : w'.Sane := by
  refine h.of_queues (hm.ending ▸ h.past) (fun he => ?_) fun l f hf => ?_
  · rw [hm.destroyed]
    exact h.down (hm.ending ▸ he)
  · rcases hm.queues with ⟨loop, -, hq, -⟩ | ⟨⟨fs, hfs, hq⟩, -⟩
    · rw [hq] at hf
      exact .inl (dequeue_subset hf)
    · rw [hq] at hf
      by_cases hl : l = 0
      · subst hl
        rw [Function.update_self] at hf
        refine (List.mem_append.mp hf).imp id fun hf => ⟨?_, fun _ => rfl⟩
        have hr := hfs f hf
        cases f <;> first | rfl | cases hr
      · rw [Function.update_of_ne hl] at hf
        exact .inl hf

theorem Moved.removal (hm : w.Moved w') (h : ∃ f ∈ w.server.queues 0, f.removes = true) :
    ∃ f ∈ w'.server.queues 0, f.removes = true := by
  obtain ⟨f, hf, hr⟩ := h
  refine ⟨f, ?_, hr⟩
  rcases hm.queues with ⟨loop, -, hq, -, hhead, -⟩ | ⟨⟨fs, -, hq⟩, -⟩
  · rw [hq]
    by_cases hl : 0 = loop
    · subst hl
      simp only [TcpServer.dequeue, Function.update_self]
      cases hqueue : w.server.queues 0 with
      | nil => simp [hqueue] at hf
      | cons g fs =>
        rw [hqueue] at hf hhead
        rcases List.mem_cons.mp hf with rfl | hf
        · rw [hhead f rfl] at hr
          cases hr
        · exact hf
    · simpa only [TcpServer.dequeue, Function.update_of_ne hl] using hf
  · rw [hq, Function.update_self]
    exact List.mem_append_left _ hf

theorem count_startsOf_eq_zero {log starts : List Start} (h : (startsOf log conn).count .connectDestroyed = 0)
    (hs : ∀ e ∈ starts, e.step = .connectDestroyed → e.conn ≠ conn) :
    (startsOf (log ++ starts) conn).count .connectDestroyed = 0 := by
  rw [startsOf_append, List.count_append, h, Nat.zero_add, List.count_eq_zero]
  intro hm
  obtain ⟨e, he, hstep⟩ := List.mem_map.mp hm
  obtain ⟨he, hc⟩ := List.mem_filter.mp he
  exact hs e he hstep (by simpa using hc)

/-- Where the loop is in a batch, the lost functor is not one of it. -/
theorem Lost.not_head (h : w.Lost conn loop) (hp : w.runs loop = true) :
    (w.server.queues loop).head? ≠ some (.connectDestroyed conn) ∧
      ∃ left, (w.phase loop).pop = .functors left ∧ .connectDestroyed conn ∉ (w.server.queues loop).tail.take left := by
  rw [runs, if_neg (quits_iff.mp h.quits).1.1] at hp
  rcases h.behind with hb | ⟨left, hb, hn⟩
  · simp [hb, IoPhase.hasFunctors] at hp
  · cases left with
    | zero => simp [hb, IoPhase.hasFunctors] at hp
    | succ left =>
      rw [hb]
      cases hq : w.server.queues loop with
      | nil => exact ⟨by simp, left, rfl, by simp⟩
      | cons f fs =>
        rw [hq, List.take_succ_cons, List.mem_cons, not_or] at hn
        exact ⟨fun hf => hn.1 (Option.some.inj hf).symm, left, rfl, hn.2⟩

theorem Lost.moved (h : w.Lost conn loop) (hm : w.Moved w') : w'.Lost conn loop := by
  have hquits : w'.quits loop = true := by
    rw [quits_congr hm.ending hm.shared hm.numThreads]
    exact h.quits
  have h0 := (quits_iff.mp h.quits).1.1
  rcases hm.queues with ⟨l, hr, hq, hp, -, starts, hlog, hst⟩ | ⟨⟨fs, hfs, hq⟩, hp, starts, hlog, hst⟩
  · refine ⟨hquits, ?_, fun k hk hf => ?_, ?_⟩
    · rw [hlog]
      refine count_startsOf_eq_zero h.count fun e he hs hc => ?_
      have hhead := hst e he hs
      rw [hc] at hhead
      by_cases hl : l = loop
      · subst hl
        exact (h.not_head hr).1 hhead
      · exact h.elsewhere l hl (List.mem_of_mem_head? hhead)
    · rw [hq] at hf
      exact h.elsewhere k hk (dequeue_subset hf)
    · rw [hp, hq]
      by_cases hl : loop = l
      · subst hl
        simp only [TcpServer.dequeue, Function.update_self]
        exact .inr (h.not_head hr).2
      · simp only [TcpServer.dequeue, Function.update_of_ne hl]
        exact h.behind
  · refine ⟨hquits, ?_, fun k hk hf => ?_, ?_⟩
    · rw [hlog]
      exact count_startsOf_eq_zero h.count fun e he hs => absurd hs (hst e he)
    · rw [hq] at hf
      by_cases hk0 : k = 0
      · subst hk0
        rw [Function.update_self] at hf
        rcases List.mem_append.mp hf with hf | hf
        · exact h.elsewhere 0 hk hf
        · cases hfs _ hf
      · rw [Function.update_of_ne hk0] at hf
        exact h.elsewhere k hk hf
    · rw [hp, hq, Function.update_of_ne h0]
      exact h.behind

theorem Spoiled.act (h : w.Spoiled conns) (hc : w.toLoggedServer.Closing l) (hp : w.possible l = true)
    (hr : w.act l = .ok w') : w'.Spoiled conns := by
  have hm := h.toSane.act hc hp hr
  refine ⟨h.moved hm, h.spoiled.imp hm.removal ?_⟩
  rintro ⟨conn, hin, loop, hl⟩
  exact ⟨conn, hin, loop, hl.moved hm⟩

theorem Lost.not_events (h : w.Lost conn loop) : w.phase loop ≠ .events := by
  rintro he
  rcases h.behind with hb | ⟨left, hb, -⟩
  · simp [he] at hb
  · simp [he] at hb

theorem Lost.setPhase {l : Nat} {phase : IoPhase} (h : w.Lost conn loop) (hl : loop ≠ l) :
    (w.setPhase l phase).Lost conn loop := by
  refine ⟨h.quits, h.count, h.elsewhere, ?_⟩
  simp only [PooledServer.setPhase, Function.update_of_ne hl]
  exact h.behind

theorem Spoiled.setPhase {phase : IoPhase} (h : w.Spoiled conns) (hl : ∀ conn, ¬ w.Lost conn loop) :
    (w.setPhase loop phase).Spoiled conns := by
  refine ⟨⟨h.past, h.down, h.functors⟩, h.spoiled.imp id ?_⟩
  rintro ⟨conn, hin, l, hlost⟩
  refine ⟨conn, hin, l, hlost.setPhase ?_⟩
  rintro rfl
  exact hl conn hlost

theorem Spoiled.iterate (h : w.Spoiled conns) (hr : w.iterate loop = .ok w') : w'.Spoiled conns := by
  unfold PooledServer.iterate at hr
  rcases ite_ok hr with ⟨hp, hr⟩ | ⟨-, hr⟩
  · rcases ite_ok hr with ⟨hquit, hr⟩ | ⟨hquit, hr⟩
    · obtain ⟨objects, rfl⟩ := settle_ok hr
      have hsub : ∀ l, ∀ f ∈ Function.update w.server.queues loop [] l, f ∈ w.server.queues l := by
        intro l f hf
        by_cases hl : l = loop
        · subst hl
          simp at hf
        · rwa [Function.update_of_ne hl] at hf
      refine ⟨h.of_queues h.past h.down fun l f hf => .inl (hsub l f hf), h.spoiled.imp ?_ ?_⟩
      · dsimp only
        rw [Function.update_of_ne (quits_iff.mp hquit).1.1.symm]
        exact id
      · rintro ⟨conn, hin, l, hlost⟩
        refine ⟨conn, hin, l, hlost.quits, ?_, fun k hk hf => hlost.elsewhere k hk (hsub k _ hf), ?_⟩
        · dsimp only
          rw [List.append_nil]
          exact hlost.count
        · by_cases hl : l = loop
          · subst hl
            exact .inl (Function.update_self ..)
          · simp only [PooledServer.setPhase, Function.update_of_ne hl]
            exact hlost.behind
    · cases hr
      exact h.setPhase fun conn hlost => hquit hlost.quits
  · cases hr
    exact h

/-- The server and its loops stay as they are while the destructor goes on. -/
theorem Spoiled.goOn (h : w.Spoiled conns) (hp : w'.ending ≠ .up) (hd : w'.ending = .down → w'.server.destroyed = true)
    (hs : w'.server.queues = w.server.queues) (hlog : w'.log = w.log) (hphase : w'.phase = w.phase)
    (hquits : ∀ loop, w.quits loop = true → w'.quits loop = true) : w'.Spoiled conns := by
  refine ⟨h.of_queues hp hd fun l f hf => .inl (hs ▸ hf), h.spoiled.imp (hs ▸ id) ?_⟩
  rintro ⟨conn, hin, loop, hlost⟩
  refine ⟨conn, hin, loop, hquits loop hlost.quits, hlog ▸ hlost.count, hs ▸ hlost.elsewhere, ?_⟩
  rw [hs, hphase]
  exact hlost.behind

theorem Spoiled.next (h : w.Spoiled conns)
    (hq : ∀ l, w.quits l = true → (l ≠ 0 ∧ l ≤ w.server.numThreads ∧ w.shared = false) ∧ l < loop) :
    (w.next loop).Spoiled conns := by
  have hquits : ∀ l, w.quits l = true → (w.next loop).quits l = true := by
    intro l hl
    rw [quits_iff]
    unfold PooledServer.next
    split
    · exact ⟨(hq l hl).1, .inl ⟨loop, rfl, (hq l hl).2⟩⟩
    · exact ⟨(hq l hl).1, .inr (.inr rfl)⟩
  revert hquits
  unfold PooledServer.next
  split
  · exact h.goOn (by simp) (by simp) rfl rfl rfl
  · exact h.goOn (by simp) (by simp) rfl rfl rfl

theorem destroyConnection_queues {s s' : TcpServer} (hr : s.destroyConnection conn = .ok s') :
    ∃ loop fs, (∀ f ∈ fs, f = .connectDestroyed conn) ∧
      s'.queues = Function.update s.queues loop (s.queues loop ++ fs) := by
  obtain ⟨c, -, hr⟩ := bind_ok.mp hr
  rcases ite_ok hr with ⟨-, hr⟩ | ⟨-, hr⟩
  · obtain ⟨d, -, hr⟩ := bind_ok.mp hr
    cases hr
    exact ⟨0, [], by simp, by simp [TcpServer.setState]⟩
  · cases hr
    exact ⟨c.loop, [.connectDestroyed conn], by simp, rfl⟩

theorem Spoiled.body {rest : List Nat} (h : w.Spoiled conns) (he : w.ending = .body (conn :: rest))
    (hr : w.dtor = .ok w') :
    w'.Spoiled conns := by
  unfold PooledServer.dtor at hr
  rw [he] at hr
  obtain ⟨s, hs, hr⟩ := bind_ok.mp hr
  obtain ⟨objects, rfl⟩ := settle_ok hr
  obtain ⟨loop, fs, hfs, hq⟩ := destroyConnection_queues hs
  refine ⟨h.of_queues (by simp) (by simp) fun l f hf => ?_, .inl ?_⟩
  · change f ∈ s.queues l at hf
    rw [hq] at hf
    by_cases hl : l = loop
    · subst hl
      rw [Function.update_self] at hf
      refine (List.mem_append.mp hf).imp id fun hf => ?_
      rw [hfs f hf]
      exact ⟨rfl, fun hc => by cases hc⟩
    · rw [Function.update_of_ne hl] at hf
      exact .inl hf
  · rcases h.spoiled with ⟨f, hf, hrem⟩ | ⟨c, -, l, hlost⟩
    · refine ⟨f, ?_, hrem⟩
      change f ∈ s.queues 0
      rw [hq]
      by_cases hl : 0 = loop
      · subst hl
        rw [Function.update_self]
        exact List.mem_append_left _ hf
      · rw [Function.update_of_ne hl]
        exact hf
    · exact absurd he (not_body_of_quits hlost.quits _)

theorem Spoiled.dtor (h : w.Spoiled conns) (hr : w.dtor = .ok w') : w'.Spoiled conns := by
  cases he : w.ending with
  | body rest =>
    cases rest with
    | cons conn rest => exact h.body he hr
    | nil =>
      unfold PooledServer.dtor at hr
      rw [he] at hr
      cases hr
      exact h.next fun l hl => absurd he (not_body_of_quits hl _)
  | up => exact absurd he h.past
  | quit loop =>
    unfold PooledServer.dtor at hr
    rw [he] at hr
    cases hr
    refine h.goOn (by simp) (by simp) rfl rfl rfl fun l hl => ?_
    obtain ⟨hp, hlt⟩ := (quits_quit he).mp hl
    exact (quits_join rfl).mpr ⟨hp, Nat.le_of_lt hlt⟩
  | join loop =>
    unfold PooledServer.dtor at hr
    rw [he] at hr
    cases hr
    split
    · refine h.next fun l hl => ?_
      obtain ⟨hp, hle⟩ := (quits_join he).mp hl
      exact ⟨hp, Nat.lt_succ_of_le hle⟩
    · exact h
  | down =>
    unfold PooledServer.dtor at hr
    rw [he] at hr
    cases hr
    exact h

theorem Spoiled.step {l : PoolLabel} (h : w.Spoiled conns) (hc : w.Closing l) (hr : w.step l = .ok w') :
    w'.Spoiled conns := by
  cases l with
  | server l => exact ite_pure_inv (I := Spoiled conns) (fun hp => h.act hc hp) h hr
  | swap loop =>
    cases hr
    unfold PooledServer.swap
    split
    · exact h.setPhase fun conn hlost => hlost.not_events ‹_›
    · exact h
  | iterate loop => exact h.iterate hr
  | dtor => exact h.dtor hr

/-! ## Whole runs -/

/-- A loop that is made to quit with the `connectDestroyed` of a connection behind its batch loses it. -/
theorem Leaving.lost (h : w.Leaving conns) (he : w.ending = .quit loop) (hin : conn ∈ conns)
    (hb : .connectDestroyed conn ∈ w.behind loop) :
      ({ w with ending := .join loop } : PooledServer).Lost conn loop := by
  have hq := (w.behind_suffix loop).subset hb
  obtain ⟨c, hc, hid⟩ := h.ended.functors loop _ hq
  change c.id = conn at hid
  subst hid
  obtain ⟨fate, hfate, -⟩ := (h.ended.settled c (mem_all hc)).fated hin
  have hl := h.ended.loop_of_queued (mem_all hc) hq rfl
  have hm : ∀ {l}, .connectDestroyed c.id ∈ w.server.queues l → .connectDestroyed c.id ∈ w.server.queued c.id l :=
    fun hf => mem_queued.mpr ⟨hf, rfl⟩
  have hplanned : fate = .planned := by
    have hw := hm hq
    rw [hfate.waits, if_pos hl, Fate.waits] at hw
    by_contra hne
    rw [if_neg hne, List.append_nil] at hw
    split at hw <;> simp at hw
  refine ⟨(quits_join rfl).mpr ⟨h.pool loop (.inl he), Nat.le_refl _⟩, ?_, fun l hne hf => ?_, ?_⟩
  · exact hfate.count.trans (by rw [hplanned]; rfl)
  · have hw := hm hf
    rw [hfate.waits, if_neg (hl ▸ hne)] at hw
    cases hw
  · -- it is in the queue once, and so not in the batch
    have hcount : (w.server.queues loop).count (.connectDestroyed c.id) = 1 := by
      have hw := congrArg (List.count (.connectDestroyed c.id)) (hfate.waits loop)
      rw [TcpServer.queued, List.count_filter (by simp [ServerFunctor.conn]), if_pos hl, hplanned] at hw
      rw [hw, Fate.waits, if_pos rfl, List.count_append, List.count_singleton_self, Nat.add_eq_right,
        List.count_eq_zero]
      split <;> simp
    unfold PooledServer.behind at hb
    split at hb
    · cases hb
    · rename_i left hphase
      refine .inr ⟨left, hphase, fun ht => ?_⟩
      have hsum := congrArg (List.count (.connectDestroyed c.id)) (List.take_append_drop left (w.server.queues loop))
      rw [List.count_append, hcount] at hsum
      have h₁ := List.count_pos_iff.mpr hb
      have h₂ : 0 < ((w.server.queues loop).take left).count _ := List.count_pos_iff.mpr ht
      omega
    · exact .inl ‹_›

theorem Spoiled.count_eq_zero (h : w.Spoiled conns) (hf : w.finished = true) :
    ∃ conn ∈ conns, (startsOf w.log conn).count .connectDestroyed = 0 := by
  rcases h.spoiled with ⟨f, hm, -⟩ | ⟨conn, hin, loop, hlost⟩
  · simp only [finished, Bool.and_eq_true, List.all_eq_true, List.mem_range, List.isEmpty_iff] at hf
    rw [hf.2 0 (Nat.succ_pos _)] at hm
    cases hm
  · exact ⟨conn, hin, hlost.count⟩

theorem Up.run : ∀ {before : List PoolLabel} {ls : List PoolLabel} {w : PooledServer}, .dtor ∉ before →
    Meets PooledServer.step Closing w (before ++ ls) → w.Up →
    ∃ w', run PooledServer.step w before = .ok w' ∧ w'.Up ∧ Meets PooledServer.step Closing w' ls
  | [], _, w, _, hm, h => ⟨w, rfl, h, hm⟩
  | l :: before, ls, w, hn, hm, h => by
    rw [List.mem_cons, not_or] at hn
    obtain ⟨u, hu, hup⟩ := h.step hm.1 (Ne.symm hn.1)
    obtain ⟨w', hr, h'⟩ := Up.run hn.2 (hm.2 u hu) hup
    exact ⟨w', (run_cons_ok _).mpr ⟨u, hu, hr⟩, h'⟩

theorem Up.removals (h : w.Up) (hf : f ∈ w.server.queues loop) : f.forced = false ∧ (f.removes = true → loop = 0) := by
  refine ⟨(h.plain.functors loop f hf).1, fun hr => ?_⟩
  obtain ⟨c, hc, hid⟩ := h.inv.functors loop f hf
  obtain ⟨st, hi⟩ := h.inv.stages c (mem_all hc)
  have hm := mem_queued.mpr ⟨hf, hid.symm⟩
  rw [hi.queued h.plain] at hm
  cases st <;> simp [Stage.due, Stage.next] at hm
  case closed => exact hm.1
  all_goals rw [hm.2] at hr; cases hr

end PooledServer

end Zhengqi
