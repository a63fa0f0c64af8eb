import Zhengqi.ActiveChannels
import Zhengqi.EPollMirrorSound
import Mathlib.Data.List.Nodup

/-!
# No handler of a destroyed channel

The loop keeps bare pointers to channels in `activeChannels_` while their handlers run arbitrary code. What
keeps these pointers from dangling are assertions alone: a channel that is still to be called cannot be
removed, one that is in the poller cannot be destroyed, and neither can one whose handler runs.
-/

namespace Zhengqi

open Run

namespace EPollPoller

variable {w v : Watch EPollPoller} {a : Nat}

/-- An operation of a channel fails in an assertion of the poller, or writes no other channel. -/
theorem Mirrors.step_update (h : Mirrors w) {op : ChannelOp} (hop : op ≠ .remove) :
    w.step (a, op) = .error .updateChannel ∨
      ∃ v d, w.step (a, op) = .ok v ∧ Mirrors v ∧ v.channels = Function.update w.channels a d ∧ d.index ≠ kNew := by
  have hset : Mirrors (w.setChannel ((w.channels a).prepared op) a) := h.setChannel rfl rfl rfl
  have hself : (w.setChannel ((w.channels a).prepared op) a).channels a = (w.channels a).prepared op :=
    Function.update_self ..
  rw [w.step_of_ne a hop]
  by_cases hx : Expects (w.setChannel ((w.channels a).prepared op) a).poller
      ((w.setChannel ((w.channels a).prepared op) a).channels a)
  · obtain ⟨q, d, hd, hcall⟩ := hset.updateChannel hx
    refine .inr ⟨_, d, hcall, hset.updates hd, ?_, ?_⟩
    · rw [Watch.written_setChannel]
      rfl
    · cases hd with
      | first => simp [kAdded, kNew]
      | again => simp [kAdded, kNew]
      | modify hi => simp [hi, kAdded, kNew]
      | disable => simp [kDeleted, kNew]
  · left
    simp only [Watch.call, ChannelPoller.updateChannel, Poller.updateChannel]
    rw [updateChannel_error hx]
    rfl

theorem Mirrors.call_remove (h : Mirrors w) :
    (w.setChannel ((w.channels a).prepared .remove) a).call (.removeChannel a) = .error .removeChannel ∨
      ∃ v d, (w.setChannel ((w.channels a).prepared .remove) a).call (.removeChannel a) = .ok v ∧ Mirrors v ∧
        v.channels = Function.update w.channels a d := by
  have hset : Mirrors (w.setChannel ((w.channels a).prepared .remove) a) := h.setChannel rfl rfl rfl
  by_cases hx : Taken (w.setChannel ((w.channels a).prepared .remove) a).poller
      ((w.setChannel ((w.channels a).prepared .remove) a).channels a) ∧
      ((w.setChannel ((w.channels a).prepared .remove) a).channels a).events = kNoneEvent
  · obtain ⟨q, d, hd, hcall⟩ := hset.removeChannel hx
    refine .inr ⟨_, d, hcall, hset.removes hd, ?_⟩
    exact Function.update_idem ..
  · exact .inl (call_removeChannel_error hx)

/-- A channel that the poller does not know is made anew. -/
theorem Mirrors.renew (h : Mirrors w) (hi : (w.channels a).index = kNew) (fd : Int) :
    Mirrors (w.setChannel { addr := a, fd } a) := by
  have hold : ¬ ((w.channels a).index = kAdded ∨ (w.channels a).index = kDeleted) := by
    simp [hi, kNew, kAdded, kDeleted]
  have hnew : ∀ b, b = a → ((w.setChannel { addr := a, fd } a).channels b).index = kNew := by
    rintro b rfl
    simp [Watch.setChannel, kNew]
  have hother : ∀ b, b ≠ a → (w.setChannel { addr := a, fd } a).channels b = w.channels b := fun b hb =>
    Function.update_of_ne hb ..
  refine ⟨fun b => ?_, fun b => ?_, fun fd' b => ?_, fun fd' ev b => ?_, h.failures⟩ <;> by_cases hb : b = a
  · subst hb
    simp [Watch.setChannel]
  · rw [hother b hb]
    exact h.addr b
  · exact .inl (hnew b hb)
  · rw [hother b hb]
    exact h.index b
  · refine iff_of_false (fun hc => ?_) fun hc => ?_
    · exact hold (hb ▸ ((h.channels _ _).mp hc).2)
    · simp [hnew b hb, kNew, kAdded, kDeleted] at hc
  · rw [hother b hb]
    exact h.channels _ _
  · refine iff_of_false (fun hc => ?_) fun hc => ?_
    · exact hold (.inl (hb ▸ ((h.epoll _ _ _).mp hc).2.1))
    · simp [hnew b hb, kNew, kAdded] at hc
  · rw [hother b hb]
    exact h.epoll _ _ _

theorem Mirrors.congr (h : Mirrors w) (hp : v.poller = w.poller) (hu : v.updated = w.updated)
    (hc : ∀ a, (v.channels a).addr = (w.channels a).addr ∧ (v.channels a).fd = (w.channels a).fd ∧
      (v.channels a).index = (w.channels a).index) : Mirrors v where
  addr a := (hc a).1.trans (h.addr a)
  index a := by rw [(hc a).2.2]; exact h.index a
  channels fd a := by rw [hp, (hc a).2.1, (hc a).2.2]; exact h.channels fd a
  epoll fd ev a := by rw [hp, hu, (hc a).2.1, (hc a).2.2]; exact h.epoll fd ev a
  failures := hp ▸ h.failures

/-- `fillActiveChannels` writes the `revents_` of channels only. -/
theorem foldlM_activate_frame {p : EPollPoller} {es : List EpollEvent} {x y : List Nat × Channels}
    (h : es.foldlM p.activate x = .ok y) (a : Nat) :
    (y.2 a).addr = (x.2 a).addr ∧ (y.2 a).fd = (x.2 a).fd ∧ (y.2 a).index = (x.2 a).index := by
  refine foldlM_inv (I := fun y : List Nat × Channels => (y.2 a).addr = (x.2 a).addr ∧ (y.2 a).fd = (x.2 a).fd ∧
    (y.2 a).index = (x.2 a).index) ?_ ⟨rfl, rfl, rfl⟩ h
  rintro ⟨l, channels⟩ e z hr hz
  obtain ⟨-, -, hz⟩ := bind_ok.mp hz
  obtain ⟨-, -, hz⟩ := bind_ok.mp hz
  cases hz
  by_cases ha : a = e.ptr
  · subst ha
    simp only [Function.update_self]
    exact hr
  · simp only [Function.update_of_ne ha]
    exact hr

end EPollPoller

namespace ActiveLoop

open EPollPoller

variable {s t : ActiveLoop} {a : Nat}

/-- Where the loop is, and what its pointers point to. -/
inductive Stage (s : ActiveLoop) : ActivePhase → Prop
  | functors : s.eventHandling = false → Stage s .functors
  | next {rest : List Nat} : s.eventHandling = true → rest.Nodup → (∀ b ∈ rest, b ∈ s.activeChannels) →
      (∀ b ∈ rest, (s.watch.channels b).index ≠ kNew) → Stage s (.next rest)
  | handler {rest : List Nat} {a : Nat} : s.eventHandling = true → s.currentActiveChannel = some a → s.alive a = true →
      s.channelHandling a = true → (a :: rest).Nodup → (∀ b ∈ rest, b ∈ s.activeChannels) →
      (∀ b ∈ rest, (s.watch.channels b).index ≠ kNew) → Stage s (.handler rest)
  -- the channel that was called may be gone
  | release {rest : List Nat} {a : Nat} : s.eventHandling = true → s.currentActiveChannel = some a → (a :: rest).Nodup →
      (∀ b ∈ rest, b ∈ s.activeChannels) → (∀ b ∈ rest, (s.watch.channels b).index ≠ kNew) → Stage s (.release rest)

structure Inv (s : ActiveLoop) : Prop where
  mirrors : Mirrors s.watch
  -- the poller holds no channel that was destroyed
  alive : ∀ a, (s.watch.channels a).index ≠ kNew → s.alive a = true
  stage : s.Stage s.phase

/-- What can stop a run: the assertions on the calls that user code makes. -/
def Asserts (f : ChannelFault) : Prop :=
  f = .dtor ∨ f = .fault .channelRemove ∨ f = .fault .removeChannel ∨ f = .fault .updateChannel

/-- User code writes one channel, which is not one that the loop is still to call. -/
theorem Stage.write (h : s.Stage s.phase) (hu : s.userCode = true) (ht : t.phase = s.phase)
    (he : t.eventHandling = s.eventHandling) (hc : t.currentActiveChannel = s.currentActiveChannel)
    (hl : t.activeChannels = s.activeChannels)
    (halive : ∀ b, s.currentActiveChannel = some b → s.alive b = true → s.channelHandling b = true →
      t.alive b = true ∧ t.channelHandling b = true)
    (hindex : ∀ b ∈ s.activeChannels, s.currentActiveChannel ≠ some b → s.eventHandling = true →
      (s.watch.channels b).index ≠ kNew → (t.watch.channels b).index ≠ kNew) : t.Stage t.phase := by
  have hrest : ∀ {rest : List Nat} {a : Nat}, s.eventHandling = true → s.currentActiveChannel = some a →
    (a :: rest).Nodup →
      (∀ b ∈ rest, b ∈ s.activeChannels) → (∀ b ∈ rest, (s.watch.channels b).index ≠ kNew) →
      ∀ b ∈ rest, (t.watch.channels b).index ≠ kNew := by
    intro rest a hh hcur hn hm hi b hb
    refine hindex b (hm b hb) ?_ hh (hi b hb)
    rw [hcur]
    rintro ⟨⟩
    exact (List.nodup_cons.mp hn).1 hb
  rw [ht]
  generalize hp : s.phase = phase at h
  cases h with
  | functors h => exact .functors (he.trans h)
  | next => simp [userCode, hp] at hu
  | @handler rest a hh hcur ha hah hn hm hi =>
    obtain ⟨hta, htah⟩ := halive a hcur ha hah
    exact .handler (he.trans hh) (hc.trans hcur) hta htah hn (fun b hb => hl ▸ hm b hb) (hrest hh hcur hn hm hi)
  | release hh hcur hn hm hi =>
    exact .release (he.trans hh) (hc.trans hcur) hn (fun b hb => hl ▸ hm b hb) (hrest hh hcur hn hm hi)

theorem Inv.newChannel (h : s.Inv) (hu : s.userCode = true) (ha : s.alive a = false) (fd : Int) :
    (s.newChannel a fd).Inv := by
  have hnew : (s.watch.channels a).index = kNew := by
    by_contra hi
    rw [h.alive a hi] at ha
    cases ha
  have hother : ∀ b, b ≠ a → (s.newChannel a fd).watch.channels b = s.watch.channels b ∧
      (s.newChannel a fd).alive b = s.alive b ∧ (s.newChannel a fd).channelHandling b = s.channelHandling b :=
    fun b hb => ⟨Function.update_of_ne hb .., Function.update_of_ne hb .., Function.update_of_ne hb ..⟩
  refine ⟨h.mirrors.renew hnew fd, fun b hi => ?_, h.stage.write hu rfl rfl rfl rfl (fun b _ hb hbh => ?_)
    fun b _ _ _ hi => ?_⟩
  · by_cases hb : b = a
    · rw [hb]
      exact Function.update_self ..
    · rw [(hother b hb).1] at hi
      rw [(hother b hb).2.1]
      exact h.alive b hi
  · have hne : b ≠ a := by
      rintro rfl
      rw [ha] at hb
      cases hb
    rw [(hother b hne).2.1, (hother b hne).2.2]
    exact ⟨hb, hbh⟩
  · have hne : b ≠ a := by
      rintro rfl
      exact hi hnew
    rw [(hother b hne).1]
    exact hi

/-- The operations change one channel that exists. -/
theorem Inv.watch (h : s.Inv) (hu : s.userCode = true) (ha : s.alive a = true) {v : Watch EPollPoller} {d : Channel}
    (hv : Mirrors v) (hc : v.channels = Function.update s.watch.channels a d)
    (hi : d.index = kNew → s.eventHandling = true → s.currentActiveChannel = some a ∨ a ∉ s.activeChannels) :
    Inv { s with watch := v } := by
  have hother : ∀ b, b ≠ a → v.channels b = s.watch.channels b := fun b hb => by rw [hc, Function.update_of_ne hb]
  refine ⟨hv, fun b hb => ?_, h.stage.write hu rfl rfl rfl rfl (fun b _ hb hbh => ⟨hb, hbh⟩) fun b hm hcur he hb => ?_⟩
  · by_cases hab : b = a
    · rw [hab]
      exact ha
    · rw [show ({ s with watch := v } : ActiveLoop).watch.channels b = _ from hother b hab] at hb
      exact h.alive b hb
  · by_cases hab : b = a
    · subst hab
      show (v.channels b).index ≠ kNew
      rw [hc, Function.update_self]
      intro hd
      rcases hi hd he with hc | hc
      · exact hcur hc
      · exact hc hm
    · show (v.channels b).index ≠ kNew
      rw [hother b hab]
      exact hb

theorem Inv.op (h : s.Inv) (hu : s.userCode = true) (ha : s.alive a = true) (op : ChannelOp) :
    (∃ f, s.op a op = .error f ∧ Asserts (.fault f)) ∨ ∃ t, s.op a op = .ok t ∧ t.Inv := by
  unfold ActiveLoop.op
  by_cases hop : op = .remove
  · rw [if_pos hop, remove]
    by_cases hn : (s.watch.channels a).isNoneEvent = true
    · rw [check_of hn, ok_bind, removeChannel]
      by_cases hc : s.eventHandling = false ∨ s.currentActiveChannel = some a ∨ a ∉ s.activeChannels
      · dsimp only
        rw [check_of hc, ok_bind]
        rcases h.mirrors.call_remove (a := a) with hcall | ⟨v, d, hcall, hv, hvc⟩
        · rw [hcall]
          exact .inl ⟨_, rfl, .inr (.inr (.inl rfl))⟩
        · rw [hcall]
          exact .inr ⟨_, rfl, h.watch hu ha hv hvc fun _ he => hc.resolve_left (by rw [he]; decide)⟩
      · dsimp only
        rw [check_not hc]
        exact .inl ⟨_, rfl, .inr (.inr (.inl rfl))⟩
    · rw [check_not hn]
      exact .inl ⟨_, rfl, .inr (.inl rfl)⟩
  · rw [if_neg hop]
    rcases h.mirrors.step_update (a := a) hop with hstep | ⟨v, d, hstep, hv, hvc, hd⟩
    · rw [hstep]
      exact .inl ⟨_, rfl, .inr (.inr (.inr rfl))⟩
    · rw [hstep]
      exact .inr ⟨_, rfl, h.watch hu ha hv hvc fun hnew => absurd hnew hd⟩

theorem Inv.destroy (h : s.Inv) (hu : s.userCode = true) (a : Nat) :
    (∃ f, s.destroy a = .error f ∧ Asserts f) ∨ ∃ t, s.destroy a = .ok t ∧ t.Inv := by
  unfold ActiveLoop.destroy
  split
  · exact .inl ⟨_, rfl, .inl rfl⟩
  · rename_i hc
    simp only [Bool.or_eq_true, not_or, Bool.not_eq_true] at hc
    obtain ⟨⟨hh, -⟩, hhas⟩ := hc
    have hnew : (s.watch.channels a).index = kNew := by
      refine (h.mirrors.index a).resolve_right fun hi => ?_
      have hmem := (h.mirrors.channels _ a).mpr ⟨rfl, hi⟩
      simp [hasChannel, hmem] at hhas
    have hother : ∀ b, b ≠ a → Function.update s.alive a false b = s.alive b := fun b hb => Function.update_of_ne hb ..
    refine .inr ⟨_, rfl, h.mirrors, fun b hi => ?_, h.stage.write hu rfl rfl rfl rfl (fun b _ hb hbh => ⟨?_, hbh⟩)
      fun b _ _ _ hi => hi⟩
    · have hne : b ≠ a := by
        rintro rfl
        exact hi hnew
      exact (hother b hne).trans (h.alive b hi)
    · have hne : b ≠ a := by
        rintro rfl
        rw [hh] at hbh
        cases hbh
      exact (hother b hne).trans hb

theorem mem_stored {events : List (Int × Events)} {e : EpollEvent} (he : e ∈ s.stored events) :
    ∃ fd ev, s.watch.poller.epoll fd = some (ev, e.ptr) := by
  obtain ⟨⟨fd, revents⟩, -, he⟩ := List.mem_filterMap.mp he
  obtain ⟨⟨ev, addr⟩, hreg, rfl⟩ := Option.map_eq_some_iff.mp he
  exact ⟨fd, ev, hreg⟩

theorem nodup_stored (h : Mirrors s.watch) {events : List (Int × Events)} (hn : (events.map (·.1)).Nodup) :
    ((s.stored events).map (·.ptr)).Nodup := by
  have heq : (s.stored events).map (·.ptr) =
      (events.map (·.1)).filterMap fun fd => (s.watch.poller.epoll fd).map (·.2) := by
    simp [stored, List.map_filterMap, List.filterMap_map, Function.comp_def]
  rw [heq]
  refine List.Nodup.filterMap (fun fd fd' b hb hb' => ?_) hn
  obtain ⟨⟨ev, addr⟩, hreg, rfl⟩ := Option.map_eq_some_iff.mp hb
  obtain ⟨⟨ev', addr'⟩, hreg', heq⟩ := Option.map_eq_some_iff.mp hb'
  dsimp only at heq
  subst heq
  exact ((h.epoll _ _ _).mp hreg).1.symm.trans ((h.epoll _ _ _).mp hreg').1

theorem foldlM_activate {es : List EpollEvent} (h : ∀ e ∈ es, s.alive e.ptr = true) (x : List Nat × Channels) :
    es.foldlM s.activate x = es.foldlM s.watch.poller.activate x := by
  induction es generalizing x with
  | nil => rfl
  | cons e es ih =>
    obtain ⟨he, hes⟩ := List.forall_mem_cons.mp h
    rw [List.foldlM_cons, List.foldlM_cons, activate, check_of he, ok_bind]
    congr 1
    funext y
    exact ih hes y

/-- What the kernel reports are channels that exist. -/
theorem Inv.poll (h : s.Inv) {events : List (Int × Events)} (hn : (events.map (·.1)).Nodup) :
    ∃ t, s.poll events = .ok t ∧ t.Inv := by
  have hadded : ∀ e ∈ s.stored events, (s.watch.channels e.ptr).index ≠ kNew := by
    intro e he
    obtain ⟨fd, ev, hreg⟩ := mem_stored he
    simp [((h.mirrors.epoll _ _ _).mp hreg).2.1, kAdded, kNew]
  obtain ⟨channels, hfold, -, -⟩ := h.mirrors.fillActiveChannels [] (fun _ => rfl) fun e he => mem_stored he
  have hframe := foldlM_activate_frame hfold
  rw [ActiveLoop.poll, foldlM_activate fun e he => h.alive _ (hadded e he), hfold, ok_bind]
  have hindex : ∀ b, (channels b).index = (s.watch.channels b).index := fun b => (hframe b).2.2
  refine ⟨_, rfl, h.mirrors.congr rfl rfl hframe, fun b hi => h.alive b ?_, ?_⟩
  · rw [← hindex]
    exact hi
  · refine .next rfl ?_ (fun b hb => hb) fun b hb => ?_
    · rw [List.nil_append]
      exact nodup_stored h.mirrors hn
    · rw [List.nil_append] at hb
      obtain ⟨e, he, rfl⟩ := List.mem_map.mp hb
      show (channels e.ptr).index ≠ kNew
      rw [hindex]
      exact hadded e he

theorem Inv.handleEvent (h : s.Inv) {rest : List Nat} (hp : s.phase = .next (a :: rest)) (guard : Bool) :
    ∃ t, s.handleEvent a rest guard = .ok t ∧ t.Inv := by
  have hstage := h.stage
  rw [hp] at hstage
  cases hstage with
  | next hh hn hm hi =>
    obtain ⟨ha, hrest⟩ := List.forall_mem_cons.mp hi
    obtain ⟨-, hmrest⟩ := List.forall_mem_cons.mp hm
    rw [ActiveLoop.handleEvent, check_of (h.alive a ha), ok_bind]
    refine ⟨_, rfl, ?_⟩
    cases guard with
    | true => exact ⟨h.mirrors, h.alive, .handler hh rfl (h.alive a ha) (Function.update_self ..) hn hmrest hrest⟩
    | false => exact ⟨h.mirrors, h.alive, .next hh (List.nodup_cons.mp hn).2 hmrest hrest⟩

theorem Inv.handlerReturns (h : s.Inv) {rest : List Nat} (hp : s.phase = .handler rest)
    (hc : s.currentActiveChannel = some a) :
    ∃ t, s.handlerReturns a rest = .ok t ∧ t.Inv := by
  have hstage := h.stage
  rw [hp] at hstage
  cases hstage with
  | handler hh hcur ha _ hn hm hi =>
    rw [hc] at hcur
    cases hcur
    rw [ActiveLoop.handlerReturns, check_of ha, ok_bind]
    exact ⟨_, rfl, h.mirrors, h.alive, .release hh hc hn hm hi⟩

theorem Inv.released (h : s.Inv) {rest : List Nat} (hp : s.phase = .release rest) :
    Inv { s with phase := .next rest } := by
  have hstage := h.stage
  rw [hp] at hstage
  cases hstage with
  | release hh _ hn hm hi => exact ⟨h.mirrors, h.alive, .next hh (List.nodup_cons.mp hn).2 hm hi⟩

theorem Inv.step (h : s.Inv) (l : Label) : (∃ f, s.step l = .error f ∧ Asserts f) ∨ ∃ t, s.step l = .ok t ∧ t.Inv := by
  cases l with
  | newChannel a fd =>
    refine .inr ⟨_, rfl, ?_⟩
    split
    · rename_i hc
      rw [Bool.and_eq_true, Bool.not_eq_true'] at hc
      exact h.newChannel hc.1 hc.2 fd
    · exact h
  | op a op =>
    unfold ActiveLoop.step
    dsimp only
    split
    · rename_i hc
      rw [Bool.and_eq_true] at hc
      rcases h.op hc.1 hc.2 op with ⟨f, hf, ha⟩ | ⟨t, ht, hi⟩
      · exact .inl ⟨_, by rw [hf]; rfl, ha⟩
      · exact .inr ⟨t, by rw [ht]; rfl, hi⟩
    · exact .inr ⟨s, rfl, h⟩
  | destroy a =>
    unfold ActiveLoop.step
    dsimp only
    split
    · rename_i hc
      rw [Bool.and_eq_true] at hc
      exact h.destroy hc.1 a
    · exact .inr ⟨s, rfl, h⟩
  | poll events =>
    unfold ActiveLoop.step
    dsimp only
    split
    · rename_i hc
      obtain ⟨t, ht, hi⟩ := h.poll hc.2.1
      exact .inr ⟨t, by rw [ht]; rfl, hi⟩
    · exact .inr ⟨s, rfl, h⟩
  | handleEvent guard =>
    unfold ActiveLoop.step
    dsimp only
    split
    · rename_i hp
      obtain ⟨t, ht, hi⟩ := h.handleEvent hp guard
      exact .inr ⟨t, by rw [ht]; rfl, hi⟩
    · exact .inr ⟨s, rfl, h⟩
  | handlerReturns =>
    unfold ActiveLoop.step
    dsimp only
    split
    · rename_i hp hc
      obtain ⟨t, ht, hi⟩ := h.handlerReturns hp hc
      exact .inr ⟨t, by rw [ht]; rfl, hi⟩
    · exact .inr ⟨s, rfl, h⟩
  | released =>
    unfold ActiveLoop.step
    dsimp only
    split
    · rename_i hp
      exact .inr ⟨_, rfl, h.released hp⟩
    · exact .inr ⟨s, rfl, h⟩
  | endEvents =>
    refine .inr ⟨_, rfl, ?_⟩
    split
    · exact ⟨h.mirrors, h.alive, .functors rfl⟩
    · exact h

theorem inv_start (fds : Nat → Int) : (start fds).Inv :=
  ⟨mirrors_start fds, fun _ hi => absurd rfl hi, .functors rfl⟩

/-- Whatever handlers, destructors and functors do with channels, nothing but an assertion on one of their own calls
stops the loop. So the kernel reports no channel that was destroyed, no handler of such a channel is called, and no
channel is destroyed while its handler runs. -/
theorem handlers_never_dangle (fds : Nat → Int) (ls : List Label) (f : ChannelFault)
    (h : run step (start fds) ls = .error f) :
    f = .dtor ∨ f = .fault .channelRemove ∨ f = .fault .removeChannel ∨ f = .fault .updateChannel := by
  rcases run_stops_or_inv (I := Inv) (fun s l h => h.step l) (inv_start fds) with ⟨g, hr, hg⟩ | ⟨t, hr, -⟩
  · rw [h] at hr
    cases hr
    exact hg
  · rw [h] at hr
    cases hr

/-- The handler of one channel removes another that was reported with it. -/
theorem handlers_never_dangle_remove :
    ∃ f, run step (start fun _ => 0) [.newChannel 3 7, .newChannel 4 8, .op 3 .enableReading, .op 4 .enableReading,
      .poll [(7, kReadEvent), (8, kReadEvent)], .handleEvent true, .op 4 .disableAll, .op 4 .remove] =
        .error f ∧ f ≠ .fault .useAfterFree := by
  have hr : run step (start fun _ => 0) [.newChannel 3 7, .newChannel 4 8, .op 3 .enableReading, .op 4 .enableReading,
      .poll [(7, kReadEvent), (8, kReadEvent)], .handleEvent true, .op 4 .disableAll, .op 4 .remove] =
        .error (.fault .removeChannel) :=
    error_of_map (f := fun _ => ()) (by decide +kernel)
  refine ⟨_, hr, ?_⟩
  rcases handlers_never_dangle _ _ _ hr with h | h | h | h <;> rw [h] <;> decide

end ActiveLoop

end Zhengqi
