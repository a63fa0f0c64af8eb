import Zhengqi.EPollPollerSound

/-!
# The epoll set mirrors the channels

`channels_`, the indices of the channels and the kernel's epoll set agree after every call of
the poller whose assertions hold (`Mirrors`), so that no `epoll_ctl` fails. The kernel watches
a channel for the events of its last update. Those are the events it has, and none for a
channel without events, exactly as long as no operation leaves a channel without events that
had none before.
-/

namespace Zhengqi

open Run

namespace EPollPoller

variable {w v : Watch EPollPoller} {q : EPollPoller} {d : Channel} {a : Nat}

/-! ## One call -/

structure Mirrors (w : Watch EPollPoller) : Prop where
  addr : ∀ a, (w.channels a).addr = a
  index : ∀ a, (w.channels a).index = kNew ∨ (w.channels a).index = kAdded ∨ (w.channels a).index = kDeleted
  channels : ∀ fd a, w.poller.channels fd = some a ↔
    (w.channels a).fd = fd ∧ ((w.channels a).index = kAdded ∨ (w.channels a).index = kDeleted)
  epoll : ∀ fd ev a, w.poller.epoll fd = some (ev, a) ↔
    (w.channels a).fd = fd ∧ (w.channels a).index = kAdded ∧ ev = w.updated a
  failures : w.poller.failures = 0

theorem Mirrors.tracked (h : Mirrors w) (a : Nat) : Tracked w.poller (w.channels a) := by
  intro hc
  rw [h.addr] at hc
  constructor
  · intro hne
    obtain ⟨⟨ev, b⟩, he⟩ := Option.ne_none_iff_exists'.mp hne
    obtain ⟨hfd, hi, -⟩ := (h.epoll _ _ _).mp he
    have hb := (h.channels _ b).mpr ⟨hfd, .inl hi⟩
    rw [hb] at hc
    obtain rfl : b = a := by simpa using hc
    exact hi
  · intro hi
    rw [(h.epoll _ (w.updated a) a).mpr ⟨rfl, hi, rfl⟩]
    simp

/-- What is written for one channel, where no other has its descriptor. -/
theorem Mirrors.touch (h : Mirrors w) {ev : Events} (ha : d.addr = a) (hfd : d.fd = (w.channels a).fd)
    (hi : d.index = kNew ∨ d.index = kAdded ∨ d.index = kDeleted)
    (hfree : w.poller.channels d.fd = none ∨ w.poller.channels d.fd = some a)
    (hc : q.channels = Function.update w.poller.channels d.fd (if d.index = kNew then none else some a))
    (he : q.epoll = Function.update w.poller.epoll d.fd (if d.index = kAdded then some (ev, a) else none))
    (hf : q.failures = w.poller.failures) :
    Mirrors { poller := q, channels := Function.update w.channels a d, updated := Function.update w.updated a ev } := by
  have hother : ∀ b, b ≠ a → (w.channels b).fd = d.fd →
      ¬ ((w.channels b).index = kAdded ∨ (w.channels b).index = kDeleted) := by
    intro b hb hbd hbi
    rw [(h.channels _ b).mpr ⟨hbd, hbi⟩] at hfree
    exact hb (by simpa using hfree)
  constructor
  case addr => exact (Function.forall_update_iff _ fun b (c : Channel) => c.addr = b).mpr ⟨ha, fun b _ => h.addr b⟩
  case index =>
    refine (Function.forall_update_iff _ fun _ (c : Channel) => c.index = kNew ∨ c.index = kAdded ∨
      c.index = kDeleted).mpr
      ⟨hi, ?_⟩
    exact fun b _ => h.index b
  case channels =>
    intro fd b
    simp only [hc]
    by_cases hb : b = a
    · subst hb
      rw [Function.update_self]
      by_cases hd : fd = d.fd
      · subst hd
        rw [Function.update_self]
        rcases hi with hi | hi | hi <;> simp [hi, kNew, kAdded, kDeleted]
      · rw [Function.update_of_ne hd, h.channels, ← hfd]
        simp [Ne.symm hd]
    · rw [Function.update_of_ne hb]
      by_cases hd : fd = d.fd
      · subst hd
        rw [Function.update_self]
        refine iff_of_false (fun hs => ?_) fun hs => hother b hb hs.1 hs.2
        split at hs
        · cases hs
        · exact hb (Option.some.inj hs).symm
      · rw [Function.update_of_ne hd, h.channels]
  case epoll =>
    intro fd ev' b
    simp only [he]
    by_cases hb : b = a
    · subst hb
      rw [Function.update_self, Function.update_self]
      by_cases hd : fd = d.fd
      · subst hd
        rw [Function.update_self]
        by_cases hadd : d.index = kAdded
        · simp [hadd, eq_comm]
        · simp [hadd]
      · rw [Function.update_of_ne hd, h.epoll, ← hfd]
        simp [Ne.symm hd]
    · rw [Function.update_of_ne hb, Function.update_of_ne hb]
      by_cases hd : fd = d.fd
      · subst hd
        rw [Function.update_self]
        refine iff_of_false (fun hs => ?_) fun hs => hother b hb hs.1 (.inl hs.2.1)
        split at hs
        · exact hb (Prod.mk.inj (Option.some.inj hs)).2.symm
        · cases hs
      · rw [Function.update_of_ne hd, h.epoll]
  case failures => exact hf.trans h.failures

/-- The fields of a channel that the poller does not read may change. -/
theorem Mirrors.setChannel (h : Mirrors w) (ha : d.addr = (w.channels a).addr) (hfd : d.fd = (w.channels a).fd)
    (hi : d.index = (w.channels a).index) : Mirrors (w.setChannel d a) := by
  have hsame : ∀ b, ((w.setChannel d a).channels b).addr = (w.channels b).addr ∧
      ((w.setChannel d a).channels b).fd = (w.channels b).fd ∧
      ((w.setChannel d a).channels b).index = (w.channels b).index := by
    intro b
    by_cases hb : b = a
    · subst hb
      simp [Watch.setChannel, ha, hfd, hi]
    · simp [Watch.setChannel, hb]
  constructor
  case addr => exact fun b => (hsame b).1.trans (h.addr b)
  case index =>
    intro b
    rw [(hsame b).2.2]
    exact h.index b
  case channels =>
    intro fd b
    rw [(hsame b).2.1, (hsame b).2.2]
    exact h.channels fd b
  case epoll =>
    intro fd ev b
    rw [(hsame b).2.1, (hsame b).2.2]
    exact h.epoll fd ev b
  case failures => exact h.failures

theorem Mirrors.updates (h : Mirrors w) (hu : Updates w.poller (w.channels a) q d) : Mirrors (w.written q a d) := by
  have ha := h.addr a
  cases hu with
  | first hi hc =>
    refine h.touch ha rfl (.inr (.inl rfl)) (.inl hc) ?_ ?_ rfl
    · simp [ha, kAdded, kNew]
    · simp [ha]
  | again hi hc =>
    rw [ha] at hc
    refine h.touch ha rfl (.inr (.inl rfl)) (.inr hc) ?_ ?_ rfl
    · simp [kAdded, kNew, ← hc]
    · simp [ha]
  | modify hi hc hn =>
    rw [ha] at hc
    refine h.touch ha rfl (.inr (.inl hi)) (.inr hc) ?_ ?_ rfl
    · simp [hi, kAdded, kNew, ← hc]
    · simp [hi, ha]
  | disable hi hc hn =>
    rw [ha] at hc
    refine h.touch ha rfl (.inr (.inr rfl)) (.inr hc) ?_ ?_ rfl
    · simp [kDeleted, kNew, ← hc]
    · simp [kDeleted, kAdded]

theorem Mirrors.removes (h : Mirrors w) (hr : Removes w.poller (w.channels a) q d) :
    Mirrors { w with poller := q, channels := Function.update w.channels a d } := by
  have ha := h.addr a
  rw [← Function.update_eq_self a w.updated]
  cases hr with
  | added hi hc hn =>
    rw [ha] at hc
    exact h.touch ha rfl (.inl rfl) (.inr hc) (by simp) (by simp [kNew, kAdded]) rfl
  | deleted hi hc hn =>
    rw [ha] at hc
    refine h.touch ha rfl (.inl rfl) (.inr hc) (by simp) ?_ rfl
    have he : w.poller.epoll (w.channels a).fd = none := by
      by_contra hne
      have hadd := (h.tracked a (.inr (ha.symm ▸ hc))).mp hne
      rw [hi] at hadd
      cases hadd
    simp [kNew, kAdded, ← he]

/-! ## Calls of the poller -/

theorem Mirrors.updateChannel (h : Mirrors w) (hx : Expects w.poller (w.channels a)) :
    ∃ q d, Updates w.poller (w.channels a) q d ∧ w.call (.updateChannel a) = .ok (w.written q a d) := by
  obtain ⟨q, d, hu, hd⟩ := (h.tracked a).updateChannel hx
  refine ⟨q, d, hd, ?_⟩
  rw [Watch.written, hd.events]
  apply Watch.call_updateChannel
  simp only [ChannelPoller.updateChannel, Poller.updateChannel, hu, ok_bind, pure_eq_ok]

theorem Mirrors.removeChannel (h : Mirrors w)
    (hx : Taken w.poller (w.channels a) ∧ (w.channels a).events = kNoneEvent) :
    ∃ q d, Removes w.poller (w.channels a) q d ∧
      w.call (.removeChannel a) = .ok { w with poller := q, channels := Function.update w.channels a d } := by
  obtain ⟨q, d, hr, hd⟩ := (h.tracked a).removeChannel hx.1 hx.2
  refine ⟨q, d, hd, Watch.call_removeChannel ?_⟩
  simp only [ChannelPoller.removeChannel, Poller.removeChannel, hr, ok_bind, pure_eq_ok]

theorem call_removeChannel_error (hx : ¬ (Taken w.poller (w.channels a) ∧ (w.channels a).events = kNoneEvent)) :
    w.call (.removeChannel a) = .error .removeChannel := by
  simp only [Watch.call, ChannelPoller.removeChannel, Poller.removeChannel, removeChannel_error hx, error_bind]

theorem Mirrors.call (h : Mirrors w) (l : PollerCall) :
    (∃ f, w.call l = .error f ∧ (f = .updateChannel ∨ f = .removeChannel)) ∨ ∃ v, w.call l = .ok v ∧ Mirrors v := by
  cases l with
  | setEvents a ev => exact .inr ⟨_, rfl, h.setChannel rfl rfl rfl⟩
  | updateChannel a =>
    by_cases hx : Expects w.poller (w.channels a)
    · obtain ⟨q, d, hd, hcall⟩ := h.updateChannel hx
      exact .inr ⟨_, hcall, h.updates hd⟩
    · refine .inl ⟨_, ?_, .inl rfl⟩
      simp only [Watch.call, ChannelPoller.updateChannel, Poller.updateChannel, updateChannel_error hx, error_bind]
  | removeChannel a =>
    by_cases hx : Taken w.poller (w.channels a) ∧ (w.channels a).events = kNoneEvent
    · obtain ⟨q, d, hd, hcall⟩ := h.removeChannel hx
      exact .inr ⟨_, hcall, h.removes hd⟩
    · exact .inl ⟨_, call_removeChannel_error hx, .inr rfl⟩

theorem mirrors_start (fds : Nat → Int) : Mirrors (.start empty fds) := by
  constructor
  case index => exact fun _ => .inl rfl
  all_goals simp [Watch.start, empty, kAdded, kDeleted]

/-- The events of registered descriptors are handed to the channels under which they are registered. -/
theorem Mirrors.fillActiveChannels (h : Mirrors w) :
    ∀ (active : List Nat) {events : List EpollEvent} {channels : Channels},
    (∀ a, (channels a).fd = (w.channels a).fd) → (∀ e ∈ events, ∃ fd ev, w.poller.epoll fd = some (ev, e.ptr)) →
    ∃ channels', events.foldlM w.poller.activate (active, channels) = .ok (active ++ events.map (·.ptr), channels') ∧
      (∀ a, (channels' a).fd = (w.channels a).fd) ∧
      ∀ e ∈ events, w.poller.channels (channels' e.ptr).fd = some e.ptr
  | active, [], channels, hfd, _ => ⟨channels, by simp, hfd, by simp⟩
  | active, e :: events, channels, hfd, he => by
    obtain ⟨⟨fd, ev, hreg⟩, he⟩ := List.forall_mem_cons.mp he
    obtain ⟨hptr, hi, -⟩ := (h.epoll _ _ _).mp hreg
    have hc : w.poller.channels (w.channels e.ptr).fd = some e.ptr := (h.channels _ _).mpr ⟨rfl, .inl hi⟩
    have hact : w.poller.activate (active, channels) e = .ok (active ++ [e.ptr],
        Function.update channels e.ptr { channels e.ptr with revents := e.events }) := by
      simp [activate, hfd, hc]
    have hfd' : ∀ a, ((Function.update channels e.ptr { channels e.ptr with revents := e.events }) a).fd =
        (w.channels a).fd := by
      intro a
      by_cases ha : a = e.ptr
      · subst ha
        rw [Function.update_self]
        exact hfd e.ptr
      · rw [Function.update_of_ne ha, hfd]
    obtain ⟨channels', hfold, hfd'', hall⟩ := Mirrors.fillActiveChannels h (active ++ [e.ptr]) hfd' he
    refine ⟨channels', ?_, hfd'', ?_⟩
    · rw [List.foldlM_cons, hact, ok_bind, hfold]
      simp
    · refine List.forall_mem_cons.mpr ⟨?_, hall⟩
      rw [hfd'']
      exact hc

/-- Whatever calls are made of the poller, only its assertions can fail; and as long as they
hold, `channels_`, the indices and the epoll set agree, no `epoll_ctl` has failed, and what the
kernel reports goes to the channels registered under their descriptors. -/
theorem epoll_set_mirrors_channels (fds : Nat → Int) (ls : List PollerCall) :
    (∀ f, run Watch.call (.start empty fds) ls = .error f → f = .updateChannel ∨ f = .removeChannel) ∧
    ∀ w, run Watch.call (.start empty fds) ls = .ok w →
      (∀ fd a, w.poller.channels fd = some a ↔
        (w.channels a).fd = fd ∧ ((w.channels a).index = kAdded ∨ (w.channels a).index = kDeleted)) ∧
      (∀ fd ev a, w.poller.epoll fd = some (ev, a) ↔
        (w.channels a).fd = fd ∧ (w.channels a).index = kAdded ∧ ev = w.updated a) ∧
      w.poller.failures = 0 ∧
      ∀ events numEvents active, numEvents ≤ events.length →
        (∀ e ∈ events.take numEvents, ∃ fd ev, w.poller.epoll fd = some (ev, e.ptr)) →
        ∃ channels, w.poller.fillActiveChannels w.channels events numEvents active =
            .ok (active ++ (events.take numEvents).map (·.ptr), channels) ∧
          ∀ e ∈ events.take numEvents, w.poller.channels (channels e.ptr).fd = some e.ptr := by
  rcases run_stops_or_inv (I := Mirrors) (fun w l h => h.call l) (mirrors_start fds) with
    ⟨f, hr, hf⟩ | ⟨w, hr, h⟩
  · rw [hr]
    refine ⟨?_, by simp⟩
    rintro g ⟨⟩
    exact hf
  · rw [hr]
    refine ⟨by simp, ?_⟩
    rintro w' ⟨⟩
    refine ⟨h.channels, h.epoll, h.failures, fun events numEvents active hle he => ?_⟩
    obtain ⟨channels, hfold, -, hall⟩ := h.fillActiveChannels active (fun _ => rfl) he
    exact ⟨channels, by rw [EPollPoller.fillActiveChannels, check_of hle, ok_bind, hfold], hall⟩

/-- A channel that is disabled and added again, and one that is removed; the kernel reports the first. -/
theorem epoll_set_mirrors_channels_two :
    ∃ w : Watch EPollPoller, run Watch.call (.start empty fun a => a)
        [.setEvents 3 kReadEvent, .updateChannel 3, .updateChannel 4, .setEvents 3 kNoneEvent, .updateChannel 3,
          .removeChannel 4, .setEvents 3 kWriteEvent, .updateChannel 3] = .ok w ∧
      w.poller.epoll 3 = some (kWriteEvent, 3) ∧ w.poller.failures = 0 ∧
      ∃ channels, w.poller.fillActiveChannels w.channels [⟨3, kWriteEvent⟩] 1 [] = .ok ([3], channels) := by
  obtain ⟨w, hw, he⟩ := ok_of_map (show (run Watch.call (.start empty fun a => a)
    [.setEvents 3 kReadEvent, .updateChannel 3, .updateChannel 4, .setEvents 3 kNoneEvent, .updateChannel 3,
      .removeChannel 4, .setEvents 3 kWriteEvent, .updateChannel 3]).map (fun w => w.poller.epoll 3) =
        .ok (some (kWriteEvent, 3)) by decide +kernel)
  obtain ⟨-, -, hf, hfill⟩ := (epoll_set_mirrors_channels (fun a => a) _).2 w hw
  obtain ⟨channels, hc, -⟩ := hfill [⟨3, kWriteEvent⟩] 1 [] (by decide) (by simpa using ⟨3, kWriteEvent, he⟩)
  exact ⟨w, hw, he, hf, channels, hc⟩

/-! ## Operations of the channels -/

/-- The operation leaves the channel with events, or takes away those it had. -/
def Effective (w : Watch EPollPoller) (l : Nat × ChannelOp) : Prop :=
  l.2.events (w.channels l.1).events ≠ kNoneEvent ∨ (w.channels l.1).events ≠ kNoneEvent

instance (w : Watch EPollPoller) (l : Nat × ChannelOp) : Decidable (Effective w l) :=
  inferInstanceAs (Decidable (_ ∨ _))

theorem Mirrors.expects (h : Mirrors w) (hone : ∀ b, (w.channels b).fd = (w.channels a).fd → b = a) :
    Expects w.poller (w.channels a) := by
  rcases h.index a with hi | hi
  · left
    refine ⟨hi, ?_⟩
    cases hc : w.poller.channels (w.channels a).fd with
    | none => rfl
    | some b =>
      obtain ⟨hfd, hb⟩ := (h.channels _ _).mp hc
      rw [hone b hfd, hi] at hb
      simp [kNew, kAdded, kDeleted] at hb
  · exact .inr ⟨hi, by rw [h.addr]; exact (h.channels _ a).mpr ⟨rfl, hi⟩⟩

/-- Channels with descriptors of their own, each updated whenever its events change. -/
structure Followed (fds : Nat → Int) (w : Watch EPollPoller) : Prop where
  mirrors : Mirrors w
  fds : ∀ a, (w.channels a).fd = fds a
  updated : ∀ a, w.updated a = (w.channels a).events
  armed : ∀ a, (w.channels a).events ≠ kNoneEvent → (w.channels a).index = kAdded

section
variable {fds : Nat → Int} {op : ChannelOp}

theorem followed_start (fds : Nat → Int) : Followed fds (.start empty fds) :=
  ⟨mirrors_start fds, fun _ => rfl, fun _ => rfl, fun _ hn => absurd rfl hn⟩

theorem Followed.written (h : Followed fds w) (hm : Mirrors (w.written q a d)) (hfd : d.fd = fds a)
    (harmed : d.events ≠ kNoneEvent → d.index = kAdded) : Followed fds (w.written q a d) := by
  have hall : ∀ P : Nat → Channel → Events → Prop, P a d d.events → (∀ b, P b (w.channels b) (w.updated b)) →
      ∀ b, P b ((w.written q a d).channels b) ((w.written q a d).updated b) := by
    intro P ha hP b
    by_cases hb : b = a
    · subst hb
      simpa [Watch.written] using ha
    · simpa [Watch.written, hb] using hP b
  refine ⟨hm, hall (fun b c _ => c.fd = fds b) hfd h.fds, hall (fun _ c ev => ev = c.events) rfl h.updated, ?_⟩
  exact hall (fun _ c _ => c.events ≠ kNoneEvent → c.index = kAdded) harmed h.armed

theorem Followed.update (hinj : Function.Injective fds) (h : Followed fds w) (a : Nat) (hop : op ≠ .remove) :
    ∃ q d, Updates w.poller ((w.channels a).prepared op) q d ∧ w.step (a, op) = .ok (w.written q a d) ∧
      Followed fds (w.written q a d) := by
  have hset : Mirrors (w.setChannel ((w.channels a).prepared op) a) := h.mirrors.setChannel rfl rfl rfl
  have ha : (w.setChannel ((w.channels a).prepared op) a).channels a = (w.channels a).prepared op := by
    simp [Watch.setChannel]
  have hx : Expects w.poller ((w.channels a).prepared op) :=
    h.mirrors.expects (a := a) fun b hb => hinj (by rw [← h.fds, ← h.fds, hb])
  rw [← ha] at hx
  obtain ⟨q, d, hd, hcall⟩ := hset.updateChannel hx
  have hm := hset.updates hd
  rw [Watch.written_setChannel] at hcall hm
  rw [ha] at hd
  have harmed : d.fd = fds a ∧ (d.events ≠ kNoneEvent → d.index = kAdded) := by
    have hfd : ((w.channels a).prepared op).fd = fds a := h.fds a
    cases hd with
    | first hi hc => exact ⟨hfd, fun _ => rfl⟩
    | again hi hc => exact ⟨hfd, fun _ => rfl⟩
    | modify hi hc hn => exact ⟨hfd, fun _ => hi⟩
    | disable hi hc hn => exact ⟨hfd, fun hne => absurd hn hne⟩
  refine ⟨q, d, hd, ?_, h.written hm harmed.1 harmed.2⟩
  rw [Watch.step_of_ne _ _ hop]
  exact hcall

/-- The kernel knows only channels that have events. -/
structure Synchronous (fds : Nat → Int) (w : Watch EPollPoller) : Prop extends Followed fds w where
  added : ∀ a, (w.channels a).index = kAdded → (w.channels a).events ≠ kNoneEvent

theorem Synchronous.step (hinj : Function.Injective fds) (h : Synchronous fds w) (hop : op ≠ .remove)
    (he : Effective w (a, op)) : ∃ v, w.step (a, op) = .ok v ∧ Synchronous fds v := by
  obtain ⟨q, d, hd, hstep, hf⟩ := h.update hinj a hop
  -- a channel that the kernel does not know has no events, so the operation gives it some
  have hadds : (w.channels a).index ≠ kAdded → op.events (w.channels a).events ≠ kNoneEvent :=
    fun hi => he.resolve_right fun hne => hi (h.armed a hne)
  have hadded : d.index = kAdded → d.events ≠ kNoneEvent := by
    cases hd with
    | first hi hc => exact fun _ => hadds (by rw [show (w.channels a).index = kNew from hi]; decide)
    | again hi hc => exact fun _ => hadds (by rw [show (w.channels a).index = kDeleted from hi]; decide)
    | modify hi hc hn => exact fun _ => hn
    | disable hi hc hn => exact fun hi => absurd hi (by simp [kAdded, kDeleted])
  refine ⟨_, hstep, hf, fun b => ?_⟩
  by_cases hb : b = a
  · subst hb
    simpa [Watch.written] using hadded
  · simpa [Watch.written, hb] using h.added b

/-- An idle operation registers the channel without events. -/
theorem Synchronous.idle (hinj : Function.Injective fds) (h : Synchronous fds w) (hop : op ≠ .remove)
    (he : ¬ Effective w (a, op)) (hv : w.step (a, op) = .ok v) : v.poller.epoll (fds a) = some (kNoneEvent, a) := by
  obtain ⟨q, d, hd, hstep, -⟩ := h.update hinj a hop
  rw [hstep] at hv
  cases hv
  rw [Effective, not_or, not_not, not_not] at he
  have hadded : (w.channels a).index ≠ kAdded := fun hi => h.added a hi he.2
  have ha := h.mirrors.addr a
  have hfd := h.fds a
  have hev : op.events (w.channels a).events = kNoneEvent := he.1
  cases hd with
  | first hi hc => simp [Watch.written, Channel.prepared, hfd, hev, ha]
  | again hi hc => simp [Watch.written, Channel.prepared, hfd, hev, ha]
  | modify hi hc hn => exact absurd hi hadded
  | disable hi hc hn => exact absurd hi hadded

theorem Synchronous.epoll_iff (h : Synchronous fds w) (fd : Int) (ev : Events) (a : Nat) :
    w.poller.epoll fd = some (ev, a) ↔ fds a = fd ∧ (w.channels a).events = ev ∧ ev ≠ kNoneEvent := by
  rw [h.mirrors.epoll, h.fds, h.updated]
  constructor
  · rintro ⟨hfd, hi, rfl⟩
    exact ⟨hfd, rfl, h.added a hi⟩
  · rintro ⟨hfd, rfl, hn⟩
    exact ⟨hfd, h.armed a hn, rfl⟩

end

/-- Channels with descriptors of their own: after every operation the kernel watches a channel
exactly when it has events, and for these, as long as no operation leaves a channel without
events that had none. -/
theorem disabled_unwatched_iff_effective (fds : Nat → Int) (hinj : Function.Injective fds) (ls : List (Nat × ChannelOp))
    (hops : ∀ l ∈ ls, l.2 ≠ .remove) :
    (∀ ms, ms <+: ls → ∃ w, run Watch.step (.start empty fds) ms = .ok w ∧
      ∀ fd ev a, w.poller.epoll fd = some (ev, a) ↔ fds a = fd ∧ (w.channels a).events = ev ∧ ev ≠ kNoneEvent) ↔
    Meets Watch.step Effective (.start empty fds) ls := by
  have hstart : Synchronous fds (.start empty fds) :=
    ⟨followed_start fds, fun _ hi => absurd hi (by simp [Watch.start, kAdded])⟩
  refine Meets.total_iff (D := fun _ l => l.2 ≠ .remove) (fun w h => h.epoll_iff)
    (fun w l h hop he => h.step hinj hop he) (fun w l v h hop he hv hg => ?_)
      (Meets.of_forall fun l hl _ => hops l hl) hstart
  exact ((hg _ _ _).mp (h.idle hinj hop he hv)).2.2 rfl

/-- Two channels, one of them disabled and enabled again. -/
theorem disabled_unwatched_iff_effective_two :
    ∃ w : Watch EPollPoller, run Watch.step (.start empty fun a => a)
        [(3, .enableReading), (4, .enableWriting), (3, .disableAll), (3, .enableReading), (4, .disableWriting)] =
          .ok w ∧
      ∀ fd ev a, w.poller.epoll fd = some (ev, a) ↔ (a : Int) = fd ∧ (w.channels a).events = ev ∧ ev ≠ kNoneEvent :=
  (disabled_unwatched_iff_effective (fun a => a) (fun _ _ h => Int.ofNat_inj.mp h) _ (by decide)).mpr
    (by decide +kernel) _
    (List.prefix_refl _)

/-- The first operation disables a channel; and a channel is disabled twice. -/
theorem disabled_channel_watched :
    ∃ w v : Watch EPollPoller, run Watch.step (.start empty fun a => a) [(3, .disableAll)] = .ok w ∧
      (w.channels 3).events = kNoneEvent ∧ w.poller.epoll 3 = some (kNoneEvent, 3) ∧
      run Watch.step (.start empty fun a => a) [(3, .enableReading), (3, .disableAll), (3, .disableAll)] = .ok v ∧
      (v.channels 3).events = kNoneEvent ∧ v.poller.epoll 3 = some (kNoneEvent, 3) := by
  obtain ⟨w, hw, he⟩ := ok_of_map (show (run Watch.step (.start empty fun a => a) [(3, .disableAll)]).map (fun w =>
    ((w.channels 3).events, w.poller.epoll 3)) = .ok (kNoneEvent, some (kNoneEvent, 3)) by decide +kernel)
  obtain ⟨v, hv, he'⟩ := ok_of_map (show (run Watch.step (.start empty fun a => a)
    [(3, .enableReading), (3, .disableAll), (3, .disableAll)]).map (fun w =>
      ((w.channels 3).events, w.poller.epoll 3)) = .ok (kNoneEvent, some (kNoneEvent, 3)) by decide +kernel)
  rw [Prod.mk.injEq] at he he'
  exact ⟨w, v, hw, he.1, he.2, hv, he'.1, he'.2⟩

end EPollPoller

end Zhengqi
