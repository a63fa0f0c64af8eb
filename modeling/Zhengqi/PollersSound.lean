import Zhengqi.EPollMirrorSound
import Zhengqi.PollPollerSound

/-!
# The two pollers side by side

The same operations of channels, served by an `EPollPoller` and by a `PollPoller`. Both are
followed on their own: what each asks the kernel to watch are the events of the channels that
have some. `PollPoller` fails where `EPollPoller` does not when a channel is used after its
removal, since its `index_` is left behind, and when a channel is removed that was updated
only once, since its first slot is not negated.
-/

namespace Zhengqi

open Run

/-- The operations on one channel. -/
def opsOf (log : List (Nat × ChannelOp)) (a : Nat) : List ChannelOp := (log.filter (·.1 = a)).map (·.2)

theorem opsOf_self (log : List (Nat × ChannelOp)) (a : Nat) (op : ChannelOp) :
    opsOf (log ++ [(a, op)]) a = opsOf log a ++ [op] := by
  simp [opsOf]

theorem opsOf_of_ne (log : List (Nat × ChannelOp)) {a b : Nat} (h : b ≠ a) (op : ChannelOp) :
    opsOf (log ++ [(a, op)]) b = opsOf log b := by
  simp [opsOf, Ne.symm h]

/-! ## What the kernel is asked to watch -/

def EPollPoller.Watches (p : EPollPoller) (fd : Int) (ev : Events) : Prop :=
  ev ≠ kNoneEvent ∧ ∃ addr, p.epoll fd = some (ev, addr)

/-- `poll` ignores a slot with a negative descriptor. -/
def PollPoller.Watches (p : PollPoller) (fd : Int) (ev : Events) : Prop :=
  ev ≠ kNoneEvent ∧ 0 ≤ fd ∧ ∃ pfd ∈ p.pollfds, pfd.fd = fd ∧ pfd.events = ev

structure Pollers where
  epoll : Watch EPollPoller
  poll : Watch PollPoller
  log : List (Nat × ChannelOp) := []

namespace Pollers

def start (fds : Nat → Int) : Pollers := { epoll := .start .empty fds, poll := .start {} fds }

def step (w : Pollers) (l : Nat × ChannelOp) : Except Fault Pollers := do
  let epoll ← w.epoll.step l
  let poll ← w.poll.step l
  pure { epoll, poll, log := w.log ++ [l] }

/-- A channel is not used after its removal, and not removed before its second operation. -/
def Careful (w : Pollers) (l : Nat × ChannelOp) : Prop :=
  .remove ∉ opsOf w.log l.1 ∧ (l.2 = .remove → 2 ≤ (opsOf w.log l.1).length)

instance (w : Pollers) (l : Nat × ChannelOp) : Decidable (w.Careful l) := inferInstanceAs (Decidable (_ ∧ _))

end Pollers

/-! ## The epoll poller -/

namespace EPollPoller

variable {fds : Nat → Int} {w v : Watch EPollPoller} {a : Nat} {op : ChannelOp}

/-- Whoever has events was added with them, so the mask tells who is watched. -/
theorem Followed.watches_iff (h : Followed fds w) (fd : Int) (ev : Events) :
    w.poller.Watches fd ev ↔ ev ≠ kNoneEvent ∧ ∃ a, fds a = fd ∧ w.masks a = ev := by
  unfold Watches
  refine and_congr_right fun hn => exists_congr fun a => ?_
  rw [h.mirrors.epoll, h.fds, h.updated]
  constructor
  · rintro ⟨hfd, -, rfl⟩
    exact ⟨hfd, rfl⟩
  · rintro ⟨hfd, rfl⟩
    exact ⟨hfd, h.armed a hn, rfl⟩

theorem Followed.remove (h : Followed fds w) (hv : w.step (a, .remove) = .ok v) :
    w.masks a = kNoneEvent ∧ v.masks = w.masks ∧ Followed fds v := by
  rw [Watch.step_remove] at hv
  obtain ⟨⟨⟩, hn, hv⟩ := bind_ok.mp hv
  have hn : (w.channels a).events = kNoneEvent := by simpa [Channel.isNoneEvent] using check_ok.mp hn
  have hset : Mirrors (w.setChannel ((w.channels a).prepared .remove) a) := h.mirrors.setChannel rfl rfl rfl
  by_cases hx : Taken w.poller ((w.setChannel ((w.channels a).prepared .remove) a).channels a) ∧
      ((w.setChannel ((w.channels a).prepared .remove) a).channels a).events = kNoneEvent
  · obtain ⟨q, d, hd, hcall⟩ := hset.removeChannel hx
    have hm := hset.removes hd
    have hd := hd.channel
    simp only [Watch.setChannel, Function.update_self, Function.update_idem] at hd hcall hm
    have hdn : d.events = kNoneEvent := by rw [hd]; exact hn
    -- the removed channel has no events, as at its last update
    have hw : { w with poller := q, channels := Function.update w.channels a d } = w.written q a d := by
      have hup : d.events = w.updated a := by rw [hdn, h.updated, hn]
      rw [Watch.written, hup, Function.update_eq_self]
    rw [hw] at hm
    rw [Watch.setChannel, hcall, hw] at hv
    cases hv
    refine ⟨hn, ?_, h.written hm (by rw [hd]; exact h.fds a) fun hne => absurd hdn hne⟩
    rw [Watch.masks_written, hdn, ← hn]
    exact Function.update_eq_self a w.masks
  · rw [call_removeChannel_error hx] at hv
    cases hv

/-- An operation that the poller accepts keeps both; only a channel without events is removed. -/
theorem Followed.step (hinj : Function.Injective fds) (h : Followed fds w) (hv : w.step (a, op) = .ok v) :
    (op = .remove → w.masks a = kNoneEvent) ∧ v.masks = Function.update w.masks a (op.events (w.masks a)) ∧
      Followed fds v := by
  by_cases hop : op = .remove
  · subst hop
    obtain ⟨hn, hm, hf⟩ := h.remove hv
    refine ⟨fun _ => hn, ?_, hf⟩
    rw [hm, ChannelOp.events, Function.update_eq_self]
  · obtain ⟨q, d, hd, hstep, hf⟩ := h.update hinj a hop
    rw [hstep] at hv
    cases hv
    refine ⟨fun he => absurd he hop, ?_, hf⟩
    rw [Watch.masks_written, hd.events]
    rfl

end EPollPoller

/-! ## The poll poller -/

namespace PollPoller

variable {p q : PollPoller} {t t' : Channels} {a b : Nat} {ops : List ChannelOp}

/-- What the operations on a channel have left of it. The slot of its first operation has its
descriptor, whatever its events are. -/
inductive Status (p : PollPoller) (t : Channels) (a : Nat) (ops : List ChannelOp) : Prop
  | unused (hops : ops = []) (hi : (t a).index < 0) (hc : p.channels.find (t a).fd = none)
      (hn : (t a).events = kNoneEvent)
  | used {i : Nat} {pfd : PollFd} (hops : ops ≠ []) (hr : .remove ∉ ops) (hc : p.channels.find (t a).fd = some a)
      (hi : (t a).index = i) (hp : p.pollfds[i]? = some pfd) (hev : pfd.events = (t a).events)
      (hfd : pfd.fd = if ops.length = 1 then (t a).fd else (slot (t a)).fd)
  | removed (hr : .remove ∈ ops) (hi : 0 ≤ (t a).index) (hc : p.channels.find (t a).fd = none)
      (hn : (t a).events = kNoneEvent)

theorem slot_fd (c : Channel) : (slot c).fd = c.fd ∨ (slot c).fd = ignore c.fd := by
  unfold slot
  cases c.isNoneEvent <;> simp

theorem slot_fd_of_ne {c : Channel} (h : c.events ≠ kNoneEvent) : (slot c).fd = c.fd := by
  simp [slot, Channel.isNoneEvent, h]

theorem slot_fd_none {c : Channel} (h : c.events = kNoneEvent) : (slot c).fd = ignore c.fd := by
  simp [slot, Channel.isNoneEvent, h]

/-- What a call leaves to a channel that it is not made for: its entry, and its slot. -/
structure Keeps (p : PollPoller) (t : Channels) (b : Nat) (q : PollPoller) (t' : Channels) : Prop where
  entry : q.channels.find (t b).fd = p.channels.find (t b).fd
  unknown : p.channels.find (t b).fd = none → t' b = t b
  slot : p.channels.find (t b).fd = some b → ∀ (i : Nat) pfd, (t b).index = i → p.pollfds[i]? = some pfd →
    ∃ j : Nat, t' b = { t b with index := (j : Int) } ∧ q.pollfds[j]? = some pfd

theorem fd_of_slot {c : Channel} {pfd : PollFd} {x : Prop} [Decidable x]
    (h : pfd.fd = if x then c.fd else (slot c).fd) :
    pfd.fd = c.fd ∨ pfd.fd = ignore c.fd := by
  rw [h]
  split
  · exact .inl rfl
  · exact slot_fd c

theorem Status.keeps (h : Status p t b ops) (hk : Keeps p t b q t') : Status q t' b ops := by
  cases h with
  | unused hops hi hc hn =>
    rw [← hk.unknown hc] at hi hn
    exact .unused hops hi (by rw [hk.unknown hc, hk.entry, hc]) hn
  | used hops hr hc hi hp hev hfd =>
    obtain ⟨j, ht, hq⟩ := hk.slot hc _ _ hi hp
    refine .used (i := j) hops hr ?_ (by rw [ht]) hq (by rw [ht, hev]) ?_
    · rw [ht]
      exact hk.entry.trans hc
    · rw [ht, hfd]
      rfl
  | removed hr hi hc hn =>
    rw [← hk.unknown hc] at hi hn
    exact .removed hr hi (by rw [hk.unknown hc, hk.entry, hc]) hn

theorem Inv.updates_keeps (h : Inv p t) (hu : Updates p t a q t') (hne : b ≠ a) (hfd : (t b).fd ≠ (t a).fd) :
    Keeps p t b q t' := by
  cases hu with
  | first hi hc =>
    have ht : Function.update t a { t a with index := (p.pollfds.length : Int) } b = t b := Function.update_of_ne hne ..
    refine ⟨by rw [ChannelMap.find_set, if_neg hfd], fun _ => ht, fun _ i pfd hidx hp => ⟨i, by rw [ht, ← hidx], ?_⟩⟩
    rw [List.getElem?_append_left (List.getElem?_eq_some_iff.mp hp).1, hp]
  | @again k x hi hc hx hs =>
    refine ⟨rfl, fun _ => rfl, fun hcb i pfd hidx hp => ⟨i, by rw [← hidx], ?_⟩⟩
    have hik : k ≠ i := by
      rintro rfl
      exact hne (h.eq_of_index hcb hc (hidx.trans hi.symm))
    rw [List.getElem?_set_ne hik, hp]

/-- A removal writes the `index_` of registered channels only, and not that of its own. -/
theorem Inv.removes_index (h : Inv p t) (hr : Removes p t a q t') (hb : t' b ≠ t b) :
    (t b).fd ≠ (t a).fd ∧ p.channels.find (t b).fd = some b := by
  cases hr with
  | last hc hn hp hi hs => exact absurd rfl hb
  | @middle pfds pfd back i x hc hn hp hi hpi hs hx =>
    obtain rfl : b = x := by
      by_contra hbx
      exact hb (Function.update_of_ne hbx ..)
    rw [ChannelMap.find_erase] at hx
    split at hx
    · cases hx
    · rename_i hne
      have hfd : (t b).fd = back.channelFd := (h.slot_of_find hx).1
      rw [hfd]
      exact ⟨hne, hx⟩

theorem Inv.removes_keeps (h : Inv p t) (hr : Removes p t a q t') (hne : b ≠ a) (hfd : (t b).fd ≠ (t a).fd) :
    Keeps p t b q t' := by
  refine ⟨by rw [hr.frame.1, ChannelMap.find_erase, if_neg hfd], fun hc => ?_, fun hc i pfd hi hp => ?_⟩
  · by_contra hb
    rw [(h.removes_index hr hb).2] at hc
    cases hc
  · obtain ⟨-, i', j, hi', ht, hq⟩ := h.kept hr hc hne
    obtain rfl : i = i' := by omega
    exact ⟨j, ht, hq.trans hp⟩

theorem Updates.channel (hu : Updates p t a q t') (b : Nat) : ∃ i, t' b = { t b with index := i } := by
  cases hu with
  | first hi hc =>
    by_cases hb : b = a
    · subst hb
      exact ⟨_, Function.update_self ..⟩
    · exact ⟨_, Function.update_of_ne hb ..⟩
  | again hi hc hp hs => exact ⟨_, rfl⟩

theorem Removes.channel (hr : Removes p t a q t') (b : Nat) : ∃ i, t' b = { t b with index := i } := by
  cases hr with
  | last hc hn hp hi hs => exact ⟨_, rfl⟩
  | @middle pfds pfd back i x hc hn hp hi hpi hs hx =>
    by_cases hb : b = x
    · subst hb
      exact ⟨_, Function.update_self ..⟩
    · exact ⟨_, Function.update_of_ne hb ..⟩

/-- Whether a channel is new or has a slot, its update is accepted. -/
theorem Status.update {u : Channels} {op : ChannelOp} (h : Status p t a ops) (hr : .remove ∉ ops) (hop : op ≠ .remove)
    (hfd : (u a).fd = (t a).fd) (hi : (u a).index = (t a).index) :
    ∃ q t', Updates p u a q t' ∧ Status q t' a (ops ++ [op]) := by
  have hr' : .remove ∉ ops ++ [op] := by simp [hr, Ne.symm hop]
  cases h with
  | unused hops hidx hc hn =>
    rw [← hi] at hidx
    rw [← hfd] at hc
    refine ⟨_, _, .first hidx hc, ?_⟩
    refine .used (i := p.pollfds.length) (by simp) hr' ?_ ?_ List.getElem?_concat_length ?_ ?_
    all_goals simp [ChannelMap.find_set, hops]
  | @used i pfd hops _ hc hidx hp hev hslot =>
    have hs := fd_of_slot hslot
    rw [← hfd] at hc hs
    rw [← hi] at hidx
    have hlt := (List.getElem?_eq_some_iff.mp hp).1
    refine ⟨_, _, .again hidx hc hp hs, .used (by simp) hr' hc hidx (List.getElem?_set_self hlt) rfl ?_⟩
    rw [if_neg]
    simpa using hops
  | removed hrem => exact absurd hrem hr

/-- A channel without events goes when a second operation has negated its slot. -/
theorem Status.remove {u : Channels} (h : Status p t a ops) (hinv : Inv p u) (hr : .remove ∉ ops)
    (hlen : 2 ≤ ops.length)
    (hn : (t a).events = kNoneEvent) (hfd : (u a).fd = (t a).fd) (hi : (u a).index = (t a).index)
    (hev : (u a).events = (t a).events) :
    ∃ q t', p.removeChannel u a = .ok (q, t') ∧ Removes p u a q t' ∧ Status q t' a (ops ++ [.remove]) := by
  cases h with
  | unused hops => simp [hops] at hlen
  | @used i pfd hops _ hc hidx hp hpev hslot =>
    rw [if_neg (by omega), slot_fd_none hn, ← hfd] at hslot
    rw [← hfd] at hc
    rw [← hi] at hidx
    rw [← hev] at hn hpev
    obtain ⟨q, t', hq, hrem⟩ := Removable.removeChannel ⟨hc, hn, i, pfd, hidx, hp, hslot, hpev⟩ hinv
    have ht : t' a = u a := by
      by_contra hne
      exact (hinv.removes_index hrem hne).1 rfl
    refine ⟨q, t', hq, hrem, .removed (by simp) ?_ ?_ ?_⟩
    · rw [ht, hidx]
      exact Int.natCast_nonneg i
    · rw [ht, hrem.frame.1, ChannelMap.find_erase, if_pos rfl]
    · rw [ht, hn]
  | removed hrem => exact absurd hrem hr

/-- Otherwise an assertion fails. -/
theorem Status.not_updatable {u : Channels} (h : Status p t a ops) (hr : .remove ∈ ops) (hfd : (u a).fd = (t a).fd)
    (hi : (u a).index = (t a).index) : ¬ Updatable p u a := by
  cases h with
  | unused hops => simp [hops] at hr
  | used _ hnr => exact absurd hr hnr
  | removed _ hidx hc hn =>
    rw [← hi] at hidx
    rw [← hfd] at hc
    rintro (⟨hlt, -⟩ | ⟨hsome, -⟩)
    · omega
    · simp [hc] at hsome

theorem Status.not_removable {u : Channels} (h : Status p t a ops) (hr : .remove ∉ ops → ops.length < 2)
    (hfd : (u a).fd = (t a).fd) (hi : (u a).index = (t a).index) : ¬ Removable p u a := by
  rintro ⟨hc, hn, i, pfd, hidx, hp, hs, -⟩
  rw [hfd] at hc hs
  rw [hi] at hidx
  cases h with
  | unused _ _ hnone => simp [hnone] at hc
  | @used j x hops hnr _ hj hx hev hslot =>
    obtain rfl : i = j := by omega
    rw [hx] at hp
    cases hp
    have hpos := List.length_pos_iff.mpr hops
    have hlt := hr hnr
    rw [if_pos (by omega), hs] at hslot
    unfold ignore at hslot
    omega
  | removed _ _ hnone => simp [hnone] at hc

/-! ## Runs of the poll poller -/

variable {fds : Nat → Int} {w v : Watch PollPoller} {log : List (Nat × ChannelOp)} {op : ChannelOp}

structure Followed (fds : Nat → Int) (w : Watch PollPoller) (log : List (Nat × ChannelOp)) : Prop where
  inv : Inv w.poller w.channels
  fds : ∀ a, (w.channels a).fd = fds a
  status : ∀ a, Status w.poller w.channels a (opsOf log a)

theorem followed_start (hfds : ∀ a, 0 ≤ fds a) : Followed fds (.start {} fds) [] :=
  ⟨inv_start hfds, fun _ => rfl, fun _ => .unused rfl (by simp [Watch.start]) rfl rfl⟩

theorem Followed.watches_iff (h : Followed fds w log) (fd : Int) (ev : Events) :
    w.poller.Watches fd ev ↔ ev ≠ kNoneEvent ∧ ∃ a, fds a = fd ∧ w.masks a = ev := by
  unfold Watches
  refine and_congr_right fun hn => ?_
  constructor
  · rintro ⟨h0, pfd, hm, hfd, hev⟩
    have hcfd : pfd.channelFd = fd := channelFd_of h0 (.inl hfd)
    obtain ⟨i, hi⟩ := List.mem_iff_getElem?.mp hm
    have hkey : fd ∈ w.poller.channels.map (·.1) := h.inv.perm.mem_iff.mp (hcfd ▸ List.mem_map_of_mem hm)
    obtain ⟨⟨fd', a⟩, he, rfl⟩ := List.mem_map.mp hkey
    have hfind := (ChannelMap.find_eq_some h.inv.keys).mpr he
    have hafd : (w.channels a).fd = fd' := (h.inv.slots _ he).1
    refine ⟨a, by rw [← h.fds, hafd], ?_⟩
    cases h.status a with
    | unused _ _ hc => simp [hafd, hfind] at hc
    | used hops hr hc hj hp hev' hslot =>
      obtain rfl := h.inv.slot_unique hi hp (hcfd.trans (hafd ▸ channelFd_of (h.inv.fds a) (fd_of_slot hslot)).symm)
      rw [hi] at hp
      cases hp
      exact hev'.symm.trans hev
    | removed _ _ hc => simp [hafd, hfind] at hc
  · rintro ⟨a, rfl, rfl⟩
    cases h.status a with
    | unused _ _ _ hnone => exact absurd hnone hn
    | used hops hr hc hi hp hev hslot =>
      refine ⟨h.fds a ▸ h.inv.fds a, _, List.mem_of_getElem? hp, ?_, hev⟩
      rw [hslot, slot_fd_of_ne hn, ite_self, h.fds]
    | removed _ _ _ hnone => exact absurd hnone hn

/-- What is left to show when an operation was carried out on one channel. -/
theorem Followed.written {updated : Nat → Events} (h : Followed fds w log) (hinv : Inv q t')
    (hch : ∀ b, ∃ i, t' b = { (w.setChannel ((w.channels a).prepared op) a).channels b with index := i })
    (hkeeps : ∀ b, b ≠ a → Keeps w.poller (w.setChannel ((w.channels a).prepared op) a).channels b q t')
    (hstatus : Status q t' a (opsOf log a ++ [op])) :
    Followed fds ⟨q, t', updated⟩ (log ++ [(a, op)]) ∧
      Watch.masks ⟨q, t', updated⟩ = Function.update w.masks a (op.events (w.masks a)) := by
  have hset : ∀ b, ((w.setChannel ((w.channels a).prepared op) a).channels b).fd = fds b ∧
      ((w.setChannel ((w.channels a).prepared op) a).channels b).events =
        Function.update w.masks a (op.events (w.masks a)) b := by
    intro b
    by_cases hb : b = a
    · subst hb
      simp [Watch.setChannel, Channel.prepared, h.fds, Watch.masks]
    · simp [Watch.setChannel, hb, h.fds, Watch.masks]
  refine ⟨⟨hinv, fun b => ?_, fun b => ?_⟩, funext fun b => ?_⟩
  · obtain ⟨i, hi⟩ := hch b
    show (t' b).fd = fds b
    rw [hi]
    exact (hset b).1
  · by_cases hb : b = a
    · subst hb
      rw [opsOf_self]
      exact hstatus
    · have hsame : (w.setChannel ((w.channels a).prepared op) a).channels b = w.channels b :=
        Function.update_of_ne hb ..
      rw [opsOf_of_ne _ hb]
      refine Status.keeps ?_ (hkeeps b hb)
      refine (h.status b).keeps ⟨rfl, fun _ => hsame, fun _ i pfd hi hp => ⟨i, by rw [hsame, ← hi], hp⟩⟩
  · obtain ⟨i, hi⟩ := hch b
    show (t' b).events = _
    rw [hi]
    exact (hset b).2

section
variable (hinj : Function.Injective fds) (h : Followed fds w log)
include hinj h

theorem Followed.step (hr : .remove ∉ opsOf log a) (hlen : op = .remove → 2 ≤ (opsOf log a).length)
    (hn : op = .remove → w.masks a = kNoneEvent) :
    ∃ v, w.step (a, op) = .ok v ∧ Followed fds v (log ++ [(a, op)]) ∧
      v.masks = Function.update w.masks a (op.events (w.masks a)) := by
  have hset : Inv w.poller (w.setChannel ((w.channels a).prepared op) a).channels := h.inv.setChannel rfl rfl
  have hself : (w.setChannel ((w.channels a).prepared op) a).channels a = (w.channels a).prepared op :=
    Function.update_self ..
  have hother : ∀ b, b ≠ a → ((w.setChannel ((w.channels a).prepared op) a).channels b).fd ≠
      ((w.setChannel ((w.channels a).prepared op) a).channels a).fd := by
    intro b hb hfd
    apply hb
    apply hinj
    rw [hself] at hfd
    rw [← h.fds a, ← h.fds b]
    simpa [Watch.setChannel, Channel.prepared, hb] using hfd
  by_cases hop : op = .remove
  · subst hop
    obtain ⟨q, t', hq, hrem, hst⟩ := (h.status a).remove hset hr (hlen rfl) (hn rfl)
      (by rw [hself]; rfl) (by rw [hself]; rfl) (by rw [hself]; rfl)
    have hstep : w.step (a, .remove) = .ok ⟨q, t', w.updated⟩ := by
      have hnone : (w.channels a).events = kNoneEvent := hn rfl
      rw [Watch.step_remove, check_of (by simp [Channel.isNoneEvent, hnone]), ok_bind]
      exact Watch.call_removeChannel hq
    exact ⟨_, hstep, h.written (hset.removes hrem) hrem.channel
      (fun b hb => hset.removes_keeps hrem hb (hother b hb)) hst⟩
  · obtain ⟨q, t', hu, hst⟩ := (h.status a).update (u := (w.setChannel ((w.channels a).prepared op) a).channels) hr hop
      (by rw [hself]; rfl) (by rw [hself]; rfl)
    have hcall := Watch.call_updateChannel (w := w.setChannel ((w.channels a).prepared op) a) (updateChannel_iff.mpr hu)
    rw [← Watch.step_of_ne _ _ hop] at hcall
    exact ⟨_, hcall, h.written (hset.updates hu) hu.channel
      (fun b hb => hset.updates_keeps hu hb (hother b hb)) hst⟩

end

theorem Followed.careful (h : Followed fds w log) (hv : w.step (a, op) = .ok v) :
    .remove ∉ opsOf log a ∧ (op = .remove → 2 ≤ (opsOf log a).length) := by
  have hself : (w.setChannel ((w.channels a).prepared op) a).channels a = (w.channels a).prepared op :=
    Function.update_self ..
  by_contra hnot
  by_cases hop : op = .remove
  · subst hop
    have hx : ¬ Removable w.poller (w.setChannel ((w.channels a).prepared .remove) a).channels a := by
      refine (h.status a).not_removable (fun hr => ?_) (by rw [hself]; rfl) (by rw [hself]; rfl)
      by_contra hlen
      exact hnot ⟨hr, fun _ => by omega⟩
    rw [Watch.step_remove] at hv
    obtain ⟨-, -, hv⟩ := bind_ok.mp hv
    obtain ⟨x, hx', -⟩ := bind_ok.mp hv
    exact absurd ((removeChannel_error hx).symm.trans hx') (by simp)
  · have hr : .remove ∈ opsOf log a := by
      by_contra hr
      exact hnot ⟨hr, fun he => absurd he hop⟩
    have hx : ¬ Updatable w.poller (w.setChannel ((w.channels a).prepared op) a).channels a :=
      (h.status a).not_updatable hr (by rw [hself]; rfl) (by rw [hself]; rfl)
    rw [Watch.step_of_ne _ _ hop] at hv
    obtain ⟨x, hx', -⟩ := bind_ok.mp hv
    exact absurd ((updateChannel_error hx).symm.trans hx') (by simp)

end PollPoller

/-! ## Both together -/

namespace Pollers

variable {fds : Nat → Int} {w v : Pollers} {l : Nat × ChannelOp}

structure Agree (fds : Nat → Int) (w : Pollers) : Prop where
  epoll : EPollPoller.Followed fds w.epoll
  poll : PollPoller.Followed fds w.poll w.log
  masks : w.epoll.masks = w.poll.masks

theorem Agree.watches_iff (h : Agree fds w) (fd : Int) (ev : Events) :
    w.epoll.poller.Watches fd ev ↔ w.poll.poller.Watches fd ev := by
  rw [h.epoll.watches_iff, h.poll.watches_iff, h.masks]

/-- What the epoll poller accepts, the poll poller does when it is used with care. -/
theorem Agree.step (hinj : Function.Injective fds) (h : Agree fds w) (he : ∃ u, w.epoll.step l = .ok u)
    (hc : w.Careful l) : ∃ v, w.step l = .ok v ∧ Agree fds v := by
  obtain ⟨a, op⟩ := l
  obtain ⟨u, hu⟩ := he
  obtain ⟨hn, hum, huf⟩ := h.epoll.step hinj hu
  obtain ⟨x, hx, hxf, hxm⟩ := h.poll.step hinj hc.1 hc.2 fun hop => by rw [← h.masks]; exact hn hop
  refine ⟨{ epoll := u, poll := x, log := w.log ++ [(a, op)] }, ?_, huf, hxf, ?_⟩
  · simp [Pollers.step, hu, hx]
  · rw [hum, hxm, h.masks]

theorem step_ok (hv : w.step l = .ok v) : w.epoll.step l = .ok v.epoll ∧ w.poll.step l = .ok v.poll := by
  obtain ⟨u, hu, hv⟩ := bind_ok.mp hv
  obtain ⟨x, hx, hv⟩ := bind_ok.mp hv
  cases hv
  exact ⟨hu, hx⟩

theorem meets_of_epoll : ∀ {ls : List (Nat × ChannelOp)} {w : Pollers} {u : Watch EPollPoller},
    run Watch.step w.epoll ls = .ok u → Meets step (fun w l => ∃ u, w.epoll.step l = .ok u) w ls
  | [], _, _, _ => trivial
  | l :: ls, w, u, h => by
    obtain ⟨x, hx, h⟩ := (run_cons_ok Watch.step).mp h
    refine ⟨⟨x, hx⟩, fun v hv => meets_of_epoll (u := u) ?_⟩
    rw [(step_ok hv).1] at hx
    cases hx
    exact h

/-- Operations that the epoll poller accepts, on channels with descriptors of their own: the
poll poller accepts them as well, and the kernel is asked to watch the same, exactly as long as
no channel is used after its removal or removed before its second operation. -/
theorem pollers_agree_iff_careful (fds : Nat → Int) (hfds : ∀ a, 0 ≤ fds a) (hinj : Function.Injective fds)
    (ls : List (Nat × ChannelOp)) (u : Watch EPollPoller) (hu : run Watch.step (.start .empty fds) ls = .ok u) :
    (∀ ms, ms <+: ls → ∃ w, run step (.start fds) ms = .ok w ∧
      ∀ fd ev, w.epoll.poller.Watches fd ev ↔ w.poll.poller.Watches fd ev) ↔
    Meets step Careful (.start fds) ls := by
  have hstart : Agree fds (.start fds) := ⟨EPollPoller.followed_start fds, PollPoller.followed_start hfds, rfl⟩
  refine Meets.total_iff (fun w h => h.watches_iff) (fun w l h he hc => h.step hinj he hc)
    (fun w l v h he hc hv => ?_) (meets_of_epoll (w := .start fds) hu) hstart
  exact absurd (h.poll.careful (step_ok hv).2) hc

/-- Two channels, one of which is disabled and removed. -/
theorem pollers_agree_iff_careful_two :
    ∃ w, run step (.start fun a => a) [(3, .enableReading), (4, .enableWriting), (3, .disableAll), (3, .remove)] =
      .ok w ∧
      w.poll.poller.Watches 4 kWriteEvent ∧
      ∀ fd ev, w.epoll.poller.Watches fd ev ↔ w.poll.poller.Watches fd ev := by
  obtain ⟨u, hu, he⟩ := ok_of_map (show (run Watch.step (.start EPollPoller.empty fun a => a)
    [(3, .enableReading), (4, .enableWriting), (3, .disableAll), (3, .remove)]).map (fun w => w.poller.epoll 4) =
      .ok (some (kWriteEvent, 4)) by decide +kernel)
  obtain ⟨w, hw, h⟩ := (pollers_agree_iff_careful (fun a => a) (fun a => Int.natCast_nonneg a)
    (fun _ _ h => Int.ofNat_inj.mp h) _ u hu).mpr (by decide +kernel) _ (List.prefix_refl _)
  obtain ⟨w', hw', he'⟩ := ok_of_map (show (run step (.start fun a => a)
    [(3, .enableReading), (4, .enableWriting), (3, .disableAll), (3, .remove)]).map (fun w => w.epoll.poller.epoll 4) =
      .ok (some (kWriteEvent, 4)) by decide +kernel)
  obtain rfl : w = w' := by simpa using hw.symm.trans hw'
  exact ⟨w, hw, (h 4 kWriteEvent).mp ⟨by decide, 4, he'⟩, h⟩

/-- A channel that is disabled and removed without having been enabled, as by `~Acceptor` when
`listen` was not called; and one that is enabled again after its removal. -/
theorem poll_fails_after_epoll :
    (∃ u v : Watch EPollPoller, run Watch.step (.start EPollPoller.empty fun a => a)
      [(3, .disableAll), (3, .remove)] = .ok u ∧
      run Watch.step (.start EPollPoller.empty fun a => a)
        [(3, .enableReading), (3, .disableAll), (3, .remove), (3, .enableReading)] = .ok v) ∧
    run Watch.step (.start ({} : PollPoller) fun a => a) [(3, .disableAll), (3, .remove)] = .error .removeChannel ∧
    run Watch.step (.start ({} : PollPoller) fun a => a)
      [(3, .enableReading), (3, .disableAll), (3, .remove), (3, .enableReading)] = .error .updateChannel := by
  obtain ⟨u, hu, -⟩ := ok_of_map (show (run Watch.step (.start EPollPoller.empty fun a => a)
    [(3, .disableAll), (3, .remove)]).map (fun _ => ()) = .ok () by decide +kernel)
  obtain ⟨v, hv, -⟩ := ok_of_map (show (run Watch.step (.start EPollPoller.empty fun a => a)
    [(3, .enableReading), (3, .disableAll), (3, .remove), (3, .enableReading)]).map (fun _ => ()) = .ok () by
      decide +kernel)
  refine ⟨⟨u, v, hu, hv⟩, ?_, ?_⟩
  · exact error_of_map (f := fun _ => ()) (by decide +kernel)
  · exact error_of_map (f := fun _ => ()) (by decide +kernel)

end Pollers

end Zhengqi
