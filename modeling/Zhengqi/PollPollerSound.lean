import Zhengqi.PollPoller
import Mathlib.Data.List.Nodup
import Mathlib.Data.List.Perm.Basic

/-!
# The slots of the poll poller

Every channel in `channels_` has a slot of `pollfds_` of its own, to which its `index_`
leads (`Inv`). A removal in the middle moves the last slot, and the index of its channel
with it.
-/

namespace Zhengqi

open Run

/-! ## Maps and slots -/

namespace ChannelMap

variable {m : ChannelMap} {fd : Int} {a : Nat}

theorem find_eq_some (hnd : (m.map (·.1)).Nodup) : m.find fd = some a ↔ (fd, a) ∈ m := by
  unfold find
  constructor
  · intro h
    obtain ⟨e, he, rfl⟩ := Option.map_eq_some_iff.mp h
    have hfd : e.1 = fd := by simpa using List.find?_some he
    exact hfd ▸ List.mem_of_find?_eq_some he
  · intro h
    cases hf : m.find? (·.1 = fd) with
    | none => simpa using List.find?_eq_none.mp hf _ h
    | some e =>
      have hfd : e.1 = fd := by simpa using List.find?_some hf
      rw [List.inj_on_of_nodup_map hnd (List.mem_of_find?_eq_some hf) h hfd]
      rfl

theorem find_eq_none : m.find fd = none ↔ fd ∉ m.map (·.1) := by
  rw [find, Option.map_eq_none_iff, List.find?_eq_none, List.mem_map, not_exists]
  simp only [decide_eq_true_eq, not_and]

theorem erase_of_find (h : m.find fd = none) : m.erase fd = m := by
  rw [find_eq_none] at h
  refine List.filter_eq_self.mpr fun e he => ?_
  simp only [ne_eq, decide_eq_true_eq]
  exact fun hfd => h (hfd ▸ List.mem_map_of_mem he)

theorem map_erase (m : ChannelMap) (fd : Int) : (m.erase fd).map (·.1) = (m.map (·.1)).filter (· ≠ fd) := by
  rw [erase, List.filter_map]
  rfl

theorem mem_erase {e : Int × Nat} : e ∈ m.erase fd ↔ e ∈ m ∧ e.1 ≠ fd := by
  simp [erase]

theorem find_erase (m : ChannelMap) (fd fd' : Int) : (m.erase fd).find fd' = if fd' = fd then none else m.find fd' := by
  rw [find, erase, List.find?_filter]
  by_cases h : fd' = fd
  · subst h
    rw [if_pos rfl, Option.map_eq_none_iff, List.find?_eq_none]
    simp
  · rw [if_neg h, find]
    congr 2
    funext e
    by_cases he : e.1 = fd'
    · simp [he, h]
    · simp [he]

theorem find_set (m : ChannelMap) (fd fd' : Int) (a : Nat) :
    (m.set fd a).find fd' = if fd' = fd then some a else m.find fd' := by
  have he := find_erase m fd fd'
  unfold find at *
  rw [set, List.find?_append]
  by_cases h : fd' = fd
  · subst h
    rw [if_pos rfl, Option.map_eq_none_iff] at he
    simp [he]
  · rw [if_neg h] at he ⊢
    rw [← he]
    simp [Ne.symm h]

theorem length_filter (hnd : (m.map (·.1)).Nodup) (h : fd ∈ m.map (·.1)) : (m.filter (·.1 = fd)).length = 1 := by
  have hone := List.count_eq_one_of_mem hnd h
  rw [List.count, List.countP_map] at hone
  rw [← List.countP_eq_length_filter, ← hone]
  apply List.countP_congr
  simp

end ChannelMap

theorem channelFd_of {pfd : PollFd} {fd : Int} (hfd : 0 ≤ fd) (h : pfd.fd = fd ∨ pfd.fd = ignore fd) :
    pfd.channelFd = fd := by
  unfold PollFd.channelFd
  unfold ignore at *
  split <;> omega

theorem fd_of_channelFd {pfd : PollFd} {fd : Int} (h : pfd.channelFd = fd) : pfd.fd = fd ∨ pfd.fd = ignore fd := by
  unfold PollFd.channelFd at h
  unfold ignore at *
  split at h <;> omega

/-! ## One call -/

namespace PollPoller

variable {p q : PollPoller} {t t' : Channels} {a : Nat}

/-- The slot that an update of a known channel writes. -/
def slot (c : Channel) : PollFd := { fd := if c.isNoneEvent then ignore c.fd else c.fd, events := c.events }

inductive Updates (p : PollPoller) (t : Channels) (a : Nat) : PollPoller → Channels → Prop
  | first (hi : (t a).index < 0) (hc : p.channels.find (t a).fd = none) :
      Updates p t a
        { channels := p.channels.set (t a).fd a, pollfds := p.pollfds ++ [{ fd := (t a).fd, events := (t a).events }] }
        (Function.update t a { t a with index := p.pollfds.length })
  | again {i : Nat} {pfd : PollFd} (hi : (t a).index = i) (hc : p.channels.find (t a).fd = some a)
      (hp : p.pollfds[i]? = some pfd) (hs : pfd.fd = (t a).fd ∨ pfd.fd = ignore (t a).fd) :
      Updates p t a { p with pollfds := p.pollfds.set i (slot (t a)) } t

inductive Removes (p : PollPoller) (t : Channels) (a : Nat) : PollPoller → Channels → Prop
  | last {pfds : List PollFd} {pfd : PollFd} (hc : p.channels.find (t a).fd = some a) (hn : (t a).events = kNoneEvent)
      (hp : p.pollfds = pfds ++ [pfd]) (hi : (t a).index = pfds.length)
      (hs : pfd.fd = ignore (t a).fd ∧ pfd.events = (t a).events) :
      Removes p t a { channels := p.channels.erase (t a).fd, pollfds := pfds } t
  | middle {pfds : List PollFd} {pfd back : PollFd} {i b : Nat} (hc : p.channels.find (t a).fd = some a)
      (hn : (t a).events = kNoneEvent) (hp : p.pollfds = pfds ++ [back]) (hi : (t a).index = i)
      (hpi : pfds[i]? = some pfd) (hs : pfd.fd = ignore (t a).fd ∧ pfd.events = (t a).events)
      (hb : (p.channels.erase (t a).fd).find back.channelFd = some b) :
      Removes p t a { channels := p.channels.erase (t a).fd, pollfds := pfds.set i back }
        (Function.update t b { t b with index := i })

/-- `iter_swap` and `pop_back`. -/
theorem dropLast_swap {pfds : List PollFd} {i : Nat} (hlt : i < pfds.length) (back x y : PollFd) :
    (((pfds ++ [back]).set i x).set pfds.length y).dropLast = pfds.set i x := by
  have hset : ((pfds.set i x) ++ [back]).set pfds.length y = pfds.set i x ++ [y] := by
    rw [List.set_append_right _ _ (by simp)]
    simp
  rw [List.set_append_left _ _ hlt, hset, List.dropLast_concat]

theorem updateChannel_iff : p.updateChannel t a = .ok (q, t') ↔ Updates p t a q t' := by
  constructor
  · intro h
    unfold updateChannel at h
    rcases ite_ok h with ⟨hi, h⟩ | ⟨hi, h⟩
    · obtain ⟨⟨⟩, hc, h⟩ := bind_ok.mp h
      cases h
      have hu := Updates.first hi (check_ok.mp hc)
      simpa using hu
    · obtain ⟨-, -, h⟩ := bind_ok.mp h
      obtain ⟨⟨⟩, hc, h⟩ := bind_ok.mp h
      obtain ⟨i, hi⟩ := Int.eq_ofNat_of_zero_le (Int.not_lt.mp hi)
      dsimp only at h
      rw [hi, Int.toNat_natCast] at h
      cases hp : p.pollfds[i]? with
      | none => simp [hp] at h
      | some pfd =>
        simp only [hp] at h
        obtain ⟨⟨⟩, hs, h⟩ := bind_ok.mp h
        cases h
        exact .again hi (check_ok.mp hc) hp (check_ok.mp hs)
  · intro h
    cases h with
    | first hi hc => simp [updateChannel, hi, hc]
    | @again i pfd hi hc hp hs =>
      simp [updateChannel, hc, hi, hp, hs, slot]

theorem removeChannel_iff : p.removeChannel t a = .ok (q, t') ↔
    Removes p t a q t' ∧ (p.channels.filter (·.1 = (t a).fd)).length = 1 := by
  constructor
  · intro h
    unfold removeChannel at h
    obtain ⟨-, -, h⟩ := bind_ok.mp h
    obtain ⟨⟨⟩, hc, h⟩ := bind_ok.mp h
    obtain ⟨⟨⟩, hn, h⟩ := bind_ok.mp h
    obtain ⟨⟨⟩, hi, h⟩ := bind_ok.mp h
    obtain ⟨i, hi⟩ := Int.eq_ofNat_of_zero_le (check_ok.mp hi)
    have hc := check_ok.mp hc
    have hn : (t a).events = kNoneEvent := by simpa [Channel.isNoneEvent] using check_ok.mp hn
    dsimp only at h
    rw [hi, Int.toNat_natCast] at h
    cases hpi : p.pollfds[i]? with
    | none => simp [hpi] at h
    | some pfd =>
      cases hl : p.pollfds.getLast? with
      | none => simp [hpi, hl] at h
      | some back =>
        obtain ⟨pfds, hp⟩ := List.getLast?_eq_some_iff.mp hl
        simp only [hpi, hl] at h
        obtain ⟨⟨⟩, hs, h⟩ := bind_ok.mp h
        obtain ⟨⟨⟩, hone, h⟩ := bind_ok.mp h
        have hs := check_ok.mp hs
        refine ⟨?_, check_ok.mp hone⟩
        rw [hp] at hpi h
        rw [List.length_append, List.length_singleton, Nat.add_sub_cancel] at h
        rcases ite_ok h with ⟨hlast, h⟩ | ⟨hlast, h⟩
        · cases h
          subst hlast
          obtain rfl : back = pfd := by simpa using hpi
          rw [List.dropLast_concat]
          exact .last hc hn hp hi hs
        · have hlt : i < pfds.length := by
            have hle := (List.getElem?_eq_some_iff.mp hpi).1
            rw [List.length_append, List.length_singleton] at hle
            omega
          rw [List.getElem?_append_left hlt] at hpi
          cases hb : (p.channels.erase (t a).fd).find back.channelFd with
          | none => simp [hb] at h
          | some b =>
            simp only [hb] at h
            cases h
            rw [dropLast_swap hlt]
            exact .middle hc hn hp hi hpi hs hb
  · rintro ⟨h, hone⟩
    cases h with
    | @last pfds pfd hc hn hp hi hs =>
      simp [removeChannel, hc, hn, Channel.isNoneEvent, hi, hp, hs, hone]
    | @middle pfds pfd back i b hc hn hp hi hpi hs hb =>
      have hlt : i < pfds.length := (List.getElem?_eq_some_iff.mp hpi).1
      simp [removeChannel, hc, hn, Channel.isNoneEvent, hi, hp, hs, hone, hb, List.getElem?_append_left hlt, hpi,
        Nat.ne_of_lt hlt, dropLast_swap hlt]

/-! ## The invariant -/

/-- The descriptors of the slots. -/
def slotFds (p : PollPoller) : List Int := p.pollfds.map PollFd.channelFd

theorem slotFds_get {i : Nat} {fd : Int} :
    p.slotFds[i]? = some fd ↔ ∃ pfd, p.pollfds[i]? = some pfd ∧ pfd.channelFd = fd := by
  rw [slotFds, List.getElem?_map, Option.map_eq_some_iff]

structure Inv (p : PollPoller) (t : Channels) : Prop where
  fds : ∀ a, 0 ≤ (t a).fd
  keys : (p.channels.map (·.1)).Nodup
  perm : p.slotFds.Perm (p.channels.map (·.1))
  slots : ∀ e ∈ p.channels, (t e.2).fd = e.1 ∧ ∃ i : Nat, (t e.2).index = i ∧ p.slotFds[i]? = some e.1

theorem Inv.nodup (h : Inv p t) : p.slotFds.Nodup := h.perm.nodup_iff.mpr h.keys

theorem Inv.congr (h : Inv p t) (hfd : ∀ a, (t' a).fd = (t a).fd) (hi : ∀ a, (t' a).index = (t a).index) :
    Inv p t' where
  fds a := hfd a ▸ h.fds a
  keys := h.keys
  perm := h.perm
  slots e he := by
    rw [hfd, hi]
    exact h.slots e he

theorem slot_channelFd {c : Channel} (hfd : 0 ≤ c.fd) : (slot c).channelFd = c.fd := by
  refine channelFd_of hfd ?_
  unfold slot
  cases c.isNoneEvent <;> simp

/-- An update of a known channel writes a slot for the same descriptor. -/
theorem slotFds_set {pfd : PollFd} {i : Nat} (hfd : 0 ≤ (t a).fd) (hp : p.pollfds[i]? = some pfd)
    (hs : pfd.fd = (t a).fd ∨ pfd.fd = ignore (t a).fd) :
    ({ p with pollfds := p.pollfds.set i (slot (t a)) } : PollPoller).slotFds = p.slotFds := by
  have hget : p.slotFds[i]? = some (t a).fd := slotFds_get.mpr ⟨pfd, hp, channelFd_of hfd hs⟩
  obtain ⟨hlt, hget⟩ := List.getElem?_eq_some_iff.mp hget
  rw [slotFds, List.map_set, slot_channelFd hfd, ← hget]
  exact List.set_getElem_self hlt

theorem Inv.updates (h : Inv p t) (hu : Updates p t a q t') : Inv q t' := by
  have hfd := h.fds a
  cases hu with
  | first hi hc =>
    have hnew : ∀ e ∈ p.channels, e.2 ≠ a := by
      rintro e he rfl
      obtain ⟨-, i, hidx, -⟩ := h.slots e he
      omega
    have hlen : p.slotFds.length = p.pollfds.length := List.length_map ..
    have hslots : ∀ i : Nat, ∀ fd, p.slotFds[i]? = some fd → (p.slotFds ++ [(t a).fd])[i]? = some fd := by
      intro i fd hg
      rw [List.getElem?_append_left (List.getElem?_eq_some_iff.mp hg).1, hg]
    have hnone := ChannelMap.find_eq_none.mp hc
    have hq : (p.slotFds ++ [(t a).fd]) =
        ({ channels := p.channels.set (t a).fd a
           pollfds := p.pollfds ++ [{ fd := (t a).fd, events := (t a).events }] } : PollPoller).slotFds := by
      simp only [slotFds, List.map_append, List.map_singleton]
      rw [channelFd_of hfd (.inl rfl)]
    constructor
    case fds =>
      intro b
      by_cases hb : b = a
      · subst hb
        simpa using hfd
      · simpa [hb] using h.fds b
    case keys =>
      simp only [ChannelMap.set, ChannelMap.erase_of_find hc, List.map_append, List.map_singleton]
      exact List.nodup_append_comm.mp (List.nodup_cons.mpr ⟨hnone, h.keys⟩)
    case perm =>
      rw [← hq]
      simp only [ChannelMap.set, ChannelMap.erase_of_find hc, List.map_append, List.map_singleton]
      exact h.perm.append_right _
    case slots =>
      rw [← hq]
      simp only [ChannelMap.set, ChannelMap.erase_of_find hc, List.forall_mem_append, List.forall_mem_singleton]
      refine ⟨fun e he => ?_, ?_⟩
      · obtain ⟨hefd, i, hidx, hg⟩ := h.slots e he
        rw [Function.update_of_ne (hnew e he)]
        exact ⟨hefd, i, hidx, hslots i _ hg⟩
      · rw [Function.update_self]
        exact ⟨rfl, _, rfl, by simp [← hlen]⟩
  | again hi hc hp hs =>
    have hq := slotFds_set hfd hp hs
    exact ⟨h.fds, h.keys, hq ▸ h.perm, hq ▸ h.slots⟩

/-- The other descriptors keep their slots when one goes. -/
theorem perm_erase {m : ChannelMap} {fds : List Int} {fd : Int} (hnd : (m.map (·.1)).Nodup)
    (hp : (fd :: fds).Perm (m.map (·.1))) :
    fds.Perm ((m.erase fd).map (·.1)) := by
  have hfd := (List.nodup_cons.mp (hp.nodup_iff.mpr hnd)).1
  have hf := hp.filter (· ≠ fd)
  rw [← ChannelMap.map_erase, List.filter_cons_of_neg (by simp), List.filter_eq_self.mpr] at hf
  · exact hf
  · intro x hx
    simp only [ne_eq, decide_eq_true_eq]
    exact fun he => hfd (he ▸ hx)

theorem swap_perm {pfds : List PollFd} {i : Nat} {pfd : PollFd} (h : pfds[i]? = some pfd) (back : PollFd) :
    (pfds ++ [back]).Perm (pfd :: pfds.set i back) := by
  obtain ⟨hlt, hget⟩ := List.getElem?_eq_some_iff.mp h
  have hout : pfds.Perm (pfd :: pfds.eraseIdx i) := hget ▸ (List.getElem_cons_eraseIdx_perm hlt).symm
  have hin : (pfds.set i back).Perm (back :: pfds.eraseIdx i) := List.set_perm_cons_eraseIdx hlt back
  calc (pfds ++ [back]).Perm (back :: pfds) := List.perm_append_singleton _ _
    _ |>.Perm (back :: pfd :: pfds.eraseIdx i) := hout.cons back
    _ |>.Perm (pfd :: back :: pfds.eraseIdx i) := List.Perm.swap ..
    _ |>.Perm (pfd :: pfds.set i back) := hin.symm.cons pfd

theorem Removes.perm (hfd : 0 ≤ (t a).fd) (hr : Removes p t a q t') : p.slotFds.Perm ((t a).fd :: q.slotFds) := by
  cases hr with
  | @last pfds pfd hc hn hp hi hs =>
    have hp' := (hp ▸ List.perm_append_singleton pfd pfds : p.pollfds.Perm (pfd :: pfds)).map PollFd.channelFd
    rwa [List.map_cons, channelFd_of hfd (.inr hs.1)] at hp'
  | @middle pfds pfd back i b hc hn hp hi hpi hs hb =>
    have hp' := (hp ▸ swap_perm hpi back : p.pollfds.Perm (pfd :: pfds.set i back)).map PollFd.channelFd
    rwa [List.map_cons, channelFd_of hfd (.inr hs.1)] at hp'

/-- Two slots are not for the same descriptor. -/
theorem Inv.slot_unique (h : Inv p t) {i j : Nat} {x y : PollFd} (hi : p.pollfds[i]? = some x)
    (hj : p.pollfds[j]? = some y) (he : x.channelFd = y.channelFd) : i = j := by
  have hi' : p.slotFds[i]? = some x.channelFd := slotFds_get.mpr ⟨x, hi, rfl⟩
  have hj' : p.slotFds[j]? = some x.channelFd := slotFds_get.mpr ⟨y, hj, he.symm⟩
  obtain ⟨hlt, -⟩ := List.getElem?_eq_some_iff.mp hi'
  exact (List.getElem?_inj hlt h.nodup).mp (hi'.trans hj'.symm)

theorem Inv.slot_of_mem (h : Inv p t) {e : Int × Nat} (he : e ∈ p.channels) :
    ∃ (i : Nat) (pfd : PollFd), (t e.2).index = i ∧ p.pollfds[i]? = some pfd ∧ pfd.channelFd = e.1 := by
  obtain ⟨-, i, hi, hg⟩ := h.slots e he
  obtain ⟨pfd, hp, hfd⟩ := slotFds_get.mp hg
  exact ⟨i, pfd, hi, hp, hfd⟩

/-- Behind a removal every other channel reaches the slot it had. -/
theorem Inv.moved (h : Inv p t) (hr : Removes p t a q t') {e : Int × Nat} (he : e ∈ p.channels) (hne : e.1 ≠ (t a).fd) :
    ∃ i j : Nat, (t e.2).index = i ∧ t' e.2 = { t e.2 with index := (j : Int) } ∧ q.pollfds[j]? = p.pollfds[i]? := by
  have hfd := h.fds a
  obtain ⟨i, x, hi, hx, hxfd⟩ := h.slot_of_mem he
  cases hr with
  | @last pfds pfd hc hn hp hidx hs =>
    have hlt : i < pfds.length := by
      have hle := (List.getElem?_eq_some_iff.mp hx).1
      by_contra hge
      obtain rfl : i = pfds.length := by simp [hp] at hle; omega
      rw [hp, List.getElem?_concat_length] at hx
      cases hx
      exact hne (hxfd.symm.trans (channelFd_of hfd (.inr hs.1)))
    refine ⟨i, i, hi, by rw [← hi], ?_⟩
    rw [hp, List.getElem?_append_left hlt]
  | @middle pfds pfd back k b hc hn hp hidx hk hs hb =>
    have hkeys : ((p.channels.erase (t a).fd).map (·.1)).Nodup := ChannelMap.map_erase .. ▸ h.keys.filter _
    have hbm := (ChannelMap.mem_erase.mp ((ChannelMap.find_eq_some hkeys).mp hb)).1
    have hlast : p.pollfds[pfds.length]? = some back := by rw [hp, List.getElem?_concat_length]
    have hklt : k < pfds.length := (List.getElem?_eq_some_iff.mp hk).1
    by_cases heb : e.2 = b
    · -- the last slot is moved, and its channel is told
      have hkb : e.1 = back.channelFd := by
        rw [← (h.slots e he).1, heb]
        exact (h.slots _ hbm).1
      obtain rfl : i = pfds.length := h.slot_unique hx hlast (hxfd.trans hkb)
      refine ⟨_, k, hi, ?_, ?_⟩
      · rw [heb, Function.update_self]
      · rw [hlast, List.getElem?_set_self hklt]
    · have hil : i ≠ pfds.length := by
        rintro rfl
        rw [hlast] at hx
        cases hx
        have := List.inj_on_of_nodup_map h.keys he hbm hxfd.symm
        exact heb (congrArg Prod.snd this)
      have hik : i ≠ k := by
        rintro rfl
        rw [hp, List.getElem?_append_left hklt, hk] at hx
        cases hx
        exact hne (hxfd.symm.trans (channelFd_of hfd (.inr hs.1)))
      have hlt : i < pfds.length := by
        have hle := (List.getElem?_eq_some_iff.mp hx).1
        rw [hp, List.length_append, List.length_singleton] at hle
        omega
      refine ⟨i, i, hi, ?_, ?_⟩
      · rw [Function.update_of_ne heb, ← hi]
      · rw [hp, List.getElem?_append_left hlt, List.getElem?_set_ne (Ne.symm hik)]

theorem Removes.frame (hr : Removes p t a q t') :
    q.channels = p.channels.erase (t a).fd ∧ ∀ b, (t' b).fd = (t b).fd := by
  cases hr with
  | last hc hn hp hi hs => exact ⟨rfl, fun _ => rfl⟩
  | @middle pfds pfd back i b hc hn hp hi hpi hs hb =>
    refine ⟨rfl, fun x => ?_⟩
    by_cases hx : x = b
    · subst hx
      simp
    · simp [hx]

theorem Inv.removes (h : Inv p t) (hr : Removes p t a q t') : Inv q t' := by
  obtain ⟨hc, hfd⟩ := hr.frame
  constructor
  case fds => exact fun b => hfd b ▸ h.fds b
  case keys =>
    rw [hc, ChannelMap.map_erase]
    exact h.keys.filter _
  case perm =>
    rw [hc]
    exact perm_erase h.keys ((hr.perm (h.fds a)).symm.trans h.perm)
  case slots =>
    intro e he
    rw [hc, ChannelMap.mem_erase] at he
    obtain ⟨i, j, hi, ht, hq⟩ := h.moved hr he.1 he.2
    obtain ⟨hefd, i', hi', hg⟩ := h.slots e he.1
    obtain rfl : i = i' := by omega
    refine ⟨by rw [hfd, hefd], j, by rw [ht], ?_⟩
    obtain ⟨pfd, hp, hpfd⟩ := slotFds_get.mp hg
    exact slotFds_get.mpr ⟨pfd, hq.trans hp, hpfd⟩

/-! ## Assertions -/

/-- What `updateChannel` asserts. -/
def Updatable (p : PollPoller) (t : Channels) (a : Nat) : Prop :=
  (t a).index < 0 ∧ p.channels.find (t a).fd = none ∨
    p.channels.find (t a).fd = some a ∧ ∃ (i : Nat) (pfd : PollFd), (t a).index = i ∧ p.pollfds[i]? = some pfd ∧
      (pfd.fd = (t a).fd ∨ pfd.fd = ignore (t a).fd)

/-- What `removeChannel` asserts. -/
def Removable (p : PollPoller) (t : Channels) (a : Nat) : Prop :=
  p.channels.find (t a).fd = some a ∧ (t a).events = kNoneEvent ∧
    ∃ (i : Nat) (pfd : PollFd), (t a).index = i ∧ p.pollfds[i]? = some pfd ∧
      (pfd.fd = ignore (t a).fd ∧ pfd.events = (t a).events)

theorem Updatable.updateChannel (h : Updatable p t a) :
    ∃ q t', p.updateChannel t a = .ok (q, t') ∧ Updates p t a q t' := by
  rcases h with ⟨hi, hc⟩ | ⟨hc, i, pfd, hi, hp, hs⟩
  · exact ⟨_, _, updateChannel_iff.mpr (.first hi hc), .first hi hc⟩
  · exact ⟨_, _, updateChannel_iff.mpr (.again hi hc hp hs), .again hi hc hp hs⟩

theorem updateChannel_error (h : ¬ Updatable p t a) : p.updateChannel t a = .error .updateChannel := by
  unfold Updatable at h
  rw [not_or] at h
  unfold updateChannel
  by_cases hi : (t a).index < 0
  · rw [if_pos hi, check_not fun hc => h.1 ⟨hi, hc⟩]
    rfl
  · rw [if_neg hi]
    by_cases hc : p.channels.find (t a).fd = some a
    · obtain ⟨i, hidx⟩ := Int.eq_ofNat_of_zero_le (Int.not_lt.mp hi)
      cases hp : p.pollfds[i]? with
      | none => simp [hc, hidx, hp]
      | some pfd =>
        have hs : ¬ (pfd.fd = (t a).fd ∨ pfd.fd = ignore (t a).fd) := fun hs => h.2 ⟨hc, i, pfd, hidx, hp, hs⟩
        simp [hc, hidx, hp, hs]
    · by_cases hnone : p.channels.find (t a).fd = none <;> simp [hc, hnone]

/-- The channel of the last slot is found, and `erase` finds one entry. -/
theorem Removable.removeChannel (h : Removable p t a) (hinv : Inv p t) :
    ∃ q t', p.removeChannel t a = .ok (q, t') ∧ Removes p t a q t' := by
  obtain ⟨hc, hn, i, pfd, hi, hp, hs⟩ := h
  have hmem := (ChannelMap.find_eq_some hinv.keys).mp hc
  have hone := ChannelMap.length_filter hinv.keys (List.mem_map_of_mem hmem)
  have hex : ∃ q t', Removes p t a q t' := by
    obtain ⟨hlt, -⟩ := List.getElem?_eq_some_iff.mp hp
    obtain ⟨pfds, back, hpfds⟩ := (List.eq_nil_or_concat p.pollfds).resolve_left (by rintro he; simp [he] at hlt)
    rw [List.concat_eq_append] at hpfds
    rw [hpfds] at hp hlt
    by_cases hlast : i = pfds.length
    · subst hlast
      rw [List.getElem?_concat_length] at hp
      cases hp
      exact ⟨_, _, .last hc hn hpfds hi hs⟩
    · rw [List.length_append, List.length_singleton] at hlt
      rw [List.getElem?_append_left (by omega)] at hp
      have hback : p.pollfds[pfds.length]? = some back := by rw [hpfds, List.getElem?_concat_length]
      have hfd : pfd.channelFd = (t a).fd := channelFd_of (hinv.fds a) (.inr hs.1)
      have hpi : p.pollfds[i]? = some pfd := by rw [hpfds, List.getElem?_append_left (by omega), hp]
      have hkey : back.channelFd ∈ (p.channels.erase (t a).fd).map (·.1) := by
        rw [ChannelMap.map_erase, List.mem_filter, ← hinv.perm.mem_iff]
        refine ⟨List.mem_of_getElem? (slotFds_get.mpr ⟨back, hback, rfl⟩), ?_⟩
        simp only [ne_eq, decide_eq_true_eq]
        exact fun he => hlast (hinv.slot_unique hpi hback (hfd.trans he.symm))
      cases hb : (p.channels.erase (t a).fd).find back.channelFd with
      | none => exact absurd hkey (ChannelMap.find_eq_none.mp hb)
      | some b => exact ⟨_, _, .middle hc hn hpfds hi hp hs hb⟩
  obtain ⟨q, t', hr⟩ := hex
  exact ⟨q, t', removeChannel_iff.mpr ⟨hr, hone⟩, hr⟩

theorem removeChannel_error (h : ¬ Removable p t a) : p.removeChannel t a = .error .removeChannel := by
  unfold Removable at h
  unfold removeChannel
  by_cases hc : p.channels.find (t a).fd = some a
  · by_cases hn : (t a).events = kNoneEvent
    · by_cases hi : 0 ≤ (t a).index
      · obtain ⟨i, hidx⟩ := Int.eq_ofNat_of_zero_le hi
        cases hp : p.pollfds[i]? with
        | none => simp [hc, hn, Channel.isNoneEvent, hidx, hp]
        | some pfd =>
          have hs : ¬ (pfd.fd = ignore (t a).fd ∧ pfd.events = (t a).events) :=
            fun hs => h ⟨hc, hn, i, pfd, hidx, hp, hs⟩
          rw [hn] at hs
          cases p.pollfds.getLast? with
          | none => simp [hc, hn, Channel.isNoneEvent, hidx, hp]
          | some back => simp [hc, hn, Channel.isNoneEvent, hidx, hp, hs]
      · simp [hc, hn, Channel.isNoneEvent, hi]
    · simp [hc, hn, Channel.isNoneEvent]
  · by_cases hnone : p.channels.find (t a).fd = none <;> simp [hc, hnone]

/-! ## What the kernel reports -/

def reported (pfds : List PollFd) : List PollFd := pfds.filter (·.revents ≠ kNoneEvent)

/-- The reported slots lead to their channels, each once. -/
theorem Inv.fill (h : Inv p t) : ∀ (active : List Nat) {pfds : List PollFd} {u : Channels},
    (∀ b, (u b).fd = (t b).fd) → (pfds.map PollFd.channelFd).Nodup → (∀ pfd ∈ pfds, pfd.channelFd ∈ p.slotFds) →
    (∀ pfd ∈ pfds, pfd.fd < 0 → pfd.revents = kNoneEvent) →
    ∃ as u', p.fill pfds (reported pfds).length (active, u) = .ok (active ++ as, u') ∧ as.Nodup ∧
      (∀ b ∈ as, (t b).fd ∈ pfds.map PollFd.channelFd) ∧ (∀ b, b ∉ as → u' b = u b) ∧
      List.Forall₂ (fun pfd b => p.channels.find pfd.fd = some b ∧ (u' b).revents = pfd.revents) (reported pfds) as
  | active, [], u, _, _, _, _ => ⟨[], u, by simp [PollPoller.fill], by simp, by simp, by simp, .nil⟩
  | active, pfd :: pfds, u, hfd, hnd, hmem, hneg => by
    rw [List.map_cons, List.nodup_cons] at hnd
    obtain ⟨hm, hmem⟩ := List.forall_mem_cons.mp hmem
    obtain ⟨hn, hneg⟩ := List.forall_mem_cons.mp hneg
    by_cases hr : pfd.revents = kNoneEvent
    · obtain ⟨as, u', hfill, has, hin, hkeep, hall⟩ := Inv.fill h active hfd hnd.2 hmem hneg
      have hrep : reported (pfd :: pfds) = reported pfds := List.filter_cons_of_neg (by simp [hr])
      rw [hrep]
      refine ⟨as, u', ?_, has, fun b hb => List.mem_cons_of_mem _ (hin b hb), hkeep, hall⟩
      cases hlen : (reported pfds).length with
      | zero =>
        rw [hlen] at hfill
        cases pfds <;> simpa [PollPoller.fill] using hfill
      | succ n =>
        rw [hlen] at hfill
        rw [PollPoller.fill, if_neg (by simp [hr]), hfill]
    · have hge : ¬ pfd.fd < 0 := fun hlt => hr (hn hlt)
      have hcfd : pfd.channelFd = pfd.fd := if_neg hge
      have hrep : reported (pfd :: pfds) = pfd :: reported pfds := List.filter_cons_of_pos (by simp [hr])
      rw [hcfd, h.perm.mem_iff] at hm
      obtain ⟨⟨fd, b⟩, he, hefd⟩ := List.mem_map.mp hm
      obtain rfl : fd = pfd.fd := hefd
      have hfind := (ChannelMap.find_eq_some h.keys).mpr he
      have htb : (t b).fd = pfd.fd := (h.slots _ he).1
      have hfd' : ∀ x, (Function.update u b { u b with revents := pfd.revents } x).fd = (t x).fd := by
        intro x
        by_cases hx : x = b
        · subst hx
          rw [Function.update_self]
          exact hfd x
        · rw [Function.update_of_ne hx, hfd]
      obtain ⟨as, u', hfill, has, hin, hkeep, hall⟩ := Inv.fill h (active ++ [b]) hfd' hnd.2 hmem hneg
      -- a later slot is for another descriptor, hence for another channel
      have hb : b ∉ as := by
        intro hb
        have hb := hin b hb
        rw [htb, ← hcfd] at hb
        exact hnd.1 hb
      have hu' : (u' b).revents = pfd.revents := by rw [hkeep b hb, Function.update_self]
      refine ⟨b :: as, u', ?_, List.nodup_cons.mpr ⟨hb, has⟩, ?_, fun x hx => ?_, ?_⟩
      · rw [hrep, List.length_cons, PollPoller.fill, if_pos hr, hfind]
        simp only [check_of ((hfd b).trans htb), ok_bind, hfill, List.append_assoc, List.singleton_append]
      · refine List.forall_mem_cons.mpr ⟨?_, fun x hx => List.mem_cons_of_mem _ (hin x hx)⟩
        rw [htb, ← hcfd]
        exact List.mem_cons_self ..
      · rw [List.mem_cons, not_or] at hx
        rw [hkeep x hx.2, Function.update_of_ne hx.1]
      · rw [hrep]
        exact .cons ⟨hfind, hu'⟩ hall

/-- `poll` writes the `revents` of the slots, and none for a slot with a negative descriptor. -/
def Polled (pfds rs : List PollFd) : Prop :=
  rs.map (·.fd) = pfds.map (·.fd) ∧ ∀ pfd ∈ rs, pfd.fd < 0 → pfd.revents = kNoneEvent

theorem Inv.fillActiveChannels (h : Inv p t) {rs : List PollFd} (hrs : Polled p.pollfds rs) (active : List Nat) :
    ∃ as t', ({ p with pollfds := rs } : PollPoller).fillActiveChannels t (reported rs).length active =
      .ok (active ++ as, t') ∧
      as.Nodup ∧ (∀ b, b ∉ as → t' b = t b) ∧
      List.Forall₂ (fun pfd b => p.channels.find pfd.fd = some b ∧ (t' b).revents = pfd.revents) (reported rs) as := by
  have hfds : ({ p with pollfds := rs } : PollPoller).slotFds = p.slotFds := by
    have hmap : ∀ l : List PollFd, l.map PollFd.channelFd =
        (l.map (·.fd)).map fun fd => if fd < 0 then ignore fd else fd := by
      intro l
      rw [List.map_map]
      rfl
    rw [slotFds, slotFds, hmap, hmap, hrs.1]
  have hinv : Inv { p with pollfds := rs } t := ⟨h.fds, h.keys, hfds ▸ h.perm, hfds ▸ h.slots⟩
  obtain ⟨as, t', hfill, has, -, hkeep, hall⟩ :=
    hinv.fill active (fun _ => rfl) hinv.nodup (fun pfd hm => List.mem_map_of_mem hm) hrs.2
  exact ⟨as, t', hfill, has, hkeep, hall⟩

/-! ## Runs -/

variable {w v : Watch PollPoller}

/-- The fields of a channel that the poller does not read may change. -/
theorem Inv.setChannel {c : Channel} (h : Inv w.poller w.channels) (hfd : c.fd = (w.channels a).fd)
    (hi : c.index = (w.channels a).index) : Inv (w.setChannel c a).poller (w.setChannel c a).channels := by
  refine h.congr (fun b => ?_) fun b => ?_
  all_goals
    by_cases hb : b = a
    · subst hb
      simp [Watch.setChannel, hfd, hi]
    · simp [Watch.setChannel, hb]

theorem Inv.call (h : Inv w.poller w.channels) (l : PollerCall) :
    (∃ f, w.call l = .error f ∧ (f = .updateChannel ∨ f = .removeChannel)) ∨
      ∃ v, w.call l = .ok v ∧ Inv v.poller v.channels := by
  cases l with
  | setEvents a ev => exact .inr ⟨_, rfl, h.setChannel rfl rfl⟩
  | updateChannel a =>
    by_cases hu : Updatable w.poller w.channels a
    · obtain ⟨q, t', hq, hu⟩ := hu.updateChannel
      exact .inr ⟨_, Watch.call_updateChannel hq, h.updates hu⟩
    · refine .inl ⟨_, ?_, .inl rfl⟩
      simp only [Watch.call, ChannelPoller.updateChannel, updateChannel_error hu, error_bind]
  | removeChannel a =>
    by_cases hr : Removable w.poller w.channels a
    · obtain ⟨q, t', hq, hr⟩ := hr.removeChannel h
      exact .inr ⟨_, Watch.call_removeChannel hq, h.removes hr⟩
    · refine .inl ⟨_, ?_, .inr rfl⟩
      simp only [Watch.call, ChannelPoller.removeChannel, removeChannel_error hr, error_bind]

theorem Inv.slot_of_find (h : Inv p t) {fd : Int} (hf : p.channels.find fd = some a) : (t a).fd = fd ∧
    ∃ (i : Nat) (pfd : PollFd), (t a).index = i ∧ p.pollfds[i]? = some pfd ∧ (pfd.fd = fd ∨ pfd.fd = -fd - 1) := by
  have hm := (ChannelMap.find_eq_some h.keys).mp hf
  obtain ⟨i, pfd, hi, hp, hfd⟩ := h.slot_of_mem hm
  exact ⟨(h.slots _ hm).1, i, pfd, hi, hp, fd_of_channelFd hfd⟩

theorem Inv.eq_of_index (h : Inv p t) {fd fd' : Int} {b : Nat} (ha : p.channels.find fd = some a)
    (hb : p.channels.find fd' = some b) (he : (t a).index = (t b).index) : a = b := by
  obtain ⟨i, x, hi, hx, hxfd⟩ := h.slot_of_mem ((ChannelMap.find_eq_some h.keys).mp ha)
  obtain ⟨j, y, hj, hy, hyfd⟩ := h.slot_of_mem ((ChannelMap.find_eq_some h.keys).mp hb)
  obtain rfl : i = j := by
    dsimp only at hi hj
    omega
  rw [hx] at hy
  cases hy
  obtain rfl : fd = fd' := hxfd.symm.trans hyfd
  exact Option.some.inj (ha.symm.trans hb)

theorem Inv.kept (h : Inv p t) (hr : Removes p t a q t') {fd : Int} {b : Nat} (hf : p.channels.find fd = some b)
    (hne : b ≠ a) : q.channels.find fd = some b ∧
      ∃ i j : Nat, (t b).index = i ∧ t' b = { t b with index := (j : Int) } ∧ q.pollfds[j]? = p.pollfds[i]? := by
  have hm := (ChannelMap.find_eq_some h.keys).mp hf
  have hc : p.channels.find (t a).fd = some a := by cases hr <;> assumption
  have hfd : fd ≠ (t a).fd := by
    rintro rfl
    exact hne (Option.some.inj (hf.symm.trans hc))
  refine ⟨?_, h.moved hr hm hfd⟩
  rw [ChannelMap.find_eq_some (h.removes hr).keys, hr.frame.1]
  exact ChannelMap.mem_erase.mpr ⟨hm, hfd⟩

theorem inv_start {fds : Nat → Int} (hfds : ∀ a, 0 ≤ fds a) :
    Inv (Watch.start ({} : PollPoller) fds).poller (Watch.start ({} : PollPoller) fds).channels :=
  ⟨hfds, by simp [Watch.start], by simp [Watch.start, slotFds], by simp [Watch.start]⟩

/-- Whatever calls are made of the poller, only its assertions can fail; and as long as they
hold, `channels_` and `pollfds_` have the same size, every channel has a slot of its own, a
removal leaves the other channels their slots, and what the kernel reports goes to the
channels of the reported slots, each once and in their order. -/
theorem slots_represent_channels (fds : Nat → Int) (hfds : ∀ a, 0 ≤ fds a) (ls : List PollerCall) :
    (∀ f, run Watch.call (.start ({} : PollPoller) fds) ls = .error f → f = .updateChannel ∨ f = .removeChannel) ∧
    ∀ w, run Watch.call (.start ({} : PollPoller) fds) ls = .ok w →
      w.poller.channels.length = w.poller.pollfds.length ∧
      (∀ fd a, w.poller.channels.find fd = some a → (w.channels a).fd = fd ∧
        ∃ (i : Nat) (pfd : PollFd), (w.channels a).index = i ∧ w.poller.pollfds[i]? = some pfd ∧
          (pfd.fd = fd ∨ pfd.fd = -fd - 1)) ∧
      (∀ fd fd' a b, w.poller.channels.find fd = some a → w.poller.channels.find fd' = some b →
        (w.channels a).index = (w.channels b).index → a = b) ∧
      (∀ a v, w.call (.removeChannel a) = .ok v → ∀ fd b, w.poller.channels.find fd = some b → b ≠ a →
        v.poller.channels.find fd = some b ∧
        ∃ i j : Nat, (w.channels b).index = i ∧ v.channels b = { w.channels b with index := (j : Int) } ∧
          v.poller.pollfds[j]? = w.poller.pollfds[i]?) ∧
      ∀ rs active, Polled w.poller.pollfds rs →
        ∃ as channels, ({ w.poller with pollfds := rs } : PollPoller).fillActiveChannels w.channels
        (reported rs).length active =
            .ok (active ++ as, channels) ∧ as.Nodup ∧ (∀ b, b ∉ as → channels b = w.channels b) ∧
          List.Forall₂ (fun pfd b => w.poller.channels.find pfd.fd = some b ∧ (channels b).revents = pfd.revents)
            (reported rs) as := by
  rcases run_stops_or_inv (I := fun w : Watch PollPoller => Inv w.poller w.channels) (fun w l h => h.call l)
      (inv_start hfds) with
    ⟨f, hr, hf⟩ | ⟨w, hr, h⟩
  · rw [hr]
    refine ⟨?_, by simp⟩
    rintro g ⟨⟩
    exact hf
  · rw [hr]
    refine ⟨by simp, ?_⟩
    rintro w' ⟨⟩
    refine ⟨?_, fun fd a => h.slot_of_find, fun fd fd' a b => h.eq_of_index, fun a v hv fd b hf hne => ?_,
      fun rs active hrs => h.fillActiveChannels hrs active⟩
    · have hlen := h.perm.length_eq
      rw [slotFds, List.length_map, List.length_map] at hlen
      exact hlen.symm
    · obtain ⟨⟨q, t'⟩, hq, hv⟩ := bind_ok.mp hv
      cases hv
      exact h.kept (removeChannel_iff.mp hq).1 hf hne

/-- Three channels, of which the first is removed; the kernel reports the last, which was moved. -/
theorem slots_represent_channels_three :
    ∃ w : Watch PollPoller, run Watch.call (.start ({} : PollPoller) fun a => a)
        [.setEvents 3 kReadEvent, .updateChannel 3, .updateChannel 4, .setEvents 5 kReadEvent, .updateChannel 5,
          .setEvents 3 kNoneEvent, .updateChannel 3, .removeChannel 3] = .ok w ∧
      w.poller.channels.length = w.poller.pollfds.length ∧ (w.channels 5).index = 0 ∧
      ∃ as channels, ({ w.poller with pollfds := [⟨5, kReadEvent, kReadEvent⟩, ⟨4, kNoneEvent, kNoneEvent⟩] } :
        PollPoller).fillActiveChannels w.channels 1 [] = .ok (as, channels) ∧ as.Nodup := by
  obtain ⟨w, hw, he⟩ := ok_of_map (show (run Watch.call (.start ({} : PollPoller) fun a => a)
    [.setEvents 3 kReadEvent, .updateChannel 3, .updateChannel 4, .setEvents 5 kReadEvent, .updateChannel 5,
      .setEvents 3 kNoneEvent, .updateChannel 3, .removeChannel 3]).map (fun w =>
        ((w.channels 5).index, w.poller.pollfds.map (·.fd))) = .ok (0, [5, 4]) by decide +kernel)
  rw [Prod.mk.injEq] at he
  obtain ⟨hlen, -, -, -, hfill⟩ := (slots_represent_channels (fun a => a) (fun a => Int.natCast_nonneg a) _).2 w hw
  obtain ⟨as, channels, hc, hnd, -⟩ := hfill [⟨5, kReadEvent, kReadEvent⟩, ⟨4, kNoneEvent, kNoneEvent⟩] []
    ⟨by rw [he.2]; rfl, by decide⟩
  exact ⟨w, hw, hlen, he.1, as, channels, hc, hnd⟩

end PollPoller

end Zhengqi
