import Zhengqi.Resolver

/-!
# One timer for all queries

Whatever c-ares does inside of its calls, and however these are nested: one timer is there to call `onTimer` as
long as `timerActive_` is set, and that is while a query is not answered, if `ares_timeout` has an answer for it.
What can stop the resolver are assertions on a channel that the loop is about to call, or is calling, when c-ares
closes its socket.
-/

namespace Zhengqi

open Run

namespace Resolver

variable {r r' : Resolver} {l : Label}

structure Sound (r : Resolver) : Prop where
  sockets : r.channels = r.sockets
  nodup : r.channels.Nodup
  active : r.eventHandling = true → ∀ fd ∈ r.activeChannels, fd ∈ r.channels
  rest : ∀ fd ∈ r.rest, r.eventHandling = true ∧ fd ∈ r.activeChannels
  reading : ∀ fd, .onRead fd ∈ r.calls → r.eventHandling = true ∧ fd ∈ r.activeChannels
  timers : r.timers + r.calls.count .onTimer = r.timerActive.toNat

/-- A query that is not answered has a timer, or `resolve` is about to start it. -/
def Waiting (r : Resolver) : Prop := r.queries ≠ [] → r.timerActive = true ∨ .resolve ∈ r.calls

/-- `ares_timeout` has an answer while a query is open. -/
def Timed (r : Resolver) (l : Label) : Prop := l = .returns false → r.queries = []

/-- c-ares does not close a socket that the loop has reported in this iteration. -/
def Settled (r : Resolver) (l : Label) : Prop :=
  ∀ sockfd, l = .sockState sockfd false → r.eventHandling = true → sockfd ∉ r.activeChannels

/-- An assertion on a channel that is closed. -/
def Closing (e : ResolverFault) : Prop := e = .removeChannel ∨ e = .channelDtor

/-! ## Sockets -/

theorem Sound.onSockCreate (h : r.Sound) {sockfd : Nat} (hs : sockfd ∉ r.sockets) :
    ∃ r', Resolver.onSockCreate { r with sockets := sockfd :: r.sockets } sockfd = .ok r' ∧ r'.Sound := by
  have hc : sockfd ∉ r.channels := by
    rw [h.sockets]
    exact hs
  refine ⟨_, if_neg hc, ?_, List.nodup_cons.mpr ⟨hc, h.nodup⟩, fun he fd hm => ?_, h.rest, h.reading, h.timers⟩
  · show sockfd :: r.channels = sockfd :: r.sockets
    rw [h.sockets]
  · exact List.mem_cons_of_mem _ (h.active he fd hm)

theorem Sound.onSockStateChange (h : r.Sound) {sockfd : Nat} {read : Bool} (hs : sockfd ∈ r.sockets) :
    ((∃ e, Resolver.onSockStateChange { r with sockets := if read then r.sockets else r.sockets.erase sockfd }
        sockfd read = .error e ∧ Closing e) ∧ ¬ Settled r (.sockState sockfd read)) ∨
      ∃ r', Resolver.onSockStateChange { r with sockets := if read then r.sockets else r.sockets.erase sockfd }
        sockfd read = .ok r' ∧ r'.Sound := by
  have hc : ¬ sockfd ∉ r.channels := by
    rw [h.sockets]
    exact not_not_intro hs
  unfold Resolver.onSockStateChange
  rw [if_neg hc]
  cases read with
  | true => exact .inr ⟨_, if_pos rfl, h.sockets, h.nodup, h.active, h.rest, h.reading, h.timers⟩
  | false =>
    rw [if_neg Bool.false_ne_true]
    by_cases hr : r.eventHandling = true ∧ .onRead sockfd ∉ r.calls ∧ sockfd ∈ r.activeChannels
    · exact .inl ⟨⟨_, if_pos hr, .inl rfl⟩, fun hn => hn sockfd rfl hr.1 hr.2.2⟩
    · rw [if_neg hr]
      by_cases hin : .onRead sockfd ∈ r.calls
      · obtain ⟨he, ha⟩ := h.reading sockfd hin
        exact .inl ⟨⟨_, if_pos hin, .inr rfl⟩, fun hn => hn sockfd rfl he ha⟩
      · refine .inr ⟨_, if_neg hin, ?_, h.nodup.erase sockfd, fun he fd hm => ?_, h.rest, h.reading, h.timers⟩
        · show r.channels.erase sockfd = r.sockets.erase sockfd
          rw [h.sockets]
        · have hne : fd ≠ sockfd := by
            rintro rfl
            exact hr ⟨he, hin, hm⟩
          exact (List.mem_erase_of_ne hne).mpr (h.active he fd hm)

/-! ## Calls that return -/

theorem Sound.timerActive (h : r.Sound) (hpos : 0 < r.timers + r.calls.count .onTimer) : r.timerActive = true := by
  have htimers := h.timers
  cases hf : r.timerActive with
  | true => rfl
  | false =>
    rw [hf, Bool.toNat_false] at htimers
    omega

section
variable {calls : List AresCall}

theorem Sound.resolve (h : r.Sound) (hcalls : r.calls = .resolve :: calls) :
    (Resolver.resolve { r with calls }).Sound ∧ (Resolver.resolve { r with calls }).timerActive = true := by
  have htimers := h.timers
  rw [hcalls, List.count_cons_of_ne (by decide)] at htimers
  have hreading : ∀ fd, .onRead fd ∈ calls → r.eventHandling = true ∧ fd ∈ r.activeChannels :=
    fun fd hm => h.reading fd (by rw [hcalls]; exact List.mem_cons_of_mem _ hm)
  unfold Resolver.resolve
  split
  · rename_i ha
    exact ⟨⟨h.sockets, h.nodup, h.active, h.rest, hreading, htimers⟩, ha⟩
  · rename_i ha
    have hf : r.timerActive = false := Bool.eq_false_iff.mpr ha
    refine ⟨⟨h.sockets, h.nodup, h.active, h.rest, hreading, ?_⟩, rfl⟩
    show r.timers + 1 + calls.count .onTimer = 1
    rw [hf, Bool.toNat_false] at htimers
    omega

theorem Sound.onTimer (h : r.Sound) (hcalls : r.calls = .onTimer :: calls) (timeout : Bool) :
    (Resolver.onTimer { r with calls } timeout).Sound ∧
      (Resolver.onTimer { r with calls } timeout).timerActive = timeout := by
  have hcount : r.calls.count .onTimer = calls.count .onTimer + 1 := by
    rw [hcalls, List.count_cons_self]
  have ha := h.timerActive (by omega)
  have htimers := h.timers
  rw [ha, Bool.toNat_true] at htimers
  have hreading : ∀ fd, .onRead fd ∈ calls → r.eventHandling = true ∧ fd ∈ r.activeChannels :=
    fun fd hm => h.reading fd (by rw [hcalls]; exact List.mem_cons_of_mem _ hm)
  cases timeout with
  | true =>
    refine ⟨⟨h.sockets, h.nodup, h.active, h.rest, hreading, ?_⟩, ha⟩
    show r.timers + 1 + calls.count .onTimer = r.timerActive.toNat
    rw [ha, Bool.toNat_true]
    omega
  | false =>
    refine ⟨⟨h.sockets, h.nodup, h.active, h.rest, hreading, ?_⟩, rfl⟩
    show r.timers + calls.count .onTimer = 0
    omega

/-- The channel is still there when its handler returns. -/
theorem Sound.onRead (h : r.Sound) {sockfd : Nat} (hcalls : r.calls = .onRead sockfd :: calls) :
    sockfd ∈ r.channels ∧ Sound { r with calls } := by
  obtain ⟨he, hm⟩ := h.reading sockfd (by rw [hcalls]; exact List.mem_cons_self ..)
  have htimers := h.timers
  rw [hcalls, List.count_cons_of_ne (fun he => by cases he)] at htimers
  refine ⟨h.active he sockfd hm, h.sockets, h.nodup, h.active, h.rest, fun fd hfd => ?_, htimers⟩
  exact h.reading fd (by rw [hcalls]; exact List.mem_cons_of_mem _ hfd)

end

theorem Sound.returns (h : r.Sound) (timeout : Bool) : ∃ r', r.step (.returns timeout) = .ok r' ∧ r'.Sound ∧
    (r.Waiting → (timeout = false → r.queries = []) → r'.Waiting) := by
  rw [Resolver.step]
  split
  · exact ⟨r, rfl, h, fun hw _ => hw⟩
  · rename_i calls hcalls
    obtain ⟨hs, ha⟩ := h.resolve hcalls
    exact ⟨_, rfl, hs, fun _ _ _ => .inl ha⟩
  · rename_i calls hcalls
    obtain ⟨hs, ha⟩ := h.onTimer hcalls timeout
    refine ⟨_, rfl, hs, fun _ ht hq => ?_⟩
    cases timeout with
    | true => exact .inl ha
    | false => exact absurd (ht rfl) hq
  · rename_i sockfd calls hcalls
    obtain ⟨hm, hs⟩ := h.onRead hcalls
    refine ⟨_, if_pos hm, hs, fun hw _ hq => (hw hq).imp id fun hr => ?_⟩
    rw [hcalls] at hr
    rcases List.mem_cons.mp hr with hr | hr
    · cases hr
    · exact hr

/-! ## The loop -/

theorem Sound.poll (h : r.Sound) (active : List Nat) : ∃ r', r.step (.poll active) = .ok r' ∧ r'.Sound := by
  refine ⟨_, rfl, ?_⟩
  split
  · rename_i hg
    obtain ⟨hc, -, ha⟩ := hg
    refine ⟨h.sockets, h.nodup, fun _ => ha, fun fd hm => ⟨rfl, hm⟩, fun fd hm => ?_, h.timers⟩
    have hm : .onRead fd ∈ r.calls := hm
    rw [hc] at hm
    cases hm
  · exact h

/-- The channel is still there when its turn comes. -/
theorem Sound.handleEvent (h : r.Sound) : ∃ r', r.step .handleEvent = .ok r' ∧ r'.Sound ∧ (r.Waiting → r'.Waiting) := by
  rw [Resolver.step]
  split
  · exact ⟨r, rfl, h, id⟩
  · rename_i sockfd rest hrest
    split
    · rename_i hc
      obtain ⟨he, hm⟩ := h.rest sockfd (by rw [hrest]; exact List.mem_cons_self ..)
      have htimers := h.timers
      rw [hc] at htimers
      refine ⟨_, if_pos (h.active he sockfd hm),
        ⟨h.sockets, h.nodup, h.active, fun fd hfd => ?_, fun fd hfd => ?_, htimers⟩,
        fun hw hq => .inl ?_⟩
      · exact h.rest fd (by rw [hrest]; exact List.mem_cons_of_mem _ hfd)
      · cases List.mem_singleton.mp hfd
        exact ⟨he, hm⟩
      · exact (hw hq).resolve_right (by rw [hc]; nofun)
    · exact ⟨r, rfl, h, id⟩

theorem Sound.runTimer (h : r.Sound) : ∃ r', r.step .runTimer = .ok r' ∧ r'.Sound ∧ (r.Waiting → r'.Waiting) := by
  rw [Resolver.step]
  split
  · rename_i hg
    obtain ⟨hc, -, hpos⟩ := hg
    have ha := h.timerActive (Nat.add_pos_left hpos _)
    have htimers := h.timers
    rw [hc, List.count_nil] at htimers
    refine ⟨_, if_pos ha, ⟨h.sockets, h.nodup, h.active, h.rest, fun fd hm => ?_, ?_⟩, fun _ _ => .inl ha⟩
    · cases List.mem_singleton.mp hm
    · show r.timers - 1 + 1 = r.timerActive.toNat
      omega
  · exact ⟨r, rfl, h, id⟩

theorem Sound.endEvents (h : r.Sound) : ∃ r', r.step .endEvents = .ok r' ∧ r'.Sound := by
  refine ⟨_, rfl, ?_⟩
  split
  · rename_i hg
    obtain ⟨hc, hrest⟩ := hg
    refine ⟨h.sockets, h.nodup, fun he => ?_, fun fd hm => ?_, fun fd hm => ?_, h.timers⟩
    · cases he
    · have hm : fd ∈ r.rest := hm
      rw [hrest] at hm
      cases hm
    · have hm : .onRead fd ∈ r.calls := hm
      rw [hc] at hm
      cases hm
  · exact h

/-! ## Whole runs -/

/-- A step fails only in an assertion on a channel that is closed, and only where the loop has reported its socket. -/
theorem Sound.step (h : r.Sound) (l : Label) :
    ((∃ e, r.step l = .error e ∧ Closing e) ∧ ¬ Settled r l) ∨
      ∃ r', r.step l = .ok r' ∧ r'.Sound ∧ (r.Waiting → Timed r l → r'.Waiting) := by
  cases l with
  | resolve query =>
    refine .inr ⟨_, rfl, ⟨h.sockets, h.nodup, h.active, h.rest, fun fd hm => ?_, ?_⟩,
      fun _ _ _ => .inr (List.mem_cons_self ..)⟩
    · rcases List.mem_cons.mp hm with hm | hm
      · cases hm
      · exact h.reading fd hm
    · show r.timers + (AresCall.resolve :: r.calls).count .onTimer = _
      rw [List.count_cons_of_ne (by decide)]
      exact h.timers
  | answer query =>
    refine .inr ⟨_, rfl, ?_⟩
    split
    · exact ⟨h, fun hw _ => hw⟩
    · refine ⟨⟨h.sockets, h.nodup, h.active, h.rest, h.reading, h.timers⟩, fun hw _ hq => hw ?_⟩
      intro hnil
      apply hq
      show r.queries.erase query = []
      rw [hnil, List.erase_nil]
  | sockCreate sockfd =>
    right
    rw [Resolver.step]
    split
    · rename_i hg
      obtain ⟨r', hr', hs⟩ := h.onSockCreate hg.2
      refine ⟨r', hr', hs, fun hw _ => ?_⟩
      unfold Resolver.onSockCreate at hr'
      split at hr'
      · cases hr'
      · cases hr'
        exact hw
    · exact ⟨r, rfl, h, fun hw _ => hw⟩
  | sockState sockfd read =>
    rw [Resolver.step]
    split
    · rename_i hg
      refine (h.onSockStateChange hg.2).imp id ?_
      rintro ⟨r', hr', hs⟩
      refine ⟨r', hr', hs, fun hw _ => ?_⟩
      unfold Resolver.onSockStateChange at hr'
      repeat' split at hr'
      all_goals cases hr'
      all_goals exact hw
    · exact .inr ⟨r, rfl, h, fun hw _ => hw⟩
  | returns timeout =>
    obtain ⟨r', hr', hs, hw⟩ := h.returns timeout
    exact .inr ⟨r', hr', hs, fun hwait ht => hw hwait fun hf => ht (hf ▸ rfl)⟩
  | poll active =>
    obtain ⟨r', hr', hs⟩ := h.poll active
    refine .inr ⟨r', hr', hs, fun hw _ => ?_⟩
    cases hr'
    split <;> exact hw
  | handleEvent =>
    obtain ⟨r', hr', hs, hw⟩ := h.handleEvent
    exact .inr ⟨r', hr', hs, fun hwait _ => hw hwait⟩
  | runTimer =>
    obtain ⟨r', hr', hs, hw⟩ := h.runTimer
    exact .inr ⟨r', hr', hs, fun hwait _ => hw hwait⟩
  | endEvents =>
    obtain ⟨r', hr', hs⟩ := h.endEvents
    refine .inr ⟨r', hr', hs, fun hw _ => ?_⟩
    cases hr'
    split <;> exact hw

theorem sound_start : Sound {} := by
  refine ⟨rfl, List.nodup_nil, fun he => ?_, fun fd hm => ?_, fun fd hm => ?_, rfl⟩
  · cases he
  · cases hm
  · cases hm

/-- Whatever the users of the resolver, the loop and c-ares do, with calls nested in callbacks to any depth: the
channels are those of the sockets, each watched once; back in the loop there is one timer while `timerActive_` is
set, and none otherwise; and there is one while a query is not answered, if `ares_timeout` has an answer as long as
that is so. Only the end of a socket that the loop has just reported stops it. -/
theorem resolver_keeps_timer (ls : List Label) :
    ((∃ e, run step {} ls = .error e ∧ (e = .removeChannel ∨ e = .channelDtor)) ∨
      ∃ r, run step {} ls = .ok r ∧ r.channels = r.sockets ∧ r.channels.Nodup ∧
        (r.calls = [] → r.timers = r.timerActive.toNat ∧ (Meets step Timed {} ls → r.queries ≠ [] → r.timers = 1))) ∧
    (Meets step Settled {} ls → ∃ r, run step {} ls = .ok r) := by
  constructor
  · rcases run_stops_or_inv (I := Sound) (p := Closing) (fun r l h => (h.step l).imp And.left fun hr => by
      obtain ⟨r', hr', hs, -⟩ := hr
      exact ⟨r', hr', hs⟩) sound_start with he | ⟨r, hr, h⟩
    · exact .inl he
    · refine .inr ⟨r, hr, h.sockets, h.nodup, fun hc => ?_⟩
      have htimers := h.timers
      rw [hc] at htimers
      refine ⟨htimers, fun hm hq => ?_⟩
      have hw := (hm.inv (I := fun r => r.Sound ∧ r.Waiting) (fun r l r' hi ht hr => by
        rcases hi.1.step l with ⟨⟨e, he, -⟩, -⟩ | ⟨u, hu, hs, hw⟩
        · cases he.symm.trans hr
        · cases hu.symm.trans hr
          exact ⟨hs, hw hi.2 ht⟩) ⟨sound_start, fun hq => absurd rfl hq⟩ hr).2
      rcases hw hq with ha | hm
      · rw [ha] at htimers
        exact htimers
      · rw [hc] at hm
        cases hm
  · intro hm
    obtain ⟨r, hr, -⟩ := hm.total (I := Sound) (fun r l h hset => by
      obtain ⟨r', hr', hs, -⟩ := (h.step l).resolve_left fun hn => hn.2 hset
      exact ⟨r', hr', hs⟩) sound_start
    exact ⟨r, hr⟩

/-- A query is answered at once, and its callback asks for another one; the timer goes with it. -/
def nestedQueries : List Label :=
  [.resolve 1, .sockCreate 7, .answer 1, .resolve 2, .returns true, .returns true, .poll [7], .handleEvent, .answer 2,
    .returns false, .runTimer, .sockState 7 true, .returns false, .endEvents]

theorem resolver_keeps_timer_nested : (∃ r, run step {} nestedQueries = .ok r ∧
      r.timers = r.timerActive.toNat ∧ r.timerActive = false) ∧
    ∃ r, run step {} (nestedQueries.take 6) = .ok r ∧ r.queries = [2] ∧ r.timers = 1 := by
  constructor
  · have h := resolver_keeps_timer nestedQueries
    obtain ⟨r, hr⟩ := h.2 (.of_forall fun l hl s sockfd he => by
      subst he
      simp [nestedQueries] at hl)
    rcases h.1 with ⟨e, he, -⟩ | ⟨r', hr', -, -, ht⟩
    · cases hr.symm.trans he
    · cases hr.symm.trans hr'
      cases hr
      exact ⟨_, rfl, (ht rfl).1, rfl⟩
  · have h := resolver_keeps_timer (nestedQueries.take 6)
    rcases h.1 with ⟨e, he, -⟩ | ⟨r', hr', -, -, ht⟩
    · cases he
    · cases hr'
      refine ⟨_, rfl, rfl, (ht rfl).2 (.of_forall fun l hl s he => ?_) (by decide)⟩
      subst he
      simp [nestedQueries] at hl

end Resolver

end Zhengqi
