import Zhengqi.Acceptor

/-!
# The spare descriptor of an acceptor

The acceptor has one descriptor of its own. It gives it up to take a connection that it has no descriptor for, and
takes one again; if no other thread opens a file in between, it has it back (`Reserved`), so that every `handleRead`
takes a connection from the queue.
-/

namespace Zhengqi

open Run

namespace Acceptor

variable {a a' : Acceptor} {fd : Nat} {l : Label}

/-! ## System calls -/

theorem unused_some (h : a.unused = some fd) : fd < a.limit ∧ fd ∉ a.own ∧ fd ∉ a.others := by
  have hp : decide (fd ∉ a.own ∧ fd ∉ a.others) = true :=
    List.find?_some (p := fun fd => decide (fd ∉ a.own ∧ fd ∉ a.others)) h
  exact ⟨List.mem_range.mp (List.mem_of_find?_eq_some h), of_decide_eq_true hp⟩

theorem unused_of (hlt : fd < a.limit) (ho : fd ∉ a.own) (hn : fd ∉ a.others) : ∃ fd', a.unused = some fd' := by
  cases h : a.unused with
  | some fd' => exact ⟨fd', rfl⟩
  | none =>
    have hp := List.find?_eq_none.mp h fd (List.mem_range.mpr hlt)
    exact absurd (decide_eq_true ⟨ho, hn⟩) hp

theorem close_own {o : Option Nat} (h : a.own = o.toList) : a.close o = .ok { a with own := [] } := by
  cases o with
  | none =>
    rw [← show a.own = [] from h]
    rfl
  | some fd =>
    have hm : fd ∈ a.own := by
      rw [h]
      exact List.mem_singleton_self fd
    rw [close, if_pos hm, h]
    simp

/-- What `::accept4` answers. -/
inductive Accepts (a : Acceptor) : Except AcceptErrno (Nat × Nat) × Acceptor → Prop
  | full (hu : a.unused = none) : Accepts a (.error .EMFILE, a)
  | empty {fd : Nat} (hu : a.unused = some fd) (hb : a.backlog = []) : Accepts a (.error .EAGAIN, a)
  | aborted {fd : Nat} {c : Incoming} {backlog : List Incoming} (hu : a.unused = some fd)
      (hb : a.backlog = c :: backlog)
      (hc : c.aborted = true) : Accepts a (.error .ECONNABORTED, { a with backlog })
  | taken {fd : Nat} {c : Incoming} {backlog : List Incoming} (hu : a.unused = some fd) (hb : a.backlog = c :: backlog)
      (hc : c.aborted = false) : Accepts a (.ok (fd, c.id), { a with backlog, own := fd :: a.own })

theorem accept4_accepts (a : Acceptor) : Accepts a a.accept4 := by
  unfold accept4
  split
  · rename_i hu
    exact .full hu
  · rename_i fd hu
    split
    · rename_i hb
      exact .empty hu hb
    · rename_i c backlog hb
      split
      · rename_i hc
        exact .aborted hu hb hc
      · rename_i hc
        exact .taken hu hb (Bool.eq_false_iff.mpr hc)

/-! ## Every interleaving -/

/-- The acceptor has given up its descriptor. -/
def gaveUp : AcceptorPc → Bool
  | .acceptIdle | .openNull => true
  | _ => false

structure Sound (a : Acceptor) : Prop where
  own : a.own = if gaveUp a.pc then [] else a.idleFd.toList
  apart : ∀ fd ∈ a.own, fd ∉ a.others

theorem Sound.of_unused (hu : a.unused = some fd) {a' : Acceptor} (ho : a'.own = [fd]) (hn : a'.others = a.others)
    (hp : gaveUp a'.pc = false) (hi : a'.idleFd = some fd) : a'.Sound := by
  refine ⟨by rw [ho, hp, hi]; rfl, fun fd' hm => ?_⟩
  rw [ho] at hm
  rw [List.mem_singleton.mp hm, hn]
  exact (unused_some hu).2.2

/-- The acceptor has no descriptor. -/
theorem Sound.none {a' : Acceptor} (ho : a'.own = []) (h : gaveUp a'.pc = true ∨ a'.idleFd = none) : a'.Sound := by
  refine ⟨?_, by rw [ho]; nofun⟩
  rw [ho]
  rcases h with h | h
  · rw [h]
    rfl
  · rw [h]
    split <;> rfl

/-- What a call does, from one place of `handleRead` to the next. -/
inductive Next (a : Acceptor) : Acceptor → Prop
  | out (hp : a.pc = .out) : Next a a
  | handed {fd : Nat} {c : Incoming} {backlog : List Incoming} (hp : a.pc = .accept) (hu : a.unused = some fd)
      (hb : a.backlog = c :: backlog) (hc : c.aborted = false) (hn : a.newConnectionCallback = true) :
      Next a { a with backlog, others := fd :: a.others, handed := a.handed ++ [c.id], pc := .out }
  | dropped {fd : Nat} {c : Incoming} {backlog : List Incoming} (hp : a.pc = .accept) (hu : a.unused = some fd)
      (hb : a.backlog = c :: backlog) (hc : c.aborted = false) (hn : a.newConnectionCallback = false) :
      Next a { a with backlog, dropped := a.dropped ++ [c.id], pc := .out }
  | failed {fd : Nat} {backlog : List Incoming} (hp : a.pc = .accept) (hu : a.unused = some fd)
      (hb : a.backlog = [] ∧ backlog = [] ∨ ∃ c, a.backlog = c :: backlog ∧ c.aborted = true) :
        Next a { a with backlog, pc := .out }
  | full (hp : a.pc = .accept) (hu : a.unused = none) : Next a { a with pc := .closeIdle }
  | closeIdle (hp : a.pc = .closeIdle) : Next a { a with own := [], pc := .acceptIdle }
  | acceptIdle {fd : Nat} {c : Incoming} {backlog : List Incoming} (hp : a.pc = .acceptIdle) (hu : a.unused = some fd)
      (hb : a.backlog = c :: backlog) (hc : c.aborted = false) :
      Next a { a with backlog, own := [fd], idleFd := some fd, dropped := a.dropped ++ [c.id], pc := .closeAccepted }
  | acceptFailed {backlog : List Incoming} (hp : a.pc = .acceptIdle)
      (hb : a.backlog = backlog ∧ (a.unused = none ∨ backlog = []) ∨ ∃ c, a.backlog = c :: backlog ∧ c.aborted = true) :
      Next a { a with backlog, idleFd := none, pc := .closeAccepted }
  | closeAccepted (hp : a.pc = .closeAccepted) : Next a { a with own := [], pc := .openNull }
  | openNull {fd : Nat} (hp : a.pc = .openNull) (hu : a.unused = some fd) :
      Next a { a with own := [fd], idleFd := some fd, pc := .out }
  | openFailed (hp : a.pc = .openNull) (hu : a.unused = none) : Next a { a with idleFd := none, pc := .out }

theorem Sound.next_ok (h : a.Sound) : ∃ a', a.next = .ok a' ∧ Next a a' := by
  have hown := h.own
  unfold Acceptor.next
  cases hp : a.pc with
  | out => exact ⟨a, rfl, .out hp⟩
  | accept =>
    dsimp only
    generalize hr : a.accept4 = r
    have hacc := accept4_accepts a
    rw [hr] at hacc
    cases hacc with
    | full hu => exact ⟨_, rfl, .full hp hu⟩
    | empty hu hb => exact ⟨_, rfl, .failed hp hu (.inl ⟨hb, hb⟩)⟩
    | aborted hu hb hc => exact ⟨_, rfl, .failed hp hu (.inr ⟨_, hb, hc⟩)⟩
    | @taken fd c backlog hu hb hc =>
      have herase : (fd :: a.own).erase fd = a.own := List.erase_cons_head ..
      dsimp only
      split
      · rename_i hn
        refine ⟨_, rfl, ?_⟩
        unfold newConnection
        rw [herase]
        exact .handed hp hu hb hc hn
      · rename_i hn
        rw [close, if_pos (List.mem_cons_self ..), herase]
        exact ⟨_, rfl, .dropped hp hu hb hc (Bool.eq_false_iff.mpr hn)⟩
  | closeIdle =>
    rw [hp] at hown
    dsimp only
    rw [close_own hown]
    exact ⟨_, rfl, .closeIdle hp⟩
  | acceptIdle =>
    rw [hp] at hown
    have hnil : a.own = [] := hown
    dsimp only
    generalize hr : a.accept4 = r
    have hacc := accept4_accepts a
    rw [hr] at hacc
    cases hacc with
    | full hu => exact ⟨_, rfl, .acceptFailed hp (.inl ⟨rfl, .inl hu⟩)⟩
    | empty hu hb => exact ⟨_, rfl, .acceptFailed hp (.inl ⟨rfl, .inr hb⟩)⟩
    | aborted hu hb hc => exact ⟨_, rfl, .acceptFailed hp (.inr ⟨_, hb, hc⟩)⟩
    | taken hu hb hc =>
      rw [hnil]
      exact ⟨_, rfl, .acceptIdle hp hu hb hc⟩
  | closeAccepted =>
    rw [hp] at hown
    dsimp only
    rw [close_own hown]
    exact ⟨_, rfl, .closeAccepted hp⟩
  | openNull =>
    rw [hp] at hown
    have hnil : a.own = [] := hown
    unfold openFile
    dsimp only
    cases hu : a.unused with
    | some fd =>
      dsimp only
      rw [hnil]
      exact ⟨_, rfl, .openNull hp hu⟩
    | none => exact ⟨_, rfl, .openFailed hp hu⟩

theorem Sound.next (h : a.Sound) (hn : Next a a') : a'.Sound := by
  have hown := h.own
  have hstay : gaveUp a.pc = false → ∀ b : Acceptor, b.own = a.own → b.idleFd = a.idleFd → gaveUp b.pc = false →
      (∀ fd ∈ a.own, fd ∉ b.others) → b.Sound := by
    intro hg b ho hi hp hapart
    rw [hg] at hown
    exact ⟨by rw [ho, hi, hp]; exact hown, by rw [ho]; exact hapart⟩
  cases hn with
  | out => exact h
  | handed hp hu =>
    refine hstay (by rw [hp]; rfl) _ rfl rfl rfl fun fd' hm => ?_
    rw [List.mem_cons, not_or]
    exact ⟨fun he => (unused_some hu).2.1 (he ▸ hm), h.apart fd' hm⟩
  | dropped hp => exact hstay (by rw [hp]; rfl) _ rfl rfl rfl h.apart
  | failed hp => exact hstay (by rw [hp]; rfl) _ rfl rfl rfl h.apart
  | full hp => exact hstay (by rw [hp]; rfl) _ rfl rfl rfl h.apart
  | closeIdle hp => exact .none rfl (.inl rfl)
  | acceptIdle hp hu => exact .of_unused hu rfl rfl rfl rfl
  | acceptFailed hp =>
    rw [hp] at hown
    exact .none hown (.inr rfl)
  | closeAccepted hp => exact .none rfl (.inl rfl)
  | openNull hp hu => exact .of_unused hu rfl rfl rfl rfl
  | openFailed hp =>
    rw [hp] at hown
    exact .none hown (.inr rfl)

theorem Sound.step (h : a.Sound) (l : Label) : ∃ a', a.step l = .ok a' ∧ a'.Sound := by
  cases l with
  | connect c => exact ⟨_, rfl, h.own, h.apart⟩
  | openOther =>
    refine ⟨_, rfl, h.own, fun fd hm => ?_⟩
    rw [List.mem_append, not_or]
    refine ⟨fun hu => ?_, h.apart fd hm⟩
    exact (unused_some (Option.mem_toList.mp hu)).2.1 hm
  | closeOther fd => exact ⟨_, rfl, h.own, fun fd' hm hn => h.apart fd' hm (List.mem_of_mem_erase hn)⟩
  | handleRead =>
    rw [Acceptor.step]
    split
    · rename_i hp
      have hown := h.own
      rw [hp] at hown
      exact ⟨_, rfl, hown, h.apart⟩
    · exact ⟨a, rfl, h⟩
  | next =>
    obtain ⟨a', ha', hn⟩ := h.next_ok
    exact ⟨a', ha', h.next hn⟩

theorem Sound.ctor (limit : Nat) (others : List Nat) (callback : Bool) : (ctor limit others callback).Sound := by
  unfold Acceptor.ctor openFile
  dsimp only
  split
  · rename_i fd hu
    exact .of_unused hu rfl rfl rfl rfl
  · exact .none rfl (.inr rfl)

/-! ## The spare descriptor -/

/-- The calls before which the acceptor has its spare descriptor. -/
def spared : AcceptorPc → Bool
  | .out | .accept | .closeIdle => true
  | _ => false

/-- No other thread opens a file while the acceptor has given its descriptor up. -/
def Undisturbed (a : Acceptor) (l : Label) : Prop := l = .openOther → spared a.pc = true

/-- There is a descriptor that only the acceptor can have. -/
def Reserved (a : Acceptor) : Prop := ∃ fd < a.limit, fd ∉ a.others ∧ (spared a.pc = true → a.idleFd = some fd)

theorem Reserved.unused (h : a.Reserved) (hown : a.own = []) : ∃ fd, a.unused = some fd := by
  obtain ⟨fd, hlt, hn, -⟩ := h
  refine unused_of hlt ?_ hn
  rw [hown]
  exact List.not_mem_nil

theorem Sound.own_nil (h : a.Sound) (hp : gaveUp a.pc = true) : a.own = [] := by
  rw [h.own, hp]
  rfl

theorem Sound.mem_own (h : a.Sound) (hp : spared a.pc = true) (hi : a.idleFd = some fd) : fd ∈ a.own := by
  have hg : gaveUp a.pc = false := by
    cases hpc : a.pc <;> rw [hpc] at hp <;> first | rfl | cases hp
  rw [h.own, hg, hi]
  exact List.mem_singleton_self fd

theorem Reserved.next (hs : a.Sound) (h : a.Reserved) (hn : Next a a') : a'.Reserved := by
  obtain ⟨fd, hlt, hf, hi⟩ := id h
  cases hn with
  | out => exact h
  | @handed fd' _ _ hp hu =>
    rw [hp] at hi
    refine ⟨fd, hlt, ?_, fun _ => hi rfl⟩
    rw [List.mem_cons, not_or]
    have hm : fd ∈ a.own := hs.mem_own (by rw [hp]; rfl) (hi rfl)
    exact ⟨fun he => (unused_some hu).2.1 (he ▸ hm), hf⟩
  | dropped hp =>
    rw [hp] at hi
    exact ⟨fd, hlt, hf, fun _ => hi rfl⟩
  | failed hp =>
    rw [hp] at hi
    exact ⟨fd, hlt, hf, fun _ => hi rfl⟩
  | full hp =>
    rw [hp] at hi
    exact ⟨fd, hlt, hf, fun _ => hi rfl⟩
  | closeIdle => exact ⟨fd, hlt, hf, nofun⟩
  | acceptIdle => exact ⟨fd, hlt, hf, nofun⟩
  | acceptFailed => exact ⟨fd, hlt, hf, nofun⟩
  | closeAccepted => exact ⟨fd, hlt, hf, nofun⟩
  | openNull hp hu =>
    obtain ⟨hlt', -, hf'⟩ := unused_some hu
    exact ⟨_, hlt', hf', fun _ => rfl⟩
  | openFailed hp hu =>
    obtain ⟨fd', hu'⟩ := h.unused (hs.own_nil (by rw [hp]; rfl))
    rw [hu'] at hu
    cases hu

theorem Reserved.step (hs : a.Sound) (h : a.Reserved) (hc : Undisturbed a l) (ha : a.step l = .ok a') :
    a'.Reserved := by
  obtain ⟨fd, hlt, hf, hi⟩ := id h
  cases l with
  | connect c =>
    cases ha
    exact ⟨fd, hlt, hf, hi⟩
  | openOther =>
    cases ha
    refine ⟨fd, hlt, ?_, hi⟩
    have hm : fd ∈ a.own := hs.mem_own (hc rfl) (hi (hc rfl))
    rw [List.mem_append, not_or]
    exact ⟨fun hu => (unused_some (Option.mem_toList.mp hu)).2.1 hm, hf⟩
  | closeOther fd' =>
    cases ha
    exact ⟨fd, hlt, fun hm => hf (List.mem_of_mem_erase hm), hi⟩
  | handleRead =>
    refine ite_pure_inv (I := Reserved) (fun hp ha => ?_) h ha
    cases ha
    rw [hp] at hi
    exact ⟨fd, hlt, hf, fun _ => hi rfl⟩
  | next =>
    obtain ⟨b, hb, hn⟩ := hs.next_ok
    cases hb.symm.trans ha
    exact h.next hs hn

theorem Reserved.ctor {limit : Nat} {others : List Nat} {callback : Bool}
    (h : (ctor limit others callback).idleFd ≠ none) :
    (ctor limit others callback).Reserved := by
  unfold Acceptor.ctor openFile at h ⊢
  dsimp only at h ⊢
  split
  · rename_i fd hu
    obtain ⟨hlt, -, hf⟩ := unused_some hu
    exact ⟨fd, hlt, hf, fun _ => rfl⟩
  · rename_i hu
    rw [hu] at h
    exact absurd rfl h

/-! ## One call of handleRead -/

/-- What is taken from the queue with a connection: nothing, if the peer has given it up. -/
def taken (c : Incoming) : List Nat := if c.aborted then [] else [c.id]

/-- There is a descriptor for a connection, and a callback for it. -/
def accepts (a : Acceptor) : Bool := a.unused.isSome && a.newConnectionCallback

/-- The connections that come with a label. -/
def Label.incoming : Label → List Incoming
  | .connect c => [c]
  | _ => []

/-- How far `handleRead` has come with a connection since its first `accept`, which was made in `b`. -/
def Serving (b : Acceptor) (c : Incoming) (rest : List Incoming) (a : Acceptor) : Prop :=
  match a.pc with
  | .accept => False
  | .closeIdle | .acceptIdle =>
    b.accepts = false ∧ a.backlog = c :: rest ∧ a.handed = b.handed ∧ a.dropped = b.dropped
  | .closeAccepted | .openNull | .out => a.backlog = rest ∧
      a.handed = b.handed ++ (if b.accepts then taken c else []) ∧
      a.dropped = b.dropped ++ (if b.accepts then [] else taken c)

def rank : AcceptorPc → Nat
  | .out => 0
  | .openNull => 1
  | .closeAccepted => 2
  | .acceptIdle => 3
  | .closeIdle => 4
  | .accept => 5

theorem Next.rank_lt (hpc : a.pc ≠ .out) (hn : Next a a') : rank a'.pc < rank a.pc := by
  cases hn with
  | out hp => exact absurd hp hpc
  | _ => simp [*, rank]

/-- The first `accept`. -/
theorem Next.serving {b : Acceptor} {c : Incoming} {rest : List Incoming} (hp : b.pc = .accept)
    (hb : b.backlog = c :: rest) (hn : Next b a) : Serving b c rest a := by
  cases hn with
  | handed _ hu hb' hc hn =>
    cases hb.symm.trans hb'
    have ha : b.accepts = true := by
      rw [accepts, hu, hn]
      rfl
    rw [Serving, ha, taken, hc]
    exact ⟨rfl, rfl, (List.append_nil _).symm⟩
  | dropped _ hu hb' hc hn =>
    cases hb.symm.trans hb'
    have ha : b.accepts = false := by rw [accepts, hn, Bool.and_false]
    rw [Serving, ha, taken, hc]
    exact ⟨rfl, (List.append_nil _).symm, rfl⟩
  | failed _ hu hb' =>
    rcases hb' with ⟨hb', -⟩ | ⟨c', hb', hc⟩
    · cases hb.symm.trans hb'
    · cases hb.symm.trans hb'
      rw [Serving, taken, if_pos hc, ite_self]
      exact ⟨rfl, (List.append_nil _).symm, (List.append_nil _).symm⟩
  | full _ hu =>
    refine ⟨?_, hb, rfl, rfl⟩
    rw [accepts, hu]
    rfl
  | out hp' => cases hp.symm.trans hp'
  | closeIdle hp' => cases hp.symm.trans hp'
  | acceptIdle hp' => cases hp.symm.trans hp'
  | acceptFailed hp' => cases hp.symm.trans hp'
  | closeAccepted hp' => cases hp.symm.trans hp'
  | openNull hp' => cases hp.symm.trans hp'
  | openFailed hp' => cases hp.symm.trans hp'

theorem Serving.next {b : Acceptor} {c : Incoming} {rest : List Incoming} (hs : a.Sound) (hr : a.Reserved)
    (h : Serving b c rest a) (hn : Next a a') : Serving b c rest a' := by
  have hacc : a.pc ≠ .accept := by
    intro hp
    rw [Serving, hp] at h
    exact h
  cases hn with
  | out hp => exact h
  | handed hp => exact absurd hp hacc
  | dropped hp => exact absurd hp hacc
  | failed hp => exact absurd hp hacc
  | full hp => exact absurd hp hacc
  | closeIdle hp =>
    rw [Serving, hp] at h
    exact h
  | acceptIdle hp hu hb hc =>
    rw [Serving, hp] at h
    obtain ⟨ha, hb', hh, hd⟩ := h
    cases hb'.symm.trans hb
    rw [Serving, ha, taken, hc]
    refine ⟨rfl, hh.trans (List.append_nil _).symm, ?_⟩
    rw [← hd]
    rfl
  | acceptFailed hp hb =>
    rw [Serving, hp] at h
    obtain ⟨ha, hb', hh, hd⟩ := h
    rcases hb with ⟨hb, hu | hnil'⟩ | ⟨c', hb, hc⟩
    · obtain ⟨fd, hfd⟩ := hr.unused (hs.own_nil (by rw [hp]; rfl))
      rw [hfd] at hu
      cases hu
    · rw [hnil', hb'] at hb
      cases hb
    · cases hb'.symm.trans hb
      rw [Serving, taken, if_pos hc, ite_self]
      exact ⟨rfl, hh.trans (List.append_nil _).symm, hd.trans (List.append_nil _).symm⟩
  | closeAccepted hp =>
    rw [Serving, hp] at h
    exact h
  | openNull hp hu =>
    rw [Serving, hp] at h
    exact h
  | openFailed hp hu =>
    rw [Serving, hp] at h
    exact h

theorem Serving.connect {b : Acceptor} {c d : Incoming} {rest : List Incoming} (h : Serving b c rest a) :
    Serving b c (rest ++ [d]) { a with backlog := a.backlog ++ [d] } := by
  cases hp : a.pc <;> simp only [Serving, hp] at h ⊢
  case closeIdle => exact ⟨h.1, by rw [h.2.1, List.cons_append], h.2.2⟩
  case acceptIdle => exact ⟨h.1, by rw [h.2.1, List.cons_append], h.2.2⟩
  all_goals exact ⟨by rw [h.1], h.2⟩

/-- The acceptor and the descriptor it can rely on. -/
structure Sheltered (a : Acceptor) : Prop extends Sound a where
  reserved : a.Reserved

theorem Sheltered.step (h : a.Sheltered) (hc : Undisturbed a l) : ∃ a', a.step l = .ok a' ∧ a'.Sheltered := by
  obtain ⟨a', ha', hs⟩ := h.toSound.step l
  exact ⟨a', ha', hs, h.reserved.step h.toSound hc ha'⟩

/-- `handleRead` has been entered and has made no call. -/
structure Entered (a₀ : Acceptor) (a : Acceptor) (queue : List Incoming) : Prop extends Sheltered a where
  pc : a.pc = .accept
  backlog : a.backlog = queue
  handed : a.handed = a₀.handed
  dropped : a.dropped = a₀.dropped

theorem Entered.step {a₀ : Acceptor} {queue : List Incoming} (h : Entered a₀ a queue)
    (hc : Undisturbed a l ∧ l ≠ .next) :
    ∃ a', a.step l = .ok a' ∧ Entered a₀ a' (queue ++ l.incoming) := by
  obtain ⟨a', ha', hs⟩ := h.toSheltered.step hc.1
  refine ⟨a', ha', ?_⟩
  cases l with
  | connect c =>
    cases ha'
    exact ⟨hs, h.pc, by rw [h.backlog]; rfl, h.handed, h.dropped⟩
  | openOther =>
    cases ha'
    exact ⟨hs, h.pc, by rw [h.backlog]; exact (List.append_nil _).symm, h.handed, h.dropped⟩
  | closeOther fd =>
    cases ha'
    exact ⟨hs, h.pc, by rw [h.backlog]; exact (List.append_nil _).symm, h.handed, h.dropped⟩
  | handleRead =>
    rw [Acceptor.step, if_neg (by rw [h.pc]; decide)] at ha'
    cases ha'
    exact ⟨hs, h.pc, by rw [h.backlog]; exact (List.append_nil _).symm, h.handed, h.dropped⟩
  | next => exact absurd rfl hc.2

/-- `handleRead` has at most `k` calls before it. -/
structure Within (b : Acceptor) (c : Incoming) (a : Acceptor) (goal : List Incoming × Nat) :
    Prop extends Sheltered a where
  serving : Serving b c goal.1 a
  rank : rank a.pc ≤ goal.2

/-- What the labels of others bring, and a call of `handleRead` less. -/
def progress (goal : List Incoming × Nat) (l : Label) : List Incoming × Nat :=
  (goal.1 ++ l.incoming, goal.2 - if l = .next then 1 else 0)

theorem foldl_progress (ls : List Label) (goal : List Incoming × Nat) :
    ls.foldl progress goal = (goal.1 ++ ls.flatMap Label.incoming, goal.2 - ls.count .next) := by
  induction ls generalizing goal with
  | nil => simp
  | cons l ls ih =>
    rw [List.foldl_cons, ih, progress, List.flatMap_cons, List.append_assoc, List.count_cons, Nat.sub_sub, Nat.add_comm]
    simp

theorem Within.step {b : Acceptor} {c : Incoming} {goal : List Incoming × Nat} (h : Within b c a goal)
    (hc : Undisturbed a l ∧ l ≠ .handleRead) : ∃ a', a.step l = .ok a' ∧ Within b c a' (progress goal l) := by
  obtain ⟨a', ha', hs⟩ := h.toSheltered.step hc.1
  refine ⟨a', ha', ?_⟩
  have hsame : Serving b c (goal.1 ++ []) a := by
    rw [List.append_nil]
    exact h.serving
  cases l with
  | connect d =>
    cases ha'
    exact ⟨hs, h.serving.connect, h.rank⟩
  | openOther =>
    cases ha'
    exact ⟨hs, hsame, h.rank⟩
  | closeOther fd =>
    cases ha'
    exact ⟨hs, hsame, h.rank⟩
  | handleRead => exact absurd rfl hc.2
  | next =>
    obtain ⟨u, hu, hn⟩ := h.toSound.next_ok
    cases hu.symm.trans ha'
    refine ⟨hs, Serving.next h.toSound h.reserved hsame hn, ?_⟩
    have hrank := h.rank
    by_cases hp : a.pc = .out
    · cases hn with
      | out =>
        rw [hp]
        exact Nat.zero_le _
      | _ => simp_all
    · have hlt := hn.rank_lt hp
      rw [progress, if_pos rfl]
      dsimp only
      omega

/-- A call of `handleRead`, with other threads between its system calls. -/
theorem Sheltered.handleRead {c : Incoming} {rest : List Incoming} {ms₁ ms₂ : List Label}
    (h : a.Sheltered) (hp : a.pc = .out)
    (hb : a.backlog = c :: rest) (hn₁ : .next ∉ ms₁) (hn₂ : .handleRead ∉ ms₂) (hk : 4 ≤ ms₂.count .next)
    (hm : Meets Acceptor.step Undisturbed a (.handleRead :: ms₁ ++ .next :: ms₂)) :
    ∃ b a', run Acceptor.step a (.handleRead :: ms₁) = .ok b ∧ run Acceptor.step b (.next :: ms₂) = .ok a' ∧
      a'.Sheltered ∧ a'.pc = .out ∧ b.handed = a.handed ∧ b.dropped = a.dropped ∧
      Serving b c (rest ++ (ms₁ ++ ms₂).flatMap Label.incoming) a' := by
  have he : a.step .handleRead = .ok { a with pc := .accept } := if_pos hp
  have henter : Entered a { a with pc := .accept } (c :: rest) := by
    obtain ⟨a₁, ha₁, hs₁⟩ := h.step (l := .handleRead) nofun
    cases he.symm.trans ha₁
    exact ⟨hs₁, rfl, hb, rfl, rfl⟩
  -- up to the first `accept`
  have hm₁ := ((meets_cons_of_ok he).mp hm).2
  obtain ⟨b, hrun₁, hv⟩ := (hm₁.append_left.and_forall (p := (· ≠ .next)) fun l hl he => hn₁ (he ▸ hl)).simulates
    (R := fun a' (goal : List Incoming × Nat) => Entered a a' goal.1)
    (fun a₁ goal l h hc => show ∃ a₂, a₁.step l = .ok a₂ ∧ Entered a a₂ (progress goal l).1 from h.step hc)
    (a := (c :: rest, 0)) henter
  rw [foldl_progress, List.cons_append] at hv
  -- the first `accept`
  have hm₂ := (hm₁.append hrun₁).2
  obtain ⟨b₁, hb₁, hnext⟩ := hv.toSound.next_ok
  have hwithin : Within b c b₁ (rest ++ ms₁.flatMap Label.incoming, 4) := by
    obtain ⟨u, hu, hs⟩ := hv.toSheltered.step (l := .next) nofun
    cases hb₁.symm.trans hu
    have hlt := hnext.rank_lt (by rw [hv.pc]; decide)
    rw [hv.pc] at hlt
    exact ⟨hs, hnext.serving hv.pc hv.backlog, Nat.le_of_lt_succ hlt⟩
  -- the calls after it
  obtain ⟨a', hrun₂, hw⟩ := (((meets_cons_of_ok (show b.step .next = _ from hb₁)).mp hm₂).2.and_forall
    (p := (· ≠ .handleRead)) fun l hl he => hn₂ (he ▸ hl)).simulates (R := Within b c)
    (fun a₁ goal l h hc => show ∃ a₂, a₁.step l = .ok a₂ ∧ Within b c a₂ (progress goal l) from h.step hc) hwithin
  rw [foldl_progress] at hw
  refine ⟨b, a', (run_cons_ok _).mpr ⟨_, he, hrun₁⟩, (run_cons_ok _).mpr ⟨b₁, hb₁, hrun₂⟩, hw.toSheltered, ?_,
    hv.handed, hv.dropped, ?_⟩
  · have hz : rank a'.pc = 0 := Nat.le_zero.mp (Nat.sub_eq_zero_of_le hk ▸ hw.rank)
    cases hpc : a'.pc <;> rw [hpc] at hz <;> first | rfl | cases hz
  · rw [List.flatMap_append, ← List.append_assoc]
    exact hw.serving

theorem Reserved.idleFd (h : a.Reserved) (hp : a.pc = .out) : a.idleFd ≠ none := by
  obtain ⟨fd, -, -, hi⟩ := h
  rw [hi (by rw [hp]; rfl)]
  nofun

/-- Whatever other threads do, the acceptor closes only descriptors of its own and has no other than `idleFd_` when it
waits. If nobody opens a file while it has given that one up it never loses it, and each `handleRead` takes the first
connection from the queue, also where the process has no descriptor left and whatever comes between its calls. -/
theorem acceptor_keeps_reserve (limit : Nat) (others : List Nat) (callback : Bool)
    (h₀ : (ctor limit others callback).idleFd ≠ none) (ls : List Label) :
    ∃ a, run step (ctor limit others callback) ls = .ok a ∧ (a.pc = .out → a.own = a.idleFd.toList) ∧
      (∀ fd ∈ a.own, fd ∉ a.others) ∧
      (Meets step Undisturbed (ctor limit others callback) ls → a.pc = .out → a.idleFd ≠ none ∧
        ∀ c rest, a.backlog = c :: rest → ∀ ms₁ ms₂, .next ∉ ms₁ → .handleRead ∉ ms₂ → 4 ≤ ms₂.count .next →
          Meets step Undisturbed a (.handleRead :: ms₁ ++ .next :: ms₂) →
          ∃ b a', run step a (.handleRead :: ms₁) = .ok b ∧ run step b (.next :: ms₂) = .ok a' ∧
            a'.pc = .out ∧ a'.idleFd ≠ none ∧ a'.backlog = rest ++ (ms₁ ++ ms₂).flatMap Label.incoming ∧
            a'.handed = a.handed ++ (if b.accepts then taken c else []) ∧
            a'.dropped = a.dropped ++ (if b.accepts then [] else taken c)) := by
  have h0 := Sound.ctor limit others callback
  obtain ⟨a, ha, hs⟩ : ∃ a, run step (ctor limit others callback) ls = .ok a ∧ a.Sound :=
    run_total (fun s l hi => hi.step l) h0
  refine ⟨a, ha, fun hp => ?_, hs.apart, fun hm hp => ?_⟩
  · have hown := hs.own
    rw [hp] at hown
    exact hown
  · obtain ⟨u, hu, hr⟩ := hm.total (I := Sheltered) (fun _ _ h hc => h.step hc) ⟨h0, .ctor h₀⟩
    cases ha.symm.trans hu
    refine ⟨hr.reserved.idleFd hp, fun c rest hb ms₁ ms₂ hn₁ hn₂ hk hms => ?_⟩
    obtain ⟨b, a', hrun₁, hrun₂, hr', hp', hh, hd, hv⟩ := hr.handleRead hp hb hn₁ hn₂ hk hms
    rw [Serving, hp', hh, hd] at hv
    exact ⟨b, a', hrun₁, hrun₂, hp', hr'.reserved.idleFd hp', hv⟩

/-- The calls of `handleRead` after the first, with another thread between them. -/
def interrupted : List Label := [.next, .closeOther 0, .connect { id := 8 }, .next, .next, .next]

/-- With three descriptors and two of them in use by others, a connection that comes is closed. -/
theorem acceptor_keeps_reserve_full : ∃ a b a', run step (ctor 3 [0, 1] true) [.connect { id := 7 }] = .ok a ∧
    a.idleFd = some 2 ∧ run step a [.handleRead] = .ok b ∧ run step b (.next :: interrupted) = .ok a' ∧
    a'.backlog = [{ id := 8 }] ∧ a'.idleFd ≠ none ∧ a'.dropped = [7] := by
  obtain ⟨a, ha, -, -, h⟩ := acceptor_keeps_reserve 3 [0, 1] true (by decide) [.connect { id := 7 }]
  cases ha
  obtain ⟨-, h⟩ := h ⟨nofun, fun _ _ => trivial⟩ rfl
  obtain ⟨b, a', hb, ha', -, hi, hq, -, hd⟩ := h { id := 7 } [] rfl [] interrupted (by decide) (by decide) (by decide)
    (Meets.of_forall (by simp [interrupted, Undisturbed]))
  cases hb
  exact ⟨_, _, a', rfl, by decide, rfl, ha', hq, hi, hd⟩

end Acceptor

end Zhengqi
