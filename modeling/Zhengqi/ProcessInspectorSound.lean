import Zhengqi.ProcessInspector

/-!
# The files below /proc

`getProcessName` comes to an end only for an empty name. The stat of a thread is read field by field for every
command name, as long as its length is an `int`.
-/

namespace Zhengqi

open Run

/-! ## Characters -/

theorem charAt_append {c : Byte} (s t : Bytes) : charAt (s ++ c :: t) s.length = .ok c := by
  unfold charAt
  rw [List.append_assoc, List.getElem?_append_right (Nat.le_refl _), Nat.sub_self]
  rfl

namespace ProcessInspector

/-! ## getProcessName -/

theorem find_append (key s t : Bytes) : ∃ i ≤ s.length, find key (s ++ (key ++ t)) = some i := by
  induction s with
  | nil =>
    refine ⟨0, Nat.le_refl 0, ?_⟩
    cases key with
    | nil => cases t <;> rfl
    | cons c key => simp [find]
  | cons c s ih =>
    obtain ⟨i, hi, hfind⟩ := ih
    rw [List.cons_append, find, hfind]
    split
    · exact ⟨0, Nat.zero_le _, rfl⟩
    · exact ⟨i + 1, Nat.succ_le_succ hi, rfl⟩

/-- From `pos` there are some tabs, and then a character that is none. -/
theorem skipTabs_eq {c : Byte} (hc : c ≠ chr '\t') (s t : Bytes) (k rounds : Nat) :
    skipTabs (s ++ (List.replicate k (chr '\t') ++ c :: t)) rounds s.length =
      if k < rounds then .ok (s.length + k) else .error .getProcessName := by
  induction rounds generalizing s k with
  | zero => rfl
  | succ rounds ih =>
    cases k with
    | zero =>
      rw [skipTabs, List.replicate_zero, List.nil_append, charAt_append, ok_bind, if_neg hc, if_pos (Nat.succ_pos _)]
      rfl
    | succ k =>
      rw [skipTabs, List.replicate_succ, List.cons_append, charAt_append, ok_bind, if_pos rfl]
      have hstep := ih (s ++ [chr '\t']) k
      rw [List.append_assoc, List.singleton_append, List.length_append, List.length_singleton] at hstep
      rw [hstep]
      simp only [Nat.succ_lt_succ_iff, Nat.add_assoc, Nat.add_comm 1 k]

/-- The loop looks at the same character again and again. -/
theorem findEol_eq {procStatus : Bytes} {pos : Nat} {c : Byte} (hc : charAt procStatus pos = .ok c) (rounds eol : Nat) :
    findEol procStatus pos rounds eol = if c = chr '\n' ∧ 0 < rounds then .ok eol else .error .getProcessName := by
  induction rounds generalizing eol with
  | zero => simp [findEol]
  | succ rounds ih =>
    rw [findEol, hc, ok_bind]
    by_cases hnl : c = chr '\n'
    · simp [hnl]
    · rw [if_pos hnl, ih]
      simp [hnl]

/-- The characters between the tabs behind the first `Name:` and the next newline. -/
def nameIn (procStatus : Bytes) : Bytes :=
  match find (ascii "Name:") procStatus with
  | none => []
  | some i => ((procStatus.drop (i + 5)).dropWhile (· == chr '\t')).takeWhile (· != chr '\n')

theorem exists_tabs {t : Bytes} {b : Byte} (hb : b ∈ t) (hne : b ≠ chr '\t') :
    ∃ k c u, t = List.replicate k (chr '\t') ++ c :: u ∧ c ≠ chr '\t' ∧ t.dropWhile (· == chr '\t') = c :: u := by
  induction t with
  | nil => exact nomatch hb
  | cons a t ih =>
    by_cases ha : a = chr '\t'
    · have hmem : b ∈ t := (List.mem_cons.1 hb).resolve_left fun h => hne (h.trans ha)
      obtain ⟨k, c, u, ht, hc, hdrop⟩ := ih hmem
      refine ⟨k + 1, c, u, ?_, hc, ?_⟩
      · rw [ht, ha, List.replicate_succ, List.cons_append]
      · rw [List.dropWhile_cons, if_pos (by rw [ha, beq_self_eq_true]), hdrop]
    · exact ⟨0, a, t, rfl, ha, by rw [List.dropWhile_cons, if_neg (by rw [beq_iff_eq]; exact ha)]⟩

/-- The whole of `getProcessName`, when a newline follows the key. -/
theorem getProcessName_eq {procStatus : Bytes}
    (h : ∃ before between after, procStatus = before ++ (ascii "Name:" ++ (between ++ chr '\n' :: after))) :
    ∃ k, ∀ rounds, getProcessName rounds procStatus =
      if k < rounds ∧ nameIn procStatus = [] then .ok [] else .error .getProcessName := by
  obtain ⟨before, between, after, hs⟩ := h
  obtain ⟨i, hi, hfind⟩ := find_append (ascii "Name:") before (between ++ chr '\n' :: after)
  rw [← hs] at hfind
  have hkey : (before ++ ascii "Name:").length = before.length + 5 := List.length_append
  have hnewline : chr '\n' ∈ procStatus.drop (i + 5) := by
    rw [hs, ← List.append_assoc, List.drop_append_of_le_length (by omega)]
    simp
  obtain ⟨k, c, u, ht, hc, hdrop⟩ := exists_tabs hnewline (by decide)
  have hlen : (procStatus.take (i + 5)).length = i + 5 := by
    rw [List.length_take, hs, ← List.append_assoc, List.length_append]
    omega
  have hsplit : procStatus = procStatus.take (i + 5) ++ (List.replicate k (chr '\t') ++ c :: u) := by
    rw [← ht, List.take_append_drop]
  have hchar : charAt procStatus (i + 5 + k) = .ok c := by
    have := charAt_append (c := c) (procStatus.take (i + 5) ++ List.replicate k (chr '\t')) u
    rwa [List.append_assoc, ← hsplit, List.length_append, List.length_replicate, hlen] at this
  have hname : nameIn procStatus = [] ↔ c = chr '\n' := by
    unfold nameIn
    rw [hfind]
    simp only [hdrop, List.takeWhile_cons]
    by_cases hnl : c = chr '\n' <;> simp [hnl]
  refine ⟨k, fun rounds => ?_⟩
  have htabs := skipTabs_eq hc (procStatus.take (i + 5)) u k rounds
  rw [← hsplit, hlen] at htabs
  unfold getProcessName
  simp only [hfind, htabs, hname]
  by_cases hk : k < rounds
  · rw [if_pos hk, ok_bind, findEol_eq hchar]
    by_cases hnl : c = chr '\n'
    · simp [hk, hnl, Nat.zero_lt_of_lt hk]
    · simp [hnl]
  · simp [hk]

/-- With a newline behind `Name:`, the name is found within some number of rounds, and nothing behind the NUL is
read, exactly when the name is empty. -/
theorem getProcessName_right_iff {procStatus : Bytes}
    (h : ∃ before between after, procStatus = before ++ (ascii "Name:" ++ (between ++ chr '\n' :: after))) :
    ((∀ rounds, getProcessName rounds procStatus ≠ .error .outOfBounds) ∧
      ∃ rounds, getProcessName rounds procStatus = .ok (nameIn procStatus)) ↔ nameIn procStatus = [] := by
  obtain ⟨k, hk⟩ := getProcessName_eq h
  constructor
  · rintro ⟨-, rounds, hok⟩
    rw [hk] at hok
    by_contra hname
    simp [hname] at hok
  · intro hname
    refine ⟨fun rounds => ?_, k + 1, ?_⟩
    · rw [hk]
      split <;> simp
    · rw [hk, if_pos ⟨Nat.lt_succ_self k, hname⟩, hname]

theorem getProcessName_right_iff_empty :
    ∃ rounds, getProcessName rounds (ascii "Name:\t\nUmask:\t0022\n") = .ok [] := by
  have h := @getProcessName_right_iff (ascii "Name:\t\nUmask:\t0022\n") ⟨[], ascii "\t", ascii "Umask:\t0022\n", rfl⟩
  exact (h.2 (by decide)).2

/-- The status of `cat` keeps the loop going for ever. -/
theorem getProcessName_never_ends : nameIn (ascii "Name:\tcat\nUmask:\t0022\n") = ascii "cat" ∧
    ∀ rounds, getProcessName rounds (ascii "Name:\tcat\nUmask:\t0022\n") = .error .getProcessName := by
  have hname : nameIn (ascii "Name:\tcat\nUmask:\t0022\n") = ascii "cat" := by decide
  obtain ⟨k, hk⟩ := @getProcessName_eq (ascii "Name:\tcat\nUmask:\t0022\n")
    ⟨[], ascii "\tcat", ascii "Umask:\t0022\n", rfl⟩
  refine ⟨hname, fun rounds => ?_⟩
  rw [hk, if_neg (by rw [hname]; exact fun h => absurd h.2 (by decide))]

/-! ## Numbers -/

/-- What may follow a number: nothing, or a blank. -/
def Ends (rest : Bytes) : Prop := rest = [] ∨ ∃ t, rest = chr ' ' :: t

theorem takeWhile_decimal (n : Nat) {rest : Bytes} (hrest : Ends rest) :
    (decimal n ++ rest).takeWhile isDigit = decimal n := by
  have hnone : rest.takeWhile isDigit = [] := by
    rcases hrest with rfl | ⟨t, rfl⟩
    · rfl
    · rw [List.takeWhile_cons, if_neg (by decide)]
  rw [List.takeWhile_append_of_pos fun c hc => forall_mem_decimal (p := (isDigit · = true)) (by decide) hc, hnone,
    List.append_nil]

theorem strtol_signed {v : Int} {rest : Bytes} (h₀ : -2 ^ 63 ≤ v) (h₁ : v < 2 ^ 63) (hrest : Ends rest) :
    strtol (signed v ++ rest) = v := by
  have hdigits := takeWhile_decimal v.natAbs hrest
  have hvalue := foldl_decimal v.natAbs
  unfold strtol signed
  by_cases hv : v < 0
  · rw [if_pos hv, List.singleton_append, List.cons_append, List.dropWhile_cons, if_neg (by decide)]
    simp only [List.head?_cons, List.tail_cons, decide_true, true_or, if_true, hdigits, hvalue]
    omega
  · obtain ⟨c, ds, hcons⟩ := List.exists_cons_of_ne_nil (show decimal v.natAbs ≠ [] from by
      rw [decimal, ne_eq, List.map_eq_nil_iff]
      exact Nat.toDigits_ne_nil)
    obtain ⟨hspace, hminus, hplus⟩ : isSpace c = false ∧ c ≠ chr '-' ∧ c ≠ chr '+' :=
      forall_mem_decimal (p := fun c => isSpace c = false ∧ c ≠ chr '-' ∧ c ≠ chr '+') (by decide)
        (hcons ▸ List.mem_cons_self)
    rw [if_neg hv, List.nil_append]
    rw [hcons] at hdigits hvalue ⊢
    rw [List.cons_append] at hdigits ⊢
    rw [List.dropWhile_cons, if_neg (by rw [hspace]; decide)]
    simp only [List.head?_cons, Option.some.injEq, hminus, hplus, decide_false, Bool.false_eq_true, or_self, if_false,
      hdigits, hvalue]
    omega

/-! ## Fields -/

def joined : List Bytes → Bytes
  | [] => []
  | f :: fs => f ++ fs.flatMap (chr ' ' :: ·)

theorem joined_cons_cons (f g : Bytes) (fs : List Bytes) :
    joined (f :: g :: fs) = f ++ chr ' ' :: joined (g :: fs) := by
  rw [joined, joined, List.flatMap_cons, List.cons_append]

theorem ends_joined (f : Bytes) (fs : List Bytes) : ∃ rest, joined (f :: fs) = f ++ rest ∧ Ends rest := by
  refine ⟨_, rfl, ?_⟩
  cases fs with
  | nil => exact .inl rfl
  | cons g fs => exact .inr ⟨_, rfl⟩

/-- A piece that is the whole rest of the string. -/
def whole (text : Bytes) : Piece := ⟨text, text.length⟩

theorem removePrefix_whole {s t : Bytes} (hlen : (s ++ t).length < 2 ^ 31) {n : Int} (hn : n = s.length) :
    (whole (s ++ t)).removePrefix n = .ok (whole t) := by
  rw [List.length_append] at hlen
  unfold Piece.removePrefix whole
  simp only [hn, List.length_append]
  rw [check_of ⟨by omega, by omega⟩, ok_bind, int_of ⟨by omega, by omega⟩, ok_bind, Int.toNat_natCast, List.drop_left,
    pure_eq_ok]
  congr 2
  omega

theorem next_whole {f t : Bytes} (hf : chr ' ' ∉ f) (hlen : (f ++ chr ' ' :: t).length < 2 ^ 31) :
    next (whole (f ++ chr ' ' :: t)) = .ok (whole t) := by
  have hsize : (((f ++ chr ' ' :: t).length : Int) % 2 ^ 64).toNat = (f ++ chr ' ' :: t).length := by omega
  have hsplit : f ++ chr ' ' :: t = (f ++ [chr ' ']) ++ t := by rw [List.append_assoc, List.singleton_append]
  have hsp : f.length < (f ++ chr ' ' :: t).length := by rw [List.length_append, List.length_cons]; omega
  have hremove : (whole (f ++ chr ' ' :: t)).removePrefix (toInt (f.length + 1)) = .ok (whole t) := by
    rw [hsplit] at hlen ⊢
    apply removePrefix_whole hlen
    rw [toInt_of (by omega) (by rw [← hsplit] at hlen; omega), List.length_append, List.length_singleton]
    rfl
  unfold next
  simp only [whole, hsize, List.take_length, idxOf_mid hf]
  rw [if_pos hsp]
  exact hremove

theorem skip_joined {fs : List Bytes} (hfs : ∀ f ∈ fs, chr ' ' ∉ f) (hlen : (joined fs).length < 2 ^ 31) {n : Nat}
    (hn : n < fs.length) : skip n (whole (joined fs)) = .ok (whole (joined (fs.drop n))) := by
  induction n generalizing fs with
  | zero => rfl
  | succ n ih =>
    match fs, hn with
    | f :: g :: fs, hn =>
      obtain ⟨hf, hfs⟩ := List.forall_mem_cons.1 hfs
      rw [joined_cons_cons] at hlen ⊢
      rw [skip, next_whole hf hlen, ok_bind, List.drop_succ_cons]
      apply ih hfs
      · rw [List.length_append, List.length_cons] at hlen
        omega
      · exact Nat.lt_of_succ_lt_succ hn

theorem length_joined_drop_le (fs : List Bytes) (n : Nat) : (joined (fs.drop n)).length ≤ (joined fs).length := by
  induction n generalizing fs with
  | zero => exact Nat.le_refl _
  | succ n ih =>
    match fs with
    | [] => exact Nat.le_refl _
    | [f] =>
      rw [List.drop_succ_cons, List.drop_nil]
      exact Nat.zero_le _
    | f :: g :: fs =>
      have hle := ih (g :: fs)
      rw [List.drop_succ_cons, joined_cons_cons, List.length_append, List.length_cons]
      omega

/-! ## Lines -/

/-- What a line of `stat` says: the command may be any text, the fields begin with the fourth. -/
structure StatLine where
  pid : Nat
  comm : Bytes
  state : Byte
  fields : List Bytes
  comm_nul : 0 ∉ comm
  state_plain : state ≠ chr ')'
  fields_plain : ∀ f ∈ fields, chr ' ' ∉ f ∧ chr ')' ∉ f
  fields_length : 12 ≤ fields.length

namespace StatLine

variable (l : StatLine)

def text : Bytes := decimal l.pid ++ ascii " (" ++ l.comm ++ ascii ") " ++ [l.state] ++ ascii " " ++ joined l.fields

def before : Bytes := decimal l.pid ++ [chr ' ']

def behind : Bytes := chr ' ' :: l.state :: chr ' ' :: joined l.fields

theorem text_eq : l.text = (l.before ++ chr '(' :: l.comm) ++ chr ')' :: l.behind := by
  have hopen : ascii " (" = [chr ' ', chr '('] := rfl
  have hclose : ascii ") " = [chr ')', chr ' '] := rfl
  have hblank : ascii " " = [chr ' '] := rfl
  simp [text, before, behind, hopen, hclose, hblank]

theorem open_notMem : chr '(' ∉ l.before := by
  rw [before, List.mem_append, not_or]
  exact ⟨fun h => forall_mem_decimal (p := (· ≠ chr '(')) (by decide) h rfl, by decide⟩

theorem close_notMem_joined {fs : List Bytes} (hfs : ∀ f ∈ fs, chr ')' ∉ f) : chr ')' ∉ joined fs := by
  cases fs with
  | nil => exact List.not_mem_nil
  | cons f fs =>
    obtain ⟨hf, hfs⟩ := List.forall_mem_cons.1 hfs
    rw [joined, List.mem_append, not_or]
    refine ⟨hf, fun h => ?_⟩
    obtain ⟨g, hg, h⟩ := List.mem_flatMap.1 h
    rcases List.mem_cons.1 h with h | h
    · exact absurd h (by decide)
    · exact hfs g hg h

theorem close_notMem : chr ')' ∉ l.behind := by
  have hblank : chr ')' ≠ chr ' ' := by decide
  have hfields := close_notMem_joined fun f hf => (l.fields_plain f hf).2
  simp [behind, hblank, l.state_plain.symm, hfields]

theorem length_text : l.text.length = (l.before.length + (l.comm.length + 1)) + (l.behind.length + 1) := by
  rw [text_eq, List.length_append, List.length_append, List.length_cons, List.length_cons]

/-- The brackets that are found are those around the command. -/
theorem procname_text : ProcessInfo.procname l.text = some ⟨l.before.length + 1, toInt l.comm.length⟩ := by
  have hlen := l.length_text
  have hopen : l.text.idxOf (chr '(') = l.before.length := by
    rw [text_eq, List.append_assoc, List.cons_append, idxOf_mid l.open_notMem]
  have hclose : l.text.reverse.idxOf (chr ')') = l.behind.length := by
    rw [text_eq, List.reverse_append, List.reverse_cons, List.append_assoc, List.singleton_append,
      idxOf_mid (by rw [List.mem_reverse]; exact l.close_notMem), List.length_reverse]
  have hrp : l.text.length - 1 - l.behind.length = l.before.length + (l.comm.length + 1) := by omega
  unfold ProcessInfo.procname
  simp only [hopen, hclose, hrp]
  rw [if_pos ⟨by omega, by omega, by omega⟩]
  congr 3
  omega

theorem asString_text (hlen : l.text.length < 2 ^ 31) {name : ProcessInfo.Name}
    (h : ProcessInfo.procname l.text = some name) :
    name.asString l.text = .ok l.comm := by
  have htext := l.length_text
  rw [procname_text, Option.some.injEq] at h
  have hcast : toInt l.comm.length = l.comm.length := toInt_of (by omega) (by omega)
  have hdrop : l.text.drop (l.before.length + 1) = l.comm ++ chr ')' :: l.behind := by
    rw [text_eq, List.append_assoc, List.cons_append, drop_mid]
  rw [← h, ProcessInfo.Name.asString]
  simp only [hcast]
  rw [if_neg (by omega), hdrop, Int.toNat_natCast, List.take_left, pure_eq_ok]

def close : Nat := l.before.length + (l.comm.length + 1)

theorem length_front : (l.before ++ chr '(' :: l.comm).length = l.close := by
  rw [List.length_append, List.length_cons, close]

theorem charAt_close : charAt l.text l.close = .ok (chr ')') := by
  rw [text_eq, ← length_front]
  exact charAt_append _ _

/-- The line with a NUL in the place of its last bracket. -/
def nulled : Bytes := (l.before ++ chr '(' :: l.comm) ++ 0 :: l.behind

theorem set_text : l.text.set l.close 0 = l.nulled := by
  rw [text_eq, ← length_front, List.set_append_right _ _ (Nat.le_refl _), Nat.sub_self, List.set_cons_zero, nulled]

theorem charAt_state : charAt l.nulled (l.close + 2) = .ok l.state := by
  have hchar := charAt_append (c := l.state)
    (l.before ++ chr '(' :: l.comm ++ [0, chr ' ']) (chr ' ' :: joined l.fields)
  rw [List.length_append, length_front, List.append_assoc] at hchar
  exact hchar

theorem cString_name : cString (l.nulled.drop (l.before.length + 1)) = l.comm := by
  have hcomm : ∀ c ∈ l.comm, (c != 0) = true := by
    intro c hc
    rw [bne_iff_ne]
    exact fun h => l.comm_nul (h ▸ hc)
  rw [nulled, List.append_assoc, List.cons_append, drop_mid, cString, List.takeWhile_append_of_pos hcomm,
    List.takeWhile_cons, if_neg (by decide), List.append_nil]

theorem length_joined_lt : (joined l.fields).length < l.text.length := by
  have hlen := l.length_text
  rw [behind, List.length_cons, List.length_cons, List.length_cons] at hlen
  omega

/-- The piece behind the state and its blank. -/
theorem removePrefix_nulled (hlen : l.text.length < 2 ^ 31) :
    Piece.removePrefix ⟨l.nulled, toInt l.nulled.length⟩ (toInt ((l.close + 2 : Nat) + 2)) =
      .ok (whole (joined l.fields)) := by
  have htext : l.nulled.length = l.text.length := by rw [← set_text, List.length_set]
  have hsplit : l.nulled = (l.before ++ chr '(' :: l.comm ++ [0, chr ' ', l.state, chr ' ']) ++ joined l.fields := by
    rw [nulled, behind, List.append_assoc (l.before ++ chr '(' :: l.comm)]
    rfl
  have hfirst : (l.before ++ chr '(' :: l.comm ++ [0, chr ' ', l.state, chr ' ']).length = l.close + 4 := by
    rw [List.length_append, length_front]
    rfl
  have hclose : l.close + 4 ≤ l.nulled.length := by
    rw [hsplit, List.length_append, hfirst]
    omega
  rw [toInt_of (by omega) (by omega), toInt_of (by omega) (by omega)]
  change (whole l.nulled).removePrefix _ = _
  rw [← htext] at hlen
  rw [hsplit] at hlen ⊢
  apply removePrefix_whole hlen
  rw [hfirst]
  omega

theorem getCpuTime_fields (ticks : Int) {u v : Int} (hlen : (joined l.fields).length < 2 ^ 31)
    (hu : l.fields[10]? = some (signed u)) (hv : l.fields[11]? = some (signed v))
    (hu' : -2 ^ 63 ≤ u ∧ u < 2 ^ 63) (hv' : -2 ^ 63 ≤ v ∧ v < 2 ^ 63) :
    getCpuTime ticks (whole (joined l.fields)) =
      .ok ⟨double (double u / double ticks), double (double v / double ticks)⟩ := by
  have hfields : ∀ f ∈ l.fields, chr ' ' ∉ f := fun f hf => (l.fields_plain f hf).1
  have hcount := l.fields_length
  have hdrop : l.fields.drop 10 = signed u :: signed v :: l.fields.drop 12 := by
    obtain ⟨h₁₀, hu⟩ := List.getElem?_eq_some_iff.1 hu
    obtain ⟨h₁₁, hv⟩ := List.getElem?_eq_some_iff.1 hv
    rw [List.drop_eq_getElem_cons h₁₀, List.drop_eq_getElem_cons h₁₁, hu, hv]
  have hle := length_joined_drop_le l.fields 10
  have hskip := skip_joined hfields hlen (show 10 < l.fields.length by omega)
  rw [hdrop, joined_cons_cons] at hle hskip
  have hnext := next_whole (hfields _ (List.mem_of_getElem? hu)) (Nat.lt_of_le_of_lt hle hlen)
  obtain ⟨rest, hrest, hends⟩ := ends_joined (signed v) (l.fields.drop 12)
  have hutime : strtol (whole (signed u ++ chr ' ' :: joined (signed v :: l.fields.drop 12))).text = u :=
    strtol_signed hu'.1 hu'.2 (.inr ⟨_, rfl⟩)
  have hstime : strtol (whole (joined (signed v :: l.fields.drop 12))).text = v := by
    rw [hrest]
    exact strtol_signed hv'.1 hv'.2 hends
  unfold getCpuTime
  simp only [hskip, hnext, ok_bind, hutime, hstime, pure_eq_ok]

theorem threadStat_text (ticks : Int) {u v : Int} (hlen : l.text.length < 2 ^ 31)
    (hu : l.fields[10]? = some (signed u)) (hv : l.fields[11]? = some (signed v))
    (hu' : -2 ^ 63 ≤ u ∧ u < 2 ^ 63) (hv' : -2 ^ 63 ≤ v ∧ v < 2 ^ 63) :
    threadStat ticks l.text =
      .ok ⟨l.comm, l.state, double (double u / double ticks), double (double v / double ticks)⟩ := by
  have htext := l.length_text
  have hcast : toInt l.comm.length = l.comm.length := toInt_of (by omega) (by omega)
  have hrp : (((l.before.length + 1 : Nat) : Int) + l.comm.length).toNat = l.close := by
    rw [close]
    omega
  have htime := l.getCpuTime_fields ticks (Nat.lt_trans l.length_joined_lt hlen) hu hv hu' hv'
  unfold threadStat
  simp only [l.procname_text, hcast, hrp, l.charAt_close, l.set_text, l.removePrefix_nulled hlen, htime, l.charAt_state,
    l.cString_name, ok_bind, pure_eq_ok]
  rw [check_of (by omega), check_of trivial]
  rfl

end StatLine

/-- A line shorter than `2 ^ 31` bytes gives its command, and the user and system times of the fields 14 and 15. -/
theorem stat_line_parsed (l : StatLine) (ticks : Int) {u v : Int} (hlen : l.text.length < 2 ^ 31)
    (hu : l.fields[10]? = some (signed u)) (hv : l.fields[11]? = some (signed v))
    (hu' : -2 ^ 63 ≤ u ∧ u < 2 ^ 63) (hv' : -2 ^ 63 ≤ v ∧ v < 2 ^ 63) :
    (∃ name, ProcessInfo.procname l.text = some name ∧ name.asString l.text = .ok l.comm) ∧
      threadStat ticks l.text =
        .ok ⟨l.comm, l.state, double (double u / double ticks), double (double v / double ticks)⟩ :=
  ⟨⟨_, l.procname_text, l.asString_text hlen l.procname_text⟩, l.threadStat_text ticks hlen hu hv hu' hv'⟩

theorem stat_line_parsed_brackets :
    threadStat 100 (ascii "7 (a) S 1) R 1 2 3 -4 5 6 7 8 9 10 250 50") =
      .ok ⟨ascii "a) S 1", chr 'R', double (double (250 : Int) / double (100 : Int)),
        double (double (50 : Int) / double (100 : Int))⟩ := by
  have hfields : ∀ f ∈ ["1", "2", "3", "-4", "5", "6", "7", "8", "9", "10", "250", "50"].map ascii,
      chr ' ' ∉ f ∧ chr ')' ∉ f := by
    decide
  obtain ⟨l, hl⟩ : ∃ l : StatLine, l = ⟨7, ascii "a) S 1", chr 'R', _, by decide, by decide, hfields, by decide⟩ :=
    ⟨_, rfl⟩
  have htext : l.text = ascii "7 (a) S 1) R 1 2 3 -4 5 6 7 8 9 10 250 50" := by
    simp only [hl, StatLine.text]
    decide
  have hparsed := (stat_line_parsed l 100 (u := 250) (v := 50) (by rw [htext]; decide)
    (by rw [hl]; rfl) (by rw [hl]; rfl) (by decide) (by decide)).2
  rw [htext, hl] at hparsed
  exact hparsed

/-- The length of a command of `2 ^ 32` bytes is zero as an `int`. -/
theorem huge_command_is_lost : ∃ l : StatLine, l.fields[10]? = some (signed 0) ∧ l.fields[11]? = some (signed 0) ∧
    l.comm ≠ [] ∧ ∃ name, ProcessInfo.procname l.text = some name ∧ name.asString l.text = .ok [] := by
  have hnul (n : Nat) : (0 : Byte) ∉ List.replicate n (chr 'a') :=
    fun h => absurd (List.eq_of_mem_replicate h) (by decide)
  have hcast : toInt (2 ^ 32 : Nat) = 0 := by decide
  generalize hn : 2 ^ 32 = n at hcast
  have hfields : ∀ f ∈ List.replicate 12 (ascii "0"), chr ' ' ∉ f ∧ chr ')' ∉ f := by decide
  refine ⟨⟨7, List.replicate n (chr 'a'), chr 'R', List.replicate 12 (ascii "0"),
    hnul n, by decide, hfields, by decide⟩, rfl, rfl, ?_, _, StatLine.procname_text _, ?_⟩
  · rw [ne_eq, List.replicate_eq_nil_iff]
    omega
  · simp only [ProcessInfo.Name.asString, List.length_replicate, hcast]
    rfl

/-! ## The page -/

/-- The file of a thread, with its two times. -/
structure ThreadFile where
  line : StatLine
  utime : Int
  stime : Int
  short : line.text.length < 2 ^ 31
  utime_field : line.fields[10]? = some (signed utime)
  stime_field : line.fields[11]? = some (signed stime)
  utime_long : -2 ^ 63 ≤ utime ∧ utime < 2 ^ 63
  stime_long : -2 ^ 63 ≤ stime ∧ stime < 2 ^ 63

def ThreadFile.stat (ticks : Int) (f : ThreadFile) : ThreadStat :=
  ⟨f.line.comm, f.line.state, double (double f.utime / double ticks), double (double f.stime / double ticks)⟩

/-- The row of a thread, or none. -/
def rowOf (ticks : Int) (file : Int × Option ThreadFile) : Bytes :=
  match file.2 with
  | none => []
  | some f => row file.1 (f.stat ticks)

theorem addRow_file (ticks : Int) (result : Bytes) (file : Int × Option ThreadFile) :
    addRow ticks result (file.1, file.2.map (·.line.text)) = .ok (result ++ rowOf ticks file) := by
  obtain ⟨tid, f⟩ := file
  cases f with
  | none => simp [addRow, rowOf]
  | some f =>
    have hstat := f.line.threadStat_text ticks f.short f.utime_field f.stime_field f.utime_long f.stime_long
    simp only [addRow, rowOf, Option.map_some, hstat, ok_bind, pure_eq_ok]
    rfl

/-- The page has a row for every thread whose file could be read, in their order. -/
theorem threads_files (ticks : Int) (files : List (Int × Option ThreadFile)) :
    threads ticks (files.map fun file => (file.1, file.2.map (·.line.text))) =
      .ok (ascii "  TID NAME             S    User Time  System Time\n" ++ files.flatMap (rowOf ticks)) := by
  unfold threads
  generalize ascii "  TID NAME             S    User Time  System Time\n" = result
  induction files generalizing result with
  | nil => simp
  | cons file files ih =>
    rw [List.map_cons, List.foldlM_cons, addRow_file, ok_bind, ih, List.flatMap_cons, List.append_assoc]

end ProcessInspector

end Zhengqi
