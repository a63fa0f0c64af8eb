import Zhengqi.HttpServerSound
import Zhengqi.HttpText

/-!
# Requests read as they were written

A header map, written as one `name: value` line for each entry in any order, is read back
as the same map, and the parser stops at the first byte behind the request.
-/

namespace Zhengqi

open Run

/-! ## The header map -/

namespace Headers

variable {m hs : Headers} {field value : Bytes}

/-- The keys of a `std::map` ascend. -/
def Sorted (m : Headers) : Prop := m.Pairwise fun h k => h.1 < k.1

instance (m : Headers) : Decidable m.Sorted := inferInstanceAs (Decidable (List.Pairwise _ _))

theorem set_perm : ∀ {m : Headers}, field ∉ m.map (·.1) → (m.set field value).Perm ((field, value) :: m)
  | [], _ => List.Perm.refl _
  | h :: m, hn => by
    rw [List.map_cons, List.mem_cons, not_or] at hn
    unfold set
    rw [if_neg hn.1]
    split
    · exact List.Perm.refl _
    · exact ((set_perm hn.2).cons h).trans (List.Perm.swap ..)

theorem Sorted.set : ∀ {m : Headers}, m.Sorted → field ∉ m.map (·.1) → (m.set field value).Sorted
  | [], _, _ => by simp [Headers.set, Sorted]
  | h :: m, hm, hn => by
    obtain ⟨hh, hm⟩ := List.pairwise_cons.mp hm
    rw [List.map_cons, List.mem_cons, not_or] at hn
    unfold Headers.set
    rw [if_neg hn.1]
    split
    · rename_i hlt
      refine List.pairwise_cons.mpr ⟨fun k hk => ?_, List.pairwise_cons.mpr ⟨hh, hm⟩⟩
      rcases List.mem_cons.mp hk with rfl | hk
      · exact hlt
      · exact List.lt_trans hlt (hh k hk)
    · rename_i hge
      have hgt : h.1 < field := by
        by_contra hle
        exact hn.1 (List.le_antisymm hle hge)
      refine List.pairwise_cons.mpr ⟨fun k hk => ?_, Sorted.set hm hn.2⟩
      rcases List.mem_cons.mp ((set_perm hn.2).mem_iff.mp hk) with rfl | hk
      · exact hgt
      · exact hh k hk

def insert (m : Headers) (h : Bytes × Bytes) : Headers := m.set h.1 h.2

theorem foldl_insert : ∀ {hs m : Headers}, m.Sorted → ((m ++ hs).map (·.1)).Nodup →
    (hs.foldl insert m).Sorted ∧ (hs.foldl insert m).Perm (m ++ hs)
  | [], m, hm, _ => by
    rw [List.append_nil]
    exact ⟨hm, List.Perm.refl _⟩
  | h :: hs, m, hm, hnd => by
    have hp : (m ++ h :: hs).Perm (h :: m ++ hs) := List.perm_middle
    rw [(hp.map _).nodup_iff, List.cons_append, List.map_cons, List.nodup_cons] at hnd
    have hn : h.1 ∉ m.map (·.1) := by
      intro hmem
      rw [List.map_append] at hnd
      exact hnd.1 (List.mem_append_left _ hmem)
    have hset := (set_perm hn : (m.set h.1 h.2).Perm _).append_right hs
    rw [List.foldl_cons]
    have hnd' : ((m.set h.1 h.2 ++ hs).map (·.1)).Nodup := by
      rw [(hset.map _).nodup_iff, List.cons_append, List.map_cons, List.nodup_cons]
      exact hnd
    obtain ⟨hsorted, hperm⟩ := foldl_insert (hm.set hn) hnd'
    exact ⟨hsorted, hperm.trans (hset.trans hp.symm)⟩

theorem Sorted.nodup (hm : m.Sorted) : (m.map (·.1)).Nodup := by
  rw [List.Nodup, List.pairwise_map]
  refine List.Pairwise.imp (fun {h k} hlt he => ?_) hm
  rw [he] at hlt
  exact List.lt_irrefl _ hlt

/-- The order in which the entries of a map are inserted does not matter. -/
theorem Sorted.foldl_perm (hm : m.Sorted) (hp : hs.Perm m) : hs.foldl insert [] = m := by
  have hnd : ((([] : Headers) ++ hs).map (·.1)).Nodup := (hp.map _).nodup_iff.mpr hm.nodup
  obtain ⟨hs', hp'⟩ := foldl_insert (m := []) List.Pairwise.nil hnd
  refine (hp'.trans hp).eq_of_pairwise (fun h k _ _ h₁ h₂ => ?_) hs' hm
  exact absurd h₂ (List.lt_asymm h₁)

end Headers

/-! ## Values -/

/-- No whitespace in front or behind. -/
def Trimmed (value : Bytes) : Prop := (∀ c ∈ value.head?, isspace c = false) ∧ ∀ c ∈ value.getLast?, isspace c = false

instance (value : Bytes) : Decidable (Trimmed value) := inferInstanceAs (Decidable (_ ∧ _))

theorem dropWhile_of_head {p : Byte → Bool} {bs : Bytes} (h : ∀ c ∈ bs.head?, p c = false) : bs.dropWhile p = bs := by
  cases bs with
  | nil => rfl
  | cons c bs => rw [List.dropWhile_cons_of_neg (by simp [h c rfl])]

theorem Trimmed.trim {value : Bytes} (h : Trimmed value) : trim (chr ' ' :: value) = value := by
  unfold Zhengqi.trim
  rw [List.dropWhile_cons_of_pos (by decide), dropWhile_of_head h.1, dropWhile_of_head, List.reverse_reverse]
  rw [List.head?_reverse]
  exact h.2

/-! ## Reading back -/

/-- The request is read back with its method, target, version and header map, and what follows
it stays in the buffer. -/
theorem parseRequest_reads_back (x : HttpText) (m : Headers) (hm : m.Sorted) (hv : ∀ h ∈ m, Trimmed h.2)
    (hx : x.headers.Perm (m.map fun h => (h.1, chr ' ' :: h.2))) (suffix : Bytes)
    (hfits : Buffer.kCheapPrepend + (x.bytes ++ suffix).length ≤ Buffer.maxSize) (t : Timestamp) :
    ∃ buf whole l, Buffer.ctor Buffer.kInitialSize = .ok buf ∧ buf.append (x.bytes ++ suffix) = .ok whole ∧
      HttpContext.parseRequest {} whole t = .ok l ∧ l.ok = true ∧ l.context.gotAll = true ∧
      l.context.request.untimed =
        { method := x.method, version := x.version, path := x.path, query := x.query, headers := m } ∧
      l.buf.readable = suffix := by
  have hp : (x.headers.map fun h => (h.1, trim h.2)).Perm m := by
    refine (hx.map _).trans ?_
    rw [List.map_map, List.map_congr_left (g := id) fun h hh => ?_, List.map_id]
    simp only [Function.comp, (hv h hh).trim, id]
  have hmap : x.request.headers = m := by
    rw [← hm.foldl_perm hp, List.foldl_map]
    rfl
  obtain ⟨buf, hbuf, hw, hr⟩ := HttpConnection.ctor_within
  obtain ⟨whole, hwhole, hww, hwr⟩ := hw.append (x.bytes ++ suffix) (by omega)
  rw [hr, List.nil_append] at hwr
  have hbs : whole.readable ++ [] = rendered x.lines ++ suffix := by
    rw [List.append_nil, hwr]
    rfl
  -- nothing is still to come, so that the parser does not wait
  obtain ⟨c, rest, hparses, hg, hreq, hrest⟩ := (x.reads.parses t hbs).resolve_right fun h => Nat.not_lt_zero _ h.1
  rcases HttpContext.parseRequest_parses (c := {}) rfl hww t with ⟨f, hp', -⟩ | ⟨l, hp', hl, -⟩
  · cases hp'.unique hparses
  · have heq := Except.ok.inj (hp'.unique hparses)
    rw [Prod.mk.injEq, Prod.mk.injEq] at heq
    obtain ⟨hc, hrest', hok⟩ := heq
    refine ⟨buf, whole, l, hbuf, hwhole, hl, hok, ?_, ?_, ?_⟩
    · simp [HttpContext.gotAll, hc, hg]
    · rw [hc, hreq, ← hmap]
      rfl
    · rw [hrest', ← hrest, List.append_nil]

/-- Two headers, not in the order of their names, one of them with an empty value. -/
theorem parseRequest_reads_back_two :
    ∃ buf whole l, Buffer.ctor Buffer.kInitialSize = .ok buf ∧
      buf.append (ascii "PUT /a?b=c HTTP/1.0\r\nX: y: z\r\nHost: \r\n\r\nmore") = .ok whole ∧
      HttpContext.parseRequest {} whole 5 = .ok l ∧ l.ok = true ∧ l.context.gotAll = true ∧
      l.context.request.untimed =
        { method := .kPut, version := .kHttp10, path := ascii "/a", query := ascii "?b=c",
          headers := [(ascii "Host", []), (ascii "X", ascii "y: z")] } ∧
      l.buf.readable = ascii "more" := by
  have hb : ascii "PUT /a?b=c HTTP/1.0\r\nX: y: z\r\nHost: \r\n\r\nmore" =
      (HttpText.mk .kPut (ascii "/a") (ascii "?b=c") .kHttp10 [(ascii "X", ascii " y: z"), (ascii "Host", ascii " ")]
        (by decide) (by decide) (by decide) (by decide) (by decide) (by decide)).bytes ++ ascii "more" := by
    decide +kernel
  rw [hb]
  exact parseRequest_reads_back _ _ (by decide +kernel) (by decide +kernel) (by decide +kernel) _ (by decide +kernel) _

end Zhengqi
