import Zhengqi.HttpServerSound
import Zhengqi.HttpText
import Mathlib.Algebra.GroupWithZero.Nat

/-!
# Pipelined requests

`onMessage` serves at most one request, and nothing serves what is left behind it
until more bytes arrive. `pipelined_requests_served`: the requests that are served
are the first ones of the stream in order, and all of them are exactly when the last
chunks are small enough for the last requests (`InTime`).
-/

namespace Zhengqi

open Run

/-! ## When the last request is served -/

/-- There are at least as many chunks as requests, and for every `i` the last `i` chunks
are no longer than the last `i` requests. -/
def InTime (requests chunks : List Nat) : Prop :=
  requests.length ≤ chunks.length ∧ ∀ i < requests.length,
    (chunks.drop (chunks.length - i)).sum ≤ (requests.drop (requests.length - i)).sum

instance (requests chunks : List Nat) : Decidable (InTime requests chunks) :=
  inferInstanceAs (Decidable (_ ∧ _))

section
variable {r c : Nat} {rs cs : List Nat}

theorem inTime_nil (cs : List Nat) : InTime [] cs := ⟨Nat.zero_le _, by simp⟩

theorem not_inTime_nil : ¬ InTime (r :: rs) [] := by
  rintro ⟨h, -⟩
  simp at h

-- the last i elements do not see the first one
theorem drop_length_cons {i : Nat} (h : i ≤ cs.length) :
    (c :: cs).drop ((c :: cs).length - i) = cs.drop (cs.length - i) := by
  rw [List.length_cons, Nat.succ_sub h, List.drop_succ_cons]

theorem sum_drop_le (n : Nat) : (cs.drop n).sum ≤ cs.sum := by
  have := congrArg List.sum (List.take_append_drop n cs)
  rw [List.sum_append] at this
  omega

theorem inTime_serve (h : cs.sum ≤ rs.sum) : InTime (r :: rs) (c :: cs) ↔ InTime rs cs := by
  unfold InTime
  simp only [List.length_cons, Nat.add_le_add_iff_right]
  refine and_congr_right fun hle => ⟨fun hi i hlt => ?_, fun hi i hlt => ?_⟩
  · have := hi i (by omega)
    rwa [← List.length_cons (a := c), ← List.length_cons (a := r), drop_length_cons (by omega),
      drop_length_cons (by omega)] at this
  · rw [← List.length_cons (a := c), ← List.length_cons (a := r), drop_length_cons (by omega),
      drop_length_cons (by omega)]
    by_cases hlast : i = rs.length
    · rw [hlast, Nat.sub_self]
      exact Nat.le_trans (sum_drop_le _) h
    · exact hi i (by omega)

theorem inTime_wait (h : rs.sum < cs.sum) : InTime (r :: rs) (c :: cs) ↔ InTime (r :: rs) cs := by
  unfold InTime
  constructor
  · rintro ⟨hle, hi⟩
    have hlt : rs.length < cs.length := by
      by_contra hn
      have heq : rs.length = cs.length := by
        simp only [List.length_cons] at hle
        omega
      have := hi rs.length (by simp)
      rw [drop_length_cons (by omega), drop_length_cons (Nat.le_refl _), heq, Nat.sub_self] at this
      exact absurd h (Nat.not_lt.mpr this)
    refine ⟨by simp only [List.length_cons]; omega, fun i hil => ?_⟩
    have := hi i hil
    simp only [List.length_cons] at hil
    rwa [drop_length_cons (by omega)] at this
  · rintro ⟨hle, hi⟩
    simp only [List.length_cons] at hle
    refine ⟨by simp only [List.length_cons]; omega, fun i hil => ?_⟩
    have := hi i hil
    simp only [List.length_cons] at hil
    rwa [drop_length_cons (by omega)]

end

/-! ## A stream of requests -/

namespace HttpConnection

variable {c : HttpConnection} {n : Nat} (httpCallback : HttpCallback)

/-- The requests `xs` are still to be served, from the unread bytes and the bytes to come. -/
def Owes (c : HttpConnection) (rest : Bytes) : List HttpText → Prop
  | [] => c.inputBuffer.readable ++ rest = []
  | x :: xs => ∃ ls, Reads x.request c.context ls ∧
      c.inputBuffer.readable ++ rest = rendered ls ++ xs.flatMap (·.bytes)

theorem owes_of_fresh {rest : Bytes} (hc : c.context = {}) : ∀ {xs : List HttpText},
    c.inputBuffer.readable ++ rest = xs.flatMap (·.bytes) → c.Owes rest xs
  | [], h => h
  | x :: _, h => ⟨x.lines, hc ▸ x.reads, h⟩

/-- A chunk serves the first request that is owed exactly when the bytes that come after it are
no more than those of the later requests. -/
theorem Owes.step {chunk : Chunk} {rest : Bytes} {x : HttpText} {xs : List HttpText} (hr : c.Ready n)
    (hn : Buffer.kCheapPrepend + n + chunk.data.length ≤ Buffer.maxSize) (h : c.Owes (chunk.data ++ rest) (x :: xs)) :
    ∃ c', step httpCallback c chunk = .ok c' ∧ c'.Ready (n + chunk.data.length) ∧
      ((rest.length ≤ (xs.flatMap (·.bytes)).length ∧ c'.Owes rest xs ∧
          c'.requests.map (·.untimed) = c.requests.map (·.untimed) ++ [x.request]) ∨
        ((xs.flatMap (·.bytes)).length < rest.length ∧ c'.Owes rest (x :: xs) ∧ c'.requests = c.requests)) := by
  obtain ⟨ls, hreads, hbs⟩ := h
  rw [← List.append_assoc] at hbs
  obtain ⟨hh, hready⟩ := hr.step httpCallback hn
  generalize HttpConnection.step httpCallback c chunk = r at hh hready
  rcases hreads.parses chunk.receiveTime hbs with ⟨x', bs', hp, hg, hreq, hrest⟩ | ⟨hlt, x', bs', ls',
    hp, hg, hreads', hrest⟩
  · cases hh with
    | stop hp' => exact absurd (hp.unique hp') (by simp)
    | reject hp' hq hr => exact absurd (hp.unique hp') (by simp)
    | wait hp' hs hq hr =>
      have he := hp.unique hp'
      simp only [Except.ok.injEq, Prod.mk.injEq, and_true] at he
      exact absurd (he.1 ▸ hg) hs
    | @request y c' rs hp' hs hx hq hr hn =>
      have he := hp.unique hp'
      simp only [Except.ok.injEq, Prod.mk.injEq, and_true] at he
      refine ⟨c', rfl, hready c' rfl, .inl ⟨?_, owes_of_fresh hx (he.2 ▸ hrest), ?_⟩⟩
      · rw [← hrest, List.length_append]
        omega
      · rw [hq, List.map_append, ← he.1, List.map_singleton, hreq]
  · cases hh with
    | stop hp' => exact absurd (hp.unique hp') (by simp)
    | reject hp' hq hr => exact absurd (hp.unique hp') (by simp)
    | @wait c' hp' hs hq hr =>
      have he := hp.unique hp'
      simp only [Except.ok.injEq, Prod.mk.injEq, and_true] at he
      exact ⟨c', rfl, hready c' rfl, .inr ⟨hlt, ⟨ls', he.1 ▸ hreads', he.2 ▸ hrest⟩, hq⟩⟩
    | request hp' hs hx hq hr hn =>
      have he := hp.unique hp'
      simp only [Except.ok.injEq, Prod.mk.injEq, and_true] at he
      exact absurd (he.1 ▸ hs) hg

theorem Owes.step_nil {chunk : Chunk} {rest : Bytes} (hr : c.Ready n)
    (hn : Buffer.kCheapPrepend + n + chunk.data.length ≤ Buffer.maxSize) (h : c.Owes (chunk.data ++ rest) []) :
    ∃ c', HttpConnection.step httpCallback c chunk = .ok c' ∧ c'.Ready (n + chunk.data.length) ∧ c'.Owes rest [] ∧
      c'.requests = c.requests := by
  have hbs : c.inputBuffer.readable ++ chunk.data = [] ∧ rest = [] := by
    rw [← List.append_eq_nil_iff, List.append_assoc]
    exact h
  have hp : Parses chunk.receiveTime c.context (c.inputBuffer.readable ++ chunk.data) (.ok (c.context, [], true)) := by
    rw [hbs.1]
    exact .wait rfl
  obtain ⟨hh, hready⟩ := hr.step httpCallback hn
  generalize HttpConnection.step httpCallback c chunk = r at hh hready
  cases hh with
  | stop hp' => exact absurd (hp.unique hp') (by simp)
  | reject hp' hq hr => exact absurd (hp.unique hp') (by simp)
  | @wait c' hp' hs hq hr' =>
    have he := hp.unique hp'
    simp only [Except.ok.injEq, Prod.mk.injEq, and_true] at he
    exact ⟨c', rfl, hready c' rfl, by rw [Owes, ← he.2, hbs.2]; rfl, hq⟩
  | request hp' hs hx hq hr' hn =>
    have he := hp.unique hp'
    simp only [Except.ok.injEq, Prod.mk.injEq, and_true] at he
    have hx := hr.expects
    rw [he.1] at hx
    simp [HttpContext.expects, hs] at hx

theorem Owes.run : ∀ {chunks : List Chunk} {c : HttpConnection} {n : Nat} {xs : List HttpText}, c.Ready n →
    Buffer.kCheapPrepend + n + (chunks.flatMap (·.data)).length ≤ Buffer.maxSize →
    c.Owes (chunks.flatMap (·.data)) xs →
    ∃ c' k, Run.run (HttpConnection.step httpCallback) c chunks = .ok c' ∧ k ≤ xs.length ∧
      c'.requests.map (·.untimed) = c.requests.map (·.untimed) ++ (xs.take k).map (·.request) ∧
      (k = xs.length ↔ InTime (xs.map (·.bytes.length)) (chunks.map (·.data.length)))
  | [], c, n, xs, _, _, _ => by
    refine ⟨c, 0, rfl, Nat.zero_le _, by simp, ?_⟩
    cases xs with
    | nil => exact ⟨fun _ => inTime_nil _, fun _ => rfl⟩
    | cons x xs => exact ⟨fun h => by simp at h, fun h => absurd h not_inTime_nil⟩
  | chunk :: chunks, c, n, xs, hr, hn, h => by
    rw [List.flatMap_cons] at hn h
    rw [List.length_append] at hn
    have hchunks : (chunks.flatMap (·.data)).length = (chunks.map (·.data.length)).sum := List.length_flatMap
    cases xs with
    | nil =>
      obtain ⟨c₁, hs, hr₁, ho, hq⟩ := Owes.step_nil httpCallback hr (by omega) h
      obtain ⟨c', k, hrun, hk, hreq, -⟩ := Owes.run hr₁ (by omega) ho
      refine ⟨c', k, (run_cons_ok _).mpr ⟨c₁, hs, hrun⟩, hk, by rw [hreq, hq], fun _ => inTime_nil _, fun _ => ?_⟩
      simpa using hk
    | cons x xs =>
      have hxs : (xs.flatMap (·.bytes)).length = (xs.map (·.bytes.length)).sum := List.length_flatMap
      obtain ⟨c₁, hs, hr₁, ⟨hle, ho, hq⟩ | ⟨hlt, ho, hq⟩⟩ := Owes.step httpCallback hr (by omega) h
      · obtain ⟨c', k, hrun, hk, hreq, hiff⟩ := Owes.run hr₁ (by omega) ho
        refine ⟨c', k + 1, (run_cons_ok _).mpr ⟨c₁, hs, hrun⟩, Nat.succ_le_succ hk, ?_, ?_⟩
        · rw [hreq, hq]
          simp
        · rw [List.map_cons, List.map_cons, inTime_serve (by omega), ← hiff]
          simp
      · obtain ⟨c', k, hrun, hk, hreq, hiff⟩ := Owes.run hr₁ (by omega) ho
        refine ⟨c', k, (run_cons_ok _).mpr ⟨c₁, hs, hrun⟩, hk, by rw [hreq, hq], ?_⟩
        rw [hiff, List.map_cons, List.map_cons, inTime_wait (by omega)]

end HttpConnection

open HttpConnection

/-- Well-formed requests, cut into chunks in any way: the requests that `httpCallback_` sees are
the first of them, in order and each once, and they are all of them exactly when the chunks
are in time. -/
theorem pipelined_requests_served (httpCallback : HttpCallback) (texts : List HttpText) (chunks : List Chunk)
    (hcut : chunks.flatMap (·.data) = texts.flatMap (·.bytes)) (hsize : (texts.flatMap (·.bytes)).length < 2 ^ 62) :
    ∃ c₀ c, onConnection = .ok c₀ ∧ run (step httpCallback) c₀ chunks = .ok c ∧
      c.requests.map (·.untimed) <+: texts.map (·.request) ∧
      (c.requests.map (·.untimed) = texts.map (·.request) ↔
        InTime (texts.map (·.bytes.length)) (chunks.map (·.data.length))) := by
  obtain ⟨c₀, hc₀, hready, hx, hbuf, hq, -⟩ := onConnection_ready
  have ho : c₀.Owes (chunks.flatMap (·.data)) texts := by
    refine owes_of_fresh hx ?_
    rw [hbuf, List.nil_append, hcut]
  have hn : Buffer.kCheapPrepend + 0 + (chunks.flatMap (·.data)).length ≤ Buffer.maxSize := by
    rw [hcut]
    unfold Buffer.kCheapPrepend Buffer.maxSize
    omega
  obtain ⟨c, k, hrun, hk, hreq, hiff⟩ := Owes.run httpCallback hready hn ho
  rw [hq, List.map_nil, List.nil_append] at hreq
  refine ⟨c₀, c, hc₀, hrun, ?_, ?_⟩
  · rw [hreq]
    exact (List.take_prefix _ _).map _
  · rw [← hiff, hreq]
    constructor
    · intro he
      have := congrArg List.length he
      simp only [List.length_map, List.length_take] at this
      omega
    · rintro rfl
      rw [List.take_length]

def getText (path : Bytes) (h : Unbroken path ∧ chr ' ' ∉ path ∧ chr '?' ∉ path) : HttpText where
  method := .kGet
  path := path
  query := []
  version := .kHttp11
  headers := [(ascii "Host", ascii " a")]
  method_valid := by decide
  version_valid := by decide
  path_plain := h
  query_plain := by decide
  query_mark := .inl rfl
  headers_plain := by decide

def okCallback : HttpCallback where
  respond _ resp := { resp with statusCode := .k200Ok, statusMessage := ascii "OK" }
  fits := by
    intro _ close
    cases close <;> decide

theorem pipelined_requests_served_three_chunks :
    ∃ c₀ c, onConnection = .ok c₀ ∧
      run (step okCallback) c₀ [⟨ascii "GET /a HTTP/1.1\r\nHo", 0⟩,
        ⟨ascii "st: a\r\n\r\nGET /b HTTP/1.1\r", 1⟩, ⟨ascii "\nHost: a\r\n\r\n", 2⟩] = .ok c ∧
      c.requests.map (·.untimed) =
        [(getText (ascii "/a") (by decide)).request, (getText (ascii "/b") (by decide)).request] := by
  obtain ⟨c₀, c, h₀, hrun, -, hiff⟩ := pipelined_requests_served okCallback
    [getText (ascii "/a") (by decide), getText (ascii "/b") (by decide)]
    [⟨ascii "GET /a HTTP/1.1\r\nHo", 0⟩, ⟨ascii "st: a\r\n\r\nGET /b HTTP/1.1\r", 1⟩, ⟨ascii "\nHost: a\r\n\r\n", 2⟩]
    (by decide +kernel) (by decide +kernel)
  exact ⟨c₀, c, h₀, hrun, hiff.mpr (by decide +kernel)⟩

/-- Two requests in one chunk: the second is not served. -/
theorem second_request_in_chunk_unserved :
    ∃ c₀ c, onConnection = .ok c₀ ∧
      (getText (ascii "/a") (by decide)).bytes ++ (getText (ascii "/b") (by decide)).bytes =
        ascii "GET /a HTTP/1.1\r\nHost: a\r\n\r\nGET /b HTTP/1.1\r\nHost: a\r\n\r\n" ∧
      run (step okCallback) c₀
        [⟨ascii "GET /a HTTP/1.1\r\nHost: a\r\n\r\nGET /b HTTP/1.1\r\nHost: a\r\n\r\n", 0⟩] = .ok c ∧
      c.requests.length = 1 ∧ c.inputBuffer.readable = (getText (ascii "/b") (by decide)).bytes := by
  obtain ⟨c₀, h₀, he⟩ := ok_of_map (show onConnection.map (fun c => (run (step okCallback) c
    [⟨ascii "GET /a HTTP/1.1\r\nHost: a\r\n\r\nGET /b HTTP/1.1\r\nHost: a\r\n\r\n", 0⟩]).map fun c =>
      (c.requests.length, c.inputBuffer.readable)) = .ok (.ok (1, (getText (ascii "/b") (by decide)).bytes))
      by decide +kernel)
  obtain ⟨c, hc, he⟩ := ok_of_map he
  rw [Prod.mk.injEq] at he
  exact ⟨c₀, c, h₀, by decide +kernel, hc, he.1, he.2⟩

end Zhengqi
