import Zhengqi.HttpText

/-!
# How the loop of `parseRequest` ends

The header section ends at the first line without a colon, be it empty or not
(`headers_end_iff`), and the loop ends unless it was entered with a request that is complete
(`parseRequest_ends_iff`).
-/

namespace Zhengqi

open Run

/-! ## The end of the header section -/

/-- The lines of `bs` that CR LF has come for. -/
def completeLines (bs : Bytes) : List Bytes :=
  match h : Buffer.searchCRLF bs with
  | none => []
  | some n => bs.take n :: completeLines (bs.drop (n + 2))
  termination_by bs.length
  decreasing_by
    have := Buffer.searchCRLF_length h
    rw [List.length_drop]
    omega

theorem completeLines_none {bs : Bytes} (h : Buffer.searchCRLF bs = none) : completeLines bs = [] := by
  rw [completeLines]
  split
  · rfl
  · simp_all

theorem completeLines_some {bs : Bytes} {n : Nat} (h : Buffer.searchCRLF bs = some n) :
    completeLines bs = bs.take n :: completeLines (bs.drop (n + 2)) := by
  rw [completeLines]
  split
  · simp_all
  · rename_i m hm
    rw [h] at hm
    cases hm
    rfl

theorem Buffer.searchCRLF_cut :
    ∀ {bs : Bytes} {n : Nat}, searchCRLF bs = some n → bs = bs.take n ++ kCRLF ++ bs.drop (n + 2)
  | [], n, h => by cases h
  | c :: bs, n, h => by
    unfold searchCRLF at h
    split at h
    · rename_i hp
      cases h
      obtain ⟨rest, hrest⟩ := List.isPrefixOf_iff_prefix.mp hp
      rw [← hrest]
      simp [kCRLF]
    · obtain ⟨m, hm, rfl⟩ := Option.map_eq_some_iff.mp h
      have ih := searchCRLF_cut hm
      rw [show m + 1 + 2 = m + 2 + 1 by omega, List.take_succ_cons, List.drop_succ_cons, List.cons_append,
        List.cons_append, ← ih]

def isHeader (line : Bytes) : Bool := chr ':' ∈ line

theorem HttpContext.line_headers {c : HttpContext} {t : Timestamp} {line : Bytes}
    {r : Except Fault (HttpContext × Bool)} (hc : c.state = .kExpectHeaders) (hr : c.line t line = r) :
    ∃ c', r = .ok (c', true) ∧ c'.state = if isHeader line then .kExpectHeaders else .kGotAll := by
  subst hr
  by_cases h : chr ':' ∈ line
  · have hcolon : line.idxOf (chr ':') ≠ line.length := Nat.ne_of_lt (List.idxOf_lt_length_of_mem h)
    refine ⟨{ c with request := c.request.addHeader line (line.idxOf (chr ':')) }, ?_, ?_⟩
    · simp [HttpContext.line, hc, hcolon]
    · simp [isHeader, h, hc]
  · have hcolon : line.idxOf (chr ':') = line.length := List.idxOf_of_notMem h
    refine ⟨{ c with state := .kGotAll }, ?_, ?_⟩
    · simp [HttpContext.line, hc, hcolon]
    · simp [isHeader, h]

/-- From the headers on, the lines up to the first one without a colon are taken, or else all of them. -/
theorem Parses.headers {t : Timestamp} {c : HttpContext} {bs : Bytes} {r : Except Fault (HttpContext × Bytes × Bool)}
    (h : Parses t c bs r) (hc : c.state = .kExpectHeaders) :
    ∃ c' rest ls, r = .ok (c', rest, true) ∧ bs = rendered ls ++ rest ∧ ls <+: completeLines bs ∧
      ((c'.state = .kExpectHeaders ∧ (completeLines bs).find? (!isHeader ·) = none) ∨
        (c'.state = .kGotAll ∧ ∃ last, ls.getLast? = some last ∧ (completeLines bs).find? (!isHeader ·) =
          some last)) := by
  induction h with
  | @wait c bs h =>
    refine ⟨c, bs, [], rfl, rfl, List.nil_prefix, .inl ⟨hc, ?_⟩⟩
    rw [completeLines_none h, List.find?_nil]
  | @stop c bs n f h hl =>
    obtain ⟨c', hr, -⟩ := HttpContext.line_headers hc hl
    cases hr
  | @reject c c' bs n h hl =>
    obtain ⟨c', hr, -⟩ := HttpContext.line_headers hc hl
    cases hr
  | @got c c' bs n h hl hg =>
    obtain ⟨c', hr, hs⟩ := HttpContext.line_headers hc hl
    cases hr
    have hh : isHeader (bs.take n) = false := by
      by_contra hh
      simp [hh, hg] at hs
    refine ⟨c', _, [bs.take n], rfl, ?_, ?_, .inr ⟨hg, bs.take n, rfl, ?_⟩⟩
    · simpa [rendered] using Buffer.searchCRLF_cut h
    · simp [completeLines_some h]
    · simp [completeLines_some h, hh]
  | @more c c' bs n r h hl hg hp ih =>
    obtain ⟨c', hr, hs⟩ := HttpContext.line_headers hc hl
    cases hr
    have hh : isHeader (bs.take n) = true := by
      by_contra hh
      simp [hh, hg] at hs
    rw [if_pos hh] at hs
    obtain ⟨d, rest, ls, rfl, hbs, hpre, hend⟩ := ih hs
    refine ⟨d, rest, bs.take n :: ls, rfl, ?_, ?_, ?_⟩
    · rw [rendered_cons, List.append_assoc, ← hbs]
      exact Buffer.searchCRLF_cut h
    · rw [completeLines_some h]
      exact List.cons_prefix_cons.2 ⟨rfl, hpre⟩
    · rw [completeLines_some h, List.find?_cons_of_neg (by simp [hh])]
      rcases hend with hend | ⟨hd, last, hlast, hfind⟩
      · exact .inl hend
      · exact .inr ⟨hd, last, by simp [List.getLast?_cons, hlast], hfind⟩

/-- The header section ends at an empty line exactly if no line without a colon comes before it. -/
theorem headers_end_iff {c : HttpContext} {buf : Buffer} (hc : c.state = .kExpectHeaders)
    (hb : buf.WF) (t : Timestamp) :
    ∃ l ls, c.parseRequest buf t = .ok l ∧ buf.readable = rendered ls ++ l.buf.readable ∧
      ls <+: completeLines buf.readable ∧
      ((l.context.state = .kGotAll → ls.getLast? = some []) ↔
        ∀ line ∈ (completeLines buf.readable).find? (!isHeader ·), line = []) := by
  have hexp : c.expects = true := by simp [HttpContext.expects, hc]
  have hw : buf.Within buf.writerIndex := ⟨hb, Nat.le_add_left ..⟩
  rcases HttpContext.parseRequest_parses hexp hw t with ⟨f, hp, -⟩ | ⟨l, hp, hl, -⟩
  · obtain ⟨c', rest, ls, hr, -⟩ := hp.headers hc
    cases hr
  · obtain ⟨c', rest, ls, hr, hbs, hpre, hend⟩ := hp.headers hc
    simp only [Except.ok.injEq, Prod.mk.injEq] at hr
    obtain ⟨rfl, rfl, -⟩ := hr
    refine ⟨l, ls, hl, hbs, hpre, ?_⟩
    rcases hend with ⟨hs, hfind⟩ | ⟨hs, last, hlast, hfind⟩
    · simp [hs, hfind]
    · simp [hs, hlast, hfind]

/-- A header line is followed by the empty one. -/
theorem headers_end_iff_host : ∃ l ls, HttpContext.parseRequest { state := .kExpectHeaders }
    ⟨List.replicate 8 0 ++ ascii "Host: a\r\n\r\n", 8, 19⟩ 0 = .ok l ∧
      ascii "Host: a\r\n\r\n" = rendered ls ++ l.buf.readable ∧
      (l.context.state = .kGotAll → ls.getLast? = some []) := by
  have hb : Buffer.WF ⟨List.replicate 8 0 ++ ascii "Host: a\r\n\r\n", 8, 19⟩ := by
    constructor <;> decide
  obtain ⟨l, ls, hl, hls, -, hiff⟩ := headers_end_iff (c := { state := .kExpectHeaders }) rfl hb 0
  refine ⟨l, ls, hl, hls, hiff.2 ?_⟩
  have hlines : completeLines (ascii "Host: a\r\n\r\n") = [ascii "Host: a", []] := by
    rw [completeLines_some (n := 7) (by decide), completeLines_some (n := 0) (by decide),
      completeLines_none (by decide)]
    rfl
  rw [show Buffer.readable _ = ascii "Host: a\r\n\r\n" by decide, hlines]
  decide

/-- A line without a colon completes the request, and the next one starts at what follows it. -/
theorem line_without_colon_ends : ∃ l, HttpContext.parseRequest { state := .kExpectHeaders }
    ⟨List.replicate 8 0 ++ ascii "Host\r\nA: b\r\n\r\n", 8, 22⟩ 0 = .ok l ∧ l.context.state = .kGotAll ∧
      ascii "Host\r\nA: b\r\n\r\n" = rendered [ascii "Host"] ++ l.buf.readable := by
  refine ⟨⟨{ state := .kGotAll }, ⟨List.replicate 8 0 ++ ascii "Host\r\nA: b\r\n\r\n", 14, 22⟩, true, false⟩, rfl,
    rfl, ?_⟩
  decide

/-! ## Rounds of the loop -/

/-- The contexts that calls of `parseRequest` and `reset` lead to. -/
inductive HttpContext.Reachable : HttpContext → Prop
  | init : Reachable {}
  | parse {c : HttpContext} {buf : Buffer} {t : Timestamp} {l : ParseLoop} (h : Reachable c) (hb : buf.WF)
      (hl : c.parseRequest buf t = .ok l) : Reachable l.context
  | reset {c : HttpContext} (h : Reachable c) : Reachable c.reset

namespace ParseLoop

variable {t : Timestamp} {l m k : ParseLoop}

inductive Rounds (t : Timestamp) (l : ParseLoop) : ParseLoop → Prop
  | refl : Rounds t l l
  | round {m k : ParseLoop} (h : Rounds t l m) (hm : m.hasMore = true) (hk : m.step t = .ok k) : Rounds t l k

/-- A round from `m` to `k` is the last one, or takes a line off the buffer. -/
def Progress (m k : ParseLoop) : Prop := k.hasMore = false ∨ k.buf.readableBytes + 2 ≤ m.buf.readableBytes

theorem step_gotAll (h : l.context.state = .kGotAll) : l.step t = .ok l := by
  simp [step, h]

theorem loop_gotAll (h : l.context.state = .kGotAll) (hm : l.hasMore = true) (n : Nat) :
    loop t n l = .error .parseRequest := by
  induction n with
  | zero => rfl
  | succ n ih => simp [loop, step_gotAll h, ok_bind, hm, ih]

/-- Where a line is expected and the loop goes on. -/
structure Goes (l : ParseLoop) : Prop where
  expects : l.context.expects = true
  ok : l.ok = true
  wf : l.buf.WF

theorem Goes.step (h : Goes l) (hm : l.hasMore = true) (hk : l.step t = .ok k) :
    Progress l k ∧ (k.hasMore = true → Goes k) := by
  cases hf : l.buf.findCRLF with
  | none =>
    rw [step_wait h.expects hf] at hk
    cases hk
    simp [Progress]
  | some n =>
    cases hl : l.context.line t (l.buf.readable.take n) with
    | error f =>
      rw [step_stop hf hl] at hk
      cases hk
    | ok r =>
      obtain ⟨c, ok⟩ := r
      cases ok with
      | false =>
        rw [step_reject h.expects hf hl] at hk
        cases hk
        simp [Progress, next]
      | true =>
        have hw : l.buf.Within l.buf.writerIndex := ⟨h.wf, Nat.le_add_left ..⟩
        obtain ⟨buf, hstep, hbuf, hr⟩ := step_line h.expects h.ok hm hw hf hl
        rw [hstep] at hk
        cases hk
        constructor
        · right
          have hlen := Buffer.searchCRLF_length hf
          show buf.readableBytes + 2 ≤ _
          rw [← hbuf.wf.length_readable, ← h.wf.length_readable, hr, List.length_drop]
          omega
        · intro hmore
          refine ⟨?_, rfl, hbuf.wf⟩
          rcases HttpContext.line_expects h.expects hl with he | ⟨hg, -⟩
          · exact he
          · simp [next, hg] at hmore

theorem Rounds.goes (h : Rounds t l m) (hl : Goes l) : m.hasMore = true → Goes m := by
  induction h with
  | refl => exact fun _ => hl
  | round h hm hk ih => exact ((ih hm).step hm hk).2

end ParseLoop

namespace HttpContext

variable {c : HttpContext} {t : Timestamp}

theorem processRequestLine_stops (r : HttpRequest) (line : Bytes) :
    Stops (· = .setMethod) (processRequestLine r line) := by
  unfold processRequestLine HttpRequest.setMethod
  apply Stops.ite
  · intro _
    apply Stops.bind
    · exact check_stops (fun _ => rfl) fun _ => Stops.ok _
    · intro _ _
      repeat' first | exact Stops.ok _ | refine Stops.ite (fun _ => ?_) fun _ => ?_
  · exact fun _ => Stops.ok _

theorem line_stops (c : HttpContext) (t : Timestamp) (line : Bytes) : Stops (· = .setMethod) (c.line t line) := by
  unfold HttpContext.line
  split
  · exact (processRequestLine_stops _ _).bind fun _ _ => Stops.ok _
  · exact Stops.ok _
  · exact Stops.ok _
  · exact Stops.ok _

end HttpContext

theorem Parses.error_eq {t : Timestamp} {c : HttpContext} {bs : Bytes} {r : Except Fault (HttpContext × Bytes × Bool)}
    {f : Fault} (h : Parses t c bs r) (hr : r = .error f) : f = .setMethod := by
  induction h with
  | stop h hl =>
    cases hr
    exact HttpContext.line_stops _ _ _ _ hl
  | more h hl hg hp ih => exact ih hr
  | _ => cases hr

namespace HttpContext

variable {c : HttpContext} {buf : Buffer}

theorem parseRequest_returns (hc : c.expects = true) (hb : buf.WF) (t : Timestamp) :
    c.parseRequest buf t = .error .setMethod ∨
      ∃ l, c.parseRequest buf t = .ok l ∧ (l.context.expects = true ∨ l.context.state = .kGotAll) := by
  have hw : buf.Within buf.writerIndex := ⟨hb, Nat.le_add_left ..⟩
  rcases parseRequest_parses hc hw t with ⟨f, hp, hf⟩ | ⟨l, -, hl, -, hs⟩
  · left
    rw [hf, hp.error_eq rfl]
  · right
    exact ⟨l, hl, hs.imp_right And.left⟩

theorem Reachable.expects (h : c.Reachable) : c.expects = true ∨ c.state = .kGotAll := by
  induction h with
  | init => simp [HttpContext.expects]
  | @parse c buf t l h hb hl ih =>
    rcases ih with hc | hc
    · rcases parseRequest_returns hc hb t with he | ⟨l', hl', hs⟩
      · rw [he] at hl
        cases hl
      · rw [hl'] at hl
        cases hl
        exact hs
    · rw [parseRequest, ParseLoop.loop_gotAll hc rfl] at hl
      cases hl
  | reset h ih => simp [HttpContext.reset, HttpContext.expects]

/-- The loop ends, with a line taken in each round but the last, exactly if the request was not
complete when it was entered. It then returns, unless the assertion of `setMethod` fails. -/
theorem parseRequest_ends_iff (h : c.Reachable) (hb : buf.WF) (t : Timestamp) :
    (((∃ n, ParseLoop.loop t n { context := c, buf } ≠ .error .parseRequest) ∧
        ∀ m k, ParseLoop.Rounds t { context := c, buf } m → m.hasMore = true → m.step t = .ok k → m.Progress k) ↔
      c.state ≠ .kGotAll) ∧
    (c.state ≠ .kGotAll → c.parseRequest buf t = .error .setMethod ∨ ∃ l, c.parseRequest buf t = .ok l) := by
  by_cases hc : c.state = .kGotAll
  · simp only [hc, ne_eq, not_true_eq_false, iff_false, false_implies, and_true]
    rintro ⟨⟨n, hn⟩, -⟩
    exact hn (ParseLoop.loop_gotAll hc rfl n)
  · have hexp : c.expects = true := h.expects.resolve_right hc
    have hret := parseRequest_returns hexp hb t
    refine ⟨iff_of_true ⟨⟨buf.readableBytes + 1, ?_⟩, ?_⟩ hc, ?_⟩
    · rw [← parseRequest]
      rcases hret with he | ⟨l, hl, -⟩
      · simp [he]
      · simp [hl]
    · intro m k hm hmore hk
      have hgoes : ParseLoop.Goes { context := c, buf } := ⟨hexp, rfl, hb⟩
      exact ((hm.goes hgoes hmore).step hmore hk).1
    · intro _
      rcases hret with he | ⟨l, hl, -⟩
      · exact .inl he
      · exact .inr ⟨l, hl⟩

/-- A request in one piece. -/
def getBuffer : Buffer := ⟨List.replicate 8 0 ++ ascii "GET / HTTP/1.0\r\n\r\n", 8, 26⟩

theorem getBuffer_wf : getBuffer.WF := by
  constructor <;> decide

theorem parseRequest_ends_iff_fresh :
    ∃ n, ParseLoop.loop 0 n { context := {}, buf := getBuffer } ≠ .error .parseRequest :=
  ((parseRequest_ends_iff .init getBuffer_wf 0).1.2 (by simp)).1

/-- A complete request that is not reset keeps the loop from ending. -/
theorem complete_request_loops : ∃ c : HttpContext, c.Reachable ∧
    ∀ n, ParseLoop.loop 0 n { context := c, buf := getBuffer } = .error .parseRequest := by
  obtain ⟨l, hl, hs⟩ : ∃ l, parseRequest {} getBuffer 0 = .ok l ∧ l.context.state = .kGotAll := ⟨_, rfl, rfl⟩
  exact ⟨l.context, .parse .init getBuffer_wf hl, ParseLoop.loop_gotAll hs rfl⟩

end HttpContext

end Zhengqi
