import Zhengqi.HttpContextSound

/-!
# The text of a request

A well-formed request without a body, the bytes it is written as, and the request
that `httpCallback_` should see. `HttpText.reads`: its lines, read one after the
other by a fresh context, complete exactly this request. `Reads.parses`: the parser
reads them off the front of the bytes, as far as they have come.
-/

namespace Zhengqi

open Run

def Method.word : Method → Bytes
  | .kInvalid => []
  | .kGet => ascii "GET"
  | .kPost => ascii "POST"
  | .kHead => ascii "HEAD"
  | .kPut => ascii "PUT"
  | .kDelete => ascii "DELETE"

def Version.digit : Version → Bytes
  | .kHttp10 => ascii "0"
  | .kHttp11 => ascii "1"
  | .kUnknown => []

def Unbroken (bs : Bytes) : Prop := chr '\r' ∉ bs ∧ chr '\n' ∉ bs

instance (bs : Bytes) : Decidable (Unbroken bs) := inferInstanceAs (Decidable (_ ∧ _))

structure HttpText where
  method : Method
  path : Bytes
  -- With its question mark
  query : Bytes
  version : Version
  headers : List (Bytes × Bytes)
  method_valid : method ≠ .kInvalid
  version_valid : version ≠ .kUnknown
  path_plain : Unbroken path ∧ chr ' ' ∉ path ∧ chr '?' ∉ path
  query_plain : Unbroken query ∧ chr ' ' ∉ query
  query_mark : query = [] ∨ query.head? = some (chr '?')
  headers_plain : ∀ h ∈ headers, Unbroken h.1 ∧ chr ':' ∉ h.1 ∧ Unbroken h.2

def trim (value : Bytes) : Bytes := ((value.dropWhile isspace).reverse.dropWhile isspace).reverse

def HttpRequest.untimed (r : HttpRequest) : HttpRequest := { r with receiveTime := 0 }

def rendered (ls : List Bytes) : Bytes := ls.flatMap (· ++ Buffer.kCRLF)

namespace HttpText

def requestLine (x : HttpText) : Bytes :=
  x.method.word ++ chr ' ' :: (x.path ++ x.query ++ chr ' ' :: (ascii "HTTP/1." ++ x.version.digit))

def headerLine (h : Bytes × Bytes) : Bytes := h.1 ++ chr ':' :: h.2

def lines (x : HttpText) : List Bytes := x.requestLine :: (x.headers.map headerLine ++ [[]])

def bytes (x : HttpText) : Bytes := rendered x.lines

def request (x : HttpText) : HttpRequest where
  method := x.method
  version := x.version
  path := x.path
  query := x.query
  headers := x.headers.foldl (fun hs h => hs.set h.1 (trim h.2)) []

end HttpText

/-! ## Reading the lines -/

/-- The lines `ls` complete the request `req` from the context `c`, whenever they are read. -/
inductive Reads (req : HttpRequest) : HttpContext → List Bytes → Prop
  | last {c c' : HttpContext} {l : Bytes} (hc : c.state ≠ .kGotAll) (hb : Unbroken l)
      (hl : ∀ t, c.line t l = .ok (c', true)) (hg : c'.state = .kGotAll) (hr : c'.request.untimed = req) :
      Reads req c [l]
  | cons {c : HttpContext} {c' : Timestamp → HttpContext} {l : Bytes} {ls : List Bytes} (hc : c.state ≠ .kGotAll)
      (hb : Unbroken l) (hl : ∀ t, c.line t l = .ok (c' t, true)) (hg : ∀ t, (c' t).state ≠ .kGotAll)
      (h : ∀ t, Reads req (c' t) ls) : Reads req c (l :: ls)

theorem Method.ofWord_word {m : Method} (h : m ≠ .kInvalid) :
    Method.ofWord m.word = m ∧ chr ' ' ∉ m.word ∧ Unbroken m.word := by
  cases m with
  | kInvalid => exact absurd rfl h
  | _ => refine ⟨by decide, by decide, by decide, by decide⟩

namespace HttpContext

theorem setTarget_spec (r : HttpRequest) {path query : Bytes} (hr : r.query = []) (hp : chr '?' ∉ path)
    (hq : query = [] ∨ query.head? = some (chr '?')) : setTarget r (path ++ query) = { r with path, query } := by
  unfold setTarget
  rcases hq with rfl | hq
  · rw [List.append_nil, List.idxOf_of_notMem hp]
    simp [← hr]
  · cases query with
    | nil => cases hq
    | cons a query =>
      obtain rfl : a = chr '?' := by simpa using hq
      simp only [idxOf_mid hp, length_ne_mid, ne_eq, not_false_eq_true, if_true, List.take_left, List.drop_left]

theorem processRequestLine_requestLine (x : HttpText) :
    processRequestLine {} x.requestLine =
      .ok ({ method := x.method, version := x.version, path := x.path, query := x.query }, true) := by
  obtain ⟨hw, hs, -⟩ := Method.ofWord_word x.method_valid
  obtain ⟨⟨-, hps, hpq⟩, -, hqs⟩ := And.intro x.path_plain x.query_plain
  have ht : chr ' ' ∉ x.path ++ x.query := by
    rw [List.mem_append, not_or]
    exact ⟨hps, hqs⟩
  have htarget : setTarget { method := x.method } (x.path ++ x.query) =
      { method := x.method, path := x.path, query := x.query } := setTarget_spec _ rfl hpq x.query_mark
  unfold processRequestLine HttpRequest.setMethod HttpText.requestLine
  simp only [idxOf_mid hs, length_ne_mid, ne_eq, not_false_eq_true, if_true, check_of, ok_bind, pure_eq_ok,
    List.take_left, drop_mid, hw, x.method_valid, decide_true, idxOf_mid ht, htarget]
  cases hv : x.version with
  | kUnknown => exact absurd hv x.version_valid
  | kHttp10 => rfl
  | kHttp11 => rfl

theorem line_header {c : HttpContext} (hc : c.state = .kExpectHeaders) {h : Bytes × Bytes} (hh : chr ':' ∉ h.1)
    (t : Timestamp) : c.line t (HttpText.headerLine h) =
      .ok ({ c with request := { c.request with headers := c.request.headers.set h.1 (trim h.2) } }, true) := by
  unfold line HttpText.headerLine
  simp only [hc, idxOf_mid hh, length_ne_mid, ne_eq, not_false_eq_true, if_true, HttpRequest.addHeader,
    List.take_left, drop_mid]
  rfl

theorem line_empty {c : HttpContext} (hc : c.state = .kExpectHeaders) (t : Timestamp) :
    c.line t [] = .ok ({ c with state := .kGotAll }, true) := by
  simp [line, hc]

end HttpContext

theorem reads_headers {req : HttpRequest} : ∀ {hs : List (Bytes × Bytes)} {c : HttpContext},
    c.state = .kExpectHeaders → (∀ h ∈ hs, Unbroken h.1 ∧ chr ':' ∉ h.1 ∧ Unbroken h.2) →
    req = { c.request.untimed with headers := hs.foldl (fun m h => m.set h.1 (trim h.2)) c.request.headers } →
    Reads req c (hs.map HttpText.headerLine ++ [[]])
  | [], c, hc, _, hr => by
    refine .last (by simp [hc]) ⟨by simp, by simp⟩ (HttpContext.line_empty hc) rfl ?_
    rw [hr]
    rfl
  | h :: hs, c, hc, hp, hr => by
    obtain ⟨⟨h₁, h₂, h₃⟩, hp⟩ := List.forall_mem_cons.mp hp
    refine .cons (by simp [hc]) ?_ (HttpContext.line_header hc h₂) (by simp [hc]) fun t => ?_
    · constructor
      · simp only [HttpText.headerLine, List.mem_append, List.mem_cons, not_or]
        exact ⟨h₁.1, by decide, h₃.1⟩
      · simp only [HttpText.headerLine, List.mem_append, List.mem_cons, not_or]
        exact ⟨h₁.2, by decide, h₃.2⟩
    · exact reads_headers hc hp (by rw [hr]; rfl)

theorem HttpText.reads (x : HttpText) : Reads x.request {} x.lines := by
  have hl : ∀ t, HttpContext.line {} t x.requestLine = .ok (⟨.kExpectHeaders,
      { method := x.method, version := x.version, path := x.path, query := x.query, receiveTime := t }⟩, true) := by
    intro t
    simp only [HttpContext.line, HttpContext.processRequestLine_requestLine, ok_bind]
    rfl
  refine .cons (by simp) ?_ hl (by simp) fun t => reads_headers rfl x.headers_plain rfl
  obtain ⟨-, -, hw⟩ := Method.ofWord_word x.method_valid
  have hv : Unbroken (ascii "HTTP/1." ++ x.version.digit) := by
    cases x.version <;> exact ⟨by decide, by decide⟩
  constructor
  · simp only [requestLine, List.mem_append, List.mem_cons, not_or]
    exact ⟨hw.1, by decide, ⟨x.path_plain.1.1, x.query_plain.1.1⟩, by decide, by simpa using hv.1⟩
  · simp only [requestLine, List.mem_append, List.mem_cons, not_or]
    exact ⟨hw.2, by decide, ⟨x.path_plain.1.2, x.query_plain.1.2⟩, by decide, by simpa using hv.2⟩

/-! ## The parser on the lines -/

theorem rendered_cons (l : Bytes) (ls : List Bytes) : rendered (l :: ls) = l ++ Buffer.kCRLF ++ rendered ls := rfl

theorem first_line {l bs rest tail : Bytes} {ls : List Bytes} (hl : Unbroken l)
    (hbs : bs ++ rest = rendered (l :: ls) ++ tail) :
    (Buffer.searchCRLF bs = some l.length ∧ bs.take l.length = l ∧
        bs.drop (l.length + 2) ++ rest = rendered ls ++ tail) ∨
      (Buffer.searchCRLF bs = none ∧ tail.length < rest.length) := by
  have hfull : ∀ bs', bs = l ++ Buffer.kCRLF ++ bs' → bs' ++ rest = rendered ls ++ tail →
      Buffer.searchCRLF bs = some l.length ∧ bs.take l.length = l ∧
        bs.drop (l.length + 2) ++ rest = rendered ls ++ tail := by
    rintro bs' rfl hbs'
    refine ⟨Buffer.searchCRLF_line hl.1, by rw [List.append_assoc, List.take_left], ?_⟩
    rw [← hbs', show l.length + 2 = (l ++ Buffer.kCRLF).length by simp [Buffer.kCRLF], List.drop_left]
  rw [rendered_cons, List.append_assoc, List.append_eq_append_iff] at hbs
  rcases hbs with ⟨w, hw, hrest⟩ | ⟨bs', hbs', hrest⟩
  · by_cases hnil : w = []
    · subst hnil
      left
      exact hfull [] (by simpa using hw.symm) (by simpa using hrest)
    · right
      refine ⟨Buffer.searchCRLF_of_prefix hl.1 hw.symm hnil, ?_⟩
      have := List.length_pos_iff.mpr hnil
      rw [hrest, List.length_append, List.length_append]
      omega
  · left
    exact hfull bs' hbs' hrest.symm

/-- The unread bytes `bs`, with `rest` still to come, start with the lines that complete `req`:
either they hold all of them, or the parser stops between two and waits. -/
theorem Reads.parses {req : HttpRequest} {c : HttpContext} {ls : List Bytes} (h : Reads req c ls) (t : Timestamp)
    {bs rest tail : Bytes} (hbs : bs ++ rest = rendered ls ++ tail) :
    (∃ c' bs', Parses t c bs (.ok (c', bs', true)) ∧ c'.state = .kGotAll ∧ c'.request.untimed = req ∧
        bs' ++ rest = tail) ∨
      (tail.length < rest.length ∧ ∃ c' bs' ls', Parses t c bs (.ok (c', bs', true)) ∧ c'.state ≠ .kGotAll ∧
        Reads req c' ls' ∧ bs' ++ rest = rendered ls' ++ tail) := by
  induction h generalizing bs with
  | last hc hb hl hg hr =>
    rcases first_line hb hbs with ⟨h₁, h₂, h₃⟩ | ⟨h₁, h₂⟩
    · left
      exact ⟨_, _, .got h₁ (by rw [h₂]; exact hl t) hg, hg, hr, by simpa [rendered] using h₃⟩
    · exact .inr ⟨h₂, _, bs, _, .wait h₁, hc, .last hc hb hl hg hr, hbs⟩
  | cons hc hb hl hg h ih =>
    rcases first_line hb hbs with ⟨h₁, h₂, h₃⟩ | ⟨h₁, h₂⟩
    · rcases ih t h₃ with ⟨c', bs', hp, hrest⟩ | ⟨hlt, c', bs', ls', hp, hrest⟩
      · exact .inl ⟨c', bs', .more h₁ (by rw [h₂]; exact hl t) (hg t) hp, hrest⟩
      · exact .inr ⟨hlt, c', bs', ls', .more h₁ (by rw [h₂]; exact hl t) (hg t) hp, hrest⟩
    · exact .inr ⟨h₂, _, bs, _, .wait h₁, hc, .cons hc hb hl hg h, hbs⟩

end Zhengqi
