import Zhengqi.HttpServerSound
import Zhengqi.HttpText
import Zhengqi.NumeralSound

/-!
# Responses can be cut apart

The bytes of a response are its head lines, an empty line and the body. The head says how long the body
is, so that responses that keep the connection are read back one after the other.
-/

namespace Zhengqi

open Run Buffer

/-! ## Lines -/

/-- Cut at the first CR LF CR LF. -/
def splitHead : Bytes → Option (Bytes × Bytes)
  | [] => none
  | b :: bs =>
    if (kCRLF ++ kCRLF).isPrefixOf (b :: bs) then some ([], (b :: bs).drop 4)
    else (splitHead bs).map fun p => (b :: p.1, p.2)

/-- Cut at every CR LF. -/
def splitLines : Bytes → List Bytes
  | [] => [[]]
  | b :: bs =>
    match splitLines bs with
    | [] => [[b]]
    | l :: ls => if b = 13 ∧ bs.head? = some 10 then [] :: l.drop 1 :: ls else (b :: l) :: ls

def joinLines : List Bytes → Bytes
  | [] => []
  | [l] => l
  | l :: ls => l ++ kCRLF ++ joinLines ls

theorem joinLines_cons {ls : List Bytes} (l : Bytes) (h : ls ≠ []) :
    joinLines (l :: ls) = l ++ kCRLF ++ joinLines ls := by
  cases ls with
  | nil => exact absurd rfl h
  | cons l' ls => rfl

theorem rendered_eq {ls : List Bytes} (h : ls ≠ []) : rendered ls = joinLines ls ++ kCRLF := by
  induction ls with
  | nil => exact absurd rfl h
  | cons l ls ih =>
    by_cases hls : ls = []
    · subst hls
      simp [rendered, joinLines]
    · rw [rendered_cons, ih hls, joinLines_cons l hls]
      simp only [List.append_assoc]

theorem splitHead_append {l : Bytes} (hl : chr '\r' ∉ l) (bs : Bytes) :
    splitHead (l ++ bs) = (splitHead bs).map fun p => (l ++ p.1, p.2) := by
  induction l with
  | nil => simp
  | cons b l ih =>
    rw [List.mem_cons, not_or] at hl
    have hb : (kCRLF ++ kCRLF).isPrefixOf (b :: (l ++ bs)) = false := by
      have : (13 : UInt8) ≠ b := hl.1
      simp [kCRLF, List.isPrefixOf, this]
    rw [List.cons_append, splitHead, hb, ih hl.2]
    cases splitHead bs <;> rfl

theorem splitHead_crlf {bs : Bytes} (h : bs.head? ≠ some (chr '\r')) :
    splitHead (kCRLF ++ bs) = (splitHead bs).map fun p => (kCRLF ++ p.1, p.2) := by
  have hcr : (kCRLF ++ kCRLF).isPrefixOf (13 :: 10 :: bs) = false := by
    cases bs with
    | nil => rfl
    | cons b bs =>
      have : (13 : UInt8) ≠ b := fun hb => h (congrArg some hb.symm)
      simp [kCRLF, List.isPrefixOf, this]
  have hlf : (kCRLF ++ kCRLF).isPrefixOf (10 :: bs) = false := rfl
  show splitHead (13 :: 10 :: bs) = _
  rw [splitHead, hcr, splitHead, hlf]
  cases splitHead bs <;> rfl

/-- The head ends behind the lines if none of them is empty. -/
theorem splitHead_lines {ls : List Bytes} (hne : ls ≠ []) (h : ∀ l ∈ ls, chr '\r' ∉ l ∧ l ≠ []) (rest : Bytes) :
    splitHead (joinLines ls ++ (kCRLF ++ (kCRLF ++ rest))) = some (joinLines ls, rest) := by
  induction ls with
  | nil => exact absurd rfl hne
  | cons l ls ih =>
    obtain ⟨⟨hl, -⟩, hls⟩ := List.forall_mem_cons.1 h
    cases ls with
    | nil =>
      rw [joinLines, splitHead_append hl]
      simp [kCRLF, splitHead]
    | cons l' ls =>
      obtain ⟨hl', hne'⟩ := hls l' List.mem_cons_self
      have hhead : (joinLines (l' :: ls) ++ (kCRLF ++ (kCRLF ++ rest))).head? ≠ some (chr '\r') := by
        obtain ⟨b, t, rfl⟩ := List.exists_cons_of_ne_nil hne'
        have hb : b ≠ chr '\r' := fun hb => hl' (hb ▸ List.mem_cons_self)
        cases ls <;> simp [joinLines, hb]
      rw [joinLines_cons l (List.cons_ne_nil l' ls), List.append_assoc, List.append_assoc, splitHead_append hl,
        splitHead_crlf hhead, ih (List.cons_ne_nil l' ls) hls]
      simp

theorem splitLines_ne_nil (bs : Bytes) : splitLines bs ≠ [] := by
  cases bs with
  | nil => simp [splitLines]
  | cons b bs =>
    rw [splitLines]
    split
    · simp
    · split <;> simp

theorem splitLines_append {l bs m : Bytes} {ms : List Bytes} (hl : chr '\r' ∉ l) (h : splitLines bs = m :: ms) :
    splitLines (l ++ bs) = (l ++ m) :: ms := by
  induction l with
  | nil => exact h
  | cons b l ih =>
    rw [List.mem_cons, not_or] at hl
    have hb : b ≠ 13 := fun hb => hl.1 hb.symm
    rw [List.cons_append, splitLines, ih hl.2]
    simp [hb]

theorem splitLines_crlf (bs : Bytes) : splitLines (kCRLF ++ bs) = [] :: splitLines bs := by
  obtain ⟨m, ms, hm⟩ := List.exists_cons_of_ne_nil (splitLines_ne_nil bs)
  show splitLines (13 :: 10 :: bs) = _
  simp [splitLines, hm]

theorem splitLines_joinLines {ls : List Bytes} (hne : ls ≠ []) (h : ∀ l ∈ ls, chr '\r' ∉ l) :
    splitLines (joinLines ls) = ls := by
  induction ls with
  | nil => exact absurd rfl hne
  | cons l ls ih =>
    obtain ⟨hl, hls⟩ := List.forall_mem_cons.1 h
    by_cases hnil : ls = []
    · subst hnil
      have hline : splitLines (l ++ []) = [l ++ []] := splitLines_append hl rfl
      rwa [List.append_nil] at hline
    · rw [joinLines_cons l hnil, List.append_assoc, splitLines_append hl (splitLines_crlf _),
        ih hnil hls, List.append_nil]

/-! ## What a response is written as -/

namespace HttpResponse

variable {r : HttpResponse}

def statusLine (r : HttpResponse) : Bytes :=
  ascii "HTTP/1.1 " ++ (decimal r.statusCode.value ++ chr ' ' :: r.statusMessage)

def lengthLine (r : HttpResponse) : Bytes := ascii "Content-Length: " ++ decimal r.body.length

def fieldLine (h : Bytes × Bytes) : Bytes := h.1 ++ chr ':' :: (ascii " " ++ h.2)

def headLines (r : HttpResponse) : List Bytes :=
  r.statusLine ::
    ((if r.closeConnection then [ascii "Connection: close"] else [r.lengthLine, ascii "Connection: Keep-Alive"]) ++
      r.headers.map fieldLine)

/-- Nothing in the head breaks a line, and the size of the body is an `int`. -/
structure Plain (r : HttpResponse) : Prop where
  message : Unbroken r.statusMessage
  headers : ∀ h ∈ r.headers, Unbroken h.1 ∧ chr ':' ∉ h.1 ∧ Unbroken h.2
  body : r.body.length < 2 ^ 31

/-- The other sizes are `int`s, too. -/
structure Sized (r : HttpResponse) : Prop where
  message : r.statusMessage.length < 2 ^ 31
  headers : ∀ h ∈ r.headers, h.1.length < 2 ^ 31 ∧ h.2.length < 2 ^ 31

theorem snprintf_status (c : HttpStatusCode) :
    snprintf 32 (ascii "HTTP/1.1 " ++ decimal c.value ++ ascii " ") =
      ascii "HTTP/1.1 " ++ decimal c.value ++ ascii " " := by
  cases c <;> decide

theorem snprintf_length {n : Nat} (h : n < 2 ^ 31) :
    snprintf 32 (ascii "Content-Length: " ++ decimal n ++ ascii "\r\n") = ascii "Content-Length: " ++
      decimal n ++ ascii "\r\n" := by
  have hlen := length_decimal (n := n) (k := 10) (by decide) (by omega)
  apply List.take_of_length_le
  rw [List.length_append, List.length_append]
  show 16 + (decimal n).length + 2 ≤ 31
  omega

theorem ascii_crlf : ascii "\r\n" = kCRLF := rfl

theorem flatten_fields (hs : Headers) :
    (hs.flatMap fun h => [h.1, ascii ": ", h.2, ascii "\r\n"]).flatten = rendered (hs.map fieldLine) := by
  have hcolon : ascii ": " = chr ':' :: ascii " " := rfl
  induction hs with
  | nil => rfl
  | cons h hs ih =>
    rw [List.flatMap_cons, List.flatten_append, ih, List.map_cons, rendered_cons, ascii_crlf, hcolon]
    simp [fieldLine]

theorem rendered_append (ls ms : List Bytes) : rendered (ls ++ ms) = rendered ls ++ rendered ms := List.flatMap_append

theorem Plain.flatten_pieces (hr : r.Plain) :
    r.pieces.flatten = joinLines r.headLines ++ (kCRLF ++ (kCRLF ++ r.body)) := by
  have hclose : ascii "Connection: close\r\n" = ascii "Connection: close" ++ kCRLF := rfl
  have hkeep : ascii "Connection: Keep-Alive\r\n" = ascii "Connection: Keep-Alive" ++ kCRLF := rfl
  have hspace : ascii " " = [chr ' '] := rfl
  have hne : r.headLines ≠ [] := List.cons_ne_nil _ _
  rw [← List.append_assoc (joinLines _), ← rendered_eq hne, headLines, rendered_cons, rendered_append, pieces,
    snprintf_status, snprintf_length hr.body, hclose, hkeep, ascii_crlf, hspace, statusLine, lengthLine]
  cases r.closeConnection <;> simp [flatten_fields, ← ascii_crlf, rendered]

theorem cr_notMem_decimal (n : Nat) : chr '\r' ∉ decimal n :=
  fun h => forall_mem_decimal (p := (· ≠ chr '\r')) (by decide) h rfl

theorem Plain.headLines_plain (hr : r.Plain) : ∀ l ∈ r.headLines, chr '\r' ∉ l ∧ l ≠ [] := by
  intro l hl
  rw [headLines, List.mem_cons, List.mem_append] at hl
  rcases hl with rfl | hl | hl
  · refine ⟨?_, List.cons_ne_nil _ _⟩
    simp only [statusLine, List.mem_append, List.mem_cons, not_or]
    exact ⟨by decide, cr_notMem_decimal _, by decide, hr.message.1⟩
  · split at hl
    · rw [List.mem_singleton] at hl
      subst hl
      decide
    · simp only [List.mem_cons, List.not_mem_nil, or_false] at hl
      rcases hl with rfl | rfl
      · refine ⟨?_, List.cons_ne_nil _ _⟩
        rw [lengthLine, List.mem_append, not_or]
        exact ⟨by decide, cr_notMem_decimal _⟩
      · decide
  · obtain ⟨h, hh, rfl⟩ := List.mem_map.1 hl
    obtain ⟨hname, -, hvalue⟩ := hr.headers h hh
    refine ⟨?_, List.append_ne_nil_of_right_ne_nil _ (List.cons_ne_nil _ _)⟩
    simp only [fieldLine, List.mem_append, List.mem_cons, not_or]
    exact ⟨hname.1, by decide, by decide, hvalue.1⟩

/-- The bytes, whatever follows them, give the lines and the body back. -/
theorem Plain.splitHead_bytes (hr : r.Plain) (rest : Bytes) :
    splitHead (r.pieces.flatten ++ rest) = some (joinLines r.headLines, r.body ++ rest) ∧
      splitLines (joinLines r.headLines) = r.headLines := by
  have hne : r.headLines ≠ [] := List.cons_ne_nil _ _
  constructor
  · rw [hr.flatten_pieces]
    simp only [List.append_assoc]
    exact splitHead_lines hne hr.headLines_plain _
  · exact splitLines_joinLines hne fun l hl => (hr.headLines_plain l hl).1

/-! ## Reading a response -/

end HttpResponse

/-- What follows `start`. -/
def strip (start line : Bytes) : Option Bytes := if start.isPrefixOf line then some (line.drop start.length) else none

/-- Cut at the first `a`. -/
def cutAt (a : Byte) (bs : Bytes) : Option (Bytes × Bytes) :=
  let i := bs.idxOf a
  if i = bs.length then none else some (bs.take i, bs.drop (i + 1))

theorem strip_append (start rest : Bytes) : strip start (start ++ rest) = some rest := by
  rw [strip, if_pos (List.isPrefixOf_iff_prefix.2 (List.prefix_append ..)), List.drop_left]

theorem cutAt_mid {a : Byte} {xs ys : Bytes} (h : a ∉ xs) : cutAt a (xs ++ a :: ys) = some (xs, ys) := by
  rw [cutAt, idxOf_mid h, if_neg length_ne_mid, List.take_left, drop_mid]

theorem mapM_map {α β : Type} {f : α → β} {g : β → Option α} {as : List α} (h : ∀ a ∈ as, g (f a) = some a) :
    (as.map f).mapM g = some as := by
  induction as with
  | nil => rfl
  | cons a as ih =>
    obtain ⟨ha, has⟩ := List.forall_mem_cons.1 h
    rw [List.map_cons, List.mapM_cons, ha, ih has]
    rfl

namespace HttpResponse

variable {r : HttpResponse}

def allCodes : List HttpStatusCode := [.kUnknown, .k200Ok, .k301MovedPermanently, .k400BadRequest, .k404NotFound]

def readStatusLine (line : Bytes) : Option (HttpStatusCode × Bytes) := do
  let rest ← strip (ascii "HTTP/1.1 ") line
  let (code, message) ← cutAt (chr ' ') rest
  let code ← allCodes.find? fun c => decimal c.value = code
  some (code, message)

def readLengthLine (line : Bytes) : Option Nat :=
  (strip (ascii "Content-Length: ") line).bind (Numeral.read 10 (digitValue 10))

def readFieldLine (line : Bytes) : Option (Bytes × Bytes) := do
  let (name, rest) ← cutAt (chr ':') line
  let value ← strip (ascii " ") rest
  some (name, value)

/-- A response that keeps the connection, and the bytes behind it. -/
def cutResponse (bs : Bytes) : Option (HttpResponse × Bytes) := do
  let (head, rest) ← splitHead bs
  match splitLines head with
  | status :: length :: connection :: fields =>
    let (statusCode, statusMessage) ← readStatusLine status
    let n ← readLengthLine length
    let headers ← fields.mapM readFieldLine
    if connection = ascii "Connection: Keep-Alive" ∧ n ≤ rest.length then
      some ({ headers, statusCode, statusMessage, closeConnection := false, body := rest.take n }, rest.drop n)
    else none
  | _ => none

def cutResponses (bs : Bytes) : Option (List HttpResponse) :=
  if bs = [] then some []
  else
    match cutResponse bs with
    | none => none
    | some (r, rest) => if rest.length < bs.length then (cutResponses rest).map (r :: ·) else none
  termination_by bs.length

theorem readStatusLine_statusLine (r : HttpResponse) :
    readStatusLine r.statusLine = some (r.statusCode, r.statusMessage) := by
  have hcode : chr ' ' ∉ decimal r.statusCode.value ∧
      (allCodes.find? fun c => decimal c.value = decimal r.statusCode.value) = some r.statusCode := by
    cases r.statusCode <;> decide
  rw [readStatusLine, statusLine, strip_append, Option.bind_eq_bind, Option.bind_some, cutAt_mid hcode.1]
  simp [hcode.2]

theorem readLengthLine_lengthLine (r : HttpResponse) : readLengthLine r.lengthLine = some r.body.length := by
  rw [readLengthLine, lengthLine, strip_append, Option.bind_some]
  exact alphabet_decimal.read_digits r.body.length

theorem readFieldLine_fieldLine {h : Bytes × Bytes} (hh : chr ':' ∉ h.1) : readFieldLine (fieldLine h) = some h := by
  rw [readFieldLine, fieldLine, cutAt_mid hh, Option.bind_eq_bind, Option.bind_some]
  dsimp only
  rw [strip_append]
  rfl

theorem Plain.cutResponse_bytes (hr : r.Plain) (hk : r.closeConnection = false) (rest : Bytes) :
    cutResponse (r.pieces.flatten ++ rest) = some (r, rest) := by
  obtain ⟨hhead, hlines⟩ := hr.splitHead_bytes rest
  have hthree : r.headLines = r.statusLine :: r.lengthLine :: ascii "Connection: Keep-Alive" :: r.headers.map
      fieldLine := by
    rw [headLines, hk]
    rfl
  have hfields : (r.headers.map fieldLine).mapM readFieldLine = some r.headers :=
    mapM_map fun h hh => readFieldLine_fieldLine (hr.headers h hh).2.1
  rw [cutResponse, hhead, Option.bind_eq_bind, Option.bind_some]
  dsimp only
  rw [hlines, hthree]
  simp only [readStatusLine_statusLine, readLengthLine_lengthLine, hfields, Option.bind_eq_bind, Option.bind_some]
  rw [if_pos ⟨trivial, List.length_append.symm ▸ Nat.le_add_right ..⟩, List.take_left, List.drop_left, ← hk]

theorem Plain.flatten_pieces_ne_nil (hr : r.Plain) : r.pieces.flatten ≠ [] := by
  rw [hr.flatten_pieces]
  exact List.append_ne_nil_of_right_ne_nil _ (List.cons_ne_nil _ _)

theorem cutResponses_bytes {rs : List HttpResponse} (h : ∀ r ∈ rs, r.Plain ∧ r.closeConnection = false) :
    cutResponses (rs.flatMap fun r => r.pieces.flatten) = some rs := by
  induction rs with
  | nil =>
    rw [List.flatMap_nil, cutResponses, if_pos rfl]
  | cons r rs ih =>
    obtain ⟨⟨hr, hk⟩, hrs⟩ := List.forall_mem_cons.1 h
    have hpos := List.length_pos_iff.2 hr.flatten_pieces_ne_nil
    rw [List.flatMap_cons, cutResponses, if_neg (List.append_ne_nil_of_left_ne_nil hr.flatten_pieces_ne_nil _),
      hr.cutResponse_bytes hk]
    dsimp only
    rw [if_pos (by rw [List.length_append]; omega), ih hrs]
    rfl

/-! ## Appending -/

theorem Plain.pieces_small (hr : r.Plain) (hs : r.Sized) : ∀ p ∈ r.pieces, p.length < 2 ^ 31 := by
  have hprintf : ∀ text, (snprintf 32 text).length < 2 ^ 31 := by
    intro text
    rw [snprintf, List.length_take]
    omega
  intro p hp
  simp only [pieces, List.mem_append, List.mem_cons, List.not_mem_nil, or_false, List.mem_flatMap] at hp
  rcases hp with ((((rfl | rfl | rfl) | hp) | ⟨h, hh, rfl | rfl | rfl | rfl⟩) | rfl | rfl)
  · exact hprintf _
  · exact hs.message
  · decide
  · split at hp
    · rw [List.mem_singleton] at hp
      subst hp
      decide
    · simp only [List.mem_cons, List.not_mem_nil, or_false] at hp
      rcases hp with rfl | rfl
      · exact hprintf _
      · decide
  · exact (hs.headers h hh).1
  · decide
  · exact (hs.headers h hh).2
  · decide
  · decide
  · exact hr.body

theorem Plain.appendToBuffer_inv (hr : r.Plain) (hs : r.Sized) {b c : Buffer} (hb : b.WF)
    (h : r.appendToBuffer b = .ok c) :
    c.WF ∧ c.readable = b.readable ++ r.pieces.flatten := by
  rw [appendToBuffer, foldlM_eq_run] at h
  rw [← List.flatMap_id]
  refine run_appends (fun p hp b c hb h => ?_) hb h
  rw [appendPiece_eq (hr.pieces_small hs p hp)] at h
  exact append_inv hb h

/-- The bytes of a response are its head lines and its body, and bytes of responses that keep the
connection are those responses. -/
theorem responses_self_delimiting {output : Buffer} (hb : output.WF) :
    (∀ (r : HttpResponse) c, r.Plain → r.Sized → r.appendToBuffer output = .ok c →
      ∃ bytes head, c.readable = output.readable ++ bytes ∧ splitHead bytes = some (head, r.body) ∧
        splitLines head = r.headLines) ∧
    (∀ r : HttpResponse, r.Plain → r.Sized → max output.writerIndex kCheapPrepend + r.pieces.flatten.length ≤ maxSize →
      ∃ c, r.appendToBuffer output = .ok c) ∧
    ∀ (rs : List HttpResponse) c, (∀ r ∈ rs, r.Plain ∧ r.Sized ∧ r.closeConnection = false) →
      run (fun b (r : HttpResponse) => r.appendToBuffer b) output rs = .ok c →
      ∃ bytes, c.readable = output.readable ++ bytes ∧ cutResponses bytes = some rs := by
  refine ⟨?_, ?_, ?_⟩
  · intro r c hr hs h
    obtain ⟨hhead, hlines⟩ := hr.splitHead_bytes []
    rw [List.append_nil, List.append_nil] at hhead
    exact ⟨_, _, (hr.appendToBuffer_inv hs hb h).2, hhead, hlines⟩
  · intro r hr hs h
    have hwithin : output.Within (max output.writerIndex kCheapPrepend - kCheapPrepend) := ⟨hb, by omega⟩
    exact appendPieces_ok (hr.pieces_small hs) hwithin (by omega)
  · intro rs c hrs h
    obtain ⟨-, hreadable⟩ := run_appends (fun r hr b c hb h => (hrs r hr).1.appendToBuffer_inv (hrs r hr).2.1 hb h) hb h
    exact ⟨_, hreadable, cutResponses_bytes fun r hr => ⟨(hrs r hr).1, (hrs r hr).2.2⟩⟩

/-- A page whose body looks like the end of a head. -/
def pageResponse : HttpResponse where
  headers := [(ascii "Content-Type", ascii "text/plain"), (ascii "Server", ascii "Zhengqi")]
  statusCode := .k200Ok
  statusMessage := ascii "OK"
  closeConnection := false
  body := ascii "a\r\n\r\nb"

theorem responses_self_delimiting_page :
    ∃ c, pageResponse.appendToBuffer (fresh kInitialSize) = .ok c ∧
      (∃ head, splitHead c.readable = some (head, ascii "a\r\n\r\nb") ∧ splitLines head = pageResponse.headLines) ∧
      cutResponses c.readable = some [pageResponse] := by
  have hwf : (fresh kInitialSize).WF := fresh_wf (by decide)
  have hplain : pageResponse.Plain := ⟨by decide, by decide, by decide⟩
  have hsized : pageResponse.Sized := ⟨by decide, by decide⟩
  obtain ⟨hhead, hroom, hcut⟩ := responses_self_delimiting hwf
  obtain ⟨c, hc⟩ := hroom pageResponse hplain hsized (by decide)
  obtain ⟨bytes, head, hbytes, hsplit, hlines⟩ := hhead _ c hplain hsized hc
  obtain ⟨bytes', hbytes', hback⟩ :=
    hcut [pageResponse] c (List.forall_mem_singleton.2 ⟨hplain, hsized, rfl⟩) (by rw [run_cons, hc]; rfl)
  rw [fresh_readable, List.nil_append] at hbytes hbytes'
  subst hbytes hbytes'
  exact ⟨c, hc, ⟨head, hsplit, hlines⟩, hback⟩

/-! ## Strings that are too long -/

def messageResponse (statusMessage : Bytes) : HttpResponse := { statusMessage, closeConnection := true }

theorem messageResponse_plain {m : Bytes} (h : Unbroken m) : (messageResponse m).Plain :=
  ⟨h, fun _ h => absurd h List.not_mem_nil, by show 0 < 2 ^ 31; decide⟩

theorem appendToBuffer_wraps {m : Bytes} (h : m.length = 2 ^ 32) (b : Buffer) :
    (messageResponse m).appendToBuffer b = (messageResponse []).appendToBuffer b := by
  obtain ⟨first, last, hpieces⟩ : ∃ first last, ∀ m, (messageResponse m).pieces = first :: m :: last := by
    refine ⟨snprintf 32 (ascii "HTTP/1.1 " ++ decimal HttpStatusCode.kUnknown.value ++ ascii " "),
      [ascii "\r\n", ascii "Connection: close\r\n", ascii "\r\n", []], fun m => ?_⟩
    simp [pieces, messageResponse]
  unfold appendToBuffer
  rw [hpieces, hpieces]
  simp only [List.foldlM_cons, appendPiece_wraps h]

/-- The size of a message of 4 GiB is 0 as an `int`: nothing of it is written. -/
theorem long_message_lost : ¬ ∀ (r : HttpResponse) (output c : Buffer), r.Plain → output.WF →
    r.appendToBuffer output = .ok c →
    ∃ bytes head, c.readable = output.readable ++ bytes ∧ splitHead bytes = some (head, r.body) ∧
      splitLines head = r.headLines := by
  intro hall
  obtain ⟨m, hm, hunbroken⟩ : ∃ m : Bytes, m.length = 2 ^ 32 ∧ Unbroken m := by
    refine ⟨List.replicate (2 ^ 32) (chr 'a'), List.length_replicate, ?_, ?_⟩
    · exact fun h => absurd (List.eq_of_mem_replicate h) (by decide)
    · exact fun h => absurd (List.eq_of_mem_replicate h) (by decide)
  have hwf : (fresh kInitialSize).WF := fresh_wf (by decide)
  have hplain : (messageResponse []).Plain := messageResponse_plain (by decide)
  have hfits : (messageResponse []).Fits := by decide
  obtain ⟨c, hc⟩ := hfits.appendToBuffer_ok (fresh_within kInitialSize (by decide))
  have hreadable := (hplain.appendToBuffer_inv ⟨by decide, by decide⟩ hwf hc).2
  obtain ⟨bytes, head, hbytes, hsplit, hlines⟩ :=
    hall (messageResponse m) _ c (messageResponse_plain hunbroken) hwf ((appendToBuffer_wraps hm _).trans hc)
  rw [hreadable] at hbytes
  obtain rfl := List.append_cancel_left hbytes
  obtain ⟨hsplit', hlines'⟩ := hplain.splitHead_bytes []
  rw [List.append_nil, hsplit] at hsplit'
  obtain rfl := (Prod.mk.inj (Option.some.inj hsplit')).1
  rw [hlines'] at hlines
  have hstatus := congrArg List.length (List.cons.inj hlines).1
  simp only [statusLine, messageResponse, List.length_append, List.length_cons, hm] at hstatus
  simp at hstatus

end HttpResponse

end Zhengqi
