import Zhengqi.Text
import Zhengqi.Timestamp

/-!
# HttpContext

`networking/http/HttpRequest.h` and `networking/http/HttpContext.cpp`: the parser
that an `HttpServer` keeps for each connection. A pointer into a line is an offset,
and `std::find` answers the length of the line where it answers its end.
-/

namespace Zhengqi

-- In the "C" locale
def isspace (c : Byte) : Bool := c = 32 || (9 ≤ c && c ≤ 13)

/-- A `std::map` from names to values, in the order of its keys. -/
abbrev Headers := List (Bytes × Bytes)

namespace Headers

def set : Headers → Bytes → Bytes → Headers
  | [], field, value => [(field, value)]
  | (f, v) :: hs, field, value =>
    if field = f then (field, value) :: hs
    else if field < f then (field, value) :: (f, v) :: hs
    else (f, v) :: set hs field value

def find (hs : Headers) (field : Bytes) : Option Bytes := (hs.find? (·.1 = field)).map (·.2)

end Headers

/-! ## HttpRequest -/

inductive Method
  | kInvalid | kGet | kPost | kHead | kPut | kDelete
  deriving DecidableEq, Repr

inductive Version
  | kUnknown | kHttp10 | kHttp11
  deriving DecidableEq, Repr

structure HttpRequest where
  method : Method := .kInvalid
  version : Version := .kUnknown
  path : Bytes := []
  query : Bytes := []
  receiveTime : Timestamp := 0
  headers : Headers := []
  deriving DecidableEq, Repr

def Method.ofWord (m : Bytes) : Method :=
  if m = ascii "GET" then .kGet
  else if m = ascii "POST" then .kPost
  else if m = ascii "HEAD" then .kHead
  else if m = ascii "PUT" then .kPut
  else if m = ascii "DELETE" then .kDelete
  else .kInvalid

namespace HttpRequest

def setMethod (r : HttpRequest) (m : Bytes) : Except Fault (HttpRequest × Bool) := do
  check (r.method = .kInvalid) .setMethod
  let r := { r with method := .ofWord m }
  pure (r, r.method ≠ .kInvalid)

-- `colon` is the offset of the colon in `line`
def addHeader (r : HttpRequest) (line : Bytes) (colon : Nat) : HttpRequest :=
  let field := line.take colon
  let value := (line.drop (colon + 1)).dropWhile isspace
  let value := (value.reverse.dropWhile isspace).reverse
  { r with headers := r.headers.set field value }

def getHeader (r : HttpRequest) (field : Bytes) : Bytes := (r.headers.find field).getD []

end HttpRequest

/-! ## HttpContext -/

inductive HttpRequestParseState
  | kExpectRequestLine | kExpectHeaders | kExpectBody | kGotAll
  deriving DecidableEq, Repr

structure HttpContext where
  state : HttpRequestParseState := .kExpectRequestLine
  request : HttpRequest := {}
  deriving DecidableEq, Repr

namespace HttpContext

def gotAll (c : HttpContext) : Bool := c.state = .kGotAll

def reset (_ : HttpContext) : HttpContext := {}

/-- What `processRequestLine` makes of the target: the query starts at the `?`. -/
def setTarget (r : HttpRequest) (target : Bytes) : HttpRequest :=
  let question := target.idxOf (chr '?')
  if question ≠ target.length then { r with path := target.take question, query := target.drop question }
  else { r with path := target }

/-- The request is changed also where the line is rejected. -/
def processRequestLine (r : HttpRequest) (line : Bytes) : Except Fault (HttpRequest × Bool) := do
  let space := line.idxOf (chr ' ')
  if space ≠ line.length then
    let (r, valid) ← r.setMethod (line.take space)
    if valid then
      let rest := line.drop (space + 1)
      let space := rest.idxOf (chr ' ')
      if space ≠ rest.length then
        let r := setTarget r (rest.take space)
        let protocol := rest.drop (space + 1)
        if protocol.length = 8 ∧ protocol.take 7 = ascii "HTTP/1." then
          if protocol.drop 7 = ascii "1" then pure ({ r with version := .kHttp11 }, true)
          else if protocol.drop 7 = ascii "0" then pure ({ r with version := .kHttp10 }, true)
          else pure (r, false)
        else pure (r, false)
      else pure (r, false)
    else pure (r, false)
  else pure (r, false)

end HttpContext

structure ParseLoop where
  context : HttpContext
  buf : Buffer
  ok : Bool := true
  hasMore : Bool := true

namespace ParseLoop

/-- The body of the loop. In the states `kExpectBody` and `kGotAll` it does nothing. -/
def step (l : ParseLoop) (receiveTime : Timestamp) : Except Fault ParseLoop :=
  match l.context.state with
  | .kExpectRequestLine =>
    match l.buf.findCRLF with
    | some crlf => do
      let (r, ok) ← HttpContext.processRequestLine l.context.request (l.buf.readable.take crlf)
      if ok then
        let buf ← l.buf.retrieveUntil (l.buf.readerIndex + crlf + 2)
        pure { l with context := ⟨.kExpectHeaders, { r with receiveTime }⟩, buf, ok }
      else pure { l with context := { l.context with request := r }, ok, hasMore := false }
    | none => pure { l with hasMore := false }
  | .kExpectHeaders =>
    match l.buf.findCRLF with
    | some crlf => do
      let line := l.buf.readable.take crlf
      let colon := line.idxOf (chr ':')
      let l := if colon ≠ line.length then
          { l with context := { l.context with request := l.context.request.addHeader line colon } }
        else { l with context := { l.context with state := .kGotAll }, hasMore := false }
      let buf ← l.buf.retrieveUntil (l.buf.readerIndex + crlf + 2)
      pure { l with buf }
    | none => pure { l with hasMore := false }
  | .kExpectBody | .kGotAll => pure l

def loop (receiveTime : Timestamp) : Nat → ParseLoop → Except Fault ParseLoop
  | 0, _ => .error .parseRequest
  | n + 1, l => do
    let l ← l.step receiveTime
    if l.hasMore then loop receiveTime n l else pure l

end ParseLoop

/-- A round that does not end the loop takes two bytes or more, or changes nothing at
all, so these rounds are enough for the loop to end if it does. -/
def HttpContext.parseRequest (c : HttpContext) (buf : Buffer) (receiveTime : Timestamp) : Except Fault ParseLoop :=
  ParseLoop.loop receiveTime (buf.readableBytes + 1) { context := c, buf }

end Zhengqi
