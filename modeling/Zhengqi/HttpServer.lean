import Zhengqi.HttpContext

/-!
# HttpServer

`networking/http/HttpResponse.cpp` and `networking/http/HttpServer.cpp`, seen from
one connection: bytes arrive in its input buffer, and the messages it sends are
recorded.
-/

namespace Zhengqi

inductive HttpStatusCode
  | kUnknown | k200Ok | k301MovedPermanently | k400BadRequest | k404NotFound
  deriving DecidableEq, Repr

def HttpStatusCode.value : HttpStatusCode → Nat
  | .kUnknown => 0
  | .k200Ok => 200
  | .k301MovedPermanently => 301
  | .k400BadRequest => 400
  | .k404NotFound => 404

structure HttpResponse where
  headers : Headers := []
  statusCode : HttpStatusCode := .kUnknown
  statusMessage : Bytes := []
  closeConnection : Bool
  body : Bytes := []
  deriving DecidableEq, Repr

namespace HttpResponse

def pieces (r : HttpResponse) : List Bytes :=
  [snprintf 32 (ascii "HTTP/1.1 " ++ decimal r.statusCode.value ++ ascii " "), r.statusMessage, ascii "\r\n"] ++
  (if r.closeConnection then [ascii "Connection: close\r\n"]
   else [
    snprintf 32 (ascii "Content-Length: " ++ decimal r.body.length ++ ascii "\r\n"),
    ascii "Connection: Keep-Alive\r\n"]) ++
  r.headers.flatMap (fun h => [h.1, ascii ": ", h.2, ascii "\r\n"]) ++
  [ascii "\r\n", r.body]

def appendToBuffer (r : HttpResponse) (output : Buffer) : Except Fault Buffer :=
  r.pieces.foldlM Buffer.appendPiece output

/-- The sizes of the strings fit into `int`, and the whole into memory. -/
def Fits (r : HttpResponse) : Prop := (∀ p ∈ r.pieces, p.length < 2 ^ 31) ∧ r.pieces.flatten.length < 2 ^ 62

instance (r : HttpResponse) : Decidable r.Fits := inferInstanceAs (Decidable (_ ∧ _))

end HttpResponse

/-- `httpCallback_`. -/
structure HttpCallback where
  respond : HttpRequest → HttpResponse → HttpResponse
  fits : ∀ req close, (respond req { closeConnection := close }).Fits

def defaultHttpCallback : HttpCallback where
  respond _ resp :=
    { resp with statusCode := .k404NotFound, statusMessage := ascii "Not Found", closeConnection := true }
  fits := by
    intro _ close
    cases close <;> decide

/-- The calls that the server makes on a connection, with both overloads of `send`. -/
inductive Reply
  | sendPiece (message : Bytes)
  | sendBuffer (message : Bytes)
  | shutdown
  deriving DecidableEq, Repr

structure HttpConnection where
  context : HttpContext := {}
  inputBuffer : Buffer
  -- The arguments of the calls of `httpCallback_`
  requests : List HttpRequest := []
  replies : List Reply := []

namespace HttpConnection

def reply (c : HttpConnection) (r : Reply) : HttpConnection := { c with replies := c.replies ++ [r] }

def badRequest : Bytes := ascii "HTTP/1.1 400 Bad Request\r\n\r\n"

def onConnection : Except Fault HttpConnection := do
  let inputBuffer ← Buffer.ctor Buffer.kInitialSize
  pure { inputBuffer }

def onRequest (c : HttpConnection) (httpCallback : HttpCallback) (req : HttpRequest) : Except Fault HttpConnection := do
  let connection := req.getHeader (ascii "Connection")
  let close := connection = ascii "close" || (req.version = .kHttp10 && connection ≠ ascii "Keep-Alive")
  let response := httpCallback.respond req { closeConnection := close }
  let buf ← Buffer.ctor Buffer.kInitialSize
  let buf ← response.appendToBuffer buf
  let c := { c with requests := c.requests ++ [req] }.reply (.sendBuffer buf.readable)
  if response.closeConnection then pure (c.reply .shutdown) else pure c

def onMessage (c : HttpConnection) (httpCallback : HttpCallback) (receiveTime : Timestamp) :
    Except Fault HttpConnection := do
  let l ← c.context.parseRequest c.inputBuffer receiveTime
  let c := { c with context := l.context, inputBuffer := l.buf }
  let c := if l.ok then c else (c.reply (.sendPiece badRequest)).reply .shutdown
  if c.context.gotAll then
    let c ← c.onRequest httpCallback c.context.request
    pure { c with context := c.context.reset }
  else pure c

/-- Bytes that a read has put into the input buffer, and the time of the poll. -/
structure Chunk where
  data : Bytes
  receiveTime : Timestamp
  deriving DecidableEq, Repr

/-- `TcpConnection::handleRead`, where `readFd` appends what it read. -/
def step (httpCallback : HttpCallback) (c : HttpConnection) (chunk : Chunk) : Except Fault HttpConnection := do
  let inputBuffer ← c.inputBuffer.append chunk.data
  onMessage { c with inputBuffer } httpCallback chunk.receiveTime

end HttpConnection

end Zhengqi
