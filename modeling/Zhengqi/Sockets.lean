/-!
# Results of system calls

What `sockets::write` and `sockets::readv` of `networking/SocketsOps.cpp` answer
is decided by the kernel. An operation that makes such a call takes the answer
as an argument, so a run of the program ranges over all answers.
-/

namespace Zhengqi

inductive Errno
  | EWOULDBLOCK | EPIPE | ECONNRESET
  | other (code : Nat)
  deriving DecidableEq, Repr

/-- The errors after which `sendInLoop` gives the message up. -/
def Errno.isFault : Errno → Bool
  | .EPIPE | .ECONNRESET => true
  | _ => false

/-- The kernel's answer to a `write`: room for `n` bytes, of which it takes as
many as are offered, or a failure. -/
inductive WriteResult
  | room (n : Nat)
  | error (e : Errno)
  deriving DecidableEq, Repr

/-- The kernel's answer to a `readv`: the bytes that have arrived, none at the
end of the stream, or a failure. -/
inductive ReadResult
  | data (arrived : List UInt8)
  | error (e : Errno)
  deriving DecidableEq, Repr

end Zhengqi
