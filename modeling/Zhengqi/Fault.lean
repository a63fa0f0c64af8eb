import Zhengqi.Lib.Run

/-!
# Faults

Every way the modelled code can stop: an `assert` that fails (the constructor
names the function that holds it), an exception of the standard library, a
`LOG_SYSFATAL`, or an access the language leaves undefined.
-/

namespace Zhengqi

inductive Fault
  -- Buffer.h
  | bufferCtor | retrieve | retrieveUntil | retrieveAsString | ensureWritableBytes | hasWritten
  | unwrite | prepend | makeSpace | makeSpaceReadable | peekInt
  -- `std::length_error` out of `std::vector::resize`
  | lengthError
  -- A store outside `buffer_`
  | outOfBounds
  -- The result of a signed operation is not in its type
  | overflow
  -- Channel.cpp and poller/
  | channelRemove | updateChannel | removeChannel | fillActiveChannels
  -- `assert(n == 1)` behind `channels_.erase`
  | channelErase
  -- `epoll_ctl` failed on an ADD or MOD
  | epollCtl
  -- TcpConnection.cpp
  | connectEstablished | handleClose | sendInLoop | tcpConnectionDtor
  -- TcpServer.cpp
  | removeConnectionInLoop
  -- Connector.cpp and TcpClient.cpp
  | startInLoop | connecting | handleWrite | removeConnection
  -- EventLoop.cpp: `assert(!looping_)` in `loop`, and `assertInLoopThread`
  | loop | abortNotInLoopThread
  -- TimerQueue.cpp
  | timerInsert | cancelInLoop | getExpired
  -- An object is used, or deleted again, after its deletion
  | useAfterFree
  | nullPointer
  -- AsyncLogging.cpp
  | threadFunc
  -- Logging.cpp: `assert` in `formatTime` and in the constructor of `T`; LogStream.cpp: in that of `Fmt`
  | formatTime | logT | fmt
  -- TimeZone.cpp: its assertions, and the exceptions that `readTimeZoneFile` catches
  | findLocalTime | timeZoneData | logicError
  -- An array of a negative size
  | arraySize
  -- BoundedBlockingQueue.h and ThreadPool.cpp
  | put | take | run
  -- http/
  | setMethod
  -- The loop of `parseRequest` does not end
  | parseRequest
  -- Condition.cpp
  | divisionByZero
  -- ProcessInspector.cpp: the loop of `getProcessName` does not end; `assert` in `threads`
  | getProcessName | threads
  deriving DecidableEq, Repr

def Fault.lifeCycle : Fault → Bool
  | .channelRemove | .handleClose | .abortNotInLoopThread => true
  | _ => false

/-- `assert(c)` in the function named by `f`. -/
def check (c : Prop) [Decidable c] (f : Fault) : Except Fault Unit := if c then .ok () else .error f

theorem check_ok {c : Prop} [Decidable c] {f : Fault} {u : Unit} : check c f = .ok u ↔ c := by
  unfold check; split <;> simp [*]

theorem check_error {c : Prop} [Decidable c] {f g : Fault} : check c f = .error g ↔ ¬ c ∧ f = g := by
  unfold check; split <;> simp [*]

theorem check_stops {α} {p : Fault → Prop} {c : Prop} [Decidable c] {f : Fault} {x : Unit → Except Fault α}
    (h : ¬ c → p f) (hx : c → Run.Stops p (x ())) : Run.Stops p (check c f >>= x) := by
  refine Run.Stops.bind (fun g hg => ?_) fun u hu => hx (check_ok.mp hu)
  obtain ⟨hc, rfl⟩ := check_error.mp hg
  exact h hc

@[simp] theorem check_of {c : Prop} [Decidable c] {f : Fault} (h : c) : check c f = .ok () := if_pos h

@[simp] theorem check_not {c : Prop} [Decidable c] {f : Fault} (h : ¬ c) : check c f = .error f := if_neg h

/-- An element of an array or of a vector. -/
def get {α : Type} (xs : List α) (i : Nat) : Except Fault α :=
  match xs[i]? with
  | some x => .ok x
  | none => .error .outOfBounds

end Zhengqi
