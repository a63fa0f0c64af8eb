import Zhengqi.TimeZone

/-!
# MinuteHourCounter

`utility/MinuteHourCounter.h`. The sums are `int`s: an operation that leaves their range is undefined, and
stops the model. The number of buckets that have passed is taken as the machine computes it, modulo `2 ^ 32`.
-/

namespace Zhengqi

/-! ## ConveyorQueue -/

/-- `q` from its front, the oldest item, to its back. -/
structure ConveyorQueue where
  q : List Int
  maxItems : Int
  totalSum : Int
  deriving DecidableEq, Repr

namespace ConveyorQueue

def ctor (maxItems : Int) : ConveyorQueue := ⟨[], maxItems, 0⟩

/-- The excess items fall off. -/
def fallOff (maxItems : Int) : List Int → Int → Except Fault (List Int × Int)
  | [], totalSum => if maxItems < 0 then .error .outOfBounds else pure ([], totalSum)
  | front :: q, totalSum =>
    if maxItems < toInt (q.length + 1) then do
      let totalSum ← int (totalSum - front)
      fallOff maxItems q totalSum
    else pure (front :: q, totalSum)

def shift (c : ConveyorQueue) (numShifted : Int) : Except Fault ConveyorQueue :=
  if c.maxItems ≤ numShifted then pure { c with q := [], totalSum := 0 }
  else do
    -- the loop pushes as many zeros, none if the number is negative
    let (q, totalSum) ← fallOff c.maxItems (c.q ++ List.replicate numShifted.toNat 0) c.totalSum
    pure { c with q, totalSum }

def addToBack (c : ConveyorQueue) (count : Int) : Except Fault ConveyorQueue := do
  let c ← (if c.q = [] then c.shift 1 else pure c : Except Fault ConveyorQueue)
  match c.q.getLast? with
  | none => .error .outOfBounds
  | some back => do
    let back ← int (back + count)
    let totalSum ← int (c.totalSum + count)
    pure { c with q := c.q.dropLast ++ [back], totalSum }

end ConveyorQueue

/-! ## TrailingBucketCounter -/

structure TrailingBucketCounter where
  buckets : ConveyorQueue
  secsPerBucket : Int
  lastUpdateTime : Int
  deriving DecidableEq, Repr

namespace TrailingBucketCounter

/-- The constructor leaves `last_update_time_` as it is found. -/
def ctor (numBuckets secsPerBucket found : Int) : TrailingBucketCounter := ⟨.ctor numBuckets, secsPerBucket, found⟩

/-- How many buckets have passed since `last`. -/
def passed (secsPerBucket last now : Int) : Int :=
  toInt ((toInt now).tdiv secsPerBucket - (toInt last).tdiv secsPerBucket)

def update (c : TrailingBucketCounter) (now : Int) : Except Fault TrailingBucketCounter := do
  let buckets ← c.buckets.shift (passed c.secsPerBucket c.lastUpdateTime now)
  pure { c with buckets, lastUpdateTime := now }

def add (c : TrailingBucketCounter) (count now : Int) : Except Fault TrailingBucketCounter := do
  let c ← c.update now
  let buckets ← c.buckets.addToBack count
  pure { c with buckets }

def trailingCount (c : TrailingBucketCounter) (now : Int) : Except Fault (Int × TrailingBucketCounter) := do
  let c ← c.update now
  pure (c.buckets.totalSum, c)

end TrailingBucketCounter

/-! ## MinuteHourCounter -/

structure MinuteHourCounter where
  minuteCounts : TrailingBucketCounter
  hourCounts : TrailingBucketCounter
  deriving DecidableEq, Repr

namespace MinuteHourCounter

def ctor (found found' : Int) : MinuteHourCounter := ⟨.ctor 60 1 found, .ctor 60 60 found'⟩

/-- Each call has its own reading of the clock. -/
def add (c : MinuteHourCounter) (count now : Int) : Except Fault MinuteHourCounter := do
  let minuteCounts ← c.minuteCounts.add count now
  let hourCounts ← c.hourCounts.add count now
  pure { minuteCounts, hourCounts }

def minuteCount (c : MinuteHourCounter) (now : Int) : Except Fault (Int × MinuteHourCounter) := do
  let (count, minuteCounts) ← c.minuteCounts.trailingCount now
  pure (count, { c with minuteCounts })

def hourCount (c : MinuteHourCounter) (now : Int) : Except Fault (Int × MinuteHourCounter) := do
  let (count, hourCounts) ← c.hourCounts.trailingCount now
  pure (count, { c with hourCounts })

/-- What a call of `TcpConnection::handleRead` meets: `readFd` returns `n`, and the clock shows `now` in `Add`.
The two counts are computed, each with its own reading of the clock, when `LOG_DEBUG` is enabled. -/
structure Received where
  n : Int
  now : Int
  minuteLogged : Option Int
  hourLogged : Option Int
  deriving DecidableEq, Repr

/-- `bytesReceivedCounter_` in `TcpConnection::handleRead`. -/
def handleRead (c : MinuteHourCounter) (r : Received) : Except Fault MinuteHourCounter :=
  if 0 < r.n then do
    let c ← c.add (toInt r.n) r.now
    let c ← match r.minuteLogged with
      | none => pure c
      | some now => do
        let (_, c) ← c.minuteCount now
        pure c
    match r.hourLogged with
    | none => pure c
    | some now => do
      let (_, c) ← c.hourCount now
      pure c
  else pure c

end MinuteHourCounter

end Zhengqi
