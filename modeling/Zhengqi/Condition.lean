import Zhengqi.Date
import Zhengqi.FormatSI
import Zhengqi.Timestamp

/-!
# Condition

The time `waitForSeconds` of `utility/Condition.cpp` hands to `pthread_cond_timedwait`.
-/

namespace Zhengqi

namespace Condition

def kNanoSecondsPerSecond : Int := 1000000000

/-- `static_cast<int64_t>` of a `double`. -/
def truncated (x : ℚ) : Except Fault Int := int64 (if x < 0 then ⌈x⌉ else ⌊x⌋)

def nanoseconds (seconds : ℚ) : Except Fault Int := truncated (double (seconds * kNanoSecondsPerSecond))

/-- The argument is what `clock_gettime` has stored. -/
def absoluteTime (abstime : Timespec) (nanoseconds : Int) : Except Fault Timespec := do
  let sum ← int64 (abstime.tvNsec + nanoseconds)
  let tvSec ← int64 (abstime.tvSec + sum.tdiv kNanoSecondsPerSecond)
  -- the remainder is taken of the wait itself
  check (nanoseconds ≠ 0) .divisionByZero
  pure ⟨tvSec, sum.tmod nanoseconds⟩

def waitForSeconds (abstime : Timespec) (seconds : ℚ) : Except Fault Timespec := do
  let nanoseconds ← nanoseconds seconds
  absoluteTime abstime nanoseconds

end Condition

end Zhengqi
