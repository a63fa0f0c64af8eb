/-!
# Timestamps

`utility/Timestamp.h`: microseconds since the epoch, where `0` is the invalid
time a default constructor leaves.
-/

namespace Zhengqi

abbrev Timestamp := Int

def kMicroSecondsPerSecond : Int := 1000 * 1000

/-- `struct timespec`. -/
structure Timespec where
  tvSec : Int
  tvNsec : Int
  deriving DecidableEq, Repr

end Zhengqi
