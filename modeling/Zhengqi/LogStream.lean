import Zhengqi.Buffer

/-!
# FixedBuffer

`FixedBuffer` of `utility/LogStream.h`.
-/

namespace Zhengqi

def kLargeBuffer : Nat := 4000 * 1000

/-- `data_` up to `cur_`. -/
structure FixedBuffer (size : Nat) where
  data : Bytes
  fits : data.length ≤ size
  deriving DecidableEq

namespace FixedBuffer

variable {size : Nat}

def empty : FixedBuffer size := ⟨[], Nat.zero_le size⟩

@[simp] theorem data_empty : (empty : FixedBuffer size).data = [] := rfl

def length (b : FixedBuffer size) : Nat := b.data.length

def avail (b : FixedBuffer size) : Nat := size - b.length

theorem fits_append (b : FixedBuffer size) {buf : Bytes} (h : buf.length < b.avail) :
    (b.data ++ buf).length ≤ size := by
  rw [avail, length] at h
  rw [List.length_append]
  omega

def append (b : FixedBuffer size) (buf : Bytes) : FixedBuffer size :=
  if h : buf.length < b.avail then ⟨b.data ++ buf, b.fits_append h⟩ else b

def reset (_ : FixedBuffer size) : FixedBuffer size := .empty

theorem data_append {b : FixedBuffer size} {buf : Bytes} (h : buf.length < b.avail) :
    (b.append buf).data = b.data ++ buf := by
  rw [append, dif_pos h]

theorem append_of_le {b : FixedBuffer size} {buf : Bytes} (h : b.avail ≤ buf.length) : b.append buf = b := by
  rw [append, dif_neg (Nat.not_lt.mpr h)]

end FixedBuffer

end Zhengqi
