import Mathlib.Algebra.Group.Int.Defs
import Mathlib.Algebra.Group.Nat.Defs
import Mathlib.Data.Int.Order.Basic
import Mathlib.Tactic.Common
import Zhengqi.Lib.Run

/-!
# Reading binary data

Readers of an input with a position. `Decodes r enc v` says that `r` takes the bytes `enc` wherever
they stand and answers `v`; it composes as the encodings are written one after the other.
-/

namespace ByteReader

/-! ## Big-endian numbers -/

def beNat (bs : List UInt8) : Nat := bs.foldl (fun n b => n * 256 + b.toNat) 0

/-- The `k` lowest bytes of `n`. -/
def beBytes : (k n : Nat) → List UInt8
  | 0, _ => []
  | k + 1, n => beBytes k (n / 256) ++ [UInt8.ofNat n]

@[simp] theorem length_beBytes (k n : Nat) : (beBytes k n).length = k := by
  induction k generalizing n with
  | zero => rfl
  | succ k ih => rw [beBytes, List.length_append, ih, List.length_singleton]

theorem beNat_beBytes (k n : Nat) : beNat (beBytes k n) = n % 256 ^ k := by
  induction k generalizing n with
  | zero => rw [Nat.pow_zero, Nat.mod_one]; rfl
  | succ k ih =>
    have hlast : beNat (beBytes (k + 1) n) = beNat (beBytes k (n / 256)) * 256 + (UInt8.ofNat n).toNat := by
      rw [beNat, beBytes, List.foldl_append]
      rfl
    have hbyte : (UInt8.ofNat n).toNat = n % 256 := UInt8.toNat_ofNat'
    rw [hlast, ih, hbyte, Nat.pow_succ, Nat.mul_comm (256 ^ k), Nat.mod_mul]
    omega

/-- The bytes as a number in two's complement. -/
def beInt (bs : List UInt8) : Int := (beNat bs : Int).bmod (256 ^ bs.length)

def intBytes (k : Nat) (x : Int) : List UInt8 := beBytes k (x % 256 ^ k).toNat

@[simp] theorem length_intBytes (k : Nat) (x : Int) : (intBytes k x).length = k := length_beBytes ..

theorem beInt_intBytes_bmod (k : Nat) (x : Int) : beInt (intBytes k x) = x.bmod (256 ^ k) := by
  have hpos : (0 : Int) < 256 ^ k := Int.pow_pos (by decide)
  have hcast : ((256 ^ k : Nat) : Int) = 256 ^ k := Int.natCast_pow 256 k
  have hnat : (((x % 256 ^ k).toNat % 256 ^ k : Nat) : Int) = x % ((256 ^ k : Nat) : Int) := by
    rw [Int.natCast_emod, hcast, Int.toNat_of_nonneg (Int.emod_nonneg x (by omega)), Int.emod_emod]
  rw [beInt, length_intBytes, intBytes, beNat_beBytes, hnat, Int.emod_bmod]

theorem beInt_intBytes {k : Nat} {x : Int} (h₀ : -(256 ^ k) ≤ 2 * x) (h₁ : 2 * x < 256 ^ k) :
    beInt (intBytes k x) = x := by
  have hcast : ((256 ^ k : Nat) : Int) = 256 ^ k := Int.natCast_pow 256 k
  rw [beInt_intBytes_bmod]
  exact Int.bmod_eq_of_le_mul_two (by omega) (by omega)

/-! ## Readers -/

structure Input where
  data : List UInt8
  pos : Nat
  deriving DecidableEq

abbrev Reader (ε α : Type) := StateT Input (Except ε) α

variable {ε α β : Type}

/-- Exactly `n` bytes. -/
def take (e : ε) (n : Nat) : Reader ε (List UInt8) := fun f =>
  let bs := (f.data.drop f.pos).take n
  if bs.length = n then .ok (bs, { f with pos := f.pos + n }) else .error e

def rest : Reader ε (List UInt8) := fun f => .ok (f.data.drop f.pos, { f with pos := max f.pos f.data.length })

/-- Moves the position, unless it would leave the input at its start. -/
def seek (n : Int) : Reader ε Unit := fun f =>
  .ok ((), if 0 ≤ f.pos + n then { f with pos := (f.pos + n).toNat } else f)

def times (r : Reader ε α) : Nat → Reader ε (List α)
  | 0 => pure []
  | n + 1 => do
    let a ← r
    let as ← times r n
    pure (a :: as)

theorem bind_apply (r : Reader ε α) (k : α → Reader ε β) (f : Input) : (r >>= k) f = r f >>= fun p => k p.1 p.2 := rfl

theorem lift_bind_apply (x : Except ε α) (k : α → Reader ε β) (f : Input) :
    ((liftM x : Reader ε α) >>= k) f = x >>= fun a => k a f := by
  cases x <;> rfl

/-! ## How a reader fails -/

def Fails (p : ε → Prop) (r : Reader ε α) : Prop := ∀ f, Run.Stops p (r f)

namespace Fails

variable {p : ε → Prop} {r : Reader ε α}

theorem pure (a : α) : Fails p (Pure.pure a : Reader ε α) := fun _ => Run.Stops.ok _

theorem throw {e : ε} (h : p e) : Fails p (MonadExcept.throw e : Reader ε α) := by
  intro f e' h'
  cases h'
  exact h

theorem bind {k : α → Reader ε β} (hr : Fails p r) (hk : ∀ a, Fails p (k a)) : Fails p (r >>= k) :=
  fun f => (hr f).bind fun a _ => hk a.1 a.2

theorem take {e : ε} (n : Nat) (h : p e) : Fails p (take e n) := by
  intro f
  apply Run.Stops.ite
  · exact fun _ => Run.Stops.ok _
  · intro _ e' h'
    cases h'
    exact h

theorem seek (n : Int) : Fails p (seek n) := fun _ => Run.Stops.ok _

theorem times (hr : Fails p r) (n : Nat) : Fails p (times r n) := by
  induction n with
  | zero => exact Fails.pure []
  | succ n ih => exact hr.bind fun a => ih.bind fun as => Fails.pure _

end Fails

/-! ## What a reader takes -/

def Decodes (r : Reader ε α) (enc : List UInt8) (v : α) : Prop :=
  ∀ data pos rest, data.drop pos = enc ++ rest → r ⟨data, pos⟩ = .ok (v, ⟨data, pos + enc.length⟩)

namespace Decodes

variable {r : Reader ε α} {enc enc' : List UInt8} {v : α}

theorem pure (v : α) : Decodes (Pure.pure v : Reader ε α) [] v := by
  intro data pos rest h
  rfl

theorem bind_apply {k : α → Reader ε β} {data rest : List UInt8} {pos : Nat} (hr : Decodes r enc v)
    (h : data.drop pos = enc ++ rest) : (r >>= k) ⟨data, pos⟩ = k v ⟨data, pos + enc.length⟩ := by
  rw [ByteReader.bind_apply, hr _ _ _ h]
  rfl

theorem bind {k : α → Reader ε β} {w : β} (hr : Decodes r enc v) (hk : Decodes (k v) enc' w) :
    Decodes (r >>= k) (enc ++ enc') w := by
  intro data pos rest h
  rw [List.append_assoc] at h
  have hnext : data.drop (pos + enc.length) = enc' ++ rest := by
    rw [← List.drop_drop, h, List.drop_left]
  rw [hr.bind_apply h, List.length_append, ← Nat.add_assoc]
  exact hk _ _ _ hnext

theorem map {f : α → β} (hr : Decodes r enc v) : Decodes (r >>= fun a => Pure.pure (f a)) enc (f v) := by
  have h := hr.bind (k := fun a => Pure.pure (f a)) (Decodes.pure (f v))
  rwa [List.append_nil] at h

theorem take {e : ε} {n : Nat} (h : enc.length = n) : Decodes (take e n) enc enc := by
  intro data pos rest hdata
  rw [ByteReader.take, hdata, ← h, List.take_left]
  exact if_pos rfl

theorem seek {n : Int} (h : n = enc.length) : Decodes (seek n : Reader ε Unit) enc () := by
  intro data pos rest hdata
  rw [ByteReader.seek, h, if_pos (by omega)]
  have : ((pos : Int) + enc.length).toNat = pos + enc.length := by omega
  rw [this]

theorem times {enc : α → List UInt8} {as : List α} (h : ∀ a ∈ as, Decodes r (enc a) a) :
    Decodes (times r as.length) (as.flatMap enc) as := by
  induction as with
  | nil => exact Decodes.pure []
  | cons a as ih =>
    rw [List.length_cons, ByteReader.times, List.flatMap_cons]
    exact (h a (.head as)).bind (ih fun b hb => h b (.tail a hb)).map

end Decodes

/-- The reader is through with an input that ends after `enc`. -/
def DecodesAll (r : Reader ε α) (enc : List UInt8) (v : α) : Prop :=
  ∀ data pos, data.drop pos = enc → ∃ f, r ⟨data, pos⟩ = .ok (v, f)

variable {r : Reader ε α} {enc enc' : List UInt8} {v : α}

theorem Decodes.all (h : Decodes r enc v) : DecodesAll r enc v := by
  intro data pos hdata
  exact ⟨_, h data pos [] (by rw [hdata, List.append_nil])⟩

theorem DecodesAll.rest : DecodesAll (rest : Reader ε (List UInt8)) enc enc := by
  rintro data pos rfl
  exact ⟨_, rfl⟩

theorem Decodes.bind_all {k : α → Reader ε β} {w : β} (hr : Decodes r enc v) (hk : DecodesAll (k v) enc' w) :
    DecodesAll (r >>= k) (enc ++ enc') w := by
  intro data pos h
  obtain ⟨f, hf⟩ := hk data (pos + enc.length) (by rw [← List.drop_drop, h, List.drop_left])
  refine ⟨f, ?_⟩
  rw [hr.bind_apply h]
  exact hf

theorem DecodesAll.map {f : α → β} (hr : DecodesAll r enc v) :
    DecodesAll (r >>= fun a => Pure.pure (f a)) enc (f v) := by
  intro data pos h
  obtain ⟨g, hg⟩ := hr data pos h
  refine ⟨g, ?_⟩
  show (r ⟨data, pos⟩ >>= fun p => (Pure.pure (f p.1) : Reader ε β) p.2) = _
  rw [hg]
  rfl

theorem DecodesAll.lift_bind {x : Except ε α} {k : α → Reader ε β} {w : β} (hx : x = .ok v)
    (hk : DecodesAll (k v) enc w) :
    DecodesAll ((liftM x : Reader ε α) >>= k) enc w := by
  subst hx
  exact hk

/-- What was read is read again. -/
theorem Decodes.rewind {k : Reader ε β} {n : Int} {data rest : List UInt8} {pos : Nat} (hr : Decodes r enc v)
    (hn : n = -enc.length)
    (h : data.drop pos = enc ++ rest) : (r >>= fun _ => ByteReader.seek n >>= fun _ => k) ⟨data, pos⟩ =
      k ⟨data, pos⟩ := by
  rw [hr.bind_apply h]
  show k (if (0 : Int) ≤ (pos + enc.length : Nat) + n then ⟨data, ((pos + enc.length : Nat) + n).toNat⟩ else _) = _
  rw [if_pos (by omega), show (((pos + enc.length : Nat) : Int) + n).toNat = pos by omega]

end ByteReader
