import Mathlib.Logic.Function.Basic
import TomasuloCpu.Memory

set_option autoImplicit false

/-!
# Accesses to different bytes

A store leaves the bytes next to it alone.
-/
namespace TomasuloCpu

def Apart (a : Addr) (m : ℕ) (b : Addr) (n : ℕ) : Prop :=
  a.toNat + m ≤ b.toNat ∨ b.toNat + n ≤ a.toNat

instance (a : Addr) (m : ℕ) (b : Addr) (n : ℕ) : Decidable (Apart a m b n) :=
  inferInstanceAs (Decidable (_ ∨ _))

def lsBytes (size : LsSize) : ℕ := (lsSize size).getD 0

variable {data : MemData} {a b m n : ℕ}

theorem bytesAt_update {x : Byte} (h : a < b ∨ b + n ≤ a) :
    bytesAt (Function.update data a x) b n = bytesAt data b n := by
  induction n generalizing b with
  | zero => rfl
  | succ n ih =>
    have hne : b ≠ a := by omega
    rw [bytesAt, bytesAt, ih (by omega), Function.update_of_ne hne]

theorem bytesAt_setBytes {value : Word} (h : a + m ≤ b ∨ b + n ≤ a) :
    bytesAt (setBytes data a value m) b n = bytesAt data b n := by
  induction m generalizing data a value with
  | zero => rfl
  | succ m ih => rw [setBytes, ih (by omega), bytesAt_update (by omega)]

/-- A store keeps the words that it does not overlap. -/
theorem memGetInst_memSetSz {addr pc : Addr} {value : Word} {size : LsSize} {data' : MemData}
    (h : memSetSz data addr value size = some data') (ha : Apart addr (lsBytes size) pc 4) :
    memGetInst data' pc = memGetInst data pc := by
  unfold memSetSz at h
  dsimp only at h
  split_ifs at h with hb hh hw
  · cases h
    rw [hb] at ha
    exact bytesAt_setBytes ha
  · cases h
    rw [hh] at ha
    exact bytesAt_setBytes ha
  · cases h
    rw [hw] at ha
    exact bytesAt_setBytes ha

end TomasuloCpu
