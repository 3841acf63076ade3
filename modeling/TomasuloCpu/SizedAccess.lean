import Mathlib.Data.Nat.Digits.Defs
import TomasuloCpu.Bytes
import TomasuloCpu.Encode

set_option autoImplicit false

/-!
# Sized accesses

A load of any size after a store of any size, in terms of the bytes of memory.
-/
namespace TomasuloCpu

/-- The number that the `n` bytes at `b` represent, the least significant first. -/
def littleEndian (data : MemData) (b n : ℕ) : ℕ :=
  Nat.ofDigits 256 ((List.range n).map fun i => (data (b + i)).toNat)

def storedBytes (data : MemData) (a n : ℕ) (value : Word) : MemData := fun k =>
  if a ≤ k ∧ k < a + n then value.extractLsb' (8 * (k - a)) 8 else data k

def extendTo (size : LsSize) (x : ℕ) : Word :=
  if size = LsSize.byte then (BitVec.ofNat 8 x).signExtend 32
  else if size = LsSize.hword then (BitVec.ofNat 16 x).signExtend 32
  else BitVec.ofNat 32 x

def storeSizes : List LsSize := [LsSize.byte, LsSize.hword, LsSize.word]

def loadSizes : List LsSize :=
  [LsSize.byte, LsSize.hword, LsSize.word, LsSize.byteu, LsSize.hwordu]

variable {data : MemData} {a b n : ℕ}

theorem littleEndian_succ :
    littleEndian data b (n + 1) = (data b).toNat + 256 * littleEndian data (b + 1) n := by
  have hrest : (fun i => (data (b + i)).toNat) ∘ Nat.succ = fun i => (data (b + 1 + i)).toNat := by
    funext i
    simp only [Function.comp_apply]
    congr 2
    omega
  rw [littleEndian, List.range_succ_eq_map, List.map_cons, List.map_map, hrest, Nat.ofDigits_cons]
  rfl

theorem littleEndian_lt : littleEndian data b n < 256 ^ n := by
  induction n generalizing b with
  | zero => simp [littleEndian]
  | succ n ih =>
    have hb := (data b).isLt
    have hrest := ih (b := b + 1)
    rw [littleEndian_succ, Nat.pow_succ]
    omega

theorem bytesAt_eq_littleEndian : bytesAt data b n = BitVec.ofNat 32 (littleEndian data b n) := by
  induction n generalizing b with
  | zero => rfl
  | succ n ih =>
    have hdisj :
        (data b).setWidth 32 &&& BitVec.ofNat 32 (littleEndian data (b + 1) n) <<< 8 = 0 := by
      apply BitVec.eq_of_getLsbD_eq
      intro i hi
      simp only [BitVec.getLsbD_and, BitVec.getLsbD_setWidth, BitVec.getLsbD_shiftLeft]
      by_cases h8 : i < 8
      · simp [h8]
      · simp [BitVec.getLsbD_of_ge (data b) i (by omega)]
    rw [bytesAt, ih, ← BitVec.add_eq_or_of_and_eq_zero _ _ hdisj, littleEndian_succ]
    apply BitVec.eq_of_toNat_eq
    simp only [BitVec.toNat_add, BitVec.toNat_setWidth, BitVec.toNat_shiftLeft, BitVec.toNat_ofNat,
      Nat.shiftLeft_eq]
    omega

theorem bytesAt_eq_setWidth (h : n ≤ 4) :
    bytesAt data b n = (BitVec.ofNat (8 * n) (littleEndian data b n)).setWidth 32 := by
  have hlt : littleEndian data b n < 2 ^ (8 * n) := by
    rw [Nat.pow_mul]
    exact littleEndian_lt
  have hw : 2 ^ (8 * n) ≤ 2 ^ 32 := Nat.pow_le_pow_right (by omega) (by omega)
  apply BitVec.eq_of_toNat_eq
  rw [bytesAt_eq_littleEndian, BitVec.toNat_ofNat, BitVec.toNat_setWidth, BitVec.toNat_ofNat,
    Nat.mod_eq_of_lt hlt]

theorem memGetSz_eq (addr : Addr) {size : LsSize} (h : size ∈ loadSizes) :
    memGetSz data addr size =
      some (extendTo size (littleEndian data addr.toNat (lsBytes size))) := by
  simp only [loadSizes, List.mem_cons, List.not_mem_nil, or_false] at h
  obtain rfl | rfl | rfl | rfl | rfl := h
  · change some (signExtend (bytesAt data addr.toNat 1) 8) = some _
    rw [bytesAt_eq_setWidth (by omega), signExtend_setWidth (by omega) (by omega)]
    rfl
  · change some (signExtend (bytesAt data addr.toNat 2) 16) = some _
    rw [bytesAt_eq_setWidth (by omega), signExtend_setWidth (by omega) (by omega)]
    rfl
  · change some (bytesAt data addr.toNat 4) = some _
    rw [bytesAt_eq_littleEndian]
    rfl
  · change some (bytesAt data addr.toNat 1) = some _
    rw [bytesAt_eq_littleEndian]
    rfl
  · change some (bytesAt data addr.toNat 2) = some _
    rw [bytesAt_eq_littleEndian]
    rfl

theorem setBytes_eq (value : Word) : setBytes data a value n = storedBytes data a n value := by
  induction n generalizing data a value with
  | zero =>
    funext k
    have : ¬(a ≤ k ∧ k < a + 0) := by omega
    rw [setBytes, storedBytes, if_neg this]
  | succ n ih =>
    funext k
    rw [setBytes, ih, storedBytes, storedBytes]
    by_cases hk : a + 1 ≤ k ∧ k < a + 1 + n
    · have hk' : a ≤ k ∧ k < a + (n + 1) := by omega
      have hshift : 8 + 8 * (k - (a + 1)) = 8 * (k - a) := by omega
      rw [if_pos hk, if_pos hk']
      apply BitVec.eq_of_getLsbD_eq
      intro i hi
      simp only [BitVec.getLsbD_extractLsb', hi, decide_true, Bool.true_and,
        BitVec.getLsbD_ushiftRight, ← Nat.add_assoc, hshift]
    · rw [if_neg hk]
      by_cases ha : k = a
      · subst ha
        have hk' : k ≤ k ∧ k < k + (n + 1) := by omega
        rw [if_pos hk', Function.update_self, Nat.sub_self]
        apply BitVec.eq_of_getLsbD_eq
        intro i hi
        simp [hi]
      · have hk' : ¬(a ≤ k ∧ k < a + (n + 1)) := by omega
        rw [if_neg hk', Function.update_of_ne ha]

theorem memSetSz_eq (addr : Addr) (value : Word) {size : LsSize} (h : size ∈ storeSizes) :
    memSetSz data addr value size =
      some (storedBytes data addr.toNat (lsBytes size) value) := by
  simp only [storeSizes, List.mem_cons, List.not_mem_nil, or_false] at h
  obtain rfl | rfl | rfl := h
  · exact congrArg some (setBytes_eq value)
  · exact congrArg some (setBytes_eq value)
  · exact congrArg some (setBytes_eq value)

theorem memGetSz_memSetSz (data : MemData) (addr1 addr2 : Addr) (value : Word)
    {size1 size2 : LsSize} (h1 : size1 ∈ storeSizes) (h2 : size2 ∈ loadSizes) :
    ∃ data', memSetSz data addr1 value size1 = some data' ∧
      (∀ k, data' k = if addr1.toNat ≤ k ∧ k < addr1.toNat + lsBytes size1 then
        value.extractLsb' (8 * (k - addr1.toNat)) 8 else data k) ∧
      memGetSz data' addr2 size2 =
        some (extendTo size2 (littleEndian data' addr2.toNat (lsBytes size2))) :=
  ⟨_, memSetSz_eq addr1 value h1, fun _ => rfl, memGetSz_eq addr2 h2⟩

/-- The sign of a half word comes from a store to its upper byte. -/
theorem memGetSz_memSetSz_overlap : ∃ data',
    memSetSz (fun _ => 0x7f) 101 0x80ff LsSize.hword = some data' ∧
      memGetSz data' 100 LsSize.hword = some 0xffffff7f := by
  obtain ⟨data', hset, hbytes, hget⟩ :=
    @memGetSz_memSetSz (fun _ => 0x7f) 101 100 0x80ff LsSize.hword LsSize.hword
      (by decide) (by decide)
  refine ⟨data', hset, ?_⟩
  have hload : littleEndian data' 100 (lsBytes LsSize.hword) = 0xff7f := by
    change littleEndian data' 100 2 = 0xff7f
    simp only [littleEndian, List.range_succ, List.range_zero, List.nil_append, List.cons_append,
      List.map_cons, List.map_nil, hbytes]
    decide
  rw [hget, show (100 : Addr).toNat = 100 from rfl, hload]
  decide

end TomasuloCpu
