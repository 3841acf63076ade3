import TomasuloCpu.Isa
import TomasuloCpu.Words

set_option autoImplicit false

/-!
# `fakecpu` and a hart in lockstep

A hart that runs the words in its memory, whatever they are: the loop over
`fakecpu_tick` is in the same state after each step, stops where the hart meets HCF and
fails where the hart has no instruction to execute. Stores may change the code.
-/
namespace TomasuloCpu
open Labelled

namespace Hart

def fetch (h : Hart) : Word := BitVec.ofNat 32 (h.number h.pc 4)

/-- At most `n` instructions, up to HCF, and whether it was met; `none` at a word that
    is no instruction. -/
def run : ℕ → Hart → Option (Hart × Bool)
  | 0, h => some (h, false)
  | n + 1, h =>
    if h.fetch = instMagicHcf then some (h, true)
    else (Rv32i.ofWord h.fetch).bind fun i => run n (h.exec i)

/-- The code executes the word at the pc as RV32I does. -/
structure Follows (h : Hart) : Prop where
  pc : h.pc.toNat + 4 ≤ memSize
  shift : ShiftCoded h.fetch
  decodable : ∀ i ∈ Rv32i.ofWord h.fetch, i.Decodable
  alu : ∀ i ∈ Rv32i.ofWord h.fetch, h.AluExact i
  inside : ∀ i ∈ Rv32i.ofWord h.fetch, h.Inside i

end Hart

instance (value : Word) (k : ℕ) : Decidable (Mirrored value k) :=
  inferInstanceAs (Decidable (_ ∧ _ ∧ _))

instance (value1 value2 : Word) : DecidablePred (AluName.Exact value1 value2)
  | .sll | .srl => inferInstanceAs (Decidable (_ < _))
  | .sra => inferInstanceAs (Decidable (_ ∧ _))
  | .add | .slt | .sltu | .xor | .or | .and | .sub | .beq | .bne | .blt | .bge | .bltu | .bgeu =>
    .isTrue trivial

instance : DecidablePred Rv32i.Decodable
  | .imm op _ _ imm12 => decidable_of_iff (op = .sltiu → imm12.msb = false) (by
      cases op <;> simp [Rv32i.Decodable])
  | .shift op _ _ _ => decidable_of_iff (op ≠ .srai) (by cases op <;> simp [Rv32i.Decodable])
  | .store _ _ _ _ | .reg _ _ _ _ | .branch _ _ _ _ | .upper _ _ _ | .jal _ _ => .isTrue trivial

namespace Hart
variable (h : Hart)

instance : DecidablePred h.AluExact
  | .reg op _ rs1 rs2 => inferInstanceAs (Decidable (op.alu.Exact (h.x rs1) (h.x rs2)))
  | .imm _ _ _ _ | .shift _ _ _ _ | .store _ _ _ _ | .branch _ _ _ _ | .upper _ _ _ | .jal _ _ =>
    .isTrue trivial

instance : DecidablePred h.Inside
  | .imm op _ rs1 imm12 =>
    show Decidable (∀ size ∈ op.loadSize, (h.x rs1 + imm12.signExtend 32).toNat + _ ≤ memSize) from
      Option.decidableForallMem _
  | .store _ _ _ _ => inferInstanceAs (Decidable (_ ≤ _))
  | .reg _ _ _ _ | .shift _ _ _ _ | .branch _ _ _ _ | .upper _ _ _ | .jal _ _ => .isTrue trivial

instance : Decidable h.Follows :=
  have : Decidable (∀ i ∈ Rv32i.ofWord h.fetch, i.Decodable ∧ h.AluExact i ∧ h.Inside i) :=
    Option.decidableForallMem _
  decidable_of_iff (h.pc.toNat + 4 ≤ memSize ∧ ShiftCoded h.fetch ∧
      ∀ i ∈ Rv32i.ofWord h.fetch, i.Decodable ∧ h.AluExact i ∧ h.Inside i)
    ⟨fun ⟨hp, hs, hi⟩ =>
        ⟨hp, hs, fun i h => (hi i h).1, fun i h => (hi i h).2.1, fun i h => (hi i h).2.2⟩,
      fun hf => ⟨hf.pc, hf.shift, fun i h => ⟨hf.decodable i h, hf.alu i h, hf.inside i h⟩⟩⟩

variable {h}

theorem fetch_of_fetches {code : Addr → Prop} {w : Word} (hf : h.Fetches code w) :
    h.fetch = w := by
  rw [fetch, hf.word, BitVec.ofNat_toNat, BitVec.setWidth_eq]

theorem run_of_steps {code : Addr → Prop} {is : List Rv32i} {h' : Hart}
    (hs : Steps (Step code) h is h') : run is.length h = some (h', false) := by
  induction hs with
  | nil => rfl
  | cons first rest ih =>
    have hw := fetch_of_fetches first.fetches
    rw [List.length_cons, run, hw, if_neg first.exact.running, ofWord_encode, Option.bind_some,
      ← first.exec, ih]

end Hart

namespace FakeCpu
variable {cpu : FakeCpu}

theorem memGetInst_hart (h : cpu.pc.toNat + 4 ≤ memSize) :
    memGetInst cpu.data cpu.pc = cpu.hart.fetch := by
  have hnum : cpu.hart.number cpu.pc 4 = littleEndian cpu.data cpu.pc.toNat 4 := number_hart h
  rw [memGetInst, bytesAt_eq_littleEndian, ← hnum]
  rfl

variable [WideShift]

theorem tick_eq_execute {w : Word} (h : memGetInst cpu.data cpu.pc = w) (hw : w ≠ instMagicHcf) :
    cpu.tick = cpu.execute (instDecode w) := by
  rw [tick, h]
  by_cases hk : instGet w opcodeMask 0 ∈ opcodes
  · have hmagic := op_ne_magic (instSelect_op w hk) hk
    rw [← instDecode_op hw] at hmagic
    exact (if_neg hmagic.1).trans (if_neg hmagic.2)
  · have hop : (instDecode w).op = InstOp.unimp := (instDecode_op hw).trans (instSelect_unimp w hk)
    rw [execute_unknown hk, hop]
    rfl

theorem tick_of_follows (hf : cpu.hart.Follows) (hw : cpu.hart.fetch ≠ instMagicHcf) :
    (cpu.tick = none ∧ Rv32i.ofWord cpu.hart.fetch = none) ∨
      ∃ i cpu', Rv32i.ofWord cpu.hart.fetch = some i ∧ cpu.tick = some cpu' ∧
        cpu.Executes i cpu' := by
  rw [tick_eq_execute (memGetInst_hart hf.pc) hw, execute_word hf.shift]
  cases hi : Rv32i.ofWord cpu.hart.fetch with
  | none => exact .inl ⟨rfl, rfl⟩
  | some i =>
    obtain ⟨cpu', ht, hx⟩ := executes_of_exact
      ⟨encode_ne_magic hi hw, hf.decodable i hi, hf.alu i hi, hf.inside i hi⟩
    exact .inr ⟨i, cpu', rfl, ht, hx⟩

theorem run_hart {n : ℕ} (hc : cpu.hcf = false)
    (hf : ∀ k < n, ∀ p ∈ Hart.run k cpu.hart, p.2 = false → p.1.Follows) :
    (run n cpu).map (fun cpu => (cpu.hart, cpu.hcf)) = Hart.run n cpu.hart := by
  induction n generalizing cpu with
  | zero =>
    rw [run, Hart.run, Option.map_some, hc]
  | succ n ih =>
    have hnow : cpu.hart.Follows := hf 0 (Nat.succ_pos n) _ rfl rfl
    rw [run, hc, Hart.run]
    by_cases hw : cpu.hart.fetch = instMagicHcf
    · have hop : (instDecode instMagicHcf).op = InstOp.hcf := by decide
      have ht : cpu.tick = some { cpu with hcf := true } := by
        rw [tick, memGetInst_hart hnow.pc, hw]
        exact if_pos hop
      rw [if_pos hw, if_neg Bool.false_ne_true, ht, Option.bind_some, run_of_hcf rfl]
      rfl
    · rw [if_neg hw, if_neg Bool.false_ne_true]
      rcases tick_of_follows hnow hw with ⟨ht, hi⟩ | ⟨i, cpu', hi, ht, hx⟩
      · rw [ht, hi]
        rfl
      · rw [ht, hi, Option.bind_some, Option.bind_some, ← hx.hart]
        refine ih (hx.hcf.trans hc) fun k hk p hp => hf (k + 1) (Nat.succ_lt_succ hk) p ?_
        rw [Hart.run, if_neg hw, hi, Option.bind_some, ← hx.hart]
        exact hp

end FakeCpu

variable [WideShift]

/-- After each step `fakecpu` is in the state of the hart, or both have failed. -/
theorem fakecpu_lockstep (image : MemData) {n : ℕ}
    (hf : ∀ k < n, ∀ p ∈ Hart.run k (Hart.start image), p.2 = false → p.1.Follows) :
    (FakeCpu.run n (fakeCpuCreate image)).map (fun cpu => (cpu.hart, cpu.hcf)) =
      Hart.run n (Hart.start image) := by
  have hstart : (fakeCpuCreate image).hart = Hart.start image :=
    (at_fakeCpuCreate : FakeCpu.At (fun _ => True) _ _).hart
  rw [← hstart] at hf ⊢
  exact FakeCpu.run_hart rfl hf

/-- A program that stores ADDI to the word after the store, which is none. -/
def patchProgram : List Word := [0x007000b7, 0x51308093, 0x00102623, 0, instMagicHcf]

omit [WideShift] in
theorem fakecpu_lockstep_patch :
    (@FakeCpu.run .masked 6 (fakeCpuCreate (imageOf patchProgram))).map
        (fun cpu => (cpu.hart, cpu.hcf)) = Hart.run 6 (Hart.start (imageOf patchProgram)) ∧
      (Hart.run 6 (Hart.start (imageOf patchProgram))).map (fun p => (p.1.x 10, p.2)) =
        some (7, true) :=
  ⟨@fakecpu_lockstep .masked (imageOf patchProgram) 6 (by decide +kernel), by decide +kernel⟩

end TomasuloCpu
