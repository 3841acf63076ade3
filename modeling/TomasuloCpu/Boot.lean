import TomasuloCpu.Run

set_option autoImplicit false

/-!
# Booting a program

The CPU after some ticks of a program, on a target that masks shift counts and
with callbacks in the order of their registration.
-/
namespace TomasuloCpu
open Clocked

/-- A target whose shifts use the low five bits of the count. -/
@[reducible] def WideShift.masked : WideShift where
  shl value1 value2 := value1 <<< (value2.toNat % 32)
  shr value1 value2 := value1 >>> (value2.toNat % 32)
  signedShl value1 value2 := value1 <<< (value2.toNat % 32)

def imageOf (program : List Word) : MemData := fun a =>
  (program.getD (a / 4) 0 >>> (8 * (a % 4))).setWidth 8

def boot (program : List Word) : Cpu := cpuCreate (imageOf program) (fun _ _ => 0) 0

def bootTicks (n : ℕ) : List Schedule := List.replicate n .inOrder

/-- The CPU after `n` ticks, if none of them trips an assertion. -/
def bootCpu (n : ℕ) (program : List Word) : Cpu :=
  (@cpuRun .masked (bootTicks n) (boot program)).toOption.getD (boot program)

theorem bootCpu_eq {n : ℕ} {program : List Word} {c : Cpu}
    (h : @cpuRun .masked (bootTicks n) (boot program) = .ok c) : bootCpu n program = c := by
  simp [bootCpu, h, Except.toOption]

theorem cpuRun_boot {n : ℕ} {program : List Word}
    (h : (@cpuRun .masked (bootTicks n) (boot program)).isOk = true) :
    @cpuRun .masked (bootTicks n) (boot program) = .ok (bootCpu n program) := by
  cases hr : @cpuRun .masked (bootTicks n) (boot program) with
  | error f => simp [hr, Except.isOk, Except.toBool] at h
  | ok c => rw [bootCpu_eq hr]

theorem cpuTick_boot {n : ℕ} {program : List Word}
    (h : (@cpuRun .masked (bootTicks (n + 1)) (boot program)).isOk = true) :
    @cpuTick .masked .inOrder (bootCpu n program) = .ok (bootCpu (n + 1) program) := by
  let _ := WideShift.masked
  have hr := cpuRun_boot h
  rw [bootTicks, List.replicate_succ', cpuRun_append] at hr
  obtain ⟨c, h₁, h₂⟩ := bind_ok.1 hr
  obtain ⟨c', h₂, h₃⟩ := bind_ok.1 h₂
  cases h₃
  rw [bootCpu_eq h₁, h₂]

/-- JALR to address 8 and a use of the link register there. -/
def linkProgram : List Word := [0x008000e7, 0, 0x00008113, instMagicHcf]

/-- A branch that is predicted taken and is not. -/
def branchProgram : List Word := [0x00001463, 0x00100093, 0x00200113, instMagicHcf]

def storeProgram : List Word := [0x06002223, instMagicHcf]

def loadProgram : List Word := [0x00002083, instMagicHcf]

/-- A store of -1, a load of the same word, and HCF. -/
def storeLoadProgram : List Word := [0xfff00293, 0x06502223, 0x06402303, instMagicHcf]

def threeStoresProgram : List Word := [0x06002223, 0x06002423, 0x06002623, instMagicHcf]

/-- Twelve stores, which memory performs more slowly than they commit. -/
def storeBurst : List Word := List.replicate 12 0x10002023 ++ [instMagicHcf]

end TomasuloCpu
