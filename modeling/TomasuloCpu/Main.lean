import TomasuloCpu.Boot
import TomasuloCpu.FakeRun
import TomasuloCpu.Io

set_option autoImplicit false

/-!
# The two programs

`main.c` and `write_result` of `io.c`. The build with `FAKE` runs the sequential
CPU. A loop takes the number of iterations it may make; for the loop over
`cpu_tick` the schedules of its ticks give that number.
-/
namespace TomasuloCpu
open Clocked

/-- The CPU, what `rm_read` finds after its last tick, and the count of the clock. -/
structure Machine where
  cpu : Cpu
  read : Latched
  clk : ℤ

def machineCreate (image : MemData) (garbage : ℤ → ℤ → ℤ) (hist : ℤ) : Machine where
  cpu := cpuCreate image garbage hist
  read := { rm := CpuReg.zero, rr := fun _ => false, gnt := 0, robIds := fun _ => 0 }
  clk := 0

def resultRegId : RegId := 10

def resultMask : Word := 255

def writeResult (s : Latched) : String :=
  toString (regStoreGet s resultRegId &&& resultMask).toNat ++ "\n"

/-- The counters that the build with `STATS` prints. -/
structure Stats where
  commits : ℤ
  cycles : ℤ
  bpTotal : ℤ
  bpCorrect : ℤ
  jalrTotal : ℤ
  jalrCorrect : ℤ
  deriving DecidableEq, Repr

def stats (m : Machine) : Stats where
  commits := m.cpu.plain.commitCount
  cycles := m.clk
  bpTotal := m.cpu.plain.bp.total
  bpCorrect := m.cpu.plain.bp.correct
  jalrTotal := m.cpu.plain.bp.jalrTotal
  jalrCorrect := m.cpu.plain.bp.jalrCorrect

variable [WideShift]

/-- `while (!hcf) cpu_tick(cpu)` -/
def cpuLoop : List Schedule → Machine → Except Fault Machine
  | [], m => .ok m
  | o :: os, m =>
    if m.cpu.plain.hcf then .ok m
    else do cpuLoop os ⟨← cpuTick o m.cpu, latch m.cpu, m.clk + 1⟩

section
variable (unset : List Byte → Word)

/-- What `main` prints; `none` where it needs more iterations. -/
def cpuMain (garbage : ℤ → ℤ → ℤ) (hist : ℤ) (n : ℕ) (os : List Schedule) (stdin : List Byte) :
    Option (Except Fault String) :=
  match readToMemory unset n stdin with
  | none => none
  | some (.error f) => some (.error f)
  | some (.ok loader) =>
    match cpuLoop os (machineCreate loader.data garbage hist) with
    | .error f => some (.error f)
    | .ok m => if m.cpu.plain.hcf then some (.ok (writeResult m.read)) else none

def fakeMain (n ticks : ℕ) (stdin : List Byte) : Option (Except Fault String) :=
  match readToMemory unset n stdin with
  | none => none
  | some (.error f) => some (.error f)
  | some (.ok loader) =>
    match FakeCpu.run ticks (fakeCpuCreate loader.data) with
    | none => some (.error .assertion)
    | some cpu =>
      if cpu.hcf then some (.ok (toString (cpu.regs 10 &&& 255).toInt ++ "\n")) else none

end

/-- Every tick of the loop meets a condition on the state before it. -/
def LoopAll (P : Schedule → Cpu → Prop) : List Schedule → Cpu → Prop
  | [], _ => True
  | o :: os, c =>
    c.plain.hcf = false → P o c ∧ ∀ c', cpuTick o c = .ok c' → LoopAll P os c'

instance LoopAll.decidable {_ : WideShift} {P : Schedule → Cpu → Prop} [∀ o c, Decidable (P o c)] :
    ∀ os c, Decidable (LoopAll P os c)
  | [], _ => .isTrue trivial
  | o :: os, c =>
    have : Decidable (∀ c', cpuTick o c = .ok c' → LoopAll P os c') :=
      match cpuTick o c with
      | .ok c' => @decidable_of_iff _ (LoopAll P os c') ⟨fun h _ he => by cases he; exact h,
          fun h => h c' rfl⟩ (LoopAll.decidable os c')
      | .error _ => .isTrue fun _ he => by cases he
    inferInstanceAs (Decidable (_ → _ ∧ _))

section
variable {P : Schedule → Cpu → Prop} {os : List Schedule} {c : Cpu} {m m' : Machine}

theorem loopAll_true : ∀ os c, LoopAll (fun _ _ => True) os c
  | [], _ => trivial
  | _ :: os, _ => fun _ => ⟨trivial, fun c' _ => loopAll_true os c'⟩

theorem LoopAll.and {Q : Schedule → Cpu → Prop} (hP : LoopAll P os c) (hQ : LoopAll Q os c) :
    LoopAll (fun o c => P o c ∧ Q o c) os c := by
  induction os generalizing c with
  | nil => trivial
  | cons o os ih =>
    intro hh
    exact ⟨⟨(hP hh).1, (hQ hh).1⟩, fun c' ht => ih ((hP hh).2 c' ht) ((hQ hh).2 c' ht)⟩

theorem run_of_cpuLoop (hP : LoopAll P os m.cpu) (h : cpuLoop os m = .ok m') :
    ∃ os₁ os₂, os = os₁ ++ os₂ ∧ cpuRun os₁ m.cpu = .ok m'.cpu ∧ RunAll P os₁ m.cpu ∧
      m'.clk = m.clk + os₁.length ∧ (os₂ = [] ∨ m'.cpu.plain.hcf = true) := by
  induction os generalizing m with
  | nil =>
    cases h
    exact ⟨[], [], rfl, rfl, trivial, (Int.add_zero _).symm, .inl rfl⟩
  | cons o os ih =>
    rw [cpuLoop] at h
    split at h
    · next hh =>
      cases h
      exact ⟨[], o :: os, rfl, rfl, trivial, (Int.add_zero _).symm, .inr hh⟩
    · next hh =>
      obtain ⟨c, ht, h⟩ := bind_ok.1 h
      obtain ⟨hPo, hrest⟩ := hP (by simpa using hh)
      obtain ⟨os₁, os₂, rfl, hr, hall, hclk, hend⟩ := ih (hrest c ht) h
      refine ⟨o :: os₁, os₂, rfl, bind_ok.2 ⟨c, ht, hr⟩, ⟨hPo, fun c' ht' => ?_⟩, ?_, hend⟩
      · obtain rfl : c = c' := Except.ok.inj (ht.symm.trans ht')
        exact hall
      · rw [hclk, List.length_cons]
        push_cast
        omega

theorem cpuLoop_induction {J : Machine → Prop} (h0 : J m)
    (hstep : ∀ {o m c}, J m → m.cpu.plain.hcf = false → cpuTick o m.cpu = .ok c →
      J ⟨c, latch m.cpu, m.clk + 1⟩)
    (h : cpuLoop os m = .ok m') : J m' := by
  induction os generalizing m with
  | nil =>
    cases h
    exact h0
  | cons o os ih =>
    rw [cpuLoop] at h
    split at h
    · cases h
      exact h0
    · next hh =>
      obtain ⟨c, ht, h⟩ := bind_ok.1 h
      exact ih (hstep h0 (by simpa using hh) ht) h

theorem LoopAll.imp {Q : Schedule → Cpu → Prop} (hP : LoopAll P os c)
    (h : ∀ o c, P o c → Q o c) : LoopAll Q os c := by
  induction os generalizing c with
  | nil => trivial
  | cons o os ih => exact fun hh => ⟨h o c (hP hh).1, fun c' ht => ih ((hP hh).2 c' ht)⟩

theorem LoopAll.invariant {I : Cpu → Prop} (hP : LoopAll P os c) (h0 : I c)
    (hstep : ∀ {o c c'}, I c → P o c → cpuTick o c = .ok c' → I c') :
    LoopAll (fun o c => I c ∧ P o c) os c := by
  induction os generalizing c with
  | nil => trivial
  | cons o os ih =>
    intro hh
    exact ⟨⟨h0, (hP hh).1⟩, fun c' ht => ih ((hP hh).2 c' ht) (hstep h0 (hP hh).1 ht)⟩

/-- The loop fails as its ticks do. -/
theorem LoopAll.error {E : Fault → Prop} (hP : LoopAll P os m.cpu)
    (hstep : ∀ {o c f}, P o c → cpuTick o c = .error f → E f) {f : Fault}
    (h : cpuLoop os m = .error f) : E f := by
  induction os generalizing m with
  | nil => cases h
  | cons o os ih =>
    rw [cpuLoop] at h
    split at h
    · cases h
    · next hh =>
      obtain ⟨hPo, hrest⟩ := hP (by simpa using hh)
      cases ht : cpuTick o m.cpu with
      | error f' =>
        rw [ht] at h
        cases h
        exact hstep hPo ht
      | ok c =>
        rw [ht] at h
        exact ih (m := ⟨c, latch m.cpu, m.clk + 1⟩) (hrest c ht) h

theorem LoopAll.exists_ok (hP : LoopAll P os m.cpu)
    (hstep : ∀ {o c}, P o c → ∃ c', cpuTick o c = .ok c') : ∃ m', cpuLoop os m = .ok m' := by
  cases h : cpuLoop os m with
  | ok m' => exact ⟨m', rfl⟩
  | error f =>
    refine (hP.error (E := fun _ => False) (fun {o c f} hp ht => ?_) h).elim
    obtain ⟨c', ht'⟩ := hstep hp
    rw [ht] at ht'
    cases ht'

end

def bootMachine (n : ℕ) (program : List Word) : Machine where
  cpu := bootCpu n program
  read := latch (bootCpu (n - 1) program)
  clk := n

def loopMachine (n : ℕ) (m : Machine) : Machine :=
  (@cpuLoop .masked (bootTicks n) m).toOption.getD m

omit [WideShift] in
theorem cpuLoop_boot {n : ℕ} {m : Machine}
    (h : (@cpuLoop .masked (bootTicks n) m).isOk = true) :
    @cpuLoop .masked (bootTicks n) m = .ok (loopMachine n m) := by
  cases hr : @cpuLoop .masked (bootTicks n) m with
  | error f => simp [hr, Except.isOk, Except.toBool] at h
  | ok m' => simp [loopMachine, hr, Except.toOption]

end TomasuloCpu
