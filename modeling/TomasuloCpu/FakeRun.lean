import TomasuloCpu.Bytes
import TomasuloCpu.FakeCpu

set_option autoImplicit false

/-!
# Runs of the sequential CPU

The loop of `main.c` over `fakecpu_tick`, and the images on which it works.
-/
namespace TomasuloCpu.FakeCpu

def access (cpu : FakeCpu) : Option (Addr × LsSize) :=
  let inst := instDecode (memGetInst cpu.data cpu.pc)
  if inst.opcode = Opcode.load ∨ inst.opcode = Opcode.store then
    some (inst.immediate + cpu.get inst.rs1, inst.width)
  else none

def InRange (cpu : FakeCpu) : Prop :=
  cpu.pc.toNat + 4 ≤ memSize ∧
    ∀ a ∈ cpu.access, a.1.toNat + lsBytes a.2 ≤ memSize

-- not through the finite type of all addresses
instance (cpu : FakeCpu) : Decidable cpu.InRange :=
  @instDecidableAnd _ _ inferInstance (Option.decidableForallMem _)

/-- An executed instruction left the word at `pc` alone. -/
def Spares (pc : Addr) : Retired → Prop
  | .store _ addr _ size => Apart addr (lsBytes size) pc 4
  | _ => True

instance (pc : Addr) : DecidablePred (Spares pc)
  | .store _ addr _ size => inferInstanceAs (Decidable (Apart addr (lsBytes size) pc 4))
  | .write _ _ _ => .isTrue trivial
  | .jump _ => .isTrue trivial

/-- No store has changed the word that the next tick fetches. -/
def FetchesOriginal (cpu : FakeCpu) : Prop := ∀ e ∈ cpu.executed, Spares cpu.pc e

instance (cpu : FakeCpu) : Decidable cpu.FetchesOriginal :=
  inferInstanceAs (Decidable (∀ e ∈ cpu.executed, Spares cpu.pc e))

variable [WideShift]

/-- At most `n` ticks, up to HCF; `none` where an assertion fails. -/
def run : ℕ → FakeCpu → Option FakeCpu
  | 0, cpu => some cpu
  | n + 1, cpu => if cpu.hcf then some cpu else cpu.tick.bind (run n)

/-- The run trips no assertion, and all its states before HCF satisfy `P`. -/
def Always (P : FakeCpu → Prop) (cpu : FakeCpu) : Prop :=
  ∀ n, ∃ cpu', run n cpu = some cpu' ∧ (cpu'.hcf = false → P cpu')

def reaches (P : FakeCpu → Prop) [DecidablePred P] : ℕ → FakeCpu → Bool
  | 0, cpu => cpu.hcf
  | n + 1, cpu => cpu.hcf || (P cpu && (cpu.tick.elim false (reaches P n)))

theorem run_of_hcf {n : ℕ} {cpu : FakeCpu} (h : cpu.hcf = true) : run n cpu = some cpu := by
  cases n with
  | zero => rfl
  | succ n => simp [run, h]

theorem run_add_of_hcf {n m : ℕ} {cpu cpu' : FakeCpu} (h : run n cpu = some cpu')
    (hc : cpu'.hcf = true) : run (n + m) cpu = some cpu' := by
  induction n generalizing cpu with
  | zero =>
    cases h
    exact run_of_hcf hc
  | succ n ih =>
    rw [Nat.succ_add]
    rw [run] at h ⊢
    split_ifs at h ⊢ with hs
    · exact h
    · obtain ⟨cpu₁, ht, h⟩ := Option.bind_eq_some_iff.1 h
      rw [ht, Option.bind_some]
      exact ih h

theorem run_succ {n : ℕ} {cpu cpu' : FakeCpu} (h : run n cpu = some cpu')
    (hc : cpu'.hcf = false) : run (n + 1) cpu = cpu'.tick := by
  induction n generalizing cpu with
  | zero =>
    cases h
    simp [run, hc]
  | succ n ih =>
    rw [run] at h ⊢
    split_ifs at h ⊢ with hs
    · cases h
      simp [hs] at hc
    · obtain ⟨cpu₁, ht, h⟩ := Option.bind_eq_some_iff.1 h
      rw [ht, Option.bind_some, ih h]

theorem Always.goes_on {P : FakeCpu → Prop} {n : ℕ} {cpu cpu' : FakeCpu} (ha : cpu.Always P)
    (h : run n cpu = some cpu') (hc : cpu'.hcf = false) :
    P cpu' ∧ ∃ cpu₂, cpu'.tick = some cpu₂ ∧ run (n + 1) cpu = some cpu₂ := by
  obtain ⟨cpu₁, h₁, hp⟩ := ha n
  obtain ⟨cpu₂, h₂, -⟩ := ha (n + 1)
  rw [h, Option.some.injEq] at h₁
  subst h₁
  exact ⟨hp hc, cpu₂, (run_succ h hc).symm.trans h₂, h₂⟩

theorem Always.imp {P Q : FakeCpu → Prop} {cpu : FakeCpu} (ha : cpu.Always P)
    (h : ∀ cpu, P cpu → Q cpu) : cpu.Always Q :=
  fun n => (ha n).imp fun _ h' => ⟨h'.1, fun hc => h _ (h'.2 hc)⟩

theorem Always.induction {P J : FakeCpu → Prop} {n : ℕ} {cpu cpu' : FakeCpu} (ha : cpu.Always P)
    (h0 : J cpu) (hstep : ∀ {c c'}, P c → J c → tick c = some c' → J c')
    (h : run n cpu = some cpu') : J cpu' := by
  induction n generalizing cpu' with
  | zero =>
    cases h
    exact h0
  | succ n ih =>
    obtain ⟨cpu₁, h₁, hp⟩ := ha n
    cases hc : cpu₁.hcf
    · exact hstep (hp hc) (ih h₁) ((run_succ h₁ hc).symm.trans h)
    · rw [run_add_of_hcf h₁ hc, Option.some.injEq] at h
      exact h ▸ ih h₁

theorem always_of_reaches {P : FakeCpu → Prop} [DecidablePred P] {n : ℕ} {cpu : FakeCpu}
    (h : reaches P n cpu = true) : cpu.Always P := by
  intro m
  induction m generalizing n cpu with
  | zero =>
    refine ⟨cpu, rfl, fun hc => ?_⟩
    cases n with
    | zero => simp [reaches, hc] at h
    | succ n =>
      simp only [reaches, hc, Bool.false_or, Bool.and_eq_true, decide_eq_true_eq] at h
      exact h.1
  | succ m ih =>
    cases hc : cpu.hcf
    · cases n with
      | zero => simp [reaches, hc] at h
      | succ n =>
        simp only [reaches, hc, Bool.false_or, Bool.and_eq_true] at h
        cases ht : cpu.tick with
        | none => simp [ht] at h
        | some cpu' =>
          rw [ht] at h
          simp only [run, hc, Bool.false_eq_true, ↓reduceIte, ht, Option.bind_some]
          exact ih h.2
    · exact ⟨cpu, run_of_hcf hc, fun hn => absurd hc (by simp [hn])⟩

end TomasuloCpu.FakeCpu
