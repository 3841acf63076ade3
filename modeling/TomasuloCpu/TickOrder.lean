import TomasuloCpu.Boot
import TomasuloCpu.Clock

set_option autoImplicit false

/-!
# The order of the callbacks

Callbacks talk through registers, so their order does not matter to what they
write. Memory and the branch predictor change in place: `_mem_tick` stores into
the bytes that `_inst_unit_tick` fetches, and `bp_feedback` changes what
`branch_predict` reads.
-/
namespace TomasuloCpu
open Clocked

def Plain.unlogged (p : Plain) : Plain := { p with log := [] }

def Cpu.unlogged (c : Cpu) : Cpu := { c with plain := c.plain.unlogged }

def Clk.unlogged (c : Clk) : Clk := { c with pending := Cpu.unlogged c.pending }

/-- Both fail, or both leave the same state. -/
def Agree (x y : Except Fault Clk) : Prop :=
  x.toOption.map Clk.unlogged = y.toOption.map Clk.unlogged

namespace Latched
variable (s : Latched)

def dataAfter (data : MemData) : MemData := applyStores data (storesOf (memTick s data))

def bpAfter (bp : BranchPredictor) : BranchPredictor :=
  if s.commits then
    match s.head.op with
    | .branch => bpFeedback bp s.head.pc s.head.predictedTake (s.head.value != 0)
    | .jalr =>
      bpFeedbackJalr bp s.head.pc (s.head.addr &&& ~~~(1 : Word)) !robIsMispredicted s.head
    | _ => bp
  else bp

end Latched

/-- What a tick dispatches does not depend on the stores and the commit of the
    same tick. -/
structure FetchSettled (s : Latched) (q : Plain) : Prop where
  fetched : s.dispatch { q with data := s.dataAfter q.data } = s.dispatch q
  predicted : ∀ {rs inst}, s.dispatch q = some (rs, inst) → inst.format = .b →
    branchPredict (s.bpAfter q.bp) s.rm.pc = branchPredict q.bp s.rm.pc

section
variable {s : Latched} {p p' : Plain}

theorem dispatch_congr (h : p.data = p'.data) : s.dispatch p = s.dispatch p' := by
  simp only [Latched.dispatch, h]

variable [WideShift]

omit [WideShift] in
theorem dispatchRobPayload_predicted {inst : Inst} (hf : inst.format ≠ .b) (x y : BpResult)
    (seq : ℕ) (rs : RsId) (pc : Addr) (old : RobPayload) :
    dispatchRobPayload s x seq rs inst pc old = dispatchRobPayload s y seq rs inst pc old := by
  simp only [dispatchRobPayload]
  split
  · rfl
  · exact absurd ‹_› hf
  · rfl

omit [WideShift] in
theorem dispatchNext_predicted {inst : Inst} (hf : inst.format ≠ .b) (x y : BpResult)
    (pc : Addr) : dispatchNext s x inst pc = dispatchNext s y inst pc := by
  simp only [dispatchNext]
  split
  · rfl
  · rfl
  · exact absurd ‹_› hf
  · rfl

theorem instUnitTick_congr (hd : s.dispatch p = s.dispatch p')
    (hb : ∀ {rs inst}, s.dispatch p = some (rs, inst) → inst.format = .b →
      branchPredict p.bp s.rm.pc = branchPredict p'.bp s.rm.pc)
    (hseq : p.dispatched = p'.dispatched) : instUnitTick s p = instUnitTick s p' := by
  cases hf : s.rm.forcePc.busy
  · rw [instUnitTick_eq hf, instUnitTick_eq hf, ← hd]
    cases hx : s.dispatch p with
    | none => rfl
    | some d =>
      obtain ⟨rs, inst⟩ := d
      by_cases hfmt : inst.format = .b
      · simp only [Option.elim_some, hb hx hfmt, hseq]
      · simp only [Option.elim_some, instDispatch, hseq,
          dispatchRobPayload_predicted hfmt (branchPredict p.bp s.rm.pc)
            (branchPredict p'.bp s.rm.pc),
          dispatchNext_predicted hfmt (branchPredict p.bp s.rm.pc)
            (branchPredict p'.bp s.rm.pc)]
  · simp [instUnitTick, hf]

end

section
variable {s : Latched}

theorem plains_regStoreSet (x : RegId) (v : Word) : plains (regStoreSet x v) = [] := by
  unfold regStoreSet
  split_ifs <;> rfl

theorem plains_robFlush (data : RobPayload) : plains (robFlush data) = [] := rfl

theorem plains_lsQueuePush (payload : LsQueuePayload) : plains (lsQueuePush s payload) = [] := by
  cases h : lsQueueFull s
  · rw [lsQueuePush_eq payload h]
    rfl
  · simp [lsQueuePush, h]

theorem plains_robRetire (rob : RobId) (data : RobPayload) :
    plains (robRetire s rob data) = [.log (.retire rob data)] := by
  unfold robRetire regStoreRobIdClear queuePop
  split_ifs <;> rfl

theorem plainAll_robUnitTick_bp (p : Plain) :
    (plainAll PlainOp.act (robUnitTick s) p).bp = s.bpAfter p.bp := by
  rw [robUnitTick_eq, Latched.bpAfter]
  cases hc : s.commits
  · rfl
  · simp only [↓reduceIte, robCommit, Latched.robPayload_head]
    cases s.head.op <;> dsimp only <;> (try split_ifs) <;>
      simp [plainAll, plains_regStoreSet, plains_robFlush, plains_lsQueuePush, plains_robRetire,
        PlainOp.act]

end

theorem FetchSettled.congr {s : Latched} {p p' : Plain} (hs : FetchSettled s p)
    (hd : p.data = p'.data) (hb : p.bp = p'.bp) : FetchSettled s p' := by
  constructor
  · rw [← @dispatch_congr s p p' hd, ← hs.fetched, ← hd]
    exact dispatch_congr rfl
  · intro rs inst hi
    rw [← @dispatch_congr s p p' hd] at hi
    rw [← hb]
    exact hs.predicted hi

theorem busTick_perm {s : Latched} {ls ls' : List Listener} (h : ls.Perm ls') :
    (busTick (Listener.onmsg s) ls s).Perm (busTick (Listener.onmsg s) ls' s) := by
  unfold busTick
  split
  · exact .refl _
  · split
    · exact (h.flatMap_right _).cons _
    · exact .refl _

theorem unlogged_iff {c c' : Cpu} : Cpu.unlogged c = Cpu.unlogged c' ↔
    c.next = c'.next ∧ c.writeCount = c'.writeCount ∧ c.reduced = c'.reduced ∧
      c.plain.unlogged = c'.plain.unlogged := by
  simp [Cpu.unlogged]

theorem plain_unlogged_iff {p p' : Plain} : p.unlogged = p'.unlogged ↔
    p.data = p'.data ∧ p.bp = p'.bp ∧ p.commitCount = p'.commitCount ∧ p.hcf = p'.hcf ∧
      p.dispatched = p'.dispatched := by
  simp [Plain.unlogged]

section
variable [WideShift] {o o' : Schedule} {c c' : Cpu}

theorem cpuPlainAt_bp (cb : Callback) : (cpuPlainAt o c cb).bp = c.plain.bp ∨
    (cpuPlainAt o c cb).bp = (latch c).bpAfter c.plain.bp := by
  exact plainAt_cases Plain.bp .robUnitTick (latch c).bpAfter
    (fun p => plainAll_robUnitTick_bp p)
    (fun d hd hne p => d.keep _ o.listeners (latch c) ((o.mem_iff d).1 hd)
      (fun x hm => PlainOp.act_bp ⟨d, hm, hne⟩) p p) o.nodup _ _

/-- In a settled state fetch and dispatch do not depend on the order. -/
theorem FetchSettled.instUnitTick_eq (hs : FetchSettled (latch c) c.plain) :
    instUnitTick (latch c) (cpuPlainAt o c .instUnitTick) = instUnitTick (latch c) c.plain := by
  have hd : (latch c).dispatch (cpuPlainAt o c .instUnitTick) = (latch c).dispatch c.plain := by
    rcases @cpuPlainAt_data _ o c .instUnitTick with h | h
    · exact dispatch_congr h
    · rw [← hs.fetched]
      exact dispatch_congr h
  refine instUnitTick_congr hd (fun {rs inst} hi hf => ?_) cpuPlainAt_dispatched
  rcases @cpuPlainAt_bp _ o c .instUnitTick with h | h
  · rw [h]
  · rw [h]
    exact hs.predicted (hd ▸ hi) hf

variable (hc : Cpu.unlogged c = Cpu.unlogged c')
include hc

omit [WideShift] in
theorem latch_of_unlogged : latch c = latch c' := by
  obtain ⟨hn, -, hr, -⟩ := unlogged_iff.1 hc
  simp only [latch, hn, hr]

/-- In a settled state only the deliveries depend on the order. -/
theorem effects_agree (hs : FetchSettled (latch c) c.plain) {cb : Callback}
    (hcb : cb ≠ .busTick) : cb.effects o.listeners (latch c) (cpuPlainAt o c cb) =
      cb.effects o'.listeners (latch c') (cpuPlainAt o' c' cb) := by
  obtain ⟨-, -, -, hp⟩ := unlogged_iff.1 hc
  obtain ⟨hdata, hbp, -, -, hseq⟩ := plain_unlogged_iff.1 hp
  have hl := latch_of_unlogged hc
  rw [effects_cpuPlainAt, effects_cpuPlainAt]
  cases cb with
  | busTick => exact absurd rfl hcb
  | instUnitTick =>
    have hs' : FetchSettled (latch c') c'.plain := hl ▸ hs.congr hdata hbp
    simp only [Callback.tickEffects, Callback.effects, ↓reduceIte]
    rw [hs.instUnitTick_eq, hs'.instUnitTick_eq, ← hl]
    exact instUnitTick_congr (dispatch_congr hdata) (fun _ _ => by rw [hbp]) hseq
  | memTick => simp [Callback.tickEffects, Callback.effects, ← hl, hdata]
  | queueTick q => cases q <;> simp [Callback.tickEffects, Callback.effects, ← hl]
  | _ => simp [Callback.tickEffects, Callback.effects, ← hl]

theorem effects_perm (hs : FetchSettled (latch c) c.plain) (cb : Callback) :
    (cb.effects o.listeners (latch c) (cpuPlainAt o c cb)).Perm
      (cb.effects o'.listeners (latch c') (cpuPlainAt o' c' cb)) := by
  by_cases hcb : cb = .busTick
  · subst hcb
    simp only [Callback.effects, ← latch_of_unlogged hc]
    exact busTick_perm (o.listeners_perm.trans o'.listeners_perm.symm)
  · rw [effects_agree hc hs hcb]

theorem effectsOf_perm (hs : FetchSettled (latch c) c.plain) :
    (effectsOf PlainOp.act (fun cb p => Callback.effects o.listeners (latch c) p cb) o.callbacks
        c.plain).Perm
      (effectsOf PlainOp.act (fun cb p => Callback.effects o'.listeners (latch c') p cb)
        o'.callbacks c'.plain) :=
  ((o.callbacks_perm.trans o'.callbacks_perm.symm).flatMap_right _).trans
    (.flatMap_left _ fun cb _ => effects_perm hc hs cb)

omit hc in
/-- A part of the in-place state that one callback changes, by that part alone,
    ends the same in every order. -/
theorem plain_agree {c₁ c₁' : Cpu} {X : Type} (π : Plain → X) (cb : Callback)
    (hcb : cb ∈ Callback.registered)
    (hx : ∀ x : PlainOp, (∃ d ∈ x.owners, d ≠ cb) → ∀ p, π (x.act p) = π p)
    (hπ : ∀ (x : PlainOp) p p', π p = π p' → π (x.act p) = π (x.act p'))
    (he : cb.effects o.listeners (latch c) (cpuPlainAt o c cb) =
      cb.effects o'.listeners (latch c') (cpuPlainAt o' c' cb))
    (h : cpuTick o c = .ok c₁) (h' : cpuTick o' c' = .ok c₁') (hp : π c.plain = π c'.plain) :
    π c₁.plain = π c₁'.plain := by
  rw [plainAfter_owner_eq π hcb hx h, plainAfter_owner_eq π hcb hx h', he]
  refine plainAll_congr π hπ _ ?_
  rw [cpuPlainAt_owner π cb hx, cpuPlainAt_owner π cb hx, hp]

theorem plain_unlogged_agree {c₁ c₁' : Cpu} (hs : FetchSettled (latch c) c.plain)
    (h : cpuTick o c = .ok c₁) (h' : cpuTick o' c' = .ok c₁') :
    c₁.plain.unlogged = c₁'.plain.unlogged := by
  obtain ⟨-, -, -, hp⟩ := unlogged_iff.1 hc
  obtain ⟨hdata, hbp, hcount, hhcf, hseq⟩ := plain_unlogged_iff.1 hp
  have hrob := @effects_agree _ o o' _ _ hc hs .robUnitTick (by decide)
  refine plain_unlogged_iff.2 ⟨?_, ?_, ?_, ?_, ?_⟩
  · refine plain_agree Plain.data .memTick (by decide) (fun _ => PlainOp.act_data)
      (fun x p p' hd => ?_) (effects_agree hc hs (by decide)) h h' hdata
    cases x <;> simp_all [PlainOp.act]
  · refine plain_agree Plain.bp .robUnitTick (by decide) (fun _ => PlainOp.act_bp)
      (fun x p p' hd => ?_) hrob h h' hbp
    cases x <;> simp_all [PlainOp.act]
  · refine plain_agree Plain.commitCount .robUnitTick (by decide) (fun _ => PlainOp.act_commitCount)
      (fun x p p' hd => ?_) hrob h h' hcount
    cases x <;> simp_all [PlainOp.act]
  · refine plain_agree Plain.hcf .robUnitTick (by decide) (fun _ => PlainOp.act_hcf)
      (fun x p p' hd => ?_) hrob h h' hhcf
    cases x <;> simp_all [PlainOp.act]
  · refine plain_agree Plain.dispatched .instUnitTick (by decide)
      (fun _ => PlainOp.act_dispatched) (fun x p p' hd => ?_)
      (effects_agree hc hs (by decide)) h h' hseq
    cases x <;> simp_all [PlainOp.act]

theorem cpuTick_isOk {c₁ : Cpu} (hs : FetchSettled (latch c) c.plain)
    (h : cpuTick o c = .ok c₁) : ∃ c₁', cpuTick o' c' = .ok c₁' := by
  rw [cpuTick, run_eq o.nodup] at h
  rw [cpuTick, run_eq o'.nodup]
  exact applyAll_isOk_perm (effectsOf_perm hc hs) (fun _ => rfl) h

theorem cpuTick_agree {c₁ c₁' : Cpu} (hs : FetchSettled (latch c) c.plain)
    (h : cpuTick o c = .ok c₁) (h' : cpuTick o' c' = .ok c₁') :
    Cpu.unlogged c₁ = Cpu.unlogged c₁' := by
  have hplain := plain_unlogged_agree hc hs h h'
  have hnext : (latchNext c).next = (latchNext c').next := by
    simp only [latchNext, (unlogged_iff.1 hc).1]
  have hperm := @effectsOf_perm _ o o' _ _ hc hs
  rw [cpuTick, run_eq o.nodup] at h
  rw [cpuTick, run_eq o'.nodup] at h'
  exact unlogged_iff.2 ⟨applyAll_next_perm hperm h h' hnext,
    applyAll_writeCount_perm hperm h h' rfl, applyAll_reduced_perm hperm h h' rfl, hplain⟩

end

def Clk.Settled (c : Clk) : Prop := FetchSettled (latch c.pending) c.pending.plain

theorem eq_ok_of_toOption {x : Except Fault Cpu} {p : Cpu} (h : x.toOption = some p) :
    x = .ok p := by
  cases x with
  | error f => cases h
  | ok p' => exact congrArg _ (Option.some.inj h)

theorem agree_ok {x y : Except Fault Clk} (h : Agree x y) {c₁ : Clk} (hx : x = .ok c₁) :
    ∃ c₁', y = .ok c₁' ∧ c₁.unlogged = c₁'.unlogged := by
  subst hx
  cases y with
  | error f => simp [Agree, Except.toOption] at h
  | ok c₁' => exact ⟨c₁', rfl, by simpa [Agree, Except.toOption] using h⟩

theorem agree_error {x y : Except Fault Clk} (h : Agree x y) {f : Fault} (hx : x = .error f) :
    ∃ f', y = .error f' := by
  subst hx
  cases y with
  | error f' => exact ⟨f', rfl⟩
  | ok c₁' => simp [Agree, Except.toOption] at h

section
variable [WideShift]

def ClkSettled : List Order → Clk → Prop
  | [], _ => True
  | o :: os, c => c.Settled ∧ ∀ c', clkTick o c = .ok c' → ClkSettled os c'

variable {c c' : Clk}

theorem clkTick_agree (hs : c.Sound) (hs' : c'.Sound) (hc : c.unlogged = c'.unlogged)
    (hf : c.Settled) (o o' : Order) : Agree (clkTick o c) (clkTick o' c') := by
  simp only [Clk.unlogged, Clk.mk.injEq] at hc
  obtain ⟨-, hp, hclk⟩ := hc
  obtain ⟨hn, -, hr, hplain⟩ := unlogged_iff.1 hp
  obtain ⟨hdata, hbp, -⟩ := plain_unlogged_iff.1 hplain
  have hl := latch_of_unlogged hp
  have hf' : FetchSettled (latch c'.pending) c'.pending.plain :=
    hl ▸ FetchSettled.congr hf hdata hbp
  rw [hs.pristine.clkTick_eq, hs'.pristine.clkTick_eq]
  cases h : cpuTick o.toSchedule c.pending with
  | error f =>
    cases h' : cpuTick o'.toSchedule c'.pending with
    | error f' => rfl
    | ok p' =>
      obtain ⟨p, hp'⟩ := @cpuTick_isOk _ _ o.toSchedule _ _ hp.symm _ hf' h'
      rw [h] at hp'
      cases hp'
  | ok p =>
    obtain ⟨p', h'⟩ := @cpuTick_isOk _ _ o'.toSchedule _ _ hp _ hf h
    rw [h']
    simp only [Agree, Except.map, Except.toOption, Option.map_some, Clk.unlogged, hl, hclk,
      cpuTick_agree hp hf h h']

theorem clkRun_agree (hs : c.Sound) (hs' : c'.Sound) (hc : c.unlogged = c'.unlogged)
    {os os' : List Order} (hl : os.length = os'.length) (hf : ClkSettled os c) :
    Agree (clkRun os c) (clkRun os' c') := by
  induction os generalizing c c' os' with
  | nil =>
    obtain rfl := List.length_eq_zero_iff.1 hl.symm
    simp [Agree, clkRun, Except.toOption, hc]
  | cons o os ih =>
    obtain ⟨o', os', rfl⟩ := List.exists_cons_of_length_eq_add_one hl.symm
    have ha := clkTick_agree hs hs' hc hf.1 o o'
    simp only [clkRun]
    cases h : clkTick o c with
    | error f =>
      obtain ⟨f', h'⟩ := agree_error ha h
      rw [h']
      rfl
    | ok c₁ =>
      obtain ⟨c₁', h', hc₁⟩ := agree_ok ha h
      rw [h']
      exact ih (hs.step h).1 (hs'.step h').1 hc₁ (by simpa using hl) (hf.2 _ h)

variable (image : MemData) (garbage : ℤ → ℤ → ℤ) (hist : ℤ)

/-- In settled states no order matters: a tick of a reachable state leaves the
    same state in all orders, and so do whole runs. -/
theorem order_irrelevant :
    (∀ os c, clkRun os (clkCreate image garbage hist) = .ok c → c.Settled →
      ∀ o o', Agree (clkTick o c) (clkTick o' c)) ∧
    ∀ os os', os.length = os'.length → ClkSettled os (clkCreate image garbage hist) →
      Agree (clkRun os (clkCreate image garbage hist))
        (clkRun os' (clkCreate image garbage hist)) := by
  have h₀ := sound_clkCreate image garbage hist
  constructor
  · intro os c hr hf o o'
    have hs := (h₀.run hr).1
    exact clkTick_agree hs hs rfl hf o o'
  · intro os os' hl hf
    exact clkRun_agree h₀ h₀ rfl hl hf

end

def branchesProgram : List Word := List.replicate 6 0x00000263 ++ [instMagicHcf]

theorem clkRun_boot {n : ℕ} {program : List Word}
    (h : (@cpuRun .masked (bootTicks n) (boot program)).isOk = true) :
    ∃ c, @clkRun .masked (List.replicate n .inOrder)
        (clkCreate (imageOf program) (fun _ _ => 0) 0) = .ok c ∧
      c.Sound ∧ c.pending = bootCpu n program := by
  have h₀ := sound_clkCreate (imageOf program) (fun _ _ => 0) 0
  have hb : @cpuRun .masked ((List.replicate n Order.inOrder).map Order.toSchedule)
      (boot program) = .ok (bootCpu n program) := by
    rw [List.map_replicate]
    exact cpuRun_boot h
  obtain ⟨c, hr, hp⟩ := @Clk.Sound.run_of_cpuRun _ .masked h₀ _ _ hb
  exact ⟨c, hr, (@Clk.Sound.run _ .masked h₀ _ _ hr).1, hp⟩

/-- A branch commits in the tick that dispatches HCF. -/
theorem order_irrelevant_branches :
    ∃ c, @clkRun .masked (List.replicate 6 .inOrder)
        (clkCreate (imageOf branchesProgram) (fun _ _ => 0) 0) = .ok c ∧
      c.pending = bootCpu 6 branchesProgram ∧
      Agree (@clkTick .masked .inOrder c) (@clkTick .masked .reversed c) := by
  obtain ⟨c, hr, -, hp⟩ := @clkRun_boot 6 branchesProgram (by decide +kernel)
  refine ⟨c, hr, hp, (@order_irrelevant .masked (imageOf branchesProgram) (fun _ _ => 0) 0).1 _ c hr
    ?_ .inOrder .reversed⟩
  rw [Clk.Settled, hp]
  refine ⟨by decide +kernel, fun {rs inst} hd hf => ?_⟩
  have hn : ∀ d ∈ (latch (bootCpu 6 branchesProgram)).dispatch (bootCpu 6 branchesProgram).plain,
      d.2.format ≠ .b := by decide +kernel
  exact absurd hf (hn _ hd)

/-- The first branch commits in the tick that dispatches the last one, whose
    prediction records the history before or after the commit. -/
theorem commit_before_predict :
    ∃ c, @clkRun .masked (List.replicate 5 .inOrder)
        (clkCreate (imageOf branchesProgram) (fun _ _ => 0) 0) = .ok c ∧
      ¬Agree (@clkTick .masked .inOrder c) (@clkTick .masked .reversed c) := by
  obtain ⟨c, hr, hs, hp⟩ := @clkRun_boot 5 branchesProgram (by decide +kernel)
  refine ⟨c, hr, fun h => ?_⟩
  rw [@Clk.Pristine.clkTick_eq _ hs.pristine .masked,
    @Clk.Pristine.clkTick_eq _ hs.pristine .masked, hp] at h
  have h₁ : (@cpuTick .masked .inOrder (bootCpu 5 branchesProgram)).toOption.map (fun c =>
      (c.next (.robPayload 5)).predictedTake.hist) = some 0 := by decide +kernel
  have h₂ : (@cpuTick .masked Order.reversed.toSchedule (bootCpu 5 branchesProgram)).toOption.map
      (fun c => (c.next (.robPayload 5)).predictedTake.hist) = some 1 := by decide +kernel
  obtain ⟨p₁, e₁, h₁⟩ := Option.map_eq_some_iff.1 h₁
  obtain ⟨p₂, e₂, h₂⟩ := Option.map_eq_some_iff.1 h₂
  rw [show Order.inOrder.toSchedule = .inOrder from rfl, eq_ok_of_toOption e₁,
    eq_ok_of_toOption e₂] at h
  have hn : p₁.next = p₂.next := by
    simpa [Agree, Except.map, Except.toOption, Clk.unlogged, Cpu.unlogged] using
      congrArg (Option.map fun c : Clk => c.pending.next) h
  rw [hn, h₂] at h₁
  exact absurd h₁ (by decide)

end TomasuloCpu
