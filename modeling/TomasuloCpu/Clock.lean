import TomasuloCpu.Registers

set_option autoImplicit false

/-!
# The clock

`clk_tick` of `clk.c`, with the ticks of `reg.c`. The build with
`RANDOM_SHUFFLE` shuffles all three lists of the clock, so their orders are
parameters of a tick.
-/
namespace TomasuloCpu
open Clocked

/-- The entries of `clk->regmuts`. -/
inductive RegMut where
  | regMut (r : CpuReg)
  | regReduce (x : CpuOr)
  deriving DecidableEq, Repr

/-- The entries of `clk->regs`. -/
inductive CombReg where
  | gnt | robIds
  deriving DecidableEq, Repr

def bhRegs (h : ℕ) : List RegMut :=
  [.regMut (.buffer h 0), .regMut (.buffer h 1), .regReduce (.bhBusy h 0), .regReduce (.bhBusy h 1),
    .regMut (.current h), .regMut (.req h)]

def queueSlots (capacity : ℤ) : List ℤ := (List.range capacity.toNat).map fun (i : ℕ) => (i : ℤ)

def queueRegs (capacity : ℤ) (reg : QueueReg → CpuReg) : List RegMut :=
  ((queueSlots capacity).map fun i => .regMut (reg (.data i))) ++
    [.regMut (reg .head), .regMut (reg .tail), .regMut (reg .clear)]

def busRegs : List RegMut := [.regMut .fire, .regMut .busData, .regMut .busClear]

def memRegs : List RegMut :=
  (memSlots.flatMap fun i =>
    [.regMut (.loadReq i), .regMut (.storeReq i), .regReduce (.loadBusy i), .regReduce (.storeBusy i)]) ++
  bhRegs 0 ++ [.regMut .memClear]

def regStoreRegs : List RegMut :=
  (regIds.flatMap fun x =>
    [.regMut (.register x), .regMut (.robIdSet x), .regMut (.robIdClearIf x)]) ++ [.regMut .regClear]

def lsQueueRegs : List RegMut :=
  queueRegs lsQueueCapacity .lsq ++ [.regReduce .lockStall, .regMut .lockSignal, .regMut .lsqClear]

def aluRegs (a : ℕ) : List RegMut :=
  bhRegs (aluHelper a) ++ [.regMut (.aluTask a), .regMut (.resultBuf a), .regReduce (.aluBusy a)]

def robUnitRegs : List RegMut :=
  queueRegs robCapacity .robs ++
  (queueSlots robCapacity).flatMap fun i => [.regMut (.robReady i), .regMut (.robPayload i)]

def rsRegs (id : RsId) : List RegMut := [.regMut (.rsBusy id), .regMut (.rsPayload id)]

/-- The order in which `cpu_create` allocates the registers. -/
def RegMut.registered : List RegMut :=
  [busRegs, memRegs, regStoreRegs, lsQueueRegs, (List.range aluCount).flatMap aluRegs,
    [.regMut .rsClear], [.regMut .pc, .regMut .forcePc], robUnitRegs, stations.flatMap rsRegs].flatten

def CombReg.registered : List CombReg := [.gnt, .robIds]

structure Order extends Schedule where
  regmuts : List RegMut
  regs : List CombReg
  regmuts_perm : regmuts.Perm RegMut.registered
  regs_perm : regs.Perm CombReg.registered

def Order.inOrder : Order where
  toSchedule := .inOrder
  regmuts := RegMut.registered
  regs := CombReg.registered
  regmuts_perm := .refl _
  regs_perm := .refl _

def Order.reversed : Order where
  callbacks := Callback.registered.reverse
  listeners := Listener.registered.reverse
  regmuts := RegMut.registered.reverse
  regs := CombReg.registered.reverse
  callbacks_perm := List.reverse_perm _
  listeners_perm := List.reverse_perm _
  regmuts_perm := List.reverse_perm _
  regs_perm := List.reverse_perm _

structure Clk where
  latched : Latched
  pending : CpuPending
  clk : ℤ

/-- `_reg_mut_tick` and `_reg_reduce_tick` -/
def RegMut.tick (c : Clk) : RegMut → Clk
  | .regMut r => { c with
      latched := { c.latched with rm := Function.update c.latched.rm r (c.pending.next r) }
      pending := { c.pending with
        next := if r.clear then Function.update c.pending.next r r.zero else c.pending.next
        writeCount := Function.update c.pending.writeCount r 0 } }
  | .regReduce x => { c with
      latched := { c.latched with rr := Function.update c.latched.rr x (c.pending.reduced x) }
      pending := { c.pending with reduced := Function.update c.pending.reduced x false } }

/-- A call of `reg_mut_write` after which the count is set back. -/
def Clk.overwrite (c : Clk) (r : CpuReg) (v : r.type) : Except Fault Clk := do
  let p ← (Effect.write r v : CpuEffect).apply PlainOp.act c.pending
  .ok { c with pending := { p with writeCount := Function.update p.writeCount r 0 } }

/-- The body of the loop of `_reg_file_next`. -/
def regFileNextStep (c : Clk) (i : RegId) : Except Fault Clk := do
  let c₁ ← c.overwrite (.robIdClearIf i) (0 : ℤ)
  let c₂ ← if regFileDrops c.latched.rm i then c₁.overwrite (.robIdSet i) (0 : ℤ) else .ok c₁
  .ok { c₂ with latched := { c₂.latched with
    robIds := Function.update c₂.latched.robIds i (regFileNext c.latched.rm i) } }

def CombReg.tick (c : Clk) : CombReg → Except Fault Clk
  | .gnt => .ok { c with
      latched := { c.latched with gnt := busArb helperCount c.latched.rm } }
  | .robIds => regIds.foldlM regFileNextStep c

def clkCreate (image : MemData) (garbage : ℤ → ℤ → ℤ) (hist : ℤ) : Clk where
  latched := ⟨CpuReg.zero, fun _ => false, 0, fun _ => 0⟩
  pending := cpuCreate image garbage hist
  clk := 0

section
variable [WideShift]

def clkTick (o : Order) (c : Clk) : Except Fault Clk := do
  let c ← o.regs.foldlM CombReg.tick (o.regmuts.foldl RegMut.tick c)
  let p ← run PlainOp.act (fun cb p => Callback.effects o.listeners c.latched p cb) o.callbacks
    c.pending
  .ok ⟨c.latched, p, c.clk + 1⟩

def clkRun : List Order → Clk → Except Fault Clk
  | [], c => .ok c
  | o :: os, c => do clkRun os (← clkTick o c)

end

theorem mem_queueSlots {capacity i : ℤ} : i ∈ queueSlots capacity ↔ 0 ≤ i ∧ i < capacity := by
  simp only [queueSlots, List.mem_map, List.mem_range]
  constructor
  · rintro ⟨n, hn, rfl⟩
    omega
  · rintro ⟨h0, h⟩
    exact ⟨i.toNat, by omega, by omega⟩

theorem exists_alu {P : ℕ → Prop} : (∃ a, a < aluCount ∧ P a) ↔ P 0 ∨ P 1 := by
  constructor
  · rintro ⟨a, ha, h⟩
    have ha : a = 0 ∨ a = 1 := by
      unfold aluCount at ha
      omega
    rcases ha with rfl | rfl
    · exact .inl h
    · exact .inr h
  · rintro (h | h)
    · exact ⟨0, by decide, h⟩
    · exact ⟨1, by decide, h⟩

namespace RegMut

theorem regMut_mem_registered {r : CpuReg} : regMut r ∈ registered ↔ r.Allocated := by
  rcases r with h | _ | _ | _ | ⟨h, b⟩ | h | i | i | _ | x | x | x | _ | (i | _ | _ | _) | _ | _ |
    a | a | id | id | _ | _ | _ | (i | _ | _ | _) | i | i <;>
    simp [registered, busRegs, memRegs, regStoreRegs, lsQueueRegs, aluRegs, robUnitRegs, rsRegs,
      bhRegs, queueRegs, mem_queueSlots, exists_alu, CpuReg.Allocated, memSlots, helperCount,
      aluHelper]
  all_goals omega

theorem regReduce_mem_registered {x : CpuOr} : regReduce x ∈ registered ↔ x.Allocated := by
  rcases x with ⟨h, b⟩ | i | i | _ | a <;>
    simp [registered, busRegs, memRegs, regStoreRegs, lsQueueRegs, aluRegs, robUnitRegs, rsRegs,
      bhRegs, queueRegs, exists_alu, CpuOr.Allocated, memSlots, helperCount, aluHelper]
  all_goals omega

def clears : RegMut → Bool
  | .regMut r => r.clear
  | .regReduce _ => true

theorem clears_nodup : (registered.filter clears).Nodup := by
  decide +kernel

end RegMut

def Clk.latchAll (c : Clk) (ms : List RegMut) : Clk where
  latched := { c.latched with
    rm := fun r => if .regMut r ∈ ms then c.pending.next r else c.latched.rm r
    rr := fun x => if .regReduce x ∈ ms then c.pending.reduced x else c.latched.rr x }
  pending := { c.pending with
    next := fun r => if .regMut r ∈ ms ∧ r.clear = true then r.zero else c.pending.next r
    writeCount := fun r => if .regMut r ∈ ms then 0 else c.pending.writeCount r
    reduced := fun x => if .regReduce x ∈ ms then false else c.pending.reduced x }
  clk := c.clk

theorem foldl_regMutTick {ms : List RegMut} (hn : (ms.filter RegMut.clears).Nodup) (c : Clk) :
    ms.foldl RegMut.tick c = c.latchAll ms := by
  induction ms generalizing c with
  | nil => simp [Clk.latchAll]
  | cons m ms ih =>
    have hm : m.clears = true → m ∉ ms := by
      intro hc hm
      rw [List.filter_cons_of_pos hc, List.nodup_cons] at hn
      exact hn.1 (List.mem_filter.2 ⟨hm, hc⟩)
    have hn : (ms.filter RegMut.clears).Nodup :=
      hn.sublist ((List.sublist_cons_self m ms).filter _)
    rw [List.foldl_cons, ih hn]
    cases m with
    | regMut r₀ =>
      simp only [Clk.latchAll, RegMut.tick, Clk.mk.injEq, Latched.mk.injEq, Pending.mk.injEq,
        and_true]
      refine ⟨⟨funext fun r => ?_, ?_⟩, funext fun r => ?_, funext fun r => ?_, ?_⟩
      · by_cases hr : r = r₀
        · subst hr
          cases hc : r.clear <;> simp_all [RegMut.clears]
        · cases hc : r₀.clear <;> simp [hr]
      · simp
      · by_cases hr : r = r₀
        · subst hr
          cases hc : r.clear <;> simp_all [RegMut.clears]
        · cases hc : r₀.clear <;> simp [hr]
      · by_cases hr : r = r₀
        · subst hr
          simp
        · simp [hr]
      · simp
    | regReduce x₀ =>
      have hx := hm rfl
      simp only [Clk.latchAll, RegMut.tick, Clk.mk.injEq, Latched.mk.injEq, Pending.mk.injEq,
        and_true]
      refine ⟨⟨by simp, funext fun x => ?_⟩, by simp, by simp, funext fun x => ?_⟩
      · by_cases hr : x = x₀
        · subst hr
          simp [hx]
        · simp [hr]
      · by_cases hr : x = x₀
        · subst hr
          simp
        · simp [hr]

def renameNext (rm : Regs) (ids : List RegId) (next : Regs) : Regs
  | .robIdClearIf i => if i ∈ ids then (0 : ℤ) else next (.robIdClearIf i)
  | .robIdSet i => if i ∈ ids ∧ regFileDrops rm i = true then (0 : ℤ) else next (.robIdSet i)
  | r => next r

def renameIds (rm : Regs) (ids : List RegId) (robIds : RegId → RobId) (i : RegId) : RobId :=
  if i ∈ ids then regFileNext rm i else robIds i

def Clk.renameAll (c : Clk) (ids : List RegId) : Clk where
  latched := { c.latched with robIds := renameIds c.latched.rm ids c.latched.robIds }
  pending := { c.pending with next := renameNext c.latched.rm ids c.pending.next }
  clk := c.clk

section
variable (rm next : Regs) (robIds : RegId → RobId) (i : RegId) (ids : List RegId)

theorem renameNext_nil : renameNext rm [] next = next := by
  funext r
  cases r <;> simp [renameNext]

theorem renameNext_cons :
    renameNext rm (i :: ids) next = renameNext rm ids (renameNext rm [i] next) := by
  funext r
  cases r with
  | robIdClearIf x => by_cases hx : x = i <;> simp [renameNext, hx]
  | robIdSet x =>
    by_cases hx : x = i
    · subst hx
      cases hd : regFileDrops rm x <;> simp [renameNext, hd]
    · simp [renameNext, hx]
  | _ => rfl

theorem renameNext_single : renameNext rm [i] next =
    if regFileDrops rm i then
      Function.update (Function.update next (.robIdClearIf i) (0 : ℤ)) (.robIdSet i) (0 : ℤ)
    else Function.update next (.robIdClearIf i) (0 : ℤ) := by
  funext r
  cases r with
  | robIdClearIf x =>
    by_cases hx : x = i
    · subst hx
      split_ifs <;> simp [renameNext]
    · split_ifs <;> simp [renameNext, hx]
  | robIdSet x =>
    by_cases hx : x = i
    · subst hx
      split_ifs with hd <;> simp [renameNext, hd]
    · split_ifs <;> simp [renameNext, hx]
  | _ => split_ifs <;> simp [renameNext]

theorem renameIds_nil : renameIds rm [] robIds = robIds := by
  funext x
  simp [renameIds]

theorem renameIds_cons :
    renameIds rm (i :: ids) robIds = renameIds rm ids (renameIds rm [i] robIds) := by
  funext x
  by_cases hx : x = i <;> simp [renameIds, hx]

theorem renameIds_single :
    renameIds rm [i] robIds = Function.update robIds i (regFileNext rm i) := by
  funext x
  by_cases hx : x = i
  · subst hx
    simp [renameIds]
  · simp [renameIds, hx]

end

variable {c : Clk}

theorem overwrite_eq {r : CpuReg} (h : c.pending.writeCount r = 0) (v : r.type) :
    c.overwrite r v = .ok { c with
      pending := { c.pending with next := Function.update c.pending.next r v } } := by
  have hw : Function.update c.pending.writeCount r 0 = c.pending.writeCount := by
    rw [← h, Function.update_eq_self]
  simp [Clk.overwrite, Effect.apply, h, bind, Except.bind, hw]

theorem regFileNextStep_eq (h : ∀ r, c.pending.writeCount r = 0) (i : RegId) :
    regFileNextStep c i = .ok (c.renameAll [i]) := by
  rw [Clk.renameAll, renameNext_single, renameIds_single, regFileNextStep, overwrite_eq (h _)]
  simp only [bind, Except.bind]
  split_ifs
  · rw [overwrite_eq (by exact h _)]
  · rfl

theorem foldlM_regFileNextStep (h : ∀ r, c.pending.writeCount r = 0) (ids : List RegId) :
    ids.foldlM regFileNextStep c = .ok (c.renameAll ids) := by
  induction ids generalizing c with
  | nil =>
    rw [Clk.renameAll, renameNext_nil, renameIds_nil]
    rfl
  | cons i ids ih =>
    rw [List.foldlM_cons, regFileNextStep_eq h]
    simp only [bind, Except.bind]
    rw [ih (by exact h)]
    simp only [Clk.renameAll]
    rw [← renameNext_cons, ← renameIds_cons]

/-- The registers that the CPU does not have are as `calloc` leaves them. -/
structure Clk.Pristine (c : Clk) : Prop where
  rm : ∀ r : CpuReg, ¬r.Allocated → c.latched.rm r = r.zero
  next : ∀ r : CpuReg, ¬r.Allocated → c.pending.next r = r.zero
  writeCount : ∀ r : CpuReg, ¬r.Allocated → c.pending.writeCount r = 0
  rr : ∀ x : CpuOr, ¬x.Allocated → c.latched.rr x = false
  reduced : ∀ x : CpuOr, ¬x.Allocated → c.pending.reduced x = false
  robIds : ∀ i : RegId, i ∉ regIds → c.latched.robIds i = 0

theorem Order.regs_cases (o : Order) : o.regs = [.gnt, .robIds] ∨ o.regs = [.robIds, .gnt] := by
  have h := o.regs_perm
  obtain ⟨a, b, he⟩ := List.length_eq_two.1 h.length_eq
  rw [he] at h ⊢
  revert h
  cases a <;> cases b <;> decide

theorem Order.regMut_mem (o : Order) {r : CpuReg} : .regMut r ∈ o.regmuts ↔ r.Allocated :=
  o.regmuts_perm.mem_iff.trans RegMut.regMut_mem_registered

theorem Order.regReduce_mem (o : Order) {x : CpuOr} : .regReduce x ∈ o.regmuts ↔ x.Allocated :=
  o.regmuts_perm.mem_iff.trans RegMut.regReduce_mem_registered

namespace Clk.Pristine
variable (hp : c.Pristine)
include hp

theorem latchAll_eq (o : Order) : c.latchAll o.regmuts =
    ⟨{ c.latched with rm := c.pending.next, rr := c.pending.reduced },
      { next := fun r => if r.clear then r.zero else c.pending.next r
        writeCount := fun _ => 0
        reduced := fun _ => false
        plain := c.pending.plain }, c.clk⟩ := by
  simp only [Clk.latchAll, Clk.mk.injEq, Latched.mk.injEq, Pending.mk.injEq, and_true]
  refine ⟨⟨funext fun r => ?_, funext fun x => ?_⟩, funext fun r => ?_, funext fun r => ?_,
    funext fun x => ?_⟩
  · by_cases hr : r.Allocated <;> simp [o.regMut_mem, hr, hp.rm, hp.next]
  · by_cases hx : x.Allocated <;> simp [o.regReduce_mem, hx, hp.rr, hp.reduced]
  · by_cases hr : r.Allocated <;> simp [o.regMut_mem, hr, hp.next]
  · by_cases hr : r.Allocated <;> simp [o.regMut_mem, hr, hp.writeCount]
  · by_cases hx : x.Allocated <;> simp [o.regReduce_mem, hx, hp.reduced]

theorem renameIds_regIds :
    renameIds c.pending.next regIds c.latched.robIds = regFileNext c.pending.next := by
  funext i
  by_cases hi : i ∈ regIds
  · simp [renameIds, hi]
  · have hs : c.pending.next (.robIdSet i) = (0 : ℤ) := hp.next (.robIdSet i) hi
    simp [renameIds, hi, hp.robIds, regFileNext, hs]

theorem renameNext_regIds :
    renameNext c.pending.next regIds (fun r => if r.clear then r.zero else c.pending.next r) =
      (latchNext c.pending).next := by
  funext r
  cases r with
  | robIdClearIf i =>
    by_cases hi : i ∈ regIds
    · simp [renameNext, latchNext, regFileReset, hi]
    · have hs : c.pending.next (.robIdClearIf i) = (0 : ℤ) := hp.next (.robIdClearIf i) hi
      simp [renameNext, latchNext, regFileReset, hi, CpuReg.clear, hs]
  | robIdSet i =>
    by_cases hi : i ∈ regIds
    · simp [renameNext, latchNext, regFileReset, hi]
    · have hs : c.pending.next (.robIdSet i) = (0 : ℤ) := hp.next (.robIdSet i) hi
      simp [renameNext, latchNext, regFileReset, hi, CpuReg.clear, hs]
  | _ => rfl

/-- The loops over the registers, in any order, latch the registers. -/
theorem loops_eq (o : Order) :
    o.regs.foldlM CombReg.tick (o.regmuts.foldl RegMut.tick c) =
      .ok ⟨latch c.pending, latchNext c.pending, c.clk⟩ := by
  have hn : (o.regmuts.filter RegMut.clears).Nodup :=
    (o.regmuts_perm.filter _).nodup_iff.2 RegMut.clears_nodup
  rw [foldl_regMutTick hn, hp.latchAll_eq]
  rcases o.regs_cases with h | h <;> rw [h]
  all_goals
    simp only [List.foldlM_cons, List.foldlM_nil, CombReg.tick, bind, Except.bind, pure,
      Except.pure]
    rw [foldlM_regFileNextStep (fun _ => rfl)]
    simp only [Clk.renameAll, hp.renameIds_regIds, hp.renameNext_regIds]
    rfl

variable [WideShift]

/-- Only the orders of the callbacks and of the listeners matter to a tick. -/
theorem clkTick_eq (o : Order) : clkTick o c =
    (cpuTick o.toSchedule c.pending).map fun p => ⟨latch c.pending, p, c.clk + 1⟩ := by
  rw [clkTick, hp.loops_eq]
  simp only [bind, Except.bind, cpuTick]
  cases run PlainOp.act (fun cb p => Callback.effects o.listeners (latch c.pending) p cb)
    o.callbacks (latchNext c.pending) <;> rfl

theorem step {o : Schedule} {p : Cpu} (inv : Conserved (latch c.pending))
    (ent : Entries (latch c.pending)) (h : cpuTick o c.pending = .ok p) :
    Clk.Pristine ⟨latch c.pending, p, c.clk + 1⟩ := by
  obtain ⟨q, st⟩ := step_of_cpuTick h
  constructor
  · exact hp.next
  · intro r hr
    have hk : p.next r = (latch c.pending).base r :=
      st.kept fun v hw => hr (written_allocated inv ent hw)
    have hz := hp.next r hr
    rw [hk]
    cases r <;> simp_all [Latched.base, regFileReset, latch, CpuReg.zero]
  · intro r hr
    have t := Tick.of_cpuTick h
    have h' := h
    rw [cpuTick, run_eq o.nodup] at h'
    rw [applyAll_writeCount h', List.count_eq_zero_of_not_mem]
    · rfl
    · intro hm
      obtain ⟨v, hv⟩ := mem_names.1 hm
      obtain ⟨cb, hcb, hw⟩ := mem_effectsOf.1 hv
      exact hr (written_allocated inv ent
        ((writes_iff t.noFail o.listeners_perm).1 ⟨cb, hcb, hw⟩))
  · exact hp.reduced
  · intro x hx
    exact st.not_raised.2 fun hw => hx (raised_allocated inv hw)
  · intro i hi
    have hs : c.pending.next (.robIdSet i) = (0 : ℤ) := hp.next (.robIdSet i) hi
    simp [latch, regFileNext, hs]

end Clk.Pristine

structure Clk.Sound (c : Clk) : Prop where
  pristine : c.Pristine
  conserved : Conserved (latch c.pending)
  entries : Entries (latch c.pending)

theorem sound_clkCreate (image : MemData) (garbage : ℤ → ℤ → ℤ) (hist : ℤ) :
    (clkCreate image garbage hist).Sound where
  pristine := ⟨fun _ _ => rfl, fun _ _ => rfl, fun _ _ => rfl, fun _ _ => rfl, fun _ _ => rfl,
    fun _ _ => rfl⟩
  conserved := conserved_cpuCreate image garbage hist
  entries := entries_cpuCreate image garbage hist

section
variable [WideShift] (hs : c.Sound)
include hs

theorem Clk.Sound.step {o : Order} {c' : Clk} (h : clkTick o c = .ok c') :
    c'.Sound ∧ cpuTick o.toSchedule c.pending = .ok c'.pending := by
  rw [hs.pristine.clkTick_eq] at h
  cases ht : cpuTick o.toSchedule c.pending with
  | error f => simp [ht, Except.map] at h
  | ok p =>
    rw [ht] at h
    cases h
    obtain ⟨q, st⟩ := step_of_cpuTick ht
    exact ⟨⟨hs.pristine.step hs.conserved hs.entries ht, hs.conserved.step st,
      hs.entries.step hs.conserved st⟩, rfl⟩

theorem Clk.Sound.run {os : List Order} {c' : Clk} (h : clkRun os c = .ok c') :
    c'.Sound ∧ cpuRun (os.map Order.toSchedule) c.pending = .ok c'.pending := by
  induction os generalizing c with
  | nil =>
    cases h
    exact ⟨hs, rfl⟩
  | cons o os ih =>
    obtain ⟨c₁, h₁, h₂⟩ := bind_ok.1 h
    obtain ⟨hs₁, ht⟩ := hs.step h₁
    obtain ⟨hs', hr⟩ := ih hs₁ h₂
    exact ⟨hs', bind_ok.2 ⟨_, ht, hr⟩⟩

theorem Clk.Sound.run_of_cpuRun {os : List Order} {p : Cpu}
    (h : cpuRun (os.map Order.toSchedule) c.pending = .ok p) :
    ∃ c', clkRun os c = .ok c' ∧ c'.pending = p := by
  induction os generalizing c with
  | nil =>
    cases h
    exact ⟨c, rfl, rfl⟩
  | cons o os ih =>
    obtain ⟨p₁, h₁, h₂⟩ := bind_ok.1 h
    have ht : clkTick o c = .ok ⟨latch c.pending, p₁, c.clk + 1⟩ := by
      rw [hs.pristine.clkTick_eq, h₁]
      rfl
    obtain ⟨c', hr, hp⟩ := ih (hs.step ht).1 h₂
    exact ⟨c', bind_ok.2 ⟨_, ht, hr⟩, hp⟩

end

end TomasuloCpu
