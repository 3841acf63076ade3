import TomasuloCpu.Log

set_option autoImplicit false

/-!
# Runs

A tick as a relation between what is latched before and after it, and the
induction over the ticks of a run.
-/
namespace TomasuloCpu
open Clocked

def Latched.base (s : Latched) : Regs :=
  regFileReset s.rm fun r => if r.clear then r.zero else s.rm r

structure Latched.Computed (s : Latched) : Prop where
  gnt : s.gnt = busArb helperCount s.rm
  robIds : s.robIds = regFileNext s.rm

variable [WideShift]

/-- A tick from the latched registers `s` and the in-place state `q` to `s'` and
    `q'`; fetch and dispatch find the in-place state `p`. -/
structure Step (s : Latched) (q p : Plain) (s' : Latched) (q' : Plain) : Prop where
  written : ∀ {r : CpuReg} {v : r.type}, Written s q.data p r v → s'.rm r = v
  kept : ∀ {r : CpuReg}, (∀ v, ¬Written s q.data p r v) → s'.rm r = s.base r
  raised : ∀ {x : CpuOr}, s'.rr x = true ↔ Raised s q.data x
  computed : s.Computed
  computed' : s'.Computed
  data : q'.data = applyStores q.data (s.performs.map s.storeIn)
  fetched : p.data = q.data ∨ p.data = q'.data
  seq : p.dispatched = q.dispatched
  dispatched : q'.dispatched = q.dispatched + if (s.dispatch p).isSome then 1 else 0
  hcf : q'.hcf = (q.hcf || (s.commits && s.head.op = .hcf))
  mem_log : ∀ {e : Event}, e ∈ q'.log ↔ e ∈ q.log ∨ Logged s q.data p e
  retired : q'.retired = q.retired ++ s.retired.toList
  halted : q'.halted = q.halted ++ s.halted.toList
  issued : q'.issued = q.issued ++ s.issued.toList
  performed : q'.performed = q.performed ++ s.performs.map s.storeIn
  /-- The decisions of the tick that an assertion of the source guards. -/
  memMsg_isSome : ∀ {i}, s.memReady = some i → (s.acquired 0).isSome → (s.memMsg q.data i).isSome
  storeDone_ok : ∀ {i}, i ∈ memSlots → s.rm.memClear = false → memStoreDone s i = true →
    memSetSz (fun _ => 0) (s.rm.storeReq i).addr (s.rm.storeReq i).value
      (s.rm.storeReq i).size ≠ none
  aluMsg_isSome : ∀ {a}, a < aluCount → bhShouldClear s = false → s.rr (.aluBusy a) = true →
    (s.aluMsg a).isSome
  loadBlocked : ∀ {rs}, s.loadPick = some rs → s.loadBlocked rs = some false
  dispatchAsserts : ∀ {rs inst}, s.dispatch p = some (rs, inst) → dispatchAsserts inst = true
  loadSlot : s.issuesLoad.isSome → s.loadSlot.isSome
  storeSlot : s.issuesStore.isSome → s.storeSlot.isSome

namespace Step
variable {s s' : Latched} {q p q' : Plain} (st : Step s q p s' q')
include st

theorem cases (r : CpuReg) :
    (∃ v, Written s q.data p r v ∧ s'.rm r = v) ∨
      ((∀ v, ¬Written s q.data p r v) ∧ s'.rm r = s.base r) := by
  by_cases h : ∃ v, Written s q.data p r v
  · obtain ⟨v, hv⟩ := h
    exact .inl ⟨v, hv, st.written hv⟩
  · have hn : ∀ v, ¬Written s q.data p r v := fun v hv => h ⟨v, hv⟩
    exact .inr ⟨hn, st.kept hn⟩

theorem not_raised {x : CpuOr} : s'.rr x = false ↔ ¬Raised s q.data x := by
  rw [← st.raised, Bool.not_eq_true]

end Step

omit [WideShift] in
theorem latch_computed (c : Cpu) : (latch c).Computed := ⟨rfl, rfl⟩

section
variable {o : Schedule} {c c' : Cpu}

theorem Tick.step {ls : List Listener} {p : Plain} (t : Tick ls c c' p)
    (hls : ls.Perm Listener.registered) : Step (latch c) c.plain p (latch c') c'.plain where
  written := t.written hls
  kept := t.kept hls
  raised := t.raised
  computed := latch_computed c
  computed' := latch_computed c'
  data := by rw [t.data, storesOf_memTick fun i hi hc hd => memStoreDone_ok t.noFail hi hc hd]
  fetched := t.fetched
  seq := t.seq
  dispatched := by rw [t.dispatched, countP_isDispatch]
  hcf := by
    rw [t.hcf, Bool.eq_iff_iff]
    simp only [Bool.or_eq_true, List.any_eq_true, Bool.and_eq_true, decide_eq_true_eq]
    refine or_congr_right ⟨?_, ?_⟩
    · rintro ⟨x, hx, hh⟩
      cases x <;> simp [PlainOp.isHcf] at hh
      rw [mem_plains, mem_robUnitTick] at hx
      simpa [mem_robFlush] using hx
    · rintro ⟨hc, ho⟩
      exact ⟨.hcf, mem_plains.2 (by simp [mem_robUnitTick, hc, ho]), rfl⟩
  mem_log := fun {e} => t.mem_log.trans (or_congr_right (logs_iff t.noFail hls))
  retired := by
    rw [Plain.retired, t.log (show Callback.robUnitTick ∈ _ by decide) (fun e he => by
      cases e <;> first | rfl | exact absurd rfl he)]
    simp only [Callback.tickEffects, Callback.effects, logsOf_robUnitTick]
    cases (latch c).retired <;> cases (latch c).halted <;> rfl
  halted := by
    rw [Plain.halted, t.log (show Callback.robUnitTick ∈ _ by decide) (fun e he => by
      cases e <;> first | rfl | exact absurd rfl he)]
    simp only [Callback.tickEffects, Callback.effects, logsOf_robUnitTick]
    cases (latch c).retired <;> cases (latch c).halted <;> rfl
  issued := by
    rw [Plain.issued, t.log (show Callback.lsQueueTick ∈ _ by decide) (fun e he => by
      cases e <;> first | rfl | exact absurd rfl he)]
    simp only [Callback.tickEffects, Callback.effects, logsOf_lsQueueTick]
    cases (latch c).issued <;> rfl
  performed := by
    rw [Plain.performed, t.log (show Callback.memTick ∈ _ by decide) (fun e he => by
      cases e <;> first | rfl | exact absurd rfl he)]
    exact congrArg _ (performed_memTick fun i hi hc hd => memStoreDone_ok t.noFail hi hc hd)
  memMsg_isSome := TomasuloCpu.memMsg_isSome t.noFail
  storeDone_ok := memStoreDone_ok t.noFail
  aluMsg_isSome := fun {a} ha hc hb => by
    cases hx : (latch c).rm.resultBuf a |>.busy
    · by_contra hn
      refine t.noFail (.aluTick a) (aluTick_mem_registered.2 ha) .assertion
        (mem_aluTick.2 (.inr (.inr ⟨hc, hx, hb, ?_, .inr rfl⟩)))
      simpa [Latched.aluMsg, hc, hx, hb] using hn
    · simp [Latched.aluMsg, hc, hx]
  loadBlocked := fun {rs} h => by
    cases hb : (latch c).loadBlocked rs with
    | none =>
      exact absurd (mem_rsUnitTick.2 (.inr (.inr (.inr (.inl ⟨rs, h, .inl ⟨hb, rfl⟩⟩)))))
        (t.noFail .rsUnitTick (by decide) .assertion)
    | some b =>
      simp only [Latched.loadPick] at h
      split at h
      · cases h
      · have hp := List.find?_some h
        cases b
        · rfl
        · simp [hb] at hp
  dispatchAsserts := fun {rs inst} h => by
    by_contra hn
    refine t.noFail .instUnitTick (by decide) .assertion
      (mem_instUnitTick.2 (.inr ⟨rs, inst, h, .inr (.inr (.inl (mem_instDispatch.2 ?_)))⟩))
    simp only [Bool.not_eq_true] at hn
    simp [hn]
  loadSlot := fun h => by
    obtain ⟨payload, hp⟩ := Option.isSome_iff_exists.1 h
    by_contra hn
    exact t.noFail .lsQueueTick (by decide) .outOfBounds (mem_lsQueueTick.2 (.inr (.inr (.inl
      ⟨payload, hp, mem_memRequestLoad.2 (.inl ⟨by simpa using hn, rfl⟩)⟩))))
  storeSlot := fun h => by
    obtain ⟨payload, hp⟩ := Option.isSome_iff_exists.1 h
    by_contra hn
    exact t.noFail .lsQueueTick (by decide) .outOfBounds (mem_lsQueueTick.2 (.inr (.inr (.inr
      ⟨payload, hp, .inl (mem_memRequestStore.2 (.inl ⟨by simpa using hn, rfl⟩))⟩))))

theorem step_of_cpuTick (h : cpuTick o c = .ok c') :
    ∃ p, Step (latch c) c.plain p (latch c') c'.plain :=
  ⟨_, (Tick.of_cpuTick h).step o.listeners_perm⟩

/-- What holds at the start and is kept by every step holds after every run. -/
theorem cpuRun_induction {I : Latched → Plain → Prop} {os : List Schedule}
    (h0 : I (latch c) c.plain)
    (hstep : ∀ {s q p s' q'}, I s q → Step s q p s' q' → I s' q')
    (hr : cpuRun os c = .ok c') : I (latch c') c'.plain := by
  induction os generalizing c with
  | nil =>
    cases hr
    exact h0
  | cons o os ih =>
    obtain ⟨c₁, h₁, h₂⟩ := bind_ok.1 hr
    obtain ⟨p, st⟩ := step_of_cpuTick h₁
    exact ih (hstep h0 st) h₂

/-- Every tick of a run meets a condition on the state before it. -/
def RunAll (P : Schedule → Cpu → Prop) : List Schedule → Cpu → Prop
  | [], _ => True
  | o :: os, c => P o c ∧ ∀ c', cpuTick o c = .ok c' → RunAll P os c'

instance RunAll.decidable {_ : WideShift} {P : Schedule → Cpu → Prop} [∀ o c, Decidable (P o c)] :
    ∀ os c, Decidable (RunAll P os c)
  | [], _ => .isTrue trivial
  | o :: os, c =>
    have : Decidable (∀ c', cpuTick o c = .ok c' → RunAll P os c') :=
      match cpuTick o c with
      | .ok c' => @decidable_of_iff _ (RunAll P os c') ⟨fun h _ he => by cases he; exact h,
          fun h => h c' rfl⟩ (RunAll.decidable os c')
      | .error _ => .isTrue fun _ he => by cases he
    inferInstanceAs (Decidable (_ ∧ _))

theorem RunAll.induction {P : Schedule → Cpu → Prop} {I : Latched → Plain → Prop}
    {os : List Schedule} (hP : RunAll P os c) (h0 : I (latch c) c.plain)
    (hstep : ∀ {o c c'}, I (latch c) c.plain → P o c →
      Step (latch c) c.plain (cpuPlainAt o c .instUnitTick) (latch c') c'.plain →
      I (latch c') c'.plain)
    (hr : cpuRun os c = .ok c') : I (latch c') c'.plain := by
  induction os generalizing c with
  | nil =>
    cases hr
    exact h0
  | cons o os ih =>
    obtain ⟨c₁, h₁, h₂⟩ := bind_ok.1 hr
    exact ih (hP.2 c₁ h₁) (hstep h0 hP.1 ((Tick.of_cpuTick h₁).step o.listeners_perm)) h₂

theorem cpuRun_append {os os' : List Schedule} :
    cpuRun (os ++ os') c = cpuRun os c >>= cpuRun os' := by
  induction os generalizing c with
  | nil => rfl
  | cons o os ih =>
    simp only [List.cons_append, cpuRun]
    cases cpuTick o c with
    | error f => rfl
    | ok c₁ => exact ih

end

end TomasuloCpu
