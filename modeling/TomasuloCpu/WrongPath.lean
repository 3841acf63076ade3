import TomasuloCpu.AluClock
import TomasuloCpu.Boot
import TomasuloCpu.Dataflow
import TomasuloCpu.Executable
import TomasuloCpu.FakeCpu

set_option autoImplicit false

/-!
# Speculation and assertions

A run that dispatches executable words only, on whatever path, does not get to
the assertions of the executors.
-/
namespace TomasuloCpu
open Clocked

/-- The instructions in the reorder buffer are known to the units, and what is in flight
    has known ops and sizes. -/
structure Accepting (s : Latched) : Prop where
  entry : ∀ slot ∈ s.robs, (s.rm.robPayload slot).inst.Accepted
  flow : Flow s (fun t => t.op ∈ aluOps) (fun _ => True) (fun l => KnownSize l.size)
    (fun r => KnownSize r.size)

variable [WideShift] {s s' : Latched} {q p q' : Plain}

/-- The next tick gets to a failing default branch of `alu_execute`, `ls_size`,
    `_mem_get_sz` or `inst_dispatch`. -/
def Aborts (o : Schedule) (c : Cpu) : Prop :=
  (∃ a < aluCount, .fail .assertion ∈ aluTick a (latch c)) ∨
  .fail .assertion ∈ rsUnitTick (latch c) ∨
  ((latch c).rm.memClear = false ∧ .fail .assertion ∈ (memLoads (latch c) c.plain.data).effects) ∨
  .fail .assertion ∈ instUnitTick (latch c) (cpuPlainAt o c .instUnitTick)

/-- The word that the next tick dispatches, if any, is executable. -/
def DispatchesExecutable (o : Schedule) (c : Cpu) : Prop :=
  ((latch c).dispatch (cpuPlainAt o c .instUnitTick)).isSome = true →
    Executable (memGetInst (cpuPlainAt o c .instUnitTick).data (latch c).rm.pc)

instance {_ : WideShift} (o : Schedule) (c : Cpu) : Decidable (DispatchesExecutable o c) :=
  inferInstanceAs (Decidable (_ → Executable _))

omit [WideShift] in
theorem dispatch_accepted {rs : RsId} {inst : Inst} (h : s.dispatch p = some (rs, inst))
    (hw : Executable (memGetInst p.data s.rm.pc)) : inst.Accepted := by
  obtain ⟨rfl, hu, -⟩ := dispatch_spec h
  exact (executable_iff hu).1 hw

namespace Accepting
variable (acc : Accepting s) (inv : Conserved s) (ent : Entries s)
include acc inv ent

omit [WideShift] in
theorem station {rs : RsId} (hr : rs ∈ stations) (hb : s.rm.rsBusy rs = true) :
    (rs ∈ aluStations → (s.rm.rsPayload rs).opAlu ∈ aluOps) ∧
      (rs ∈ loadBuffers → KnownSize (s.rm.rsPayload rs).opLs) := by
  have hs := ent.station rs hr hb
  have ha : (s.entryOf rs).inst.Accepted := acc.entry _ (inv.rs_open hr hb).1
  constructor
  · intro hm
    rw [hs.opAlu]
    exact ha.alu (@rsVec_disjoint _ _ .reservationStation hs.kind hm)
  · intro hm
    rw [hs.opLs]
    refine ha.size ?_
    rw [@rsVec_disjoint _ _ .loadBuffer hs.kind hm]
    decide

theorem step (st : Step s q p s' q')
    (hd : (s.dispatch p).isSome = true → Executable (memGetInst p.data s.rm.pc)) :
    Accepting s' where
  entry := by
    intro slot hs
    cases hc : s.rm.robs.clear
    · rcases (st.mem_robs inv.control hc).1 hs with ⟨hs, -⟩ | ⟨hdis, rfl⟩
      · rw [(st.robPayload_same inv.control hs).inst]
        exact acc.entry slot hs
      · obtain ⟨⟨rs, inst⟩, h⟩ := Option.isSome_iff_exists.1 hdis
        rw [(st.entry_dispatch h).2.2.2]
        exact dispatch_accepted h (hd hdis)
    · rw [(st.quiet inv.control hc).robs] at hs
      cases hs
  flow := by
    refine acc.flow.step inv st (fun a rs h => ?_) (fun _ _ _ _ _ _ => trivial) (fun rs h => ?_)
      (fun _ h => h) (fun _ _ h => h) (fun _ _ _ _ _ => trivial)
    · have hf := aluFrees_of_starts h
      obtain ⟨hr, hb⟩ := freed_busy (mem_freed.2 (.inl ⟨a, hf⟩))
      exact (acc.station inv ent hr hb).1 (aluPick_spec (aluPick_of_frees hf)).2.2.1
    · obtain ⟨hr, hb⟩ := freed_busy (mem_freed.2 (.inr (.inl h)))
      exact (acc.station inv ent hr hb).2 (loadPick_spec h).1

omit [WideShift] inv in
theorem store_size {slot : ℤ} (hs : slot ∈ s.robs) (ho : (s.rm.robPayload slot).op = .store) :
    KnownSize (s.rm.robPayload slot).size := by
  have he := ent.entry slot hs
  have ht := he.legal.instType_store_iff.2 (he.legal.robOp_store_iff.1 (he.op.symm.trans ho))
  rw [he.size]
  refine (acc.entry slot hs).size ?_
  rw [ht]
  decide

end Accepting

omit [WideShift] in
theorem rsuOverlap_isSome {addr₁ addr₂ : Addr} {size₁ size₂ : LsSize} (h₁ : KnownSize size₁)
    (h₂ : KnownSize size₂) : (rsuOverlap addr₁ size₁ addr₂ size₂).isSome = true := by
  unfold KnownSize at h₁ h₂
  unfold rsuOverlap
  split_ifs <;> simp [h₁, h₂]

omit [WideShift] in
theorem rsuBlocking_isSome {addr : Addr} {size : LsSize} {dest : RobId} (h : KnownSize size)
    {slots : List ℤ} (hs : ∀ slot ∈ slots, (s.rm.robPayload slot).op = .store →
      KnownSize (s.rm.robPayload slot).size) :
    (rsuBlocking s addr size dest slots).isSome = true := by
  induction slots with
  | nil => rfl
  | cons slot slots ih =>
    have ih := ih fun i hi => hs i (List.mem_cons_of_mem _ hi)
    simp only [rsuBlocking]
    split_ifs with hd ho ha
    · rfl
    · rfl
    · obtain ⟨b, hb⟩ := Option.isSome_iff_exists.1
        (@rsuOverlap_isSome addr (s.rm.robPayload slot).addr _ _ h
          (hs slot List.mem_cons_self ho))
      rw [hb]
      cases b
      · exact ih
      · rfl
    · exact ih

omit [WideShift] in
/-- A failing load of memory is in a busy slot and has a size that `_mem_get_sz` does
    not know. -/
theorem fail_mem_memLoads {data : MemData} {f : Fault}
    (h : .fail f ∈ (memLoads s data).effects) : ∃ i ∈ memSlots, s.rr (.loadBusy i) = true ∧
      memGetSz data (s.rm.loadReq i).addr (s.rm.loadReq i).size = none := by
  rw [memLoads, memLoadStep_foldl data memSlots _ memSlots_nodup] at h
  simp only [Bool.false_eq_true, ↓reduceIte, List.nil_append, List.mem_flatMap] at h
  obtain ⟨i, hi, h⟩ := h
  split at h
  · rename_i hb
    rcases List.mem_cons.1 h with h | h
    · cases h
    · split at h
      · rcases mem_memSendEffects.1 h with h | ⟨b, -, ⟨hn, -⟩ | ⟨msg, -, h | h⟩⟩
        · exact (ofHelper_bhAcquire h).elim
        · exact ⟨i, hi, hb, Option.map_eq_none_iff.1 hn⟩
        · cases h
        · cases h
      · cases h
  · cases h

namespace Accepting
variable {c : Cpu} (acc : Accepting (latch c)) (inv : Conserved (latch c)) (ent : Entries (latch c))
include acc inv ent

theorem not_aborts (o : Schedule) : ¬Aborts o c := by
  rintro (⟨a, ha, h⟩ | h | ⟨-, h⟩ | h)
  · rcases ofAlu_aluTick h with h | h | ⟨-, -, hb, hx⟩
    · exact h
    · exact h
    · have hs := (@aluExecute_isSome_iff _ _ ((latch c).rm.aluTask a).value1
        ((latch c).rm.aluTask a).value2).2 (acc.flow.task a ha hb)
      rw [Option.map_eq_none_iff.1 hx] at hs
      cases hs
  · rcases mem_rsUnitTick.1 h with ⟨-, he | ⟨id, -, he⟩⟩ | ⟨a, rs, -, he | he⟩ | ⟨a, rs, -, he⟩ |
      ⟨rs, hp, ⟨hb, -⟩ | ⟨-, he | he | he | he⟩⟩ | ⟨rs, -, he⟩ | ⟨rs, -, he | he⟩ <;> try cases he
    obtain ⟨hr, hbusy⟩ := freed_busy (mem_freed.2 (.inr (.inl hp)))
    have hsize := (acc.station inv ent hr hbusy).2 (loadPick_spec hp).1
    have hs := @rsuBlocking_isSome (latch c) (rsCalcAddr ((latch c).rm.rsPayload rs)) _
      ((latch c).rm.rsPayload rs).dest hsize _ fun slot hs => acc.store_size ent hs
    rw [Latched.loadBlocked] at hb
    rw [hb] at hs
    cases hs
  · obtain ⟨i, hi, hb, hn⟩ := fail_mem_memLoads h
    have hs := (@memGetSz_isSome_iff c.plain.data ((latch c).rm.loadReq i).addr _).2
      (acc.flow.mem i hi hb)
    rw [hn] at hs
    cases hs
  · rcases mem_instUnitTick.1 h with ⟨-, he | he⟩ | ⟨rs, inst, hd, he | he | hm | he⟩ <;>
      try cases he
    rcases mem_instDispatch.1 hm with he | he | he | he | ⟨-, -, he⟩ | ⟨x, -, hm⟩ | ⟨hn, -⟩ | he <;>
      try cases he
    · obtain ⟨route, -, he⟩ := mem_instRegLog.1 hm
      cases he
    · obtain ⟨rfl, hu, -⟩ := dispatch_spec hd
      rw [dispatchAsserts_decode hu] at hn
      cases hn

end Accepting

section
variable (image : MemData) (garbage : ℤ → ℤ → ℤ) (hist : ℤ)

omit [WideShift] in
theorem accepting_cpuCreate : Accepting (latch (cpuCreate image garbage hist)) where
  entry := fun _ hs => by cases hs
  flow :=
    { task := fun _ _ hb => by cases hb
      buf := fun _ _ _ => trivial
      helper := fun _ _ _ _ => trivial
      bus := fun _ _ => trivial
      lsq := fun _ hs => by cases hs
      mem := fun _ _ hb => by cases hb }

/-- A run that dispatches executable words only never aborts; and of the words with a
    known opcode exactly the executable ones are accepted by all units. -/
theorem wrong_path_safe {os : List Schedule} {c : Cpu}
    (hr : cpuRun os (cpuCreate image garbage hist) = .ok c)
    (hw : RunAll DispatchesExecutable os (cpuCreate image garbage hist)) :
    (∀ o, ¬Aborts o c) ∧
      ∀ w, (instDecode w).op ≠ InstOp.unimp → (Executable w ↔ (instDecode w).Accepted) := by
  have h : Conserved (latch c) ∧ Entries (latch c) ∧ Accepting (latch c) :=
    hw.induction (I := fun s _ => Conserved s ∧ Entries s ∧ Accepting s)
      ⟨conserved_cpuCreate image garbage hist, entries_cpuCreate image garbage hist,
        accepting_cpuCreate image garbage hist⟩
      (fun ⟨inv, ent, acc⟩ hw st => ⟨inv.step st, ent.step inv st, acc.step inv ent st hw⟩) hr
  obtain ⟨inv, ent, acc⟩ := h
  exact ⟨acc.not_aborts inv ent, fun w => executable_iff⟩

end

omit [WideShift] in
/-- Past a flush, behind a branch that was predicted wrong. -/
theorem wrong_path_safe_branch : ¬@Aborts .masked .inOrder (bootCpu 9 branchProgram) :=
  (@wrong_path_safe .masked (imageOf branchProgram) (fun _ _ => 0) 0 (bootTicks 9) _
    (cpuRun_boot (by decide +kernel)) (by decide +kernel)).1 .inOrder

omit [WideShift] in
/-- The word after HCF is an OP word with a `funct7` that its `funct3` does not have:
    `fakecpu` never reads it, the CPU executes it before HCF retires. -/
theorem word_after_hcf_aborts :
    ((@FakeCpu.tick .masked (fakeCpuCreate (imageOf [instMagicHcf, 0x40001033]))).map
      FakeCpu.hcf) = some true ∧
    @cpuRun .masked (bootTicks 3) (boot [instMagicHcf, 0x40001033]) =
      .ok (bootCpu 3 [instMagicHcf, 0x40001033]) ∧
    (bootCpu 3 [instMagicHcf, 0x40001033]).plain.hcf = false ∧
    @Aborts .masked .inOrder (bootCpu 3 [instMagicHcf, 0x40001033]) := by
  refine ⟨by decide +kernel, cpuRun_boot (by decide +kernel), by decide +kernel,
    .inl ⟨0, by decide, ?_⟩⟩
  exact (@mem_aluTick _ _ .masked _).2 (.inr (.inr ⟨by decide +kernel, by decide +kernel,
    by decide +kernel, by decide +kernel, .inr rfl⟩))

end TomasuloCpu
