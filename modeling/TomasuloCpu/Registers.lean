import TomasuloCpu.Entries
import TomasuloCpu.Stores

set_option autoImplicit false

/-!
# The registers that `cpu_create` allocates

Names of registers range over all numbers; the CPU has finitely many of them,
and no run writes another one.
-/
namespace TomasuloCpu
open Clocked

def CpuReg.Allocated : CpuReg → Prop
  | .req h | .current h => h < helperCount
  | .buffer h b => h < helperCount ∧ (b = 0 ∨ b = 1)
  | .loadReq i | .storeReq i => i ∈ memSlots
  | .register x | .robIdSet x | .robIdClearIf x => x ∈ regIds
  | .lsq (.data i) => 0 ≤ i ∧ i < lsQueueCapacity
  | .aluTask a | .resultBuf a => a < aluCount
  | .rsBusy id | .rsPayload id => id ∈ stations
  | .robs (.data i) | .robReady i | .robPayload i => 0 ≤ i ∧ i < robCapacity
  | .fire | .busData | .busClear | .memClear | .regClear | .lsq .head | .lsq .tail | .lsq .clear
  | .lockSignal | .lsqClear | .rsClear | .pc | .forcePc | .robs .head | .robs .tail
  | .robs .clear => True

def CpuOr.Allocated : CpuOr → Prop
  | .bhBusy h b => h < helperCount ∧ (b = 0 ∨ b = 1)
  | .loadBusy i | .storeBusy i => i ∈ memSlots
  | .lockStall => True
  | .aluBusy a => a < aluCount

section
variable {s : Latched}

theorem acquired_mem {h : ℕ} {b : ℤ} (ok : HelperOk s h) (ha : s.acquired h = some b) :
    b = 0 ∨ b = 1 := by
  have hr : bhReqIx s h = -1 ∨ bhReqIx s h = 0 ∨ bhReqIx s h = 1 := by
    unfold bhReqIx
    dsimp only
    split_ifs
    · exact .inr ok.current
    · exact .inr bhOther_mem
    · exact .inl rfl
  unfold Latched.acquired bhAcquire at ha
  dsimp only at ha
  split_ifs at ha
  · cases ha
    exact bhOther_mem
  · cases ha
    exact ok.current

theorem EntryOk.dest_mem {data : RobPayload} (ok : EntryOk data)
    (h : data.op = .store ∨ data.op = .branch → data.dest ≠ -1) : data.dest ∈ regIds := by
  have hd := ok.dest
  by_cases hh : hasDest data.inst = true
  · rw [hd, if_pos hh]
    exact ok.legal.rd
  · rw [if_neg hh] at hd
    refine absurd hd (h ?_)
    have hf : data.inst.format = .s ∨ data.inst.format = .b := by
      by_contra hn
      rw [not_or] at hn
      exact hh (by simp [hasDest, hn])
    rcases ok.legal.format_cases with ⟨he, -⟩ | ⟨he, -⟩ | ⟨he, -⟩ | ⟨he, -⟩ | ⟨he, ho⟩ | ⟨he, ho⟩
    all_goals rw [he] at hf
    all_goals simp at hf
    · exact .inr (ok.op.trans (ok.legal.robOp_branch_iff.2 ho))
    · exact .inl (ok.op.trans (ok.legal.robOp_store_iff.2 ho))

end

variable [WideShift] {s : Latched} {data : MemData} {p : Plain}

omit [WideShift] in
theorem head_dest_mem (ctl : Control s) (ent : Entries s) (h : s.commits = true)
    (hd : s.head.op = .store ∨ s.head.op = .branch → s.head.dest ≠ -1) :
    s.head.dest ∈ regIds := by
  exact (ent.entry _ (head_mem ctl h)).dest_mem hd

omit [WideShift] in
theorem storePick_slot (inv : Conserved s) {rs : RsId} (h : s.storePick = some rs) :
    robSlot (s.rm.rsPayload rs).dest ∈ s.robs := by
  obtain ⟨hm, hr⟩ := storePick_spec h
  exact (inv.rs_open (by simp [stations, hm]) (storeReady_busy hr)).1

theorem written_allocated (inv : Conserved s) (ent : Entries s) {r : CpuReg} {v : r.type}
    (h : Written s data p r v) : r.Allocated := by
  have ctl := inv.control
  have hrobs : ∀ slot ∈ s.robs, 0 ≤ slot ∧ slot < robCapacity := fun slot hs =>
    ctl.robs.queueForeach_bounds hs
  cases r with
  | req h' => exact h.2.1
  | current h' => exact h.1
  | buffer h' b => exact ⟨h.1, acquired_mem (inv.helper h' h.1) h.2.1⟩
  | loadReq i =>
    rcases h with ⟨-, hi, -⟩ | ⟨payload, -, hi, -⟩
    · exact hi
    · exact (loadSlot_spec hi).1
  | storeReq i =>
    rcases h with ⟨-, hi, -⟩ | ⟨payload, -, hi, -⟩
    · exact hi
    · exact (storeSlot_spec hi).1
  | register x =>
    obtain ⟨hw, rfl, -⟩ := h
    simp only [Latched.writesHead, Bool.and_eq_true, Bool.or_eq_true, decide_eq_true_eq] at hw
    obtain ⟨⟨hc, ho | ⟨-, hd⟩⟩, -⟩ := hw
    · exact head_dest_mem ctl ent hc (by simp [ho])
    · exact head_dest_mem ctl ent hc fun _ he => absurd (he ▸ hd) (by decide)
  | robIdSet x =>
    obtain ⟨rs, inst, hd, -, rfl, -⟩ := h
    exact (dispatch_decoded hd).2.rd
  | robIdClearIf x =>
    rcases h with ⟨-, hx, -⟩ | ⟨hr, rfl, hpos, -⟩
    · exact hx
    · exact head_dest_mem ctl ent (Latched.commits_of_retires hr) fun _ he =>
        absurd (he ▸ hpos) (by decide)
  | lsq q =>
    cases q with
    | data i =>
      rcases h with ⟨-, hi, -⟩ | ⟨rfl, -⟩
      · exact ctl.lsq.queueForeach_bounds hi
      · exact ctl.lsq.tail
    | _ => trivial
  | aluTask a =>
    obtain ⟨rs, hs, -⟩ := h
    exact (aluPick_spec (aluPick_of_frees (aluFrees_of_starts hs))).1
  | resultBuf a => exact h.1
  | rsBusy id =>
    rcases h with ⟨-, hm, -⟩ | ⟨⟨a, hf⟩, -⟩ | ⟨hp, -⟩ | ⟨hf, -⟩ | ⟨inst, hd, -⟩
    · exact hm
    · exact (freed_busy (mem_freed.2 (.inl ⟨a, hf⟩))).1
    · exact (freed_busy (mem_freed.2 (.inr (.inl hp)))).1
    · exact (freed_busy (mem_freed.2 (.inr (.inr hf)))).1
    · exact rsVec_subset (dispatch_spec hd).2.2.1
  | rsPayload id =>
    rcases h with ⟨-, -, hm, -⟩ | ⟨inst, hd, -⟩
    · exact hm
    · exact rsVec_subset (dispatch_spec hd).2.2.1
  | robs q =>
    cases q with
    | data i =>
      obtain ⟨rfl, -⟩ := h
      exact ctl.robs.tail
    | _ => trivial
  | robReady slot =>
    rcases h with ⟨hr, rfl, -⟩ | ⟨-, hs, -⟩ | ⟨⟨rs, hf, rfl⟩, -⟩ | ⟨rfl, -⟩
    · exact ctl.robs.head
    · exact hrobs _ hs
    · exact hrobs _ (storePick_slot inv (storePick_of_frees hf))
    · exact ctl.robs.tail
  | robPayload slot =>
    rcases h with ⟨-, hs, -⟩ | ⟨rs, hp, rfl, -⟩ | ⟨rfl, -⟩
    · exact hrobs _ hs
    · exact hrobs _ (storePick_slot inv hp)
    · exact ctl.robs.tail
  | _ => trivial

theorem raised_allocated (inv : Conserved s) {x : CpuOr} (h : Raised s data x) :
    x.Allocated := by
  cases x with
  | bhBusy h' b =>
    have ok := inv.helper h' h.1
    refine ⟨h.1, ?_⟩
    rcases h.2 with ⟨-, ⟨rfl, -⟩ | ⟨rfl, -⟩⟩ | ⟨hb, -⟩
    · exact ok.current
    · exact bhOther_mem
    · exact acquired_mem ok hb
  | loadBusy i =>
    rcases h with ⟨-, hi, -⟩ | ⟨-, hi⟩
    · exact hi
    · exact (loadSlot_spec hi).1
  | storeBusy i =>
    rcases h with ⟨hi, -⟩ | ⟨-, hi⟩
    · exact hi
    · exact (storeSlot_spec hi).1
  | lockStall => trivial
  | aluBusy a =>
    rcases h with ⟨ha, -⟩ | h
    · exact ha
    · obtain ⟨rs, hs⟩ := Option.isSome_iff_exists.1 h
      exact (aluPick_spec (aluPick_of_frees (aluFrees_of_starts hs))).1

end TomasuloCpu
