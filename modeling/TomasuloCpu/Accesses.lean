import TomasuloCpu.Bounds
import TomasuloCpu.Precise
import TomasuloCpu.Training

set_option autoImplicit false

/-!
# The accesses of a tick

`_mem_get_sz`, `_mem_set_sz` and the branch predictor check no index. In C a tick that
reads or writes out of bounds is undefined; here it is a tick that fails.
-/
namespace TomasuloCpu
open Clocked

def Latched.StoresInside (s : Latched) : Prop :=
  s.rm.memClear = false → ∀ i ∈ memSlots, memStoreDone s i = true →
    InMemory (s.rm.storeReq i).addr (lsBytes (s.rm.storeReq i).size)

/-- The next tick predicts and trains with rows of the table. -/
def Latched.PredictsInside (s : Latched) (p : Plain) : Prop :=
  (∀ d ∈ s.dispatch p, d.2.format = .b → InTable p.bp.hist) ∧
    (s.commits = true → s.head.op = .branch → InTable s.head.predictedTake.hist)

def Latched.RetiresInside (s : Latched) : Prop :=
  s.storesHead = true → InMemory s.head.addr (lsBytes s.head.size)

instance (s : Latched) : Decidable s.StoresInside :=
  inferInstanceAs (Decidable (_ → ∀ i ∈ memSlots, _))

instance (s : Latched) (p : Plain) : Decidable (s.PredictsInside p) :=
  @instDecidableAnd _ _ (Option.decidableForallMem _) inferInstance

instance (s : Latched) : Decidable s.RetiresInside := inferInstanceAs (Decidable (_ → _))

def Plain.StoresInside (q : Plain) : Prop :=
  ∀ w ∈ q.retiredStores, InMemory w.1 (lsBytes w.2.2)

section
variable [WideShift]

/-- The next tick accesses memory and the table inside their bounds. -/
def AccessesInside (o : Schedule) (c : Cpu) : Prop :=
  (latch c).ReadsInside ∧ (latch c).StoresInside ∧
    (latch c).PredictsInside (cpuPlainAt o c .instUnitTick)

end

instance {_ : WideShift} (o : Schedule) (c : Cpu) : Decidable (AccessesInside o c) :=
  inferInstanceAs (Decidable (_ ∧ _ ∧ _))

/-- `cpu_tick` where an access out of bounds is a fault. -/
def cpuTickInside [WideShift] (o : Schedule) (c : Cpu) : Except Fault Cpu :=
  if AccessesInside o c then cpuTick o c else .error .outOfBounds

section
variable {s s' : Latched} {q p q' : Plain} {bp : BranchPredictor}

theorem StoresOk.done_retired (ok : StoresOk s q) {i : ℕ} (hi : i ∈ memSlots)
    (hd : memStoreDone s i = true) : s.storeIn i ∈ q.retiredStores := by
  simp only [memStoreDone, Bool.and_eq_true] at hd
  rw [← ok.order]
  exact List.mem_append_left _ (List.mem_append_right _
    (List.mem_map_of_mem ((ok.busy i).2 ⟨hi, hd.1⟩)))

theorem StoresOk.storesInside (ok : StoresOk s q) (hq : q.StoresInside) : s.StoresInside :=
  fun _ _ hi hd => hq _ (ok.done_retired hi hd)

/-- What holds of the store that retires holds of all that have retired. -/
theorem Step.retiredStores_all [WideShift] (st : Step s q p s' q')
    {P : Addr × Word × LsSize → Prop} (h : ∀ w ∈ q.retiredStores, P w)
    (hs : s.storesHead = true → P (s.head.addr, s.head.value, s.head.size)) :
    ∀ w ∈ q'.retiredStores, P w := by
  intro w hw
  rw [Plain.retiredStores, st.retired, List.filterMap_append, List.mem_append] at hw
  rcases hw with hw | hw
  · exact h w hw
  · obtain ⟨data, hd, hw⟩ := List.mem_filterMap.1 hw
    rw [Option.mem_toList, Latched.retired] at hd
    split_ifs at hd with hr
    cases hd
    rw [RobPayload.store?] at hw
    split_ifs at hw with ho
    cases hw
    exact hs (storesHead_iff.2 ⟨hr, ho⟩)

/-- The rows that are predicted and trained with are histories that were shifted in. -/
theorem Trained.predictsInside (h : Trained bp s q) (ctl : Control s) (hh : InTable bp.hist)
    (hp : p.bp = q.bp ∨ p.bp = s.bpAfter q.bp) : s.PredictsInside p := by
  constructor
  · intro d _ _
    rcases hp with hp | hp
    · rw [hp, h.trained]
      exact inTable_foldl hh _
    · rw [hp, bpAfter_eq, h.trained]
      exact inTable_foldl (inTable_foldl hh _) _
  · intro hc ho
    exact (h.entries (Latched.clear_of_commits hc) _ (head_mem ctl hc) ho).inTable hh

end

end TomasuloCpu
