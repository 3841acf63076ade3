import Mathlib.Data.List.Pairwise
import TomasuloCpu.FakeRun
import TomasuloCpu.Registers

set_option autoImplicit false

/-!
# One writer per register

No callback writes a register twice in a tick, and no two callbacks write the
same register, but for the tail of the load-store queue: `_rob_commit` pushes a
store and `_rsu_check_load` a load without knowing of each other.
-/
namespace TomasuloCpu
open Clocked

/-- When a store retires, older stores block every load that is ready. -/
def Latched.PushesApart (s : Latched) : Prop :=
  s.storesHead = true → ∀ rs ∈ loadBuffers, s.ready rs = true → s.loadBlocked rs = some true

instance (s : Latched) : Decidable s.PushesApart :=
  inferInstanceAs (Decidable (_ → ∀ rs ∈ loadBuffers, _))

theorem Latched.PushesApart.loadPick {s : Latched} (h : s.PushesApart) (hs : s.storesHead = true) :
    s.loadPick = none := by
  unfold Latched.loadPick
  split_ifs
  · rfl
  · rw [List.find?_eq_none]
    intro rs hm
    cases hr : s.ready rs
    · simp
    · simp [h hs rs hm hr]

/-- Parts that write different registers, each of them once. -/
theorem nodup_names_flatMap {α : Type} {l : List α} (hl : l.Nodup) {f : α → List CpuEffect}
    (hf : ∀ a ∈ l, (names (f a)).Nodup)
    (hd : ∀ a ∈ l, ∀ b ∈ l, ∀ r ∈ names (f a), r ∈ names (f b) → a = b) :
    (names (l.flatMap f)).Nodup := by
  have he : names (l.flatMap f) = l.flatMap fun a => names (f a) := List.filterMap_flatMap ..
  rw [he, List.nodup_flatMap]
  refine ⟨hf, ?_⟩
  have hp : l.Pairwise fun a b => a ≠ b := hl
  refine hp.imp_of_mem fun {a b} ha hb hne => List.disjoint_left.2 fun r hr hr' => ?_
  exact hne (hd a ha b hb r hr hr')

theorem eq_of_nodup_names_flatMap {α : Type} {l : List α} {f : α → List CpuEffect}
    (h : (names (l.flatMap f)).Nodup) {a b : α} (ha : a ∈ l) (hb : b ∈ l) {r : CpuReg}
    (hr : r ∈ names (f a)) (hr' : r ∈ names (f b)) : a = b := by
  induction l with
  | nil => cases ha
  | cons x l ih =>
    rw [List.flatMap_cons, names_append, List.nodup_append'] at h
    have hx : ∀ y ∈ l, r ∈ names (f x) → r ∉ names (f y) := by
      intro y hy h₁ h₂
      obtain ⟨v, hv⟩ := mem_names.1 h₂
      exact h.2.2 h₁ (mem_names.2 ⟨v, List.mem_flatMap.2 ⟨y, hy, hv⟩⟩)
    rcases List.mem_cons.1 ha with rfl | hal <;> rcases List.mem_cons.1 hb with rfl | hbl
    · rfl
    · exact absurd hr' (hx b hbl hr)
    · exact absurd hr (hx a hal hr')
    · exact ih h.2.1 hal hbl

section
variable {s : Latched}

theorem names_busArbReq (h : ℕ) :
    names (busArbReq s h) = [] ∨ names (busArbReq s h) = [.req h] := by
  unfold busArbReq
  split_ifs
  · exact .inl rfl
  · exact .inr rfl

theorem nodup_bhTick (h : ℕ) : (names (bhTick h s)).Nodup := by
  unfold bhTick
  have hr := @names_busArbReq s h
  dsimp only
  split_ifs <;> rcases hr with hr | hr <;> simp_all

theorem nodup_regFileTick : (names (regFileTick s)).Nodup := by
  unfold regFileTick
  split
  · rw [List.map_eq_flatMap]
    refine nodup_names_flatMap (by decide) (fun x _ => by simp) fun x _ y _ r hr hr' => ?_
    simp_all
  · exact List.nodup_nil

theorem nodup_queueTick_lsq : (names (liftLsq (queueTick s.rm.lsq))).Nodup := by
  unfold queueTick
  split <;> simp [liftLsq]

theorem nodup_queueTick_robs : (names (liftRobs (queueTick s.rm.robs))).Nodup := by
  unfold queueTick
  split <;> simp [liftRobs]

theorem nodup_busyWaitTick : (names (busyWaitTick s)).Nodup := by
  unfold busyWaitTick busyWait
  split_ifs <;> simp

theorem nodup_lsQueueTick (ctl : Control s) : (names (lsQueueTick s)).Nodup := by
  unfold lsQueueTick
  split_ifs
  · refine nodup_names_flatMap ctl.lsq.queueForeach_nodup (fun x _ => ?_) fun x _ y _ r hr hr' => ?_
    · dsimp only
      split_ifs <;> simp
    · dsimp only at hr hr'
      split_ifs at hr hr' <;> simp_all
  · exact List.nodup_nil
  · exact List.nodup_nil
  · split
    · exact List.nodup_nil
    · rename_i ws slot hp
      have hw : names (liftLsq ws) = [.lsq .head] := by
        unfold queuePop at hp
        split at hp
        · cases hp
        · cases hp
          rfl
      rw [names_append, hw]
      split_ifs
      · simp
      · split
        · unfold memRequestLoad
          split <;> simp
        · unfold memRequestStore busyWait
          split <;> simp

theorem names_acquire_cases (h : ℕ) :
    names (bhAcquire s h).1 = [] ∨ names (bhAcquire s h).1 = [.req h] := by
  have hr := @names_busArbReq s h
  unfold bhAcquire
  dsimp only
  split_ifs
  · exact .inl rfl
  · exact .inl rfl
  · simpa using hr

theorem nodup_aluTick [WideShift] (a : ℕ) : (names (aluTick a s)).Nodup := by
  have hr := @names_acquire_cases s (aluHelper a)
  unfold aluTick
  dsimp only
  split_ifs
  · simp
  · split <;> rcases hr with hr | hr <;> simp_all
  · split <;> rcases hr with hr | hr <;> simp_all
  · exact List.nodup_nil

theorem names_lsQueuePush (payload : LsQueuePayload) (h : lsQueueFull s = false) :
    names (lsQueuePush s payload) = [.lsq .tail, .lsq (.data s.rm.lsq.tail)] := by
  rw [lsQueuePush_eq payload h]
  rfl

theorem nodup_robUnitTick : (names (robUnitTick s)).Nodup := by
  rw [robUnitTick_eq]
  split
  · rename_i hc
    have hne := Latched.commits_nonempty hc
    have hset : ∀ x v, names (regStoreSet x v) = [] ∨ names (regStoreSet x v) = [.register x] := by
      intro x v
      unfold regStoreSet
      split_ifs
      · exact .inl rfl
      · exact .inr rfl
    have hflush : ∀ data, names (robFlush data) = [.forcePc, .regClear, .robs .clear, .rsClear,
        .lsqClear, .busClear, .memClear] := fun _ => rfl
    have hretire : ∀ rob data, names (robRetire s rob data) =
          [.robReady (robSlot rob), .robs .head] ∨
        names (robRetire s rob data) =
          [.robIdClearIf data.dest, .robReady (robSlot rob), .robs .head] := by
      intro rob data
      rw [robRetire, queuePop_of_not_empty hne]
      unfold regStoreRobIdClear
      split_ifs
      · exact .inl rfl
      · exact .inr rfl
      · exact .inl rfl
    unfold robCommit
    generalize s.rm.robPayload (robSlot (robId s.rm.robs.head)) = data
    have h₁ := hset data.dest data.value
    have h₂ := hretire (robId s.rm.robs.head) data
    dsimp only
    split
    · split_ifs <;> rcases h₁ with h₁ | h₁ <;> rcases h₂ with h₂ | h₂ <;> simp [h₁, h₂, hflush]
    · split_ifs <;> rcases h₁ with h₁ | h₁ <;> rcases h₂ with h₂ | h₂ <;> simp [h₁, h₂, hflush]
    · rcases h₁ with h₁ | h₁ <;> rcases h₂ with h₂ | h₂ <;> simp [h₁, h₂]
    · split_ifs with hf
      · simp
      · rw [Bool.not_eq_true] at hf
        rcases h₂ with h₂ | h₂ <;> simp [h₂, names_lsQueuePush _ hf]
    · simp
  · exact List.nodup_nil

variable [WideShift] {p : Plain}

theorem nodup_instUnitTick : (names (instUnitTick s p)).Nodup := by
  cases hf : s.rm.forcePc.busy
  · rw [instUnitTick_eq hf]
    cases s.dispatch p with
    | none => exact List.nodup_nil
    | some d =>
      have hlog : ∀ xs : List RegId, names (xs.flatMap (instRegLog s p.dispatched)) = [] := by
        intro xs
        refine List.eq_nil_iff_forall_not_mem.2 fun r hr => ?_
        obtain ⟨v, hv⟩ := mem_names.1 hr
        obtain ⟨x, -, hx⟩ := List.mem_flatMap.1 hv
        obtain ⟨route, -, he⟩ := mem_instRegLog.1 hx
        cases he
      simp only [Option.elim_some, instDispatch, regStoreRobIdSet]
      split_ifs <;> simp [hlog]
  · simp [instUnitTick, hf]

omit [WideShift] in
theorem nodup_names_append {es fs : List CpuEffect} (he : (names es).Nodup)
    (hf : (names fs).Nodup) (hd : ∀ r ∈ names es, r ∉ names fs) : (names (es ++ fs)).Nodup := by
  rw [names_append]
  exact he.append hf (List.disjoint_left.2 hd)

omit [WideShift] in
theorem StoresOk.memStoreDone_unique {q : Plain} (ok : StoresOk s q) {i j : ℕ}
    (hi : i ∈ memSlots) (hj : j ∈ memSlots) (hdi : memStoreDone s i = true)
    (hdj : memStoreDone s j = true) : i = j := by
  simp only [memStoreDone, Bool.and_eq_true, decide_eq_true_eq] at hdi hdj
  have hnd : (q.inFlight.map fun i => (s.rm.storeReq i).ticksRemaining).Nodup := by
    have h := ok.ticks
    simp only [List.mem_cons, List.not_mem_nil, or_false] at h
    rcases h with h | h | h | h <;> rw [h] <;> decide
  refine List.inj_on_of_nodup_map hnd ((ok.busy i).2 ⟨hi, hdi.1⟩) ((ok.busy j).2 ⟨hj, hdj.1⟩) ?_
  omega

omit [WideShift] in
theorem names_memSendEffects {data : MemData} {i : ℕ} {r : CpuReg}
    (h : r ∈ names (memSendEffects s data i)) : r = .req 0 ∨ ∃ b, r = .buffer 0 b := by
  obtain ⟨v, hv⟩ := mem_names.1 h
  rcases mem_memSendEffects.1 hv with hv | ⟨b, -, ⟨-, he⟩ | ⟨msg, -, he | he⟩⟩
  · obtain ⟨b, -, he | ⟨-, -, he⟩⟩ := mem_bhAcquire.1 hv
    · cases he
    · cases he
      exact .inl rfl
  · cases he
  · cases he
    exact .inr ⟨b, rfl⟩
  · cases he

omit [WideShift] in
theorem nodup_memSendEffects {data : MemData} {i : ℕ} :
    (names (memSendEffects s data i)).Nodup := by
  have hr := @names_acquire_cases s 0
  unfold memSendEffects
  split <;> rcases hr with hr | hr <;> simp_all

omit [WideShift] in
theorem names_memLoadStep {data : MemData} {due : Option ℕ} {i : ℕ} {r : CpuReg}
    (h : r ∈ names (if s.rr (.loadBusy i) then
      (.write (.loadReq i) { s.rm.loadReq i with
        ticksRemaining := (s.rm.loadReq i).ticksRemaining - 1 } : CpuEffect) ::
        if due = some i then memSendEffects s data i else []
      else [])) :
    r = .loadReq i ∨ (due = some i ∧ (r = .req 0 ∨ ∃ b, r = .buffer 0 b)) := by
  split_ifs at h with hb hd
  · rcases List.mem_cons.1 h with rfl | h
    · exact .inl rfl
    · exact .inr ⟨hd, names_memSendEffects h⟩
  · exact .inl (by simpa using h)
  · cases h

omit [WideShift] in
theorem nodup_memLoads {data : MemData} : (names (memLoads s data).effects).Nodup ∧
    ∀ r ∈ names (memLoads s data).effects,
      (∃ i, r = .loadReq i) ∨ r = .req 0 ∨ ∃ b, r = .buffer 0 b := by
  rw [memLoads, memLoadStep_foldl data memSlots _ memSlots_nodup]
  simp only [Bool.false_eq_true, ↓reduceIte, List.nil_append]
  refine ⟨nodup_names_flatMap memSlots_nodup (fun i _ => ?_) fun i _ j _ r hi hj => ?_, ?_⟩
  · split_ifs
    · rw [names_cons_write, List.nodup_cons]
      refine ⟨fun h => ?_, nodup_memSendEffects⟩
      rcases names_memSendEffects h with h | ⟨b, h⟩ <;> cases h
    · simp
    · exact List.nodup_nil
  · rcases names_memLoadStep hi with rfl | ⟨hdi, rfl | ⟨b, rfl⟩⟩ <;>
      rcases names_memLoadStep hj with he | ⟨hdj, he | ⟨b, he⟩⟩ <;> cases he
    · rfl
    · exact Option.some.inj (hdi.symm.trans hdj)
    · exact Option.some.inj (hdi.symm.trans hdj)
  · intro r hr
    obtain ⟨v, hv⟩ := mem_names.1 hr
    obtain ⟨i, -, hi⟩ := List.mem_flatMap.1 hv
    rcases names_memLoadStep (mem_names.2 ⟨v, hi⟩) with h | ⟨-, h⟩
    · exact .inl ⟨i, h⟩
    · exact .inr h

omit [WideShift] in
theorem names_memStoreStep {i : ℕ} {r : CpuReg} (h : r ∈ names (memStoreStep s i)) :
    r = .storeReq i ∨ (memStoreDone s i = true ∧ r = .lockSignal) := by
  obtain ⟨v, hv⟩ := mem_names.1 h
  obtain ⟨-, he | ⟨hd, ⟨-, he⟩ | ⟨-, he⟩⟩⟩ := mem_memStoreStep.1 hv
  · cases he
    exact .inl rfl
  · cases he
  · rcases he with he | he | he <;> cases he
    exact .inr ⟨hd, rfl⟩

omit [WideShift] in
theorem nodup_memTick {q : Plain} (ok : StoresOk s q) {data : MemData} :
    (names (memTick s data)).Nodup := by
  have hreduce : ∀ f : ℕ → List CpuEffect, (∀ i, names (f i) = []) →
      names (memSlots.flatMap f) = [] := by
    intro f hf
    simp [memSlots, hf]
  unfold memTick
  split
  · simp [memSlots]
  · dsimp only
    rw [names_append, hreduce _ fun i => rfl, List.append_nil]
    refine nodup_names_append nodup_memLoads.1 (nodup_names_flatMap memSlots_nodup
      (fun i _ => ?_) fun i hi j hj r hr hr' => ?_) fun r hr hr' => ?_
    · unfold memStoreStep
      dsimp only
      split_ifs <;> simp
    · rcases names_memStoreStep hr with rfl | ⟨hd, rfl⟩ <;>
        rcases names_memStoreStep hr' with he | ⟨hd', he⟩ <;> cases he
      · rfl
      · exact ok.memStoreDone_unique hi hj hd hd'
    · obtain ⟨v, hv⟩ := mem_names.1 hr'
      obtain ⟨i, -, hi⟩ := List.mem_flatMap.1 hv
      rcases names_memStoreStep (mem_names.2 ⟨v, hi⟩) with rfl | ⟨-, rfl⟩ <;>
        rcases nodup_memLoads.2 _ hr with ⟨j, he⟩ | he | ⟨b, he⟩ <;> cases he

omit [WideShift] in
theorem names_aluIssueEffects (a : ℕ) (rs : RsId) :
    (names (aluIssueEffects s a rs)).Nodup ∧
      ∀ r ∈ names (aluIssueEffects s a rs), r = .aluTask a ∨ r = .rsBusy rs := by
  unfold aluIssueEffects aluTask
  split_ifs <;> simp_all

omit [WideShift] in
theorem nodup_rsuCheckAlu {rss : List RsId} (hr : rss.Nodup) (n : ℕ) :
    (names (rsuCheckAlu s n rss)).Nodup ∧
      ∀ r ∈ names (rsuCheckAlu s n rss), (∃ a, n ≤ a ∧ r = .aluTask a) ∨
        ∃ rs ∈ rss, r = .rsBusy rs := by
  induction rss generalizing n with
  | nil => simp [rsuCheckAlu]
  | cons rs rss ih =>
    rw [List.nodup_cons] at hr
    have hskip : (names (rsuCheckAlu s n rss)).Nodup ∧
        ∀ r ∈ names (rsuCheckAlu s n rss), (∃ a, n ≤ a ∧ r = .aluTask a) ∨
          ∃ rs' ∈ rs :: rss, r = .rsBusy rs' := by
      refine ⟨(ih hr.2 n).1, fun r h => ?_⟩
      rcases (ih hr.2 n).2 r h with h | ⟨x, hx, he⟩
      · exact .inl h
      · exact .inr ⟨x, List.mem_cons_of_mem _ hx, he⟩
    rw [rsuCheckAlu]
    dsimp only
    split
    · exact hskip
    split
    · exact hskip
    obtain ⟨hnd, hmem⟩ := @names_aluIssueEffects s n rs
    have hrest : (names (if n + 1 ≥ aluCount then [] else rsuCheckAlu s (n + 1) rss)).Nodup ∧
        ∀ r ∈ names (if n + 1 ≥ aluCount then [] else rsuCheckAlu s (n + 1) rss),
          (∃ a, n + 1 ≤ a ∧ r = .aluTask a) ∨ ∃ rs ∈ rss, r = .rsBusy rs := by
      split
      · exact ⟨List.nodup_nil, fun r h => by cases h⟩
      · exact ih hr.2 (n + 1)
    change (names (aluIssueEffects s n rs ++ _)).Nodup ∧
      ∀ r ∈ names (aluIssueEffects s n rs ++ _), _
    refine ⟨nodup_names_append hnd hrest.1 fun r h h' => ?_, fun r h => ?_⟩
    · rcases hmem r h with rfl | rfl <;> rcases hrest.2 _ h' with ⟨a, ha, he⟩ | ⟨x, hx, he⟩ <;>
        cases he
      · omega
      · exact hr.1 hx
    · rcases List.mem_append.1 (names_append _ _ ▸ h) with h | h
      · rcases hmem r h with rfl | rfl
        · exact .inl ⟨n, Nat.le_refl n, rfl⟩
        · exact .inr ⟨rs, List.mem_cons_self, rfl⟩
      · rcases hrest.2 r h with ⟨a, ha, he⟩ | ⟨x, hx, he⟩
        · exact .inl ⟨a, by omega, he⟩
        · exact .inr ⟨x, List.mem_cons_of_mem _ hx, he⟩

omit [WideShift] in
theorem nodup_rsuCheckLoad {rss : List RsId} : (names (rsuCheckLoad s rss)).Nodup ∧
    ∀ r ∈ names (rsuCheckLoad s rss), (∃ q, r = .lsq q) ∨ ∃ rs ∈ rss, r = .rsBusy rs := by
  unfold rsuCheckLoad
  split
  · simp
  · rename_i hf
    rw [Bool.not_eq_true] at hf
    rw [rsuCheckLoadFrom_eq]
    split
    · simp
    · rename_i rs hrs
      have hm := List.mem_of_find?_eq_some hrs
      split_ifs
      · simp
      · simp [names_lsQueuePush _ hf, hm]

omit [WideShift] in
theorem nodup_rsuCheckStore {rss : List RsId} : (names (rsuCheckStore s rss)).Nodup ∧
    ∀ r ∈ names (rsuCheckStore s rss),
      (∃ slot, r = .robPayload slot ∨ r = .robReady slot) ∨ ∃ rs ∈ rss, r = .rsBusy rs := by
  unfold rsuCheckStore
  split
  · simp
  · rw [rsuCheckStoreFrom_eq]
    split
    · simp
    · rename_i rs hrs
      have hm := List.mem_of_find?_eq_some hrs
      split_ifs <;> simp [hm]

omit [WideShift] in
theorem nodup_rsUnitTick : (names (rsUnitTick s)).Nodup := by
  unfold rsUnitTick
  split
  · have hc : rsuClear aluStations ++ rsuClear loadBuffers ++ rsuClear storeBuffers =
        stations.flatMap fun rs => [.write (.rsBusy rs) false] := rfl
    rw [List.cons_append, List.cons_append, hc, names_cons_write, List.nodup_cons]
    constructor
    · intro h
      obtain ⟨v, hv⟩ := mem_names.1 h
      simp at hv
    · refine nodup_names_flatMap stations_nodup (fun rs _ => by simp) fun x _ y _ r h h' => ?_
      simp_all
  · obtain ⟨ha, ha'⟩ := @nodup_rsuCheckAlu s aluStations (by decide) 0
    obtain ⟨hl, hl'⟩ := @nodup_rsuCheckLoad s loadBuffers
    obtain ⟨hs, hs'⟩ := @nodup_rsuCheckStore s storeBuffers
    have hal : ∀ x ∈ aluStations, x ∉ loadBuffers := by decide
    have has : ∀ x ∈ aluStations, x ∉ storeBuffers := by decide
    have hls : ∀ x ∈ loadBuffers, x ∉ storeBuffers := by decide
    refine nodup_names_append (nodup_names_append ha hl fun r h h' => ?_) hs fun r h h' => ?_
    · rcases ha' r h with ⟨a, -, rfl⟩ | ⟨x, hx, rfl⟩ <;>
        rcases hl' _ h' with ⟨q, he⟩ | ⟨y, hy, he⟩ <;> cases he
      exact hal x hx hy
    · rw [names_append, List.mem_append] at h
      rcases h with h | h
      · rcases ha' r h with ⟨a, -, rfl⟩ | ⟨x, hx, rfl⟩ <;>
          rcases hs' _ h' with ⟨i, he | he⟩ | ⟨y, hy, he⟩ <;> cases he
        exact has x hx hy
      · rcases hl' r h with ⟨q, rfl⟩ | ⟨x, hx, rfl⟩ <;>
          rcases hs' _ h' with ⟨i, he | he⟩ | ⟨y, hy, he⟩ <;> cases he
        exact hls x hx hy

omit [WideShift] in
theorem nodup_onmsg (ctl : Control s) (msg : CdbMessage) (l : Listener) :
    (names (l.onmsg s msg)).Nodup ∧ ∀ r ∈ names (l.onmsg s msg),
      (l = .robUnit ∧ ∃ slot, r = .robPayload slot ∨ r = .robReady slot) ∨
        ∃ id, l = .rs id ∧ r = .rsPayload id := by
  cases l with
  | robUnit =>
    simp only [Listener.onmsg, robUnitOnmsg]
    split
    · simp
    · constructor
      · refine nodup_names_flatMap ctl.robs.queueForeach_nodup (fun i _ => ?_)
          fun i _ j _ r h h' => ?_
        · split_ifs <;> simp
        · split_ifs at h h' with h₁ h₂
          · exact robId_inj.1 (h₁.symm.trans h₂)
          all_goals simp at h h'
      · intro r h
        obtain ⟨v, hv⟩ := mem_names.1 h
        obtain ⟨slot, -, hs⟩ := List.mem_flatMap.1 hv
        split_ifs at hs
        · exact .inl ⟨trivial, slot, by simpa using mem_names.2 ⟨v, hs⟩⟩
        · cases hs
  | rs id =>
    simp only [Listener.onmsg, rsOnmsg, rsCapture]
    split_ifs <;> simp
  | cpuDebug => simp [Listener.onmsg]

omit [WideShift] in
theorem nodup_busTick (ctl : Control s) {ls : List Listener}
    (hls : ls.Perm Listener.registered) : (names (busTick (Listener.onmsg s) ls s)).Nodup := by
  unfold busTick
  split
  · simp
  · split
    · rename_i msg _
      have hmem : ∀ l, ∀ r ∈ names (Listener.onmsg s msg l), r ≠ .fire := by
        intro l r h
        rcases (nodup_onmsg ctl msg l).2 r h with ⟨-, slot, rfl | rfl⟩ | ⟨id, -, rfl⟩ <;> simp
      have hnd : ls.Nodup := hls.nodup_iff.2 (by decide)
      rw [names_cons_write, List.nodup_cons]
      constructor
      · intro h
        obtain ⟨v, hv⟩ := mem_names.1 h
        obtain ⟨l, -, hl⟩ := List.mem_flatMap.1 hv
        exact hmem l _ (mem_names.2 ⟨v, hl⟩) rfl
      · refine nodup_names_flatMap hnd (fun l _ => (nodup_onmsg ctl msg l).1)
          fun l _ l' _ r h h' => ?_
        rcases (nodup_onmsg ctl msg l).2 r h with ⟨rfl, slot, rfl | rfl⟩ | ⟨id, rfl, rfl⟩ <;>
          rcases (nodup_onmsg ctl msg l').2 _ h' with ⟨rfl, slot', he | he⟩ | ⟨id', rfl, he⟩ <;>
            cases he <;> rfl
    · simp

end

section
variable [WideShift] {s : Latched} {q p : Plain} {ls : List Listener}

/-- A client requests the bus for its helper only if the helper does not. -/
theorem req_of_sender {h : ℕ} {v : CpuReg.type (.req h)}
    (hm : .write (.req h) v ∈ (sender h).tickEffects ls s q p) : bhReqIx s h < 0 := by
  have hacq : .write (.req h) v ∈ (bhAcquire s h).1 → bhReqIx s h < 0 := by
    intro hs
    obtain ⟨b, -, he | ⟨hx, -⟩⟩ := mem_bhAcquire.1 hs
    · cases he
    · exact hx
  cases h with
  | zero =>
    rcases mem_memTick.1 hm with ⟨-, i, -, he⟩ | ⟨-, ⟨i, -, -, he⟩ | ⟨i, -, hs⟩ | ⟨i, -, hs⟩ |
      ⟨i, -, he⟩⟩
    · cases he
    · cases he
    · rcases mem_memSendEffects.1 hs with hs | ⟨b, -, ⟨-, he⟩ | ⟨msg, -, he | he⟩⟩
      · exact hacq hs
      all_goals cases he
    · rcases names_memStoreStep (mem_names.2 ⟨_, hs⟩) with he | ⟨-, he⟩ <;> cases he
    · rcases he with he | he <;> cases he
  | succ a =>
    rcases mem_aluTick.1 hm with ⟨-, he⟩ | ⟨msg, -, ⟨b, -, hs | he | ⟨-, he | he⟩⟩ |
      ⟨-, -, he⟩⟩ | ⟨-, -, -, -, hs | he⟩
    · cases he
    · exact hacq hs
    · cases he
    · cases he
    · cases he
    · cases he
    · exact hacq hs
    · cases he

omit [WideShift] in
theorem req_of_bhTick {h : ℕ} (ok : HelperOk s h) {v : CpuReg.type (.req h)}
    (hm : .write (.req h) v ∈ bhTick h s) : 0 ≤ bhReqIx s h := by
  have hc := ok.current
  have ho : bhOther (s.rm.current h) = 0 ∨ bhOther (s.rm.current h) = 1 := bhOther_mem
  obtain ⟨hb, ⟨-, -, he | he⟩ | ⟨hw, -⟩ | ⟨hw, hr, -⟩ | he⟩ := mem_bhTick.1 hm
  · cases he
  · cases he
  · rw [bhReqIx_eq hb, if_pos hw]
    omega
  · rw [bhReqIx_eq hb, hw, if_neg Bool.false_ne_true, if_pos hr]
    omega
  · cases he

omit [WideShift] in
theorem busClear_of_flushes (ctl : Control s) (h : s.flushes = true) : s.rm.busClear = 0 := by
  have hc := Latched.clear_of_flushes h
  rcases ctl.busClear with ⟨-, hr⟩ | ⟨-, -, hq⟩ | ⟨hb, -⟩
  · exact absurd (hc.symm.trans hr) Bool.false_ne_true
  · have he := Latched.commits_nonempty (Latched.commits_of_flushes h)
    simp [queueEmpty, hq.head, hq.tail] at he
  · exact hb

omit [WideShift] in
theorem head_of_retires (ctl : Control s) (h : s.retires = true) :
    s.rm.robs.clear = false ∧ s.rm.robReady s.rm.robs.head = true ∧ s.rm.robs.head ∈ s.robs := by
  have hc := Latched.commits_of_retires h
  exact ⟨Latched.clear_of_commits hc, ready_of_commits hc, head_mem ctl hc⟩

omit [WideShift] in
/-- The entry of a store that `_rsu_check_store` serves is open, and the bus does not deliver
    its result. -/
theorem entry_of_storePick (inv : Conserved s) {rs : RsId} (h : s.storePick = some rs) :
    robSlot (s.rm.rsPayload rs).dest ∈ s.robs ∧
      s.rm.robReady (robSlot (s.rm.rsPayload rs).dest) = false ∧
      ∀ msg, s.delivered = some msg → msg.rob ≠ (s.rm.rsPayload rs).dest := by
  obtain ⟨hm, hr⟩ := storePick_spec h
  have hst : rs ∈ stations := by simp [stations, hm]
  have ho := inv.rs_open hst (storeReady_busy hr)
  exact ⟨ho.1, ho.2.1, fun msg hd => (inv.delivered_ne_rs hd hst (storeReady_busy hr)).symm⟩

omit [WideShift] in
theorem clear_of_loadPick {rs : RsId} (h : s.loadPick = some rs) : s.rm.rsClear = false := by
  unfold Latched.loadPick at h
  split_ifs at h with hc
  simp only [Bool.or_eq_true, not_or, Bool.not_eq_true] at hc
  exact hc.1

/-- No two callbacks write a register, but for the tail of the load-store queue. -/
theorem apart (inv : Conserved s) (hls : ls.Perm Listener.registered) (ha : s.PushesApart)
    (r : CpuReg) : r.owners.Pairwise fun cb cb' =>
      cb ∈ Callback.registered → cb' ∈ Callback.registered →
        ¬(r ∈ names (cb.tickEffects ls s q p) ∧ r ∈ names (cb'.tickEffects ls s q p)) := by
  have ctl := inv.control
  have hdispatch : ∀ {rs inst}, s.dispatch p = some (rs, inst) →
      s.rm.rsBusy rs = false ∧ s.rm.forcePc.busy = false := by
    intro rs inst h
    obtain ⟨-, -, -, hb, hf, -⟩ := dispatch_spec h
    exact ⟨hb, hf⟩
  have hretires : s.rm.robs.clear = true → s.retires = false := fun hc =>
    Bool.eq_false_iff.2 fun hr =>
      Bool.false_ne_true ((head_of_retires ctl hr).1.symm.trans hc)
  have hflushes : s.rm.robs.clear = true → s.flushes = false := fun hc =>
    Bool.eq_false_iff.2 fun hf =>
      Bool.false_ne_true ((Latched.clear_of_flushes hf).symm.trans hc)
  have hstores : s.rm.robs.clear = true → s.storesHead = false := fun hc =>
    Bool.eq_false_iff.2 fun hs =>
      Bool.false_ne_true ((hretires hc).symm.trans (storesHead_iff.1 hs).1)
  cases r with
  | req h =>
    simp only [CpuReg.owners, List.pairwise_pair]
    rintro hh - ⟨hm, hm'⟩
    obtain ⟨v, hv⟩ := mem_names.1 hm
    obtain ⟨v', hv'⟩ := mem_names.1 hm'
    have ok := inv.helper h (bhTick_mem_registered.1 hh)
    exact absurd (req_of_sender hv') (Int.not_lt.2 (req_of_bhTick ok hv))
  | busData =>
    simp [CpuReg.owners, Callback.tickEffects, Callback.effects, mem_names, mem_bhTick]
    grind
  | busClear =>
    simp [CpuReg.owners, Callback.mem_registered, Callback.tickEffects, Callback.effects,
      mem_names, mem_busTick hls, mem_robUnitOnmsg, mem_rsOnmsg, rsCapture, mem_robUnitTick,
      mem_robFlush]
    exact fun hb => Bool.eq_false_iff.2 fun hf => hb (busClear_of_flushes ctl hf)
  | rsPayload id =>
    simp [CpuReg.owners, Callback.mem_registered, Callback.tickEffects, Callback.effects,
      mem_names, mem_busTick hls, mem_robUnitOnmsg, mem_rsOnmsg, rsCapture, mem_instUnitTick,
      mem_instDispatch, mem_instRegLog]
    intro v msg hm hi hc hb hs hv v' inst hd
    exact absurd hb (Bool.eq_false_iff.1 (hdispatch hd).1)
  | loadReq i =>
    simp [CpuReg.owners, Callback.mem_registered, Callback.tickEffects, Callback.effects,
      mem_names, mem_memTick, mem_memSendEffects, mem_bhAcquire, mem_memStoreStep,
      mem_lsQueueTick, mem_memRequestLoad, mem_memRequestStore]
    intro v hm hi hb hv v' payload hp hs
    exact absurd hb (Bool.eq_false_iff.1 (loadSlot_spec hs).2)
  | storeReq i =>
    simp [CpuReg.owners, Callback.mem_registered, Callback.tickEffects, Callback.effects,
      mem_names, mem_memTick, mem_memSendEffects, mem_bhAcquire, mem_memStoreStep,
      mem_lsQueueTick, mem_memRequestLoad, mem_memRequestStore]
    intro v hm hi hb hv v' payload hp hs
    exact absurd hb (Bool.eq_false_iff.1 (storeSlot_spec hs).2)
  | robIdClearIf x =>
    simp [CpuReg.owners, Callback.mem_registered, Callback.tickEffects, Callback.effects,
      mem_names, mem_regFileTick, mem_robUnitTick, mem_robFlush]
    intro v hc hx hv v' hr
    exact absurd hr (Bool.eq_false_iff.1 (hretires (ctl.regClear.symm.trans hc)))
  | lsq r =>
    have hclear : s.rm.lsqClear = true → s.loadPick = none ∧ s.storesHead = false := by
      intro hc
      have hr := ctl.lsqClear.symm.trans hc
      refine ⟨Option.eq_none_iff_forall_ne_some.2 fun rs hp => ?_, hstores hr⟩
      exact Bool.false_ne_true ((clear_of_loadPick hp).symm.trans (ctl.rsClear.trans hr))
    have hapart : ∀ rs, s.loadPick = some rs → s.storesHead = false := fun rs hp =>
      Bool.eq_false_iff.2 fun hs => by simp [ha.loadPick hs] at hp
    cases r <;>
      simp [CpuReg.owners, Callback.mem_registered, Callback.tickEffects, Callback.effects,
        mem_names, mem_liftLsq_queueTick, mem_lsQueueTick, mem_memRequestLoad,
        mem_memRequestStore, mem_rsUnitTick, mem_robUnitTick, mem_robFlush, ctl.lsqReg]
    · grind
    · grind
  | rsBusy id =>
    simp [CpuReg.owners, Callback.mem_registered, Callback.tickEffects, Callback.effects,
      mem_names, mem_rsUnitTick, mem_instUnitTick, mem_instDispatch, mem_instRegLog]
    intro h inst hd
    obtain ⟨hb, hf⟩ := hdispatch hd
    rcases h with ⟨hc, -⟩ | ⟨a, hr⟩ | ⟨hr, -⟩ | hr
    · rw [ctl.forcePc, ← ctl.rsClear, hc] at hf
      cases hf
    · exact absurd (freed_busy (mem_freed.2 (.inl ⟨a, hr⟩))).2 (Bool.eq_false_iff.1 hb)
    · exact absurd (freed_busy (mem_freed.2 (.inr (.inl hr)))).2 (Bool.eq_false_iff.1 hb)
    · exact absurd (freed_busy (mem_freed.2 (.inr (.inr hr)))).2 (Bool.eq_false_iff.1 hb)
  | rsClear | forcePc =>
    simp [CpuReg.owners, Callback.mem_registered, Callback.tickEffects, Callback.effects,
      mem_names, mem_rsUnitTick, mem_instUnitTick, mem_instDispatch, mem_instRegLog,
      mem_robUnitTick, mem_robFlush]
    first | rw [ctl.rsClear] | rw [ctl.forcePc]
    exact hflushes
  | robs r =>
    cases r <;>
      simp [CpuReg.owners, Callback.mem_registered, Callback.tickEffects, Callback.effects,
        mem_names, mem_liftRobs_queueTick, mem_instUnitTick, mem_instDispatch, mem_instRegLog,
        mem_robUnitTick, mem_robFlush]
    case head => exact hretires
    case clear => exact hflushes
    case tail =>
      intro hc v rs inst hd
      exact absurd hc (Bool.eq_false_iff.1 (ctl.forcePc.symm.trans (hdispatch hd).2))
  | robReady slot | robPayload slot =>
    have htail : s.rm.robs.tail ∉ s.robs := ctl.robs.tail_notMem
    have hhead := fun h => head_of_retires ctl h
    have hmsg : ∀ msg, s.delivered = some msg → s.rm.robReady (robSlot msg.rob) = false :=
      fun msg h => (inv.delivered_open h).2.1
    have hstore := fun rs (h : s.storePick = some rs) => entry_of_storePick inv h
    have hfrees : ∀ rs, s.storeFrees = some rs → s.storePick = some rs := fun rs h =>
      storePick_of_frees h
    simp [CpuReg.owners, Callback.mem_registered, Callback.tickEffects, Callback.effects,
      mem_names, mem_busTick hls, mem_robUnitOnmsg, mem_rsOnmsg, rsCapture, mem_rsUnitTick,
      mem_instUnitTick, mem_instDispatch, mem_instRegLog, mem_robUnitTick, mem_robFlush]
    grind [robId_robSlot, robSlot_robId]
  | _ => simp [CpuReg.owners]

theorem nodup_tickEffects (inv : Conserved s) {q' : Plain} (ok : StoresOk s q')
    (hls : ls.Perm Listener.registered) (cb : Callback) :
    (names (cb.tickEffects ls s q p)).Nodup := by
  cases cb with
  | busTick => exact nodup_busTick inv.control hls
  | bhTick h => exact nodup_bhTick h
  | memTick => exact nodup_memTick ok
  | regFileTick => exact nodup_regFileTick
  | queueTick x => cases x; exacts [nodup_queueTick_lsq, nodup_queueTick_robs]
  | busyWaitTick => exact nodup_busyWaitTick
  | lsQueueTick => exact nodup_lsQueueTick inv.control
  | aluTick a => exact nodup_aluTick a
  | rsUnitTick => exact nodup_rsUnitTick
  | instUnitTick => exact nodup_instUnitTick
  | robUnitTick => exact nodup_robUnitTick
  | cpuDebug => exact List.nodup_nil

end

section
variable [WideShift] {o : Schedule} {c : Cpu}

theorem effectsOf_eq : effectsOf PlainOp.act
      (fun cb p => cb.effects o.listeners (latch c) p) o.callbacks c.plain =
    o.callbacks.flatMap fun cb =>
      cb.tickEffects o.listeners (latch c) c.plain (cpuPlainAt o c .instUnitTick) := by
  unfold effectsOf
  simp only [← effects_cpuPlainAt]
  rfl

theorem cpuTick_ne_doubleWrite (inv : Conserved (latch c)) (ok : StoresOk (latch c) c.plain)
    (ha : (latch c).PushesApart) : cpuTick o c ≠ .error .doubleWrite := by
  rw [cpuTick, run_eq o.nodup]
  refine applyAll_ne_doubleWrite ?_ (fun _ _ => rfl) fun hm => ?_
  · change (names (effectsOf PlainOp.act _ o.callbacks c.plain)).Nodup
    rw [effectsOf_eq]
    refine nodup_names_flatMap o.nodup
      (fun cb _ => nodup_tickEffects inv ok o.listeners_perm cb) fun cb hcb cb' hcb' r hr hr' => ?_
    have howns : ∀ cb ∈ o.callbacks, r ∈ names (cb.tickEffects o.listeners (latch c) c.plain
        (cpuPlainAt o c .instUnitTick)) → cb ∈ r.owners := by
      intro cb hcb hr
      obtain ⟨v, hv⟩ := mem_names.1 hr
      simpa [owners] using tickEffects_owned ((o.mem_iff cb).1 hcb) _ _ hv
    by_contra hne
    have hs : Std.Symm fun cb cb' => cb ∈ Callback.registered → cb' ∈ Callback.registered →
        ¬(r ∈ names (cb.tickEffects o.listeners (latch c) c.plain (cpuPlainAt o c .instUnitTick)) ∧
          r ∈ names (cb'.tickEffects o.listeners (latch c) c.plain
            (cpuPlainAt o c .instUnitTick))) :=
      ⟨fun a b h hb ha hab => h ha hb hab.symm⟩
    exact (apart inv o.listeners_perm ha r).forall (howns cb hcb hr) (howns cb' hcb' hr') hne
      ((o.mem_iff cb).1 hcb) ((o.mem_iff cb').1 hcb') ⟨hr, hr'⟩
  · obtain ⟨cb, hcb, he⟩ := mem_effectsOf.1 hm
    rcases tickEffects_owned hcb _ _ he with h | h | h
    · cases h
    · cases h
    · cases h

omit [WideShift] in
theorem loadPick_of_not_pushesApart {s : Latched} (ctl : Control s) (h : ¬s.PushesApart) :
    s.storesHead = true ∧ ∃ rs, s.loadPick = some rs := by
  simp only [Latched.PushesApart, not_forall] at h
  obtain ⟨hs, rs, hm, hr, hb⟩ := h
  refine ⟨hs, ?_⟩
  have hc : s.rm.rsClear = false :=
    ctl.rsClear.trans (head_of_retires ctl (storesHead_iff.1 hs).1).1
  have hfull : lsQueueFull s = false := by
    simp only [Latched.storesHead, Bool.and_eq_true, Bool.not_eq_true'] at hs
    exact hs.2
  rw [Latched.loadPick, hc, hfull]
  refine Option.isSome_iff_exists.1 (List.find?_isSome.2 ⟨rs, hm, ?_⟩)
  simpa [hr] using hb

/-- A tick in which the two sides of the load-store queue meet fails. -/
theorem cpuTick_ne_ok (inv : Conserved (latch c)) (h : ¬(latch c).PushesApart) (c' : Cpu) :
    cpuTick o c ≠ .ok c' := by
  intro ht
  have ht' := ht
  rw [cpuTick, run_eq o.nodup] at ht'
  have hn := applyAll_nodup ht'
  obtain ⟨hs, rs, hp⟩ := loadPick_of_not_pushesApart inv.control h
  obtain ⟨p, st⟩ := step_of_cpuTick ht
  change (names (effectsOf PlainOp.act _ o.callbacks c.plain)).Nodup at hn
  rw [effectsOf_eq] at hn
  have hrs : CpuReg.lsq .tail ∈ names (rsUnitTick (latch c)) :=
    mem_names.2 ⟨_, mem_rsUnitTick.2 (.inr (.inr (.inr (.inl ⟨rs, hp, .inr
      ⟨st.loadBlocked hp, .inl rfl⟩⟩))))⟩
  have hrob : CpuReg.lsq .tail ∈ names (robUnitTick (latch c)) :=
    mem_names.2 ⟨_, mem_robUnitTick.2 (.inr (.inr (.inr (.inr (.inr (.inl ⟨hs, .inl rfl⟩))))))⟩
  have he := eq_of_nodup_names_flatMap hn (a := .rsUnitTick) (b := .robUnitTick)
    ((o.mem_iff _).2 (by decide)) ((o.mem_iff _).2 (by decide)) hrs hrob
  cases he

end

section
variable [WideShift] (image : MemData) (garbage : ℤ → ℤ → ℤ) (hist : ℤ)

/-- In a reachable state a tick writes a register twice only if it pushes a store and a load
    into the load-store queue, and then it does not get through. -/
theorem single_writer {os : List Schedule} {c : Cpu}
    (hr : cpuRun os (cpuCreate image garbage hist) = .ok c) :
    ((latch c).PushesApart → ∀ o, cpuTick o c ≠ .error .doubleWrite) ∧
      (¬(latch c).PushesApart → ∀ o c', cpuTick o c ≠ .ok c') := by
  have inv := conserved_of_cpuRun image garbage hist hr
  have ok := storesOk_of_cpuRun image garbage hist hr
  exact ⟨fun ha o => cpuTick_ne_doubleWrite inv ok ha, fun ha o c' => cpuTick_ne_ok inv ha c'⟩

end

/-- A store retires while the load behind it is ready. -/
theorem single_writer_load :
    @cpuTick .masked .inOrder (bootCpu 6 storeLoadProgram) ≠ .error .doubleWrite :=
  (@single_writer .masked (imageOf storeLoadProgram) (fun _ _ => 0) 0 (bootTicks 6) _
    (cpuRun_boot (by decide +kernel))).1 (by decide +kernel) .inOrder

def fault {α : Type} : Except Fault α → Option Fault
  | .ok _ => none
  | .error f => some f

theorem eq_error_of_fault {α : Type} {x : Except Fault α} {f : Fault} (h : fault x = some f) :
    x = .error f := by
  cases x with
  | ok y => cases h
  | error g =>
    cases h
    rfl

/-- A store, a load of one of its bytes that an inverted comparison lets pass it, and HCF. -/
def overlapProgram : List Word := [0x06002223, 0x06600083, instMagicHcf]

/-- The load is pushed in the tick in which the store retires. -/
theorem pushes_collide :
    @FakeCpu.Always .masked FakeCpu.InRange (fakeCpuCreate (imageOf overlapProgram)) ∧
      ∃ n, @cpuRun .masked (bootTicks n) (boot overlapProgram) =
          .ok (bootCpu n overlapProgram) ∧
        (bootCpu n overlapProgram).plain.hcf = false ∧
        @cpuTick .masked .inOrder (bootCpu n overlapProgram) = .error .doubleWrite := by
  refine ⟨@FakeCpu.always_of_reaches .masked _ _ 3 _ (by decide +kernel), 2,
    cpuRun_boot (by decide +kernel), by decide +kernel, eq_error_of_fault ?_⟩
  decide +kernel

end TomasuloCpu
