import TomasuloCpu.Signals

set_option autoImplicit false

/-!
# The effects of each callback

What the list of effects of a callback holds, in terms of the decisions taken.
-/
namespace TomasuloCpu
open Clocked

section
variable {s : Latched} {e : CpuEffect}

theorem lsQueuePush_eq (payload : LsQueuePayload) (h : lsQueueFull s = false) :
    lsQueuePush s payload =
      [.write (.lsq .tail) (queueTrunc lsQueueCapacity (s.rm.lsq.tail + 1)),
        .write (.lsq (.data s.rm.lsq.tail)) { payload with cleared := false }] := by
  rw [lsQueuePush, h, queuePush_of_not_full h]
  rfl

theorem Latched.robPayload_head : s.rm.robPayload (robSlot (robId s.rm.robs.head)) = s.head := by
  rw [robSlot_robId]
  rfl

theorem robUnitTick_eq :
    robUnitTick s = if s.commits then robCommit s (robId s.rm.robs.head) else [] := by
  unfold robUnitTick Latched.commits queueFirst
  cases hc : s.rm.robs.clear
  · cases he : queueEmpty s.rm.robs
    · have hne : s.rm.robs.head ≠ s.rm.robs.tail := by simpa [queueEmpty] using he
      cases hr : s.rm.robReady s.rm.robs.head <;> simp_all
    · simp
  · simp

theorem mem_lsQueuePush {payload : LsQueuePayload} (h : lsQueueFull s = false) :
    e ∈ lsQueuePush s payload ↔
      e = .write (.lsq .tail) (queueTrunc lsQueueCapacity (s.rm.lsq.tail + 1)) ∨
      e = .write (.lsq (.data s.rm.lsq.tail)) { payload with cleared := false } := by
  simp [lsQueuePush_eq payload h]

theorem mem_robFlush {data : RobPayload} : e ∈ robFlush data ↔
    e = .write .forcePc ⟨true, robAddr data⟩ ∨ e = .write .regClear true ∨
    e = .write (.robs .clear) true ∨ e = .write .rsClear true ∨ e = .write .lsqClear true ∨
    e = .write .busClear (2 : ℤ) ∨ e = .write .memClear true := by
  simp [robFlush, instUnitForcePc, regFileClear, robUnitClear, queueClear, liftRobs, rsUnitClear,
    lsQueueClear, busClear, memClear]

theorem mem_robRetire {rob : RobId} {data : RobPayload} (h : queueEmpty s.rm.robs = false) :
    e ∈ robRetire s rob data ↔
      (0 < data.dest ∧ e = .write (.robIdClearIf data.dest) rob) ∨
      e = .write (.robReady (robSlot rob)) false ∨
      e = .write (.robs .head) (queueTrunc robCapacity (s.rm.robs.head + 1)) ∨
      e = .plain (.log (.retire rob data)) := by
  have hd : e ∈ (if data.dest ≥ 0 then regStoreRobIdClear data.dest rob else []) ↔
      0 < data.dest ∧ e = .write (.robIdClearIf data.dest) rob := by
    unfold regStoreRobIdClear
    by_cases h0 : data.dest = 0
    · simp [h0]
    · by_cases hn : 0 ≤ data.dest
      · simp [h0, hn, Int.lt_iff_le_and_ne, Ne.symm h0]
      · have hlt : ¬0 < data.dest := fun h => hn (Int.le_of_lt h)
        simp [hn, hlt]
  rw [robRetire, queuePop_of_not_empty h]
  simp only [List.mem_append, hd]
  simp [liftRobs, or_assoc]

theorem Latched.commits_nonempty (h : s.commits = true) : queueEmpty s.rm.robs = false := by
  simp only [Latched.commits, Bool.and_eq_true, Bool.not_eq_true'] at h
  exact h.1.2

theorem Latched.commits_of_retires (h : s.retires = true) : s.commits = true := by
  simp only [Latched.retires, Bool.and_eq_true] at h
  exact h.1

theorem Latched.not_full_of_storesHead (h : s.storesHead = true) : lsQueueFull s = false := by
  simp only [Latched.storesHead, Bool.and_eq_true, Bool.not_eq_true'] at h
  exact h.2

theorem mem_robUnitTick : e ∈ robUnitTick s ↔
    (s.commits = true ∧ e = .plain .countCommit) ∨
    (s.writesHead = true ∧ e = .write (.register s.head.dest) s.head.value) ∨
    (s.commits = true ∧ s.head.op = .branch ∧
      e = .plain (.bpFeedback s.head.pc s.head.predictedTake (s.head.value != 0))) ∨
    (s.commits = true ∧ s.head.op = .jalr ∧
      e = .plain (.bpFeedbackJalr s.head.pc (s.head.addr &&& ~~~(1 : Word))
        !robIsMispredicted s.head)) ∨
    (s.flushes = true ∧ e ∈ robFlush s.head) ∨
    (s.storesHead = true ∧
      (e = .write (.lsq .tail) (queueTrunc lsQueueCapacity (s.rm.lsq.tail + 1)) ∨
        e = .write (.lsq (.data s.rm.lsq.tail))
          { robStorePayload s.head with cleared := false })) ∨
    (s.retires = true ∧
      ((0 < s.head.dest ∧ e = .write (.robIdClearIf s.head.dest) (robId s.rm.robs.head)) ∨
        e = .write (.robReady s.rm.robs.head) false ∨
        e = .write (.robs .head) (queueTrunc robCapacity (s.rm.robs.head + 1)) ∨
        e = .plain (.log (.retire (robId s.rm.robs.head) s.head)))) ∨
    (s.commits = true ∧ s.head.op = .hcf ∧
      (e = .plain .hcf ∨ e = .plain (.log (.halt (robId s.rm.robs.head) s.head)))) := by
  have hs : (s.storesHead = true ∧
      (e = .write (.lsq .tail) (queueTrunc lsQueueCapacity (s.rm.lsq.tail + 1)) ∨
        e = .write (.lsq (.data s.rm.lsq.tail))
          { robStorePayload s.head with cleared := false })) ↔
      s.storesHead = true ∧ e ∈ lsQueuePush s (robStorePayload s.head) :=
    and_congr_right fun h => (mem_lsQueuePush (Latched.not_full_of_storesHead h)).symm
  have hr : (s.retires = true ∧
      ((0 < s.head.dest ∧ e = .write (.robIdClearIf s.head.dest) (robId s.rm.robs.head)) ∨
        e = .write (.robReady s.rm.robs.head) false ∨
        e = .write (.robs .head) (queueTrunc robCapacity (s.rm.robs.head + 1)) ∨
        e = .plain (.log (.retire (robId s.rm.robs.head) s.head)))) ↔
      s.retires = true ∧ e ∈ robRetire s (robId s.rm.robs.head) s.head :=
    and_congr_right fun h => by
      rw [mem_robRetire (Latched.commits_nonempty (Latched.commits_of_retires h)), robSlot_robId]
  rw [hs, hr, robUnitTick_eq]
  cases hc : s.commits
  · simp [Latched.writesHead, Latched.flushes, Latched.storesHead, Latched.retires, hc]
  · simp only [↓reduceIte, robCommit, Latched.writesHead, Latched.flushes,
      Latched.storesHead, Latched.retires, hc, Bool.true_and, true_and, regStoreSet]
    rw [Latched.robPayload_head]
    cases hop : s.head.op
    case register | branch | jalr =>
      by_cases h0 : s.head.dest = 0 <;> by_cases hn : 0 ≤ s.head.dest <;>
        cases hm : robIsMispredicted s.head <;> simp_all
    case store => cases lsQueueFull s <;> simp_all
    case hcf => simp_all

variable {p : Plain}

theorem instUnitTick_eq [WideShift] (hf : s.rm.forcePc.busy = false) : instUnitTick s p =
    (s.dispatch p).elim [] fun d =>
      .write (.robs .tail) (queueTrunc robCapacity (s.rm.robs.tail + 1)) ::
      .write (.robs (.data s.rm.robs.tail)) () ::
      instDispatch s (branchPredict p.bp s.rm.pc) p.dispatched d.1 s.rm.robs.tail d.2 s.rm.pc ++
      [.write .pc (dispatchNext s (branchPredict p.bp s.rm.pc) d.2 s.rm.pc)] := by
  simp only [instUnitTick, Latched.dispatch, hf]
  cases hr : robUnitFull s
  · simp only [Bool.false_eq_true, ↓reduceIte, Bool.or_self]
    split_ifs with hu
    · rfl
    · have hp := queuePush_of_not_full hr
      cases ha : rsUnitAcquire s (instType (instDecode (memGetInst p.data s.rm.pc))) with
      | none => rfl
      | some rs => simp [robUnitAcquire, hp, liftRobs]
  · rfl

theorem dispatch_of_busy (hf : s.rm.forcePc.busy = true) : s.dispatch p = none := by
  simp [Latched.dispatch, hf]

theorem mem_instUnitTick [WideShift] : e ∈ instUnitTick s p ↔
    (s.rm.forcePc.busy = true ∧
      (e = .write .forcePc { s.rm.forcePc with busy := false } ∨
        e = .write .pc s.rm.forcePc.addr)) ∨
    (∃ rs inst, s.dispatch p = some (rs, inst) ∧
      (e = .write (.robs .tail) (queueTrunc robCapacity (s.rm.robs.tail + 1)) ∨
        e = .write (.robs (.data s.rm.robs.tail)) () ∨
        e ∈ instDispatch s (branchPredict p.bp s.rm.pc) p.dispatched rs s.rm.robs.tail inst
          s.rm.pc ∨
        e = .write .pc (dispatchNext s (branchPredict p.bp s.rm.pc) inst s.rm.pc))) := by
  cases hf : s.rm.forcePc.busy
  · rw [instUnitTick_eq hf]
    rcases hd : s.dispatch p with _ | ⟨rs, inst⟩ <;> simp
  · simp [instUnitTick, dispatch_of_busy, hf]

theorem countP_isDispatch [WideShift] :
    (plains (instUnitTick s p)).countP PlainOp.isDispatch =
      if (s.dispatch p).isSome then 1 else 0 := by
  cases hf : s.rm.forcePc.busy
  · rw [instUnitTick_eq hf]
    cases hd : s.dispatch p with
    | none => rfl
    | some d =>
      have hl : ∀ seq, (plains ((dispatchOperands d.2).flatMap (instRegLog s seq))).countP
          PlainOp.isDispatch = 0 := by
        intro seq
        rw [List.countP_eq_zero]
        intro x hx
        obtain ⟨y, -, hy⟩ := List.mem_flatMap.1 (mem_plains.1 hx)
        simp only [instRegLog] at hy
        split at hy
        · cases hy
        · simp only [List.mem_singleton, Effect.plain.injEq] at hy
          simp [hy, PlainOp.isDispatch]
      have hset : ∀ x v, plains (regStoreRobIdSet x v) = [] := by
        intro x v
        unfold regStoreRobIdSet
        split <;> rfl
      have hh : plains (if hasDest d.2 = true then
          regStoreRobIdSet d.2.rd (robId s.rm.robs.tail) else []) = [] := by
        split
        · exact hset _ _
        · rfl
      have ha : plains (if dispatchAsserts d.2 = true then ([] : List CpuEffect)
          else [.fail .assertion]) = [] := by
        split <;> rfl
      simp [instDispatch, hl, hh, ha, PlainOp.isDispatch]
  · simp [instUnitTick, dispatch_of_busy, hf]

theorem mem_lsQueueTick : e ∈ lsQueueTick s ↔
    (s.rm.lsqClear = true ∧ ∃ slot ∈ s.lsq, (s.rm.lsq.data slot).op = .load ∧
      e = .write (.lsq (.data slot)) { s.rm.lsq.data slot with cleared := true }) ∨
    (∃ slot, s.lsqPop = some slot ∧
      e = .write (.lsq .head) (queueTrunc lsQueueCapacity (s.rm.lsq.head + 1))) ∨
    (∃ data, s.issuesLoad = some data ∧
      e ∈ memRequestLoad s data.addr data.size data.baseMsg) ∨
    (∃ data, s.issuesStore = some data ∧
      (e ∈ memRequestStore s data.addr data.value data.size ∨ e = .reduce .lockStall true)) := by
  unfold lsQueueTick Latched.issuesLoad Latched.issuesStore Latched.lsqIssue Latched.lsqPop
    busyWaitShouldStall
  cases hc : s.rm.lsqClear
  · cases hl : s.rr .lockStall
    · cases he : queueEmpty s.rm.lsq
      · rw [queuePop_of_not_empty he]
        cases hcl : (s.rm.lsq.data s.rm.lsq.head).cleared <;>
          cases hop : (s.rm.lsq.data s.rm.lsq.head).op <;>
            simp [liftLsq, Option.filter, hcl, hop, busyWait]
      · simp
    · simp
  · simp [Latched.lsq, List.mem_flatMap]

def Latched.waits (s : Latched) (h : ℕ) : Bool :=
  s.rr (.bhBusy h (s.rm.current h)) && s.gnt != h + 1

theorem mem_bhTick {h : ℕ} : e ∈ bhTick h s ↔ s.rm.busClear = 0 ∧
    ((s.rr (.bhBusy h (s.rm.current h)) = true ∧ s.gnt = h + 1 ∧
        (e = .write .busData (s.rm.buffer h (s.rm.current h)) ∨
          e = .reduce (.bhBusy h (s.rm.current h)) false)) ∨
      (s.waits h = true ∧
        (e = .write (.req h) true ∨ e = .reduce (.bhBusy h (s.rm.current h)) true)) ∨
      (s.waits h = false ∧ s.rr (.bhBusy h (bhOther (s.rm.current h))) = true ∧
        (e = .write (.req h) true ∨ e = .write (.current h) (bhOther (s.rm.current h)))) ∨
      e = .reduce (.bhBusy h (bhOther (s.rm.current h)))
        (s.rr (.bhBusy h (bhOther (s.rm.current h))))) := by
  simp only [bhTick, Latched.waits, busArbStatus, busArbReq]
  by_cases hc : s.rm.busClear = 0
  · simp only [hc, ne_eq, not_true_eq_false, ↓reduceIte, true_and]
    cases hb : s.rr (.bhBusy h (s.rm.current h)) <;>
      cases ho : s.rr (.bhBusy h (bhOther (s.rm.current h))) <;>
        by_cases hg : s.gnt = h + 1 <;> simp [hg, or_assoc]
  · simp [hc]

theorem acquired_eq_none_iff {h : ℕ} : s.acquired h = none ↔ bhShouldStall s h = true := by
  simp only [Latched.acquired, bhAcquire, bhShouldStall]
  by_cases h0 : 0 ≤ bhReqIx s h
  · cases s.rr (.bhBusy h (bhOther (bhReqIx s h))) <;> simp [h0]
  · simp [h0]

theorem mem_bhAcquire {h : ℕ} : e ∈ (bhAcquire s h).1 ↔ ∃ b, s.acquired h = some b ∧
    (e = .reduce (.bhBusy h b) true ∨
      (bhReqIx s h < 0 ∧ s.rm.busClear = 0 ∧ e = .write (.req h) true)) := by
  simp only [Latched.acquired, bhAcquire, busArbReq]
  by_cases h0 : 0 ≤ bhReqIx s h
  · have hn : ¬bhReqIx s h < 0 := Int.not_lt.2 h0
    cases s.rr (.bhBusy h (bhOther (bhReqIx s h))) <;> simp [h0, hn]
  · split_ifs <;> simp_all [or_comm]

theorem mem_aluTick [WideShift] {a : ℕ} : e ∈ aluTick a s ↔
    (bhShouldClear s = true ∧
      e = .write (.resultBuf a) { s.rm.resultBuf a with busy := false }) ∨
    (∃ msg, s.aluMsg a = some msg ∧
      ((∃ b, s.acquired (a + 1) = some b ∧
        (e ∈ (bhAcquire s (a + 1)).1 ∨ e = .write (.buffer (a + 1) b) msg ∨
          ((s.rm.resultBuf a).busy = true ∧
            (e = .write (.resultBuf a) { s.rm.resultBuf a with busy := false } ∨
              e = .reduce (.aluBusy a) (s.rr (.aluBusy a)))))) ∨
      (s.acquired (a + 1) = none ∧ (s.rm.resultBuf a).busy = false ∧
        e = .write (.resultBuf a) ⟨msg, true⟩))) ∨
    (bhShouldClear s = false ∧ (s.rm.resultBuf a).busy = false ∧ s.rr (.aluBusy a) = true ∧
      aluExecute (s.rm.aluTask a).op (s.rm.aluTask a).value1 (s.rm.aluTask a).value2 = none ∧
      (e ∈ (bhAcquire s (a + 1)).1 ∨ e = .fail .assertion)) := by
  have hn : s.acquired (a + 1) = none → (bhAcquire s (a + 1)).1 = [] := by
    intro h
    refine List.eq_nil_iff_forall_not_mem.2 fun e he => ?_
    obtain ⟨b, hb, -⟩ := mem_bhAcquire.1 he
    simp [h] at hb
  simp only [aluTick, Latched.aluMsg, Latched.acquired, aluHelper] at hn ⊢
  cases hc : bhShouldClear s
  · generalize bhAcquire s (a + 1) = acq at hn ⊢
    obtain ⟨es, ob⟩ := acq
    generalize aluExecute (s.rm.aluTask a).op (s.rm.aluTask a).value1 (s.rm.aluTask a).value2 =
      res at *
    cases hb : (s.rm.resultBuf a).busy
    · cases hr : s.rr (.aluBusy a)
      · simp
      · cases ob <;> cases res <;> simp_all
    · cases ob <;> simp_all
  · simp

def memSendEffects (s : Latched) (data : MemData) (i : ℕ) : List CpuEffect :=
  match bhAcquire s 0, s.memMsg data i with
  | (es, none), _ => es
  | (es, some _), none => es ++ [.fail .assertion]
  | (es, some b), some msg =>
    es ++ [.write (.buffer 0 b) msg,
      .plain (.log (.load (s.rm.loadReq i).addr (s.rm.loadReq i).size msg))]

/-- The load loop counts down every busy slot, and completes the first that is due. -/
theorem memLoadStep_foldl (data : MemData) (l : List ℕ) (acc : LoadScan) (hl : l.Nodup) :
    l.foldl (memLoadStep s data) acc =
      let due := if acc.cdbSent then none else l.find? fun i =>
        s.rr (.loadBusy i) && (s.rm.loadReq i).ticksRemaining - 1 ≤ 0
      { cdbSent := acc.cdbSent || due.isSome
        done := (due.filter fun i =>
          (s.acquired 0).isSome && (s.memMsg data i).isSome).toList ++ acc.done
        effects := acc.effects ++ l.flatMap fun i =>
          if s.rr (.loadBusy i) then
            .write (.loadReq i) { s.rm.loadReq i with
              ticksRemaining := (s.rm.loadReq i).ticksRemaining - 1 } ::
              if due = some i then memSendEffects s data i else []
          else [] } := by
  induction l generalizing acc with
  | nil => cases acc; simp
  | cons i l ih =>
    obtain ⟨sent, done, es⟩ := acc
    rw [List.nodup_cons] at hl
    rw [List.foldl_cons, ih _ hl.2]
    have hne : ∀ j ∈ l, i ≠ j := fun j hj he => hl.1 (he ▸ hj)
    cases hb : s.rr (.loadBusy i)
    · have hf : ∀ p : ℕ → Bool, p i = false → (i :: l).find? p = l.find? p := by
        intro p hp
        simp [hp]
      simp only [memLoadStep, hb, Bool.not_false, ↓reduceIte, List.flatMap_cons,
        Bool.false_eq_true, List.nil_append]
      rw [hf _ (by simp [hb])]
    · by_cases ht : (s.rm.loadReq i).ticksRemaining - 1 ≤ 0
      · cases sent
        · have hstep : memLoadStep s data ⟨false, done, es⟩ i =
              ⟨true, ((some i).filter fun i =>
                (s.acquired 0).isSome && (s.memMsg data i).isSome).toList ++ done,
                es ++ .write (.loadReq i) { s.rm.loadReq i with
                  ticksRemaining := (s.rm.loadReq i).ticksRemaining - 1 } ::
                  memSendEffects s data i⟩ := by
            simp only [memLoadStep, hb, Bool.not_true, Bool.false_eq_true, ↓reduceIte,
              Bool.not_false, Bool.true_and, decide_eq_true_eq, ht, memSendEffects,
              Latched.acquired, Latched.memMsg]
            generalize bhAcquire s 0 = acq
            obtain ⟨fs, ob⟩ := acq
            cases ob <;>
              cases hm : memGetSz data (s.rm.loadReq i).addr (s.rm.loadReq i).size <;>
                simp [Option.filter_some, hm]
          rw [hstep]
          simp only [↓reduceIte, Bool.true_or, Option.filter_none, Option.toList_none,
            List.nil_append, Bool.false_eq_true, Bool.false_or, List.flatMap_cons]
          rw [List.find?_cons_of_pos (by simp only [hb, ht, decide_true, Bool.and_self])]
          simp only [hb, ↓reduceIte, Option.isSome_some, List.append_assoc, List.cons_append,
            LoadScan.mk.injEq, true_and, List.append_cancel_left_eq, List.cons.injEq]
          refine List.flatMap_congr fun j hj => ?_
          simp [hne j hj]
        · simp [memLoadStep, hb]
      · have hf : (i :: l).find? (fun i => s.rr (.loadBusy i) &&
            (s.rm.loadReq i).ticksRemaining - 1 ≤ 0) = l.find? (fun i => s.rr (.loadBusy i) &&
            (s.rm.loadReq i).ticksRemaining - 1 ≤ 0) :=
          List.find?_cons_of_neg
            (by simp only [hb, ht, decide_false, Bool.and_false, Bool.false_eq_true,
              not_false_eq_true])
        have hd : ∀ due : Option ℕ, (∀ j, due = some j → j ∈ l) → due ≠ some i := by
          intro due h he
          exact hl.1 (h i he)
        simp only [memLoadStep, hb, Bool.not_true, Bool.false_eq_true, ↓reduceIte,
          ht, Bool.and_false, decide_false, hf, List.flatMap_cons]
        rw [if_neg (hd _ ?_)]
        · simp
        · intro j hj
          split at hj
          · cases hj
          · exact List.mem_of_find?_eq_some hj

theorem memSlots_nodup : memSlots.Nodup := by decide

theorem mem_memTick {data : MemData} : e ∈ memTick s data ↔
    (s.rm.memClear = true ∧ ∃ i ∈ memSlots, e = .reduce (.storeBusy i) (s.rr (.storeBusy i))) ∨
    (s.rm.memClear = false ∧
      ((∃ i ∈ memSlots, s.rr (.loadBusy i) = true ∧
          e = .write (.loadReq i) { s.rm.loadReq i with
            ticksRemaining := (s.rm.loadReq i).ticksRemaining - 1 }) ∨
        (∃ i, s.memReady = some i ∧ e ∈ memSendEffects s data i) ∨
        (∃ i ∈ memSlots, e ∈ memStoreStep s i) ∨
        (∃ i ∈ memSlots,
          e = .reduce (.loadBusy i) (s.rr (.loadBusy i) && s.memSends data != some i) ∨
          e = .reduce (.storeBusy i) (s.rr (.storeBusy i) && !memStoreDone s i)))) := by
  unfold memTick
  cases hc : s.rm.memClear
  · have hr : s.memReady = memSlots.find? fun i =>
        s.rr (.loadBusy i) && (s.rm.loadReq i).ticksRemaining - 1 ≤ 0 := by
      simp [Latched.memReady, hc]
    have hd : ∀ i, (!(memLoads s data).done.contains i) = (s.memSends data != some i) := by
      intro i
      rw [memLoads, memLoadStep_foldl data memSlots _ memSlots_nodup, Bool.eq_iff_iff]
      simp only [Bool.false_eq_true, ↓reduceIte, ← hr, Latched.memSends, List.append_nil]
      cases Option.filter _ s.memReady with
      | none => simp
      | some j =>
        simp
        omega
    have hm : ∀ {j}, s.memReady = some j → j ∈ memSlots ∧ s.rr (.loadBusy j) = true := by
      intro j hj
      rw [hr] at hj
      have hp := List.find?_some hj
      simp only [Bool.and_eq_true] at hp
      exact ⟨List.mem_of_find?_eq_some hj, hp.1⟩
    simp only [Bool.false_eq_true, ↓reduceIte, List.mem_append, List.mem_flatMap,
      List.mem_cons, List.not_mem_nil, or_false, false_and, false_or, true_and, hd, or_assoc]
    rw [memLoads, memLoadStep_foldl data memSlots _ memSlots_nodup]
    simp only [Bool.false_eq_true, ↓reduceIte, ← hr, List.nil_append, List.mem_flatMap,
      ← or_assoc]
    refine or_congr_left (or_congr_left ?_)
    constructor
    · rintro ⟨i, hi, he⟩
      split at he
      · rename_i hb
        rcases List.mem_cons.1 he with rfl | he
        · exact .inl ⟨i, hi, hb, rfl⟩
        · split at he
          · rename_i hj
            exact .inr ⟨i, hj, he⟩
          · cases he
      · cases he
    · rintro (⟨i, hi, hb, rfl⟩ | ⟨i, hj, he⟩)
      · exact ⟨i, hi, by simp [hb]⟩
      · exact ⟨i, (hm hj).1, by simp [(hm hj).2, hj, he]⟩
  · simp only [↓reduceIte, List.mem_map, true_and, Bool.true_eq_false, false_and, or_false]
    exact ⟨fun ⟨i, hi, he⟩ => ⟨i, hi, he.symm⟩, fun ⟨i, hi, he⟩ => ⟨i, hi, he.symm⟩⟩

def aluIssueEffects (s : Latched) (a : ℕ) (rs : RsId) : List CpuEffect :=
  (aluTask s a (rsTask (s.rm.rsPayload rs))).1 ++
    if (aluTask s a (rsTask (s.rm.rsPayload rs))).2 then [.write (.rsBusy rs) false] else []

/-- `_rsu_check_alu` offers one ready station after the other to one ALU after the
    other. -/
theorem mem_rsuCheckAlu [WideShift] {rss : List RsId} {n : ℕ} (hn : n < aluCount) :
    e ∈ rsuCheckAlu s n rss ↔ ∃ k rs, (rss.filter s.ready)[k]? = some rs ∧
      n + k < aluCount ∧ e ∈ aluIssueEffects s (n + k) rs := by
  induction rss generalizing n with
  | nil => simp [rsuCheckAlu]
  | cons rs rss ih =>
    by_cases hr : s.ready rs = true
    · have hr' := hr
      simp only [Latched.ready, Bool.and_eq_true, decide_eq_true_eq] at hr'
      obtain ⟨⟨hb, h1⟩, h2⟩ := hr'
      have hne : ¬((s.rm.rsPayload rs).src1 ≠ 0 ∨ (s.rm.rsPayload rs).src2 ≠ 0) := by
        simp [h1, h2]
      simp only [rsuCheckAlu, hb, Bool.not_true, Bool.false_eq_true, if_false, if_neg hne,
        List.filter_cons_of_pos hr]
      constructor
      · intro he
        rcases List.mem_append.1 he with he | he
        · exact ⟨0, rs, rfl, by simpa using hn, he⟩
        · split at he
          · cases he
          · obtain ⟨k, rs', hk, hlt, he⟩ := (ih (by omega)).1 he
            exact ⟨k + 1, rs', by simpa using hk, by omega,
              by rwa [show n + (k + 1) = n + 1 + k by omega]⟩
      · rintro ⟨k, rs', hk, hlt, he⟩
        refine List.mem_append.2 ?_
        cases k with
        | zero =>
          obtain rfl : rs = rs' := by simpa using hk
          exact .inl he
        | succ k =>
          refine .inr ?_
          rw [if_neg (by omega)]
          exact (ih (by omega)).2 ⟨k, rs', by simpa using hk, by omega,
            by rwa [show n + 1 + k = n + (k + 1) by omega]⟩
    · rw [List.filter_cons_of_neg hr, ← ih hn]
      simp only [Latched.ready, Bool.and_eq_true, decide_eq_true_eq, not_and] at hr
      cases hb : s.rm.rsBusy rs
      · simp [rsuCheckAlu, hb]
      · have hne : (s.rm.rsPayload rs).src1 ≠ 0 ∨ (s.rm.rsPayload rs).src2 ≠ 0 := by
          by_cases h1 : (s.rm.rsPayload rs).src1 = 0
          · exact .inr (hr ⟨hb, h1⟩)
          · exact .inl h1
        simp only [rsuCheckAlu, hb, Bool.not_true, Bool.false_eq_true, if_false, if_pos hne]

theorem mem_aluIssueEffects [WideShift] {a : ℕ} {rs : RsId} (h : s.aluPick a = some rs) :
    e ∈ aluIssueEffects s a rs ↔
      (s.aluStarts a = some rs ∧
        (e = .write (.aluTask a) (rsTask (s.rm.rsPayload rs)) ∨
          e = .reduce (.aluBusy a) true)) ∨
      (s.aluFrees a = some rs ∧ e = .write (.rsBusy rs) false) := by
  simp only [aluIssueEffects, aluTask, Latched.aluStarts, Latched.aluFrees, h]
  by_cases hc : bhShouldClear s = true <;>
    by_cases hs : bhShouldStall s (aluHelper a) = true <;> simp [hc, hs, or_assoc]

theorem rsuCheckLoadFrom_eq (rss : List RsId) :
    rsuCheckLoadFrom s rss =
      match rss.find? fun rs => s.ready rs && s.loadBlocked rs != some true with
      | none => []
      | some rs =>
        if s.loadBlocked rs = none then [.fail .assertion]
        else
          lsQueuePush s (rsLoadPayload (s.rm.rsPayload rs)) ++
            [.plain (.log (.pushLoad (s.rm.rsPayload rs).dest (s.rm.rsPayload rs).seq
                (rsCalcAddr (s.rm.rsPayload rs)) (s.rm.rsPayload rs).opLs)),
              .write (.rsBusy rs) false] := by
  induction rss with
  | nil => rfl
  | cons rs rss ih =>
    have hl : rsuBlocking s (rsCalcAddr (s.rm.rsPayload rs)) (s.rm.rsPayload rs).opLs
        (s.rm.rsPayload rs).dest (queueForeach robCapacity s.rm.robs) = s.loadBlocked rs := rfl
    simp only [rsuCheckLoadFrom]
    rw [hl, List.find?_cons]
    cases hr : s.ready rs
    · have : (!s.rm.rsBusy rs) = true ∨
          ((s.rm.rsPayload rs).src1 ≠ 0 ∨ (s.rm.rsPayload rs).src2 ≠ 0) := by
        simp only [Latched.ready, Bool.and_eq_false_iff, decide_eq_false_iff_not] at hr
        simpa [or_assoc] using hr
      rcases this with hb | hs
      · simp [hb, ih]
      · simp [hs, ih]
    · simp only [Latched.ready, Bool.and_eq_true, decide_eq_true_eq] at hr
      obtain ⟨⟨hb, h1⟩, h2⟩ := hr
      have hn : ((none : Option Bool) != some true) = true := rfl
      have hf : (some false != some true) = true := rfl
      cases hbl : s.loadBlocked rs with
      | none => simp [hb, h1, h2, hbl, hn]
      | some b => cases b <;> simp [hb, h1, h2, hbl, hf, ih]

theorem mem_rsuCheckLoad (hc : s.rm.rsClear = false) : e ∈ rsuCheckLoad s loadBuffers ↔
    ∃ rs, s.loadPick = some rs ∧
      ((s.loadBlocked rs = none ∧ e = .fail .assertion) ∨
        (s.loadBlocked rs = some false ∧
          (e = .write (.lsq .tail) (queueTrunc lsQueueCapacity (s.rm.lsq.tail + 1)) ∨
            e = .write (.lsq (.data s.rm.lsq.tail)) (rsLoadPayload (s.rm.rsPayload rs)) ∨
            e = .plain (.log (.pushLoad (s.rm.rsPayload rs).dest (s.rm.rsPayload rs).seq
              (rsCalcAddr (s.rm.rsPayload rs)) (s.rm.rsPayload rs).opLs)) ∨
            e = .write (.rsBusy rs) false))) := by
  rw [rsuCheckLoad, rsuCheckLoadFrom_eq, Latched.loadPick, hc]
  cases hq : lsQueueFull s
  · simp only [Bool.false_eq_true, ↓reduceIte, Bool.or_self]
    cases hf : loadBuffers.find? fun rs => s.ready rs && s.loadBlocked rs != some true with
    | none => simp
    | some rs =>
      have hp := List.find?_some hf
      cases hb : s.loadBlocked rs with
      | none => simp [hb]
      | some b =>
        cases b
        · simp [hb, lsQueuePush_eq _ hq, rsLoadPayload]
        · simp_all
  · simp

theorem rsuCheckStoreFrom_eq (rss : List RsId) :
    rsuCheckStoreFrom s rss =
      match rss.find? s.storeReady with
      | none => []
      | some rs =>
        .write (.robPayload (robSlot (s.rm.rsPayload rs).dest)) (s.storeEntry rs) ::
          if (s.storeEntry rs).addrReady && (s.storeEntry rs).valueReady then
            [.write (.rsBusy rs) false,
              .write (.robReady (robSlot (s.rm.rsPayload rs).dest)) true]
          else [] := by
  induction rss with
  | nil => rfl
  | cons rs rss ih =>
    simp only [rsuCheckStoreFrom, List.find?_cons, Latched.storeReady, ih, Latched.storeEntry]
    cases s.rm.rsBusy rs
    · simp
    · by_cases h1 : (s.rm.rsPayload rs).src1 = 0 <;>
        by_cases h2 : (s.rm.rsPayload rs).src2 = 0 <;>
          cases (s.rm.robPayload (robSlot (s.rm.rsPayload rs).dest)).addrReady <;>
            cases (s.rm.robPayload (robSlot (s.rm.rsPayload rs).dest)).valueReady <;>
              simp [h1, h2]

theorem mem_rsuCheckStore (hc : s.rm.rsClear = false) : e ∈ rsuCheckStore s storeBuffers ↔
    (∃ rs, s.storePick = some rs ∧
      e = .write (.robPayload (robSlot (s.rm.rsPayload rs).dest)) (s.storeEntry rs)) ∨
    (∃ rs, s.storeFrees = some rs ∧
      (e = .write (.rsBusy rs) false ∨
        e = .write (.robReady (robSlot (s.rm.rsPayload rs).dest)) true)) := by
  rw [rsuCheckStore, rsuCheckStoreFrom_eq, Latched.storeFrees, Latched.storePick, hc]
  cases lsQueueFull s
  · simp only [Bool.false_eq_true, ↓reduceIte, Bool.or_self]
    cases storeBuffers.find? s.storeReady with
    | none => simp
    | some rs =>
      cases hd : (s.storeEntry rs).addrReady && (s.storeEntry rs).valueReady <;>
        simp [Option.filter_some, hd]
  · simp

theorem mem_rsUnitTick [WideShift] : e ∈ rsUnitTick s ↔
    (s.rm.rsClear = true ∧
      (e = .write .rsClear false ∨ ∃ id ∈ stations, e = .write (.rsBusy id) false)) ∨
    (∃ a rs, s.aluStarts a = some rs ∧
      (e = .write (.aluTask a) (rsTask (s.rm.rsPayload rs)) ∨ e = .reduce (.aluBusy a) true)) ∨
    (∃ a rs, s.aluFrees a = some rs ∧ e = .write (.rsBusy rs) false) ∨
    (∃ rs, s.loadPick = some rs ∧
      ((s.loadBlocked rs = none ∧ e = .fail .assertion) ∨
        (s.loadBlocked rs = some false ∧
          (e = .write (.lsq .tail) (queueTrunc lsQueueCapacity (s.rm.lsq.tail + 1)) ∨
            e = .write (.lsq (.data s.rm.lsq.tail)) (rsLoadPayload (s.rm.rsPayload rs)) ∨
            e = .plain (.log (.pushLoad (s.rm.rsPayload rs).dest (s.rm.rsPayload rs).seq
              (rsCalcAddr (s.rm.rsPayload rs)) (s.rm.rsPayload rs).opLs)) ∨
            e = .write (.rsBusy rs) false)))) ∨
    (∃ rs, s.storePick = some rs ∧
      e = .write (.robPayload (robSlot (s.rm.rsPayload rs).dest)) (s.storeEntry rs)) ∨
    (∃ rs, s.storeFrees = some rs ∧
      (e = .write (.rsBusy rs) false ∨
        e = .write (.robReady (robSlot (s.rm.rsPayload rs).dest)) true)) := by
  cases hc : s.rm.rsClear
  · have hp : ∀ k, s.aluPick k = if k < aluCount then (aluStations.filter s.ready)[k]? else none :=
      fun k => by simp [Latched.aluPick, hc]
    have hs : ∀ {a rs}, s.aluStarts a = some rs → s.aluPick a = some rs := by
      intro a rs h
      simp only [Latched.aluStarts, Latched.aluFrees] at h
      split_ifs at h
      exact h
    have hf : ∀ {a rs}, s.aluFrees a = some rs → s.aluPick a = some rs := by
      intro a rs h
      simp only [Latched.aluFrees] at h
      split_ifs at h
      exact h
    have hlt : ∀ {a rs}, s.aluPick a = some rs →
        (aluStations.filter s.ready)[a]? = some rs ∧ a < aluCount := by
      intro a rs h
      rw [hp] at h
      split at h
      · exact ⟨h, ‹_›⟩
      · cases h
    have ha : e ∈ rsuCheckAlu s 0 aluStations ↔
        (∃ a rs, s.aluStarts a = some rs ∧
          (e = .write (.aluTask a) (rsTask (s.rm.rsPayload rs)) ∨
            e = .reduce (.aluBusy a) true)) ∨
        (∃ a rs, s.aluFrees a = some rs ∧ e = .write (.rsBusy rs) false) := by
      rw [mem_rsuCheckAlu (by decide)]
      constructor
      · rintro ⟨k, rs, hk, hn, he⟩
        rw [Nat.zero_add] at hn he
        rw [mem_aluIssueEffects (by rw [hp, if_pos hn, hk])] at he
        exact he.imp (fun h => ⟨k, rs, h⟩) (fun h => ⟨k, rs, h⟩)
      · rintro (⟨k, rs, h, he⟩ | ⟨k, rs, h, he⟩)
        · refine ⟨k, rs, (hlt (hs h)).1, by simpa using (hlt (hs h)).2, ?_⟩
          rw [Nat.zero_add, mem_aluIssueEffects (hs h)]
          exact .inl ⟨h, he⟩
        · refine ⟨k, rs, (hlt (hf h)).1, by simpa using (hlt (hf h)).2, ?_⟩
          rw [Nat.zero_add, mem_aluIssueEffects (hf h)]
          exact .inr ⟨h, he⟩
    rw [rsUnitTick, hc, if_neg (by simp), List.mem_append, List.mem_append, ha,
      mem_rsuCheckLoad hc, mem_rsuCheckStore hc]
    simp only [Bool.false_eq_true, false_and, false_or, or_assoc]
  · have hn : ∀ a, s.aluPick a = none := fun a => by simp [Latched.aluPick, hc]
    have hm : ∀ rss, e ∈ rsuClear rss ↔ ∃ id ∈ rss, e = .write (.rsBusy id) false := fun rss =>
      List.mem_map.trans ⟨fun ⟨i, hi, he⟩ => ⟨i, hi, he.symm⟩, fun ⟨i, hi, he⟩ => ⟨i, hi, he.symm⟩⟩
    simp [rsUnitTick, hm, hc, stations, Latched.aluStarts, Latched.aluFrees, hn,
      Latched.loadPick, Latched.storePick, Latched.storeFrees, or_and_right, exists_or,
      List.mem_append]

theorem mem_robUnitOnmsg {msg : CdbMessage} : e ∈ robUnitOnmsg s msg ↔
    s.rm.robs.clear = false ∧ ∃ slot ∈ s.robs, msg.rob = robId slot ∧
      (e = .write (.robPayload slot) (robMsgPayload (s.rm.robPayload slot) msg) ∨
        e = .write (.robReady slot) true) := by
  unfold robUnitOnmsg Latched.robs
  cases s.rm.robs.clear
  · simp only [Bool.false_eq_true, ↓reduceIte, List.mem_flatMap, true_and]
    refine exists_congr fun slot => and_congr_right fun _ => ?_
    split <;> simp_all
  · simp

def rsMsgPayload (data : RsPayload) (msg : CdbMessage) : RsPayload where
  opAlu := data.opAlu
  opLs := data.opLs
  value1 := if data.src1 = msg.rob then msg.result else data.value1
  value2 := if data.src2 = msg.rob then msg.result else data.value2
  src1 := if data.src1 = msg.rob then 0 else data.src1
  src2 := if data.src2 = msg.rob then 0 else data.src2
  dest := data.dest
  addr := data.addr
  seq := data.seq

theorem mem_rsOnmsg {id : RsId} {msg : CdbMessage} : e ∈ rsOnmsg id s msg ↔
    s.rm.rsClear = false ∧ s.rm.rsBusy id = true ∧
      (((s.rm.rsPayload id).src1 = msg.rob ∨ (s.rm.rsPayload id).src2 = msg.rob) ∧
          e = .write (.rsPayload id) (rsMsgPayload (s.rm.rsPayload id) msg) ∨
        (s.rm.rsPayload id).src1 = msg.rob ∧ e = rsCapture s (s.rm.rsPayload id) Inst.rs1 msg ∨
        (s.rm.rsPayload id).src2 = msg.rob ∧
          e = rsCapture s (s.rm.rsPayload id) Inst.rs2 msg) := by
  simp only [rsOnmsg]
  cases s.rm.rsClear
  · cases s.rm.rsBusy id
    · simp
    · by_cases h1 : (s.rm.rsPayload id).src1 = msg.rob <;>
        by_cases h2 : (s.rm.rsPayload id).src2 = msg.rob <;>
          simp [h1, h2, rsMsgPayload]
  · simp

theorem Listener.mem_registered {l : Listener} :
    l ∈ Listener.registered ↔ l = .robUnit ∨ (∃ id ∈ stations, l = .rs id) ∨ l = .cpuDebug := by
  simp only [Listener.registered, List.cons_append, List.mem_cons, List.mem_append, List.mem_map,
    List.not_mem_nil, or_false]
  exact or_congr_right (or_congr_left
    ⟨fun ⟨i, hi, he⟩ => ⟨i, hi, he.symm⟩, fun ⟨i, hi, he⟩ => ⟨i, hi, he.symm⟩⟩)

theorem mem_busTick {ls : List Listener} (hls : ls.Perm Listener.registered) :
    e ∈ busTick (Listener.onmsg s) ls s ↔ e = .write .fire (s.gnt != 0) ∨
      (s.rm.busClear ≠ 0 ∧ e = .write .busClear (s.rm.busClear - 1)) ∨
      (∃ msg, s.delivered = some msg ∧
        (e ∈ robUnitOnmsg s msg ∨ ∃ id ∈ stations, e ∈ rsOnmsg id s msg)) := by
  simp only [busTick, Latched.delivered]
  by_cases hc : s.rm.busClear = 0
  · simp only [hc, ne_eq, not_true_eq_false, ↓reduceIte, List.mem_cons, false_and, false_or]
    cases busGetData s with
    | none => simp
    | some msg =>
      simp only [List.mem_flatMap, hls.mem_iff, Listener.mem_registered, Option.some.injEq,
        exists_eq_left']
      refine or_congr_right ⟨?_, ?_⟩
      · rintro ⟨l, rfl | ⟨id, hid, rfl⟩ | rfl, he⟩
        · exact .inl he
        · exact .inr ⟨id, hid, he⟩
        · cases he
      · rintro (he | ⟨id, hid, he⟩)
        · exact ⟨.robUnit, .inl rfl, he⟩
        · exact ⟨.rs id, .inr (.inl ⟨id, hid, rfl⟩), he⟩
  · simp [hc]

theorem mem_regFileTick : e ∈ regFileTick s ↔
    s.rm.regClear = true ∧ ∃ x ∈ regIds, e = .write (.robIdClearIf x) (-1 : ℤ) := by
  unfold regFileTick
  cases s.rm.regClear
  · simp
  · simp only [↓reduceIte, List.mem_map, true_and]
    exact ⟨fun ⟨i, hi, he⟩ => ⟨i, hi, he.symm⟩, fun ⟨i, hi, he⟩ => ⟨i, hi, he.symm⟩⟩

theorem mem_liftLsq_queueTick : e ∈ liftLsq (queueTick s.rm.lsq) ↔ s.rm.lsq.clear = true ∧
    (e = .write (.lsq .clear) false ∨ e = .write (.lsq .head) (0 : ℤ) ∨
      e = .write (.lsq .tail) (0 : ℤ)) := by
  unfold queueTick
  cases s.rm.lsq.clear <;> simp [liftLsq]

theorem mem_liftRobs_queueTick : e ∈ liftRobs (queueTick s.rm.robs) ↔ s.rm.robs.clear = true ∧
    (e = .write (.robs .clear) false ∨ e = .write (.robs .head) (0 : ℤ) ∨
      e = .write (.robs .tail) (0 : ℤ)) := by
  unfold queueTick
  cases s.rm.robs.clear <;> simp [liftRobs]

theorem mem_busyWaitTick : e ∈ busyWaitTick s ↔
    s.rr .lockStall = true ∧ s.rm.lockSignal = false ∧ e = .reduce .lockStall true := by
  unfold busyWaitTick busyWait
  cases s.rr .lockStall <;> cases s.rm.lockSignal <;> simp

theorem mem_memRequestLoad {payload : LsQueuePayload} :
    e ∈ memRequestLoad s payload.addr payload.size payload.baseMsg ↔
      (s.loadSlot = none ∧ e = .fail .outOfBounds) ∨
      ∃ i, s.loadSlot = some i ∧ (e = .reduce (.loadBusy i) true ∨
        e = .write (.loadReq i) ⟨payload.addr, payload.size, payload.baseMsg, memTicks - 1⟩) := by
  unfold memRequestLoad Latched.loadSlot
  cases memAcquire fun i => s.rr (.loadBusy i) <;> simp

theorem mem_memRequestStore {payload : LsQueuePayload} :
    e ∈ memRequestStore s payload.addr payload.value payload.size ↔
      (s.storeSlot = none ∧ e = .fail .outOfBounds) ∨
      ∃ i, s.storeSlot = some i ∧ (e = .reduce (.storeBusy i) true ∨
        e = .write (.storeReq i) ⟨payload.addr, payload.value, payload.size, memTicks - 1⟩ ∨
        e = .plain (.log (.issueStore i))) := by
  unfold memRequestStore Latched.storeSlot
  cases memAcquire fun i => s.rr (.storeBusy i) <;> simp

theorem mem_memStoreStep {i : ℕ} : e ∈ memStoreStep s i ↔ s.rr (.storeBusy i) = true ∧
    (e = .write (.storeReq i) { s.rm.storeReq i with
        ticksRemaining := (s.rm.storeReq i).ticksRemaining - 1 } ∨
      (memStoreDone s i = true ∧
        ((memSetSz (fun _ => 0) (s.rm.storeReq i).addr (s.rm.storeReq i).value
            (s.rm.storeReq i).size = none ∧ e = .fail .assertion) ∨
          (memSetSz (fun _ => 0) (s.rm.storeReq i).addr (s.rm.storeReq i).value
            (s.rm.storeReq i).size ≠ none ∧
            (e = .plain (.memSetSz (s.rm.storeReq i).addr (s.rm.storeReq i).value
                (s.rm.storeReq i).size) ∨
              e = .plain (.log (.store i (s.rm.storeReq i).addr (s.rm.storeReq i).value
                (s.rm.storeReq i).size)) ∨
              e = .write .lockSignal true))))) := by
  unfold memStoreStep
  dsimp only
  generalize memSetSz (fun _ => 0) (s.rm.storeReq i).addr (s.rm.storeReq i).value
    (s.rm.storeReq i).size = res
  cases s.rr (.storeBusy i)
  · simp
  · cases memStoreDone s i
    · simp
    · cases res <;> simp

theorem mem_memSendEffects {data : MemData} {i : ℕ} : e ∈ memSendEffects s data i ↔
    e ∈ (bhAcquire s 0).1 ∨ ∃ b, s.acquired 0 = some b ∧
      ((s.memMsg data i = none ∧ e = .fail .assertion) ∨
        ∃ msg, s.memMsg data i = some msg ∧ (e = .write (.buffer 0 b) msg ∨
          e = .plain (.log (.load (s.rm.loadReq i).addr (s.rm.loadReq i).size msg)))) := by
  unfold memSendEffects Latched.acquired
  generalize bhAcquire s 0 = acq
  obtain ⟨es, ob⟩ := acq
  cases ob <;> cases s.memMsg data i <;> simp

theorem mem_instRegLog {seq : ℕ} {x : RegId} : e ∈ instRegLog s seq x ↔
    ∃ route, (instRegSet s x).route = some route ∧
      e = .plain (.log (.capture seq x route (regStoreRobIdGet s x)
        (s.rm.robPayload (robSlot (regStoreRobIdGet s x))).seq (instRegSet s x).value)) := by
  unfold instRegLog
  dsimp only
  cases (instRegSet s x).route <;> simp

theorem mem_instDispatch {predicted : BpResult} {seq : ℕ} {rs : RsId} {slot : ℤ} {inst : Inst}
    {pc : Addr} : e ∈ instDispatch s predicted seq rs slot inst pc ↔
    e = .write (.rsBusy rs) true ∨ e = .write (.robReady slot) false ∨
    e = .write (.robPayload slot)
      (dispatchRobPayload s predicted seq rs inst pc (s.rm.robPayload slot)) ∨
    e = .write (.rsPayload rs)
      (dispatchRsPayload s seq (robId slot) inst pc (s.rm.rsPayload rs)) ∨
    (hasDest inst = true ∧ inst.rd ≠ 0 ∧ e = .write (.robIdSet inst.rd) (robId slot)) ∨
    (∃ x ∈ dispatchOperands inst, e ∈ instRegLog s seq x) ∨
    (dispatchAsserts inst = false ∧ e = .fail .assertion) ∨ e = .plain .countDispatch := by
  unfold instDispatch regStoreRobIdSet
  simp only [List.mem_append, List.mem_flatMap]
  cases hasDest inst <;> cases dispatchAsserts inst <;> by_cases h0 : inst.rd = 0 <;>
    simp [h0, or_assoc]

end

end TomasuloCpu
