import TomasuloCpu.Cpu

set_option autoImplicit false

/-!
# One tick, whatever the order of its callbacks

Which callbacks can have an effect, and what a tick that trips no assertion does
to the registers and to the in-place state in terms of the effects alone.
-/
namespace TomasuloCpu
open Clocked

def sender : ℕ → Callback
  | 0 => .memTick
  | a + 1 => .aluTick a

def Event.owners : Event → List Callback
  | .retire _ _ | .halt _ _ => [.robUnitTick]
  | .capture _ _ _ _ _ _ => [.busTick, .instUnitTick]
  | .pushLoad _ _ _ _ => [.rsUnitTick]
  | .issueStore _ => [.lsQueueTick]
  | .load _ _ _ | .store _ _ _ _ => [.memTick]
  | .heard _ _ => []

def PlainOp.owners : PlainOp → List Callback
  | .memSetSz _ _ _ => [.memTick]
  | .bpFeedback _ _ _ | .bpFeedbackJalr _ _ _ | .countCommit | .hcf => [.robUnitTick]
  | .countDispatch => [.instUnitTick]
  | .log e => e.owners

def CpuReg.owners : CpuReg → List Callback
  | .req h => [.bhTick h, sender h]
  | .fire => [.busTick]
  | .busData => [.bhTick 0, .bhTick 1, .bhTick 2]
  | .busClear => [.busTick, .robUnitTick]
  | .buffer h _ => [sender h]
  | .current h => [.bhTick h]
  | .loadReq _ | .storeReq _ => [.memTick, .lsQueueTick]
  | .memClear => [.robUnitTick]
  | .register _ => [.robUnitTick]
  | .robIdSet _ => [.instUnitTick]
  | .robIdClearIf _ => [.regFileTick, .robUnitTick]
  | .regClear => [.robUnitTick]
  | .lsq (.data _) => [.lsQueueTick, .rsUnitTick, .robUnitTick]
  | .lsq .head => [.queueTick .lsq, .lsQueueTick]
  | .lsq .tail => [.queueTick .lsq, .rsUnitTick, .robUnitTick]
  | .lsq .clear => [.queueTick .lsq]
  | .lockSignal => [.memTick]
  | .lsqClear => [.robUnitTick]
  | .aluTask _ => [.rsUnitTick]
  | .resultBuf a => [.aluTick a]
  | .rsBusy _ => [.rsUnitTick, .instUnitTick]
  | .rsPayload _ => [.busTick, .instUnitTick]
  | .rsClear => [.rsUnitTick, .robUnitTick]
  | .pc => [.instUnitTick]
  | .forcePc => [.instUnitTick, .robUnitTick]
  | .robs (.data _) => [.instUnitTick]
  | .robs .head => [.queueTick .robs, .robUnitTick]
  | .robs .tail => [.queueTick .robs, .instUnitTick]
  | .robs .clear => [.queueTick .robs, .robUnitTick]
  | .robReady _ => [.busTick, .rsUnitTick, .instUnitTick, .robUnitTick]
  | .robPayload _ => [.busTick, .rsUnitTick, .instUnitTick]

def CpuOr.owners : CpuOr → List Callback
  | .bhBusy h _ => [.bhTick h, sender h]
  | .loadBusy _ | .storeBusy _ => [.memTick, .lsQueueTick]
  | .lockStall => [.busyWaitTick, .lsQueueTick]
  | .aluBusy a => [.aluTick a, .rsUnitTick]

/-- The callbacks that can have an effect. -/
def owners : CpuEffect → List Callback
  | .write r _ => r.owners
  | .reduce o _ => o.owners
  | .plain x => x.owners
  | .fail _ => []

def Owned (cb : Callback) (es : List CpuEffect) : Prop :=
  ∀ e ∈ es, e = .fail .assertion ∨ e = .fail .outOfBounds ∨ cb ∈ owners e

namespace Owned
variable {cb : Callback} {es fs : List CpuEffect}

@[simp] theorem nil : Owned cb [] := by simp [Owned]

@[simp] theorem cons_iff {e : CpuEffect} :
    Owned cb (e :: es) ↔
      (e = .fail .assertion ∨ e = .fail .outOfBounds ∨ cb ∈ owners e) ∧ Owned cb es := by
  simp [Owned]

@[simp] theorem append_iff : Owned cb (es ++ fs) ↔ Owned cb es ∧ Owned cb fs := by
  simp only [Owned, List.mem_append]
  exact ⟨fun h => ⟨fun e he => h e (.inl he), fun e he => h e (.inr he)⟩,
    fun h e he => he.elim (h.1 e) (h.2 e)⟩

theorem flatMap {α : Type} {l : List α} {f : α → List CpuEffect} (h : ∀ a ∈ l, Owned cb (f a)) :
    Owned cb (l.flatMap f) := by
  intro e he
  obtain ⟨a, ha, he⟩ := List.mem_flatMap.1 he
  exact h a ha e he

theorem map {α : Type} {l : List α} {f : α → CpuEffect} (h : ∀ a ∈ l, cb ∈ owners (f a)) :
    Owned cb (l.map f) := by
  intro e he
  obtain ⟨a, ha, rfl⟩ := List.mem_map.1 he
  exact .inr (.inr (h a ha))

end Owned

section
variable (s : Latched)

theorem owned_busArbReq (cb : Callback) (h : ℕ) (hc : cb ∈ CpuReg.owners (.req h)) :
    Owned cb (busArbReq s h) := by
  unfold busArbReq
  split <;> simp [owners, hc]

theorem owned_bhAcquire (h : ℕ) : Owned (sender h) (bhAcquire s h).1 := by
  unfold bhAcquire
  have hr : Owned (sender h) (busArbReq s h) :=
    owned_busArbReq s _ h (by simp [CpuReg.owners])
  dsimp only
  split_ifs <;> simp [owners, CpuOr.owners, hr]

theorem owned_bhTick {h : ℕ} (hh : h = 0 ∨ h = 1 ∨ h = 2) : Owned (.bhTick h) (bhTick h s) := by
  unfold bhTick
  have hr : Owned (.bhTick h) (busArbReq s h) :=
    owned_busArbReq s _ h (by simp [CpuReg.owners])
  dsimp only
  split_ifs <;> simp [owners, CpuOr.owners, CpuReg.owners, hr, hh]

theorem owned_memLoads (data : MemData) : Owned .memTick (memLoads s data).effects := by
  have step : ∀ (acc : LoadScan) (i : ℕ), Owned .memTick acc.effects →
      Owned .memTick (memLoadStep s data acc i).effects := by
    intro acc i ha
    have hb : Owned .memTick (bhAcquire s 0).1 := owned_bhAcquire s 0
    unfold memLoadStep
    dsimp only
    split_ifs
    · exact ha
    · split <;> simp_all [owners, CpuReg.owners, PlainOp.owners, Event.owners, sender]
    · simp [ha, owners, CpuReg.owners]
  have all : ∀ (l : List ℕ) (acc : LoadScan), Owned .memTick acc.effects →
      Owned .memTick (l.foldl (memLoadStep s data) acc).effects := by
    intro l
    induction l with
    | nil => exact fun _ h => h
    | cons i l ih => exact fun acc h => ih _ (step acc i h)
  exact all _ _ .nil

theorem owned_memTick (data : MemData) : Owned .memTick (memTick s data) := by
  unfold memTick
  split
  · exact .map fun i _ => by simp [owners, CpuOr.owners]
  · refine Owned.append_iff.2 ⟨Owned.append_iff.2 ⟨owned_memLoads s data, ?_⟩, ?_⟩
    · refine .flatMap fun i _ => ?_
      unfold memStoreStep
      dsimp only
      split_ifs <;> simp [owners, CpuReg.owners, PlainOp.owners, Event.owners]
    · exact .flatMap fun i _ => by simp [owners, CpuOr.owners]

theorem owned_regFileTick : Owned .regFileTick (regFileTick s) := by
  unfold regFileTick
  split
  · exact .map fun i _ => by simp [owners, CpuReg.owners]
  · exact .nil

theorem owned_liftLsq {cb : Callback} {ws : List (QueueWrite LsQueuePayload)}
    (h : ∀ w ∈ ws, cb ∈ CpuReg.owners (.lsq w.1)) : Owned cb (liftLsq ws) :=
  .map fun w hw => by simpa [owners] using h w hw

theorem owned_liftRobs {cb : Callback} {ws : List (QueueWrite Unit)}
    (h : ∀ w ∈ ws, cb ∈ CpuReg.owners (.robs w.1)) : Owned cb (liftRobs ws) :=
  .map fun w hw => by simpa [owners] using h w hw

theorem owned_queueTick_lsq : Owned (.queueTick .lsq) (liftLsq (queueTick s.rm.lsq)) := by
  refine owned_liftLsq fun w hw => ?_
  unfold queueTick at hw
  split at hw
  · simp only [List.mem_cons, List.not_mem_nil, or_false] at hw
    rcases hw with rfl | rfl | rfl <;> simp [CpuReg.owners]
  · simp at hw

theorem owned_queueTick_robs : Owned (.queueTick .robs) (liftRobs (queueTick s.rm.robs)) := by
  refine owned_liftRobs fun w hw => ?_
  unfold queueTick at hw
  split at hw
  · simp only [List.mem_cons, List.not_mem_nil, or_false] at hw
    rcases hw with rfl | rfl | rfl <;> simp [CpuReg.owners]
  · simp at hw

theorem owned_busyWaitTick : Owned .busyWaitTick (busyWaitTick s) := by
  unfold busyWaitTick busyWait
  split_ifs <;> simp [owners, CpuOr.owners]

theorem owned_lsQueueTick : Owned .lsQueueTick (lsQueueTick s) := by
  unfold lsQueueTick
  split_ifs
  · refine .flatMap fun i _ => ?_
    dsimp only
    split <;> simp [owners, CpuReg.owners]
  · exact .nil
  · exact .nil
  · unfold queuePop
    split
    · simp
    · rename_i ws slot h
      split at h
      · cases h
      · cases h
        dsimp only
        refine Owned.append_iff.2 ⟨owned_liftLsq (by simp [CpuReg.owners]), ?_⟩
        split
        · exact .nil
        · unfold memRequestLoad memRequestStore busyWait
          split <;> split <;>
            simp [owners, CpuReg.owners, CpuOr.owners, PlainOp.owners, Event.owners]

theorem owned_lsQueuePush (cb : Callback) (payload : LsQueuePayload)
    (h : cb = .rsUnitTick ∨ cb = .robUnitTick) : Owned cb (lsQueuePush s payload) := by
  unfold lsQueuePush queuePush
  split_ifs
  · exact .nil
  · split
    · simp
    · rename_i ws slot hp
      dsimp only at hp
      split at hp
      · cases hp
      · cases hp
        rcases h with rfl | rfl <;> simp [liftLsq, owners, CpuReg.owners]

theorem owned_aluTick [WideShift] (a : ℕ) : Owned (.aluTick a) (aluTick a s) := by
  have hb : Owned (.aluTick a) (bhAcquire s (a + 1)).1 := owned_bhAcquire s (a + 1)
  unfold aluTick aluHelper
  dsimp only
  split_ifs
  · simp [owners, CpuReg.owners]
  · split <;> simp_all [owners, CpuReg.owners, CpuOr.owners, sender]
  · split <;> simp_all [owners, CpuReg.owners, sender]
  · exact .nil

theorem owned_rsuCheckAlu (n : ℕ) (rss : List RsId) :
    Owned .rsUnitTick (rsuCheckAlu s n rss) := by
  induction rss generalizing n with
  | nil => simp [rsuCheckAlu]
  | cons rs rss ih =>
    have ha : ∀ task, Owned .rsUnitTick (aluTask s n task).1 := by
      intro task
      unfold aluTask
      split_ifs <;> simp [owners, CpuReg.owners, CpuOr.owners]
    simp only [rsuCheckAlu]
    split_ifs <;> simp [ih, ha, owners, CpuReg.owners]

theorem owned_rsuCheckLoad (rss : List RsId) : Owned .rsUnitTick (rsuCheckLoad s rss) := by
  unfold rsuCheckLoad
  split
  · exact .nil
  · induction rss with
    | nil => simp [rsuCheckLoadFrom]
    | cons rs rss ih =>
      have hp := owned_lsQueuePush s .rsUnitTick (rsLoadPayload (s.rm.rsPayload rs)) (.inl rfl)
      simp only [rsuCheckLoadFrom]
      split_ifs
      · exact ih
      · exact ih
      · split
        · simp
        · exact ih
        · simp [hp, owners, CpuReg.owners, PlainOp.owners, Event.owners]

theorem owned_rsuCheckStore (rss : List RsId) : Owned .rsUnitTick (rsuCheckStore s rss) := by
  unfold rsuCheckStore
  split
  · exact .nil
  · induction rss with
    | nil => simp [rsuCheckStoreFrom]
    | cons rs rss ih =>
      simp only [rsuCheckStoreFrom]
      split_ifs <;> simp [ih, owners, CpuReg.owners]

theorem owned_rsUnitTick : Owned .rsUnitTick (rsUnitTick s) := by
  have hc : ∀ rss, Owned .rsUnitTick (rsuClear rss) := fun rss =>
    .map fun i _ => by simp [owners, CpuReg.owners]
  unfold rsUnitTick
  split
  · simp [hc, owners, CpuReg.owners]
  · simp [owned_rsuCheckAlu, owned_rsuCheckLoad, owned_rsuCheckStore]

theorem owned_instUnitTick (p : Plain) : Owned .instUnitTick (instUnitTick s p) := by
  unfold instUnitTick
  dsimp only
  split_ifs
  · simp [owners, CpuReg.owners]
  · exact .nil
  · exact .nil
  · split
    · exact .nil
    · unfold robUnitAcquire queuePush
      split
      · simp
      · rename_i es slot h
        dsimp only at h
        split at h
        · cases h
        · cases h
          have hl : ∀ x, Owned .instUnitTick (instRegLog s p.dispatched x) := by
            intro x
            unfold instRegLog
            dsimp only
            split <;> simp [owners, PlainOp.owners, Event.owners]
          have hd : Owned .instUnitTick
              ((dispatchOperands (instDecode (memGetInst p.data s.rm.pc))).flatMap
                (instRegLog s p.dispatched)) :=
            .flatMap fun x _ => hl x
          unfold instDispatch regStoreRobIdSet
          split_ifs <;> simp [hd, liftRobs, owners, CpuReg.owners, PlainOp.owners]

theorem owned_robUnitTick : Owned .robUnitTick (robUnitTick s) := by
  have hset : ∀ x v, Owned .robUnitTick (regStoreSet x v) := by
    intro x v
    unfold regStoreSet
    split_ifs <;> simp [owners, CpuReg.owners]
  have hflush : ∀ data, Owned .robUnitTick (robFlush data) := by
    intro data
    simp [robFlush, instUnitForcePc, regFileClear, robUnitClear, queueClear, rsUnitClear,
      lsQueueClear, busClear, memClear, liftRobs, owners, CpuReg.owners]
  have hret : ∀ rob data, Owned .robUnitTick (robRetire s rob data) := by
    intro rob data
    unfold robRetire queuePop regStoreRobIdClear
    split_ifs <;>
      simp [liftRobs, owners, CpuReg.owners, PlainOp.owners, Event.owners]
  have hpush : ∀ payload, Owned .robUnitTick (lsQueuePush s payload) := fun payload =>
    owned_lsQueuePush s _ payload (.inr rfl)
  unfold robUnitTick
  split_ifs
  · exact .nil
  · exact .nil
  · split
    · simp
    · split_ifs
      · exact .nil
      · unfold robCommit
        dsimp only
        split
        · split_ifs <;> simp [hset, hflush, hret, owners, PlainOp.owners]
        · split_ifs <;> simp [hset, hflush, hret, owners, PlainOp.owners]
        · simp [hset, hret, owners, PlainOp.owners]
        · split_ifs <;> simp [hpush, hret, owners, PlainOp.owners]
        · simp [owners, PlainOp.owners, Event.owners]

theorem owned_busTick (ls : List Listener) : Owned .busTick (busTick (Listener.onmsg s) ls s) := by
  have hl : ∀ msg, ∀ l : Listener, Owned .busTick (l.onmsg s msg) := by
    intro msg l
    cases l with
    | robUnit =>
      simp only [Listener.onmsg, robUnitOnmsg]
      split
      · exact .nil
      · refine .flatMap fun i _ => ?_
        split <;> simp [owners, CpuReg.owners]
    | rs id =>
      simp only [Listener.onmsg, rsOnmsg, rsCapture]
      split_ifs <;> simp [owners, CpuReg.owners, PlainOp.owners, Event.owners]
    | cpuDebug => exact .nil
  unfold busTick
  split_ifs
  · simp [owners, CpuReg.owners]
  · split
    · exact Owned.cons_iff.2 ⟨by simp [owners, CpuReg.owners], .flatMap fun l _ => hl _ l⟩
    · simp [owners, CpuReg.owners]

theorem Callback.owned [WideShift] (ls : List Listener) (p : Plain) {cb : Callback}
    (hcb : cb ∈ Callback.registered) : Owned cb (cb.effects ls s p) := by
  simp only [Callback.registered, List.mem_cons, List.not_mem_nil, or_false] at hcb
  rcases hcb with rfl | rfl | rfl | rfl | rfl | rfl | rfl | rfl | rfl | rfl | rfl | rfl | rfl |
    rfl | rfl | rfl
  · exact owned_busTick s ls
  · exact owned_bhTick s (.inl rfl)
  · exact owned_memTick s p.data
  · exact owned_regFileTick s
  · exact owned_queueTick_lsq s
  · exact owned_busyWaitTick s
  · exact owned_lsQueueTick s
  · exact owned_bhTick s (.inr (.inl rfl))
  · exact owned_aluTick s 0
  · exact owned_bhTick s (.inr (.inr rfl))
  · exact owned_aluTick s 1
  · exact owned_rsUnitTick s
  · exact owned_instUnitTick s p
  · exact owned_queueTick_robs s
  · exact owned_robUnitTick s
  · exact .nil

end

def PlainOp.event? : PlainOp → Option Event
  | .log e => some e
  | _ => none

def PlainOp.store? : PlainOp → Option (Addr × Word × LsSize)
  | .memSetSz addr value size => some (addr, value, size)
  | _ => none

def PlainOp.isDispatch : PlainOp → Bool
  | .countDispatch => true
  | _ => false

def PlainOp.isHcf : PlainOp → Bool
  | .hcf => true
  | _ => false

def logsOf (es : List CpuEffect) : List Event := (plains es).filterMap PlainOp.event?

def storesOf (es : List CpuEffect) : List (Addr × Word × LsSize) :=
  (plains es).filterMap PlainOp.store?

def applyStore (data : MemData) (st : Addr × Word × LsSize) : MemData :=
  (memSetSz data st.1 st.2.1 st.2.2).getD data

def applyStores (data : MemData) (sts : List (Addr × Word × LsSize)) : MemData :=
  sts.foldl applyStore data

@[simp] theorem logsOf_append (es fs : List CpuEffect) :
    logsOf (es ++ fs) = logsOf es ++ logsOf fs := by
  simp [logsOf]

@[simp] theorem storesOf_append (es fs : List CpuEffect) :
    storesOf (es ++ fs) = storesOf es ++ storesOf fs := by
  simp [storesOf]

theorem mem_plains {x : PlainOp} {es : List CpuEffect} :
    x ∈ plains es ↔ Effect.plain x ∈ es := by
  simp only [plains, List.mem_filterMap]
  constructor
  · rintro ⟨e, he, h⟩
    cases e with
    | plain y =>
      obtain rfl : y = x := by simpa [Effect.plain?] using h
      exact he
    | _ => simp [Effect.plain?] at h
  · exact fun h => ⟨_, h, rfl⟩

theorem mem_logsOf {e : Event} {es : List CpuEffect} :
    e ∈ logsOf es ↔ Effect.plain (.log e) ∈ es := by
  simp only [logsOf, List.mem_filterMap, mem_plains]
  constructor
  · rintro ⟨x, hx, h⟩
    cases x with
    | log e' =>
      obtain rfl : e' = e := by simpa [PlainOp.event?] using h
      exact hx
    | _ => simp [PlainOp.event?] at h
  · exact fun h => ⟨_, h, rfl⟩

theorem plainAll_log (es : List CpuEffect) (p : Plain) :
    (plainAll PlainOp.act es p).log = p.log ++ logsOf es := by
  simp only [plainAll, logsOf]
  generalize plains es = xs
  induction xs generalizing p with
  | nil => simp
  | cons x xs ih =>
    rw [List.foldl_cons, ih]
    cases x <;> simp [PlainOp.act, PlainOp.event?, List.filterMap_cons]

theorem plainAll_data (es : List CpuEffect) (p : Plain) :
    (plainAll PlainOp.act es p).data = applyStores p.data (storesOf es) := by
  simp only [plainAll, storesOf]
  generalize plains es = xs
  induction xs generalizing p with
  | nil => simp [applyStores]
  | cons x xs ih =>
    rw [List.foldl_cons, ih]
    cases x <;> simp [PlainOp.act, PlainOp.store?, List.filterMap_cons, applyStores, applyStore]

theorem plainAll_dispatched (es : List CpuEffect) (p : Plain) :
    (plainAll PlainOp.act es p).dispatched =
      p.dispatched + (plains es).countP PlainOp.isDispatch := by
  simp only [plainAll]
  generalize plains es = xs
  induction xs generalizing p with
  | nil => simp
  | cons x xs ih =>
    rw [List.foldl_cons, ih]
    cases x <;> simp [PlainOp.act, PlainOp.isDispatch, List.countP_cons, Nat.add_comm,
      Nat.add_left_comm]

theorem plainAll_hcf (es : List CpuEffect) (p : Plain) :
    (plainAll PlainOp.act es p).hcf = (p.hcf || (plains es).any PlainOp.isHcf) := by
  simp only [plainAll]
  generalize plains es = xs
  induction xs generalizing p with
  | nil => simp
  | cons x xs ih =>
    rw [List.foldl_cons, ih]
    cases x <;> simp [PlainOp.act, PlainOp.isHcf]

theorem Callback.keep [WideShift] {X : Type} (π : Plain → X) (ls : List Listener) (s : Latched)
    {cb : Callback} (hcb : cb ∈ Callback.registered)
    (hx : ∀ x : PlainOp, cb ∈ x.owners → ∀ p, π (x.act p) = π p) (p' p : Plain) :
    π (plainAll PlainOp.act (cb.effects ls s p') p) = π p := by
  have hall : ∀ x ∈ plains (cb.effects ls s p'), ∀ p, π (x.act p) = π p := by
    intro x hm
    refine hx x ?_
    have := cb.owned s ls p' hcb _ (mem_plains.1 hm)
    simpa [owners] using this
  simp only [plainAll]
  revert hall
  generalize plains (cb.effects ls s p') = xs
  intro hall
  induction xs generalizing p with
  | nil => rfl
  | cons x xs ih =>
    rw [List.foldl_cons, ih _ fun y hy => hall y (List.mem_cons_of_mem _ hy)]
    exact hall x List.mem_cons_self p

section
variable [WideShift]

/-- The effects of a callback in a tick that starts with `p₀`, where `p` is the
    in-place state that fetch and dispatch find. Only they depend on the order. -/
def Callback.tickEffects (ls : List Listener) (s : Latched) (p₀ p : Plain) (cb : Callback) :
    List CpuEffect :=
  cb.effects ls s (if cb = .instUnitTick then p else p₀)

/-- A tick of the CPU from `c` to `c'`, seen without the order of its
    callbacks. -/
structure Tick (ls : List Listener) (c c' : Cpu) (p : Plain) : Prop where
  write : ∀ {cb : Callback} {r : CpuReg} {v : r.type}, cb ∈ Callback.registered →
    .write r v ∈ cb.tickEffects ls (latch c) c.plain p → c'.next r = v
  keep : ∀ {r : CpuReg},
    (∀ cb ∈ Callback.registered, cb ∈ r.owners → ∀ v : r.type,
      .write r v ∉ cb.tickEffects ls (latch c) c.plain p) →
    c'.next r = (latchNext c).next r
  reduced : ∀ {x : CpuOr}, c'.reduced x = true ↔
    ∃ cb ∈ Callback.registered, cb ∈ x.owners ∧
      .reduce x true ∈ cb.tickEffects ls (latch c) c.plain p
  noFail : ∀ cb ∈ Callback.registered, ∀ f,
    .fail f ∉ cb.tickEffects ls (latch c) c.plain p
  data : c'.plain.data =
    applyStores c.plain.data (storesOf (TomasuloCpu.memTick (latch c) c.plain.data))
  fetched : p.data = c.plain.data ∨ p.data = c'.plain.data
  seq : p.dispatched = c.plain.dispatched
  dispatched : c'.plain.dispatched = c.plain.dispatched +
    (plains (TomasuloCpu.instUnitTick (latch c) p)).countP PlainOp.isDispatch
  hcf : c'.plain.hcf = (c.plain.hcf ||
    (plains (TomasuloCpu.robUnitTick (latch c))).any PlainOp.isHcf)
  mem_log : ∀ {e : Event}, e ∈ c'.plain.log ↔ e ∈ c.plain.log ∨
    ∃ cb ∈ Callback.registered, cb ∈ e.owners ∧
      .plain (.log e) ∈ cb.tickEffects ls (latch c) c.plain p
  /-- The observations of one callback, in order. -/
  log : ∀ {X : Type} {cb : Callback} {f : Event → Option X}, cb ∈ Callback.registered →
    (∀ e, f e ≠ none → e.owners = [cb]) →
    c'.plain.log.filterMap f = c.plain.log.filterMap f ++
      (logsOf (cb.tickEffects ls (latch c) c.plain p)).filterMap f

omit [WideShift] in
theorem Callback.registered_nodup : Callback.registered.Nodup := by decide

namespace PlainOp
variable {x : PlainOp}

omit [WideShift] in
theorem act_data (hx : ∃ d ∈ x.owners, d ≠ .memTick) (p : Plain) :
    (x.act p).data = p.data := by
  cases x <;> simp_all [owners, act]

omit [WideShift] in
theorem act_bp (hx : ∃ d ∈ x.owners, d ≠ .robUnitTick) (p : Plain) :
    (x.act p).bp = p.bp := by
  cases x <;> simp_all [owners, act]

omit [WideShift] in
theorem act_commitCount (hx : ∃ d ∈ x.owners, d ≠ .robUnitTick) (p : Plain) :
    (x.act p).commitCount = p.commitCount := by
  cases x <;> simp_all [owners, act]

omit [WideShift] in
theorem act_hcf (hx : ∃ d ∈ x.owners, d ≠ .robUnitTick) (p : Plain) :
    (x.act p).hcf = p.hcf := by
  cases x <;> simp_all [owners, act]

omit [WideShift] in
theorem act_dispatched (hx : ∃ d ∈ x.owners, d ≠ .instUnitTick) (p : Plain) :
    (x.act p).dispatched = p.dispatched := by
  cases x <;> simp_all [owners, act]

end PlainOp

section
variable {o : Schedule} {c c' : Cpu}

def cpuPlainAt (o : Schedule) (c : Cpu) (cb : Callback) : Plain :=
  plainAt PlainOp.act (fun cb p => cb.effects o.listeners (latch c) p) o.callbacks c.plain cb

omit [WideShift] in
theorem Schedule.nodup (o : Schedule) : o.callbacks.Nodup :=
  o.callbacks_perm.nodup_iff.2 Callback.registered_nodup

omit [WideShift] in
theorem Schedule.mem_iff (o : Schedule) (cb : Callback) :
    cb ∈ o.callbacks ↔ cb ∈ Callback.registered :=
  o.callbacks_perm.mem_iff

theorem cpuPlainAt_owner {X : Type} (π : Plain → X) (cb : Callback)
    (hx : ∀ x : PlainOp, (∃ d ∈ x.owners, d ≠ cb) → ∀ p, π (x.act p) = π p) :
    π (cpuPlainAt o c cb) = π c.plain :=
  plainAt_owner π cb (fun d hd hne p =>
    d.keep π o.listeners (latch c) ((o.mem_iff d).1 hd) (fun x hm => hx x ⟨d, hm, hne⟩) p p) _

theorem plainAfter_owner_eq {X : Type} (π : Plain → X) {cb : Callback}
    (hcb : cb ∈ Callback.registered)
    (hx : ∀ x : PlainOp, (∃ d ∈ x.owners, d ≠ cb) → ∀ p, π (x.act p) = π p)
    (h : cpuTick o c = .ok c') :
    π c'.plain = π (plainAll PlainOp.act
      (cb.effects o.listeners (latch c) (cpuPlainAt o c cb)) (cpuPlainAt o c cb)) := by
  rw [cpuTick, run_eq o.nodup] at h
  rw [applyAll_plain h, plainAll_effectsOf o.nodup]
  exact plainAfter_of_owner π ((o.mem_iff cb).2 hcb) (fun d hd hne p =>
    d.keep π o.listeners (latch c) ((o.mem_iff d).1 hd) (fun x hm => hx x ⟨d, hm, hne⟩) p p)
    o.nodup _

theorem cpuPlainAt_data (cb : Callback) : (cpuPlainAt o c cb).data = c.plain.data ∨
    (cpuPlainAt o c cb).data =
      applyStores c.plain.data (storesOf (TomasuloCpu.memTick (latch c) c.plain.data)) := by
  have hown : ∀ p : Plain, (plainAll PlainOp.act
      (Callback.effects o.listeners (latch c) p .memTick) p).data =
        (fun d => applyStores d (storesOf (TomasuloCpu.memTick (latch c) d))) p.data :=
    fun _ => plainAll_data _ _
  exact plainAt_cases Plain.data .memTick
    (fun d => applyStores d (storesOf (TomasuloCpu.memTick (latch c) d))) hown
    (fun d hd hne p => d.keep _ o.listeners (latch c) ((o.mem_iff d).1 hd)
      (fun x hm => PlainOp.act_data ⟨d, hm, hne⟩) p p) o.nodup _ _

theorem cpuPlainAt_dispatched : (cpuPlainAt o c .instUnitTick).dispatched = c.plain.dispatched :=
  cpuPlainAt_owner Plain.dispatched .instUnitTick fun _ hx => PlainOp.act_dispatched hx

/-- A callback other than fetch and dispatch does not depend on the order. -/
theorem effects_cpuPlainAt (cb : Callback) :
    cb.effects o.listeners (latch c) (cpuPlainAt o c cb) =
      cb.tickEffects o.listeners (latch c) c.plain (cpuPlainAt o c .instUnitTick) := by
  cases cb with
  | memTick =>
    have hd : (cpuPlainAt o c .memTick).data = c.plain.data :=
      cpuPlainAt_owner Plain.data .memTick fun _ hx => PlainOp.act_data hx
    simp [Callback.tickEffects, Callback.effects, hd]
  | queueTick q => cases q <;> rfl
  | _ => rfl

theorem mem_effectsOf {e : CpuEffect} :
    e ∈ effectsOf PlainOp.act (fun cb p => cb.effects o.listeners (latch c) p) o.callbacks
        c.plain ↔
      ∃ cb ∈ Callback.registered,
        e ∈ cb.tickEffects o.listeners (latch c) c.plain (cpuPlainAt o c .instUnitTick) := by
  simp only [effectsOf, List.mem_flatMap, o.mem_iff]
  refine exists_congr fun cb => and_congr_right fun _ => ?_
  rw [← effects_cpuPlainAt]
  rfl

theorem tickEffects_owned {cb : Callback} (hcb : cb ∈ Callback.registered) (p : Plain) :
    Owned cb (cb.tickEffects o.listeners (latch c) c.plain p) :=
  cb.owned _ _ _ hcb

theorem Tick.of_cpuTick (h : cpuTick o c = .ok c') :
    Tick o.listeners c c' (cpuPlainAt o c .instUnitTick) := by
  have h' := h
  rw [cpuTick, run_eq o.nodup] at h'
  have hdata : c'.plain.data =
      applyStores c.plain.data (storesOf (TomasuloCpu.memTick (latch c) c.plain.data)) := by
    have hx : ∀ x : PlainOp, (∃ d ∈ x.owners, d ≠ .memTick) → ∀ p, (x.act p).data = p.data :=
      fun _ => PlainOp.act_data
    have hd := cpuPlainAt_owner (o := o) (c := c) Plain.data .memTick hx
    rw [plainAfter_owner_eq Plain.data (by decide) hx h, plainAll_data, hd]
    simp only [Callback.effects, hd]
  refine
    { write := fun {cb r v} hcb hm => applyAll_next_of_mem h' (mem_effectsOf.2 ⟨cb, hcb, hm⟩)
      keep := fun {r} hk => applyAll_next_of_not_mem h' fun v hm => ?_
      reduced := fun {x} => ?_
      noFail := fun cb hcb f hm => applyAll_no_fail h' f (mem_effectsOf.2 ⟨cb, hcb, hm⟩)
      data := hdata
      fetched := ?_
      seq := ?_
      dispatched := ?_
      hcf := ?_
      mem_log := fun {e} => ?_
      log := fun {X cb f} hcb hf => ?_ }
  · obtain ⟨cb, hcb, hm⟩ := mem_effectsOf.1 hm
    refine hk cb hcb ?_ v hm
    simpa [owners] using tickEffects_owned hcb _ _ hm
  · rw [applyAll_reduced h']
    simp only [latchNext, Bool.false_eq_true, false_or, mem_effectsOf]
    refine exists_congr fun cb => and_congr_right fun hcb => ?_
    constructor
    · intro hm
      exact ⟨by simpa [owners] using tickEffects_owned hcb _ _ hm, hm⟩
    · exact And.right
  · rw [hdata]
    exact cpuPlainAt_data .instUnitTick
  · exact cpuPlainAt_dispatched
  · have hx : ∀ x : PlainOp, (∃ d ∈ x.owners, d ≠ .instUnitTick) →
        ∀ p, (x.act p).dispatched = p.dispatched := fun _ => PlainOp.act_dispatched
    rw [plainAfter_owner_eq Plain.dispatched (by decide) hx h, plainAll_dispatched,
      cpuPlainAt_owner Plain.dispatched .instUnitTick hx]
    rfl
  · have hx : ∀ x : PlainOp, (∃ d ∈ x.owners, d ≠ .robUnitTick) →
        ∀ p, (x.act p).hcf = p.hcf := fun _ => PlainOp.act_hcf
    rw [plainAfter_owner_eq Plain.hcf (by decide) hx h, plainAll_hcf,
      cpuPlainAt_owner Plain.hcf .robUnitTick hx]
    rfl
  · rw [applyAll_plain h', plainAll_log, List.mem_append, mem_logsOf]
    simp only [latchNext, mem_effectsOf]
    refine or_congr_right (exists_congr fun cb => and_congr_right fun hcb => ?_)
    constructor
    · intro hm
      exact ⟨by simpa [owners, PlainOp.owners] using tickEffects_owned hcb _ _ hm, hm⟩
    · exact And.right
  · have hx : ∀ x : PlainOp, (∃ d ∈ x.owners, d ≠ cb) →
        ∀ p, (x.act p).log.filterMap f = p.log.filterMap f := by
      rintro x ⟨d, hd, hne⟩ p
      cases x with
      | log e =>
        have he : f e = none := by
          by_contra he
          rw [PlainOp.owners, hf e he, List.mem_singleton] at hd
          exact hne hd
        simp [PlainOp.act, he]
      | _ => rfl
    rw [plainAfter_owner_eq (fun p => p.log.filterMap f) hcb hx h, plainAll_log,
      List.filterMap_append, cpuPlainAt_owner (fun p => p.log.filterMap f) cb hx,
      effects_cpuPlainAt]

end

end

end TomasuloCpu
