import TomasuloCpu.Step

set_option autoImplicit false

/-!
# What a tick observes

The observations of a tick in terms of the decisions it takes, and the order of
those that one callback makes.
-/
namespace TomasuloCpu
open Clocked

variable [WideShift]

def Logged (s : Latched) (data : MemData) (p : Plain) : Event → Prop
  | .retire rob payload => s.retires = true ∧ rob = robId s.rm.robs.head ∧ payload = s.head
  | .halt rob payload => s.commits = true ∧ s.head.op = .hcf ∧ rob = robId s.rm.robs.head ∧
      payload = s.head
  | .capture seq reg route rob producer value =>
      (s.rm.rsClear = false ∧ route = .listener ∧ ∃ msg, s.delivered = some msg ∧
        rob = msg.rob ∧ producer = msg.seq ∧ value = msg.result ∧
        ∃ id ∈ stations, s.rm.rsBusy id = true ∧ seq = (s.rm.rsPayload id).seq ∧
          (((s.rm.rsPayload id).src1 = msg.rob ∧
              reg = (s.rm.robPayload (robSlot (s.rm.rsPayload id).dest)).inst.rs1) ∨
            ((s.rm.rsPayload id).src2 = msg.rob ∧
              reg = (s.rm.robPayload (robSlot (s.rm.rsPayload id).dest)).inst.rs2))) ∨
      (∃ rs inst, s.dispatch p = some (rs, inst) ∧ reg ∈ dispatchOperands inst ∧
        (instRegSet s reg).route = some route ∧ seq = p.dispatched ∧
        rob = regStoreRobIdGet s reg ∧
        producer = (s.rm.robPayload (robSlot (regStoreRobIdGet s reg))).seq ∧
        value = (instRegSet s reg).value)
  | .pushLoad rob seq addr size => ∃ rs, s.loadPick = some rs ∧ s.loadBlocked rs = some false ∧
      rob = (s.rm.rsPayload rs).dest ∧ seq = (s.rm.rsPayload rs).seq ∧
      addr = rsCalcAddr (s.rm.rsPayload rs) ∧ size = (s.rm.rsPayload rs).opLs
  | .issueStore i => s.issuesStore.isSome ∧ s.storeSlot = some i
  | .load addr size msg => ∃ i, s.memReady = some i ∧ (s.acquired 0).isSome ∧
      s.memMsg data i = some msg ∧ addr = (s.rm.loadReq i).addr ∧ size = (s.rm.loadReq i).size
  | .store i addr value size => s.rm.memClear = false ∧ i ∈ memSlots ∧ memStoreDone s i = true ∧
      addr = (s.rm.storeReq i).addr ∧ value = (s.rm.storeReq i).value ∧
      size = (s.rm.storeReq i).size
  | .heard _ _ => False

section
variable {ls : List Listener} {s : Latched} {q p : Plain}
variable (hf : ∀ cb ∈ Callback.registered, ∀ f, Effect.fail f ∉ Callback.tickEffects ls s q p cb)
variable (hls : ls.Perm Listener.registered)
include hf hls

theorem logs_iff {e : Event} :
    (∃ cb ∈ Callback.registered, cb ∈ e.owners ∧
      Effect.plain (.log e) ∈ Callback.tickEffects ls s q p cb) ↔ Logged s q.data p e := by
  have hswap : (∃ cb ∈ Callback.registered, cb ∈ e.owners ∧
      Effect.plain (.log e) ∈ Callback.tickEffects ls s q p cb) ↔
      ∃ cb ∈ e.owners, cb ∈ Callback.registered ∧
        Effect.plain (.log e) ∈ Callback.tickEffects ls s q p cb :=
    exists_congr fun cb => and_left_comm
  rw [hswap]
  cases e with
  | retire rob payload | halt rob payload =>
    simp [Event.owners, Callback.mem_registered, Callback.tickEffects, Callback.effects, Logged,
      mem_robUnitTick, mem_robFlush]
  | capture seq reg route rob producer value =>
    simp [Event.owners, Callback.mem_registered, Callback.tickEffects, Callback.effects, Logged,
      mem_busTick hls, mem_robUnitOnmsg, mem_rsOnmsg, rsCapture, mem_instUnitTick,
      mem_instDispatch, mem_instRegLog]
    refine or_congr_left ⟨?_, ?_⟩
    · rintro ⟨msg, hm, id, hid, hc, hb, ⟨hs, rfl, rfl, rfl, rfl, rfl, rfl⟩ |
        ⟨hs, rfl, rfl, rfl, rfl, rfl, rfl⟩⟩
      · exact ⟨hc, rfl, msg, hm, rfl, rfl, rfl, id, hid, hb, rfl, .inl ⟨hs, rfl⟩⟩
      · exact ⟨hc, rfl, msg, hm, rfl, rfl, rfl, id, hid, hb, rfl, .inr ⟨hs, rfl⟩⟩
    · rintro ⟨hc, rfl, msg, hm, rfl, rfl, rfl, id, hid, hb, rfl, ⟨hs, rfl⟩ | ⟨hs, rfl⟩⟩
      · exact ⟨msg, hm, id, hid, hc, hb, .inl ⟨hs, rfl, rfl, rfl, rfl, rfl, rfl⟩⟩
      · exact ⟨msg, hm, id, hid, hc, hb, .inr ⟨hs, rfl, rfl, rfl, rfl, rfl, rfl⟩⟩
  | pushLoad rob seq addr size =>
    simp [Event.owners, Callback.mem_registered, Callback.tickEffects, Callback.effects, Logged,
      mem_rsUnitTick]
  | issueStore i =>
    simp [Event.owners, Callback.mem_registered, Callback.tickEffects, Callback.effects, Logged,
      mem_lsQueueTick, mem_memRequestLoad, mem_memRequestStore, Option.isSome_iff_exists]
  | load addr size msg =>
    have hr : ∀ i, s.memReady = some i → s.rm.memClear = false := by
      intro i hi
      simp only [Latched.memReady] at hi
      cases hc : s.rm.memClear
      · rfl
      · simp [hc] at hi
    simp [Event.owners, Callback.mem_registered, Callback.tickEffects, Callback.effects, Logged,
      mem_memTick, mem_memSendEffects, mem_bhAcquire, mem_memStoreStep, Option.isSome_iff_exists]
    exact fun i hi _ _ _ _ _ => hr i hi
  | store i addr value size =>
    simp only [Event.owners, List.mem_singleton, exists_eq_left, Callback.mem_registered,
      true_and, Callback.tickEffects, Callback.effects, Logged, mem_memTick, mem_memSendEffects,
      mem_bhAcquire, mem_memStoreStep]
    simp
    refine fun hc hi => ⟨fun h => h.2.imp_right And.right, fun h => ?_⟩
    have hb : s.rr (.storeBusy i) = true := by
      have := h.1
      simp only [memStoreDone, Bool.and_eq_true] at this
      exact this.1
    exact ⟨hb, h.1, memStoreDone_ok hf hi hc h.1, h.2⟩
  | heard l msg => simp [Event.owners, Logged]

end

omit [WideShift]

section
variable {es : List CpuEffect}

@[simp] theorem logsOf_nil : logsOf [] = [] := rfl
@[simp] theorem logsOf_write {r : CpuReg} {v : r.type} :
    logsOf (.write r v :: es) = logsOf es := rfl
@[simp] theorem logsOf_reduce {x : CpuOr} {b : Bool} :
    logsOf (.reduce x b :: es) = logsOf es := rfl
@[simp] theorem logsOf_fail {f : Fault} : logsOf (.fail f :: es) = logsOf es := rfl
@[simp] theorem logsOf_log {e : Event} : logsOf (.plain (.log e) :: es) = e :: logsOf es := rfl

theorem logsOf_eq_nil (h : ∀ e ∈ es, ∀ x : Event, e ≠ .plain (.log x)) : logsOf es = [] :=
  List.eq_nil_iff_forall_not_mem.2 fun x hx => h _ (mem_logsOf.1 hx) x rfl

@[simp] theorem logsOf_liftRobs (ws : List (QueueWrite Unit)) : logsOf (liftRobs ws) = [] :=
  logsOf_eq_nil fun e he x => by
    obtain ⟨w, -, rfl⟩ := List.mem_map.1 he
    simp

@[simp] theorem logsOf_liftLsq (ws : List (QueueWrite LsQueuePayload)) :
    logsOf (liftLsq ws) = [] :=
  logsOf_eq_nil fun e he x => by
    obtain ⟨w, -, rfl⟩ := List.mem_map.1 he
    simp

end

namespace Event

def retired? : Event → Option RobPayload
  | .retire _ payload => some payload
  | _ => none

def halted? : Event → Option RobPayload
  | .halt _ payload => some payload
  | _ => none

def issued? : Event → Option ℕ
  | .issueStore i => some i
  | _ => none

def performed? : Event → Option (Addr × Word × LsSize)
  | .store _ addr value size => some (addr, value, size)
  | _ => none

end Event

namespace Plain
variable (q : Plain)

def retired : List RobPayload := q.log.filterMap Event.retired?

def halted : List RobPayload := q.log.filterMap Event.halted?

def issued : List ℕ := q.log.filterMap Event.issued?

def performed : List (Addr × Word × LsSize) := q.log.filterMap Event.performed?

end Plain

namespace Latched
variable (s : Latched)

def retired : Option RobPayload := if s.retires then some s.head else none

def halted : Option RobPayload := if s.commits && s.head.op = .hcf then some s.head else none

def issued : Option ℕ := if s.issuesStore.isSome then s.storeSlot else none

def storeIn (i : ℕ) : Addr × Word × LsSize :=
  ((s.rm.storeReq i).addr, (s.rm.storeReq i).value, (s.rm.storeReq i).size)

def performs : List ℕ := if s.rm.memClear then [] else memSlots.filter (memStoreDone s)

end Latched

variable {s : Latched}

theorem logsOf_robFlush {data : RobPayload} : logsOf (robFlush data) = [] :=
  logsOf_eq_nil fun e he x hx => by simp [mem_robFlush, hx] at he

theorem logsOf_robRetire {rob : RobId} {data : RobPayload} :
    logsOf (robRetire s rob data) = [.retire rob data] := by
  have hd : logsOf (if data.dest ≥ 0 then regStoreRobIdClear data.dest rob else []) = [] := by
    unfold regStoreRobIdClear
    split_ifs <;> rfl
  simp [robRetire, hd]

theorem logsOf_robUnitTick : logsOf (robUnitTick s) =
    s.retired.toList.map (.retire (robId s.rm.robs.head)) ++
      s.halted.toList.map (.halt (robId s.rm.robs.head)) := by
  rw [robUnitTick_eq]
  cases hc : s.commits
  · simp [Latched.retired, Latched.halted, Latched.retires, hc]
  · have hplain : ∀ (x : PlainOp) (es : List CpuEffect), (∀ e, x ≠ .log e) →
        logsOf (.plain x :: es) = logsOf es := fun x es hx => by
      cases x <;> first | rfl | exact absurd rfl (hx _)
    have hset : ∀ v, logsOf (regStoreSet s.head.dest v) = [] := fun v => by
      unfold regStoreSet
      split_ifs <;> rfl
    simp only [↓reduceIte, robCommit, Latched.robPayload_head, Latched.retired, Latched.halted,
      Latched.retires, hc]
    rw [hplain _ _ (by simp)]
    cases hop : s.head.op
    case register => simp [hset, logsOf_robRetire]
    case branch | jalr =>
      by_cases hn : 0 ≤ s.head.dest <;> cases robIsMispredicted s.head <;>
        simp [hn, hset, hplain, logsOf_robFlush, logsOf_robRetire]
    case store =>
      cases hf : lsQueueFull s
      · simp [lsQueuePush_eq _ hf, logsOf_robRetire]
      · simp
    case hcf => simp [hplain]

theorem logsOf_lsQueueTick : logsOf (lsQueueTick s) = s.issued.toList.map .issueStore := by
  unfold lsQueueTick Latched.issued Latched.issuesStore Latched.lsqIssue Latched.lsqPop
    busyWaitShouldStall
  cases hc : s.rm.lsqClear
  · cases hl : s.rr .lockStall
    · cases he : queueEmpty s.rm.lsq
      · rw [queuePop_of_not_empty he]
        have hload : ∀ data : LsQueuePayload,
            logsOf (memRequestLoad s data.addr data.size data.baseMsg) = [] := fun data => by
          unfold memRequestLoad
          split <;> rfl
        have hstore : ∀ data : LsQueuePayload,
            logsOf (memRequestStore s data.addr data.value data.size) =
              s.storeSlot.toList.map .issueStore := fun data => by
          unfold memRequestStore Latched.storeSlot
          split <;> simp [*]
        cases hcl : (s.rm.lsq.data s.rm.lsq.head).cleared <;>
          cases hop : (s.rm.lsq.data s.rm.lsq.head).op <;>
            simp [Option.filter, hcl, hop, busyWait, hload, hstore]
      · simp
    · simp
  · simp only [↓reduceIte, Bool.true_or, Option.map_none, Option.filter_none]
    refine logsOf_eq_nil fun e he x hx => ?_
    obtain ⟨slot, -, he⟩ := List.mem_flatMap.1 he
    split_ifs at he <;> simp [hx] at he

theorem plain_memLoads {data : MemData} {x : PlainOp}
    (h : .plain x ∈ (memLoads s data).effects) :
    ∃ addr size msg, x = .log (.load addr size msg) := by
  rw [memLoads, memLoadStep_foldl data memSlots _ memSlots_nodup] at h
  simp only [Bool.false_eq_true, ↓reduceIte, List.nil_append, List.mem_flatMap] at h
  obtain ⟨i, -, h⟩ := h
  split at h
  · rcases List.mem_cons.1 h with h | h
    · cases h
    · split at h
      · have h := mem_memSendEffects.1 h
        simp only [mem_bhAcquire] at h
        simp at h
        obtain ⟨-, msg, -, rfl⟩ := h
        exact ⟨_, _, msg, rfl⟩
      · cases h
  · cases h

variable {f : PlainOp → Option (Addr × Word × LsSize)} {i : ℕ}

/-- The store that a slot performs, through an observation of its effects that
    finds it once. -/
theorem filterMap_memStoreStep (hs : ∀ addr value size,
      ([PlainOp.memSetSz addr value size, .log (.store i addr value size)]).filterMap f =
        [(addr, value, size)])
    (hok : memStoreDone s i = true → memSetSz (fun _ => 0) (s.rm.storeReq i).addr
      (s.rm.storeReq i).value (s.rm.storeReq i).size ≠ none) :
    (plains (memStoreStep s i)).filterMap f =
      if memStoreDone s i then [s.storeIn i] else [] := by
  unfold memStoreStep
  cases hb : s.rr (.storeBusy i)
  · simp [memStoreDone, hb]
  · cases hd : memStoreDone s i
    · simp
    · have h := hok hd
      rw [← Option.isSome_iff_ne_none, Option.isSome_iff_exists] at h
      obtain ⟨data, h⟩ := h
      simp only [Bool.not_true, Bool.false_eq_true, ↓reduceIte, h, Option.isNone_some,
        plains_cons_write, plains_cons_plain, plains_nil]
      exact hs _ _ _

theorem filterMap_memTick {data : MemData}
    (hl : ∀ addr size msg, f (.log (.load addr size msg)) = none)
    (hs : ∀ i addr value size,
      ([PlainOp.memSetSz addr value size, .log (.store i addr value size)]).filterMap f =
        [(addr, value, size)])
    (hok : ∀ i ∈ memSlots, s.rm.memClear = false → memStoreDone s i = true →
      memSetSz (fun _ => 0) (s.rm.storeReq i).addr (s.rm.storeReq i).value
        (s.rm.storeReq i).size ≠ none) :
    (plains (memTick s data)).filterMap f = s.performs.map s.storeIn := by
  unfold memTick Latched.performs
  cases hc : s.rm.memClear
  · have hloads : (plains (memLoads s data).effects).filterMap f = [] := by
      refine List.filterMap_eq_nil_iff.2 fun x hx => ?_
      obtain ⟨addr, size, msg, rfl⟩ := plain_memLoads (mem_plains.1 hx)
      exact hl addr size msg
    have hstep : ∀ i ∈ memSlots, (plains (memStoreStep s i)).filterMap f =
        if memStoreDone s i then [s.storeIn i] else [] := fun i hi =>
      filterMap_memStoreStep (hs i) (hok i hi hc)
    have hslots : ∀ l : List ℕ, (∀ i ∈ l, i ∈ memSlots) →
        (plains (l.flatMap (memStoreStep s))).filterMap f =
          (l.filter (memStoreDone s)).map s.storeIn := by
      intro l hl
      induction l with
      | nil => rfl
      | cons i l ih =>
        have hi := hstep i (hl i List.mem_cons_self)
        have ih := ih fun j hj => hl j (List.mem_cons_of_mem _ hj)
        rw [List.flatMap_cons, plains_append, List.filterMap_append, hi, ih, List.filter_cons]
        split <;> simp
    simp only [Bool.false_eq_true, ↓reduceIte, plains_append, List.filterMap_append, hloads,
      List.nil_append, hslots memSlots fun _ h => h]
    simp [memSlots]
  · simp [memSlots]

variable {data : MemData} (hok : ∀ i ∈ memSlots, s.rm.memClear = false →
  memStoreDone s i = true → memSetSz (fun _ => 0) (s.rm.storeReq i).addr
    (s.rm.storeReq i).value (s.rm.storeReq i).size ≠ none)
include hok

theorem performed_memTick :
    (logsOf (memTick s data)).filterMap Event.performed? = s.performs.map s.storeIn := by
  rw [logsOf, List.filterMap_filterMap]
  exact filterMap_memTick (fun _ _ _ => rfl) (fun _ _ _ _ => rfl) hok

theorem storesOf_memTick : storesOf (memTick s data) = s.performs.map s.storeIn :=
  filterMap_memTick (fun _ _ _ => rfl) (fun _ _ _ _ => rfl) hok

end TomasuloCpu
