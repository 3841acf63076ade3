import TomasuloCpu.Tick

set_option autoImplicit false

/-!
# What a tick decides

The decisions that the callbacks take on the latched registers: which message is
delivered, what retires, what is dispatched, which stations issue, and what the
helpers of the bus are handed.
-/
namespace TomasuloCpu
open Clocked

theorem robSlot_robId (slot : ℤ) : robSlot (robId slot) = slot := by simp [robSlot, robId]

theorem robId_robSlot (id : RobId) : robId (robSlot id) = id := by simp [robSlot, robId]

theorem robId_inj {i j : ℤ} : robId i = robId j ↔ i = j := by simp [robId]

attribute [simp] robSlot_robId robId_robSlot robId_inj

namespace Latched
variable (s : Latched)

def delivered : Option CdbMessage := if s.rm.busClear ≠ 0 then none else busGetData s

def robs : List ℤ := queueForeach robCapacity s.rm.robs

def lsq : List ℤ := queueForeach lsQueueCapacity s.rm.lsq

def head : RobPayload := s.rm.robPayload s.rm.robs.head

/-- Whether `_rob_commit` is called. -/
def commits : Bool :=
  !s.rm.robs.clear && !queueEmpty s.rm.robs && s.rm.robReady s.rm.robs.head

/-- Whether `_rob_commit` pops the head. -/
def retires : Bool :=
  s.commits && match s.head.op with
    | .store => !lsQueueFull s
    | .hcf => false
    | _ => true

def flushes : Bool :=
  s.commits && (s.head.op = .branch || s.head.op = .jalr) && robIsMispredicted s.head

def storesHead : Bool := s.commits && s.head.op = .store && !lsQueueFull s

def writesHead : Bool :=
  s.commits && (s.head.op = .register ||
    (s.head.op = .branch || s.head.op = .jalr) && s.head.dest ≥ 0) && s.head.dest ≠ 0

def dispatch (p : Plain) : Option (RsId × Inst) :=
  if s.rm.forcePc.busy || robUnitFull s then none
  else
    let inst := instDecode (memGetInst p.data s.rm.pc)
    if inst.op = InstOp.unimp then none
    else (rsUnitAcquire s (instType inst)).map fun rs => (rs, inst)

/-- A busy station with both operands. -/
def ready (rs : RsId) : Bool :=
  s.rm.rsBusy rs && (s.rm.rsPayload rs).src1 = 0 && (s.rm.rsPayload rs).src2 = 0

/-- The station that `_rsu_check_alu` offers to ALU `a`. -/
def aluPick (a : ℕ) : Option RsId :=
  if s.rm.rsClear then none
  else if a < aluCount then (aluStations.filter s.ready)[a]? else none

def aluFrees (a : ℕ) : Option RsId :=
  if bhShouldStall s (aluHelper a) && !bhShouldClear s then none else s.aluPick a

def aluStarts (a : ℕ) : Option RsId := if bhShouldClear s then none else s.aluFrees a

def loadBlocked (rs : RsId) : Option Bool :=
  rsuBlocking s (rsCalcAddr (s.rm.rsPayload rs)) (s.rm.rsPayload rs).opLs
    (s.rm.rsPayload rs).dest s.robs

def loadPick : Option RsId :=
  if s.rm.rsClear || lsQueueFull s then none
  else loadBuffers.find? fun rs => s.ready rs && s.loadBlocked rs != some true

/-- Whether `_rsu_check_store` finds something to put into the entry of a store. -/
def storeReady (rs : RsId) : Bool :=
  let data : RsPayload := s.rm.rsPayload rs
  let old : RobPayload := s.rm.robPayload (robSlot data.dest)
  s.rm.rsBusy rs && ((!old.addrReady && data.src1 = 0) || (!old.valueReady && data.src2 = 0))

def storePick : Option RsId :=
  if s.rm.rsClear || lsQueueFull s then none else storeBuffers.find? s.storeReady

def storeEntry (rs : RsId) : RobPayload :=
  rsStorePayload (s.rm.rsPayload rs) (s.rm.robPayload (robSlot (s.rm.rsPayload rs).dest))

def storeFrees : Option RsId :=
  s.storePick.filter fun rs => (s.storeEntry rs).addrReady && (s.storeEntry rs).valueReady

def lsqPop : Option ℤ :=
  if s.rm.lsqClear || s.rr .lockStall || queueEmpty s.rm.lsq then none else some s.rm.lsq.head

def lsqPush : Option LsQueuePayload :=
  match s.loadPick with
  | some rs => some (rsLoadPayload (s.rm.rsPayload rs))
  | none => if s.storesHead then some (robStorePayload s.head) else none

/-- The request that `_ls_queue_tick` hands to memory. -/
def lsqIssue : Option LsQueuePayload :=
  (s.lsqPop.map fun slot => s.rm.lsq.data slot).filter fun data => !data.cleared

def issuesLoad : Option LsQueuePayload := s.lsqIssue.filter fun data => data.op = .load

def issuesStore : Option LsQueuePayload := s.lsqIssue.filter fun data => data.op = .store

def loadSlot : Option ℕ := memAcquire fun i => s.rr (.loadBusy i)

def storeSlot : Option ℕ := memAcquire fun i => s.rr (.storeBusy i)

def acquired (h : ℕ) : Option ℤ := (bhAcquire s h).2

def memReady : Option ℕ :=
  if s.rm.memClear then none
  else memSlots.find? fun i => s.rr (.loadBusy i) && (s.rm.loadReq i).ticksRemaining - 1 ≤ 0

def memMsg (data : MemData) (i : ℕ) : Option CdbMessage :=
  (memGetSz data (s.rm.loadReq i).addr (s.rm.loadReq i).size).map fun result =>
    { (s.rm.loadReq i).baseMsg with result := result }

def memSends (data : MemData) : Option ℕ :=
  s.memReady.filter fun i => (s.acquired 0).isSome && (s.memMsg data i).isSome

variable [WideShift]

def aluMsg (a : ℕ) : Option CdbMessage :=
  if bhShouldClear s then none
  else if (s.rm.resultBuf a).busy then some (s.rm.resultBuf a).msg
  else if s.rr (.aluBusy a) then
    let task : AluTask := s.rm.aluTask a
    (aluExecute task.op task.value1 task.value2).map fun result =>
      { task.baseMsg with result := result }
  else none

def outbox (data : MemData) : ℕ → Option CdbMessage
  | 0 => s.memReady.bind (s.memMsg data)
  | a + 1 => s.aluMsg a

end Latched

end TomasuloCpu
