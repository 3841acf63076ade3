import TomasuloCpu.BranchPredictor
import TomasuloCpu.RegStore
import TomasuloCpu.ReservationStation

set_option autoImplicit false

/-!
# The reorder buffer

`reorder-buffer.c`.
-/
namespace TomasuloCpu
open Clocked

def robIsMispredicted (payload : RobPayload) : Bool :=
  if payload.op = .branch then boolWord payload.predictedTake.take != payload.value
  else payload.predictedAddr != (payload.addr &&& ~~~(1 : Word))

def robAddr (payload : RobPayload) : Addr :=
  if payload.op = .branch then payload.fallback else payload.addr &&& ~~~(1 : Word)

def robUnitClear : List CpuEffect := liftRobs queueClear

def instUnitForcePc (pc : Addr) : List CpuEffect := [.write .forcePc ⟨true, pc⟩]

/-- The clears of `_rob_commit` after a misprediction. -/
def robFlush (data : RobPayload) : List CpuEffect :=
  instUnitForcePc (robAddr data) ++ regFileClear ++ robUnitClear ++ rsUnitClear ++
    lsQueueClear ++ busClear ++ memClear

/-- The end of `_rob_commit` when `success` is set. -/
def robRetire (s : Latched) (rob : RobId) (data : RobPayload) : List CpuEffect :=
  (if data.dest ≥ 0 then regStoreRobIdClear data.dest rob else []) ++
    [.write (.robReady (robSlot rob)) false] ++
    liftRobs ((queuePop robCapacity s.rm.robs).elim [] Prod.fst) ++
    [.plain (.log (.retire rob data))]

def robStorePayload (data : RobPayload) : LsQueuePayload where
  op := .store
  addr := data.addr
  size := data.size
  baseMsg := .zero
  cleared := false
  value := data.value

def robCommit (s : Latched) (rob : RobId) : List CpuEffect :=
  let data : RobPayload := s.rm.robPayload (robSlot rob)
  let mispredicted := robIsMispredicted data
  .plain .countCommit ::
    match data.op with
    | .branch =>
      (if data.dest ≥ 0 then regStoreSet data.dest data.value else []) ++
        [.plain (.bpFeedback data.pc data.predictedTake (data.value != 0))] ++
        (if mispredicted then robFlush data else []) ++ robRetire s rob data
    | .jalr =>
      (if data.dest ≥ 0 then regStoreSet data.dest data.value else []) ++
        [.plain (.bpFeedbackJalr data.pc (data.addr &&& ~~~(1 : Word)) !mispredicted)] ++
        (if mispredicted then robFlush data else []) ++ robRetire s rob data
    | .register => regStoreSet data.dest data.value ++ robRetire s rob data
    | .store =>
      if lsQueueFull s then []
      else lsQueuePush s (robStorePayload data) ++ robRetire s rob data
    | .hcf => [.plain .hcf, .plain (.log (.halt rob data))]

def robUnitTick (s : Latched) : List CpuEffect :=
  if s.rm.robs.clear then []
  else if queueEmpty s.rm.robs then []
  else
    match queueFirst s.rm.robs with
    | none => [.fail .outOfBounds]
    | some slot => if !s.rm.robReady slot then [] else robCommit s (robId slot)

def robMsgPayload (data : RobPayload) (msg : CdbMessage) : RobPayload :=
  if data.op = .jalr then { data with addr := msg.result } else { data with value := msg.result }

def robUnitOnmsg (s : Latched) (msg : CdbMessage) : List CpuEffect :=
  if s.rm.robs.clear then []
  else
    (queueForeach robCapacity s.rm.robs).flatMap fun slot =>
      if msg.rob = robId slot then
        [.write (.robPayload slot) (robMsgPayload (s.rm.robPayload slot) msg),
          .write (.robReady slot) true]
      else []

def robUnitFull (s : Latched) : Bool := queueFull robCapacity s.rm.robs

def robUnitAcquire (s : Latched) : Option (List CpuEffect × ℤ) :=
  (queuePush robCapacity s.rm.robs).map fun (ws, slot) =>
    (liftRobs ws ++ [.write (.robs (.data slot)) ()], slot)

end TomasuloCpu
