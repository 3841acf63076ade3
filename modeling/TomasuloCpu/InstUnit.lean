import TomasuloCpu.ReorderBuffer

set_option autoImplicit false

/-!
# Fetch and dispatch

`inst-unit.c` and `inst-dispatch.c`.
-/
namespace TomasuloCpu
open Clocked

variable [WideShift]

/-- What `_inst_reg_set` stores through its two pointers; `route` tells from
    where a value of a renamed register came. -/
structure Operand where
  src : RobId
  value : Word
  route : Option Route

def instRegSet (s : Latched) (id : RegId) : Operand :=
  if id = 0 then ⟨0, 0, none⟩
  else
    let rob := regStoreRobIdGet s id
    if rob = 0 then ⟨0, regStoreGet s id, none⟩
    else if s.rm.robReady (robSlot rob) then
      ⟨0, (s.rm.robPayload (robSlot rob)).value, some .entry⟩
    else
      match busGetData s with
      | some cdb => if cdb.rob = rob then ⟨0, cdb.result, some .bus⟩ else ⟨rob, 0, none⟩
      | none => ⟨rob, 0, none⟩

def instRegLog (s : Latched) (seq : ℕ) (id : RegId) : List CpuEffect :=
  let op := instRegSet s id
  let rob := regStoreRobIdGet s id
  match op.route with
  | none => []
  | some route =>
    [.plain (.log (.capture seq id route rob (s.rm.robPayload (robSlot rob)).seq op.value))]

def instJalrPrediction (s : Latched) (inst : Inst) : Addr :=
  let rob := regStoreRobIdGet s inst.rs1
  let curr :=
    if rob > 0 then
      if s.rm.robReady (robSlot rob) then (s.rm.robPayload (robSlot rob)).value
      else regStoreGet s inst.rs1
    else regStoreGet s inst.rs1
  signedAdd curr inst.immediate &&& ~~~(1 : Word)

def hasDest (inst : Inst) : Bool := inst.format ≠ .s && inst.format ≠ .b

/-- The reorder buffer payload that dispatch leaves, over the old contents. -/
def dispatchRobPayload (s : Latched) (predicted : BpResult) (seq : ℕ) (rs : RsId)
    (inst : Inst) (pc : Addr) (old : RobPayload) : RobPayload :=
  let data : RobPayload := { old with
    op := instRobOp inst
    addrReady := false
    valueReady := false
    rs := rs
    size := instLsOp inst
    pc := pc
    dest := if hasDest inst then inst.rd else -1
    seq := seq
    inst := inst }
  match inst.format with
  | .i =>
    if inst.opcode = Opcode.jalr then
      { data with predictedAddr := instJalrPrediction s inst, value := pc + instSize }
    else data
  | .b =>
    { data with
      predictedTake := predicted
      fallback := if predicted.take then pc + instSize else signedAdd pc inst.immediate }
  | _ => data

def dispatchRsPayload (s : Latched) (seq : ℕ) (rob : RobId) (inst : Inst) (pc : Addr)
    (old : RsPayload) : RsPayload :=
  let data : RsPayload := { old with
    dest := rob, opAlu := instAluOp inst, opLs := instLsOp inst, seq := seq }
  let op1 := instRegSet s inst.rs1
  let op2 := instRegSet s inst.rs2
  match inst.format with
  | .i =>
    if inst.opcode = Opcode.load then
      { data with src1 := op1.src, value1 := op1.value, addr := inst.immediate }
    else if inst.opcode = Opcode.jalr then
      { data with
        opAlu := AluOp.add, src1 := op1.src, value1 := op1.value
        src2 := 0, value2 := inst.immediate }
    else
      { data with src1 := op1.src, value1 := op1.value, value2 := inst.immediate, src2 := 0 }
  | .u =>
    { data with
      opAlu := AluOp.add, src1 := 0, src2 := 0, value2 := 0
      value1 := if inst.op = Opcode.lui then inst.immediate else signedAdd pc inst.immediate }
  | .j =>
    { data with
      opAlu := AluOp.add, src1 := 0, src2 := 0, value1 := pc + instSize, value2 := 0 }
  | .s =>
    { data with
      addr := inst.immediate, src1 := op1.src, value1 := op1.value
      src2 := op2.src, value2 := op2.value }
  | _ =>
    { data with
      src1 := op1.src, value1 := op1.value, src2 := op2.src, value2 := op2.value }

def dispatchOperands (inst : Inst) : List RegId :=
  match inst.format with
  | .i => [inst.rs1]
  | .u | .j | .unimp => []
  | .r | .b | .s => [inst.rs1, inst.rs2]

/-- The address that `inst_dispatch` returns. -/
def dispatchNext (s : Latched) (predicted : BpResult) (inst : Inst) (pc : Addr) : Addr :=
  match inst.format with
  | .i =>
    if inst.opcode = Opcode.jalr then instJalrPrediction s inst
    else pc + instSize
  | .j => signedAdd pc inst.immediate
  | .b => if predicted.take then signedAdd pc inst.immediate else pc + instSize
  | _ => pc + instSize

def dispatchAsserts (inst : Inst) : Bool :=
  match inst.format with
  | .i =>
    inst.opcode = Opcode.load || inst.opcode = Opcode.jalr || inst.opcode = Opcode.imm ||
      inst.op = InstOp.hcf
  | .u => inst.op = Opcode.lui || inst.op = Opcode.auipc
  | .j => inst.op = InstOp.jal
  | .r | .b | .s => true
  | .unimp => false

def instDispatch (s : Latched) (predicted : BpResult) (seq : ℕ) (rs : RsId) (slot : ℤ)
    (inst : Inst) (pc : Addr) : List CpuEffect :=
  [.write (.rsBusy rs) true, .write (.robReady slot) false,
    .write (.robPayload slot)
      (dispatchRobPayload s predicted seq rs inst pc (s.rm.robPayload slot)),
    .write (.rsPayload rs)
      (dispatchRsPayload s seq (robId slot) inst pc (s.rm.rsPayload rs))] ++
  (if hasDest inst then regStoreRobIdSet inst.rd (robId slot) else []) ++
  (dispatchOperands inst).flatMap (instRegLog s seq) ++
  (if dispatchAsserts inst then [] else [.fail .assertion]) ++
  [.plain .countDispatch]

def instUnitTick (s : Latched) (p : Plain) : List CpuEffect :=
  let force : ForcePc := s.rm.forcePc
  if force.busy then
    [.write .forcePc { force with busy := false }, .write .pc force.addr]
  else if robUnitFull s then []
  else
    let pc : Addr := s.rm.pc
    let inst := instDecode (memGetInst p.data pc)
    if inst.op = InstOp.unimp then []
    else
      match rsUnitAcquire s (instType inst) with
      | none => []
      | some rs =>
        match robUnitAcquire s with
        | none => [.fail .outOfBounds]
        | some (es, slot) =>
          let predicted := branchPredict p.bp pc
          es ++ instDispatch s predicted p.dispatched rs slot inst pc ++
            [.write .pc (dispatchNext s predicted inst pc)]

end TomasuloCpu
