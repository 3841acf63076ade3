import TomasuloCpu.Inst
import TomasuloCpu.Library.Clocked

set_option autoImplicit false

/-!
# The registers of the CPU

Every `reg_mut_t` that `cpu_create` allocates has a name in `CpuReg`, with the
type of its contents, and every or-register a name in `CpuOr`. Arrays are
indexed as the source indexes them: reservation stations by their ids 1..23,
reorder buffer entries by slot (the entry of slot `i` has id `i + 1`), bus
helpers by arbitration order (memory first, then the two ALUs).

Three fields are history variables, which no function of the CPU reads:
`seq` numbers the dispatched instructions and labels everything that carries
the result of one, `inst` is the decoded instruction of a reorder buffer entry.
-/
namespace TomasuloCpu
open Clocked

def memSize : ℕ := 131072
def memTicks : ℤ := 3
def aluCount : ℕ := 2
def robCapacity : ℤ := 16
def lsQueueCapacity : ℤ := 8
def regCount : ℕ := 32

structure CdbMessage where
  rob : RobId
  result : Word
  seq : ℕ
  deriving DecidableEq, Repr

structure AluTask where
  op : AluOp
  value1 : Word
  value2 : Word
  baseMsg : CdbMessage
  deriving DecidableEq, Repr

structure AluResultBuf where
  msg : CdbMessage
  busy : Bool
  deriving DecidableEq, Repr

structure MemLoadRequest where
  addr : Addr
  size : LsSize
  baseMsg : CdbMessage
  ticksRemaining : ℤ
  deriving DecidableEq, Repr

/-- The `callback` of the source is left out: it is always the signal of the
    lock of the load-store queue. -/
structure MemStoreRequest where
  addr : Addr
  value : Word
  size : LsSize
  ticksRemaining : ℤ
  deriving DecidableEq, Repr

structure LsQueuePayload where
  op : LsOp
  addr : Addr
  size : LsSize
  baseMsg : CdbMessage
  cleared : Bool
  value : Word
  deriving DecidableEq, Repr

structure RsPayload where
  opAlu : AluOp
  opLs : LsSize
  value1 : Word
  value2 : Word
  src1 : RobId
  src2 : RobId
  dest : RobId
  addr : Addr
  seq : ℕ
  deriving DecidableEq, Repr

structure BpResult where
  take : Bool
  hist : ℤ
  deriving DecidableEq, Repr

structure RobPayload where
  op : RobOp
  value : Word
  rs : RsId
  pc : Addr
  dest : RegId
  size : LsSize
  addr : Addr
  addrReady : Bool
  valueReady : Bool
  fallback : Addr
  predictedTake : BpResult
  predictedAddr : Addr
  seq : ℕ
  inst : Inst
  deriving DecidableEq, Repr

structure ForcePc where
  busy : Bool
  addr : Addr
  deriving DecidableEq, Repr

inductive QueueReg where
  | data (i : ℤ) | head | tail | clear
  deriving DecidableEq, Repr

@[reducible] def QueueReg.type (α : Type) : QueueReg → Type
  | .data _ => α
  | .head | .tail => ℤ
  | .clear => Bool

inductive CpuReg where
  -- bus.c
  | req (h : ℕ) | fire | busData | busClear
  | buffer (h : ℕ) (b : ℤ) | current (h : ℕ)
  -- memory.c
  | loadReq (i : ℕ) | storeReq (i : ℕ) | memClear
  -- reg-store.c
  | register (x : RegId) | robIdSet (x : RegId) | robIdClearIf (x : RegId) | regClear
  -- ls-queue.c
  | lsq (q : QueueReg) | lockSignal | lsqClear
  -- alu.c
  | aluTask (a : ℕ) | resultBuf (a : ℕ)
  -- reservation-station.c
  | rsBusy (id : RsId) | rsPayload (id : RsId) | rsClear
  -- inst-unit.c
  | pc | forcePc
  -- reorder-buffer.c
  | robs (q : QueueReg) | robReady (slot : ℤ) | robPayload (slot : ℤ)
  deriving DecidableEq, Repr

/-- The queue of the reorder buffer holds each slot's id and its two registers,
    which never change after `rob_unit_create`; hence the `Unit`. -/
@[reducible] def CpuReg.type : CpuReg → Type
  | .req _ | .fire => Bool
  | .busData | .buffer _ _ => CdbMessage
  | .busClear | .current _ => ℤ
  | .loadReq _ => MemLoadRequest
  | .storeReq _ => MemStoreRequest
  | .memClear | .regClear | .lockSignal | .lsqClear | .rsClear => Bool
  | .register _ => Word
  | .robIdSet _ | .robIdClearIf _ => RobId
  | .lsq q => q.type LsQueuePayload
  | .aluTask _ => AluTask
  | .resultBuf _ => AluResultBuf
  | .rsBusy _ => Bool
  | .rsPayload _ => RsPayload
  | .pc => Addr
  | .forcePc => ForcePc
  | .robs q => q.type Unit
  | .robReady _ => Bool
  | .robPayload _ => RobPayload

inductive CpuOr where
  | bhBusy (h : ℕ) (b : ℤ)
  | loadBusy (i : ℕ) | storeBusy (i : ℕ)
  | lockStall
  | aluBusy (a : ℕ)
  deriving DecidableEq, Repr

/-- The registers whose next contents `_reg_mut_tick` sets to zero. -/
def CpuReg.clear : CpuReg → Bool
  | .req _ | .memClear | .regClear | .lsqClear => true
  | _ => false

def CdbMessage.zero : CdbMessage := ⟨0, 0, 0⟩
def Inst.zero : Inst := ⟨0, 0, .i, 0, 0, 0, 0, 0⟩

def CpuReg.zero : ∀ r : CpuReg, r.type
  | .req _ | .fire => false
  | .busData | .buffer _ _ => .zero
  | .busClear | .current _ => (0 : ℤ)
  | .loadReq _ => ⟨0, 0, .zero, 0⟩
  | .storeReq _ => ⟨0, 0, 0, 0⟩
  | .memClear | .regClear | .lockSignal | .lsqClear | .rsClear => false
  | .register _ => (0 : Word)
  | .robIdSet _ | .robIdClearIf _ => (0 : ℤ)
  | .lsq (.data _) => ⟨.load, 0, 0, .zero, false, 0⟩
  | .lsq .head | .lsq .tail => (0 : ℤ)
  | .lsq .clear => false
  | .aluTask _ => ⟨0, 0, 0, .zero⟩
  | .resultBuf _ => ⟨.zero, false⟩
  | .rsBusy _ => false
  | .rsPayload _ => ⟨0, 0, 0, 0, 0, 0, 0, 0, 0⟩
  | .pc => (0 : Word)
  | .forcePc => ⟨false, 0⟩
  | .robs (.data _) => ()
  | .robs .head | .robs .tail => (0 : ℤ)
  | .robs .clear => false
  | .robReady _ => false
  | .robPayload _ =>
    ⟨.register, 0, 0, 0, 0, 0, 0, false, false, 0, ⟨false, 0⟩, 0, 0, .zero⟩

abbrev QueueRegs (α : Type) := ∀ r : QueueReg, r.type α

namespace QueueRegs
variable {α : Type} (q : QueueRegs α)
abbrev data (i : ℤ) : α := q (.data i)
abbrev head : ℤ := q .head
abbrev tail : ℤ := q .tail
abbrev clear : Bool := q .clear
end QueueRegs

abbrev Regs := ∀ r : CpuReg, r.type

namespace Regs
variable (rm : Regs)
abbrev req (h : ℕ) : Bool := rm (.req h)
abbrev fire : Bool := rm .fire
abbrev busData : CdbMessage := rm .busData
abbrev busClear : ℤ := rm .busClear
abbrev buffer (h : ℕ) (b : ℤ) : CdbMessage := rm (.buffer h b)
abbrev current (h : ℕ) : ℤ := rm (.current h)
abbrev loadReq (i : ℕ) : MemLoadRequest := rm (.loadReq i)
abbrev storeReq (i : ℕ) : MemStoreRequest := rm (.storeReq i)
abbrev memClear : Bool := rm .memClear
abbrev register (x : RegId) : Word := rm (.register x)
abbrev robIdSet (x : RegId) : RobId := rm (.robIdSet x)
abbrev robIdClearIf (x : RegId) : RobId := rm (.robIdClearIf x)
abbrev regClear : Bool := rm .regClear
abbrev lsq : QueueRegs LsQueuePayload := fun r => rm (.lsq r)
abbrev lockSignal : Bool := rm .lockSignal
abbrev lsqClear : Bool := rm .lsqClear
abbrev aluTask (a : ℕ) : AluTask := rm (.aluTask a)
abbrev resultBuf (a : ℕ) : AluResultBuf := rm (.resultBuf a)
abbrev rsBusy (id : RsId) : Bool := rm (.rsBusy id)
abbrev rsPayload (id : RsId) : RsPayload := rm (.rsPayload id)
abbrev rsClear : Bool := rm .rsClear
abbrev pc : Addr := rm .pc
abbrev forcePc : ForcePc := rm .forcePc
abbrev robs : QueueRegs Unit := fun r => rm (.robs r)
abbrev robReady (slot : ℤ) : Bool := rm (.robReady slot)
abbrev robPayload (slot : ℤ) : RobPayload := rm (.robPayload slot)
end Regs

/-- What the callbacks of a tick read: `rm_read`, `rr_read` and the two
    combinational registers. -/
structure Latched where
  rm : Regs
  rr : CpuOr → Bool
  gnt : ℕ
  robIds : RegId → RobId

inductive Route where
  | entry | bus | listener
  deriving DecidableEq, Repr

/-- Observations, at the places of the source's debug output. -/
inductive Event where
  /-- `_rob_commit` retired the entry. -/
  | retire (rob : RobId) (data : RobPayload)
  /-- `_rob_commit` reached HCF. -/
  | halt (rob : RobId) (data : RobPayload)
  /-- Instruction `seq` got the value of its source register `reg` from entry
      `rob`, which belongs to instruction `producer`. -/
  | capture (seq : ℕ) (reg : RegId) (route : Route) (rob : RobId) (producer : ℕ) (value : Word)
  /-- `_rsu_check_load` pushed a load into the load-store queue. -/
  | pushLoad (rob : RobId) (seq : ℕ) (addr : Addr) (size : LsSize)
  /-- `_ls_queue_tick` handed a store to a memory slot. -/
  | issueStore (slot : ℕ)
  /-- `_mem_tick` read memory for a load. -/
  | load (addr : Addr) (size : LsSize) (msg : CdbMessage)
  /-- `_mem_tick` wrote memory for the store in a slot. -/
  | store (slot : ℕ) (addr : Addr) (value : Word) (size : LsSize)
  /-- A listener of a bus on its own was called. -/
  | heard (listener : ℕ) (msg : CdbMessage)
  deriving DecidableEq, Repr

structure BranchPredictor where
  state : ℤ → ℤ → ℤ
  hist : ℤ
  total : ℤ
  correct : ℤ
  jalrTotal : ℤ
  jalrCorrect : ℤ

/-- State that changes in place. `data` is the memory array and whatever lies
    after it; `dispatched` and `log` are history variables. -/
structure Plain where
  data : ℕ → Byte
  bp : BranchPredictor
  commitCount : ℤ
  hcf : Bool
  dispatched : ℕ
  log : List Event

inductive PlainOp where
  | memSetSz (addr : Addr) (value : Word) (size : LsSize)
  | bpFeedback (pc : Addr) (res : BpResult) (actualTake : Bool)
  | bpFeedbackJalr (pc actual : Addr) (correct : Bool)
  | countCommit
  | hcf
  | countDispatch
  | log (e : Event)

abbrev CpuEffect := Effect CpuReg.type CpuOr PlainOp
abbrev CpuPending := Pending CpuReg.type CpuOr Plain
abbrev QueueWrite (α : Type) := (r : QueueReg) × r.type α

def liftLsq (ws : List (QueueWrite LsQueuePayload)) : List CpuEffect :=
  ws.map fun w => .write (.lsq w.1) w.2

def liftRobs (ws : List (QueueWrite Unit)) : List CpuEffect :=
  ws.map fun w => .write (.robs w.1) w.2

end TomasuloCpu
