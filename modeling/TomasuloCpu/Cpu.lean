import TomasuloCpu.InstUnit

set_option autoImplicit false

/-!
# The CPU

`cpu.c` and `clk.c`. A tick latches the registers, evaluates the combinational
ones and calls the callbacks. The build with `RANDOM_SHUFFLE` calls callbacks
and bus listeners in any order, so the order is a parameter of a tick.
-/
namespace TomasuloCpu
open Clocked

inductive QueueName where
  | lsq | robs
  deriving DecidableEq, Repr

inductive Callback where
  | busTick
  | bhTick (h : ℕ)
  | memTick
  | regFileTick
  | queueTick (q : QueueName)
  | busyWaitTick
  | lsQueueTick
  | aluTick (a : ℕ)
  | rsUnitTick
  | instUnitTick
  | robUnitTick
  | cpuDebug
  deriving DecidableEq, Repr

inductive Listener where
  | robUnit
  | rs (id : RsId)
  | cpuDebug
  deriving DecidableEq, Repr

/-- The order in which `cpu_create` registers the callbacks. -/
def Callback.registered : List Callback :=
  [.busTick, .bhTick 0, .memTick, .regFileTick, .queueTick .lsq, .busyWaitTick, .lsQueueTick,
    .bhTick 1, .aluTick 0, .bhTick 2, .aluTick 1, .rsUnitTick, .instUnitTick,
    .queueTick .robs, .robUnitTick, .cpuDebug]

def stations : List RsId := aluStations ++ loadBuffers ++ storeBuffers

def Listener.registered : List Listener :=
  .robUnit :: stations.map .rs ++ [.cpuDebug]

def helperCount : ℕ := 3

structure Schedule where
  callbacks : List Callback
  listeners : List Listener
  callbacks_perm : callbacks.Perm Callback.registered
  listeners_perm : listeners.Perm Listener.registered

/-- The order of the build without `RANDOM_SHUFFLE`. -/
def Schedule.inOrder : Schedule :=
  ⟨Callback.registered, Listener.registered, .refl _, .refl _⟩

def Listener.onmsg (s : Latched) (msg : CdbMessage) : Listener → List CpuEffect
  | .robUnit => robUnitOnmsg s msg
  | .rs id => rsOnmsg id s msg
  | .cpuDebug => []

section
variable [WideShift]

def Callback.effects (listeners : List Listener) (s : Latched) (p : Plain) :
    Callback → List CpuEffect
  | .busTick => TomasuloCpu.busTick (Listener.onmsg s) listeners s
  | .bhTick h => TomasuloCpu.bhTick h s
  | .memTick => TomasuloCpu.memTick s p.data
  | .regFileTick => TomasuloCpu.regFileTick s
  | .queueTick .lsq => liftLsq (TomasuloCpu.queueTick s.rm.lsq)
  | .queueTick .robs => liftRobs (TomasuloCpu.queueTick s.rm.robs)
  | .busyWaitTick => TomasuloCpu.busyWaitTick s
  | .lsQueueTick => TomasuloCpu.lsQueueTick s
  | .aluTick a => TomasuloCpu.aluTick a s
  | .rsUnitTick => TomasuloCpu.rsUnitTick s
  | .instUnitTick => TomasuloCpu.instUnitTick s p
  | .robUnitTick => TomasuloCpu.robUnitTick s
  | .cpuDebug => []

end

def PlainOp.act : PlainOp → Plain → Plain
  | .memSetSz addr value size, p =>
    { p with data := (TomasuloCpu.memSetSz p.data addr value size).getD p.data }
  | .bpFeedback pc res take, p => { p with bp := TomasuloCpu.bpFeedback p.bp pc res take }
  | .bpFeedbackJalr pc actual correct, p =>
    { p with bp := TomasuloCpu.bpFeedbackJalr p.bp pc actual correct }
  | .countCommit, p => { p with commitCount := p.commitCount + 1 }
  | .hcf, p => { p with hcf := true }
  | .countDispatch, p => { p with dispatched := p.dispatched + 1 }
  | .log e, p => { p with log := p.log ++ [e] }

/-- The state between two ticks; what is latched is no longer read. -/
abbrev Cpu := CpuPending

/-- The first two loops of `clk_tick`: what the callbacks will read. -/
def latch (c : Cpu) : Latched where
  rm := c.next
  rr := c.reduced
  gnt := busArb helperCount c.next
  robIds := regFileNext c.next

def latchNext (c : Cpu) : CpuPending where
  next := regFileReset c.next fun r => if r.clear then r.zero else c.next r
  writeCount := fun _ => 0
  reduced := fun _ => false
  plain := c.plain

/-- `cpu_create`, with the image that the loader puts into memory and what the
    predictor finds in its unassigned memory. -/
def cpuCreate (image : MemData) (garbage : ℤ → ℤ → ℤ) (hist : ℤ) : Cpu where
  next := CpuReg.zero
  writeCount := fun _ => 0
  reduced := fun _ => false
  plain :=
    { data := image
      bp := bpCreate garbage hist
      commitCount := 0
      hcf := false
      dispatched := 0
      log := [] }

section
variable [WideShift]

def cpuTick (o : Schedule) (c : Cpu) : Except Fault Cpu :=
  run PlainOp.act (fun cb p => Callback.effects o.listeners (latch c) p cb) o.callbacks
    (latchNext c)

def cpuRun : List Schedule → Cpu → Except Fault Cpu
  | [], c => .ok c
  | o :: os, c => do cpuRun os (← cpuTick o c)

end

end TomasuloCpu
