import TomasuloCpu.Memory

set_option autoImplicit false

/-!
# The load-store queue and its lock

`ls-queue.c`, and the busy-wait lock of `reg.c`.
-/
namespace TomasuloCpu
open Clocked

def busyWait : List CpuEffect := [.reduce .lockStall true]

def busyWaitTick (s : Latched) : List CpuEffect :=
  if !s.rr .lockStall then [] else if !s.rm.lockSignal then busyWait else []

def busyWaitShouldStall (s : Latched) : Bool := s.rr .lockStall

def lsQueueFull (s : Latched) : Bool := queueFull lsQueueCapacity s.rm.lsq

def lsQueuePush (s : Latched) (payload : LsQueuePayload) : List CpuEffect :=
  if lsQueueFull s then []
  else
    match queuePush lsQueueCapacity s.rm.lsq with
    | none => [.fail .outOfBounds]
    | some (ws, slot) =>
      liftLsq ws ++ [.write (.lsq (.data slot)) { payload with cleared := false }]

def lsQueueClear : List CpuEffect := [.write .lsqClear true]

def lsQueueTick (s : Latched) : List CpuEffect :=
  if s.rm.lsqClear then
    (queueForeach lsQueueCapacity s.rm.lsq).flatMap fun slot =>
      let data : LsQueuePayload := s.rm.lsq.data slot
      if data.op = .load then [.write (.lsq (.data slot)) { data with cleared := true }] else []
  else if busyWaitShouldStall s then []
  else if queueEmpty s.rm.lsq then []
  else
    match queuePop lsQueueCapacity s.rm.lsq with
    | none => [.fail .outOfBounds]
    | some (ws, slot) =>
      let data : LsQueuePayload := s.rm.lsq.data slot
      liftLsq ws ++
        if data.cleared then []
        else
          match data.op with
          | .load => memRequestLoad s data.addr data.size data.baseMsg
          | .store => memRequestStore s data.addr data.value data.size ++ busyWait

end TomasuloCpu
