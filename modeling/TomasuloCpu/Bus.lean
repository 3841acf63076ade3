import TomasuloCpu.Queue

set_option autoImplicit false

/-!
# The common data bus and its helpers

`bus.c`. The helper with index `h` has the arbitration id `h + 1`.
-/
namespace TomasuloCpu
open Clocked

def busArb (n : ℕ) (rm : Regs) : ℕ :=
  if rm.busClear ≠ 0 then 0
  else
    match (List.range n).find? (fun i => rm.req i) with
    | some i => i + 1
    | none => 0

def busArbReq (s : Latched) (h : ℕ) : List CpuEffect :=
  if s.rm.busClear ≠ 0 then [] else [.write (.req h) true]

def busArbStatus (s : Latched) (h : ℕ) : Bool :=
  s.rm.busClear ≠ 0 || s.gnt == h + 1

def busClear : List CpuEffect := [.write .busClear (2 : ℤ)]

def busGetData (s : Latched) : Option CdbMessage :=
  if s.rm.fire then some (s.rm.busData) else none

/-- `_bus_tick`, where a listener does `onmsg` when it is called. -/
def busTick {L : Type} (onmsg : CdbMessage → L → List CpuEffect) (listeners : List L)
    (s : Latched) : List CpuEffect :=
  .write .fire (s.gnt != 0) ::
    if s.rm.busClear ≠ 0 then [.write .busClear (s.rm.busClear - 1)]
    else
      match busGetData s with
      | some data => listeners.flatMap (onmsg data)
      | none => []

def bhOther (curr : ℤ) : ℤ := if curr = 0 then 1 else 0

def bhTick (h : ℕ) (s : Latched) : List CpuEffect :=
  if s.rm.busClear ≠ 0 then []
  else
    let curr : ℤ := s.rm.current h
    let ok := busArbStatus s h
    let requested := s.rr (.bhBusy h curr) && !ok
    (if s.rr (.bhBusy h curr) then
      if ok then
        [.write .busData (s.rm.buffer h curr), .reduce (.bhBusy h curr) false]
      else busArbReq s h ++ [.reduce (.bhBusy h curr) true]
    else []) ++
    (if !requested && s.rr (.bhBusy h (bhOther curr)) then
      busArbReq s h ++ [.write (.current h) (bhOther curr)]
    else []) ++
    [.reduce (.bhBusy h (bhOther curr)) (s.rr (.bhBusy h (bhOther curr)))]

def bhReqIx (s : Latched) (h : ℕ) : ℤ :=
  let curr : ℤ := s.rm.current h
  if s.rr (.bhBusy h curr) && !busArbStatus s h then curr
  else if s.rr (.bhBusy h (bhOther curr)) then bhOther curr
  else -1

def bhShouldClear (s : Latched) : Bool := s.rm.busClear > 0

def bhShouldStall (s : Latched) (h : ℕ) : Bool :=
  let ix := bhReqIx s h
  ix ≥ 0 && s.rr (.bhBusy h (bhOther ix))

def bhAcquire (s : Latched) (h : ℕ) : List CpuEffect × Option ℤ :=
  let reqIx := bhReqIx s h
  if reqIx ≥ 0 then
    if s.rr (.bhBusy h (bhOther reqIx)) then ([], none)
    else ([.reduce (.bhBusy h (bhOther reqIx)) true], some (bhOther reqIx))
  else
    (busArbReq s h ++ [.reduce (.bhBusy h (s.rm.current h)) true], some (s.rm.current h))

end TomasuloCpu
