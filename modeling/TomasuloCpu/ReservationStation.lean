import TomasuloCpu.Alu
import TomasuloCpu.LsQueue

set_option autoImplicit false

/-!
# Reservation stations

`reservation-station.c`, with the stations that `cpu_create` adds.
-/
namespace TomasuloCpu
open Clocked

variable [WideShift]

def aluStations : List RsId := [1, 2, 3, 4, 5, 6, 7]
def loadBuffers : List RsId := [8, 9, 10, 11, 12, 13, 14, 15]
def storeBuffers : List RsId := [16, 17, 18, 19, 20, 21, 22, 23]

/-- The id that `rob_unit_create` gives the entry of a slot. -/
def robId (slot : ℤ) : RobId := slot + 1

def robSlot (id : RobId) : ℤ := id - 1

def rsCapture (s : Latched) (data : RsPayload) (src : Inst → RegId) (msg : CdbMessage) :
    CpuEffect :=
  .plain (.log (.capture data.seq (src (s.rm.robPayload (robSlot data.dest)).inst) .listener
    msg.rob msg.seq msg.result))

def rsOnmsg (id : RsId) (s : Latched) (msg : CdbMessage) : List CpuEffect :=
  if s.rm.rsClear then []
  else if !s.rm.rsBusy id then []
  else
    let data : RsPayload := s.rm.rsPayload id
    let match1 : Bool := data.src1 = msg.rob
    let match2 : Bool := data.src2 = msg.rob
    let data1 := if match1 then { data with value1 := msg.result, src1 := 0 } else data
    let data2 := if match2 then { data1 with value2 := msg.result, src2 := 0 } else data1
    (if match1 || match2 then [.write (.rsPayload id) data2] else []) ++
    (if match1 then [rsCapture s data Inst.rs1 msg] else []) ++
    (if match2 then [rsCapture s data Inst.rs2 msg] else [])

def rsuClear (rss : List RsId) : List CpuEffect := rss.map fun rs => .write (.rsBusy rs) false

def rsVec : RsType → List RsId
  | .reservationStation => aluStations
  | .loadBuffer => loadBuffers
  | .storeBuffer => storeBuffers

def rsUnitAcquire (s : Latched) (type : RsType) : Option RsId :=
  (rsVec type).find? fun rs => !s.rm.rsBusy rs

def rsUnitClear : List CpuEffect := [.write .rsClear true]

def rsCalcAddr (data : RsPayload) : Addr := data.addr + data.value1

def rsTask (data : RsPayload) : AluTask where
  op := data.opAlu
  value1 := data.value1
  value2 := data.value2
  baseMsg := ⟨data.dest, 0, data.seq⟩

def rsuCheckAlu (s : Latched) : ℕ → List RsId → List CpuEffect
  | _, [] => []
  | aluId, rs :: rss =>
    let data : RsPayload := s.rm.rsPayload rs
    if !s.rm.rsBusy rs then rsuCheckAlu s aluId rss
    else if data.src1 ≠ 0 ∨ data.src2 ≠ 0 then rsuCheckAlu s aluId rss
    else
      let (es, ok) := aluTask s aluId (rsTask data)
      es ++ (if ok then [.write (.rsBusy rs) false] else []) ++
        if aluId + 1 ≥ aluCount then [] else rsuCheckAlu s (aluId + 1) rss

/-- `none` where `ls_size` fails its assertion. -/
def rsuOverlap (addr1 : Addr) (size1 : LsSize) (addr2 : Addr) (size2 : LsSize) : Option Bool :=
  if addr1 = addr2 then some true
  else if addr1 > addr2 then (lsSize size2).map fun n => addr2 + BitVec.ofNat 32 n ≤ addr1
  else (lsSize size1).map fun n => addr1 + BitVec.ofNat 32 n ≤ addr2

/-- The `queue_foreach` loop of `_rsu_check_load` over the slots from the head:
    whether an entry before `dest` blocks the load. -/
def rsuBlocking (s : Latched) (addr : Addr) (size : LsSize) (dest : RobId) :
    List ℤ → Option Bool
  | [] => some false
  | slot :: slots =>
    let robData : RobPayload := s.rm.robPayload slot
    if robId slot = dest then some false
    else if robData.op = .store then
      if !robData.addrReady then some true
      else
        match rsuOverlap addr size robData.addr robData.size with
        | none => none
        | some true => some true
        | some false => rsuBlocking s addr size dest slots
    else rsuBlocking s addr size dest slots

def rsLoadPayload (data : RsPayload) : LsQueuePayload where
  op := .load
  addr := rsCalcAddr data
  size := data.opLs
  baseMsg := ⟨data.dest, 0, data.seq⟩
  cleared := false
  value := 0

def rsuCheckLoadFrom (s : Latched) : List RsId → List CpuEffect
  | [] => []
  | rs :: rss =>
    let data : RsPayload := s.rm.rsPayload rs
    if !s.rm.rsBusy rs then rsuCheckLoadFrom s rss
    else if data.src1 ≠ 0 ∨ data.src2 ≠ 0 then rsuCheckLoadFrom s rss
    else
      match rsuBlocking s (rsCalcAddr data) data.opLs data.dest
          (queueForeach robCapacity s.rm.robs) with
      | none => [.fail .assertion]
      | some true => rsuCheckLoadFrom s rss
      | some false =>
        lsQueuePush s (rsLoadPayload data) ++
          [.plain (.log (.pushLoad data.dest data.seq (rsCalcAddr data) data.opLs)),
            .write (.rsBusy rs) false]

def rsuCheckLoad (s : Latched) (rss : List RsId) : List CpuEffect :=
  if lsQueueFull s then [] else rsuCheckLoadFrom s rss

def rsStorePayload (data : RsPayload) (old : RobPayload) : RobPayload :=
  let new := if !old.addrReady && data.src1 = 0 then
    { old with addr := rsCalcAddr data, addrReady := true } else old
  if !old.valueReady && data.src2 = 0 then
    { new with value := data.value2, valueReady := true } else new

def rsuCheckStoreFrom (s : Latched) : List RsId → List CpuEffect
  | [] => []
  | rs :: rss =>
    let data : RsPayload := s.rm.rsPayload rs
    let old : RobPayload := s.rm.robPayload (robSlot data.dest)
    if !s.rm.rsBusy rs then rsuCheckStoreFrom s rss
    else if data.src1 ≠ 0 ∧ data.src2 ≠ 0 then rsuCheckStoreFrom s rss
    else if old.addrReady && old.valueReady then rsuCheckStoreFrom s rss
    else if (!old.addrReady && data.src1 = 0) || (!old.valueReady && data.src2 = 0) then
      let new := rsStorePayload data old
      .write (.robPayload (robSlot data.dest)) new ::
        if new.addrReady && new.valueReady then
          [.write (.rsBusy rs) false, .write (.robReady (robSlot data.dest)) true]
        else []
    else rsuCheckStoreFrom s rss

def rsuCheckStore (s : Latched) (rss : List RsId) : List CpuEffect :=
  if lsQueueFull s then [] else rsuCheckStoreFrom s rss

def rsUnitTick (s : Latched) : List CpuEffect :=
  if s.rm.rsClear then
    .write .rsClear false :: rsuClear aluStations ++ rsuClear loadBuffers ++
      rsuClear storeBuffers
  else
    rsuCheckAlu s 0 aluStations ++ rsuCheckLoad s loadBuffers ++ rsuCheckStore s storeBuffers

end TomasuloCpu
