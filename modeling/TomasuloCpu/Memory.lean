import TomasuloCpu.Bus

set_option autoImplicit false

/-!
# Memory

`memory.c`. Addresses are 32-bit, but a wide access goes through a pointer, so
its bytes are at `addr`, `addr + 1`, ... without wrapping. The CPU's memory owns
the bus helper with index 0.
-/
namespace TomasuloCpu
open Clocked

abbrev MemData := ℕ → Byte

def bytesAt (data : MemData) (a : ℕ) : ℕ → Word
  | 0 => 0
  | n + 1 => (data a).setWidth 32 ||| (bytesAt data (a + 1) n <<< 8)

def memGetSz (data : MemData) (addr : Addr) (size : LsSize) : Option Word :=
  let base := addr.toNat
  if size = LsSize.byte then some (signExtend (bytesAt data base 1) 8)
  else if size = LsSize.byteu then some (bytesAt data base 1)
  else if size = LsSize.hword then some (signExtend (bytesAt data base 2) 16)
  else if size = LsSize.hwordu then some (bytesAt data base 2)
  else if size = LsSize.word then some (bytesAt data base 4)
  else none

def setBytes (data : MemData) (a : ℕ) (value : Word) : ℕ → MemData
  | 0 => data
  | n + 1 => setBytes (Function.update data a (value.setWidth 8)) (a + 1) (value >>> 8) n

def memSetSz (data : MemData) (addr : Addr) (value : Word) (size : LsSize) : Option MemData :=
  let base := addr.toNat
  if size = LsSize.byte then some (setBytes data base value 1)
  else if size = LsSize.hword then some (setBytes data base value 2)
  else if size = LsSize.word then some (setBytes data base value 4)
  else none

def memGetInst (data : MemData) (addr : Addr) : Word := bytesAt data addr.toNat 4

structure LoadScan where
  cdbSent : Bool
  done : List ℕ
  effects : List CpuEffect

def memLoadStep (s : Latched) (data : MemData) (acc : LoadScan) (i : ℕ) : LoadScan :=
  if !s.rr (.loadBusy i) then acc
  else
    let req : MemLoadRequest := s.rm.loadReq i
    let ticksRemaining := req.ticksRemaining - 1
    let count : CpuEffect := .write (.loadReq i) { req with ticksRemaining := ticksRemaining }
    if !acc.cdbSent && ticksRemaining ≤ 0 then
      match bhAcquire s 0, memGetSz data req.addr req.size with
      | (es, none), _ => ⟨true, acc.done, acc.effects ++ count :: es⟩
      | (es, some _), none => ⟨true, acc.done, acc.effects ++ count :: es ++ [.fail .assertion]⟩
      | (es, some b), some result =>
        let msg : CdbMessage := { req.baseMsg with result := result }
        ⟨true, i :: acc.done, acc.effects ++ count :: es ++
          [.write (.buffer 0 b) msg, .plain (.log (.load req.addr req.size msg))]⟩
    else { acc with effects := acc.effects ++ [count] }

def memSlots : List ℕ := [0, 1, 2]

def memLoads (s : Latched) (data : MemData) : LoadScan :=
  memSlots.foldl (memLoadStep s data) ⟨false, [], []⟩

def memStoreDone (s : Latched) (i : ℕ) : Bool :=
  s.rr (.storeBusy i) && (s.rm.storeReq i).ticksRemaining - 1 = 0

def memStoreStep (s : Latched) (i : ℕ) : List CpuEffect :=
  if !s.rr (.storeBusy i) then []
  else
    let req : MemStoreRequest := s.rm.storeReq i
    .write (.storeReq i) { req with ticksRemaining := req.ticksRemaining - 1 } ::
      if memStoreDone s i then
        if (memSetSz (fun _ => 0) req.addr req.value req.size).isNone then [.fail .assertion]
        else
          [.plain (.memSetSz req.addr req.value req.size),
            .plain (.log (.store i req.addr req.value req.size)), .write .lockSignal true]
      else []

def memTick (s : Latched) (data : MemData) : List CpuEffect :=
  if s.rm.memClear then memSlots.map fun i => .reduce (.storeBusy i) (s.rr (.storeBusy i))
  else
    let loads := memLoads s data
    loads.effects ++ memSlots.flatMap (memStoreStep s) ++
      memSlots.flatMap fun i =>
        [.reduce (.loadBusy i) (s.rr (.loadBusy i) && !loads.done.contains i),
          .reduce (.storeBusy i) (s.rr (.storeBusy i) && !memStoreDone s i)]

/-- The first slot that is not busy. The loops of the source run to `MEM_SIZE`:
    with all slots busy they read past the array. -/
def memAcquire (busy : ℕ → Bool) : Option ℕ := memSlots.find? fun i => !busy i

def memRequestLoad (s : Latched) (addr : Addr) (size : LsSize) (baseMsg : CdbMessage) :
    List CpuEffect :=
  match memAcquire fun i => s.rr (.loadBusy i) with
  | none => [.fail .outOfBounds]
  | some id =>
    [.reduce (.loadBusy id) true, .write (.loadReq id) ⟨addr, size, baseMsg, memTicks - 1⟩]

def memRequestStore (s : Latched) (addr : Addr) (value : Word) (size : LsSize) :
    List CpuEffect :=
  match memAcquire fun i => s.rr (.storeBusy i) with
  | none => [.fail .outOfBounds]
  | some id =>
    [.reduce (.storeBusy id) true, .write (.storeReq id) ⟨addr, value, size, memTicks - 1⟩,
      .plain (.log (.issueStore id))]

def memClear : List CpuEffect := [.write .memClear true]

end TomasuloCpu
