import TomasuloCpu.State

set_option autoImplicit false

/-!
# The register file and the rename table

`reg-store.c`.
-/
namespace TomasuloCpu
open Clocked

def regIds : List RegId := (List.range regCount).map fun (i : ℕ) => (i : ℤ)

def regFileTick (s : Latched) : List CpuEffect :=
  if s.rm.regClear then regIds.map fun i => .write (.robIdClearIf i) (-1 : ℤ) else []

def regFileDrops (rm : Regs) (i : RegId) : Bool :=
  let id : RobId := rm.robIdSet i
  let idClear : RobId := rm.robIdClearIf i
  (idClear = id && id ≠ 0) || idClear < 0

/-- `_reg_file_next`: the rename table. -/
def regFileNext (rm : Regs) (i : RegId) : RobId :=
  if regFileDrops rm i then 0 else rm.robIdSet i

/-- What `_reg_file_next` writes behind the back of the write counts. -/
def regFileReset (rm : Regs) (next : Regs) : Regs
  | .robIdClearIf _ => (0 : ℤ)
  | .robIdSet i => if regFileDrops rm i then (0 : ℤ) else next (.robIdSet i)
  | r => next r

def regStoreGet (s : Latched) (id : RegId) : Word :=
  if id = 0 then 0 else s.rm.register id

def regStoreSet (id : RegId) (value : Word) : List CpuEffect :=
  if id = 0 then [] else [.write (.register id) value]

def regStoreRobIdGet (s : Latched) (id : RegId) : RobId :=
  if id = 0 then 0 else s.robIds id

def regStoreRobIdSet (id : RegId) (value : RobId) : List CpuEffect :=
  if id = 0 then [] else [.write (.robIdSet id) value]

def regStoreRobIdClear (id : RegId) (value : RobId) : List CpuEffect :=
  if id = 0 then [] else [.write (.robIdClearIf id) value]

def regFileClear : List CpuEffect := [.write .regClear true]

end TomasuloCpu
