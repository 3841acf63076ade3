import TomasuloCpu.Bus

set_option autoImplicit false

/-!
# The ALUs

`alu.c`. ALU `a` owns the bus helper with index `a + 1`.
-/
namespace TomasuloCpu
open Clocked

variable [WideShift]

def aluHelper (a : ℕ) : ℕ := a + 1

def aluTick (a : ℕ) (s : Latched) : List CpuEffect :=
  let h := aluHelper a
  let buf : AluResultBuf := s.rm.resultBuf a
  if bhShouldClear s then [.write (.resultBuf a) { buf with busy := false }]
  else
    let busy := s.rr (.aluBusy a)
    if buf.busy then
      match bhAcquire s h with
      | (es, none) => es
      | (es, some b) =>
        es ++ [.write (.buffer h b) buf.msg, .write (.resultBuf a) { buf with busy := false },
          .reduce (.aluBusy a) busy]
    else if busy then
      let task : AluTask := s.rm.aluTask a
      match bhAcquire s h, aluExecute task.op task.value1 task.value2 with
      | (es, _), none => es ++ [.fail .assertion]
      | (es, none), some result =>
        es ++ [.write (.resultBuf a) ⟨{ task.baseMsg with result := result }, true⟩]
      | (es, some b), some result =>
        es ++ [.write (.buffer h b) { task.baseMsg with result := result }]
    else []

/-- `alu_task`, with whether it returned `STATUS_SUCCESS`. -/
def aluTask (s : Latched) (a : ℕ) (task : AluTask) : List CpuEffect × Bool :=
  if bhShouldClear s then ([], true)
  else if bhShouldStall s (aluHelper a) then ([], false)
  else ([.write (.aluTask a) task, .reduce (.aluBusy a) true], true)

end TomasuloCpu
