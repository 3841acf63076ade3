import TomasuloCpu.BusClock
import TomasuloCpu.Carriers

set_option autoImplicit false

/-!
# An ALU on its own

An ALU with its bus helper and a clock of its own. In a tick `alu_task` may be
called once, the calls run in any order, and the bus may grant whom it likes;
`bus_clear` is not called.
-/
namespace TomasuloCpu
open Clocked

variable [WideShift]

def aluResult (task : AluTask) : Option CdbMessage :=
  (aluExecute task.op task.value1 task.value2).map fun result =>
    { task.baseMsg with result := result }

inductive AluCall where
  | helper | alu | task (t : AluTask)

def AluCall.effects (a : ℕ) (s : Latched) : AluCall → List CpuEffect
  | .helper => bhTick (aluHelper a) s
  | .alu => aluTick a s
  | .task t => (aluTask s a t).1

def aluCalls (task : Option AluTask) : List AluCall :=
  .helper :: .alu :: task.toList.map .task

/-- A tick: the task that a client hands over, the id that the bus grants and
    the order of the calls. -/
structure AluTick where
  task : Option AluTask
  gnt : ℕ
  order : List AluCall
  perm : order.Perm (aluCalls task)

/-- An ALU between two ticks. The accepted tasks, the messages written into the
    buffers of the helper and those that the helper wrote on the bus are history
    variables. -/
structure AluState where
  cpu : Cpu
  accepted : List AluTask
  written : List CdbMessage
  granted : List CdbMessage

def aluCreate : AluState := ⟨cpuCreate (fun _ => 0) (fun _ _ => 0) 0, [], [], []⟩

def busWrites (es : List CpuEffect) : List CdbMessage :=
  es.filterMap fun
    | .write .busData msg => some msg
    | _ => none

namespace AluState

def latch (st : AluState) (gnt : ℕ) : Latched := { TomasuloCpu.latch st.cpu with gnt := gnt }

def accepts (a : ℕ) (st : AluState) (t : AluTick) : Option AluTask :=
  t.task.filter fun task => (aluTask (st.latch t.gnt) a task).2

def effects (a : ℕ) (st : AluState) (t : AluTick) : List CpuEffect :=
  t.order.flatMap (AluCall.effects a (st.latch t.gnt))

def after (a : ℕ) (st : AluState) (t : AluTick) (cpu : Cpu) : AluState where
  cpu := cpu
  accepted := st.accepted ++ (st.accepts a t).toList
  written := st.written ++ bufferWrites (aluHelper a) (st.effects a t)
  granted := st.granted ++ busWrites (st.effects a t)

end AluState

def aluClockTick (a : ℕ) (t : AluTick) (st : AluState) : Except Fault AluState :=
  (run PlainOp.act (fun x _ => AluCall.effects a (st.latch t.gnt) x) t.order
    (latchNext st.cpu)).map (st.after a t)

def aluRun (a : ℕ) : List AluTick → AluState → Except Fault AluState
  | [], st => .ok st
  | t :: ts, st => do aluRun a ts (← aluClockTick a t st)

/-- The results of the accepted tasks are the messages written, then the
    buffered result or the pending task; the messages written are those on the
    bus so far, then those in the busy buffers. -/
structure AluMeets (a : ℕ) (st : AluState) : Prop where
  busClear : (st.latch 0).rm.busClear = 0
  helper : HelperOk (st.latch 0) (aluHelper a)
  notBoth : AluOk (st.latch 0) a
  results : st.accepted.map aluResult =
    st.written.map some ++ (st.latch 0).aluItems some aluResult a
  buffers : st.written = st.granted ++ (st.latch 0).helperQueue (aluHelper a)

def OfAlu (a : ℕ) : CpuEffect → Prop
  | .write (.resultBuf b) _ | .write (.aluTask b) _ | .reduce (.aluBusy b) _ => b = a
  | _ => False

theorem ofAlu_aluTick {a : ℕ} {s : Latched} {e : CpuEffect} (he : e ∈ aluTick a s) :
    OfHelper (aluHelper a) e ∨ OfAlu a e ∨
      (e = .fail .assertion ∧ bhShouldClear s = false ∧ s.rr (.aluBusy a) = true ∧
        aluResult (s.rm.aluTask a) = none) := by
  rcases mem_aluTick.1 he with ⟨-, rfl⟩ |
    ⟨msg, -, ⟨b, -, he | rfl | ⟨-, rfl | rfl⟩⟩ | ⟨-, -, rfl⟩⟩ | ⟨hs, -, hbusy, hx, he | rfl⟩
  · exact .inr (.inl rfl)
  · exact .inl (ofHelper_bhAcquire he)
  · exact .inl rfl
  · exact .inr (.inl rfl)
  · exact .inr (.inl rfl)
  · exact .inr (.inl rfl)
  · exact .inl (ofHelper_bhAcquire he)
  · exact .inr (.inr ⟨rfl, hs, hbusy, Option.map_eq_none_iff.2 hx⟩)

section
variable {a : ℕ} {s : Latched} {e : CpuEffect} (hb : s.rm.busClear = 0)
include hb

omit [WideShift] in
theorem not_bhShouldClear : bhShouldClear s = false := by simp [bhShouldClear, hb]

omit [WideShift] in
theorem aluTask_eq (task : AluTask) : aluTask s a task =
    if bhShouldStall s (aluHelper a) then ([], false)
    else ([.write (.aluTask a) task, .reduce (.aluBusy a) true], true) := by
  simp [aluTask, not_bhShouldClear hb]

theorem bufferWrites_aluTick : bufferWrites (aluHelper a) (aluTick a s) =
    (if (s.acquired (aluHelper a)).isSome then s.aluMsg a else none).toList := by
  have hacq := bufferWrites_bhAcquire (s := s) (h := aluHelper a)
  simp only [aluTick, not_bhShouldClear hb, Bool.false_eq_true, ↓reduceIte, Latched.acquired,
    Latched.aluMsg]
  generalize bhAcquire s (aluHelper a) = acq at hacq ⊢
  obtain ⟨es, ob⟩ := acq
  have hacq : bufferWrites (aluHelper a) es = [] := hacq
  cases (s.rm.resultBuf a).busy
  · cases s.rr (.aluBusy a)
    · cases ob <;> rfl
    · cases aluExecute (s.rm.aluTask a).op (s.rm.aluTask a).value1 (s.rm.aluTask a).value2
      · cases ob <;> exact (bufferWrites_append ..).trans (by rw [hacq]; rfl)
      · cases ob
        · exact (bufferWrites_append ..).trans (by rw [hacq]; rfl)
        · exact (bufferWrites_append ..).trans (by rw [hacq, bufferWrites_singleton]; rfl)
  · cases ob
    · exact hacq
    · refine (bufferWrites_append ..).trans ?_
      rw [hacq, List.nil_append, ← List.singleton_append, bufferWrites_append,
        bufferWrites_singleton]
      rfl

omit [WideShift] hb in
theorem busWrites_eq_nil {es : List CpuEffect} (hn : ∀ msg, .write .busData msg ∉ es) :
    busWrites es = [] := by
  rw [busWrites, List.filterMap_eq_nil_iff]
  intro e he
  rcases e with ⟨r, v⟩ | ⟨r, v⟩ | p | f
  · cases r with
    | busData => exact absurd he (hn v)
    | _ => rfl
  · rfl
  · rfl
  · rfl

omit [WideShift] in
theorem busWrites_bhTick {h : ℕ} (ok : HelperOk s h) : busWrites (bhTick h s) =
    (if s.gnt = h + 1 then (s.helperQueue h).head? else none).toList := by
  have hother := ok.other
  rcases Bool.eq_false_or_eq_true (s.rr (.bhBusy h (s.rm.current h))) with hx | hx <;>
    rcases Bool.eq_false_or_eq_true (s.rr (.bhBusy h (bhOther (s.rm.current h)))) with hy | hy <;>
    by_cases hg : s.gnt = h + 1 <;>
    simp_all [bhTick, busWrites, Latched.helperQueue, busArbStatus, busArbReq]

theorem names_aluTick (msg : CdbMessage) :
    (names (aluTick a s)).Sublist (names (bhSend s (aluHelper a) msg) ++ [.resultBuf a]) := by
  rw [names_bhSend hb, ← names_bhAcquire hb, Latched.acquired]
  simp only [aluTick, not_bhShouldClear hb, Bool.false_eq_true, ↓reduceIte]
  generalize bhAcquire s (aluHelper a) = acq
  obtain ⟨es, ob⟩ := acq
  cases (s.rm.resultBuf a).busy <;> cases s.rr (.aluBusy a) <;>
    cases aluExecute (s.rm.aluTask a).op (s.rm.aluTask a).value1 (s.rm.aluTask a).value2 <;>
    cases ob <;> simp

theorem nodup_names_aluCalls (hc : s.rm.current (aluHelper a) = 0 ∨ s.rm.current (aluHelper a) = 1)
    (task : Option AluTask) : (names ((aluCalls task).flatMap (AluCall.effects a s))).Nodup := by
  have htask : (names ((task.toList.map .task).flatMap (AluCall.effects a s))).Sublist
      [.aluTask a] := by
    cases task with
    | none => simp
    | some t =>
      simp only [Option.toList_some, List.map_cons, List.map_nil, List.flatMap_cons,
        List.flatMap_nil, List.append_nil, AluCall.effects, aluTask_eq hb]
      split_ifs <;> simp
  have hall : (names (bhTick (aluHelper a) s ++
      (some CdbMessage.zero).toList.flatMap (bhSend s (aluHelper a))) ++
        [CpuReg.resultBuf a, CpuReg.aluTask a]).Nodup := by
    rw [List.nodup_append]
    refine ⟨nodup_names_helper hb hc _, by simp, fun r hr r' hr' he => ?_⟩
    subst he
    rcases mem_names_helper hr with ⟨rfl, -⟩ | rfl | rfl | ⟨b, rfl⟩ <;> simp at hr'
  refine hall.sublist ?_
  simp only [aluCalls, List.flatMap_cons, AluCall.effects, names_append, Option.toList_some,
    List.flatMap_nil, List.append_nil, List.append_assoc]
  refine (List.Sublist.refl _).append ?_
  simpa using (names_aluTick (a := a) hb .zero).append htask

end

section
variable {a : ℕ} {st : AluState} (ok : AluMeets a st) (t : AluTick)
include ok

omit t in
/-- The grant does not matter to the state of the helper. -/
theorem AluMeets.helper_latch {gnt : ℕ} : HelperOk (st.latch gnt) (aluHelper a) :=
  ⟨ok.helper.current, ok.helper.other, ok.helper.req⟩

theorem aluEffect_iff {e : CpuEffect} :
    (∃ x ∈ t.order, e ∈ AluCall.effects a (st.latch t.gnt) x) ↔
      e ∈ bhTick (aluHelper a) (st.latch t.gnt) ∨ e ∈ aluTick a (st.latch t.gnt) ∨
        ∃ task, st.accepts a t = some task ∧
          (e = .write (.aluTask a) task ∨ e = .reduce (.aluBusy a) true) := by
  have htask : ∀ task, e ∈ (aluTask (st.latch t.gnt) a task).1 ↔
      (aluTask (st.latch t.gnt) a task).2 = true ∧
        (e = .write (.aluTask a) task ∨ e = .reduce (.aluBusy a) true) := by
    intro task
    rw [aluTask_eq (s := st.latch t.gnt) ok.busClear]
    split <;> simp
  rw [← List.mem_flatMap, (t.perm.flatMap_right _).mem_iff]
  simp only [aluCalls, List.flatMap_cons, List.flatMap_map, AluCall.effects, List.mem_append,
    List.mem_flatMap, Option.mem_toList, htask, AluState.accepts, Option.filter_eq_some_iff,
    and_assoc]

omit ok in
theorem perm_effects_alu : (st.effects a t).Perm (bhTick (aluHelper a) (st.latch t.gnt) ++
    (aluTick a (st.latch t.gnt) ++
      t.task.toList.flatMap fun task => (aluTask (st.latch t.gnt) a task).1)) := by
  refine (t.perm.flatMap_right _).trans (.of_eq ?_)
  simp only [aluCalls, List.flatMap_cons, List.flatMap_map, AluCall.effects]

theorem bufferWrites_effects_alu : bufferWrites (aluHelper a) (st.effects a t) =
    (if ((st.latch t.gnt).acquired (aluHelper a)).isSome then (st.latch t.gnt).aluMsg a
      else none).toList := by
  apply perm_toList
  refine ((perm_effects_alu t).filterMap _).trans (.of_eq ?_)
  change bufferWrites (aluHelper a) _ = _
  have htask : bufferWrites (aluHelper a)
      (t.task.toList.flatMap fun task => (aluTask (st.latch t.gnt) a task).1) = [] := by
    refine bufferWrites_eq_nil fun b msg hm => ?_
    obtain ⟨task, -, hm⟩ := List.mem_flatMap.1 hm
    rw [aluTask_eq (s := st.latch t.gnt) ok.busClear] at hm
    split at hm <;> simp at hm
  rw [bufferWrites_append, bufferWrites_append, bufferWrites_bhTick, htask, List.nil_append,
    List.append_nil, bufferWrites_aluTick (s := st.latch t.gnt) ok.busClear]

theorem busWrites_effects_alu : busWrites (st.effects a t) =
    (if t.gnt = aluHelper a + 1 then ((st.latch 0).helperQueue (aluHelper a)).head?
      else none).toList := by
  apply perm_toList
  refine ((perm_effects_alu t).filterMap _).trans (.of_eq ?_)
  change busWrites _ = _
  have hrest : busWrites (aluTick a (st.latch t.gnt) ++
      t.task.toList.flatMap fun task => (aluTask (st.latch t.gnt) a task).1) = [] := by
    refine busWrites_eq_nil fun msg hm => ?_
    rcases List.mem_append.1 hm with hm | hm
    · rcases ofAlu_aluTick hm with ho | ho | ⟨he, -⟩
      · exact ho
      · exact ho
      · cases he
    · obtain ⟨task, -, hm⟩ := List.mem_flatMap.1 hm
      rw [aluTask_eq (s := st.latch t.gnt) ok.busClear] at hm
      split at hm <;> simp at hm
  rw [busWrites, List.filterMap_append, ← busWrites, ← busWrites, hrest, List.append_nil,
    busWrites_bhTick (s := st.latch t.gnt) ok.busClear ok.helper_latch]
  rfl

theorem aluClockTick_cases :
    (∃ cpu, run PlainOp.act (fun x _ => AluCall.effects a (st.latch t.gnt) x) t.order
      (latchNext st.cpu) = .ok cpu) ∨
    (run PlainOp.act (fun x _ => AluCall.effects a (st.latch t.gnt) x) t.order
        (latchNext st.cpu) = .error .assertion ∧
      none ∈ st.accepted.map aluResult) := by
  have hn : (names (t.order.flatMap (AluCall.effects a (st.latch t.gnt)))).Nodup :=
    ((t.perm.flatMap_right _).filterMap _).nodup_iff.2
      (nodup_names_aluCalls (s := st.latch t.gnt) ok.busClear ok.helper.current t.task)
  rw [run_const]
  refine (applyAll_cases hn fun _ _ => rfl).imp id ?_
  rintro ⟨f, hf, he⟩
  rcases (aluEffect_iff ok t).1 (List.mem_flatMap.1 hf) with hf | hf | ⟨task, -, hf | hf⟩
  · rcases ofHelper_bhTick hf with ho | ⟨-, v, he⟩
    · exact ho.elim
    · cases he
  · rcases ofAlu_aluTick hf with ho | ho | ⟨hf, -, hbusy, hx⟩
    · exact ho.elim
    · exact ho.elim
    · cases hf
      refine ⟨he, ?_⟩
      have hbusy' : (st.latch 0).rr (.aluBusy a) = true := hbusy
      have hnone : aluResult ((st.latch 0).rm.aluTask a) = none := hx
      rw [ok.results, Latched.aluItems, hbusy', hnone]
      simp
  · cases hf
  · cases hf

variable {cpu : Cpu} (hr : run PlainOp.act (fun x _ => AluCall.effects a (st.latch t.gnt) x)
  t.order (latchNext st.cpu) = .ok cpu)
include hr

theorem AluMeets.aluMsg_isSome (h : (st.latch t.gnt).rr (.aluBusy a) = true) :
    ((st.latch t.gnt).aluMsg a).isSome = true := by
  have hs := not_bhShouldClear (s := st.latch t.gnt) ok.busClear
  cases hb : ((st.latch t.gnt).rm.resultBuf a).busy with
  | true => simp [Latched.aluMsg, hs, hb]
  | false =>
    by_contra hm
    have hx : aluExecute ((st.latch t.gnt).rm.aluTask a).op ((st.latch t.gnt).rm.aluTask a).value1
        ((st.latch t.gnt).rm.aluTask a).value2 = none := by
      simpa [Latched.aluMsg, hs, hb, h] using hm
    have hf : Effect.fail .assertion ∈ aluTick a (st.latch t.gnt) :=
      mem_aluTick.2 (.inr (.inr ⟨hs, hb, h, hx, .inr rfl⟩))
    rw [run_const] at hr
    exact applyAll_no_fail hr .assertion
      (List.mem_flatMap.2 ((aluEffect_iff ok t).2 (.inr (.inl hf))))

theorem AluMeets.helperStep : HelperStep (st.latch t.gnt) ((st.after a t cpu).latch 0)
    (aluHelper a) ((st.latch t.gnt).aluMsg a) := by
  refine HelperStep.of_run rfl rfl rfl ok.busClear hr fun e he => ?_
  rw [aluEffect_iff ok t]
  refine or_congr_right ?_
  constructor
  · rintro (hx | ⟨task, -, rfl | rfl⟩)
    · rcases mem_aluTick.1 hx with ⟨-, rfl⟩ |
        ⟨msg, hm, ⟨b, hq, hx | rfl | ⟨-, rfl | rfl⟩⟩ | ⟨-, -, rfl⟩⟩ | ⟨hs, hb, hbusy, hnone, -⟩
      · exact he.elim
      · exact ⟨msg, hm, mem_bhSend.2 ⟨b, hq, .inl hx⟩⟩
      · exact ⟨msg, hm, mem_bhSend.2 ⟨b, hq, .inr rfl⟩⟩
      · exact he.elim
      · exact he.elim
      · exact he.elim
      · have := ok.aluMsg_isSome t hr hbusy
        simp [Latched.aluMsg, hs, hb, hbusy, hnone] at this
    · exact he.elim
    · exact he.elim
  · rintro ⟨msg, hm, hx⟩
    obtain ⟨b, hq, hx | rfl⟩ := mem_bhSend.1 hx
    · exact .inl (mem_aluTick.2 (.inr (.inl ⟨msg, hm, .inl ⟨b, hq, .inl hx⟩⟩)))
    · exact .inl (mem_aluTick.2 (.inr (.inl ⟨msg, hm, .inl ⟨b, hq, .inr (.inl rfl)⟩⟩)))

theorem AluMeets.busClear_step : ((st.after a t cpu).latch 0).rm.busClear = 0 := by
  rcases run_const_next hr .busClear with ⟨x, hx, v, hv, -⟩ | ⟨-, hk⟩
  · rcases (aluEffect_iff ok t).1 ⟨x, hx, hv⟩ with he | he | ⟨task, -, he | he⟩
    · rcases ofHelper_bhTick he with ho | ⟨-, w, he⟩
      · exact ho.elim
      · cases he
    · rcases ofAlu_aluTick he with ho | ho | ⟨he, -⟩
      · exact ho.elim
      · exact ho.elim
      · cases he
    · cases he
    · cases he
  · exact hk.trans ok.busClear

theorem AluMeets.resultBuf_kept (hn : ∀ v, .write (.resultBuf a) v ∉ aluTick a (st.latch t.gnt)) :
    ((st.after a t cpu).latch 0).rm.resultBuf a = (st.latch t.gnt).rm.resultBuf a := by
  rcases run_const_next hr (.resultBuf a) with ⟨x, hx, v, hv, -⟩ | ⟨-, hk⟩
  · rcases (aluEffect_iff ok t).1 ⟨x, hx, hv⟩ with he | he | ⟨task, -, he | he⟩
    · rcases ofHelper_bhTick he with ho | ⟨-, w, he⟩
      · exact ho.elim
      · cases he
    · exact absurd he (hn v)
    · cases he
    · cases he
  · exact hk

theorem AluMeets.aluStep :
    AluStep (st.latch t.gnt) ((st.after a t cpu).latch 0) a (st.accepts a t) where
  resultBuf := by
    have hs := not_bhShouldClear (s := st.latch t.gnt) ok.busClear
    have written : ∀ {v}, .write (.resultBuf a) v ∈ aluTick a (st.latch t.gnt) →
        ((st.after a t cpu).latch 0).rm.resultBuf a = v := by
      intro v hv
      obtain ⟨x, hx, hv⟩ := (aluEffect_iff ok t).2 (.inr (.inl hv))
      exact run_const_write hr hx hv
    split
    · rename_i msg hm hq hb
      exact written (mem_aluTick.2 (.inr (.inl ⟨msg, hm, .inr ⟨hq, hb, rfl⟩⟩)))
    · rename_i msg x hm hq hb
      exact written (mem_aluTick.2
        (.inr (.inl ⟨msg, hm, .inl ⟨x, hq, .inr (.inr ⟨hb, .inl rfl⟩)⟩⟩)))
    · rename_i h₁ h₂
      refine ok.resultBuf_kept t hr fun v hv => ?_
      rcases mem_aluTick.1 hv with ⟨h, -⟩ |
        ⟨msg, hm, ⟨b, hq, hx | he | ⟨hb, -⟩⟩ | ⟨hq, hb, -⟩⟩ | ⟨-, -, -, -, hx | he⟩
      · simp [hs] at h
      · exact (ofHelper_bhAcquire hx).elim
      · cases he
      · exact h₂ msg b hm hq hb
      · exact h₁ msg hm hq hb
      · exact (ofHelper_bhAcquire hx).elim
      · cases he
  aluBusy := by
    rw [Bool.eq_iff_iff]
    refine (run_const_reduced hr (fun _ => rfl) (.aluBusy a)).trans ?_
    have hacc : (∃ task, st.accepts a t = some task ∧
        ((.reduce (.aluBusy a) true : CpuEffect) = .write (.aluTask a) task ∨
          (.reduce (.aluBusy a) true : CpuEffect) = .reduce (.aluBusy a) true)) ↔
        (st.accepts a t).isSome = true := by
      simp [Option.isSome_iff_exists]
    rw [aluEffect_iff ok t, hacc]
    simp [mem_bhTick, mem_aluTick, mem_bhAcquire, Option.isSome_iff_exists, and_assoc]
  aluTask := by
    intro task ht
    obtain ⟨x, hx, hv⟩ := (aluEffect_iff ok t).2 (.inr (.inr ⟨task, ht, .inl rfl⟩))
    exact run_const_write hr hx hv
  room := by
    intro hq
    have hstall : bhShouldStall (st.latch t.gnt) (aluHelper a) = true :=
      acquired_eq_none_iff.1 hq
    refine Option.filter_eq_none_iff.2 fun task _ => ?_
    simp [aluTask_eq (s := st.latch t.gnt) ok.busClear, hstall]

theorem AluMeets.step : AluMeets a (st.after a t cpu) := by
  have hs := not_bhShouldClear (s := st.latch t.gnt) ok.busClear
  have hmsg : ∀ msg, ((st.latch t.gnt).rm.resultBuf a).busy = false →
      (st.latch t.gnt).aluMsg a = some msg →
        some msg = aluResult ((st.latch t.gnt).rm.aluTask a) := by
    intro msg hb hm
    simp only [Latched.aluMsg, hs, hb, Bool.false_eq_true, ↓reduceIte] at hm
    split at hm
    · exact hm.symm
    · cases hm
  obtain ⟨notBoth, items⟩ := (ok.aluStep t hr).items (f := some) (g := aluResult) hs ok.notBoth
    (ok.aluMsg_isSome t hr) hmsg
  obtain ⟨helper, queue⟩ :=
    (ok.helperStep t hr).queue (s := st.latch t.gnt) ok.helper_latch ok.busClear
  refine ⟨ok.busClear_step t hr, helper, notBoth, ?_, ?_⟩
  · calc (st.after a t cpu).accepted.map aluResult
        = st.accepted.map aluResult ++ (st.accepts a t).toList.map aluResult := List.map_append
      _ = st.written.map some ++ ((st.latch t.gnt).aluItems some aluResult a ++
            (st.accepts a t).toList.map aluResult) := by
          rw [ok.results, List.append_assoc]
          rfl
      _ = (st.written ++ bufferWrites (aluHelper a) (st.effects a t)).map some ++
            ((st.after a t cpu).latch 0).aluItems some aluResult a := by
          rw [bufferWrites_effects_alu ok t, ← items, List.map_append, List.append_assoc]
          rfl
  · have hsplit : (st.latch 0).helperQueue (aluHelper a) = busWrites (st.effects a t) ++
        if t.gnt = aluHelper a + 1 then ((st.latch 0).helperQueue (aluHelper a)).tail
        else (st.latch 0).helperQueue (aluHelper a) := by
      rw [busWrites_effects_alu ok t]
      split
      · cases (st.latch 0).helperQueue (aluHelper a) <;> rfl
      · rfl
    calc (st.after a t cpu).written
        = st.granted ++ (st.latch 0).helperQueue (aluHelper a) ++
            bufferWrites (aluHelper a) (st.effects a t) := by
          rw [← ok.buffers]
          rfl
      _ = st.granted ++ busWrites (st.effects a t) ++
            ((st.after a t cpu).latch 0).helperQueue (aluHelper a) := by
          rw [queue, ← bufferWrites_effects_alu ok t, hsplit]
          simp only [List.append_assoc]
          rfl

end

theorem aluMeets_aluCreate (a : ℕ) : AluMeets a aluCreate where
  busClear := rfl
  helper := ⟨.inl rfl, (fun h => by cases h), rfl⟩
  notBoth := fun h => by cases h.1
  results := rfl
  buffers := rfl

theorem AluMeets.run {a : ℕ} {st : AluState} (ok : AluMeets a st) (ts : List AluTick) :
    (∃ st', aluRun a ts st = .ok st' ∧ AluMeets a st') ∨
      (aluRun a ts st = .error .assertion ∧
        ∃ task, (task ∈ st.accepted ∨ ∃ t ∈ ts, t.task = some task) ∧ aluResult task = none) := by
  induction ts generalizing st with
  | nil => exact .inl ⟨st, rfl, ok⟩
  | cons t ts ih =>
    rw [aluRun, aluClockTick]
    rcases aluClockTick_cases ok t with ⟨cpu, hr⟩ | ⟨hr, hnone⟩
    · rw [hr]
      refine (ih (ok.step t hr)).imp_right fun ⟨he, task, htask, hx⟩ => ⟨he, task, ?_, hx⟩
      rcases htask with htask | ⟨u, hu, htask⟩
      · rcases List.mem_append.1 htask with htask | htask
        · exact .inl htask
        · have ht := (Option.filter_eq_some_iff.1 (Option.mem_toList.1 htask)).1
          exact .inr ⟨t, List.mem_cons_self, ht⟩
      · exact .inr ⟨u, List.mem_cons_of_mem _ hu, htask⟩
    · rw [hr]
      obtain ⟨task, htask, hx⟩ := List.mem_map.1 hnone
      exact .inr ⟨rfl, task, .inl htask, hx⟩

/-- An ALU works off its tasks in order, and stops at one whose op it does not
    know. -/
theorem alu_loses_nothing (a : ℕ) (ts : List AluTick) :
    (∃ st, aluRun a ts aluCreate = .ok st ∧ AluMeets a st) ∨
      (aluRun a ts aluCreate = .error .assertion ∧
        ∃ t ∈ ts, ∃ task, t.task = some task ∧ aluResult task = none) := by
  refine ((aluMeets_aluCreate a).run ts).imp_right fun ⟨he, task, htask, hx⟩ => ⟨he, ?_⟩
  rcases htask with htask | ⟨t, ht, htask⟩
  · cases htask
  · exact ⟨t, ht, task, htask, hx⟩

end TomasuloCpu
