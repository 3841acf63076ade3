import TomasuloCpu.Helper
import TomasuloCpu.Library.Transfer

set_option autoImplicit false

/-!
# Carriers of results

The places that can carry the result of a reorder buffer entry: each step moves
a carrier from one place to the next.
-/
namespace TomasuloCpu
open Clocked Transfer

/-- The entry and the instruction whose result is carried. -/
abbrev Key := RobId × ℕ

def CdbMessage.key (msg : CdbMessage) : Key := (msg.rob, msg.seq)

def RsPayload.key (data : RsPayload) : Key := (data.dest, data.seq)

namespace Latched
variable (s : Latched)

def rsKey (rs : RsId) : Key := (s.rm.rsPayload rs).key

def rsKeys : List Key := (stations.filter fun rs => s.rm.rsBusy rs).map s.rsKey

def aluKeys (a : ℕ) : List Key :=
  (if s.rr (.aluBusy a) then [(s.rm.aluTask a).baseMsg.key] else []) ++
    if (s.rm.resultBuf a).busy then [(s.rm.resultBuf a).msg.key] else []

def helperKeys (h : ℕ) : List Key := (s.helperQueue h).map CdbMessage.key

def busKeys : List Key := s.busQueue.map CdbMessage.key

def lsqKeys : List Key :=
  (s.lsq.filter fun slot => (s.rm.lsq.data slot).op = .load && !(s.rm.lsq.data slot).cleared).map
    fun slot => (s.rm.lsq.data slot).baseMsg.key

def memKeys : List Key :=
  (memSlots.filter fun i => s.rr (.loadBusy i)).map fun i => (s.rm.loadReq i).baseMsg.key

def carriers : List Key :=
  s.rsKeys ++ (s.aluKeys 0 ++ s.aluKeys 1) ++
    (s.helperKeys 0 ++ s.helperKeys 1 ++ s.helperKeys 2) ++ s.busKeys ++ s.lsqKeys ++ s.memKeys

def robKey (slot : ℤ) : Key := (robId slot, (s.rm.robPayload slot).seq)

def openKeys : List Key := (s.robs.filter fun slot => !s.rm.robReady slot).map s.robKey

end Latched

def LsQueuePayload.live (payload : LsQueuePayload) : Bool :=
  payload.op = .load && !payload.cleared

namespace Latched
variable (s : Latched)

def freed : List RsId :=
  (s.aluFrees 0).toList ++ (s.aluFrees 1).toList ++ s.loadPick.toList ++ s.storeFrees.toList

def dispatchKeys (q p : Plain) : List Key :=
  (s.dispatch p).toList.map fun _ => (robId s.rm.robs.tail, q.dispatched)

def loadFills : List ℕ := if s.issuesLoad.isSome then s.loadSlot.toList else []

def granted (h : ℕ) : List CdbMessage :=
  if s.gnt = h + 1 then (s.helperQueue h).take 1 else []

end Latched

section
variable {s : Latched} {p : Plain}

theorem stations_nodup : stations.Nodup := by decide

theorem ready_busy {rs : RsId} (h : s.ready rs = true) : s.rm.rsBusy rs = true := by
  simp only [Latched.ready, Bool.and_eq_true] at h
  exact h.1.1

theorem aluPick_spec {a : ℕ} {rs : RsId} (h : s.aluPick a = some rs) :
    a < aluCount ∧ (aluStations.filter s.ready)[a]? = some rs ∧ rs ∈ aluStations ∧
      s.ready rs = true := by
  simp only [Latched.aluPick] at h
  split_ifs at h with hc hlt
  have hm := List.mem_filter.1 (List.mem_of_getElem? h)
  exact ⟨hlt, h, hm.1, hm.2⟩

theorem aluPick_of_frees {a : ℕ} {rs : RsId} (h : s.aluFrees a = some rs) :
    s.aluPick a = some rs := by
  simp only [Latched.aluFrees] at h
  split_ifs at h
  exact h

theorem aluFrees_of_starts {a : ℕ} {rs : RsId} (h : s.aluStarts a = some rs) :
    s.aluFrees a = some rs := by
  simp only [Latched.aluStarts] at h
  split_ifs at h
  exact h

theorem loadPick_spec {rs : RsId} (h : s.loadPick = some rs) :
    rs ∈ loadBuffers ∧ s.ready rs = true := by
  simp only [Latched.loadPick] at h
  split_ifs at h
  have hp := List.find?_some h
  simp only [Bool.and_eq_true] at hp
  exact ⟨List.mem_of_find?_eq_some h, hp.1⟩

theorem storePick_spec {rs : RsId} (h : s.storePick = some rs) :
    rs ∈ storeBuffers ∧ s.storeReady rs = true := by
  simp only [Latched.storePick] at h
  split_ifs at h
  exact ⟨List.mem_of_find?_eq_some h, List.find?_some h⟩

theorem storePick_of_frees {rs : RsId} (h : s.storeFrees = some rs) : s.storePick = some rs := by
  simp only [Latched.storeFrees, Option.filter_eq_some_iff] at h
  exact h.1

theorem storeReady_busy {rs : RsId} (h : s.storeReady rs = true) : s.rm.rsBusy rs = true := by
  simp only [Latched.storeReady, Bool.and_eq_true] at h
  exact h.1

theorem dispatch_spec {rs : RsId} {inst : Inst} (h : s.dispatch p = some (rs, inst)) :
    inst = instDecode (memGetInst p.data s.rm.pc) ∧ inst.op ≠ InstOp.unimp ∧
      rs ∈ rsVec (instType inst) ∧ s.rm.rsBusy rs = false ∧ s.rm.forcePc.busy = false ∧
      robUnitFull s = false := by
  simp only [Latched.dispatch, rsUnitAcquire] at h
  split_ifs at h with hf hu
  obtain ⟨rs', hr, he⟩ := Option.map_eq_some_iff.1 h
  obtain ⟨rfl, rfl⟩ := Prod.mk.inj he
  have hb := List.find?_some hr
  simp only [Bool.or_eq_true, not_or, Bool.not_eq_true] at hf
  exact ⟨rfl, hu, List.mem_of_find?_eq_some hr, by simpa using hb, hf.1, hf.2⟩

theorem rsVec_subset {type : RsType} {rs : RsId} (h : rs ∈ rsVec type) : rs ∈ stations := by
  cases type <;> simp_all [rsVec, stations]

@[simp] theorem dispatchRsPayload_key {seq : ℕ} {rob : RobId} {inst : Inst} {pc : Addr}
    {old : RsPayload} : (dispatchRsPayload s seq rob inst pc old).key = (rob, seq) := by
  simp only [dispatchRsPayload]
  split <;> (try split_ifs) <;> rfl

theorem mem_freed {rs : RsId} : rs ∈ s.freed ↔ (∃ a, s.aluFrees a = some rs) ∨
    s.loadPick = some rs ∨ s.storeFrees = some rs := by
  have ha : (∃ a, s.aluFrees a = some rs) ↔ s.aluFrees 0 = some rs ∨ s.aluFrees 1 = some rs := by
    constructor
    · rintro ⟨a, h⟩
      have hlt := (aluPick_spec (aluPick_of_frees h)).1
      obtain rfl | rfl : a = 0 ∨ a = 1 := by
        simp only [aluCount] at hlt
        omega
      · exact .inl h
      · exact .inr h
    · rintro (h | h)
      · exact ⟨0, h⟩
      · exact ⟨1, h⟩
  simp [Latched.freed, ha, or_assoc]

theorem freed_busy {rs : RsId} (h : rs ∈ s.freed) : rs ∈ stations ∧ s.rm.rsBusy rs = true := by
  rcases mem_freed.1 h with ⟨a, h⟩ | h | h
  · obtain ⟨-, -, hm, hr⟩ := aluPick_spec (aluPick_of_frees h)
    exact ⟨by simp [stations, hm], ready_busy hr⟩
  · obtain ⟨hm, hr⟩ := loadPick_spec h
    exact ⟨by simp [stations, hm], ready_busy hr⟩
  · obtain ⟨hm, hr⟩ := storePick_spec (storePick_of_frees h)
    exact ⟨by simp [stations, hm], storeReady_busy hr⟩

theorem freed_nodup : s.freed.Nodup := by
  have hnd := stations_nodup
  simp only [stations, List.nodup_append] at hnd
  obtain ⟨⟨ha, -, hal⟩, -, hs⟩ := hnd
  have h01 : ∀ rs, s.aluFrees 0 = some rs → s.aluFrees 1 ≠ some rs := by
    intro rs h0 h1
    have e0 := (aluPick_spec (aluPick_of_frees h0)).2.1
    have e1 := (aluPick_spec (aluPick_of_frees h1)).2.1
    have := (List.nodup_iff_injective_get.1 (ha.filter s.ready))
    obtain ⟨l0, g0⟩ := List.getElem?_eq_some_iff.1 e0
    obtain ⟨l1, g1⟩ := List.getElem?_eq_some_iff.1 e1
    have hi : (0 : ℕ) = 1 :=
      (List.Nodup.getElem_inj_iff (ha.filter s.ready)).1 (g0.trans g1.symm)
    omega
  have hm : ∀ {a rs}, s.aluFrees a = some rs → rs ∈ aluStations := fun h =>
    (aluPick_spec (aluPick_of_frees h)).2.2.1
  have hl : ∀ {rs}, s.loadPick = some rs → rs ∈ loadBuffers := fun h => (loadPick_spec h).1
  have hst : ∀ {rs}, s.storeFrees = some rs → rs ∈ storeBuffers := fun h =>
    (storePick_spec (storePick_of_frees h)).1
  have hto : ∀ o : Option RsId, o.toList.Nodup := fun o => by cases o <;> simp
  simp only [Latched.freed]
  refine List.Nodup.append (List.Nodup.append (List.Nodup.append (hto _) (hto _) ?_) (hto _) ?_)
    (hto _) ?_
  · intro rs h0 h1
    exact h01 rs (by simpa using h0) (by simpa using h1)
  · intro rs h h'
    rw [List.mem_append] at h
    have h' := hl (by simpa using h')
    rcases h with h | h <;> exact hal _ (hm (by simpa using h)) _ h' rfl
  · intro rs h h'
    have h' := hst (by simpa using h')
    rw [List.mem_append, List.mem_append] at h
    rcases h with (h | h) | h
    · exact hs _ (List.mem_append_left _ (hm (by simpa using h))) _ h' rfl
    · exact hs _ (List.mem_append_left _ (hm (by simpa using h))) _ h' rfl
    · exact hs _ (List.mem_append_right _ (hl (by simpa using h))) _ h' rfl

theorem memReady_spec {i : ℕ} (h : s.memReady = some i) :
    s.rm.memClear = false ∧ i ∈ memSlots ∧ s.rr (.loadBusy i) = true ∧
      (s.rm.loadReq i).ticksRemaining ≤ 1 := by
  simp only [Latched.memReady] at h
  split_ifs at h with hc
  have hp := List.find?_some h
  simp only [Bool.and_eq_true, decide_eq_true_eq] at hp
  refine ⟨by simpa using hc, List.mem_of_find?_eq_some h, hp.1, ?_⟩
  have : (s.rm.loadReq i).ticksRemaining - 1 ≤ 0 := hp.2
  omega

theorem memSends_spec {data : MemData} {i : ℕ} (h : s.memSends data = some i) :
    s.memReady = some i ∧ (s.acquired 0).isSome ∧ (s.memMsg data i).isSome := by
  simp only [Latched.memSends, Option.filter_eq_some_iff, Bool.and_eq_true] at h
  exact h

theorem memMsg_key {data : MemData} {i : ℕ} {msg : CdbMessage} (h : s.memMsg data i = some msg) :
    msg.key = (s.rm.loadReq i).baseMsg.key := by
  obtain ⟨v, -, rfl⟩ := Option.map_eq_some_iff.1 h
  rfl

theorem loadSlot_spec {i : ℕ} (h : s.loadSlot = some i) :
    i ∈ memSlots ∧ s.rr (.loadBusy i) = false := by
  have h : memSlots.find? (fun i => !s.rr (.loadBusy i)) = some i := h
  exact ⟨List.mem_of_find?_eq_some h, by simpa using List.find?_some h⟩

theorem mem_loadFills {i : ℕ} : i ∈ s.loadFills ↔ s.issuesLoad.isSome ∧ s.loadSlot = some i := by
  unfold Latched.loadFills
  cases s.issuesLoad.isSome <;> simp

theorem lsqPop_spec {slot : ℤ} (h : s.lsqPop = some slot) :
    slot = s.rm.lsq.head ∧ s.rm.lsqClear = false ∧ s.rm.lsq.head ≠ s.rm.lsq.tail := by
  simp only [Latched.lsqPop] at h
  split_ifs at h with hn
  simp only [Bool.or_eq_true, not_or, queueEmpty, decide_eq_true_eq, Bool.not_eq_true] at hn
  exact ⟨by simpa using h.symm, hn.1.1, hn.2⟩

theorem lsq_pop (ctl : Control s) {slot : ℤ} (h : s.lsqPop = some slot) :
    s.lsq = slot :: s.lsq.tail := by
  obtain ⟨rfl, -, hne⟩ := lsqPop_spec h
  have := ctl.lsq.head?_queueForeach hne
  exact (List.cons_head?_tail this).symm

theorem lsqKeys_eq : s.lsqKeys =
    ((s.lsq.map s.rm.lsq.data).filter LsQueuePayload.live).map fun payload =>
      payload.baseMsg.key := by
  rw [Latched.lsqKeys, List.filter_map, List.map_map]
  rfl

theorem helperQueue_of_granted {h : ℕ} (ok : HelperOk s h) (hc : s.Computed)
    (hg : s.gnt = h + 1) : s.granted h = [s.rm.buffer h (s.rm.current h)] := by
  have hb : s.rr (.bhBusy h (s.rm.current h)) = true := by
    rw [← ok.req]
    exact (hc.granted hg).2.2
  simp [Latched.granted, hg, Latched.helperQueue, hb]

theorem Quiet.freed (hq : Quiet s) : s.freed = [] :=
  List.eq_nil_iff_forall_not_mem.2 fun rs h => by
    have := freed_busy h
    simp [hq.rsBusy rs this.1] at this

theorem Quiet.carriers (hq : Quiet s) : s.carriers = [] := by
  have hrs : s.rsKeys = [] := by
    simp only [Latched.rsKeys, List.map_eq_nil_iff, List.filter_eq_nil_iff]
    exact fun id hid => by simp [hq.rsBusy id hid]
  have halu : ∀ a < aluCount, s.aluKeys a = [] := fun a ha => by
    simp [Latched.aluKeys, hq.aluBusy a ha, hq.resultBuf a ha]
  have hh : ∀ h < helperCount, s.helperKeys h = [] := fun h hh => by
    simp [Latched.helperKeys, Latched.helperQueue, hq.bhBusy h hh]
  have hbus : s.busKeys = [] := by simp [Latched.busKeys, Latched.busQueue, hq.fire]
  have hlsq : s.lsqKeys = [] := by
    simp only [Latched.lsqKeys, List.map_eq_nil_iff, List.filter_eq_nil_iff]
    intro slot hs
    by_cases ho : (s.rm.lsq.data slot).op = .load
    · simp [hq.cleared slot hs ho]
    · simp [ho]
  have hmem : s.memKeys = [] := by
    simp only [Latched.memKeys, List.map_eq_nil_iff, List.filter_eq_nil_iff]
    exact fun i hi => by simp [hq.loadBusy i hi]
  simp [Latched.carriers, hrs, halu 0 (by decide), halu 1 (by decide), hh 0 (by decide),
    hh 1 (by decide), hh 2 (by decide), hbus, hlsq, hmem]

end

variable [WideShift] {s s' : Latched} {q p q' : Plain}

namespace Step
variable (st : Step s q p s' q')
include st

theorem rsBusy (hc : s.rm.rsClear = false) (id : RsId) : s'.rm.rsBusy id = true ↔
    (s.rm.rsBusy id = true ∧ id ∉ s.freed) ∨ id ∈ (s.dispatch p).toList.map Prod.fst := by
  have hd : id ∈ (s.dispatch p).toList.map Prod.fst ↔ ∃ inst, s.dispatch p = some (id, inst) := by
    simp
  have hfree : id ∈ s.freed → s'.rm.rsBusy id = false → (s'.rm.rsBusy id = true ↔
      (s.rm.rsBusy id = true ∧ id ∉ s.freed) ∨ ∃ inst, s.dispatch p = some (id, inst)) := by
    intro hf hv
    have hdn : ∀ inst, s.dispatch p ≠ some (id, inst) := by
      intro inst hd
      have hb := (dispatch_spec hd).2.2.2.1
      simp [(freed_busy hf).2] at hb
    simp [hv, hf, hdn]
  rw [hd]
  rcases st.cases (.rsBusy id) with
    ⟨v, ⟨h, -, -⟩ | ⟨h, rfl⟩ | ⟨h, -, rfl⟩ | ⟨h, rfl⟩ | ⟨inst, h, rfl⟩, hv⟩ | ⟨hn, hk⟩
  · simp [hc] at h
  · exact hfree (mem_freed.2 (.inl h)) hv
  · exact hfree (mem_freed.2 (.inr (.inl h))) hv
  · exact hfree (mem_freed.2 (.inr (.inr h))) hv
  · have hv : s'.rm.rsBusy id = true := hv
    simp [hv, h]
  · have hk : s'.rm.rsBusy id = s.rm.rsBusy id := hk
    have hf : id ∉ s.freed := by
      intro hf
      rcases mem_freed.1 hf with h | h | h
      · exact hn false (.inr (.inl ⟨h, rfl⟩))
      · exact hn false (.inr (.inr (.inl ⟨h, st.loadBlocked h, rfl⟩)))
      · exact hn false (.inr (.inr (.inr (.inl ⟨h, rfl⟩))))
    have hdn : ∀ inst, s.dispatch p ≠ some (id, inst) := fun inst h =>
      hn true (.inr (.inr (.inr (.inr ⟨inst, h, rfl⟩))))
    simp [hk, hf, hdn]

theorem rsPayload_dispatch {rs : RsId} {inst : Inst} (h : s.dispatch p = some (rs, inst)) :
    s'.rm.rsPayload rs = dispatchRsPayload s q.dispatched (robId s.rm.robs.tail) inst s.rm.pc
      (s.rm.rsPayload rs) := by
  have := st.written (r := .rsPayload rs) (.inr ⟨inst, h, rfl⟩)
  rw [st.seq] at this
  exact this

/-- A busy station keeps what it is for. -/
theorem rsKey_eq {rs : RsId} (hb : s.rm.rsBusy rs = true) : s'.rsKey rs = s.rsKey rs := by
  unfold Latched.rsKey
  rcases st.cases (.rsPayload rs) with ⟨v, ⟨-, -, -, msg, -, -, rfl⟩ | ⟨inst, h, -⟩, hv⟩ | ⟨-, hk⟩
  · have hv : s'.rm.rsPayload rs = _ := hv
    rw [hv]
    rfl
  · have := (dispatch_spec h).2.2.2.1
    simp [hb] at this
  · have hk : s'.rm.rsPayload rs = s.rm.rsPayload rs := hk
    rw [hk]

theorem rsKeys (hc : s.rm.rsClear = false) :
    (s'.rsKeys ++ s.freed.map s.rsKey).Perm (s.rsKeys ++ s.dispatchKeys q p) := by
  have hu : Update stations stations (fun rs => s.rm.rsBusy rs) (fun rs => s'.rm.rsBusy rs)
      s.freed ((s.dispatch p).toList.map Prod.fst) :=
    { nodup := stations_nodup
      nodup' := stations_nodup
      vacated_nodup := freed_nodup
      filled_nodup := by cases s.dispatch p <;> simp
      vacated := fun i hi => freed_busy hi
      filled := fun i hi => by
        obtain ⟨⟨rs, inst⟩, hd, rfl⟩ := List.mem_map.1 hi
        have := (dispatch_spec (Option.mem_toList.1 hd)).2.2.2.1
        simp [this]
      occupied := fun i => by
        rw [st.rsBusy hc]
        constructor
        · rintro ⟨hm, ⟨hb, hf⟩ | hd⟩
          · exact .inl ⟨hm, hb, hf⟩
          · exact .inr hd
        · rintro (⟨hm, hb, hf⟩ | hd)
          · exact ⟨hm, .inl ⟨hb, hf⟩⟩
          · refine ⟨?_, .inr hd⟩
            obtain ⟨⟨rs, inst⟩, hd', rfl⟩ := List.mem_map.1 hd
            exact rsVec_subset (dispatch_spec (Option.mem_toList.1 hd')).2.2.1 }
  have hp := hu.perm_map s.rsKey s'.rsKey fun i _ hb _ _ => st.rsKey_eq hb
  have hd : ((s.dispatch p).toList.map Prod.fst).map s'.rsKey = s.dispatchKeys q p := by
    rw [Latched.dispatchKeys, List.map_map]
    refine List.map_congr_left fun d hd => ?_
    have := st.rsPayload_dispatch (Option.mem_toList.1 hd)
    simp only [Function.comp, Latched.rsKey, this, dispatchRsPayload_key]
  rwa [hd] at hp

theorem aluTask_of_starts {a : ℕ} {rs : RsId} (h : s.aluStarts a = some rs) :
    s'.rm.aluTask a = rsTask (s.rm.rsPayload rs) :=
  st.written (r := .aluTask a) ⟨rs, h, rfl⟩

end Step

def AluOk (s : Latched) (a : ℕ) : Prop :=
  ¬(s.rr (.aluBusy a) = true ∧ (s.rm.resultBuf a).busy = true)

theorem aluMsg_key {a : ℕ} {msg : CdbMessage} (hb : (s.rm.resultBuf a).busy = false)
    (h : s.aluMsg a = some msg) : msg.key = (s.rm.aluTask a).baseMsg.key := by
  simp only [Latched.aluMsg, hb, Bool.false_eq_true, ↓reduceIte] at h
  split_ifs at h
  obtain ⟨v, -, rfl⟩ := Option.map_eq_some_iff.1 h
  rfl

variable {a : ℕ} {task : Option AluTask} {κ : Type}

/-- A tick as an ALU sees it; `task` is the task that it accepts. -/
structure AluStep (s s' : Latched) (a : ℕ) (task : Option AluTask) : Prop where
  resultBuf : s'.rm.resultBuf a =
    match s.aluMsg a, s.acquired (a + 1), (s.rm.resultBuf a).busy with
    | some msg, none, false => ⟨msg, true⟩
    | some _, some _, true => { s.rm.resultBuf a with busy := false }
    | _, _, _ => s.rm.resultBuf a
  aluBusy : s'.rr (.aluBusy a) = ((s.aluMsg a).isSome && (s.acquired (a + 1)).isSome &&
    (s.rm.resultBuf a).busy && s.rr (.aluBusy a) || task.isSome)
  aluTask : ∀ t, task = some t → s'.rm.aluTask a = t
  room : s.acquired (a + 1) = none → task = none

def Latched.aluItems (f : CdbMessage → κ) (g : AluTask → κ) (s : Latched) (a : ℕ) : List κ :=
  (if (s.rm.resultBuf a).busy then [f (s.rm.resultBuf a).msg] else []) ++
    if s.rr (.aluBusy a) then [g (s.rm.aluTask a)] else []

theorem AluStep.items_free (st : AluStep s s' a task) {f : CdbMessage → κ} {g : AluTask → κ}
    (hb : (s'.rm.resultBuf a).busy = false) (hbusy : s'.rr (.aluBusy a) = task.isSome) :
    AluOk s' a ∧ s'.aluItems f g a = task.toList.map g := by
  refine ⟨by simp [AluOk, hb], ?_⟩
  cases ht : task with
  | none => simp [Latched.aluItems, hb, hbusy, ht]
  | some t => simp [Latched.aluItems, hb, hbusy, ht, st.aluTask t ht]

theorem AluStep.items (st : AluStep s s' a task) {f : CdbMessage → κ} {g : AluTask → κ}
    (hs : bhShouldClear s = false) (ok : AluOk s a)
    (hmsg : s.rr (.aluBusy a) = true → (s.aluMsg a).isSome = true)
    (hfg : ∀ msg, (s.rm.resultBuf a).busy = false → s.aluMsg a = some msg →
      f msg = g (s.rm.aluTask a)) :
    AluOk s' a ∧
      (if (s.acquired (a + 1)).isSome then s.aluMsg a else none).toList.map f ++
        s'.aluItems f g a = s.aluItems f g a ++ task.toList.map g := by
  have hbusy : s'.rr (.aluBusy a) = task.isSome := by
    rw [st.aluBusy]
    cases hb : (s.rm.resultBuf a).busy <;> cases hbu : s.rr (.aluBusy a) <;> simp
    exact absurd ⟨hbu, hb⟩ ok
  have hres := st.resultBuf
  cases hb : (s.rm.resultBuf a).busy with
  | false =>
    cases hbu : s.rr (.aluBusy a) with
    | false =>
      -- nothing to send
      have hm : s.aluMsg a = none := by simp [Latched.aluMsg, hs, hb, hbu]
      rw [hm] at hres
      obtain ⟨ok', hi⟩ := st.items_free (f := f) (g := g) (by rw [hres, hb]) hbusy
      refine ⟨ok', ?_⟩
      rw [hi]
      simp [hm, Latched.aluItems, hb, hbu]
    | true =>
      obtain ⟨msg, hm⟩ := Option.isSome_iff_exists.1 (hmsg hbu)
      have hkey := hfg msg hb hm
      cases ha : s.acquired (a + 1) with
      | none =>
        rw [hm, ha, hb] at hres
        have ht := st.room ha
        subst ht
        refine ⟨by simp [AluOk, hbusy], ?_⟩
        simp [Latched.aluItems, hres, hbusy, hb, hbu, hkey]
      | some x =>
        rw [hm, ha, hb] at hres
        obtain ⟨ok', hi⟩ := st.items_free (f := f) (g := g) (by rw [hres, hb]) hbusy
        refine ⟨ok', ?_⟩
        rw [hi]
        simp [hm, Latched.aluItems, hb, hbu, hkey]
  | true =>
    have hbu : s.rr (.aluBusy a) = false := by
      by_contra h
      exact ok ⟨by simpa using h, hb⟩
    have hm : s.aluMsg a = some (s.rm.resultBuf a).msg := by simp [Latched.aluMsg, hs, hb]
    cases ha : s.acquired (a + 1) with
    | none =>
      rw [hm, ha, hb] at hres
      have ht := st.room ha
      subst ht
      refine ⟨by simp [AluOk, hbusy], ?_⟩
      simp [Latched.aluItems, hres, hbusy, hb, hbu]
    | some x =>
      rw [hm, ha, hb] at hres
      obtain ⟨ok', hi⟩ := st.items_free (f := f) (g := g) (by rw [hres]) hbusy
      refine ⟨ok', ?_⟩
      rw [hi]
      simp [hm, Latched.aluItems, hb, hbu]

namespace Step
variable (st : Step s q p s' q')
include st

theorem aluStep {a : ℕ} (ha : a < aluCount) (hs : bhShouldClear s = false) :
    AluStep s s' a ((s.aluFrees a).map fun rs => rsTask (s.rm.rsPayload rs)) where
  resultBuf := by
    split
    · rename_i msg hm hq hb
      exact st.written (r := .resultBuf a) ⟨ha, .inr ⟨msg, hm, .inr ⟨hq, hb, rfl⟩⟩⟩
    · rename_i msg x hm hq hb
      exact st.written (r := .resultBuf a) ⟨ha, .inr ⟨msg, hm, .inl ⟨by simp [hq], hb, rfl⟩⟩⟩
    · rename_i h₁ h₂
      refine st.kept (r := .resultBuf a) ?_
      rintro v ⟨-, ⟨h, -⟩ | ⟨msg, hm, ⟨hq, hb, -⟩ | ⟨hq, hb, -⟩⟩⟩
      · simp [hs] at h
      · obtain ⟨x, hx⟩ := Option.isSome_iff_exists.1 hq
        exact h₂ msg x hm hx hb
      · exact h₁ msg hm hq hb
  aluBusy := by
    rw [Bool.eq_iff_iff, st.raised]
    simp [Raised, ha, Latched.aluStarts, hs, and_assoc]
  aluTask := by
    intro t ht
    obtain ⟨rs, hf, rfl⟩ := Option.map_eq_some_iff.1 ht
    exact st.aluTask_of_starts (by simp [Latched.aluStarts, hs, hf])
  room := by
    intro hq
    rw [acquired_eq_none_iff] at hq
    simp [Latched.aluFrees, aluHelper, hq, hs]

theorem aluKeys {a : ℕ} (ha : a < aluCount) (hs : bhShouldClear s = false) (ok : AluOk s a) :
    AluOk s' a ∧ (s'.aluKeys a ++ (s.sent q.data (a + 1)).toList.map CdbMessage.key).Perm
      (s.aluKeys a ++ (s.aluFrees a).toList.map s.rsKey) := by
  have hkeys : ∀ s : Latched, (s.aluItems CdbMessage.key (fun t => t.baseMsg.key) a).Perm
      (s.aluKeys a) := fun s => List.perm_append_comm
  obtain ⟨ok', hi⟩ := (st.aluStep ha hs).items (f := CdbMessage.key)
    (g := fun t => t.baseMsg.key) hs ok (st.aluMsg_isSome ha hs) fun _ => aluMsg_key
  have htask : ((s.aluFrees a).map fun rs => rsTask (s.rm.rsPayload rs)).toList.map
      (fun t => t.baseMsg.key) = (s.aluFrees a).toList.map s.rsKey := by
    cases s.aluFrees a <;> rfl
  rw [htask] at hi
  refine ⟨ok', ?_⟩
  have hsent : (s'.aluKeys a ++ (s.sent q.data (a + 1)).toList.map CdbMessage.key).Perm
      ((s.sent q.data (a + 1)).toList.map CdbMessage.key ++
        s'.aluItems CdbMessage.key (fun t => t.baseMsg.key) a) :=
    List.perm_append_comm.trans ((hkeys s').symm.append_left _)
  exact hsent.trans ((List.Perm.of_eq hi).trans ((hkeys s).append_right _))

/-- What memory sends is the result of the slot that it completes. -/
theorem sent_mem : s.sent q.data 0 = (s.memSends q.data).bind (s.memMsg q.data) := by
  simp only [Latched.sent, Latched.memSends, Latched.outbox]
  cases hr : s.memReady with
  | none => simp
  | some i =>
    cases ha : s.acquired 0 with
    | none => simp [Option.filter_some]
    | some b =>
      have := st.memMsg_isSome hr (by simp [ha])
      simp [Option.filter_some, this]

theorem loadReq_issue {i : ℕ} {payload : LsQueuePayload} (h : s.issuesLoad = some payload)
    (hs : s.loadSlot = some i) : s'.rm.loadReq i = loadRequest payload :=
  st.written (r := .loadReq i) (.inr ⟨payload, h, hs, rfl⟩)

theorem loadReq_busy {i : ℕ} (hc : s.rm.memClear = false) (hi : i ∈ memSlots)
    (hb : s.rr (.loadBusy i) = true) : s'.rm.loadReq i =
      { s.rm.loadReq i with ticksRemaining := (s.rm.loadReq i).ticksRemaining - 1 } :=
  st.written (r := .loadReq i) (.inl ⟨hc, hi, hb, rfl⟩)

theorem loadBusy (hc : s.rm.memClear = false) (i : ℕ) : s'.rr (.loadBusy i) = true ↔
    (i ∈ memSlots ∧ s.rr (.loadBusy i) = true ∧ i ∉ (s.memSends q.data).toList) ∨
      i ∈ s.loadFills := by
  rw [st.raised, mem_loadFills]
  simp [Raised, hc]

theorem loadUpdate (hc : s.rm.memClear = false) : Update memSlots memSlots
    (fun i => s.rr (.loadBusy i)) (fun i => s'.rr (.loadBusy i)) (s.memSends q.data).toList
      s.loadFills where
  nodup := memSlots_nodup
  nodup' := memSlots_nodup
  vacated_nodup := by cases s.memSends q.data <;> simp
  filled_nodup := by
    unfold Latched.loadFills
    split
    · cases s.loadSlot <;> simp
    · simp
  vacated := fun i hi => by
    have := memReady_spec (memSends_spec (Option.mem_toList.1 hi)).1
    exact ⟨this.2.1, this.2.2.1⟩
  filled := fun i hi => by
    have := (loadSlot_spec (mem_loadFills.1 hi).2).2
    simp [this]
  occupied := fun i => by
    rw [st.loadBusy hc]
    constructor
    · rintro ⟨hm, ⟨-, hb, hs⟩ | hf⟩
      · exact .inl ⟨hm, hb, hs⟩
      · exact .inr hf
    · rintro (⟨hm, hb, hs⟩ | hf)
      · exact ⟨hm, .inl ⟨hm, hb, hs⟩⟩
      · exact ⟨(loadSlot_spec (mem_loadFills.1 hf).2).1, .inr hf⟩

theorem memKeys (hc : s.rm.memClear = false) :
    (s'.memKeys ++ (s.sent q.data 0).toList.map CdbMessage.key).Perm
      (s.memKeys ++ s.issuesLoad.toList.map fun payload => payload.baseMsg.key) := by
  have hp := (st.loadUpdate hc).perm_map (fun i => (s.rm.loadReq i).baseMsg.key)
    (fun i => (s'.rm.loadReq i).baseMsg.key) fun i hi hb _ _ => by
      rw [st.loadReq_busy hc hi hb]
  have hsent : (s.memSends q.data).toList.map (fun i => (s.rm.loadReq i).baseMsg.key) =
      (s.sent q.data 0).toList.map CdbMessage.key := by
    rw [st.sent_mem]
    cases hm : s.memSends q.data with
    | none => rfl
    | some i =>
      obtain ⟨msg, hmsg⟩ := Option.isSome_iff_exists.1 (memSends_spec hm).2.2
      simp [hmsg, memMsg_key hmsg]
  have hfill : s.loadFills.map (fun i => (s'.rm.loadReq i).baseMsg.key) =
      s.issuesLoad.toList.map fun payload => payload.baseMsg.key := by
    cases hl : s.issuesLoad with
    | none => simp [Latched.loadFills, hl]
    | some payload =>
      obtain ⟨i, hi⟩ := Option.isSome_iff_exists.1 (st.loadSlot (by simp [hl]))
      simp [Latched.loadFills, hl, hi, st.loadReq_issue hl hi, loadRequest]
  rwa [hsent, hfill] at hp

theorem lsqData (ctl : Control s) (hc : s.rm.lsqClear = false) {slot : ℤ} (hs : slot ∈ s.lsq) :
    s'.rm.lsq.data slot = s.rm.lsq.data slot :=
  st.kept (r := .lsq (.data slot)) (by
    rintro v (⟨h, -⟩ | ⟨rfl, -⟩)
    · simp [hc] at h
    · exact ctl.lsq.tail_notMem hs)

theorem lsqData_push {payload : LsQueuePayload} (h : s.lsqPush = some payload) :
    s'.rm.lsq.data s.rm.lsq.tail = payload :=
  st.written (r := .lsq (.data s.rm.lsq.tail)) (.inr ⟨rfl, st.lsqPushes_iff.2 h⟩)

theorem lsq_mem (ctl : Control s) {slot : ℤ} (h : slot ∈ s'.lsq) :
    slot ∈ s.lsq ∨ ∃ payload, s.lsqPush = some payload ∧ s'.rm.lsq.data slot = payload := by
  rw [st.lsq_eq ctl.lsqReg ctl.lsq, List.mem_append] at h
  rcases h with h | h
  · split_ifs at h
    · exact .inl (List.mem_of_mem_tail h)
    · exact .inl h
  · split_ifs at h with hp
    · obtain ⟨payload, hp⟩ := Option.isSome_iff_exists.1 hp
      rw [List.mem_singleton.1 h]
      exact .inr ⟨payload, hp, st.lsqData_push hp⟩
    · cases h

theorem lsqPayloads (ctl : Control s) (hc : s.rm.lsqClear = false) :
    s.lsqPop.toList.map s.rm.lsq.data ++ s'.lsq.map s'.rm.lsq.data =
      s.lsq.map s.rm.lsq.data ++ s.lsqPush.toList := by
  rw [st.lsq_eq ctl.lsqReg ctl.lsq]
  have hpush : (if s.lsqPush.isSome = true then [s.rm.lsq.tail] else []).map s'.rm.lsq.data =
      s.lsqPush.toList := by
    cases hp : s.lsqPush with
    | none => simp
    | some payload => simp [st.lsqData_push hp]
  have hkeep : ∀ l : List ℤ, (∀ slot ∈ l, slot ∈ s.lsq) →
      l.map s'.rm.lsq.data = l.map s.rm.lsq.data := fun l hl =>
    List.map_congr_left fun slot hs => st.lsqData ctl hc (hl slot hs)
  rw [List.map_append, hpush, ← List.append_assoc]
  congr 1
  cases hp : s.lsqPop with
  | none => simp [hkeep s.lsq fun _ h => h]
  | some slot =>
    have hcons := lsq_pop ctl hp
    simp only [Option.toList_some, Option.isSome_some, ↓reduceIte, List.map_cons, List.map_nil]
    rw [hkeep s.lsq.tail fun _ h => List.mem_of_mem_tail h]
    conv_rhs => rw [hcons]
    simp

theorem lsqKeys (ctl : Control s) (hc : s.rm.lsqClear = false) :
    s.issuesLoad.toList.map (fun payload => payload.baseMsg.key) ++ s'.lsqKeys =
      s.lsqKeys ++ s.loadPick.toList.map s.rsKey := by
  have h := congrArg (fun l => (l.filter LsQueuePayload.live).map fun payload =>
    payload.baseMsg.key) (st.lsqPayloads ctl hc)
  simp only [List.filter_append, List.map_append] at h
  rw [← lsqKeys_eq, ← lsqKeys_eq] at h
  have hpop : (s.lsqPop.toList.map s.rm.lsq.data).filter LsQueuePayload.live =
      s.issuesLoad.toList := by
    rw [Latched.issuesLoad, Latched.lsqIssue]
    cases s.lsqPop with
    | none => rfl
    | some slot =>
      cases hcl : (s.rm.lsq.data slot).cleared <;> cases hop : (s.rm.lsq.data slot).op <;>
        simp [Option.filter_some, LsQueuePayload.live, hcl, hop]
  have hpush : (s.lsqPush.toList.filter LsQueuePayload.live).map
      (fun payload => payload.baseMsg.key) = s.loadPick.toList.map s.rsKey := by
    rw [Latched.lsqPush]
    cases s.loadPick with
    | none =>
      cases s.storesHead <;> simp [LsQueuePayload.live, robStorePayload]
    | some rs =>
      simp [LsQueuePayload.live, rsLoadPayload, Latched.rsKey, RsPayload.key, CdbMessage.key]
  rwa [hpop, hpush] at h

theorem busQueue (ok : ∀ h < helperCount, HelperOk s h) :
    s'.busQueue = s.granted 0 ++ s.granted 1 ++ s.granted 2 := by
  have hfire : s'.rm.fire = (s.gnt != 0) := st.written (r := .fire) rfl
  rcases st.computed.gnt_cases with hg | ⟨h, hh, hg⟩
  · simp [Latched.busQueue, hfire, hg, Latched.granted]
  · have hgr := helperQueue_of_granted (ok h hh) st.computed hg
    have hb : s.rr (.bhBusy h (s.rm.current h)) = true := by
      rw [← (ok h hh).req]
      exact (st.computed.granted hg).2.2
    have hdata : s'.rm.busData = s.rm.buffer h (s.rm.current h) :=
      st.written (r := .busData) ⟨(st.computed.granted hg).2.1, h, hh, hb, hg, rfl⟩
    have hother : ∀ j, j ≠ h → s.granted j = [] := fun j hj => by
      have : s.gnt ≠ j + 1 := by omega
      simp [Latched.granted, this]
    have hq : s'.busQueue = s.granted h := by
      rw [hgr]
      simp [Latched.busQueue, hfire, hg, hdata]
    simp only [helperCount] at hh
    obtain rfl | rfl | rfl : h = 0 ∨ h = 1 ∨ h = 2 := by omega
    · rw [hq, hother 1 (by omega), hother 2 (by omega)]
      simp
    · rw [hq, hother 0 (by omega), hother 2 (by omega)]
      simp
    · rw [hq, hother 0 (by omega), hother 1 (by omega)]
      simp

theorem helperKeys {h : ℕ} (ok : HelperOk s h) (hh : h < helperCount) (hb : s.rm.busClear = 0) :
    (s.granted h).map CdbMessage.key ++ s'.helperKeys h =
      s.helperKeys h ++ (s.sent q.data h).toList.map CdbMessage.key := by
  rw [Latched.helperKeys, Latched.helperKeys, (st.helper ok hh hb).2, Latched.granted]
  split_ifs
  · rw [← List.map_append, ← List.map_append, ← List.append_assoc, ← List.drop_one,
      List.take_append_drop]
  · simp

theorem carriers (ctl : Control s) (hb : s.rm.busClear = 0)
    (hok : ∀ h < helperCount, HelperOk s h) (aok : ∀ a < aluCount, AluOk s a) :
    (s'.carriers ++ s.storeFrees.toList.map s.rsKey ++ s.busKeys).Perm
      (s.carriers ++ s.dispatchKeys q p) := by
  have hclear : s.rm.robs.clear = false := by
    rcases ctl.busClear with ⟨h, -⟩ | ⟨h, -, -⟩ | ⟨-, h⟩
    · omega
    · omega
    · exact h
  have hs : bhShouldClear s = false := by simp [bhShouldClear, hb]
  have hrs := st.rsKeys (ctl.rsClear.trans hclear)
  have ha0 := (st.aluKeys (a := 0) (by decide) hs (aok 0 (by decide))).2
  have ha1 := (st.aluKeys (a := 1) (by decide) hs (aok 1 (by decide))).2
  have hh0 := st.helperKeys (hok 0 (by decide)) (by decide) hb
  have hh1 := st.helperKeys (hok 1 (by decide)) (by decide) hb
  have hh2 := st.helperKeys (hok 2 (by decide)) (by decide) hb
  have hbus : s'.busKeys = _ := congrArg (List.map CdbMessage.key) (st.busQueue hok)
  have hlsq := st.lsqKeys ctl (ctl.lsqClear.trans hclear)
  have hmem := st.memKeys (ctl.memClear.trans hclear)
  refine List.perm_iff_count.2 fun k => ?_
  have hrs := hrs.count_eq k
  have ha0 := ha0.count_eq k
  have ha1 := ha1.count_eq k
  have hh0 := congrArg (List.count k) hh0
  have hh1 := congrArg (List.count k) hh1
  have hh2 := congrArg (List.count k) hh2
  have hbus := congrArg (List.count k) hbus
  have hlsq := congrArg (List.count k) hlsq
  have hmem := hmem.count_eq k
  simp only [Latched.carriers, Latched.freed, List.count_append, List.map_append, Nat.zero_add,
    Nat.reduceAdd] at *
  omega

/-- After the tick that follows the flags only a dispatched instruction is carried. -/
theorem carriers_quiet (ctl : Control s) (hb : s.rm.busClear = 1) (hq : Quiet s)
    (hok : ∀ h < helperCount, HelperOk s h) :
    s'.carriers.Perm (s.dispatchKeys q p) := by
  have hclear : s.rm.robs.clear = false := by
    rcases ctl.busClear with ⟨h, -⟩ | ⟨-, h, -⟩ | ⟨h, -⟩
    · omega
    · exact h
    · omega
  have hs : bhShouldClear s = true := by simp [bhShouldClear, hb]
  have hnil := hq.carriers
  simp only [Latched.carriers, List.append_eq_nil_iff] at hnil
  obtain ⟨⟨⟨⟨⟨hrs, -, -⟩, -⟩, -⟩, hlsq⟩, hmem⟩ := hnil
  have hfreed := hq.freed
  have hfn : ∀ a, s.aluFrees a = none := fun a => by
    by_contra h
    obtain ⟨rs, h⟩ := Option.ne_none_iff_exists'.1 h
    have := mem_freed.2 (.inl ⟨a, h⟩)
    simp [hfreed] at this
  have hl : s.loadPick = none := by
    by_contra h
    obtain ⟨rs, h⟩ := Option.ne_none_iff_exists'.1 h
    have := mem_freed.2 (.inr (.inl h))
    simp [hfreed] at this
  have hrs' := st.rsKeys (ctl.rsClear.trans hclear)
  simp only [hfreed, hrs, List.map_nil, List.append_nil, List.nil_append] at hrs'
  have halu : ∀ a < aluCount, s'.aluKeys a = [] := by
    intro a ha
    have hbusy : s'.rr (.aluBusy a) = false := by
      rw [st.not_raised]
      simp [Raised, Latched.aluMsg, hs, Latched.aluStarts]
    have hw := st.written (r := .resultBuf a) ⟨ha, .inl ⟨hs, rfl⟩⟩
    have hw : s'.rm.resultBuf a = _ := hw
    simp [Latched.aluKeys, hbusy, hw]
  have hh : ∀ h < helperCount, s'.helperKeys h = [] := fun h hh => by
    rw [Latched.helperKeys, (st.helper_clear ctl (by omega) (hok h hh) hh).2]
    rfl
  have hbus : s'.busKeys = [] := by
    rw [Latched.busKeys, st.busQueue hok]
    simp [Latched.granted, hq.gnt]
  have hlsq' := st.lsqKeys ctl (ctl.lsqClear.trans hclear)
  simp only [hlsq, hl, Option.toList_none, List.map_nil, List.append_nil,
    List.append_eq_nil_iff] at hlsq'
  have hmem' := st.memKeys (ctl.memClear.trans hclear)
  simp only [hmem, hlsq'.1, List.append_nil, List.perm_nil, List.append_eq_nil_iff] at hmem'
  simpa [Latched.carriers, halu 0 (by decide), halu 1 (by decide), hh 0 (by decide),
    hh 1 (by decide), hh 2 (by decide), hbus, hlsq'.2, hmem'.1] using hrs'

end Step

end TomasuloCpu
