import TomasuloCpu.Run

set_option autoImplicit false

/-!
# The flush

The flush flags rise together in the tick after a misprediction, for one tick,
and leave nothing in flight.
-/
namespace TomasuloCpu
open Clocked

/-- Nothing is in flight. -/
structure Quiet (s : Latched) : Prop where
  head : s.rm.robs.head = 0
  tail : s.rm.robs.tail = 0
  rsBusy : ∀ id ∈ stations, s.rm.rsBusy id = false
  robIds : ∀ x ∈ regIds, s.robIds x = 0
  aluBusy : ∀ a < aluCount, s.rr (.aluBusy a) = false
  resultBuf : ∀ a < aluCount, (s.rm.resultBuf a).busy = false
  bhBusy : ∀ h < helperCount, ∀ b, s.rr (.bhBusy h b) = false
  req : ∀ h < helperCount, s.rm.req h = false
  fire : s.rm.fire = false
  gnt : s.gnt = 0
  loadBusy : ∀ i ∈ memSlots, s.rr (.loadBusy i) = false
  cleared : ∀ slot ∈ s.lsq, (s.rm.lsq.data slot).op = .load →
    (s.rm.lsq.data slot).cleared = true

/-- The flush flags agree, and both queues are well formed. -/
structure Control (s : Latched) : Prop where
  rsClear : s.rm.rsClear = s.rm.robs.clear
  lsqClear : s.rm.lsqClear = s.rm.robs.clear
  memClear : s.rm.memClear = s.rm.robs.clear
  regClear : s.rm.regClear = s.rm.robs.clear
  forcePc : s.rm.forcePc.busy = s.rm.robs.clear
  busClear : (s.rm.busClear = 2 ∧ s.rm.robs.clear = true) ∨
    (s.rm.busClear = 1 ∧ s.rm.robs.clear = false ∧ Quiet s) ∨
    (s.rm.busClear = 0 ∧ s.rm.robs.clear = false)
  robs : QueueOk robCapacity s.rm.robs
  lsq : QueueOk lsQueueCapacity s.rm.lsq
  lsqReg : s.rm.lsq.clear = false

variable [WideShift] {s s' : Latched} {q p q' : Plain}

omit [WideShift] in
theorem Quiet.robs (hq : Quiet s) : s.robs = [] := by
  have h := hq.head.trans hq.tail.symm
  unfold Latched.robs queueForeach
  simp [robCapacity, queueForeachFrom, queueVisit, h]

omit [WideShift] in
theorem Latched.flushes_iff : s.flushes = true ↔ s.commits = true ∧
    (s.head.op = .branch ∨ s.head.op = .jalr) ∧ robIsMispredicted s.head = true := by
  simp [Latched.flushes, and_assoc]

omit [WideShift] in
theorem Latched.commits_of_flushes (h : s.flushes = true) : s.commits = true :=
  (Latched.flushes_iff.1 h).1

omit [WideShift] in
theorem Latched.clear_of_commits (h : s.commits = true) : s.rm.robs.clear = false := by
  simp only [Latched.commits, Bool.and_eq_true, Bool.not_eq_true'] at h
  exact h.1.1

omit [WideShift] in
theorem Latched.clear_of_flushes (h : s.flushes = true) : s.rm.robs.clear = false :=
  clear_of_commits (commits_of_flushes h)

omit [WideShift] in
theorem Latched.retires_of_flushes (h : s.flushes = true) : s.retires = true := by
  have hc := commits_of_flushes h
  rcases (Latched.flushes_iff.1 h).2.1 with ho | ho <;> simp [Latched.retires, hc, ho]

omit [WideShift] in
theorem Latched.not_flushes (h : s.retires = false) : s.flushes = false := by
  rw [← Bool.not_eq_true] at h ⊢
  exact mt retires_of_flushes h

namespace Step
variable (st : Step s q p s' q')
include st

theorem robsClear : s'.rm.robs.clear = s.flushes := by
  rcases st.cases (.robs .clear) with ⟨v, ⟨hc, rfl⟩ | ⟨hf, rfl⟩, hv⟩ | ⟨hn, hk⟩
  · cases hf : s.flushes
    · exact hv
    · rw [Latched.clear_of_flushes hf] at hc
      cases hc
  · rw [hf]
    exact hv
  · have hc : s.rm.robs.clear = false := by
      by_contra hc
      exact hn false (.inl ⟨by simpa using hc, rfl⟩)
    have hf : s.flushes = false := by
      by_contra hf
      exact hn true (.inr ⟨by simpa using hf, rfl⟩)
    rw [hf, ← hc]
    exact hk

theorem rsClear (hc : s.rm.rsClear = s.rm.robs.clear) : s'.rm.rsClear = s.flushes := by
  rcases st.cases .rsClear with ⟨v, ⟨h, rfl⟩ | ⟨hf, rfl⟩, hv⟩ | ⟨hn, hk⟩
  · cases hf : s.flushes
    · exact hv
    · rw [hc, Latched.clear_of_flushes hf] at h
      cases h
  · rw [hf]
    exact hv
  · have hr : s.rm.rsClear = false := by
      by_contra hr
      exact hn false (.inl ⟨by simpa using hr, rfl⟩)
    have hf : s.flushes = false := by
      by_contra hf
      exact hn true (.inr ⟨by simpa using hf, rfl⟩)
    rw [hf, ← hr]
    exact hk

theorem pulse {r : CpuReg} {v : r.type}
    (hw : ∀ u, Written s q.data p r u ↔ s.flushes = true ∧ u = v) :
    s'.rm r = if s.flushes then v else s.base r := by
  cases hf : s.flushes
  · exact st.kept fun u hu => by simp [hf, hw] at hu
  · exact st.written ((hw v).2 ⟨hf, rfl⟩)

theorem lsqClear : s'.rm.lsqClear = s.flushes := by
  have h := st.pulse (r := .lsqClear) (v := true) fun u => Iff.rfl
  cases hf : s.flushes <;> rw [hf] at h <;> exact h

theorem memClear : s'.rm.memClear = s.flushes := by
  have h := st.pulse (r := .memClear) (v := true) fun u => Iff.rfl
  cases hf : s.flushes <;> rw [hf] at h <;> exact h

theorem regClear : s'.rm.regClear = s.flushes := by
  have h := st.pulse (r := .regClear) (v := true) fun u => Iff.rfl
  cases hf : s.flushes <;> rw [hf] at h <;> exact h

theorem forcePc (hc : s.rm.forcePc.busy = s.rm.robs.clear) :
    s'.rm.forcePc.busy = s.flushes := by
  rcases st.cases .forcePc with ⟨v, ⟨h, rfl⟩ | ⟨hf, rfl⟩, hv⟩ | ⟨hn, hk⟩
  · cases hf : s.flushes
    · change (s'.rm .forcePc).busy = false
      rw [hv]
    · rw [hc, Latched.clear_of_flushes hf] at h
      cases h
  · rw [hf]
    change (s'.rm .forcePc).busy = true
    rw [hv]
  · have hr : s.rm.forcePc.busy = false := by
      by_contra hr
      exact hn _ (.inl ⟨by simpa using hr, rfl⟩)
    have hf : s.flushes = false := by
      by_contra hf
      exact hn _ (.inr ⟨by simpa using hf, rfl⟩)
    rw [hf, ← hr]
    change (s'.rm .forcePc).busy = _
    rw [hk]
    rfl

theorem forcePc_addr (hf : s.flushes = true) : s'.rm.forcePc.addr = robAddr s.head := by
  have h := st.written (r := .forcePc) (.inr ⟨hf, rfl⟩)
  change (s'.rm .forcePc).addr = _
  rw [h]

theorem busClear : s'.rm.busClear =
    if s.flushes then 2 else if s.rm.busClear = 0 then 0 else s.rm.busClear - 1 := by
  cases hf : s.flushes
  · by_cases hb : s.rm.busClear = 0
    · have hk := st.kept (r := .busClear) (by
        rintro v (⟨h, -⟩ | ⟨h, -⟩)
        · exact h hb
        · simp [hf] at h)
      simp only [hb, Bool.false_eq_true, ↓reduceIte]
      exact hk.trans hb
    · have hw := st.written (r := .busClear) (.inl ⟨hb, rfl⟩)
      simp only [hb, Bool.false_eq_true, ↓reduceIte]
      exact hw
  · exact st.written (r := .busClear) (.inr ⟨hf, rfl⟩)

theorem lsqPushes_iff {v : LsQueuePayload} : LsqPushes s v ↔ s.lsqPush = some v := by
  have hboth : ∀ rs, s.loadPick = some rs → s.storesHead = true → False := by
    intro rs hl hs
    have h₁ := st.written (r := .lsq (.data s.rm.lsq.tail))
      (.inr ⟨rfl, .inl ⟨rs, hl, st.loadBlocked hl, rfl⟩⟩)
    have h₂ := st.written (r := .lsq (.data s.rm.lsq.tail)) (.inr ⟨rfl, .inr ⟨hs, rfl⟩⟩)
    have h := congrArg LsQueuePayload.op (h₁.symm.trans h₂)
    simp [rsLoadPayload, robStorePayload] at h
  simp only [LsqPushes, Latched.lsqPush]
  constructor
  · rintro (⟨rs, hl, -, rfl⟩ | ⟨hs, rfl⟩)
    · simp [hl]
    · cases hl : s.loadPick with
      | none => simp [hs]
      | some rs => exact (hboth rs hl hs).elim
  · intro h
    cases hl : s.loadPick with
    | none =>
      simp only [hl] at h
      split at h
      · exact .inr ⟨‹_›, by simpa using h.symm⟩
      · cases h
    | some rs =>
      simp only [hl, Option.some.injEq] at h
      exact .inl ⟨rs, rfl, st.loadBlocked hl, h.symm⟩

omit [WideShift] st in
theorem not_full_of_lsqPush {v : LsQueuePayload} (h : s.lsqPush = some v) :
    lsQueueFull s = false := by
  simp only [Latched.lsqPush, Latched.loadPick] at h
  cases hq : lsQueueFull s
  · rfl
  · simp [hq, Latched.storesHead] at h

theorem lsqQueue (hc : s.rm.lsq.clear = false) :
    QueueStep lsQueueCapacity s.rm.lsq s'.rm.lsq s.lsqPop.isSome
      s.lsqPush.isSome where
  head := by
    cases hp : s.lsqPop with
    | none =>
      refine st.kept (r := .lsq .head) ?_
      rintro v (⟨h, -⟩ | ⟨h, -⟩)
      · simp [hc] at h
      · simp [hp] at h
    | some slot => exact st.written (r := .lsq .head) (.inr ⟨by simp [hp], rfl⟩)
  tail := by
    cases hp : s.lsqPush with
    | none =>
      refine st.kept (r := .lsq .tail) ?_
      rintro v (⟨h, -⟩ | ⟨⟨u, h⟩, -⟩)
      · simp [hc] at h
      · simp [st.lsqPushes_iff, hp] at h
    | some v =>
      exact st.written (r := .lsq .tail) (.inr ⟨⟨v, st.lsqPushes_iff.2 hp⟩, rfl⟩)
  nonempty := by
    intro h
    simp only [Latched.lsqPop] at h
    split at h
    · cases h
    · rename_i hn
      simp only [Bool.or_eq_true, not_or, queueEmpty, decide_eq_true_eq] at hn
      exact hn.2
  room := by
    intro h
    obtain ⟨v, hv⟩ := Option.isSome_iff_exists.1 h
    exact not_full_of_lsqPush hv

theorem lsqReg (hc : s.rm.lsq.clear = false) : s'.rm.lsq.clear = false :=
  (st.kept (r := .lsq .clear) fun v h => by simp [Written, hc] at h).trans hc

theorem robsQueue (hc : s.rm.robs.clear = false) :
    QueueStep robCapacity s.rm.robs s'.rm.robs s.retires (s.dispatch p).isSome where
  head := by
    cases hr : s.retires
    · refine st.kept (r := .robs .head) ?_
      rintro v (⟨h, -⟩ | ⟨h, -⟩)
      · simp [hc] at h
      · simp [hr] at h
    · exact st.written (r := .robs .head) (.inr ⟨hr, rfl⟩)
  tail := by
    rcases hd : s.dispatch p with _ | ⟨rs, inst⟩
    · refine st.kept (r := .robs .tail) ?_
      rintro v (⟨h, -⟩ | ⟨⟨rs, inst, h⟩, -⟩)
      · simp [hc] at h
      · simp [hd] at h
    · exact st.written (r := .robs .tail) (.inr ⟨⟨rs, inst, hd⟩, rfl⟩)
  nonempty := by
    intro h
    have := Latched.commits_nonempty (Latched.commits_of_retires h)
    simpa [queueEmpty] using this
  room := by
    intro h
    cases hf : robUnitFull s
    · exact hf
    · simp [Latched.dispatch, hf] at h

theorem robsQueue_clear (hc : s.rm.robs.clear = true) :
    s'.rm.robs.head = 0 ∧ s'.rm.robs.tail = 0 :=
  ⟨st.written (r := .robs .head) (.inl ⟨hc, rfl⟩), st.written (r := .robs .tail) (.inl ⟨hc, rfl⟩)⟩

theorem robs_eq (hc : s.rm.robs.clear = false) (ok : QueueOk robCapacity s.rm.robs) :
    s'.robs = (if s.retires then s.robs.tail else s.robs) ++
      if (s.dispatch p).isSome then [s.rm.robs.tail] else [] :=
  (st.robsQueue hc).queueForeach_eq ok

theorem lsq_eq (hc : s.rm.lsq.clear = false) (ok : QueueOk lsQueueCapacity s.rm.lsq) :
    s'.lsq = (if s.lsqPop.isSome then s.lsq.tail else s.lsq) ++
      if s.lsqPush.isSome then [s.rm.lsq.tail] else [] :=
  (st.lsqQueue hc).queueForeach_eq ok

/-- The tick in which the flags are set empties the CPU. -/
theorem quiet (ctl : Control s) (hc : s.rm.robs.clear = true) : Quiet s' := by
  have hrs := ctl.rsClear.trans hc
  have hlsq := ctl.lsqClear.trans hc
  have hmem := ctl.memClear.trans hc
  have hreg := ctl.regClear.trans hc
  have hbus : s.rm.busClear = 2 := by
    rcases ctl.busClear with ⟨h, -⟩ | ⟨-, h, -⟩ | ⟨-, h⟩
    · exact h
    · simp [hc] at h
    · simp [hc] at h
  have hsc : bhShouldClear s = true := by simp [bhShouldClear, hbus]
  have hpick : ∀ a, s.aluPick a = none := fun a => by simp [Latched.aluPick, hrs]
  have halu : ∀ a, s.aluMsg a = none := fun a => by simp [Latched.aluMsg, hsc]
  have hout : ∀ h, s.outbox q.data h = none := by
    intro h
    cases h with
    | zero => simp [Latched.outbox, Latched.memReady, hmem]
    | succ a => exact halu a
  have hpop : s.lsqPop = none := by simp [Latched.lsqPop, hlsq]
  have hpush : s.lsqPush = none := by
    have hcm : s.commits = false := by simp [Latched.commits, hc]
    simp [Latched.lsqPush, Latched.loadPick, hrs, Latched.storesHead, hcm]
  have hissue : s.issuesLoad = none := by simp [Latched.issuesLoad, Latched.lsqIssue, hpop]
  have hgnt : s.gnt = 0 := by simp [st.computed.gnt, busArb, hbus]
  have hfl : s.flushes = false := by
    by_contra hf
    simp [Latched.clear_of_flushes (by simpa using hf)] at hc
  have hbus' : s'.rm.busClear = 1 := by
    have := st.busClear
    rw [hfl, hbus] at this
    simpa using this
  refine
    { head := (st.robsQueue_clear hc).1
      tail := (st.robsQueue_clear hc).2
      rsBusy := fun id hid => st.written (r := .rsBusy id) (.inl ⟨hrs, hid, rfl⟩)
      robIds := fun x hx => ?_
      aluBusy := fun a ha => ?_
      resultBuf := fun a ha => ?_
      bhBusy := fun h hh b => ?_
      req := fun h hh => ?_
      fire := ?_
      gnt := ?_
      loadBusy := fun i hi => ?_
      cleared := fun slot hslot hop => ?_ }
  · have hx' : s'.rm.robIdClearIf x = -1 :=
      st.written (r := .robIdClearIf x) (.inl ⟨hreg, hx, rfl⟩)
    simp [st.computed'.robIds, regFileNext, regFileDrops, hx']
  · rw [st.not_raised]
    simp [Raised, halu, Latched.aluStarts, hsc]
  · have := st.written (r := .resultBuf a) ⟨ha, .inl ⟨hsc, rfl⟩⟩
    change (s'.rm (.resultBuf a)).busy = false
    rw [this]
  · rw [st.not_raised]
    simp [Raised, hout, hbus]
  · exact st.kept (r := .req h) fun v hv => by simp [Written, hbus] at hv
  · have := st.written (r := .fire) (v := s.gnt != 0) rfl
    simpa [hgnt] using this
  · simp [st.computed'.gnt, busArb, hbus']
  · rw [st.not_raised]
    simp [Raised, hmem, hissue]
  · have hl : s'.lsq = s.lsq := by
      rw [st.lsq_eq ctl.lsqReg ctl.lsq, hpop, hpush]
      simp
    rw [hl] at hslot
    rcases st.cases (.lsq (.data slot)) with ⟨v, ⟨-, -, -, rfl⟩ | ⟨-, hv⟩, hv'⟩ | ⟨hn, hk⟩
    · change (s'.rm (.lsq (.data slot))).cleared = true
      rw [hv']
    · simp [st.lsqPushes_iff, hpush] at hv
    · have hop' : (s.rm.lsq.data slot).op = .load := by
        change (s'.rm (.lsq (.data slot))).op = .load at hop
        rw [hk] at hop
        exact hop
      exact absurd (.inl ⟨hlsq, hslot, hop', rfl⟩) (hn _)

theorem control (ctl : Control s) : Control s' := by
  have hlsqReg := st.lsqReg ctl.lsqReg
  refine
    { rsClear := by rw [st.rsClear ctl.rsClear, st.robsClear]
      lsqClear := by rw [st.lsqClear, st.robsClear]
      memClear := by rw [st.memClear, st.robsClear]
      regClear := by rw [st.regClear, st.robsClear]
      forcePc := by rw [st.forcePc ctl.forcePc, st.robsClear]
      busClear := ?_
      robs := ?_
      lsq := (st.lsqQueue ctl.lsqReg).ok ctl.lsq
      lsqReg := hlsqReg }
  · rw [st.busClear, st.robsClear]
    cases hf : s.flushes
    · rcases ctl.busClear with ⟨hb, hc⟩ | ⟨hb, -, -⟩ | ⟨hb, -⟩
      · exact .inr (.inl ⟨by simp [hb], rfl, st.quiet ctl hc⟩)
      · exact .inr (.inr ⟨by simp [hb], rfl⟩)
      · exact .inr (.inr ⟨by simp [hb], rfl⟩)
    · exact .inl ⟨by simp, rfl⟩
  · cases hc : s.rm.robs.clear
    · exact (st.robsQueue hc).ok ctl.robs
    · obtain ⟨hh, ht⟩ := st.robsQueue_clear hc
      exact ⟨by rw [hh]; decide, by rw [ht]; decide⟩

end Step

end TomasuloCpu
