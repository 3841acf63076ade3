import TomasuloCpu.Conservation

set_option autoImplicit false

/-!
# The rename table

The mapping of a register is the youngest entry of the reorder buffer that
writes it.
-/
namespace TomasuloCpu
open Clocked

def Latched.writer (s : Latched) (x : RegId) : Option ℤ :=
  (s.robs.filter fun slot => (s.rm.robPayload slot).dest = x).getLast?

/-- The rename table agrees with the reorder buffer. -/
def Renamed (s : Latched) : Prop :=
  ∀ x ∈ regIds, x ≠ 0 → s.robIds x = (s.writer x).elim 0 robId

theorem dispatchRobPayload_dest {s : Latched} {predicted : BpResult} {seq : ℕ} {rs : RsId}
    {inst : Inst} {pc : Addr} {old : RobPayload} :
    (dispatchRobPayload s predicted seq rs inst pc old).dest =
      if hasDest inst then inst.rd else -1 := by
  simp only [dispatchRobPayload]
  split <;> (try split_ifs) <;> rfl

variable {s s' : Latched} {q p q' : Plain} {x : RegId}

theorem regIds_pos (h : x ∈ regIds) (h0 : x ≠ 0) : 0 < x := by
  obtain ⟨i, -, rfl⟩ := List.mem_map.1 h
  exact Int.lt_iff_le_and_ne.2 ⟨Int.natCast_nonneg i, h0.symm⟩

theorem robId_pos {slot : ℤ} (h : 0 ≤ slot) : 0 < robId slot := Int.lt_add_one_of_le h

theorem writer_mem {slot : ℤ} (h : s.writer x = some slot) : slot ∈ s.robs :=
  (List.mem_filter.1 (List.mem_of_getLast? h)).1

def Latched.renames (s : Latched) (p : Plain) : Option RegId :=
  (s.dispatch p).bind fun d => if hasDest d.2 then some d.2.rd else none

/-- Popping the oldest writer matters only if it is the youngest too. -/
theorem getLast?_filter_tail {P : ℤ → Bool} {a : ℤ} {l : List ℤ} (hn : a ∉ l) :
    (l.filter P).getLast? =
      if ((a :: l).filter P).getLast? = some a then none else ((a :: l).filter P).getLast? := by
  have hne : (l.filter P).getLast? ≠ some a := fun h =>
    hn (List.mem_filter.1 (List.mem_of_getLast? h)).1
  cases hp : P a
  · rw [List.filter_cons_of_neg (by simp [hp]), if_neg hne]
  · rw [List.filter_cons_of_pos hp, List.getLast?_cons]
    cases hl : (l.filter P).getLast? with
    | none => simp
    | some b => simp [show b ≠ a from fun he => hne (he ▸ hl)]

/-- A register is unmapped by the id of its mapping. -/
theorem regFileNext_of_nonneg {rm : Regs} (h : 0 ≤ rm.robIdClearIf x) : regFileNext rm x =
    if rm.robIdClearIf x = rm.robIdSet x then 0 else rm.robIdSet x := by
  have hn : ¬rm.robIdClearIf x < 0 := Int.not_lt.2 h
  simp only [regFileNext, regFileDrops, hn, decide_false, Bool.or_false, Bool.and_eq_true,
    decide_eq_true_eq]
  split_ifs with h₁ h₂ h₂
  · rfl
  · exact absurd h₁.1 h₂
  · by_contra he
    exact h₁ ⟨h₂, he⟩
  · rfl

variable [WideShift]

namespace Step
variable (st : Step s q p s' q') (ctl : Control s) (hc : s.rm.robs.clear = false)
include st

theorem robIdSet (h0 : x ≠ 0) : s'.rm.robIdSet x =
    if s.renames p = some x then robId s.rm.robs.tail else s.robIds x := by
  have hw : ∀ v, Written s q.data p (.robIdSet x) v ↔
      s.renames p = some x ∧ v = robId s.rm.robs.tail := fun v => by
    simp only [Written, Latched.renames, Option.bind_eq_some_iff, Prod.exists]
    constructor
    · rintro ⟨rs, inst, hd, hh, rfl, -, rfl⟩
      exact ⟨⟨rs, inst, hd, by simp [hh]⟩, rfl⟩
    · rintro ⟨⟨rs, inst, hd, hh⟩, rfl⟩
      split_ifs at hh with hd'
      cases hh
      exact ⟨rs, inst, hd, hd', rfl, h0, rfl⟩
  split_ifs with hr
  · exact st.written ((hw _).2 ⟨hr, rfl⟩)
  · rw [st.computed.robIds]
    exact st.kept (r := .robIdSet x) fun v hv => hr ((hw v).1 hv).1

theorem robIdClearIf (hg : s.rm.regClear = false) : s'.rm.robIdClearIf x =
    if s.retires ∧ s.head.dest = x ∧ 0 < x then robId s.rm.robs.head else 0 := by
  split_ifs with hr
  · exact st.written (r := .robIdClearIf x) (.inr ⟨hr.1, hr.2.1.symm, hr.2.2, rfl⟩)
  · refine st.kept (r := .robIdClearIf x) ?_
    rintro v (⟨h, -⟩ | ⟨h, rfl, h', -⟩)
    · simp [hg] at h
    · exact hr ⟨h, rfl, h'⟩

include ctl hc

theorem writer (h0 : 0 < x) : s'.writer x =
    if s.renames p = some x then some s.rm.robs.tail
    else if s.retires ∧ s.writer x = some s.rm.robs.head then none else s.writer x := by
  have hdest : ∀ slot ∈ s.robs, (s'.rm.robPayload slot).dest = (s.rm.robPayload slot).dest :=
    fun slot hs => (st.robPayload_same ctl hs).dest
  have hold : ∀ l : List ℤ, (∀ slot ∈ l, slot ∈ s.robs) →
      l.filter (fun slot => (s'.rm.robPayload slot).dest = x) =
        l.filter fun slot => (s.rm.robPayload slot).dest = x := fun l hl =>
    List.filter_congr fun slot hs => by rw [hdest slot (hl slot hs)]
  have hnew : ((if (s.dispatch p).isSome then [s.rm.robs.tail] else []).filter
      fun slot => (s'.rm.robPayload slot).dest = x).getLast? =
        if s.renames p = some x then some s.rm.robs.tail else none := by
    rcases hd : s.dispatch p with _ | ⟨rs, inst⟩
    · simp [Latched.renames, hd]
    · have hp : (s'.rm.robPayload s.rm.robs.tail).dest = if hasDest inst then inst.rd else -1 := by
        rw [st.robPayload_dispatch hd, dispatchRobPayload_dest]
      cases hh : hasDest inst
      · have : ¬((-1 : ℤ) = x) := by
          rintro rfl
          exact absurd h0 (by decide)
        simp [Latched.renames, hd, hp, hh, this]
      · by_cases hx : inst.rd = x <;> simp [Latched.renames, hd, hp, hh, hx]
  have hpop : ((if s.retires then s.robs.tail else s.robs).filter
      fun slot => (s'.rm.robPayload slot).dest = x).getLast? =
        if s.retires ∧ s.writer x = some s.rm.robs.head then none else s.writer x := by
    cases hr : s.retires
    · simp [hold s.robs fun _ h => h, Latched.writer]
    · have hcons := robs_head ctl (Latched.commits_of_retires hr)
      have hnd : s.robs.Nodup := ctl.robs.queueForeach_nodup
      rw [hcons, List.nodup_cons] at hnd
      simp only [↓reduceIte, true_and, Latched.writer]
      rw [hold s.robs.tail fun _ h => List.mem_of_mem_tail h, getLast?_filter_tail hnd.1, ← hcons]
  rw [Latched.writer, st.robs_eq hc ctl.robs, List.filter_append, List.getLast?_append, hnew, hpop]
  split_ifs <;> simp

end Step

section
variable (st : Step s q p s' q') (ctl : Control s)
include st ctl

theorem Renamed.step (h : Renamed s) : Renamed s' := by
  intro x hx h0
  cases hc : s.rm.robs.clear
  · have hpos := regIds_pos hx h0
    have hset := st.robIdSet h0
    have hclear := st.robIdClearIf (x := x) (ctl.regClear.trans hc)
    have hhead := robId_pos ctl.robs.head.1
    have hnonneg : 0 ≤ s'.rm.robIdClearIf x := by
      rw [hclear]
      split_ifs
      · exact Int.le_of_lt hhead
      · exact Int.le_refl 0
    have hnext : s'.robIds x = regFileNext s'.rm x := congrFun st.computed'.robIds x
    rw [hnext, regFileNext_of_nonneg hnonneg, st.writer ctl hc hpos, hset, hclear, h x hx h0]
    by_cases hr : s.retires = true ∧ s.head.dest = x
    · -- the entry that retires clears the mapping if it is still its own
      have hne : s.rm.robs.head ≠ s.rm.robs.tail := by
        simpa [queueEmpty] using Latched.commits_nonempty (Latched.commits_of_retires hr.1)
      rw [if_pos (⟨hr.1, hr.2, hpos⟩ : s.retires = true ∧ s.head.dest = x ∧ 0 < x)]
      by_cases hn : s.renames p = some x
      · simp [hn, hne]
      · cases hw : s.writer x with
        | none => simp [hn]
        | some slot =>
          by_cases he : s.rm.robs.head = slot
          · simp [hn, hr.1, he]
          · simp [hn, he, Ne.symm he]
    · have hw : ¬(s.retires = true ∧ s.writer x = some s.rm.robs.head) := by
        rintro ⟨h₁, h₂⟩
        have := (List.mem_filter.1 (List.mem_of_getLast? h₂)).2
        exact hr ⟨h₁, of_decide_eq_true this⟩
      rw [if_neg fun hn : s.retires = true ∧ s.head.dest = x ∧ 0 < x => hr ⟨hn.1, hn.2.1⟩,
        if_neg hw]
      have h0 : ∀ {i : ℤ}, (if 0 = i then 0 else i) = i := fun {i} => by
        split_ifs with h
        · exact h
        · rfl
      rw [h0]
      split_ifs <;> rfl
  · have hq := st.quiet ctl hc
    rw [hq.robIds x hx, Latched.writer, hq.robs]
    rfl

end

section
variable (image : MemData) (garbage : ℤ → ℤ → ℤ) (hist : ℤ)

omit [WideShift] in
theorem renamed_cpuCreate : Renamed (latch (cpuCreate image garbage hist)) :=
  fun _ _ _ => rfl

/-- On every run that trips no assertion the rename table maps a register to the
    youngest entry of the reorder buffer that writes it. -/
theorem rename_exact {os : List Schedule} {c : Cpu}
    (hr : cpuRun os (cpuCreate image garbage hist) = .ok c) (hx : x ∈ regIds) (h0 : x ≠ 0) :
    regStoreRobIdGet (latch c) x = ((latch c).writer x).elim 0 robId := by
  have inv := cpuRun_induction (I := fun s _ => Control s ∧ Renamed s)
    ⟨control_cpuCreate image garbage hist, renamed_cpuCreate image garbage hist⟩
    (fun inv st => ⟨st.control inv.1, inv.2.step st inv.1⟩) hr
  rw [regStoreRobIdGet, if_neg h0]
  exact inv.2 x hx h0

end

omit [WideShift] in
theorem rename_exact_link : regStoreRobIdGet (latch (bootCpu 2 linkProgram)) 2 =
    ((latch (bootCpu 2 linkProgram)).writer 2).elim 0 robId :=
  @rename_exact 2 .masked _ _ _ _ _ (cpuRun_boot (by decide +kernel)) (by decide) (by decide)

end TomasuloCpu
