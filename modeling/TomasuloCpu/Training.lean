import TomasuloCpu.Fates
import TomasuloCpu.Library.Saturating
import TomasuloCpu.Main
import TomasuloCpu.Path
import TomasuloCpu.Predictor
import TomasuloCpu.TickOrder

set_option autoImplicit false

/-!
# Training of the branch predictor

The predictor learns from retired instructions and from nothing else, so what was
fetched on a wrong path leaves no trace in it, and its counters count retired
branches and flushes.
-/
namespace TomasuloCpu
open Clocked Saturating

/-- What a retired instruction teaches the predictor. -/
def BranchPredictor.train (bp : BranchPredictor) (data : RobPayload) : BranchPredictor :=
  match data.op with
  | .branch => bpFeedback bp data.pc data.predictedTake (data.value != 0)
  | .jalr => bpFeedbackJalr bp data.pc (data.addr &&& ~~~(1 : Word)) !robIsMispredicted data
  | _ => bp

/-- An instruction of a kind that the predictor counts as right or wrong. -/
def RobPayload.missed (op : RobOp) (data : RobPayload) : Bool :=
  data.op = op && robIsMispredicted data

/-- An entry was predicted by the predictor that the first `k` of the retired
    instructions had trained, and no branch after these was predicted wrong. -/
def PredictedBy (bp : BranchPredictor) (retired : List RobPayload) (data : RobPayload) (n : ℕ) :
    Prop :=
  ∃ k ≤ n, data.predictedTake =
      branchPredict ((retired.take k).foldl BranchPredictor.train bp) data.pc ∧
    ∀ d ∈ (retired.take n).drop k, d.missed .branch = false

structure Trained (bp : BranchPredictor) (s : Latched) (q : Plain) : Prop where
  trained : q.bp = q.retired.foldl BranchPredictor.train bp
  entries : s.rm.robs.clear = false → ∀ slot ∈ s.robs, (s.rm.robPayload slot).op = .branch →
    PredictedBy bp q.retired (s.rm.robPayload slot) q.retired.length
  retired : ∀ n data, q.retired[n]? = some data → data.op = .branch →
    PredictedBy bp q.retired data n

variable [WideShift] {s s' : Latched} {q p q' : Plain} {bp : BranchPredictor}

omit [WideShift] in
theorem bpAfter_eq : s.bpAfter bp = s.retired.toList.foldl BranchPredictor.train bp := by
  rw [Latched.bpAfter, Latched.retired, Latched.retires]
  cases s.commits
  · rfl
  · cases ho : s.head.op <;> cases hf : lsQueueFull s <;> simp [BranchPredictor.train, ho]

omit [WideShift] in
theorem PredictedBy.append {retired more : List RobPayload} {data : RobPayload} {n : ℕ}
    (h : PredictedBy bp retired data n) (hn : n ≤ retired.length) :
    PredictedBy bp (retired ++ more) data n := by
  obtain ⟨k, hk, hp, hd⟩ := h
  refine ⟨k, hk, ?_, ?_⟩
  · rw [List.take_append_of_le_length (hk.trans hn), hp]
  · rw [List.take_append_of_le_length hn]
    exact hd

omit [WideShift] in
/-- An entry that stays was predicted by the same predictor. -/
theorem PredictedBy.extend {retired more : List RobPayload} {data : RobPayload}
    (h : PredictedBy bp retired data retired.length)
    (hm : ∀ d ∈ more, d.missed .branch = false) :
    PredictedBy bp (retired ++ more) data (retired ++ more).length := by
  obtain ⟨k, hk, hp, hd⟩ := h
  rw [List.take_length] at hd
  refine ⟨k, ?_, ?_, fun d hmem => ?_⟩
  · rw [List.length_append]
    exact hk.trans (Nat.le_add_right _ _)
  · rw [List.take_append_of_le_length hk, hp]
  · rw [List.take_length, List.drop_append_of_le_length hk, List.mem_append] at hmem
    exact hmem.elim (hd d) (hm d)

omit [WideShift] in
theorem missed_of_not_flushes (hf : s.flushes = false) :
    ∀ d ∈ s.retired.toList, d.missed .branch = false := by
  intro d hd
  rw [Latched.retired] at hd
  split_ifs at hd with hr
  · obtain rfl : d = s.head := by simpa using hd
    by_contra hmiss
    have hm : s.head.op = .branch ∧ robIsMispredicted s.head = true := by
      simpa [RobPayload.missed] using hmiss
    rw [Latched.flushes_iff.2 ⟨Latched.commits_of_retires hr, .inl hm.1, hm.2⟩] at hf
    cases hf
  · cases hd

/-- The entry of a branch that is dispatched in a tick. -/
theorem Step.predictedTake_dispatch (st : Step s q p s' q') (co : Coherent s)
    (hs : s.rm.robs.tail ∈ s'.robs) (hd : (s.dispatch p).isSome)
    (ho : (s'.rm.robPayload s.rm.robs.tail).op = .branch) :
    (s'.rm.robPayload s.rm.robs.tail).predictedTake =
      branchPredict p.bp (s'.rm.robPayload s.rm.robs.tail).pc := by
  obtain ⟨⟨rs, inst⟩, hd⟩ := Option.isSome_iff_exists.1 hd
  have hok : EntryOk (s'.rm.robPayload s.rm.robs.tail) := (co.step st).entries.entry _ hs
  have hbranch := hok.legal.robOp_branch_iff.1 (hok.op.symm.trans ho)
  obtain ⟨-, -, hpc, hinst⟩ := st.entry_dispatch hd
  have hf := hok.legal.format_of_branch hbranch
  rw [hinst] at hf
  rw [hpc, st.robPayload_dispatch hd, dispatchRobPayload, hf]

theorem Trained.step (h : Trained bp s q) (co : Coherent s) (st : Step s q p s' q')
    (hbp : q'.bp = s.bpAfter q.bp) (hp : p.bp = q.bp ∨ p.bp = s.bpAfter q.bp) :
    Trained bp s' q' := by
  have ctl := co.conserved.control
  rw [bpAfter_eq, h.trained, ← List.foldl_append] at hbp hp
  refine ⟨by rw [hbp, st.retired], fun hclear slot hs ho => ?_, fun n data hd ho => ?_⟩
  · have hright := missed_of_not_flushes (st.robsClear.symm.trans hclear)
    rw [st.retired]
    cases hc : s.rm.robs.clear with
    | true =>
      rw [(st.quiet ctl hc).robs] at hs
      cases hs
    | false =>
      rcases (st.mem_robs ctl hc).1 hs with ⟨hm, -⟩ | ⟨hd, rfl⟩
      · have hsame := st.robPayload_same ctl hm
        have hpred := (h.entries hc slot hm (hsame.op ▸ ho)).extend hright
        unfold PredictedBy at hpred ⊢
        rwa [hsame.predictedTake, hsame.pc]
      · have hpred := st.predictedTake_dispatch co hs hd ho
        rcases hp with hp | hp
        · refine PredictedBy.extend ⟨_, Nat.le_refl _, ?_, ?_⟩ hright
          · rw [hpred, hp, List.take_length]
          · simp
        · refine ⟨_, Nat.le_refl _, ?_, ?_⟩
          · rw [hpred, hp, List.take_length]
          · simp
  · by_cases hn : n < q.retired.length
    · rw [st.retired, List.getElem?_append_left hn] at hd
      rw [st.retired]
      exact (h.retired n data hd ho).append (Nat.le_of_lt hn)
    · -- the head retires, and its prediction with it
      obtain ⟨k, rfl⟩ := Nat.exists_eq_add_of_le (Nat.le_of_not_lt hn)
      rw [st.retired, List.getElem?_append_right (Nat.le_add_right _ _), Nat.add_sub_cancel_left,
        Latched.retired] at hd
      split_ifs at hd with hr
      · cases k with
        | zero =>
          obtain rfl : s.head = data := by simpa using hd
          have hc := Latched.commits_of_retires hr
          rw [st.retired]
          exact (h.entries (Latched.clear_of_commits hc) _ (head_mem ctl hc) ho).append
            (Nat.le_refl _)
        | succ k => simp at hd
      · simp at hd

omit [WideShift] in
theorem inTable_train {data : RobPayload} (h : InTable bp.hist) : InTable (bp.train data).hist := by
  unfold BranchPredictor.train
  cases data.op with
  | branch => exact bpFeedback_hist ..
  | register | store | jalr | hcf => exact h

omit [WideShift] in
theorem inTable_foldl (h : InTable bp.hist) (l : List RobPayload) :
    InTable (l.foldl BranchPredictor.train bp).hist := by
  induction l generalizing bp with
  | nil => exact h
  | cons data l ih => exact ih (inTable_train h)

omit [WideShift] in
theorem PredictedBy.inTable {retired : List RobPayload} {data : RobPayload} {n : ℕ}
    (h : PredictedBy bp retired data n) (hh : InTable bp.hist) :
    InTable data.predictedTake.hist := by
  obtain ⟨k, -, hp, -⟩ := h
  rw [hp]
  exact inTable_foldl hh _

namespace BranchPredictor

def predicts (bp : BranchPredictor) (i j : ℤ) : Bool := bp.state i j ≥ bpThreshold

end BranchPredictor

/-- A branch that is predicted by a counter of the table, which it trains. -/
def RobPayload.inCell (i j : ℤ) (data : RobPayload) : Bool :=
  data.op = .branch && data.predictedTake.hist = i && bpHash data.pc = j

def RobPayload.taken (data : RobPayload) : Bool := data.value != 0

namespace BranchPredictor
variable {i j : ℤ} {data : RobPayload}

omit [WideShift] in
theorem state_train (bp : BranchPredictor) : (bp.train data).state i j =
    if data.inCell i j then move bpMax (bp.state i j) data.taken else bp.state i j := by
  unfold train
  cases ho : data.op with
  | branch =>
    by_cases hc : data.predictedTake.hist = i ∧ bpHash data.pc = j
    · obtain ⟨rfl, rfl⟩ := hc
      simp [bpFeedback, RobPayload.inCell, ho]
      rfl
    · have hne : ¬(i = data.predictedTake.hist ∧ j = bpHash data.pc) := fun h =>
        hc ⟨h.1.symm, h.2.symm⟩
      simp [bpFeedback, RobPayload.inCell, ho, hne, hc]
  | register | store | jalr | hcf => simp [RobPayload.inCell, ho, bpFeedbackJalr]

end BranchPredictor

omit [WideShift] in
theorem taken_iff_missed {data : RobPayload} (ho : data.op = .branch) (hb : Bit data.value) :
    data.missed .branch = !decide (data.predictedTake.take = data.taken) := by
  rcases hb with hv | hv <;> cases ht : data.predictedTake.take <;>
    simp [RobPayload.missed, RobPayload.taken, robIsMispredicted, ho, hv, ht, boolWord]

section
variable {retired : List RobPayload} {n : ℕ} {data : RobPayload}

omit [WideShift] in
/-- The counter that predicted a retired branch says the same when the branch retires:
    until then it has only been confirmed. -/
theorem predicts_retired
    (hp : ∀ n data, retired[n]? = some data → data.op = .branch → PredictedBy bp retired data n)
    (hb : ∀ data ∈ retired, data.op = .branch → Bit data.value)
    (hd : retired[n]? = some data) (ho : data.op = .branch) :
    data.predictedTake.take = ((retired.take n).foldl BranchPredictor.train bp).predicts
      data.predictedTake.hist (bpHash data.pc) := by
  induction n using Nat.strong_induction_on generalizing data with
  | _ n ih =>
    obtain ⟨k, hk, hpred, hright⟩ := hp n data hd ho
    have hn : n < retired.length := (List.getElem?_eq_some_iff.1 hd).1
    have now : ∀ m, k + m ≤ n → data.predictedTake.take =
        ((retired.take (k + m)).foldl BranchPredictor.train bp).predicts
          data.predictedTake.hist (bpHash data.pc) := by
      intro m
      induction m with
      | zero =>
        intro _
        rw [hpred]
        rfl
      | succ m ihm =>
        intro hm
        have hget : retired[k + m]? = some retired[k + m] := List.getElem?_eq_getElem (by omega)
        have hmiss : retired[k + m].missed .branch = false := by
          refine hright _ (List.mem_drop_iff_getElem.2 ⟨m, by simp; omega, ?_⟩)
          simp
        rw [ihm (by omega), ← Nat.add_assoc, List.take_add_one, hget, Option.toList_some,
          List.foldl_append, List.foldl_cons, List.foldl_nil, BranchPredictor.predicts,
          BranchPredictor.predicts, BranchPredictor.state_train]
        split_ifs with hc
        · -- the same counter predicted this branch, and it was right
          have hcell : retired[k + m].op = .branch ∧
              retired[k + m].predictedTake.hist = data.predictedTake.hist ∧
              bpHash retired[k + m].pc = bpHash data.pc := by
            simpa [RobPayload.inCell, and_assoc] using hc
          have hright := ih (k + m) (by omega) hget hcell.1
          rw [hcell.2.1, hcell.2.2] at hright
          have htaken : retired[k + m].predictedTake.take = retired[k + m].taken := by
            rw [taken_iff_missed hcell.1 (hb _ (List.getElem_mem _) hcell.1)] at hmiss
            simpa using hmiss
          rw [predicts_move (hright.symm.trans htaken)]
          exact hright.symm.trans htaken
        · rfl
    have hlast := now (n - k) (by omega)
    rwa [Nat.add_sub_cancel' hk] at hlast

end

namespace BranchPredictor

omit [WideShift] in
theorem train_total (bp : BranchPredictor) (data : RobPayload) :
    (bp.train data).total = bp.total + (if data.op = .branch then 1 else 0) ∧
      (bp.train data).jalrTotal = bp.jalrTotal + if data.op = .jalr then 1 else 0 := by
  unfold train
  cases data.op <;> simp [bpFeedback, bpFeedbackJalr]

omit [WideShift] in
theorem train_correct (bp : BranchPredictor) {data : RobPayload}
    (hb : data.op = .branch → Bit data.value) :
    (bp.train data).total - (bp.train data).correct =
        bp.total - bp.correct + (if data.missed .branch then 1 else 0) ∧
      (bp.train data).jalrTotal - (bp.train data).jalrCorrect =
        bp.jalrTotal - bp.jalrCorrect + if data.missed .jalr then 1 else 0 := by
  cases ho : data.op with
  | branch =>
    have hj : data.missed .jalr = false := by simp [RobPayload.missed, ho]
    have hcorrect : (bp.train data).correct =
        if data.taken = data.predictedTake.take then bp.correct + 1 else bp.correct := by
      rw [train, ho]
      rfl
    have htrain : (bp.train data).total = bp.total + 1 ∧
        (bp.train data).jalrTotal = bp.jalrTotal ∧
        (bp.train data).jalrCorrect = bp.jalrCorrect := by
      rw [train, ho]
      exact ⟨rfl, rfl, rfl⟩
    rw [taken_iff_missed ho (hb ho), hj, hcorrect, htrain.1, htrain.2.1, htrain.2.2]
    by_cases h : data.predictedTake.take = data.taken
    · rw [if_pos h.symm, decide_eq_true h]
      simp only [Bool.not_true, Bool.false_eq_true, ↓reduceIte]
      omega
    · rw [if_neg (Ne.symm h), decide_eq_false h]
      simp only [Bool.not_false, Bool.false_eq_true, ↓reduceIte]
      omega
  | jalr =>
    have hbranch : data.missed .branch = false := by simp [RobPayload.missed, ho]
    have hm : data.missed .jalr = robIsMispredicted data := by simp [RobPayload.missed, ho]
    rw [hbranch, hm, train, ho]
    simp only [bpFeedbackJalr, Bool.false_eq_true, ↓reduceIte]
    cases robIsMispredicted data
    · simp only [Bool.not_false, Bool.false_eq_true, ↓reduceIte]
      omega
    · simp only [Bool.not_true, Bool.false_eq_true, ↓reduceIte]
      omega
  | register | store | hcf => simp [train, ho, RobPayload.missed]

omit [WideShift] in
theorem foldl_train (bp : BranchPredictor) {l : List RobPayload}
    (hb : ∀ data ∈ l, data.op = .branch → Bit data.value) :
    (l.foldl train bp).total = bp.total + l.countP (·.op = .branch) ∧
      (l.foldl train bp).jalrTotal = bp.jalrTotal + l.countP (·.op = .jalr) ∧
      (l.foldl train bp).total - (l.foldl train bp).correct =
        bp.total - bp.correct + l.countP (RobPayload.missed .branch) ∧
      (l.foldl train bp).jalrTotal - (l.foldl train bp).jalrCorrect =
        bp.jalrTotal - bp.jalrCorrect + l.countP (RobPayload.missed .jalr) := by
  induction l generalizing bp with
  | nil => simp
  | cons data l ih =>
    have h := ih (bp.train data) fun d hd => hb d (List.mem_cons_of_mem _ hd)
    have ht := bp.train_total data
    have hc := bp.train_correct (hb data List.mem_cons_self)
    simp only [List.foldl_cons, List.countP_cons, decide_eq_true_eq, Int.natCast_add,
      apply_ite Nat.cast, Int.natCast_one, Int.natCast_zero]
    omega

end BranchPredictor

def flushCount : List Schedule → Cpu → ℕ
  | [], _ => 0
  | o :: os, c =>
    (if (latch c).flushes then 1 else 0) +
      match cpuTick o c with
      | .ok c' => flushCount os c'
      | .error _ => 0

section
variable {os : List Schedule} {c₀ c c' : Cpu}

/-- A flush retires an instruction that was predicted wrong. -/
theorem missed_step (st : Step s q p s' q') :
    (q'.retired.countP (RobPayload.missed .branch) + q'.retired.countP (RobPayload.missed .jalr)) =
      (q.retired.countP (RobPayload.missed .branch) +
        q.retired.countP (RobPayload.missed .jalr)) + if s.flushes then 1 else 0 := by
  rw [st.retired, List.countP_append, List.countP_append, Latched.retired, Latched.flushes,
    Latched.retires]
  cases s.commits
  · simp
  · cases ho : s.head.op <;> cases hm : robIsMispredicted s.head <;>
      cases hf : lsQueueFull s <;> simp [RobPayload.missed, ho, hm] <;> omega

theorem flushCount_eq (hr : cpuRun os c = .ok c') :
    c'.plain.retired.countP (RobPayload.missed .branch) +
        c'.plain.retired.countP (RobPayload.missed .jalr) =
      c.plain.retired.countP (RobPayload.missed .branch) +
        c.plain.retired.countP (RobPayload.missed .jalr) + flushCount os c := by
  induction os generalizing c with
  | nil =>
    cases hr
    rfl
  | cons o os ih =>
    obtain ⟨c₁, h₁, h₂⟩ := bind_ok.1 hr
    obtain ⟨p, st⟩ := step_of_cpuTick h₁
    rw [ih h₂, missed_step st, flushCount, h₁]
    exact Nat.add_assoc _ _ _

theorem bp_of_cpuTick {o : Schedule} (h : cpuTick o c = .ok c') :
    c'.plain.bp = (latch c).bpAfter c.plain.bp := by
  have hx : ∀ x : PlainOp, (∃ d ∈ x.owners, d ≠ .robUnitTick) →
      ∀ p, (x.act p).bp = p.bp := fun _ => PlainOp.act_bp
  rw [plainAfter_owner_eq Plain.bp (by decide) hx h]
  rw [← cpuPlainAt_owner (o := o) (c := c) Plain.bp .robUnitTick hx]
  exact plainAll_robUnitTick_bp _

theorem trained_of_cpuRun (h : Trained bp (latch c) c.plain) (co : Coherent (latch c))
    (hr : cpuRun os c = .ok c') : Trained bp (latch c') c'.plain := by
  induction os generalizing c with
  | nil =>
    cases hr
    exact h
  | cons o os ih =>
    obtain ⟨c₁, h₁, h₂⟩ := bind_ok.1 hr
    have st := (Tick.of_cpuTick h₁).step o.listeners_perm
    exact ih (h.step co st (bp_of_cpuTick h₁) (cpuPlainAt_bp _)) (co.step st) h₂

end

def outcomes (i j : ℤ) (retired : List RobPayload) : List Bool :=
  (retired.filter (RobPayload.inCell i j)).map RobPayload.taken

omit [WideShift] in
/-- The wrong predictions of a counter are those on its outcomes alone. -/
theorem countP_missed {i j : ℤ} {retired before after : List RobPayload}
    (hp : ∀ n data, retired[n]? = some data → data.op = .branch → PredictedBy bp retired data n)
    (hb : ∀ data ∈ retired, data.op = .branch → Bit data.value) (hr : retired = before ++ after) :
    after.countP (fun data => data.missed .branch && data.inCell i j) =
      misses bpMax bpThreshold ((before.foldl BranchPredictor.train bp).state i j)
        (outcomes i j after) := by
  induction after generalizing before with
  | nil => rfl
  | cons data after ih =>
    have hrest := @ih (before ++ [data]) (by simp [hr])
    rw [List.foldl_append, List.foldl_cons, List.foldl_nil, BranchPredictor.state_train] at hrest
    rw [List.countP_cons, hrest, outcomes, outcomes, List.filter_cons]
    by_cases hc : data.inCell i j = true
    · have hcell : data.op = .branch ∧ data.predictedTake.hist = i ∧ bpHash data.pc = j := by
        simpa [RobPayload.inCell, and_assoc] using hc
      have hget : retired[before.length]? = some data := by simp [hr]
      have hnow := predicts_retired hp hb hget hcell.1
      rw [hcell.2.1, hcell.2.2, hr, List.take_left] at hnow
      have hmem : data ∈ retired := by simp [hr]
      rw [if_pos hc, if_pos hc, List.map_cons, misses, taken_iff_missed hcell.1 (hb _ hmem hcell.1),
        hnow, BranchPredictor.predicts, Nat.add_comm, hc, Bool.and_true]
      congr 1
      by_cases hright : decide ((before.foldl BranchPredictor.train bp).state i j ≥ bpThreshold) =
          data.taken
      · simp [hright]
      · simp [hright]
    · rw [if_neg hc, if_neg hc]
      simp [hc]

section
variable (image : MemData) (garbage : ℤ → ℤ → ℤ) (hist : ℤ) {os : List Schedule}

omit [WideShift] in
theorem trained_cpuCreate : Trained (bpCreate garbage hist)
    (latch (cpuCreate image garbage hist)) (cpuCreate image garbage hist).plain where
  trained := rfl
  entries := fun _ slot hs => by cases hs
  retired := fun n data hd => by cases hd

theorem bits_of_cpuRun {c : Cpu} (hr : cpuRun os (cpuCreate image garbage hist) = .ok c) :
    ∀ data ∈ c.plain.retired, data.op = .branch → Bit data.value := by
  obtain ⟨e, path⟩ := onPath_of_cpuRun image garbage hist hr
  exact fun data hd => (path.resolved data hd).2

/-- The predictor is what the retired branches and JALRs taught it, in their order. A
    branch that retires was predicted as its counter predicts by then, in the place of
    a history that was shifted in before. -/
theorem predictor_of_retired {c : Cpu} (hr : cpuRun os (cpuCreate image garbage hist) = .ok c) :
    c.plain.bp = c.plain.retired.foldl BranchPredictor.train (bpCreate garbage hist) ∧
      ∀ n data, c.plain.retired[n]? = some data → data.op = .branch →
        data.predictedTake.take =
            ((c.plain.retired.take n).foldl BranchPredictor.train (bpCreate garbage hist)).predicts
              data.predictedTake.hist (bpHash data.pc) ∧
          ∃ k ≤ n, data.predictedTake.hist =
            ((c.plain.retired.take k).foldl BranchPredictor.train
              (bpCreate garbage hist)).hist := by
  have h := trained_of_cpuRun (trained_cpuCreate image garbage hist)
    (coherent_cpuCreate image garbage hist) hr
  refine ⟨h.trained, fun n data hd ho => ⟨?_, ?_⟩⟩
  · exact predicts_retired h.retired (bits_of_cpuRun image garbage hist hr) hd ho
  · obtain ⟨k, hk, hpred, -⟩ := h.retired n data hd ho
    exact ⟨k, hk, congrArg BpResult.hist hpred⟩

/-- Each counter of the table is wrong at most twice for every time that the branches
    it predicts change their direction, the first direction being taken. -/
theorem mispredictions_le {c : Cpu} (hr : cpuRun os (cpuCreate image garbage hist) = .ok c)
    {i j : ℤ} (hi : 0 ≤ i ∧ i < 256) (hj : 0 ≤ j ∧ j < 256) :
    c.plain.retired.countP (fun data => data.missed .branch && data.inCell i j) ≤
      2 * flips true (outcomes i j c.plain.retired) := by
  have h := trained_of_cpuRun (trained_cpuCreate image garbage hist)
    (coherent_cpuCreate image garbage hist) hr
  have hstart : (bpCreate garbage hist).state i j = bpThreshold :=
    if_pos ⟨hi.1, hi.2, hj.1, hj.2⟩
  have hcount := @countP_missed (bpCreate garbage hist) i j c.plain.retired [] c.plain.retired
    h.retired (bits_of_cpuRun image garbage hist hr) rfl
  have hle := @misses_le bpMax bpThreshold 2 (by decide) (by decide) (by decide) bpThreshold
    (by decide) true (outcomes i j c.plain.retired)
  have hdebt : debt bpThreshold bpThreshold true = 0 := rfl
  rw [List.foldl_nil, hstart] at hcount
  omega

theorem counters_of_cpuRun {c : Cpu} (hr : cpuRun os (cpuCreate image garbage hist) = .ok c) :
    c.plain.bp.total = c.plain.retired.countP (·.op = .branch) ∧
      c.plain.bp.jalrTotal = c.plain.retired.countP (·.op = .jalr) ∧
      c.plain.bp.total - c.plain.bp.correct =
        c.plain.retired.countP (RobPayload.missed .branch) ∧
      c.plain.bp.jalrTotal - c.plain.bp.jalrCorrect =
        c.plain.retired.countP (RobPayload.missed .jalr) := by
  have h := trained_of_cpuRun (trained_cpuCreate image garbage hist)
    (coherent_cpuCreate image garbage hist) hr
  have hcount := (bpCreate garbage hist).foldl_train (bits_of_cpuRun image garbage hist hr)
  rw [← h.trained] at hcount
  simpa [bpCreate] using hcount

theorem wrong_of_cpuRun {c : Cpu} (hr : cpuRun os (cpuCreate image garbage hist) = .ok c) :
    c.plain.bp.total - c.plain.bp.correct + (c.plain.bp.jalrTotal - c.plain.bp.jalrCorrect) =
      flushCount os (cpuCreate image garbage hist) := by
  obtain ⟨-, -, hmissed, hmissedJalr⟩ := counters_of_cpuRun image garbage hist hr
  have hflush := flushCount_eq hr
  rw [hmissed, hmissedJalr, ← Int.natCast_add, hflush]
  exact congrArg Nat.cast (Nat.zero_add _)

/-- The counters that are printed at the end of the loop, which makes an iteration for
    each cycle and ends at HCF if not with the iterations that it may make: the predictions
    are those of the retired branches, with rows of the table, and JALRs, and every wrong
    one is a flush. -/
theorem stats_of_cpuLoop (hh : InTable hist) {m : Machine}
    (hl : cpuLoop os (machineCreate image garbage hist) = .ok m) :
    ∃ os₁ os₂, os = os₁ ++ os₂ ∧ cpuRun os₁ (cpuCreate image garbage hist) = .ok m.cpu ∧
      (os₂ = [] ∨ m.cpu.plain.hcf = true) ∧ (stats m).cycles = os₁.length ∧
      (stats m).bpTotal = m.cpu.plain.retired.countP (·.op = .branch) ∧
      (∀ data ∈ m.cpu.plain.retired, data.op = .branch → InTable data.predictedTake.hist) ∧
      (stats m).jalrTotal = m.cpu.plain.retired.countP (·.op = .jalr) ∧
      (stats m).bpTotal - (stats m).bpCorrect =
        m.cpu.plain.retired.countP (RobPayload.missed .branch) ∧
      (stats m).jalrTotal - (stats m).jalrCorrect =
        m.cpu.plain.retired.countP (RobPayload.missed .jalr) ∧
      (stats m).bpTotal - (stats m).bpCorrect + ((stats m).jalrTotal - (stats m).jalrCorrect) =
        flushCount os₁ (cpuCreate image garbage hist) := by
  obtain ⟨os₁, os₂, rfl, hr, -, hclk, hend⟩ := run_of_cpuLoop (loopAll_true _ _) hl
  obtain ⟨htotal, hjalr, hmissed, hmissedJalr⟩ := counters_of_cpuRun image garbage hist hr
  refine ⟨os₁, os₂, rfl, hr, hend, ?_, htotal, fun data hd ho => ?_, hjalr, hmissed, hmissedJalr,
    wrong_of_cpuRun _ _ _ hr⟩
  · rw [stats, hclk]
    exact Int.zero_add _
  · have h := trained_of_cpuRun (trained_cpuCreate image garbage hist)
      (coherent_cpuCreate image garbage hist) hr
    obtain ⟨n, hn⟩ := List.mem_iff_getElem?.1 hd
    exact (h.retired n data hn ho).inTable hh

end

omit [WideShift] in
/-- The branch was predicted by the predictor that no instruction had trained. -/
theorem predictor_of_retired_branch :
    (bootCpu 7 branchProgram).plain.bp = (bootCpu 7 branchProgram).plain.retired.foldl
        BranchPredictor.train (bpCreate (fun _ _ => 0) 0) ∧
      ∀ n data, (bootCpu 7 branchProgram).plain.retired[n]? = some data → data.op = .branch →
        data.predictedTake.take =
            (((bootCpu 7 branchProgram).plain.retired.take n).foldl BranchPredictor.train
              (bpCreate (fun _ _ => 0) 0)).predicts data.predictedTake.hist (bpHash data.pc) ∧
          ∃ k ≤ n, data.predictedTake.hist =
            (((bootCpu 7 branchProgram).plain.retired.take k).foldl BranchPredictor.train
              (bpCreate (fun _ _ => 0) 0)).hist :=
  @predictor_of_retired .masked (imageOf branchProgram) (fun _ _ => 0) 0 (bootTicks 7) _
    (cpuRun_boot (by decide +kernel))

omit [WideShift] in
/-- The branch is not taken, which costs the first counter one wrong prediction. -/
theorem mispredictions_le_branch :
    (bootCpu 7 branchProgram).plain.retired.countP
        (fun data => data.missed .branch && data.inCell 0 0) ≤
      2 * flips true (outcomes 0 0 (bootCpu 7 branchProgram).plain.retired) :=
  @mispredictions_le .masked (imageOf branchProgram) (fun _ _ => 0) 0 (bootTicks 7) _
    (cpuRun_boot (by decide +kernel)) 0 0 (by decide) (by decide)

omit [WideShift] in
/-- The loop ends with its seven iterations. -/
theorem stats_of_cpuLoop_branch :
    ∃ os₁ os₂, bootTicks 7 = os₁ ++ os₂ ∧
      @cpuRun .masked os₁ (boot branchProgram) =
        .ok (loopMachine 7 (bootMachine 0 branchProgram)).cpu ∧
      os₂ = [] ∧
      (stats (loopMachine 7 (bootMachine 0 branchProgram))).cycles = os₁.length := by
  obtain ⟨os₁, os₂, hos, hr, hend, hcycles, -⟩ := @stats_of_cpuLoop .masked
    (imageOf branchProgram) (fun _ _ => 0) 0 (bootTicks 7) (by decide)
    (loopMachine 7 (bootMachine 0 branchProgram)) (cpuLoop_boot (by decide +kernel))
  exact ⟨os₁, os₂, hos, hr, hend.resolve_right (by decide +kernel), hcycles⟩

end TomasuloCpu
