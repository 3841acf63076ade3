import TomasuloCpu.BranchPredictor

set_option autoImplicit false

/-!
# Runs of the branch predictor

The calls that a branch predictor receives. A feedback passes a result that an
earlier prediction has returned, with any number of calls in between.
-/
namespace TomasuloCpu

def bpBits : ℤ := 256
def bpSize : ℤ := 0x100

def InTable (row : ℤ) : Prop := 0 ≤ row ∧ row < bpBits

instance (row : ℤ) : Decidable (InTable row) := inferInstanceAs (Decidable (_ ∧ _))

structure BpRun where
  bp : BranchPredictor
  results : List BpResult

inductive BpCall where
  | predict (pc : Addr)
  | feedback (pc : Addr) (res : BpResult) (actualTake : Bool)

namespace BpRun

def call (s : BpRun) : BpCall → BpRun
  | .predict pc => { s with results := branchPredict s.bp pc :: s.results }
  | .feedback pc res actualTake => { s with bp := bpFeedback s.bp pc res actualTake }

/-- Feedback is about a prediction that has been made. -/
def Permits (s : BpRun) : BpCall → Prop
  | .predict _ => True
  | .feedback _ res _ => res ∈ s.results

def cell (s : BpRun) : BpCall → ℤ × ℤ
  | .predict pc => (s.bp.hist, bpHash pc)
  | .feedback pc res _ => (res.hist, bpHash pc)

inductive Reach (s : BpRun) : BpRun → Prop
  | start : Reach s s
  | call {t : BpRun} {c : BpCall} : Reach s t → t.Permits c → Reach s (t.call c)

/-- What the predictor must not do whatever it is asked next. -/
structure Bounded (s : BpRun) : Prop where
  hist : ∀ c, s.Permits c → 0 ≤ (s.cell c).1 ∧ (s.cell c).1 < bpBits
  hash : ∀ c, s.Permits c → 0 ≤ (s.cell c).2 ∧ (s.cell c).2 < bpSize
  counter : ∀ i j, 0 ≤ i → i < bpBits → 0 ≤ j → j < bpSize →
    0 ≤ s.bp.state i j ∧ s.bp.state i j ≤ bpMax
  frame : ∀ c, s.Permits c → ∀ i j, (i, j) ≠ s.cell c →
    (s.call c).bp.state i j = s.bp.state i j

/-- The history, those that predictions carry and the counters are in range. -/
structure Ranged (s : BpRun) : Prop where
  hist : 0 ≤ s.bp.hist ∧ s.bp.hist < bpBits
  results : ∀ res ∈ s.results, 0 ≤ res.hist ∧ res.hist < bpBits
  counter : ∀ i j, 0 ≤ i → i < bpBits → 0 ≤ j → j < bpSize →
    0 ≤ s.bp.state i j ∧ s.bp.state i j ≤ bpMax

end BpRun

theorem toNat_and_lt (x : Word) : (x &&& (0xff : Word)).toNat < 256 := by
  rw [BitVec.toNat_and]
  exact Nat.lt_of_le_of_lt Nat.and_le_right (by decide)

theorem bpHash_range (pc : Addr) : 0 ≤ bpHash pc ∧ bpHash pc < bpSize := by
  have h := toNat_and_lt (pc >>> 2)
  unfold bpHash bpMask bpSize
  omega

theorem bpCount_range {state : ℤ} {actualTake : Bool} (h : 0 ≤ state ∧ state ≤ bpMax) :
    0 ≤ bpCount state actualTake ∧ bpCount state actualTake ≤ bpMax := by
  unfold bpCount bpMax at *
  split_ifs <;> omega

theorem bpFeedback_hist (bp : BranchPredictor) (pc : Addr) (res : BpResult) (actualTake : Bool) :
    0 ≤ (bpFeedback bp pc res actualTake).hist ∧
      (bpFeedback bp pc res actualTake).hist < bpBits := by
  have h := toNat_and_lt (BitVec.ofInt 32 bp.hist <<< 1 ||| boolWord actualTake)
  unfold bpFeedback bpHistMask bpBits
  dsimp only
  omega

theorem bpFeedback_state_of_ne {bp : BranchPredictor} {pc : Addr} {res : BpResult}
    {actualTake : Bool} {i j : ℤ} (h : (i, j) ≠ (res.hist, bpHash pc)) :
    (bpFeedback bp pc res actualTake).state i j = bp.state i j := by
  have hij : ¬(i = res.hist ∧ j = bpHash pc) := by
    rintro ⟨rfl, rfl⟩
    exact h rfl
  exact if_neg hij

theorem bpFeedback_state_self (bp : BranchPredictor) (pc : Addr) (res : BpResult)
    (actualTake : Bool) : (bpFeedback bp pc res actualTake).state res.hist (bpHash pc) =
      bpCount (bp.state res.hist (bpHash pc)) actualTake :=
  if_pos ⟨rfl, rfl⟩

namespace BpRun

variable {s t : BpRun} {c : BpCall}

theorem ranged_bpCreate {garbage : ℤ → ℤ → ℤ} {hist : ℤ} (h : 0 ≤ hist ∧ hist < bpBits) :
    Ranged ⟨bpCreate garbage hist, []⟩ where
  hist := h
  results res hr := nomatch hr
  counter i j hi hi' hj hj' := by
    have hs : (bpCreate garbage hist).state i j = bpThreshold := if_pos ⟨hi, hi', hj, hj'⟩
    rw [hs]
    decide

theorem Ranged.call (h : s.Ranged) (hc : s.Permits c) : (s.call c).Ranged := by
  cases c with
  | predict pc =>
    refine ⟨h.hist, ?_, h.counter⟩
    intro res hr
    rcases List.mem_cons.1 hr with rfl | hr
    · exact h.hist
    · exact h.results res hr
  | feedback pc res actualTake =>
    refine ⟨bpFeedback_hist s.bp pc res actualTake, h.results, ?_⟩
    intro i j hi hi' hj hj'
    have hij := h.counter i j hi hi' hj hj'
    by_cases he : (i, j) = (res.hist, bpHash pc)
    · obtain ⟨rfl, rfl⟩ := Prod.mk.inj he
      have hs := bpFeedback_state_self s.bp pc res actualTake
      simp only [BpRun.call, hs]
      exact bpCount_range hij
    · simp only [BpRun.call, bpFeedback_state_of_ne he]
      exact hij

theorem Ranged.reach (h : s.Ranged) (hr : s.Reach t) : t.Ranged := by
  induction hr with
  | start => exact h
  | call _ hc ih => exact ih.call hc

theorem Ranged.bounded (h : s.Ranged) : s.Bounded where
  hist c hc := by
    cases c with
    | predict pc => exact h.hist
    | feedback pc res actualTake => exact h.results res hc
  hash c _ := by
    cases c with
    | predict pc => exact bpHash_range pc
    | feedback pc res actualTake => exact bpHash_range pc
  counter := h.counter
  frame c _ i j hij := by
    cases c with
    | predict pc => rfl
    | feedback pc res actualTake => exact bpFeedback_state_of_ne hij

/-- The predictor stays inside its table whatever calls it receives if and only if
    the history that `bp_create` leaves unassigned happens to be in range. -/
theorem bounded_iff (garbage : ℤ → ℤ → ℤ) (hist : ℤ) :
    (∀ t, Reach ⟨bpCreate garbage hist, []⟩ t → t.Bounded) ↔ 0 ≤ hist ∧ hist < bpBits := by
  constructor
  · intro h
    exact (h _ .start).hist (.predict 0) trivial
  · intro h t ht
    exact ((ranged_bpCreate h).reach ht).bounded

/-- The first prediction reads past the table. -/
theorem not_bounded_of_garbage :
    ¬∀ t, Reach ⟨bpCreate (fun _ _ => 0) 256, []⟩ t → t.Bounded := by
  intro h
  have hrange := ((h _ .start).hist (.predict 0) trivial).2
  exact absurd hrange (by decide)

end BpRun

end TomasuloCpu
