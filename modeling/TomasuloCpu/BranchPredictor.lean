import TomasuloCpu.State

set_option autoImplicit false

/-!
# The branch predictor

`branch-predictor.c`. `bp_create` assigns every field but `hist`, which holds
whatever `malloc` returned; cells outside the table are the memory around it.
-/
namespace TomasuloCpu

def bpHistMask : Word := 0b11111111
def bpMask : Word := 0x0ff
def bpMax : ℤ := 3
def bpThreshold : ℤ := 2

/-- The predictor of `bp_create`, with the contents `malloc` left in `hist` and
    around the table. -/
def bpCreate (garbage : ℤ → ℤ → ℤ) (hist : ℤ) : BranchPredictor where
  state i j :=
    if 0 ≤ i ∧ i < 256 ∧ 0 ≤ j ∧ j < 256 then bpThreshold else garbage i j
  hist := hist
  total := 0
  correct := 0
  jalrTotal := 0
  jalrCorrect := 0

def bpHash (pc : Addr) : ℤ := ((pc >>> 2) &&& bpMask).toNat

def branchPredict (bp : BranchPredictor) (pc : Addr) : BpResult :=
  { take := bp.state bp.hist (bpHash pc) ≥ bpThreshold, hist := bp.hist }

def bpCount (state : ℤ) (actualTake : Bool) : ℤ :=
  if actualTake then if state < bpMax then state + 1 else state
  else if state > 0 then state - 1 else state

def bpFeedback (bp : BranchPredictor) (pc : Addr) (res : BpResult) (actualTake : Bool) :
    BranchPredictor :=
  { bp with
    total := bp.total + 1
    correct := if actualTake = res.take then bp.correct + 1 else bp.correct
    state := fun i j =>
      if i = res.hist ∧ j = bpHash pc then bpCount (bp.state res.hist (bpHash pc)) actualTake
      else bp.state i j
    hist := ((BitVec.ofInt 32 bp.hist <<< 1 ||| boolWord actualTake) &&& bpHistMask).toNat }

def bpFeedbackJalr (bp : BranchPredictor) (_pc _actual : Addr) (correct : Bool) :
    BranchPredictor :=
  { bp with
    jalrTotal := bp.jalrTotal + 1
    jalrCorrect := if correct then bp.jalrCorrect + 1 else bp.jalrCorrect }

end TomasuloCpu
