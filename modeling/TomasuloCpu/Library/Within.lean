import Mathlib.Algebra.Ring.Nat

set_option autoImplicit false

/-!
# Bounded progress

What every run of a transition relation meets within a number of steps. The
rules: a rank that falls, a rank that may pause for a step, one phase after
another, and a counter that grows again and again.
-/
namespace TomasuloCpu.Progress

variable {σ : Type} (R : σ → σ → Prop) (P : σ → Prop)

/-- Every run of `n` steps from a state passes through a state with `P`. -/
def Within : ℕ → σ → Prop
  | 0, s => P s
  | n + 1, s => P s ∨ ∀ s', R s s' → Within n s'

variable {R P} {Q I : σ → Prop} {s : σ} {n m : ℕ}

theorem Within.now (h : P s) : Within R P n s := by
  cases n with
  | zero => exact h
  | succ n => exact .inl h

theorem Within.mono (h : Within R P n s) (hn : n ≤ m) (hPQ : ∀ s, P s → Q s) :
    Within R Q m s := by
  induction n generalizing m s with
  | zero => exact .now (hPQ s h)
  | succ n ih =>
    obtain ⟨m, rfl⟩ : ∃ k, m = k + 1 := ⟨m - 1, by omega⟩
    cases h with
    | inl h => exact .inl (hPQ s h)
    | inr h => exact .inr fun s' hR => ih (h s' hR) (by omega)

/-- An invariant of the runs holds where they meet `P`. -/
theorem Within.invariant (h : Within R P n s) (hstep : ∀ s s', I s → R s s' → I s') (hI : I s) :
    Within R (fun s => P s ∧ I s) n s := by
  induction n generalizing s with
  | zero => exact ⟨h, hI⟩
  | succ n ih =>
    cases h with
    | inl h => exact .inl ⟨h, hI⟩
    | inr h => exact .inr fun s' hR => ih (h s' hR) (hstep s s' hI hR)

theorem Within.bind (h : Within R P n s) (hQ : ∀ s, P s → Within R Q m s) :
    Within R Q (n + m) s := by
  induction n generalizing s with
  | zero => exact (hQ s h).mono (by omega) fun _ h => h
  | succ n ih =>
    cases h with
    | inl h => exact (hQ s h).mono (by omega) fun _ h => h
    | inr h =>
      rw [Nat.succ_add]
      exact .inr fun s' hR => ih (h s' hR)

/-- A rank that falls with every step until `P` holds. -/
theorem Within.rank (f : σ → ℕ) (hstep : ∀ s s', I s → R s s' → I s')
    (hf : ∀ s s', I s → ¬P s → R s s' → P s' ∨ f s' < f s) (hI : I s) (hn : f s < n) :
    Within R P n s := by
  induction n generalizing s with
  | zero => omega
  | succ n ih =>
    by_cases hp : P s
    · exact .inl hp
    refine .inr fun s' hR => ?_
    cases hf s s' hI hp hR with
    | inl h => exact .now h
    | inr h => exact ih (hstep s s' hI hR) (by omega)

/-- A rank that falls with every step that is not a pause, where no pause
    follows another. -/
theorem Within.rank_pause (f : σ → ℕ) (pause : σ → Bool)
    (hstep : ∀ s s', I s → R s s' → I s')
    (hf : ∀ s s', I s → ¬P s → R s s' → P s' ∨
      if pause s then f s' ≤ f s ∧ pause s' = false else f s' < f s)
    (hI : I s) (hn : 2 * f s + 1 < n) : Within R P n s := by
  refine Within.rank (fun s => 2 * f s + if pause s then 1 else 0) hstep ?_ hI ?_
  · intro s s' hI hp hR
    refine (hf s s' hI hp hR).imp_right fun h => ?_
    cases hs : pause s
    · rw [hs, if_neg Bool.false_ne_true] at h
      cases pause s' <;> simp <;> omega
    · rw [hs, if_pos rfl] at h
      simp [h.2]
      omega
  · cases pause s <;> simp <;> omega

theorem Within.count (f : σ → ℕ) (hstep : ∀ s s', I s → R s s' → I s')
    (hgrow : ∀ s, I s → Within R (fun s' => f s < f s' ∨ Q s') n s) (hI : I s) (m : ℕ) :
    Within R (fun s' => f s + m ≤ f s' ∨ Q s') (m * n) s := by
  induction m generalizing s with
  | zero => exact .now (.inl (Nat.le_refl _))
  | succ m ih =>
    rw [Nat.succ_mul, Nat.add_comm (m * n)]
    refine ((hgrow s hI).invariant hstep hI).bind fun s₁ h₁ => ?_
    cases h₁.1 with
    | inl h =>
      refine (ih h₁.2).mono (Nat.le_refl _) fun s₂ => Or.imp_left fun h₂ => ?_
      omega
    | inr h => exact .now (.inr h)

end TomasuloCpu.Progress
