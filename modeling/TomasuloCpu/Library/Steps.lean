import Mathlib.Data.List.Basic

set_option autoImplicit false

/-!
# Labelled runs

A run takes the steps that a list of labels names, in order. A simulation matches
every step from a related state by one with the same label.
-/
namespace TomasuloCpu.Labelled

variable {σ τ ι : Type}

inductive Steps (R : σ → ι → σ → Prop) : σ → List ι → σ → Prop where
  | nil {a : σ} : Steps R a [] a
  | cons {a b c : σ} {i : ι} {is : List ι} (first : R a i b) (rest : Steps R b is c) :
    Steps R a (i :: is) c

variable {R : σ → ι → σ → Prop} {S : τ → ι → τ → Prop} {rel : σ → τ → Prop} {a b : σ} {x : τ}
  {is : List ι}

/-- Each step of `R` from a related state is matched by one of `S`. -/
def Simulation (rel : σ → τ → Prop) (R : σ → ι → σ → Prop) (S : τ → ι → τ → Prop) : Prop :=
  ∀ ⦃a x i b⦄, rel a x → R a i b → ∃ y, S x i y ∧ rel b y

theorem Simulation.steps (sim : Simulation rel R S) (hr : rel a x) (h : Steps R a is b) :
    ∃ y, Steps S x is y ∧ rel b y := by
  induction h generalizing x with
  | nil => exact ⟨x, .nil, hr⟩
  | cons first rest ih =>
    obtain ⟨y, hs, hy⟩ := sim hr first
    obtain ⟨z, hrest, hz⟩ := ih hy
    exact ⟨z, .cons hs hrest, hz⟩

end TomasuloCpu.Labelled
