import Mathlib.Data.List.Nodup
import Mathlib.Data.List.Perm.Basic

set_option autoImplicit false

/-!
# Places that hold items

A family of places, some of them occupied, each with a label. When some places
are vacated and others are filled, the labels before and the labels after are
the same up to the labels that moved.
-/
namespace TomasuloCpu.Transfer

variable {ι κ : Type} [DecidableEq ι] {L L' R A : List ι} {P P' : ι → Bool}

/-- The places `R` are vacated, the places `A` are filled. -/
structure Update (L L' : List ι) (P P' : ι → Bool) (R A : List ι) : Prop where
  nodup : L.Nodup
  nodup' : L'.Nodup
  vacated_nodup : R.Nodup
  filled_nodup : A.Nodup
  vacated : ∀ i ∈ R, i ∈ L ∧ P i = true
  filled : ∀ i ∈ A, ¬(i ∈ L ∧ P i = true)
  occupied : ∀ i, (i ∈ L' ∧ P' i = true) ↔ (i ∈ L ∧ P i = true ∧ i ∉ R) ∨ i ∈ A

namespace Update

theorem perm (h : Update L L' P P' R A) : (L'.filter P' ++ R).Perm (L.filter P ++ A) := by
  refine (List.perm_ext_iff_of_nodup ?_ ?_).2 fun i => ?_
  · refine List.Nodup.append (h.nodup'.filter _) h.vacated_nodup fun i hi hr => ?_
    rcases (h.occupied i).1 (List.mem_filter.1 hi) with ⟨-, -, hn⟩ | ha
    · exact hn hr
    · exact h.filled i ha (h.vacated i hr)
  · exact List.Nodup.append (h.nodup.filter _) h.filled_nodup fun i hi ha =>
      h.filled i ha (List.mem_filter.1 hi)
  · rw [List.mem_append, List.mem_append, List.mem_filter, List.mem_filter, h.occupied]
    have hv := h.vacated i
    by_cases hr : i ∈ R
    · simp [hr, hv hr]
    · simp [hr]

/-- The labels, where the places that stay occupied keep theirs. -/
theorem perm_map (f f' : ι → κ) (h : Update L L' P P' R A)
    (keep : ∀ i ∈ L, P i = true → i ∉ R → i ∉ A → f' i = f i) :
    ((L'.filter P').map f' ++ R.map f).Perm ((L.filter P).map f ++ A.map f') := by
  have hp := h.perm.map fun i => if i ∈ A then f' i else f i
  simp only [List.map_append] at hp
  have h₁ : (L'.filter P').map (fun i => if i ∈ A then f' i else f i) = (L'.filter P').map f' := by
    refine List.map_congr_left fun i hi => ?_
    by_cases ha : i ∈ A
    · simp [ha]
    · rcases (h.occupied i).1 (List.mem_filter.1 hi) with ⟨hl, ho, hn⟩ | ha'
      · simp [ha, keep i hl ho hn ha]
      · exact absurd ha' ha
  have h₂ : R.map (fun i => if i ∈ A then f' i else f i) = R.map f := by
    refine List.map_congr_left fun i hi => ?_
    have ha : i ∉ A := fun ha => h.filled i ha (h.vacated i hi)
    simp [ha]
  have h₃ : (L.filter P).map (fun i => if i ∈ A then f' i else f i) = (L.filter P).map f := by
    refine List.map_congr_left fun i hi => ?_
    have ha : i ∉ A := fun ha => h.filled i ha (List.mem_filter.1 hi)
    simp [ha]
  have h₄ : A.map (fun i => if i ∈ A then f' i else f i) = A.map f' :=
    List.map_congr_left fun i hi => by simp [hi]
  rwa [h₁, h₂, h₃, h₄] at hp

end Update

end TomasuloCpu.Transfer
