import Mathlib.Data.List.Basic

set_option autoImplicit false

/-!
# Walks

Sequences of items that each have a place and lead to a next one: a walk visits
the items of a list, every one at the place that the one before it leads to.
-/
namespace TomasuloCpu.Walks

variable {α P : Type}

/-- A walk from the place `a` through the items of a list to the place `b`. -/
def Walk (place next : α → P) : P → List α → P → Prop
  | a, [], b => a = b
  | a, x :: xs, b => place x = a ∧ Walk place next (next x) xs b

variable {place next : α → P} {a b c : P} {x y : α} {xs ys : List α}

@[simp] theorem walk_nil : Walk place next a [] b ↔ a = b := Iff.rfl

@[simp] theorem walk_cons :
    Walk place next a (x :: xs) b ↔ place x = a ∧ Walk place next (next x) xs b := Iff.rfl

theorem walk_append :
    Walk place next a (xs ++ ys) c ↔ ∃ b, Walk place next a xs b ∧ Walk place next b ys c := by
  induction xs generalizing a with
  | nil => simp
  | cons x xs ih =>
    simp only [List.cons_append, walk_cons, ih]
    constructor
    · rintro ⟨hx, b, h₁, h₂⟩
      exact ⟨b, ⟨hx, h₁⟩, h₂⟩
    · rintro ⟨b, ⟨hx, h₁⟩, h₂⟩
      exact ⟨hx, b, h₁, h₂⟩

theorem Walk.concat (h : Walk place next a xs b) (hx : place x = b) :
    Walk place next a (xs ++ [x]) (next x) :=
  walk_append.2 ⟨b, h, hx, rfl⟩

theorem Walk.end_unique (h : Walk place next a xs b) (h' : Walk place next a xs c) : b = c := by
  induction xs generalizing a with
  | nil => exact h.symm.trans h'
  | cons x xs ih => exact ih h.2 h'.2

theorem Walk.head_place (h : Walk place next a xs b) (hx : xs.head? = some x) : place x = a := by
  cases xs with
  | nil => cases hx
  | cons y ys =>
    cases hx
    exact h.1

theorem Walk.place_succ (h : Walk place next a xs b) {i : ℕ} (hx : xs[i]? = some x)
    (hy : xs[i + 1]? = some y) : place y = next x := by
  induction xs generalizing a i with
  | nil => cases hx
  | cons z zs ih =>
    cases i with
    | zero =>
      cases hx
      exact h.2.head_place (by simpa [List.head?_eq_getElem?] using hy)
    | succ i => exact ih h.2 hx hy

theorem Walk.map_congr {β : Type} {f g : β → α} {l : List β}
    (h : Walk place next a (l.map f) b)
    (hp : ∀ i ∈ l, place (g i) = place (f i) ∧ next (g i) = next (f i)) :
    Walk place next a (l.map g) b := by
  induction l generalizing a with
  | nil => exact h
  | cons i l ih =>
    obtain ⟨h₁, h₂⟩ := hp i List.mem_cons_self
    refine ⟨h₁.trans h.1, ?_⟩
    rw [h₂]
    exact ih h.2 fun j hj => hp j (List.mem_cons_of_mem _ hj)

end TomasuloCpu.Walks
