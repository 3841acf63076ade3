import Mathlib.Data.List.Nodup
import Mathlib.Data.List.TakeWhile
import Mathlib.Logic.Function.Basic

set_option autoImplicit false

/-!
# Two-phase clocked registers

A clocked design reads the latched contents of its registers and prepares their
next contents. A register of the family `T` may be written once between two
latches; an or-register of `O` collects the disjunction of what is written to
it. State outside the registers, of type `S`, changes in place. A callback is
the list of effects it has, in program order.
-/
namespace TomasuloCpu.Clocked

inductive Fault where
  /-- An assertion of the design failed. -/
  | assertion
  /-- A register was written twice between two latches. -/
  | doubleWrite
  /-- An access past the end of an array. -/
  | outOfBounds
  deriving DecidableEq, Repr

inductive Effect {R : Type} (T : R → Type) (O P : Type) where
  | write (r : R) (v : T r)
  | reduce (o : O) (b : Bool)
  | plain (p : P)
  | fail (f : Fault)

structure Pending {R : Type} (T : R → Type) (O S : Type) where
  next : ∀ r, T r
  writeCount : R → ℕ
  reduced : O → Bool
  plain : S

variable {R : Type} {T : R → Type} {O P S C : Type}

def Effect.name? : Effect T O P → Option R
  | .write r _ => some r
  | _ => none

def Effect.plain? : Effect T O P → Option P
  | .plain p => some p
  | _ => none

/-- The registers written, one entry for each write. -/
def names (es : List (Effect T O P)) : List R := es.filterMap Effect.name?

def plains (es : List (Effect T O P)) : List P := es.filterMap Effect.plain?

@[simp] theorem names_nil : names ([] : List (Effect T O P)) = [] := rfl
@[simp] theorem names_append (es fs : List (Effect T O P)) :
    names (es ++ fs) = names es ++ names fs := List.filterMap_append
@[simp] theorem names_cons_write (r : R) (v : T r) (es : List (Effect T O P)) :
    names (.write r v :: es) = r :: names es := rfl
@[simp] theorem names_cons_reduce (o : O) (b : Bool) (es : List (Effect T O P)) :
    names (.reduce o b :: es) = names es := rfl
@[simp] theorem names_cons_plain (p : P) (es : List (Effect T O P)) :
    names (.plain p :: es) = names es := rfl
@[simp] theorem names_cons_fail (f : Fault) (es : List (Effect T O P)) :
    names (.fail f :: es) = names es := rfl

@[simp] theorem plains_nil : plains ([] : List (Effect T O P)) = [] := rfl
@[simp] theorem plains_append (es fs : List (Effect T O P)) :
    plains (es ++ fs) = plains es ++ plains fs := List.filterMap_append
@[simp] theorem plains_cons_write (r : R) (v : T r) (es : List (Effect T O P)) :
    plains (.write r v :: es) = plains es := rfl
@[simp] theorem plains_cons_reduce (o : O) (b : Bool) (es : List (Effect T O P)) :
    plains (.reduce o b :: es) = plains es := rfl
@[simp] theorem plains_cons_plain (p : P) (es : List (Effect T O P)) :
    plains (.plain p :: es) = p :: plains es := rfl
@[simp] theorem plains_cons_fail (f : Fault) (es : List (Effect T O P)) :
    plains (.fail f :: es) = plains es := rfl

theorem names_perm {es fs : List (Effect T O P)} (h : es.Perm fs) : (names es).Perm (names fs) :=
  h.filterMap _

theorem mem_names {r : R} {es : List (Effect T O P)} :
    r ∈ names es ↔ ∃ v, Effect.write r v ∈ es := by
  simp only [names, List.mem_filterMap]
  constructor
  · rintro ⟨e, he, h⟩
    cases e with
    | write r' v =>
      obtain rfl : r' = r := by simpa [Effect.name?] using h
      exact ⟨v, he⟩
    | _ => simp [Effect.name?] at h
  · rintro ⟨v, h⟩
    exact ⟨_, h, rfl⟩

section
variable {act : P → S → S} {eff : C → S → List (Effect T O P)} {cs : List C}

def plainAll (act : P → S → S) (es : List (Effect T O P)) (s : S) : S :=
  (plains es).foldl (fun s x => act x s) s

@[simp] theorem plainAll_nil (s : S) : plainAll act ([] : List (Effect T O P)) s = s := rfl

theorem plainAll_append (es fs : List (Effect T O P)) (s : S) :
    plainAll act (es ++ fs) s = plainAll act fs (plainAll act es s) := by
  simp [plainAll]

/-- A part of the in-place state that changes by that part alone. -/
theorem plainAll_congr {X : Type} (π : S → X)
    (hπ : ∀ x s s', π s = π s' → π (act x s) = π (act x s')) (es : List (Effect T O P)) {s s' : S}
    (h : π s = π s') : π (plainAll act es s) = π (plainAll act es s') := by
  simp only [plainAll]
  generalize plains es = xs
  induction xs generalizing s s' with
  | nil => exact h
  | cons x xs ih => exact ih (hπ x s s' h)

def plainAfter (act : P → S → S) (eff : C → S → List (Effect T O P)) : List C → S → S
  | [], s => s
  | c :: cs, s => plainAfter act eff cs (plainAll act (eff c s) s)

theorem plainAfter_keep {X : Type} (π : S → X)
    (keep : ∀ c ∈ cs, ∀ s, π (plainAll act (eff c s) s) = π s) (s : S) :
    π (plainAfter act eff cs s) = π s := by
  induction cs generalizing s with
  | nil => rfl
  | cons c cs ih =>
    simp only [plainAfter]
    rw [ih fun d hd => keep d (List.mem_cons_of_mem _ hd)]
    exact keep c List.mem_cons_self s

variable [DecidableEq C]

def plainAt (act : P → S → S) (eff : C → S → List (Effect T O P)) (cs : List C) (s : S)
    (c : C) : S :=
  plainAfter act eff (cs.takeWhile (· ≠ c)) s

def effectsOf (act : P → S → S) (eff : C → S → List (Effect T O P)) (cs : List C) (s : S) :
    List (Effect T O P) :=
  cs.flatMap fun c => eff c (plainAt act eff cs s c)

theorem effectsOf_cons (c : C) (cs : List C) (s : S) (hc : c ∉ cs) :
    effectsOf act eff (c :: cs) s =
      eff c s ++ effectsOf act eff cs (plainAll act (eff c s) s) := by
  simp only [effectsOf, List.flatMap_cons]
  congr 1
  · simp [plainAt, plainAfter]
  · refine List.flatMap_congr fun d hd => ?_
    have hne : c ≠ d := fun he => hc (he ▸ hd)
    simp [plainAt, hne, plainAfter]

/-- A part of the in-place state that only callback `c₀` changes. -/
theorem plainAfter_owner {X : Type} (π : S → X) (c₀ : C) (g : X → X)
    (own : ∀ s, π (plainAll act (eff c₀ s) s) = g (π s))
    (keep : ∀ c ∈ cs, c ≠ c₀ → ∀ s, π (plainAll act (eff c s) s) = π s) (hc : cs.Nodup)
    (s : S) : π (plainAfter act eff cs s) = if c₀ ∈ cs then g (π s) else π s := by
  induction cs generalizing s with
  | nil => simp [plainAfter]
  | cons c cs ih =>
    rw [List.nodup_cons] at hc
    have hs := ih (fun d hd => keep d (List.mem_cons_of_mem _ hd)) hc.2
    simp only [plainAfter, hs]
    by_cases h : c = c₀
    · subst h
      simp [hc.1, own]
    · have hne : c₀ ≠ c := fun he => h he.symm
      simp [keep c List.mem_cons_self h, hne]

theorem plainAt_owner {X : Type} (π : S → X) (c₀ : C)
    (keep : ∀ c ∈ cs, c ≠ c₀ → ∀ s, π (plainAll act (eff c s) s) = π s) (s : S) :
    π (plainAt act eff cs s c₀) = π s := by
  refine plainAfter_keep π (fun c hc => ?_) s
  have hne : c ≠ c₀ := by simpa using List.mem_takeWhile_imp hc
  exact keep c (List.takeWhile_subset _ hc) hne

/-- Every callback sees an owned part either as the tick found it or as the
    owner leaves it. -/
theorem plainAt_cases {X : Type} (π : S → X) (c₀ : C) (g : X → X)
    (own : ∀ s, π (plainAll act (eff c₀ s) s) = g (π s))
    (keep : ∀ c ∈ cs, c ≠ c₀ → ∀ s, π (plainAll act (eff c s) s) = π s) (hc : cs.Nodup)
    (s : S) (c : C) :
    π (plainAt act eff cs s c) = π s ∨ π (plainAt act eff cs s c) = g (π s) := by
  have h : π (plainAfter act eff (cs.takeWhile (· ≠ c)) s) = _ := plainAfter_owner π c₀ g own
    (fun d hd => keep d (List.takeWhile_subset _ hd))
    (hc.sublist (List.takeWhile_sublist _)) s
  rw [plainAt, h]
  split
  · exact .inr rfl
  · exact .inl rfl

theorem plainAfter_of_owner {X : Type} (π : S → X) {c₀ : C} (hm : c₀ ∈ cs)
    (keep : ∀ c ∈ cs, c ≠ c₀ → ∀ s, π (plainAll act (eff c s) s) = π s) (hc : cs.Nodup)
    (s : S) :
    π (plainAfter act eff cs s) =
      π (plainAll act (eff c₀ (plainAt act eff cs s c₀)) (plainAt act eff cs s c₀)) := by
  induction cs generalizing s with
  | nil => simp at hm
  | cons c cs ih =>
    rw [List.nodup_cons] at hc
    have hk := fun d hd => keep d (List.mem_cons_of_mem c hd)
    by_cases h : c = c₀
    · subst h
      have hne : ∀ d ∈ cs, d ≠ c := fun d hd he => hc.1 (he ▸ hd)
      simpa [plainAfter, plainAt] using plainAfter_keep π (fun d hd => hk d hd (hne d hd)) _
    · have hm' : c₀ ∈ cs := (List.mem_cons.1 hm).resolve_left fun he => h he.symm
      simpa [plainAfter, plainAt, h] using ih hm' hk hc.2 (plainAll act (eff c s) s)

theorem plainAll_effectsOf (hc : cs.Nodup) (s : S) :
    plainAll act (effectsOf act eff cs s) s = plainAfter act eff cs s := by
  induction cs generalizing s with
  | nil => rfl
  | cons c cs ih =>
    rw [List.nodup_cons] at hc
    rw [effectsOf_cons c cs s hc.1, plainAll_append, ih hc.2, plainAfter]

end

variable [DecidableEq R] [DecidableEq O] (act : P → S → S)

def Effect.apply (p : Pending T O S) : Effect T O P → Except Fault (Pending T O S)
  | .write r v =>
    if p.writeCount r + 1 > 1 then .error .doubleWrite
    else .ok { p with
      next := Function.update p.next r v
      writeCount := Function.update p.writeCount r (p.writeCount r + 1) }
  | .reduce o b => .ok { p with reduced := Function.update p.reduced o (p.reduced o || b) }
  | .plain x => .ok { p with plain := act x p.plain }
  | .fail f => .error f

def applyAll : List (Effect T O P) → Pending T O S → Except Fault (Pending T O S)
  | [], p => .ok p
  | e :: es, p => do applyAll es (← e.apply act p)

/-- The callbacks of one tick, in the order in which they are called; each of
    them sees the in-place state its predecessors left. -/
def run (eff : C → S → List (Effect T O P)) : List C → Pending T O S →
    Except Fault (Pending T O S)
  | [], p => .ok p
  | c :: cs, p => do run eff cs (← applyAll act (eff c p.plain) p)

theorem bind_ok {ε α β : Type} {x : Except ε α} {f : α → Except ε β} {b : β} :
    (x >>= f) = .ok b ↔ ∃ a, x = .ok a ∧ f a = .ok b := by
  cases x with
  | error e => simp [bind, Except.bind]
  | ok a => simp [bind, Except.bind]

theorem applyAll_append (es fs : List (Effect T O P)) (p : Pending T O S) :
    applyAll act (es ++ fs) p = applyAll act es p >>= applyAll act fs := by
  induction es generalizing p with
  | nil => rfl
  | cons e es ih =>
    simp only [List.cons_append, applyAll]
    cases e.apply act p with
    | error f => rfl
    | ok q => exact ih q

variable {act} {p q : Pending T O S} {es : List (Effect T O P)}

theorem apply_next_of_write {r : R} {v : T r}
    (h : (Effect.write (O := O) (P := P) r v).apply act p = .ok q) : q.next r = v := by
  simp only [Effect.apply] at h
  split at h
  · cases h
  · cases h; simp

theorem apply_next_of_ne {e : Effect T O P} {r : R} (h : e.apply act p = .ok q)
    (hr : ∀ v, e ≠ .write r v) : q.next r = p.next r := by
  cases e with
  | write r' v =>
    simp only [Effect.apply] at h
    split at h
    · cases h
    · cases h
      have hne : r ≠ r' := by rintro rfl; exact hr v rfl
      exact Function.update_of_ne hne _ _
  | reduce o b => cases h; rfl
  | plain x => cases h; rfl
  | fail f => cases h

theorem applyAll_next_of_not_mem {r : R} (h : applyAll act es p = .ok q)
    (hr : ∀ v, Effect.write r v ∉ es) : q.next r = p.next r := by
  induction es generalizing p with
  | nil => cases h; rfl
  | cons e es ih =>
    obtain ⟨p₁, h₁, h₂⟩ := bind_ok.1 h
    rw [ih h₂ fun v hv => hr v (List.mem_cons_of_mem _ hv)]
    exact apply_next_of_ne h₁ fun v hv => hr v (hv ▸ List.mem_cons_self)

theorem apply_count_le {e : Effect T O P} (h : e.apply act p = .ok q) (r : R) :
    p.writeCount r ≤ q.writeCount r := by
  cases e with
  | write r' v =>
    simp only [Effect.apply] at h
    split at h
    · cases h
    · cases h
      by_cases hr : r = r'
      · subst hr; simp
      · simp [hr]
  | reduce o b => cases h; exact Nat.le_refl _
  | plain x => cases h; exact Nat.le_refl _
  | fail f => cases h

theorem not_mem_of_count {r : R} (h : applyAll act es p = .ok q) (hp : p.writeCount r ≠ 0)
    (v : T r) : Effect.write r v ∉ es := by
  induction es generalizing p with
  | nil => simp
  | cons e es ih =>
    obtain ⟨p₁, h₁, h₂⟩ := bind_ok.1 h
    have hle := apply_count_le h₁ r
    intro hm
    rcases List.mem_cons.1 hm with rfl | hm
    · simp only [Effect.apply] at h₁
      split at h₁
      · cases h₁
      · omega
    · exact ih h₂ (by omega) hm

theorem applyAll_next_of_mem {r : R} {v : T r} (h : applyAll act es p = .ok q)
    (hm : Effect.write r v ∈ es) : q.next r = v := by
  induction es generalizing p with
  | nil => simp at hm
  | cons e es ih =>
    obtain ⟨p₁, h₁, h₂⟩ := bind_ok.1 h
    rcases List.mem_cons.1 hm with rfl | hm
    · have hc : p₁.writeCount r ≠ 0 := by
        simp only [Effect.apply] at h₁
        split at h₁
        · cases h₁
        · cases h₁; simp
      rw [applyAll_next_of_not_mem h₂ (not_mem_of_count h₂ hc)]
      exact apply_next_of_write h₁
    · exact ih h₂ hm

theorem applyAll_reduced {o : O} (h : applyAll act es p = .ok q) :
    q.reduced o = true ↔ p.reduced o = true ∨ Effect.reduce o true ∈ es := by
  induction es generalizing p with
  | nil => cases h; simp
  | cons e es ih =>
    obtain ⟨p₁, h₁, h₂⟩ := bind_ok.1 h
    rw [ih h₂, List.mem_cons]
    cases e with
    | write r v =>
      simp only [Effect.apply] at h₁
      split at h₁
      · cases h₁
      · cases h₁; simp
    | reduce o' b =>
      cases h₁
      by_cases ho : o = o'
      · subst ho
        cases b <;> simp
      · simp [ho]
    | plain x => cases h₁; simp
    | fail f => cases h₁

theorem applyAll_no_fail (h : applyAll act es p = .ok q) (f : Fault) :
    Effect.fail f ∉ es := by
  induction es generalizing p with
  | nil => simp
  | cons e es ih =>
    obtain ⟨p₁, h₁, h₂⟩ := bind_ok.1 h
    intro hm
    rcases List.mem_cons.1 hm with rfl | hm
    · cases h₁
    · exact ih h₂ hm

theorem applyAll_plain (h : applyAll act es p = .ok q) : q.plain = plainAll act es p.plain := by
  induction es generalizing p with
  | nil => cases h; rfl
  | cons e es ih =>
    obtain ⟨p₁, h₁, h₂⟩ := bind_ok.1 h
    rw [ih h₂]
    cases e with
    | write r v =>
      simp only [Effect.apply] at h₁
      split at h₁
      · cases h₁
      · cases h₁; rfl
    | reduce o b => cases h₁; rfl
    | plain x => cases h₁; rfl
    | fail f => cases h₁

/-- Effects that write different, unwritten registers stop at a failure only. -/
theorem applyAll_cases (hn : (names es).Nodup) (hp : ∀ r ∈ names es, p.writeCount r = 0) :
    (∃ q, applyAll act es p = .ok q) ∨ ∃ f, .fail f ∈ es ∧ applyAll act es p = .error f := by
  induction es generalizing p with
  | nil => exact .inl ⟨p, rfl⟩
  | cons e es ih =>
    have weaken : ∀ {x : Except Fault (Pending T O S)},
        ((∃ q, x = .ok q) ∨ ∃ f, .fail f ∈ es ∧ x = .error f) →
        (∃ q, x = .ok q) ∨ ∃ f, .fail f ∈ e :: es ∧ x = .error f :=
      Or.imp_right fun ⟨f, hf, hx⟩ => ⟨f, List.mem_cons_of_mem _ hf, hx⟩
    cases e with
    | write r v =>
      simp only [names_cons_write, List.nodup_cons, List.mem_cons, forall_eq_or_imp] at hn hp
      simp only [applyAll, Effect.apply, hp.1, Nat.lt_irrefl, ↓reduceIte, bind, Except.bind]
      refine weaken (ih hn.2 fun r' hr' => ?_)
      have hne : r' ≠ r := fun he => hn.1 (he ▸ hr')
      simp [hne, hp.2 r' hr']
    | reduce o b =>
      exact weaken (ih (p := { p with reduced := Function.update p.reduced o (p.reduced o || b) })
        hn hp)
    | plain x => exact weaken (ih (p := { p with plain := act x p.plain }) hn hp)
    | fail f => exact .inr ⟨f, List.mem_cons_self, rfl⟩

theorem applyAll_ne_doubleWrite (hn : (names es).Nodup)
    (hp : ∀ r ∈ names es, p.writeCount r = 0) (hf : Effect.fail .doubleWrite ∉ es) :
    applyAll act es p ≠ .error .doubleWrite := by
  intro h
  have hc : (∃ q, applyAll act es p = .ok q) ∨ ∃ f, .fail f ∈ es ∧ applyAll act es p = .error f :=
    applyAll_cases hn hp
  rw [h] at hc
  rcases hc with ⟨q, hq⟩ | ⟨f, hm, hq⟩
  · cases hq
  · cases hq
    exact hf hm

theorem applyAll_isOk (hn : (names es).Nodup) (hp : ∀ r ∈ names es, p.writeCount r = 0)
    (hf : ∀ f, Effect.fail f ∉ es) : ∃ q, applyAll act es p = .ok q :=
  (applyAll_cases hn hp).resolve_right fun ⟨f, hm, _⟩ => hf f hm

theorem applyAll_error {f : Fault} (h : applyAll act es p = .error f) :
    f = .doubleWrite ∨ .fail f ∈ es := by
  induction es generalizing p with
  | nil => cases h
  | cons e es ih =>
    rw [applyAll] at h
    cases he : e.apply act p with
    | ok q =>
      rw [he] at h
      exact (ih h).imp_right (List.mem_cons_of_mem _)
    | error f' =>
      rw [he] at h
      obtain rfl : f' = f := by simpa [bind, Except.bind] using h
      cases e with
      | write r v =>
        simp only [Effect.apply] at he
        split at he
        · cases he
          exact .inl rfl
        · cases he
      | reduce o b => cases he
      | plain x => cases he
      | fail f =>
        cases he
        exact .inr List.mem_cons_self

theorem apply_writeCount {e : Effect T O P} (h : e.apply act p = .ok q) (r : R) :
    q.writeCount r = p.writeCount r + (names [e]).count r := by
  cases e with
  | write r' v =>
    simp only [Effect.apply] at h
    split at h
    · cases h
    · cases h
      by_cases hr : r' = r
      · subst hr
        simp
      · simp [hr, Ne.symm hr]
  | reduce o b => cases h; rfl
  | plain x => cases h; rfl
  | fail f => cases h

theorem applyAll_writeCount (h : applyAll act es p = .ok q) (r : R) :
    q.writeCount r = p.writeCount r + (names es).count r := by
  induction es generalizing p with
  | nil => cases h; rfl
  | cons e es ih =>
    obtain ⟨p₁, h₁, h₂⟩ := bind_ok.1 h
    rw [ih h₂, apply_writeCount h₁, Nat.add_assoc, ← List.count_append, ← names_append,
      List.singleton_append]

theorem applyAll_nodup (h : applyAll act es p = .ok q) : (names es).Nodup := by
  induction es generalizing p with
  | nil => exact List.nodup_nil
  | cons e es ih =>
    obtain ⟨p₁, h₁, h₂⟩ := bind_ok.1 h
    cases e with
    | write r v =>
      refine List.nodup_cons.2 ⟨fun hm => ?_, ih h₂⟩
      obtain ⟨v', hv'⟩ := mem_names.1 hm
      refine not_mem_of_count h₂ ?_ v' hv'
      rw [apply_writeCount h₁]
      simp
    | reduce o b => exact ih h₂
    | plain x => exact ih h₂
    | fail f => cases h₁

section
variable {fs : List (Effect T O P)} {p' q' : Pending T O S} (hes : es.Perm fs)
include hes

theorem applyAll_isOk_perm (hp : ∀ r, p'.writeCount r = 0) (h : applyAll act es p = .ok q) :
    ∃ q', applyAll act fs p' = .ok q' :=
  applyAll_isOk ((names_perm hes).nodup_iff.1 (applyAll_nodup h)) (fun r _ => hp r)
    fun f hf => applyAll_no_fail h f (hes.mem_iff.2 hf)

variable (h : applyAll act es p = .ok q) (h' : applyAll act fs p' = .ok q')
include h h'

theorem applyAll_next_perm (hp : p.next = p'.next) : q.next = q'.next := by
  funext r
  by_cases hw : ∃ v, Effect.write r v ∈ es
  · obtain ⟨v, hv⟩ := hw
    rw [applyAll_next_of_mem h hv, applyAll_next_of_mem h' (hes.mem_iff.1 hv)]
  · rw [not_exists] at hw
    rw [applyAll_next_of_not_mem h hw,
      applyAll_next_of_not_mem h' fun v hv => hw v (hes.mem_iff.2 hv), hp]

theorem applyAll_writeCount_perm (hp : p.writeCount = p'.writeCount) :
    q.writeCount = q'.writeCount := by
  funext r
  rw [applyAll_writeCount h, applyAll_writeCount h', hp, (names_perm hes).count_eq r]

theorem applyAll_reduced_perm (hp : p.reduced = p'.reduced) : q.reduced = q'.reduced := by
  funext o
  rw [Bool.eq_iff_iff, applyAll_reduced h, applyAll_reduced h', hp, hes.mem_iff]

end

section
variable [DecidableEq C] {eff : C → S → List (Effect T O P)} {cs : List C}

/-- Running the callbacks is applying all their effects. -/
theorem run_eq (hc : cs.Nodup) (p : Pending T O S) :
    run act eff cs p = applyAll act (effectsOf act eff cs p.plain) p := by
  induction cs generalizing p with
  | nil => rfl
  | cons c cs ih =>
    rw [List.nodup_cons] at hc
    rw [effectsOf_cons c cs _ hc.1, applyAll_append, run]
    cases h : applyAll act (eff c p.plain) p with
    | error f => rfl
    | ok p₁ =>
      simp only [bind, Except.bind]
      rw [ih hc.2, applyAll_plain h]

end

section
variable {E : C → List (Effect T O P)} {cs : List C}

theorem run_const (p : Pending T O S) :
    run act (fun c _ => E c) cs p = applyAll act (cs.flatMap E) p := by
  induction cs generalizing p with
  | nil => rfl
  | cons c cs ih =>
    rw [List.flatMap_cons, applyAll_append, run]
    cases applyAll act (E c) p with
    | error f => rfl
    | ok p₁ => exact ih p₁

theorem run_const_next {q : Pending T O S} (h : run act (fun c _ => E c) cs p = .ok q) (r : R) :
    (∃ c ∈ cs, ∃ v, .write r v ∈ E c ∧ q.next r = v) ∨
      ((∀ c ∈ cs, ∀ v, .write r v ∉ E c) ∧ q.next r = p.next r) := by
  rw [run_const] at h
  by_cases hw : ∃ v, .write r v ∈ cs.flatMap E
  · obtain ⟨v, hv⟩ := hw
    obtain ⟨c, hc, hvc⟩ := List.mem_flatMap.1 hv
    exact .inl ⟨c, hc, v, hvc, applyAll_next_of_mem h hv⟩
  · rw [not_exists] at hw
    refine .inr ⟨fun c hc v hv => hw v (List.mem_flatMap.2 ⟨c, hc, hv⟩), ?_⟩
    exact applyAll_next_of_not_mem h hw

theorem run_const_write {q : Pending T O S} (h : run act (fun c _ => E c) cs p = .ok q) {c : C}
    {r : R} {v : T r} (hc : c ∈ cs) (hv : .write r v ∈ E c) : q.next r = v := by
  rw [run_const] at h
  exact applyAll_next_of_mem h (List.mem_flatMap.2 ⟨c, hc, hv⟩)

theorem run_const_reduced {q : Pending T O S} (h : run act (fun c _ => E c) cs p = .ok q)
    (hp : ∀ o, p.reduced o = false) (o : O) :
    q.reduced o = true ↔ ∃ c ∈ cs, .reduce o true ∈ E c := by
  rw [run_const] at h
  rw [applyAll_reduced h, hp, List.mem_flatMap]
  simp

end

end TomasuloCpu.Clocked
