import Mathlib.Tactic.Common
import TomasuloCpu.Library.Clocked
import TomasuloCpu.Queue

set_option autoImplicit false

/-!
# The ring queue as a bounded fifo

A queue of `queue.c` with a clock of its own. In a tick the clients may push
once, pop once and clear once, in any order and before or after `_queue_tick`.
-/
namespace TomasuloCpu
open Clocked

variable {α : Type}

inductive QueueCall (α : Type) where
  | tick | push (x : α) | pop | clear

structure QueueRequests (α : Type) where
  push : Option α
  pop : Bool
  clear : Bool

namespace QueueRequests

def none : QueueRequests α := ⟨.none, false, false⟩

def calls (r : QueueRequests α) : List (QueueCall α) :=
  .tick :: r.push.toList.map .push ++ (if r.pop then [.pop] else []) ++
    if r.clear then [.clear] else []

end QueueRequests

structure QueueTick (α : Type) extends QueueRequests α where
  order : List (QueueCall α)
  perm : order.Perm toQueueRequests.calls

abbrev QueueEffect (α : Type) := Effect (QueueReg.type α) Empty Empty

def liftQueue (ws : List (QueueWrite α)) : List (QueueEffect α) :=
  ws.map fun w => .write w.1 w.2

def QueueCall.effects (capacity : ℤ) (q : QueueRegs α) : QueueCall α → List (QueueEffect α)
  | .tick => liftQueue (queueTick q)
  | .push x =>
    match queuePush capacity q with
    | none => []
    | some (ws, slot) => liftQueue ws ++ [.write (.data slot) x]
  | .pop =>
    match queuePop capacity q with
    | none => []
    | some (ws, _) => liftQueue ws
  | .clear => liftQueue queueClear

def queueClockTick (capacity : ℤ) (t : QueueTick α) (q : QueueRegs α) :
    Except Fault (QueueRegs α) :=
  (run (fun (x : Empty) _ => x.elim) (fun c _ => QueueCall.effects capacity q c) t.order
    ⟨q, fun _ => 0, fun _ => false, ()⟩).map (·.next)

def queueRun (capacity : ℤ) : List (QueueTick α) → QueueRegs α → Except Fault (QueueRegs α)
  | [], q => .ok q
  | t :: ts, q => do queueRun capacity ts (← queueClockTick capacity t q)

/-- `queue_create`, with the contents `calloc` gives the data registers. -/
def queueCreate (zero : α) : QueueRegs α
  | .data _ => zero
  | .head | .tail => (0 : ℤ)
  | .clear => false

/-- No requests in the tick after a clear. -/
def Calm : Bool → List (QueueTick α) → Prop
  | _, [] => True
  | cleared, t :: ts => (cleared = true → t.toQueueRequests = .none) ∧ Calm t.clear ts

/-- A list of at most `room` items, with a clear that is one tick late. -/
structure Fifo (α : Type) where
  items : List α
  clearing : Bool

namespace Fifo

def empty : Fifo α := ⟨[], false⟩

def step (room : ℕ) (f : Fifo α) (r : QueueRequests α) : Fifo α where
  items :=
    if f.clearing then []
    else (if r.pop then f.items.tail else f.items) ++
      if f.items.length = room then [] else r.push.toList
  clearing := r.clear

def run (room : ℕ) (ts : List (QueueTick α)) : Fifo α :=
  ts.foldl (fun f t => f.step room t.toQueueRequests) empty

end Fifo

/-- What the functions of `queue.c` return for a queue that holds `items`. -/
structure QueueHolds (capacity : ℤ) (q : QueueRegs α) (items : List α) : Prop where
  push : queuePush capacity q = none ↔ (items.length : ℤ) = capacity - 1
  pop : (queuePop capacity q).map (fun r => q.data r.2) = items.head?
  first : (queueFirst q).map q.data = items.head?
  length : queueLength capacity q = items.length
  empty : queueEmpty q = true ↔ items = []
  full : queueFull capacity q = true ↔ (items.length : ℤ) = capacity - 1
  foreach : ∀ fuel, items.length < fuel →
    (queueForeachFrom capacity q fuel 0).map q.data = items

structure Represents (capacity : ℤ) (q : QueueRegs α) (f : Fifo α) : Prop where
  ok : QueueOk capacity q
  items : (queueForeach capacity q).map q.data = f.items
  clearing : q.clear = f.clearing

variable {capacity : ℤ} {q q' : QueueRegs α} {f : Fifo α}

namespace Represents
variable (h : Represents capacity q f)
include h

theorem length_items : f.items.length = Ring.length capacity q.head q.tail := by
  rw [← h.items, List.length_map, h.ok.queueForeach_eq, Ring.length_slots]

theorem head?_items (hne : q.head ≠ q.tail) : f.items.head? = some (q.data q.head) := by
  rw [← h.items, List.head?_map, h.ok.head?_queueForeach hne, Option.map_some]

theorem items_eq_nil_iff : f.items = [] ↔ q.head = q.tail := by
  rw [← h.items, List.map_eq_nil_iff, h.ok.queueForeach_eq_nil_iff]

theorem full_iff : queueFull capacity q = true ↔ (f.items.length : ℤ) = capacity - 1 := by
  have ht := h.ok.tail
  have hn := Ring.next_eq_head_iff h.ok.head ht
  rw [queueFull, decide_eq_true_iff, queueTrunc_of_nonneg (by omega), h.length_items, eq_comm, hn]
  omega

theorem holds : QueueHolds capacity q f.items where
  push := by
    rw [← h.full_iff]
    cases hf : queueFull capacity q with
    | true => simp [queuePush_of_full hf]
    | false => simp [queuePush_of_not_full hf]
  pop := by
    by_cases he : q.head = q.tail
    · simp [queuePop, he, h.items_eq_nil_iff.2 he]
    · rw [h.head?_items he]
      simp [queuePop, he]
  first := by
    by_cases he : q.head = q.tail
    · simp [queueFirst, he, h.items_eq_nil_iff.2 he]
    · rw [h.head?_items he]
      simp [queueFirst, he]
  length := by
    have hl := Ring.length_lt h.ok.head h.ok.tail
    rw [h.length_items, queueLength, Ring.length]
    rw [show q.tail + capacity - q.head = q.tail - q.head + capacity by omega, Int.add_emod_right,
      Int.toNat_of_nonneg]
    exact Int.emod_nonneg _ (by have := h.ok.head; omega)
  empty := by rw [h.items_eq_nil_iff, queueEmpty, decide_eq_true_iff]
  full := h.full_iff
  foreach := by
    intro fuel hfuel
    rw [h.length_items] at hfuel
    have hv := h.ok.queueForeachFrom_eq fuel 0 (by omega) (by omega)
    rw [← h.items, h.ok.queueForeach_eq]
    simpa [Int.emod_eq_of_lt h.ok.head.1 h.ok.head.2] using congrArg (List.map q.data) hv

end Represents

section
variable {r : QueueRequests α} {c : QueueCall α}

theorem QueueRequests.mem_calls : c ∈ r.calls ↔ c = .tick ∨ (∃ x, r.push = some x ∧ c = .push x) ∨
    (r.pop = true ∧ c = .pop) ∨ (r.clear = true ∧ c = .clear) := by
  simp [QueueRequests.calls]
  grind

theorem mem_liftQueue {ws : List (QueueWrite α)} {x : QueueReg} {v : x.type α} :
    .write x v ∈ liftQueue ws ↔ ⟨x, v⟩ ∈ ws := by
  simp only [liftQueue, List.mem_map]
  constructor
  · rintro ⟨w, hw, he⟩
    cases he
    exact hw
  · intro hw
    exact ⟨_, hw, rfl⟩

theorem names_push (x : α) : names (QueueCall.effects capacity q (.push x)) =
    if queueFull capacity q then [] else [.tail, .data q.tail] := by
  cases hf : queueFull capacity q with
  | true =>
    simp only [QueueCall.effects, queuePush_of_full hf]
    rfl
  | false =>
    simp only [QueueCall.effects, queuePush_of_not_full hf]
    rfl

theorem names_pop : names (QueueCall.effects capacity q .pop) =
    if queueEmpty q then [] else [.head] := by
  cases he : queueEmpty q with
  | true =>
    simp only [QueueCall.effects, queuePop_of_empty he]
    rfl
  | false =>
    simp only [QueueCall.effects, queuePop_of_not_empty he]
    rfl

theorem names_tick : names (QueueCall.effects capacity q .tick) =
    if q.clear then [.clear, .head, .tail] else [] := by
  cases hc : q.clear with
  | true =>
    simp only [QueueCall.effects, queueTick, hc, ↓reduceIte]
    rfl
  | false =>
    simp only [QueueCall.effects, queueTick, hc, Bool.false_eq_true, ↓reduceIte]
    rfl

theorem names_clear : names (QueueCall.effects capacity q .clear) = [.clear] := rfl

theorem nodup_names_calls (calm : q.clear = true → r = .none) :
    (names (r.calls.flatMap (QueueCall.effects capacity q))).Nodup := by
  cases hc : q.clear with
  | true =>
    simp [calm hc, QueueRequests.none, QueueRequests.calls, names_tick, hc]
  | false =>
    obtain ⟨push, pop, clear⟩ := r
    have hpush : names ((push.toList.map .push).flatMap (QueueCall.effects capacity q)) =
        if push.isSome && !queueFull capacity q then [.tail, .data q.tail] else [] := by
      cases push with
      | none => rfl
      | some x => cases hf : queueFull capacity q <;> simp [names_push, hf]
    have hpop : names ((if pop then [.pop] else []).flatMap (QueueCall.effects capacity q)) =
        if pop && !queueEmpty q then [.head] else [] := by
      cases pop <;> cases he : queueEmpty q <;> simp [names_pop, he]
    have hclear : names ((if clear then [.clear] else []).flatMap
        (QueueCall.effects capacity q)) = if clear then [.clear] else [] := by
      cases clear <;> simp [names_clear]
    simp only [QueueRequests.calls, List.cons_append, List.flatMap_cons, List.flatMap_append,
      names_append, names_tick, hc, hpush, hpop, hclear, Bool.false_eq_true, ↓reduceIte,
      List.nil_append]
    split_ifs <;> simp

theorem write_of_mem_effects {e : QueueEffect α} (h : e ∈ QueueCall.effects capacity q c) :
    ∃ x v, e = .write x v := by
  have hl : ∀ ws : List (QueueWrite α), e ∈ liftQueue ws → ∃ x v, e = .write x v := by
    intro ws hw
    obtain ⟨w, -, rfl⟩ := List.mem_map.1 hw
    exact ⟨_, _, rfl⟩
  cases c with
  | tick => exact hl _ h
  | clear => exact hl _ h
  | pop =>
    simp only [QueueCall.effects] at h
    split at h
    · cases h
    · exact hl _ h
  | push x =>
    simp only [QueueCall.effects] at h
    split at h
    · cases h
    · rcases List.mem_append.1 h with h | h
      · exact hl _ h
      · exact ⟨_, _, List.mem_singleton.1 h⟩

theorem queueClockTick_ok (t : QueueTick α) (calm : q.clear = true → t.toQueueRequests = .none) :
    ∃ q', queueClockTick capacity t q = .ok q' := by
  have hperm : (names (t.order.flatMap (QueueCall.effects capacity q))).Perm
      (names (t.calls.flatMap (QueueCall.effects capacity q))) :=
    (t.perm.flatMap_right _).filterMap _
  have hfail : ∀ f, Effect.fail f ∉ t.order.flatMap (QueueCall.effects capacity q) := by
    intro f hf
    obtain ⟨c, -, hf⟩ := List.mem_flatMap.1 hf
    obtain ⟨x, v, he⟩ := write_of_mem_effects hf
    cases he
  obtain ⟨p, hp⟩ : ∃ p, applyAll (fun (x : Empty) _ => x.elim)
      (t.order.flatMap (QueueCall.effects capacity q)) ⟨q, fun _ => 0, fun _ => false, ()⟩ = .ok p :=
    applyAll_isOk (hperm.nodup_iff.2 (nodup_names_calls calm)) (fun _ _ => rfl) hfail
  refine ⟨p.next, ?_⟩
  rw [queueClockTick, run_const, hp]
  rfl

end

def QueueWritten (capacity : ℤ) (q : QueueRegs α) (r : QueueRequests α) :
    ∀ x : QueueReg, x.type α → Prop
  | .data i, v => r.push = some v ∧ queueFull capacity q = false ∧ i = q.tail
  | .head, v => (q.clear = true ∧ v = (0 : ℤ)) ∨
      (r.pop = true ∧ queueEmpty q = false ∧ v = queueTrunc capacity (q.head + 1))
  | .tail, v => (q.clear = true ∧ v = (0 : ℤ)) ∨
      (r.push.isSome = true ∧ queueFull capacity q = false ∧
        v = queueTrunc capacity (q.tail + 1))
  | .clear, v => (q.clear = true ∧ v = false) ∨ (r.clear = true ∧ v = true)

theorem queueWritten_iff {r : QueueRequests α} {x : QueueReg} {v : x.type α} :
    (∃ c ∈ r.calls, .write x v ∈ QueueCall.effects capacity q c) ↔
      QueueWritten capacity q r x v := by
  have hpush : ∀ y, .write x v ∈ QueueCall.effects capacity q (.push y) ↔
      queueFull capacity q = false ∧
        ((⟨x, v⟩ : QueueWrite α) = ⟨.tail, queueTrunc capacity (q.tail + 1)⟩ ∨
          (⟨x, v⟩ : QueueWrite α) = ⟨.data q.tail, y⟩) := by
    intro y
    cases hf : queueFull capacity q with
    | true => simp [QueueCall.effects, queuePush_of_full hf]
    | false =>
      simp only [QueueCall.effects, queuePush_of_not_full hf, List.mem_append, mem_liftQueue,
        List.mem_singleton, true_and, Effect.write.injEq, Sigma.mk.injEq]
  have hpop : .write x v ∈ QueueCall.effects capacity q .pop ↔
      queueEmpty q = false ∧
        (⟨x, v⟩ : QueueWrite α) = ⟨.head, queueTrunc capacity (q.head + 1)⟩ := by
    cases he : queueEmpty q with
    | true => simp [QueueCall.effects, queuePop_of_empty he]
    | false =>
      simp only [QueueCall.effects, queuePop_of_not_empty he, mem_liftQueue, List.mem_singleton,
        true_and]
  have htick : .write x v ∈ QueueCall.effects capacity q .tick ↔ q.clear = true ∧
      ((⟨x, v⟩ : QueueWrite α) = ⟨.clear, false⟩ ∨
        (⟨x, v⟩ : QueueWrite α) = ⟨.head, (0 : ℤ)⟩ ∨
        (⟨x, v⟩ : QueueWrite α) = ⟨.tail, (0 : ℤ)⟩) := by
    cases hc : q.clear with
    | true =>
      simp only [QueueCall.effects, queueTick, hc, mem_liftQueue, ↓reduceIte, List.mem_cons,
        List.not_mem_nil, or_false, true_and]
    | false =>
      simp only [QueueCall.effects, queueTick, hc, mem_liftQueue, Bool.false_eq_true, ↓reduceIte,
        List.not_mem_nil, false_and]
  have hclear : .write x v ∈ QueueCall.effects capacity q .clear ↔
      (⟨x, v⟩ : QueueWrite α) = ⟨.clear, true⟩ := by
    simp only [QueueCall.effects, queueClear, mem_liftQueue, List.mem_singleton]
  constructor
  · rintro ⟨c, hc, hv⟩
    rcases QueueRequests.mem_calls.1 hc with rfl | ⟨y, hy, rfl⟩ | ⟨hp, rfl⟩ | ⟨hcl, rfl⟩
    · obtain ⟨hc, he | he | he⟩ := htick.1 hv <;> cases he
      · exact .inl ⟨hc, rfl⟩
      · exact .inl ⟨hc, rfl⟩
      · exact .inl ⟨hc, rfl⟩
    · obtain ⟨hf, he | he⟩ := (hpush y).1 hv <;> cases he
      · exact .inr ⟨by simp [hy], hf, rfl⟩
      · exact ⟨hy, hf, rfl⟩
    · obtain ⟨hn, he⟩ := hpop.1 hv
      cases he
      exact .inr ⟨hp, hn, rfl⟩
    · cases hclear.1 hv
      exact .inr ⟨hcl, rfl⟩
  · intro hw
    cases x with
    | data i =>
      obtain ⟨hy, hf, rfl⟩ := hw
      exact ⟨_, QueueRequests.mem_calls.2 (.inr (.inl ⟨v, hy, rfl⟩)),
        (hpush v).2 ⟨hf, .inr rfl⟩⟩
    | head =>
      rcases hw with ⟨hc, rfl⟩ | ⟨hp, hn, rfl⟩
      · exact ⟨_, QueueRequests.mem_calls.2 (.inl rfl), htick.2 ⟨hc, .inr (.inl rfl)⟩⟩
      · exact ⟨_, QueueRequests.mem_calls.2 (.inr (.inr (.inl ⟨hp, rfl⟩))), hpop.2 ⟨hn, rfl⟩⟩
    | tail =>
      rcases hw with ⟨hc, rfl⟩ | ⟨hp, hf, rfl⟩
      · exact ⟨_, QueueRequests.mem_calls.2 (.inl rfl), htick.2 ⟨hc, .inr (.inr rfl)⟩⟩
      · obtain ⟨y, hy⟩ := Option.isSome_iff_exists.1 hp
        exact ⟨_, QueueRequests.mem_calls.2 (.inr (.inl ⟨y, hy, rfl⟩)), (hpush y).2 ⟨hf, .inl rfl⟩⟩
    | clear =>
      rcases hw with ⟨hc, rfl⟩ | ⟨hcl, rfl⟩
      · exact ⟨_, QueueRequests.mem_calls.2 (.inl rfl), htick.2 ⟨hc, .inl rfl⟩⟩
      · exact ⟨_, QueueRequests.mem_calls.2 (.inr (.inr (.inr ⟨hcl, rfl⟩))), hclear.2 rfl⟩

section
variable {t : QueueTick α} (h : queueClockTick capacity t q = .ok q')
include h

omit h in
theorem exists_run (h : queueClockTick capacity t q = .ok q') :
    ∃ p, run (fun (x : Empty) _ => x.elim) (fun c _ => QueueCall.effects capacity q c) t.order
      (⟨q, fun _ => 0, fun _ => false, ()⟩ : Pending _ _ Unit) = .ok p ∧ p.next = q' := by
  rw [queueClockTick] at h
  cases hr : run (fun (x : Empty) _ => x.elim) (fun c _ => QueueCall.effects capacity q c)
    t.order (⟨q, fun _ => 0, fun _ => false, ()⟩ : Pending _ _ Unit) with
  | error e => simp [hr, Except.map] at h
  | ok p => exact ⟨p, rfl, by simpa [hr, Except.map] using h⟩

theorem queue_written {x : QueueReg} {v : x.type α}
    (hw : QueueWritten capacity q t.toQueueRequests x v) : q' x = v := by
  obtain ⟨p, hp, rfl⟩ := exists_run h
  obtain ⟨c, hc, hv⟩ := queueWritten_iff.2 hw
  exact run_const_write hp (t.perm.mem_iff.2 hc) hv

theorem queue_kept {x : QueueReg} (hn : ∀ v, ¬QueueWritten capacity q t.toQueueRequests x v) :
    q' x = q x := by
  obtain ⟨p, hp, rfl⟩ := exists_run h
  rcases run_const_next hp x with ⟨c, hc, v, hv, -⟩ | ⟨-, hk⟩
  · exact absurd (queueWritten_iff.1 ⟨c, t.perm.mem_iff.1 hc, hv⟩) (hn v)
  · exact hk

theorem queue_clear : q'.clear = t.clear := by
  cases ht : t.clear with
  | true => exact queue_written h (.inr ⟨ht, rfl⟩)
  | false =>
    cases hc : q.clear with
    | true => exact queue_written h (.inl ⟨hc, rfl⟩)
    | false =>
      refine (queue_kept h fun v hw => ?_).trans hc
      rcases hw with ⟨hc', -⟩ | ⟨ht', -⟩
      · simp [hc] at hc'
      · simp [ht] at ht'

theorem queue_step (hc : q.clear = false) :
    QueueStep capacity q q' (t.pop && !queueEmpty q)
      (t.push.isSome && !queueFull capacity q) where
  head := by
    split
    · rename_i hp
      simp only [Bool.and_eq_true, Bool.not_eq_true'] at hp
      exact queue_written h (.inr ⟨hp.1, hp.2, rfl⟩)
    · rename_i hp
      refine queue_kept h fun v hw => ?_
      rcases hw with ⟨hc', -⟩ | ⟨hpop, hne, -⟩
      · simp [hc] at hc'
      · simp [hpop, hne] at hp
  tail := by
    split
    · rename_i hp
      simp only [Bool.and_eq_true, Bool.not_eq_true'] at hp
      exact queue_written h (.inr ⟨hp.1, hp.2, rfl⟩)
    · rename_i hp
      refine queue_kept h fun v hw => ?_
      rcases hw with ⟨hc', -⟩ | ⟨hpush, hf, -⟩
      · simp [hc] at hc'
      · simp [hpush, hf] at hp
  nonempty := by
    intro hp he
    simp [queueEmpty, he] at hp
  room := by
    intro hp
    simp only [Bool.and_eq_true, Bool.not_eq_true'] at hp
    exact hp.2

end

namespace Represents
variable {t : QueueTick α} (h : Represents capacity q f) (ht : queueClockTick capacity t q = .ok q')
include h ht

theorem items_step (hc : q.clear = false) : (queueForeach capacity q').map q'.data =
    (if t.pop then f.items.tail else f.items) ++
      if (f.items.length : ℤ) = capacity - 1 then [] else t.push.toList := by
  have st := queue_step ht hc
  have keep : ∀ i ∈ queueForeach capacity q, q'.data i = q.data i := by
    intro i hi
    refine queue_kept ht fun v hw => ?_
    obtain ⟨-, -, rfl⟩ := hw
    exact h.ok.tail_notMem hi
  have old : (if t.pop && !queueEmpty q then (queueForeach capacity q).tail
      else queueForeach capacity q).map q'.data = if t.pop then f.items.tail else f.items := by
    have hmap : (queueForeach capacity q).map q'.data = f.items := by
      rw [← h.items]
      exact List.map_congr_left keep
    cases he : queueEmpty q with
    | true =>
      have hnil := h.holds.empty.1 he
      have : queueForeach capacity q = [] := by
        rw [← List.map_eq_nil_iff (f := q.data), h.items, hnil]
      simp [this, hnil]
    | false => cases t.pop <;> simp [hmap, List.map_tail]
  have new : (if t.push.isSome && !queueFull capacity q then [q.tail] else []).map q'.data =
      if (f.items.length : ℤ) = capacity - 1 then [] else t.push.toList := by
    cases hf : queueFull capacity q with
    | true => simp [h.full_iff.1 hf]
    | false =>
      have hlen : (f.items.length : ℤ) ≠ capacity - 1 := by
        rw [Ne, ← h.full_iff, hf]
        exact Bool.false_ne_true
      cases hp : t.push with
      | none => simp
      | some x =>
        have hx : q'.data q.tail = x := queue_written ht ⟨hp, hf, rfl⟩
        simp [hx, hlen]
  rw [st.queueForeach_eq h.ok, List.map_append, old, new]

theorem step (h2 : 2 ≤ capacity) (calm : f.clearing = true → t.toQueueRequests = .none) :
    Represents capacity q' (f.step (capacity - 1).toNat t.toQueueRequests) := by
  cases hc : q.clear with
  | true =>
    have hnone := calm (h.clearing ▸ hc)
    have hhead : q'.head = 0 := queue_written ht (.inl ⟨hc, rfl⟩)
    have htail : q'.tail = 0 := queue_written ht (.inl ⟨hc, rfl⟩)
    have ok : QueueOk capacity q' := ⟨by omega, by omega⟩
    refine ⟨ok, ?_, queue_clear ht⟩
    rw [ok.queueForeach_eq_nil_iff.2 (by rw [hhead, htail])]
    simp [Fifo.step, ← h.clearing, hc]
  | false =>
    refine ⟨(queue_step ht hc).ok h.ok, ?_, queue_clear ht⟩
    have hroom : (f.items.length : ℤ) = capacity - 1 ↔ f.items.length = (capacity - 1).toNat := by
      omega
    rw [h.items_step ht hc]
    simp [Fifo.step, ← h.clearing, hc, hroom]

end Represents

theorem represents_queueCreate (h2 : 2 ≤ capacity) (zero : α) :
    Represents capacity (queueCreate zero) Fifo.empty := by
  have ok : QueueOk capacity (queueCreate zero) := by
    constructor <;> exact ⟨Int.le_refl 0, show (0 : ℤ) < capacity by omega⟩
  refine ⟨ok, ?_, rfl⟩
  rw [ok.queueForeach_eq_nil_iff.2 rfl]
  rfl

/-- Along a run the queue goes through the states of the fifo. -/
theorem Represents.run (h2 : 2 ≤ capacity) (h : Represents capacity q f) (ts : List (QueueTick α))
    (calm : Calm f.clearing ts) : ∃ q', queueRun capacity ts q = .ok q' ∧ Represents capacity q'
      (ts.foldl (fun f t => f.step (capacity - 1).toNat t.toQueueRequests) f) := by
  induction ts generalizing q f with
  | nil => exact ⟨q, rfl, h⟩
  | cons t ts ih =>
    obtain ⟨q₁, h₁⟩ := queueClockTick_ok t fun hc => calm.1 (h.clearing ▸ hc)
    obtain ⟨q', hr, h'⟩ := ih (h.step h₁ h2 calm.1) calm.2
    refine ⟨q', ?_, h'⟩
    rw [queueRun, h₁]
    exact hr

/-- A clear empties the fifo one tick later. -/
theorem Fifo.run_clear {room : ℕ} {ts : List (QueueTick α)} {t u : QueueTick α}
    (ht : t.clear = true) : (Fifo.run room (ts ++ [t, u])).items = [] := by
  simp [Fifo.run, Fifo.step, ht]

theorem queue_is_fifo (h2 : 2 ≤ capacity) (zero : α) (ts : List (QueueTick α))
    (calm : Calm false ts) :
    ∃ q, queueRun capacity ts (queueCreate zero) = .ok q ∧
      QueueHolds capacity q (Fifo.run (capacity - 1).toNat ts).items ∧
      ∀ ts₀ t u, ts = ts₀ ++ [t, u] → t.clear = true →
        (Fifo.run (capacity - 1).toNat ts).items = [] := by
  obtain ⟨q, hr, h⟩ := (represents_queueCreate h2 zero).run h2 ts calm
  refine ⟨q, hr, h.holds, ?_⟩
  rintro ts₀ t u rfl ht
  exact Fifo.run_clear ht

def QueueTick.inOrder (r : QueueRequests α) : QueueTick α := ⟨r, r.calls, .refl _⟩

def pushPop : List (QueueTick ℕ) :=
  [.inOrder ⟨some 5, false, false⟩, .inOrder ⟨some 6, true, false⟩]

theorem queue_is_fifo_pushPop :
    ∃ q, queueRun 3 pushPop (queueCreate 0) = .ok q ∧
      QueueHolds 3 q (Fifo.run (3 - 1 : ℤ).toNat pushPop).items ∧
      ∀ ts₀ t u, pushPop = ts₀ ++ [t, u] → t.clear = true →
        (Fifo.run (3 - 1 : ℤ).toNat pushPop).items = [] :=
  queue_is_fifo (by decide) 0 pushPop (by simp [Calm, pushPop, QueueTick.inOrder])

end TomasuloCpu
