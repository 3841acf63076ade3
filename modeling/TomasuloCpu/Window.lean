import TomasuloCpu.Wakeup

set_option autoImplicit false

/-!
# The entries before an entry

Program order in the reorder buffer, and how a tick shifts it.
-/
namespace TomasuloCpu
open Clocked

/-- The slots of the entries that are older than the one in a slot, oldest first. -/
def Latched.older (s : Latched) (slot : ℤ) : List ℤ := s.robs.takeWhile fun i => i ≠ slot

section
variable {l r : List ℤ} {a : ℤ}

theorem takeWhile_ne_append (h : a ∈ l) :
    (l ++ r).takeWhile (fun i => i ≠ a) = l.takeWhile fun i => i ≠ a := by
  induction l with
  | nil => cases h
  | cons b l ih =>
    by_cases hb : b = a
    · simp [hb]
    · have hm : a ∈ l := (List.mem_cons.1 h).resolve_left (Ne.symm hb)
      simpa [hb] using ih hm

theorem takeWhile_ne_self (h : a ∉ l) : l.takeWhile (fun i => i ≠ a) = l := by
  rw [List.takeWhile_eq_self_iff]
  intro b hb
  exact decide_eq_true fun he => h (he ▸ hb)

end

variable {s s' : Latched} {q p q' : Plain} {slot i : ℤ}

theorem older_subset (h : i ∈ s.older slot) : i ∈ s.robs :=
  (List.takeWhile_sublist _).subset h

theorem older_head (ctl : Control s) (h : s.commits = true) : s.older s.rm.robs.head = [] := by
  rw [Latched.older, robs_head ctl h]
  simp

theorem older_of_append (ctl : Control s) {l r : List ℤ} (h : s.robs = l ++ i :: r) :
    s.older i = l := by
  have hnd : s.robs.Nodup := ctl.robs.queueForeach_nodup
  rw [h, List.nodup_append'] at hnd
  have hn : i ∉ l := fun hi => hnd.2.2 hi List.mem_cons_self
  rw [Latched.older, h, List.takeWhile_append, takeWhile_ne_self hn]
  simp

variable [WideShift]

namespace Step
variable (st : Step s q p s' q') (ctl : Control s) (hc : s.rm.robs.clear = false)
include st ctl hc

/-- A tick takes the head off the entries before an entry that it does not retire. -/
theorem older_eq (hs : slot ∈ s.robs) (hr : ¬(s.retires = true ∧ slot = s.rm.robs.head)) :
    (if s.retires then [s.rm.robs.head] else []) ++ s'.older slot = s.older slot := by
  unfold Latched.older
  rw [st.robs_eq hc ctl.robs]
  cases hret : s.retires
  · rw [if_neg Bool.false_ne_true, if_neg Bool.false_ne_true, takeWhile_ne_append hs]
    rfl
  · have hcons := robs_head ctl (Latched.commits_of_retires hret)
    have hne : s.rm.robs.head ≠ slot := fun he => hr ⟨hret, he.symm⟩
    have hm : slot ∈ s.robs.tail := by
      rw [hcons] at hs
      exact (List.mem_cons.1 hs).resolve_left (Ne.symm hne)
    rw [if_pos rfl, if_pos rfl, takeWhile_ne_append hm, hcons]
    simp [hne]

theorem older_sub (hs : slot ∈ s.robs) (hr : ¬(s.retires = true ∧ slot = s.rm.robs.head))
    (hi : i ∈ s'.older slot) : i ∈ s.older slot := by
  rw [← st.older_eq ctl hc hs hr]
  exact List.mem_append_right _ hi

theorem head_mem_older (hs : slot ∈ s.robs) (hret : s.retires = true)
    (hne : slot ≠ s.rm.robs.head) : s.rm.robs.head ∈ s.older slot := by
  rw [← st.older_eq ctl hc hs fun h => hne h.2, if_pos hret]
  exact List.mem_cons_self

theorem older_dispatch (hd : (s.dispatch p).isSome = true) :
    s'.older s.rm.robs.tail = if s.retires then s.robs.tail else s.robs := by
  have hn : s.rm.robs.tail ∉ if s.retires then s.robs.tail else s.robs := by
    intro hm
    refine ctl.robs.tail_notMem (?_ : s.rm.robs.tail ∈ s.robs)
    split_ifs at hm
    · exact List.mem_of_mem_tail hm
    · exact hm
  rw [Latched.older, st.robs_eq hc ctl.robs, if_pos hd, List.takeWhile_append, takeWhile_ne_self hn]
  simp

end Step

end TomasuloCpu
