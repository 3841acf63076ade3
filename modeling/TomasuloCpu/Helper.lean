import TomasuloCpu.Flush

set_option autoImplicit false

/-!
# Bus helpers

A helper of the bus is a queue of at most two messages: what its client sends is
appended, what the bus grants is removed from the front.
-/
namespace TomasuloCpu
open Clocked

/-- The double buffer of a helper is filled in order, and it requests the bus
    exactly when it holds a message. -/
structure HelperOk (s : Latched) (h : ℕ) : Prop where
  current : s.rm.current h = 0 ∨ s.rm.current h = 1
  other : s.rr (.bhBusy h (bhOther (s.rm.current h))) = true →
    s.rr (.bhBusy h (s.rm.current h)) = true
  req : s.rm.req h = s.rr (.bhBusy h (s.rm.current h))

namespace Latched
variable (s : Latched)

def helperQueue (h : ℕ) : List CdbMessage :=
  (if s.rr (.bhBusy h (s.rm.current h)) then [s.rm.buffer h (s.rm.current h)] else []) ++
    if s.rr (.bhBusy h (bhOther (s.rm.current h))) then
      [s.rm.buffer h (bhOther (s.rm.current h))] else []

def sent [WideShift] (data : MemData) (h : ℕ) : Option CdbMessage :=
  if (s.acquired h).isSome then s.outbox data h else none

def busQueue : List CdbMessage := if s.rm.fire then [s.rm.busData] else []

end Latched

variable {s s' : Latched} {q p q' : Plain} {h : ℕ}

theorem bhOther_ne {i : ℤ} (hi : i = 0 ∨ i = 1) : bhOther i ≠ i := by
  rcases hi with rfl | rfl <;> decide

theorem bhOther_bhOther {i : ℤ} (hi : i = 0 ∨ i = 1) : bhOther (bhOther i) = i := by
  rcases hi with rfl | rfl <;> rfl

theorem bhOther_mem {i : ℤ} : bhOther i = 0 ∨ bhOther i = 1 := by
  unfold bhOther
  split <;> simp

theorem busArb_granted {n : ℕ} {rm : Regs} (hg : busArb n rm = h + 1) :
    h < n ∧ rm.busClear = 0 ∧ rm.req h = true := by
  rw [busArb] at hg
  split at hg
  · omega
  · rename_i hb
    split at hg
    · rename_i i hf
      obtain rfl : i = h := by omega
      exact ⟨by simpa using List.mem_of_find?_eq_some hf, by simpa using hb, List.find?_some hf⟩
    · omega

theorem Latched.Computed.granted (hs : s.Computed) (hg : s.gnt = h + 1) :
    h < helperCount ∧ s.rm.busClear = 0 ∧ s.rm.req h = true :=
  busArb_granted (hs.gnt ▸ hg)

theorem Latched.Computed.gnt_cases (hs : s.Computed) :
    s.gnt = 0 ∨ ∃ h < helperCount, s.gnt = h + 1 := by
  rw [hs.gnt, busArb]
  split
  · exact .inl rfl
  · split
    · rename_i i hf
      exact .inr ⟨i, by simpa using List.mem_of_find?_eq_some hf, rfl⟩
    · exact .inl rfl

theorem bhReqIx_eq (hb : s.rm.busClear = 0) : bhReqIx s h =
    if s.waits h then s.rm.current h
    else if s.rr (.bhBusy h (bhOther (s.rm.current h))) then bhOther (s.rm.current h)
    else -1 := by
  simp only [bhReqIx, busArbStatus, hb, Latched.waits]
  rfl

/-- Which buffer a client gets: the free one that is sent last. -/
theorem acquired_eq (hc : s.rm.current h = 0 ∨ s.rm.current h = 1) (hb : s.rm.busClear = 0) :
    s.acquired h =
      if s.waits h then
        if s.rr (.bhBusy h (bhOther (s.rm.current h))) then none
        else some (bhOther (s.rm.current h))
      else if s.rr (.bhBusy h (bhOther (s.rm.current h))) then
        if s.rr (.bhBusy h (s.rm.current h)) then none else some (s.rm.current h)
      else some (s.rm.current h) := by
  have h0 : 0 ≤ s.rm.current h := by omega
  have h1 : 0 ≤ bhOther (s.rm.current h) := by
    rcases bhOther_mem (i := s.rm.current h) with h | h <;> omega
  simp only [Latched.acquired, bhAcquire, bhReqIx_eq hb]
  cases s.waits h <;> cases hy : s.rr (.bhBusy h (bhOther (s.rm.current h))) <;>
    simp [h0, h1, hy, bhOther_bhOther hc]
  cases s.rr (.bhBusy h (s.rm.current h)) <;> simp

/-- A tick as a helper sees it; `out` is the message that its client offers. -/
structure HelperStep (s s' : Latched) (h : ℕ) (out : Option CdbMessage) : Prop where
  current : s'.rm.current h =
    if s.waits h = false ∧ s.rr (.bhBusy h (bhOther (s.rm.current h))) = true then
      bhOther (s.rm.current h) else s.rm.current h
  bhBusy : ∀ b, s'.rr (.bhBusy h b) = (decide (b = s.rm.current h) && s.waits h ||
      decide (b = bhOther (s.rm.current h)) && s.rr (.bhBusy h b) ||
      decide (s.acquired h = some b) && out.isSome)
  buffer : ∀ b, s'.rm.buffer h b =
    if s.acquired h = some b then out.getD (s.rm.buffer h b) else s.rm.buffer h b
  req : s'.rm.req h = (s.waits h || s.rr (.bhBusy h (bhOther (s.rm.current h))) ||
    decide (bhReqIx s h < 0) && (s.acquired h).isSome && out.isSome)

variable {out : Option CdbMessage}

theorem HelperOk.of_fill {c o : ℤ} {x y : Bool} {l : List CdbMessage}
    (hc : s'.rm.current h = c) (ho : bhOther c = o) (hm : c = 0 ∨ c = 1)
    (hx : s'.rr (.bhBusy h c) = x) (hy : s'.rr (.bhBusy h o) = y) (hr : s'.rm.req h = x)
    (hyx : y = true → x = true)
    (hl : (if x then [s'.rm.buffer h c] else []) ++ (if y then [s'.rm.buffer h o] else []) = l) :
    HelperOk s' h ∧ s'.helperQueue h = l := by
  subst hc ho hx hy
  exact ⟨⟨hm, hyx, hr⟩, hl⟩

/-- A helper loses its oldest message to a grant and gains what is sent. -/
theorem HelperStep.queue (st : HelperStep s s' h out) (ok : HelperOk s h)
    (hb : s.rm.busClear = 0) : HelperOk s' h ∧ s'.helperQueue h =
      (if s.gnt = h + 1 then (s.helperQueue h).tail else s.helperQueue h) ++
        (if (s.acquired h).isSome then out else none).toList := by
  obtain ⟨hcur, hbusy, hbuf, hreq⟩ := st
  have hne := bhOther_ne ok.current
  have hne' := hne.symm
  have hoo := bhOther_bhOther ok.current
  have hcm := ok.current
  have hom := bhOther_mem (i := s.rm.current h)
  have hneg : ¬bhOther (s.rm.current h) < 0 := by omega
  have hx := hbusy (s.rm.current h)
  have hy := hbusy (bhOther (s.rm.current h))
  have hw : s.waits h = (s.rr (.bhBusy h (s.rm.current h)) && s.gnt != h + 1) := rfl
  have hacq := acquired_eq hcm hb
  rw [bhReqIx_eq hb] at hreq
  -- the cases are the fill of the second buffer and whether the first one has to wait
  cases hby : s.rr (.bhBusy h (bhOther (s.rm.current h))) <;> cases hwt : s.waits h <;>
    simp only [hby, hwt, Bool.false_eq_true, and_false, and_true, ↓reduceIte] at hcur hacq hreq
  · -- an empty or granted helper takes the offer
    have hold : (if s.gnt = h + 1 then (s.helperQueue h).tail else s.helperQueue h) = [] := by
      rw [hwt] at hw
      cases hbx : s.rr (.bhBusy h (s.rm.current h)) with
      | false => simp [Latched.helperQueue, hbx, hby]
      | true =>
        have hg : s.gnt = h + 1 := by simpa [hbx] using hw.symm
        simp [Latched.helperQueue, hbx, hby, hg]
    apply HelperOk.of_fill hcur rfl hcm (x := out.isSome) (y := false)
    · simp [hx, hwt, hne', hacq]
    · simp [hy, hwt, hby, hacq, hne']
    · simp [hreq, hacq]
    · simp
    · rw [hold, hbuf, hacq]
      cases out <;> simp
  · -- a waiting message, the offer goes behind it
    have hbx : s.rr (.bhBusy h (s.rm.current h)) = true := by
      rw [hwt] at hw
      simp_all
    have hg : ¬s.gnt = h + 1 := by
      rw [hwt] at hw
      simpa [hbx] using hw.symm
    apply HelperOk.of_fill hcur rfl hcm (x := true) (y := out.isSome)
    · simp [hx, hwt]
    · simp [hy, hwt, hby, hacq, hne]
    · simp [hreq]
    · simp
    · rw [hbuf, hbuf, hacq]
      cases out <;> simp [Latched.helperQueue, hbx, hby, hg, hne]
  · -- a grant with two messages, the second one moves up
    have hbx := ok.other hby
    have hg : s.gnt = h + 1 := by
      rw [hwt] at hw
      simpa [hbx] using hw.symm
    rw [hbx] at hacq
    apply HelperOk.of_fill hcur hoo hom (x := true) (y := false)
    · simp [hy, hby]
    · simp [hx, hwt, hacq, hne']
    · simp [hreq]
    · simp
    · simp [hbuf, hacq, Latched.helperQueue, hbx, hby, hg]
  · -- two waiting messages
    have hbx := ok.other hby
    have hg : ¬s.gnt = h + 1 := by
      rw [hwt] at hw
      simpa [hbx] using hw.symm
    apply HelperOk.of_fill hcur rfl hcm (x := true) (y := true)
    · simp [hx, hwt]
    · simp [hy, hby]
    · simp [hreq]
    · simp
    · simp [hbuf, hacq, Latched.helperQueue, hbx, hby, hg]

variable [WideShift]

theorem Quiet.outbox (hq : Quiet s) (data : MemData) (hh : h < helperCount) :
    s.outbox data h = none := by
  cases h with
  | zero =>
    have hm : s.memReady = none := by
      simp only [Latched.memReady]
      split
      · rfl
      · exact List.find?_eq_none.2 fun i hi => by simp [hq.loadBusy i hi]
    simp [Latched.outbox, hm]
  | succ a =>
    have ha : a < aluCount := by
      simp only [helperCount, aluCount] at hh ⊢
      omega
    simp [Latched.outbox, Latched.aluMsg, hq.aluBusy a ha, hq.resultBuf a ha]

namespace Step
variable (st : Step s q p s' q')
include st

theorem buffer (hh : h < helperCount) (b : ℤ) : s'.rm.buffer h b =
    if s.acquired h = some b then (s.outbox q.data h).getD (s.rm.buffer h b)
    else s.rm.buffer h b := by
  split_ifs with ha
  · cases ho : s.outbox q.data h with
    | none => exact st.kept (r := .buffer h b) fun v hv => by simp [Written, ho] at hv
    | some msg => exact st.written (r := .buffer h b) ⟨hh, ha, ho⟩
  · exact st.kept (r := .buffer h b) fun v hv => ha hv.2.1

theorem current (hh : h < helperCount) (hb : s.rm.busClear = 0) : s'.rm.current h =
    if s.waits h = false ∧ s.rr (.bhBusy h (bhOther (s.rm.current h))) = true then
      bhOther (s.rm.current h) else s.rm.current h := by
  split_ifs with hw
  · exact st.written (r := .current h) ⟨hh, hb, hw.1, hw.2, rfl⟩
  · exact st.kept (r := .current h) fun v hv => hw ⟨hv.2.2.1, hv.2.2.2.1⟩

theorem bhBusy (hh : h < helperCount) (hb : s.rm.busClear = 0) (b : ℤ) :
    s'.rr (.bhBusy h b) = (decide (b = s.rm.current h) && s.waits h ||
      decide (b = bhOther (s.rm.current h)) && s.rr (.bhBusy h b) ||
      decide (s.acquired h = some b) && (s.outbox q.data h).isSome) := by
  rw [Bool.eq_iff_iff, st.raised]
  simp [Raised, hh, hb]

theorem req (hh : h < helperCount) (hb : s.rm.busClear = 0) : s'.rm.req h = (s.waits h ||
    s.rr (.bhBusy h (bhOther (s.rm.current h))) ||
    decide (bhReqIx s h < 0) && (s.acquired h).isSome && (s.outbox q.data h).isSome) := by
  cases hw : s.waits h || s.rr (.bhBusy h (bhOther (s.rm.current h))) ||
    decide (bhReqIx s h < 0) && (s.acquired h).isSome && (s.outbox q.data h).isSome
  · refine st.kept (r := .req h) ?_
    rintro v ⟨-, -, -, hv⟩
    simp only [Bool.or_eq_false_iff, Bool.and_eq_false_iff, decide_eq_false_iff_not] at hw
    rcases hv with hv | hv | ⟨h1, h2, h3⟩
    · simp [hv] at hw
    · simp [hv] at hw
    · rcases hw.2 with (h | h) | h
      · exact h h1
      · simp [h2] at h
      · simp [h3] at h
  · refine st.written (r := .req h) ⟨rfl, hh, hb, ?_⟩
    simpa [or_assoc, and_assoc] using hw

theorem helperStep (hh : h < helperCount) (hb : s.rm.busClear = 0) :
    HelperStep s s' h (s.outbox q.data h) where
  current := st.current hh hb
  bhBusy := st.bhBusy hh hb
  buffer := st.buffer hh
  req := st.req hh hb

theorem helper (ok : HelperOk s h) (hh : h < helperCount) (hb : s.rm.busClear = 0) :
    HelperOk s' h ∧ s'.helperQueue h =
      (if s.gnt = h + 1 then (s.helperQueue h).tail else s.helperQueue h) ++
        (s.sent q.data h).toList :=
  (st.helperStep hh hb).queue ok hb

theorem helper_clear (ctl : Control s) (hc : s.rm.busClear ≠ 0) (ok : HelperOk s h)
    (hh : h < helperCount) : HelperOk s' h ∧ s'.helperQueue h = [] := by
  have hcur : s'.rm.current h = s.rm.current h :=
    st.kept (r := .current h) fun v hv => hc hv.2.1
  have hbusy : ∀ b, s'.rr (.bhBusy h b) = false := by
    intro b
    rcases ctl.busClear with ⟨-, hr⟩ | ⟨-, -, hq⟩ | ⟨hb, -⟩
    · exact (st.quiet ctl hr).bhBusy h hh b
    · rw [st.not_raised]
      simp [Raised, hc, hq.outbox q.data hh]
    · exact absurd hb hc
  have hreq : s'.rm.req h = false :=
    st.kept (r := .req h) fun v hv => hc hv.2.2.1
  refine ⟨⟨by rw [hcur]; exact ok.current, ?_, ?_⟩, ?_⟩
  · simp [hbusy]
  · rw [hreq, hbusy]
  · simp [Latched.helperQueue, hbusy]

theorem helperOk (ctl : Control s) (ok : HelperOk s h) (hh : h < helperCount) :
    HelperOk s' h := by
  by_cases hb : s.rm.busClear = 0
  · exact (st.helper ok hh hb).1
  · exact (st.helper_clear ctl hb ok hh).1

end Step

end TomasuloCpu
