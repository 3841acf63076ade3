import TomasuloCpu.Helper

set_option autoImplicit false

/-!
# The bus on its own

A bus with any number of helpers and a clock of its own. In a tick the client of
each helper may call `bh_acquire` once, before or after the tick of the helper,
and writes its message into the buffer that it gets; `bus_clear` is not called.
-/
namespace TomasuloCpu
open Clocked

/-- `bh_acquire`, and the message written into the buffer that it returns. -/
def bhSend (s : Latched) (h : ℕ) (msg : CdbMessage) : List CpuEffect :=
  match bhAcquire s h with
  | (es, none) => es
  | (es, some b) => es ++ [.write (.buffer h b) msg]

def OfHelper (h : ℕ) : CpuEffect → Prop
  | .write (.req k) _ | .write (.buffer k _) _ | .write (.current k) _ => k = h
  | .reduce (.bhBusy k _) _ => k = h
  | _ => False

section
variable {s s' : Latched} {h : ℕ} {e : CpuEffect} {msg : CdbMessage} {out : Option CdbMessage}

theorem mem_bhSend : e ∈ bhSend s h msg ↔ ∃ b, s.acquired h = some b ∧
    (e ∈ (bhAcquire s h).1 ∨ e = .write (.buffer h b) msg) := by
  have hn : s.acquired h = none → (bhAcquire s h).1 = [] := by
    intro ha
    refine List.eq_nil_iff_forall_not_mem.2 fun e he => ?_
    obtain ⟨b, hb, -⟩ := mem_bhAcquire.1 he
    simp [ha] at hb
  simp only [bhSend, Latched.acquired] at hn ⊢
  generalize bhAcquire s h = acq at hn ⊢
  obtain ⟨es, ob⟩ := acq
  cases ob with
  | none =>
    have : es = [] := hn rfl
    simp [this]
  | some b => simp

theorem ofHelper_bhTick (he : e ∈ bhTick h s) :
    OfHelper h e ∨ s.gnt = h + 1 ∧ ∃ v, e = .write .busData v := by
  rcases (mem_bhTick.1 he).2 with ⟨-, hg, rfl | rfl⟩ | ⟨-, rfl | rfl⟩ | ⟨-, -, rfl | rfl⟩ | rfl
  · exact .inr ⟨hg, _, rfl⟩
  all_goals exact .inl rfl

theorem ofHelper_bhAcquire (he : e ∈ (bhAcquire s h).1) : OfHelper h e := by
  obtain ⟨b, -, rfl | ⟨-, -, rfl⟩⟩ := mem_bhAcquire.1 he <;> rfl

theorem ofHelper_bhSend (he : e ∈ bhSend s h msg) : OfHelper h e := by
  obtain ⟨b, -, he | rfl⟩ := mem_bhSend.1 he
  · exact ofHelper_bhAcquire he
  · rfl

def HelperEffect (s : Latched) (h : ℕ) (out : Option CdbMessage) (e : CpuEffect) : Prop :=
  e ∈ bhTick h s ∨ ∃ msg, out = some msg ∧ e ∈ bhSend s h msg

section
variable (hb : s.rm.busClear = 0)
include hb

theorem helperEffect_current {v : ℤ} : HelperEffect s h out (.write (.current h) v) ↔
    s.waits h = false ∧ s.rr (.bhBusy h (bhOther (s.rm.current h))) = true ∧
      v = bhOther (s.rm.current h) := by
  simp [HelperEffect, mem_bhTick, mem_bhSend, mem_bhAcquire, hb]

theorem helperEffect_req {v : Bool} : HelperEffect s h out (.write (.req h) v) ↔
    v = true ∧ (s.waits h = true ∨ s.rr (.bhBusy h (bhOther (s.rm.current h))) = true ∨
      (bhReqIx s h < 0 ∧ (s.acquired h).isSome = true ∧ out.isSome = true)) := by
  simp only [HelperEffect, mem_bhTick, mem_bhSend, mem_bhAcquire, hb]
  cases out <;> cases s.acquired h <;> cases s.waits h <;> simp
  · exact and_comm
  · exact and_comm
  · exact and_comm
  · rw [← or_and_right, and_comm]

omit hb in
theorem helperEffect_buffer {b : ℤ} {v : CdbMessage} :
    HelperEffect s h out (.write (.buffer h b) v) ↔ s.acquired h = some b ∧ out = some v := by
  simp [HelperEffect, mem_bhTick, mem_bhSend, mem_bhAcquire, and_comm]

theorem helperEffect_bhBusy {b : ℤ} : HelperEffect s h out (.reduce (.bhBusy h b) true) ↔
    (b = s.rm.current h ∧ s.waits h = true) ∨
      (b = bhOther (s.rm.current h) ∧ s.rr (.bhBusy h b) = true) ∨
      (s.acquired h = some b ∧ out.isSome = true) := by
  simp [HelperEffect, mem_bhTick, mem_bhSend, mem_bhAcquire, hb, Option.isSome_iff_exists]
  grind

end

variable {C : Type} {E : C → List CpuEffect} {order : List C} {c c' : Cpu}

/-- A tick whose effects on a helper come from the helper and its client. -/
theorem HelperStep.of_run (hrm : s.rm = c.next) (hrm' : s'.rm = c'.next)
    (hrr' : s'.rr = c'.reduced) (hb : s.rm.busClear = 0)
    (hr : run PlainOp.act (fun x _ => E x) order (latchNext c) = .ok c')
    (effects : ∀ e, OfHelper h e → ((∃ x ∈ order, e ∈ E x) ↔ HelperEffect s h out e)) :
    HelperStep s s' h out := by
  have written : ∀ {r : CpuReg} {v : r.type}, OfHelper h (.write r v) →
      HelperEffect s h out (.write r v) → s'.rm r = v := by
    intro r v ho hw
    obtain ⟨x, hx, hv⟩ := (effects _ ho).2 hw
    rw [hrm']
    exact run_const_write hr hx hv
  have kept : ∀ {r : CpuReg}, (∀ v : r.type, OfHelper h (.write r v)) →
      (∀ v : r.type, ¬HelperEffect s h out (.write r v)) → s'.rm r = (latchNext c).next r := by
    intro r ho hn
    rw [hrm']
    rcases run_const_next hr r with ⟨x, hx, v, hv, -⟩ | ⟨-, hk⟩
    · exact absurd ((effects _ (ho v)).1 ⟨x, hx, hv⟩) (hn v)
    · exact hk
  constructor
  · split
    · rename_i hw
      exact written (r := .current h) rfl ((helperEffect_current hb).2 ⟨hw.1, hw.2, rfl⟩)
    · rename_i hw
      rw [hrm]
      refine kept (r := .current h) (fun v => rfl) fun v hv => hw ?_
      exact ⟨((helperEffect_current hb).1 hv).1, ((helperEffect_current hb).1 hv).2.1⟩
  · intro b
    rw [hrr', Bool.eq_iff_iff, run_const_reduced hr fun _ => rfl,
      effects (.reduce (.bhBusy h b) true) rfl, helperEffect_bhBusy hb]
    simp [or_assoc]
  · intro b
    split
    · rename_i ha
      cases ho : out with
      | some msg =>
        exact written (r := .buffer h b) rfl (helperEffect_buffer.2 ⟨ha, ho⟩)
      | none =>
        rw [Option.getD_none, hrm]
        refine kept (r := .buffer h b) (fun v => rfl) fun v hv => ?_
        exact absurd (helperEffect_buffer.1 hv).2 (by simp [ho])
    · rename_i ha
      rw [hrm]
      exact kept (r := .buffer h b) (fun v => rfl) fun v hv => ha (helperEffect_buffer.1 hv).1
  · cases hw : s.waits h || s.rr (.bhBusy h (bhOther (s.rm.current h))) ||
      decide (bhReqIx s h < 0) && (s.acquired h).isSome && out.isSome
    · refine kept (r := .req h) (fun v => rfl) fun v hv => ?_
      have := ((helperEffect_req hb).1 hv).2
      simp_all
    · refine written (r := .req h) rfl ((helperEffect_req hb).2 ⟨rfl, ?_⟩)
      simpa [or_assoc, and_assoc] using hw

end

def bufferWrites (h : ℕ) (es : List CpuEffect) : List CdbMessage :=
  es.filterMap fun
    | .write (.buffer k _) msg => if k = h then some msg else none
    | _ => none

def heard (l : ℕ) (log : List Event) : List CdbMessage :=
  log.filterMap fun
    | .heard k msg => if k = l then some msg else none
    | _ => none

section
variable {h l : ℕ} {es fs : List CpuEffect} {msg : CdbMessage}

@[simp] theorem bufferWrites_append :
    bufferWrites h (es ++ fs) = bufferWrites h es ++ bufferWrites h fs := List.filterMap_append

@[simp] theorem bufferWrites_singleton (b : ℤ) :
    bufferWrites h [.write (.buffer h b) msg] = [msg] := by
  simp [bufferWrites]

theorem bufferWrites_flatMap {α : Type} (xs : List α) (f : α → List CpuEffect) :
    bufferWrites h (xs.flatMap f) = xs.flatMap fun x => bufferWrites h (f x) :=
  List.filterMap_flatMap

theorem bufferWrites_eq_nil (hn : ∀ b msg, .write (.buffer h b) msg ∉ es) :
    bufferWrites h es = [] := by
  rw [bufferWrites, List.filterMap_eq_nil_iff]
  intro e he
  rcases e with ⟨r, v⟩ | ⟨r, v⟩ | p | f
  · cases r with
    | buffer k b =>
      by_cases hk : k = h
      · subst hk
        exact absurd he (hn b v)
      · simp [hk]
    | _ => rfl
  · rfl
  · rfl
  · rfl

@[simp] theorem heard_append (xs ys : List Event) : heard l (xs ++ ys) = heard l xs ++ heard l ys :=
  List.filterMap_append

@[simp] theorem heard_cons_heard (k : ℕ) (xs : List Event) :
    heard l (.heard k msg :: xs) = (if k = l then [msg] else []) ++ heard l xs := by
  by_cases hk : k = l <;> simp [heard, hk]

theorem flatMap_range_single {α : Type} {n : ℕ} (hh : h < n) {f : ℕ → List α}
    (hf : ∀ k, k ≠ h → f k = []) : (List.range n).flatMap f = f h := by
  induction n with
  | zero => omega
  | succ n ih =>
    rw [List.range_succ, List.flatMap_append, List.flatMap_singleton]
    by_cases hn : h = n
    · have hz : (List.range n).flatMap f = [] :=
        List.flatMap_eq_nil_iff.2 fun k hk => hf k (by have := List.mem_range.1 hk; omega)
      rw [hz, hn, List.nil_append]
    · rw [ih (by omega), hf n (by omega), List.append_nil]

theorem perm_toList {α : Type} {xs : List α} {x : Option α} (hp : xs.Perm x.toList) :
    xs = x.toList := by
  cases x with
  | none => exact hp.eq_nil
  | some x => exact hp.eq_singleton

end

/-- What a listener of the bus on its own does when it is called. -/
def recordOnmsg (msg : CdbMessage) (l : ℕ) : List CpuEffect := [.plain (.log (.heard l msg))]

inductive BusCall where
  | bus | helper (h : ℕ) | client (h : ℕ) (msg : CdbMessage)

def BusCall.effects (listeners : List ℕ) (s : Latched) : BusCall → List CpuEffect
  | .bus => busTick recordOnmsg listeners s
  | .helper h => bhTick h s
  | .client h msg => bhSend s h msg

def busCalls (n : ℕ) (offers : ℕ → Option CdbMessage) : List BusCall :=
  .bus :: (List.range n).flatMap fun h => .helper h :: (offers h).toList.map (.client h)

/-- A tick of a bus with `n` helpers and `k` listeners: the message that each
    client offers, and the orders of the calls and of the listeners. -/
structure BusTick (n k : ℕ) where
  offers : ℕ → Option CdbMessage
  order : List BusCall
  perm : order.Perm (busCalls n offers)
  listeners : List ℕ
  listeners_perm : listeners.Perm (List.range k)

/-- The bus between two ticks. What was written into the buffers of a helper,
    what a listener was called with and the helper that wrote the message on
    the bus are history variables. -/
structure BusState where
  cpu : Cpu
  accepted : ℕ → List CdbMessage
  passed : ℕ → List (ℕ × CdbMessage)
  sender : ℕ

def busCreate : BusState where
  cpu := cpuCreate (fun _ => 0) (fun _ _ => 0) 0
  accepted := fun _ => []
  passed := fun _ => []
  sender := 0

def BusState.latch (n : ℕ) (b : BusState) : Latched :=
  { TomasuloCpu.latch b.cpu with gnt := busArb n b.cpu.next }

def BusState.delivered (b : BusState) (l h : ℕ) : List CdbMessage :=
  ((b.passed l).filter fun x => x.1 = h).map Prod.snd

def busWriter (n : ℕ) (s : Latched) : Option ℕ :=
  (List.range n).find? fun h => CpuReg.busData ∈ names (bhTick h s)

section
variable {n k : ℕ}

def BusTick.effects (t : BusTick n k) (b : BusState) (x : BusCall) : List CpuEffect :=
  x.effects t.listeners (b.latch n)

/-- The state after a tick that leaves the CPU as in `cpu`; the listeners were
    called with what the tick appends to the log. -/
def BusState.after (b : BusState) (t : BusTick n k) (cpu : Cpu) : BusState where
  cpu := cpu
  accepted := fun h => b.accepted h ++ bufferWrites h (t.order.flatMap (t.effects b))
  passed := fun l => b.passed l ++
    (heard l (cpu.plain.log.drop b.cpu.plain.log.length)).map fun msg => (b.sender, msg)
  sender := (busWriter n (b.latch n)).getD b.sender

def busClockTick (t : BusTick n k) (b : BusState) : Except Fault BusState :=
  (run PlainOp.act (fun x _ => t.effects b x) t.order (latchNext b.cpu)).map (b.after t)

def busRun : List (BusTick n k) → BusState → Except Fault BusState
  | [], b => .ok b
  | t :: ts, b => do busRun ts (← busClockTick t b)

end

/-- The messages in acquired buffers, oldest first, are those that each listener
    was called with, then the one on the bus, then those in the busy buffers. -/
structure BusOk (n k : ℕ) (b : BusState) : Prop where
  busClear : (b.latch n).rm.busClear = 0
  helper : ∀ h < n, HelperOk (b.latch n) h
  fifo : ∀ l < k, ∀ h < n, b.accepted h = b.delivered l h ++
    (if b.sender = h then (b.latch n).busQueue else []) ++ (b.latch n).helperQueue h
  sender : (b.latch n).rm.fire = true → b.sender < n
  senders : ∀ l < k, ∀ x ∈ b.passed l, x.1 < n

section
variable {s : Latched} {h : ℕ} (hb : s.rm.busClear = 0)
include hb

theorem busTick_record (ls : List ℕ) : busTick recordOnmsg ls s = .write .fire (s.gnt != 0) ::
    s.busQueue.flatMap fun msg => ls.flatMap (recordOnmsg msg) := by
  simp only [busTick, hb, ne_eq, not_true_eq_false, ↓reduceIte, busGetData, Latched.busQueue]
  cases s.rm.fire <;> simp

theorem mem_busTick_record {ls : List ℕ} {e : CpuEffect} : e ∈ busTick recordOnmsg ls s ↔
    e = .write .fire (s.gnt != 0) ∨
      ∃ msg ∈ s.busQueue, ∃ l ∈ ls, e = .plain (.log (.heard l msg)) := by
  simp [busTick_record hb, recordOnmsg]

omit hb in
theorem gnt_of_busData {v : CdbMessage} (hv : .write .busData v ∈ bhTick h s) :
    s.gnt = h + 1 :=
  ((ofHelper_bhTick hv).resolve_left id).1

theorem names_bhTick : names (bhTick h s) =
    (if s.rr (.bhBusy h (s.rm.current h)) && s.gnt == h + 1 then [.busData] else []) ++
      (if s.waits h then [.req h] else []) ++
      if !s.waits h && s.rr (.bhBusy h (bhOther (s.rm.current h))) then
        [.req h, .current h] else [] := by
  rcases Bool.eq_false_or_eq_true (s.rr (.bhBusy h (s.rm.current h))) with hx | hx <;>
    rcases Bool.eq_false_or_eq_true (s.rr (.bhBusy h (bhOther (s.rm.current h)))) with hy | hy <;>
    by_cases hg : s.gnt = h + 1 <;>
    simp [bhTick, Latched.waits, busArbStatus, busArbReq, hb, hx, hy, hg]

theorem names_bhAcquire : names (bhAcquire s h).1 =
    if bhReqIx s h < 0 then [.req h] else [] := by
  simp only [bhAcquire, busArbReq, hb, ne_eq, not_true_eq_false, ↓reduceIte]
  split_ifs <;> first | rfl | omega

theorem names_bhSend (msg : CdbMessage) : names (bhSend s h msg) =
    (if bhReqIx s h < 0 then [.req h] else []) ++ (s.acquired h).toList.map (.buffer h) := by
  rw [← names_bhAcquire hb, bhSend, Latched.acquired]
  generalize bhAcquire s h = acq
  obtain ⟨es, ob⟩ := acq
  cases ob <;> simp

theorem nodup_names_helper (hc : s.rm.current h = 0 ∨ s.rm.current h = 1)
    (out : Option CdbMessage) : (names (bhTick h s ++ out.toList.flatMap (bhSend s h))).Nodup := by
  have hom := bhOther_mem (i := s.rm.current h)
  -- a client does not request the bus for a helper that does so itself
  have hix : bhReqIx s h < 0 → s.waits h = false ∧
      s.rr (.bhBusy h (bhOther (s.rm.current h))) = false := by
    rw [bhReqIx_eq hb]
    split
    · omega
    · split
      · omega
      · simp_all
  rw [names_append, names_bhTick hb]
  cases out with
  | none =>
    cases hw : s.waits h <;> split_ifs <;> simp_all
  | some msg =>
    simp only [Option.toList_some, List.flatMap_cons, List.flatMap_nil, List.append_nil,
      names_bhSend hb]
    by_cases hneg : bhReqIx s h < 0
    · obtain ⟨hw, hy⟩ := hix hneg
      simp only [hw, hy, hneg, ↓reduceIte, Bool.and_false, Bool.false_eq_true, List.append_nil]
      split_ifs <;> cases s.acquired h <;> simp
    · simp only [hneg, ↓reduceIte, List.nil_append]
      cases hw : s.waits h <;> split_ifs <;> cases s.acquired h <;> simp_all

omit hb in
theorem mem_names_helper {out : Option CdbMessage} {r : CpuReg}
    (hr : r ∈ names (bhTick h s ++ out.toList.flatMap (bhSend s h))) :
    (r = .busData ∧ s.gnt = h + 1) ∨ r = .req h ∨ r = .current h ∨ ∃ b, r = .buffer h b := by
  obtain ⟨v, hv⟩ := mem_names.1 hr
  have ho : OfHelper h (.write r v) ∨ s.gnt = h + 1 ∧ r = .busData := by
    rcases List.mem_append.1 hv with hv | hv
    · refine (ofHelper_bhTick hv).imp_right fun ⟨hg, w, he⟩ => ⟨hg, ?_⟩
      cases he
      rfl
    · obtain ⟨msg, -, hv⟩ := List.mem_flatMap.1 hv
      exact .inl (ofHelper_bhSend hv)
  rcases ho with ho | ⟨hg, rfl⟩
  · cases r with
    | req k =>
      obtain rfl : k = h := ho
      exact .inr (.inl rfl)
    | current k =>
      obtain rfl : k = h := ho
      exact .inr (.inr (.inl rfl))
    | buffer k b =>
      obtain rfl : k = h := ho
      exact .inr (.inr (.inr ⟨b, rfl⟩))
    | _ => exact ho.elim
  · exact .inl ⟨rfl, hg⟩

omit hb in
theorem bufferWrites_bhTick (k : ℕ) : bufferWrites h (bhTick k s) = [] := by
  refine bufferWrites_eq_nil fun b msg hm => ?_
  simp [mem_bhTick] at hm

omit hb in
theorem bufferWrites_bhAcquire : bufferWrites h (bhAcquire s h).1 = [] := by
  refine bufferWrites_eq_nil fun b v hm => ?_
  simp [mem_bhAcquire] at hm

omit hb in
theorem bufferWrites_bhSend (msg : CdbMessage) : bufferWrites h (bhSend s h msg) =
    if (s.acquired h).isSome then [msg] else [] := by
  have hacq := bufferWrites_bhAcquire (s := s) (h := h)
  rw [bhSend, Latched.acquired]
  generalize bhAcquire s h = acq at hacq ⊢
  obtain ⟨es, ob⟩ := acq
  cases ob with
  | none => exact hacq
  | some b =>
    rw [bufferWrites_append, hacq]
    simp

omit hb in
theorem bufferWrites_bhSend_ne {k : ℕ} (hk : k ≠ h) (msg : CdbMessage) :
    bufferWrites h (bhSend s k msg) = [] :=
  bufferWrites_eq_nil fun _ _ hm => hk (ofHelper_bhSend hm).symm

theorem busWriter_eq {n : ℕ} (hg : s.gnt = h + 1) (hh : h < n)
    (hbusy : s.rr (.bhBusy h (s.rm.current h)) = true) : busWriter n s = some h := by
  have hw : ∀ k, CpuReg.busData ∈ names (bhTick k s) → k = h := by
    intro k hk
    obtain ⟨v, hv⟩ := mem_names.1 hk
    have := gnt_of_busData hv
    omega
  have hm : CpuReg.busData ∈ names (bhTick h s) :=
    mem_names.2 ⟨_, mem_bhTick.2 ⟨hb, .inl ⟨hbusy, hg, .inl rfl⟩⟩⟩
  cases hf : busWriter n s with
  | none =>
    have := List.find?_eq_none.1 hf h (List.mem_range.2 hh)
    simp [hm] at this
  | some k =>
    have := List.find?_some hf
    rw [hw k (by simpa using this)]

end

section
variable {n k : ℕ} {b : BusState} (ok : BusOk n k b) (t : BusTick n k)

theorem perm_effects : (t.order.flatMap (t.effects b)).Perm
    (busTick recordOnmsg t.listeners (b.latch n) ++ (List.range n).flatMap fun h =>
      bhTick h (b.latch n) ++ (t.offers h).toList.flatMap (bhSend (b.latch n) h)) := by
  refine (t.perm.flatMap_right _).trans (.of_eq ?_)
  rw [busCalls, List.flatMap_cons, List.flatMap_assoc]
  simp only [BusTick.effects, BusCall.effects, List.flatMap_cons, List.flatMap_map]

include ok

theorem nodup_names_effects : (names (t.order.flatMap (t.effects b))).Nodup := by
  rw [(names_perm (perm_effects t)).nodup_iff, busTick_record ok.busClear, List.cons_append,
    names_cons_write, names_append, List.nodup_cons]
  have hrec : names ((b.latch n).busQueue.flatMap fun msg =>
      t.listeners.flatMap (recordOnmsg msg)) = [] := by
    rw [List.eq_nil_iff_forall_not_mem]
    intro r hr
    obtain ⟨v, hv⟩ := mem_names.1 hr
    simp [recordOnmsg] at hv
  rw [hrec, List.nil_append, names, List.filterMap_flatMap]
  constructor
  · intro hm
    obtain ⟨h, -, hm⟩ := List.mem_flatMap.1 hm
    rcases mem_names_helper hm with ⟨he, -⟩ | he | he | ⟨b, he⟩ <;> cases he
  · rw [List.nodup_flatMap]
    refine ⟨fun h hh =>
      nodup_names_helper ok.busClear (ok.helper h (List.mem_range.1 hh)).current _,
      List.nodup_range.imp fun {h k} hne r hr hk => ?_⟩
    rcases mem_names_helper hr with ⟨rfl, hg⟩ | rfl | rfl | ⟨b, rfl⟩ <;>
      rcases mem_names_helper hk with ⟨he, hg'⟩ | he | he | ⟨b, he⟩ <;> cases he
    · omega
    · exact hne rfl
    · exact hne rfl
    · exact hne rfl

omit ok in
theorem busEffect_iff {e : CpuEffect} : (∃ x ∈ t.order, e ∈ t.effects b x) ↔
    e ∈ busTick recordOnmsg t.listeners (b.latch n) ∨
      ∃ h < n, HelperEffect (b.latch n) h (t.offers h) e := by
  rw [← List.mem_flatMap, (perm_effects t).mem_iff, List.mem_append, List.mem_flatMap]
  simp only [List.mem_range, List.mem_append, List.mem_flatMap, Option.mem_toList, HelperEffect]

theorem busClockTick_ok : ∃ cpu, run PlainOp.act (fun x _ => t.effects b x) t.order
    (latchNext b.cpu) = .ok cpu := by
  rw [run_const]
  refine applyAll_isOk (nodup_names_effects ok t) (fun _ _ => rfl) ?_
  intro f hf
  rcases (busEffect_iff t).1 (List.mem_flatMap.1 hf) with hf | ⟨h, -, hf | ⟨msg, -, hf⟩⟩
  · rcases (mem_busTick_record ok.busClear).1 hf with he | ⟨msg, -, l, -, he⟩ <;> cases he
  · rcases ofHelper_bhTick hf with ho | ⟨-, v, he⟩
    · exact ho
    · cases he
  · exact ofHelper_bhSend hf

theorem bufferWrites_effects {h : ℕ} (hh : h < n) :
    bufferWrites h (t.order.flatMap (t.effects b)) =
      (if ((b.latch n).acquired h).isSome then t.offers h else none).toList := by
  apply perm_toList
  refine ((perm_effects t).filterMap _).trans (.of_eq ?_)
  change bufferWrites h _ = _
  have hbus : bufferWrites h (busTick recordOnmsg t.listeners (b.latch n)) = [] := by
    refine bufferWrites_eq_nil fun i msg hm => ?_
    rcases (mem_busTick_record ok.busClear).1 hm with he | ⟨v, -, l, -, he⟩ <;> cases he
  rw [bufferWrites_append, hbus, List.nil_append, bufferWrites_flatMap, flatMap_range_single hh]
  · rw [bufferWrites_append, bufferWrites_bhTick, List.nil_append, bufferWrites_flatMap]
    cases t.offers h with
    | none => simp
    | some msg =>
      rw [Option.toList_some, List.flatMap_singleton, bufferWrites_bhSend]
      split <;> rfl
  · intro j hj
    rw [bufferWrites_append, bufferWrites_bhTick, List.nil_append, bufferWrites_flatMap]
    exact List.flatMap_eq_nil_iff.2 fun msg _ => bufferWrites_bhSend_ne hj msg

/-- Every listener is called once with the message on the bus. -/
theorem heard_effects {l : ℕ} (hl : l < k) :
    heard l (logsOf (t.order.flatMap (t.effects b))) = (b.latch n).busQueue := by
  have hhelpers : logsOf ((List.range n).flatMap fun h => bhTick h (b.latch n) ++
      (t.offers h).toList.flatMap (bhSend (b.latch n) h)) = [] := by
    refine logsOf_eq_nil fun e he x hx => ?_
    obtain ⟨h, -, he⟩ := List.mem_flatMap.1 he
    subst hx
    rcases List.mem_append.1 he with he | he
    · rcases ofHelper_bhTick he with ho | ⟨-, v, he⟩
      · exact ho
      · cases he
    · obtain ⟨msg, -, he⟩ := List.mem_flatMap.1 he
      exact ofHelper_bhSend he
  have hlog : ∀ msg, heard l (logsOf ((List.range k).flatMap (recordOnmsg msg))) = [msg] := by
    intro msg
    rw [logsOf, plains, List.filterMap_flatMap, List.filterMap_flatMap, heard,
      List.filterMap_flatMap, flatMap_range_single hl]
    · simp [recordOnmsg, Effect.plain?, PlainOp.event?]
    · intro j hj
      simp [recordOnmsg, Effect.plain?, PlainOp.event?, hj]
  have hperm : (heard l (logsOf (t.order.flatMap (t.effects b)))).Perm
      (heard l (logsOf (busTick recordOnmsg t.listeners (b.latch n)))) := by
    have := (((perm_effects (b := b) t).filterMap Effect.plain?).filterMap
      PlainOp.event?).filterMap fun
        | .heard j msg => if j = l then some msg else none
        | _ => none
    refine this.trans (.of_eq ?_)
    change heard l (logsOf _) = _
    rw [logsOf_append, hhelpers, List.append_nil]
  rw [busTick_record ok.busClear, logsOf_write] at hperm
  cases hf : (b.latch n).rm.fire with
  | false =>
    simp only [Latched.busQueue, hf] at hperm ⊢
    exact hperm.eq_nil
  | true =>
    simp only [Latched.busQueue, hf, ↓reduceIte, List.flatMap_singleton] at hperm ⊢
    apply List.Perm.eq_singleton
    rw [← hlog]
    refine hperm.trans ?_
    exact (((t.listeners_perm.flatMap_right _).filterMap _).filterMap _).filterMap _

variable {cpu : Cpu} (hr : run PlainOp.act (fun x _ => t.effects b x) t.order
  (latchNext b.cpu) = .ok cpu)

omit ok in
theorem helperEffect_unique {s : Latched} {h k : ℕ} {out : Option CdbMessage} {e : CpuEffect}
    (ho : OfHelper h e) (he : HelperEffect s k out e) : k = h := by
  have hk : OfHelper k e := by
    rcases he with he | ⟨msg, -, he⟩
    · rcases ofHelper_bhTick he with hk | ⟨-, v, rfl⟩
      · exact hk
      · exact ho.elim
    · exact ofHelper_bhSend he
  rcases e with ⟨r, v⟩ | ⟨r, v⟩ | p | f
  · cases r <;> first | exact hk.symm.trans ho | exact ho.elim
  · cases r <;> first | exact hk.symm.trans ho | exact ho.elim
  · exact ho.elim
  · exact ho.elim

include hr

theorem BusOk.helperStep {h : ℕ} (hh : h < n) :
    HelperStep (b.latch n) ((b.after t cpu).latch n) h (t.offers h) := by
  refine HelperStep.of_run rfl rfl rfl ok.busClear hr fun e he => ?_
  rw [busEffect_iff t]
  constructor
  · rintro (hbus | ⟨k, -, hk⟩)
    · rcases (mem_busTick_record ok.busClear).1 hbus with rfl | ⟨msg, -, l, -, rfl⟩ <;>
        exact he.elim
    · rwa [← helperEffect_unique he hk]
  · exact fun hk => .inr ⟨h, hh, hk⟩

theorem BusOk.fire : ((b.after t cpu).latch n).rm.fire = ((b.latch n).gnt != 0) := by
  obtain ⟨x, hx, hv⟩ :=
    (busEffect_iff t).2 (.inl ((mem_busTick_record ok.busClear).2 (.inl rfl)))
  exact run_const_write hr hx hv

theorem BusOk.busQueue {h : ℕ} (hg : (b.latch n).gnt = h + 1) :
    (b.after t cpu).sender = h ∧
      ((b.after t cpu).latch n).busQueue ++ ((b.latch n).helperQueue h).tail =
        (b.latch n).helperQueue h := by
  obtain ⟨hh, -, hreq⟩ := busArb_granted (show busArb n (b.latch n).rm = h + 1 from hg)
  have hbusy : (b.latch n).rr (.bhBusy h ((b.latch n).rm.current h)) = true :=
    (ok.helper h hh).req ▸ hreq
  have hfire := ok.fire t hr
  have hdata : ((b.after t cpu).latch n).rm.busData =
      (b.latch n).rm.buffer h ((b.latch n).rm.current h) := by
    obtain ⟨x, hx, hv⟩ := (busEffect_iff t).2 (.inr ⟨h, hh, .inl (mem_bhTick.2
      ⟨ok.busClear, .inl ⟨hbusy, hg, .inl rfl⟩⟩)⟩)
    exact run_const_write hr hx hv
  rw [hg] at hfire
  constructor
  · simp [BusState.after, busWriter_eq ok.busClear hg hh hbusy]
  · simp [Latched.busQueue, Latched.helperQueue, hfire, hdata, hbusy]

theorem BusOk.busClear_step : ((b.after t cpu).latch n).rm.busClear = 0 := by
  rcases run_const_next hr .busClear with ⟨x, hx, v, hv, -⟩ | ⟨-, hk⟩
  · rcases (busEffect_iff t).1 ⟨x, hx, hv⟩ with he | ⟨h, -, he | ⟨msg, -, he⟩⟩
    · rcases (mem_busTick_record ok.busClear).1 he with he | ⟨msg, -, l, -, he⟩ <;> cases he
    · rcases ofHelper_bhTick he with ho | ⟨-, w, he⟩
      · exact ho.elim
      · cases he
    · exact (ofHelper_bhSend he).elim
  · exact hk.trans ok.busClear

theorem BusOk.passed_after {l : ℕ} (hl : l < k) : (b.after t cpu).passed l =
    b.passed l ++ (b.latch n).busQueue.map fun msg => (b.sender, msg) := by
  have hlog : heard l (cpu.plain.log.drop b.cpu.plain.log.length) = (b.latch n).busQueue := by
    rw [run_const] at hr
    rw [applyAll_plain hr, plainAll_log, ← heard_effects ok t hl]
    exact congrArg (heard l) List.drop_left
  rw [← hlog]
  rfl

theorem BusOk.delivered_after {l : ℕ} (hl : l < k) (h : ℕ) : (b.after t cpu).delivered l h =
    b.delivered l h ++ if b.sender = h then (b.latch n).busQueue else [] := by
  rw [BusState.delivered, ok.passed_after t hr hl, List.filter_append, List.map_append,
    BusState.delivered]
  congr 1
  by_cases hs : b.sender = h <;> simp [hs, List.filter_map, Function.comp_def]

theorem BusOk.step : BusOk n k (b.after t cpu) where
  busClear := ok.busClear_step t hr
  helper := fun h hh => ((ok.helperStep t hr hh).queue (ok.helper h hh) ok.busClear).1
  fifo := by
    intro l hl h hh
    have hq := ((ok.helperStep t hr hh).queue (ok.helper h hh) ok.busClear).2
    have hmove : (if (b.after t cpu).sender = h then ((b.after t cpu).latch n).busQueue else []) ++
        (if (b.latch n).gnt = h + 1 then ((b.latch n).helperQueue h).tail
          else (b.latch n).helperQueue h) = (b.latch n).helperQueue h := by
      by_cases hg : (b.latch n).gnt = h + 1
      · obtain ⟨hs, hmove⟩ := ok.busQueue t hr hg
        rw [if_pos hs, if_pos hg, hmove]
      · rw [if_neg hg]
        by_cases hzero : (b.latch n).gnt = 0
        · simp [Latched.busQueue, ok.fire t hr, hzero]
        · -- another helper was granted
          obtain ⟨j, hj⟩ := Nat.exists_eq_succ_of_ne_zero hzero
          have hs := (ok.busQueue t hr hj).1
          rw [if_neg (by omega), List.nil_append]
    calc (b.after t cpu).accepted h
        = b.accepted h ++ bufferWrites h (t.order.flatMap (t.effects b)) := rfl
      _ = b.delivered l h ++ (if b.sender = h then (b.latch n).busQueue else []) ++
            (b.latch n).helperQueue h ++
            (if ((b.latch n).acquired h).isSome then t.offers h else none).toList := by
          rw [ok.fifo l hl h hh, bufferWrites_effects ok t hh]
      _ = _ := by
          rw [hq, ok.delivered_after t hr hl]
          nth_rewrite 1 [← hmove]
          simp only [List.append_assoc]
  sender := by
    intro hf
    rw [ok.fire t hr] at hf
    obtain ⟨h, hg⟩ : ∃ h, (b.latch n).gnt = h + 1 :=
      Nat.exists_eq_succ_of_ne_zero (by simpa using hf)
    rw [(ok.busQueue t hr hg).1]
    exact (busArb_granted (show busArb n (b.latch n).rm = h + 1 from hg)).1
  senders := by
    intro l hl x hx
    rw [ok.passed_after t hr hl] at hx
    rcases List.mem_append.1 hx with hx | hx
    · exact ok.senders l hl x hx
    · obtain ⟨msg, hm, rfl⟩ := List.mem_map.1 hx
      apply ok.sender
      by_contra hf
      simp [Latched.busQueue, hf] at hm

theorem BusOk.fire_iff : ((b.after t cpu).latch n).rm.fire = true ↔
    ∃ h < n, ∃ v, .write .busData v ∈ bhTick h (b.latch n) := by
  rw [ok.fire t hr]
  constructor
  · intro hf
    obtain ⟨h, hg⟩ : ∃ h, (b.latch n).gnt = h + 1 :=
      Nat.exists_eq_succ_of_ne_zero (by simpa using hf)
    obtain ⟨hh, -, hreq⟩ := busArb_granted (show busArb n (b.latch n).rm = h + 1 from hg)
    have hbusy := (ok.helper h hh).req ▸ hreq
    exact ⟨h, hh, _, mem_bhTick.2 ⟨ok.busClear, .inl ⟨hbusy, hg, .inl rfl⟩⟩⟩
  · rintro ⟨h, -, v, hv⟩
    simp [gnt_of_busData hv]

end

theorem busOk_busCreate (n k : ℕ) : BusOk n k busCreate where
  busClear := rfl
  helper := fun h hh => ⟨.inl rfl, (fun h => by cases h), rfl⟩
  fifo := fun l hl h hh => by
    by_cases h0 : 0 = h
    · subst h0
      rfl
    · simp [busCreate, BusState.delivered, h0]
      rfl
  sender := fun h => by cases h
  senders := fun l hl x hx => by cases hx

theorem BusOk.run {n k : ℕ} {b : BusState} (ok : BusOk n k b) (ts : List (BusTick n k)) :
    ∃ b', busRun ts b = .ok b' ∧ BusOk n k b' := by
  induction ts generalizing b with
  | nil => exact ⟨b, rfl, ok⟩
  | cons t ts ih =>
    obtain ⟨cpu, hr⟩ := busClockTick_ok ok t
    obtain ⟨b', hb', ok'⟩ := ih (ok.step t hr)
    refine ⟨b', ?_, ok'⟩
    rw [busRun, busClockTick, hr]
    exact hb'

theorem bus_exactly_once (n k : ℕ) (ts : List (BusTick n k)) :
    ∃ b, busRun ts busCreate = .ok b ∧ BusOk n k b ∧
      (∀ h j v w, .write .busData v ∈ bhTick h (b.latch n) →
        .write .busData w ∈ bhTick j (b.latch n) → h = j) ∧
      ∀ (t : BusTick n k) b', busClockTick t b = .ok b' → ((b'.latch n).rm.fire = true ↔
        ∃ h < n, ∃ v, .write .busData v ∈ bhTick h (b.latch n)) := by
  obtain ⟨b, hb, ok⟩ := (busOk_busCreate n k).run ts
  refine ⟨b, hb, ok, ?_, ?_⟩
  · intro h j v w hv hw
    have := (gnt_of_busData hv).symm.trans (gnt_of_busData hw)
    omega
  · intro t b' ht
    obtain ⟨cpu, hr⟩ := busClockTick_ok ok t
    rw [busClockTick, hr] at ht
    cases ht
    exact ok.fire_iff t hr

end TomasuloCpu
