import TomasuloCpu.Scanner

set_option autoImplicit false

/-!
# Progress of the loader

A letter or digit that `scanf` does not take for a part of a number is pushed back
by `ungetc` and found again. The inputs on which the loader comes to an end inside
memory, and those on which every pass of the byte loop consumes a character.
-/
namespace TomasuloCpu
open Clocked

section
variable {P : List Byte → Prop} {c : Byte} {text stdin : List Byte}

theorem not_atMark_nil : ¬AtMark P [] := by
  rintro ⟨before, after, he, -⟩
  cases before <;> cases he

theorem not_atMark_eof : ¬AtMark P (eof :: stdin) := by
  rintro ⟨before, after, he, hb, -⟩
  cases before with
  | nil => exact absurd (List.cons.inj he).1 (by decide)
  | cons c before =>
    rw [(List.cons.inj he).1] at hb
    exact hb List.mem_cons_self

theorem atMark_at : AtMark P (atSign :: stdin) ↔ P stdin ∨ AtMark P stdin := by
  constructor
  · rintro ⟨before, after, he, hb, hp⟩
    cases before with
    | nil =>
      rw [(List.cons.inj he).2]
      exact .inl hp
    | cons c before =>
      exact .inr ⟨before, after, (List.cons.inj he).2, fun h => hb (List.mem_cons_of_mem _ h), hp⟩
  · rintro (hp | ⟨before, after, he, hb, hp⟩)
    · exact ⟨[], stdin, rfl, by simp, hp⟩
    · refine ⟨atSign :: before, after, congrArg (atSign :: ·) he, fun h => ?_, hp⟩
      rcases List.mem_cons.1 h with h | h
      · exact absurd h (by decide)
      · exact hb h

theorem atMark_cons (ha : c ≠ atSign) (he : c ≠ eof) : AtMark P (c :: stdin) ↔ AtMark P stdin := by
  constructor
  · rintro ⟨before, after, h, hb, hp⟩
    cases before with
    | nil => exact absurd (List.cons.inj h).1 ha
    | cons d before =>
      exact ⟨before, after, (List.cons.inj h).2, fun hm => hb (List.mem_cons_of_mem _ hm), hp⟩
  · rintro ⟨before, after, h, hb, hp⟩
    refine ⟨c :: before, after, congrArg (c :: ·) h, fun hm => ?_, hp⟩
    rcases List.mem_cons.1 hm with hm | hm
    · exact he hm.symm
    · exact hb hm

theorem atMark_append (h : ∀ c ∈ text, c ≠ atSign ∧ c ≠ eof) :
    AtMark P (text ++ stdin) ↔ AtMark P stdin := by
  induction text with
  | nil => rfl
  | cons c text ih =>
    obtain ⟨ha, he⟩ := h c List.mem_cons_self
    rw [List.cons_append, atMark_cons ha he]
    exact ih fun c hc => h c (List.mem_cons_of_mem _ hc)

theorem not_atMark_of_blank (h : ∀ c ∈ text, c ≠ atSign ∧ c ≠ eof) : ¬AtMark P text := by
  have happ := @atMark_append P text [] h
  rw [List.append_nil] at happ
  exact fun hm => not_atMark_nil (happ.1 hm)

theorem bare_iff : Bare stdin ↔ (scanHex stdin).2 = [] := by
  simp only [Bare, scanHex]
  by_cases hd : (scanSign (stdin.dropWhile isspace)).2.takeWhile isxdigit = []
  · rw [if_pos hd, or_iff_left]
    intro hnumber
    exact (isNumber_iff.1 hnumber).1 hd
  · rw [if_neg hd, ← isNumber_iff_dropWhile hd, or_iff_right]
    intro hnil
    rw [hnil] at hd
    exact hd rfl

end

section
variable {unset : List Byte → Word} {addr : Addr} {s : Loader}

def Loader.pass (unset : List Byte → Word) (addr : Addr) (s : Loader) : Byte × Loader :=
  let (octet, stdin) := readNum unset s.stdin
  let (c, stdin) := skipChars stdin
  let stdin := if isalnum c then ungetc c stdin else stdin
  (c, ⟨stdin, Function.update s.data addr.toNat (octet.setWidth 8),
    s.passes ++ [(s.stdin.length, stdin.length)]⟩)

theorem readByte_eq : readByte unset addr s =
    if addr.toNat < memSize then .ok (s.pass unset addr) else .error .outOfBounds := by
  by_cases h : addr.toNat < memSize
  · simp only [readByte, memSet, if_pos h]
    rfl
  · simp only [readByte, memSet, if_neg h]
    rfl

/-- The ways in which a pass ends, with the text it consumes and the runs it leaves. -/
inductive PassEnd (stdin : List Byte) (c : Byte) (rest : List Byte) : Prop
  | done (hc : c = eof) (hrest : rest = []) (hn : Numeric stdin)
      (h : ∀ c ∈ stdin, c ≠ atSign ∧ c ≠ eof) (left : byteRuns (scanHex stdin).2 = 0)
  | eof (text : List Byte) (hc : c = eof) (hn : Numeric stdin)
      (h : ∀ c ∈ text, c ≠ atSign ∧ c ≠ TomasuloCpu.eof) (eq : stdin = text ++ c :: rest)
      (left : byteRuns (scanHex stdin).2 = 0)
  | at (text : List Byte) (hc : c = atSign) (hn : Numeric rest ↔ Numeric stdin)
      (h : ∀ c ∈ text, c ≠ atSign ∧ c ≠ TomasuloCpu.eof) (eq : stdin = text ++ c :: rest)
      (left : byteRuns (scanHex stdin).2 = 0)
  | alnum (text : List Byte) (hc : isalnum c = true) (hn : Numeric rest ↔ Numeric stdin)
      (h : ∀ c ∈ text, c ≠ atSign ∧ c ≠ TomasuloCpu.eof) (eq : stdin = text ++ rest)
      (hne : rest ≠ []) (hskip : Numeric stdin → text ≠ [])
      (left : Numeric stdin → byteRuns (scanHex stdin).2 = 1 + byteRuns (scanHex rest).2)

theorem passEnd (unset : List Byte → Word) (addr : Addr) (s : Loader) :
    PassEnd s.stdin (s.pass unset addr).1 (s.pass unset addr).2.stdin := by
  obtain ⟨number, hnumber, hno⟩ := scanHex_split s.stdin
  have hnum := numeric_scanHex s.stdin
  have hhead := @scanHex_head s.stdin
  change PassEnd s.stdin (skipChars (scanHex s.stdin).2).1
    (if isalnum (skipChars (scanHex s.stdin).2).1 then
      ungetc (skipChars (scanHex s.stdin).2).1 (skipChars (scanHex s.stdin).2).2
    else (skipChars (scanHex s.stdin).2).2)
  generalize hscan : (scanHex s.stdin).2 = r at *
  obtain ⟨text, hblank, hskip⟩ := skipChars_cases r
  have htext : ∀ c ∈ number ++ text, c ≠ atSign ∧ c ≠ eof := by
    intro c hc
    rcases List.mem_append.1 hc with hc | hc
    · exact hno c hc
    · exact (hblank c hc).2
  rcases hskip with ⟨he, hr⟩ | ⟨hr, hm⟩
  · have halnum : isalnum eof = false := by decide
    rw [he]
    simp only [halnum, Bool.false_eq_true, ↓reduceIte]
    refine .done rfl rfl (hnum.1 ?_) ?_ ?_
    · rw [hr, ← List.append_nil text, numeric_blank hblank]
      exact numeric_nil
    · rw [hnumber, hr]
      exact htext
    · rw [hscan, hr, ← List.append_nil text, byteRuns_blank hblank]
      simp [byteRuns]
  · have heq : s.stdin = number ++ text ++ (skipChars r).1 :: (skipChars r).2 := by
      rw [List.append_assoc, ← hr]
      exact hnumber
    generalize (skipChars r).1 = c at *
    generalize (skipChars r).2 = rest at *
    have hcut : Numeric (c :: rest) ↔ Numeric s.stdin := by
      rw [← hnum, hr, numeric_blank hblank]
    have hleft : byteRuns (scanHex s.stdin).2 = byteRuns (c :: rest) := by
      rw [hscan, hr, byteRuns_blank hblank]
    have hmark : isMark c = true → byteRuns (scanHex s.stdin).2 = 0 := fun h => by
      rw [hleft, byteRuns, runs_cons_stop h, List.length_nil]
    rcases hm with hc | hc | hc
    · subst hc
      have halnum : isalnum atSign = false := by decide
      simp only [halnum, Bool.false_eq_true, ↓reduceIte]
      rw [numeric_cons halnum (by decide)] at hcut
      exact .at _ rfl hcut htext heq (hmark rfl)
    · subst hc
      have halnum : isalnum eof = false := by decide
      simp only [halnum, Bool.false_eq_true, ↓reduceIte]
      exact .eof _ rfl (hcut.1 numeric_eof) htext heq (hmark rfl)
    · simp only [hc, ↓reduceIte, ungetc]
      refine .alnum _ hc hcut htext heq (List.cons_ne_nil _ _) (fun hn hnil => ?_) fun hn => ?_
      · rw [(List.append_eq_nil_iff.1 hnil).2] at hr
        have hstop := hhead hn c (by rw [hr]; rfl)
        rw [hc] at hstop
        cases hstop
      · rw [hleft]
        exact byteRuns_scanHex (hcut.2 hn) hc

theorem pass_passes (unset : List Byte → Word) (addr : Addr) (s : Loader) :
    (s.pass unset addr).2.passes =
      s.passes ++ [(s.stdin.length, (s.pass unset addr).2.stdin.length)] := rfl

/-- Every pass so far has consumed a character. -/
def Loader.Progressed (s : Loader) : Prop := ∀ pass ∈ s.passes, pass.2 < pass.1

theorem PassEnd.length_lt {stdin rest : List Byte} {c : Byte} (h : PassEnd stdin c rest)
    (hn : Numeric stdin) (hne : stdin ≠ []) : rest.length < stdin.length := by
  cases h with
  | done _ hrest =>
    rw [hrest]
    exact List.length_pos_iff.2 hne
  | eof text _ _ _ heq | «at» text _ _ _ heq =>
    rw [heq, List.length_append, List.length_cons]
    omega
  | alnum text _ _ _ heq _ hskip =>
    have hpos := List.length_pos_iff.2 (hskip hn)
    rw [heq, List.length_append]
    omega

theorem pass_progressed (hn : Numeric s.stdin) :
    (s.pass unset addr).2.Progressed ↔ s.Progressed ∧ s.stdin ≠ [] := by
  have hend := passEnd unset addr s
  rw [Loader.Progressed, pass_passes, List.forall_mem_append]
  refine and_congr_right fun _ => ?_
  rw [List.forall_mem_singleton]
  constructor
  · intro hlt hnil
    rw [hnil] at hlt
    exact absurd hlt (Nat.not_lt_zero _)
  · exact hend.length_lt hn

theorem readBytes_succ (n : ℕ) : readBytes unset (n + 1) addr s =
    if addr.toNat < memSize then
      if (s.pass unset addr).1 ≠ atSign ∧ (s.pass unset addr).1 ≠ eof then
        readBytes unset n (addr + 1) (s.pass unset addr).2
      else some (.ok (s.pass unset addr))
    else some (.error .outOfBounds) := by
  rw [readBytes, readByte_eq]
  by_cases h : addr.toNat < memSize
  · simp only [if_pos h]
  · simp only [if_neg h]

def Loader.writesTo (s : Loader) (addr : Addr) : ℕ :=
  addr.toNat + 1 + byteRuns (scanHex s.stdin).2

/-- What the byte loop comes to, and what is left after the bytes of a segment. -/
inductive SegmentRead (addr : Addr) (s : Loader) : Except Fault (Byte × Loader) → Prop
  | outside (h : Numeric s.stdin → memSize < s.writesTo addr) :
      SegmentRead addr s (.error .outOfBounds)
  | at (s' : Loader) (hn : Numeric s'.stdin ↔ Numeric s.stdin)
      (hmark : ∀ P, AtMark P s.stdin ↔ AtMark P (atSign :: s'.stdin))
      (h : Numeric s.stdin → s.writesTo addr ≤ memSize) : SegmentRead addr s (.ok (atSign, s'))
  | done (s' : Loader) (hn : Numeric s.stdin) (hmark : ∀ P, ¬AtMark P s.stdin)
      (h : s.writesTo addr ≤ memSize) : SegmentRead addr s (.ok (eof, s'))

variable {n : ℕ} {c : Byte} {s' : Loader}

theorem addr_add_one (h : addr.toNat < memSize) : (addr + 1).toNat = addr.toNat + 1 := by
  have hfit : memSize < 2 ^ 32 := by decide
  rw [BitVec.toNat_add]
  exact Nat.mod_eq_of_lt (show addr.toNat + 1 < 2 ^ 32 by omega)

theorem readBytes_some {r : Except Fault (Byte × Loader)}
    (h : readBytes unset n addr s = some r) : SegmentRead addr s r := by
  induction n generalizing addr s with
  | zero => cases h
  | succ n ih =>
    have hend := passEnd unset addr s
    rw [readBytes_succ] at h
    by_cases hin : addr.toNat < memSize
    · rw [if_pos hin] at h
      generalize hpass : s.pass unset addr = pass at h hend
      obtain ⟨d, s₁⟩ := pass
      cases hend with
      | done hc _ hn hno hleft =>
        rw [if_neg fun hne => hne.2 hc] at h
        cases h
        subst hc
        refine .done _ hn (fun P => not_atMark_of_blank hno) ?_
        rw [Loader.writesTo, hleft]
        exact hin
      | eof text hc hn hno heq hleft =>
        rw [if_neg fun hne => hne.2 hc] at h
        cases h
        subst hc
        refine .done _ hn (fun P => ?_) ?_
        · rw [heq, atMark_append hno]
          exact not_atMark_eof
        · rw [Loader.writesTo, hleft]
          exact hin
      | «at» text hc hn hno heq hleft =>
        rw [if_neg fun hne => hne.1 hc] at h
        cases h
        subst hc
        refine .at _ hn (fun P => ?_) fun _ => ?_
        · rw [heq, atMark_append hno]
        · rw [Loader.writesTo, hleft]
          exact hin
      | alnum text hc hn hno heq _ _ hleft =>
        rw [if_pos (isalnum_ne hc)] at h
        have hwrites : Numeric s.stdin → s₁.writesTo (addr + 1) = s.writesTo addr := fun hs => by
          rw [Loader.writesTo, Loader.writesTo, hleft hs, addr_add_one hin, Nat.add_assoc _ 1]
        have hmark : ∀ P, AtMark P s.stdin ↔ AtMark P s₁.stdin := fun P => by
          rw [heq, atMark_append hno]
        cases ih h with
        | outside hout => exact .outside fun hs => hwrites hs ▸ hout (hn.2 hs)
        | «at» s' hn' hmark' hfit =>
          exact .at s' (hn'.trans hn) (fun P => (hmark P).trans (hmark' P))
            fun hs => hwrites hs ▸ hfit (hn.2 hs)
        | done s' hn' hmark' hfit =>
          exact .done s' (hn.1 hn') (fun P => (hmark P).not.2 (hmark' P))
            (hwrites (hn.1 hn') ▸ hfit)
    · rw [if_neg hin] at h
      cases h
      refine .outside fun _ => ?_
      rw [Loader.writesTo]
      omega

theorem readBytes_progressed (h : readBytes unset n addr s = some (.ok (c, s')))
    (hn : Numeric s.stdin) : s'.Progressed ↔ s.Progressed ∧ s.stdin ≠ [] := by
  induction n generalizing addr s with
  | zero => cases h
  | succ n ih =>
    have hend := passEnd unset addr s
    have hpass := @pass_progressed unset addr s hn
    rw [readBytes_succ] at h
    split_ifs at h with hin hc
    · cases hend with
      | done he => exact absurd he hc.2
      | eof text he => exact absurd he hc.2
      | «at» text he => exact absurd he hc.1
      | alnum text _ hn' _ _ hne =>
        rw [ih h (hn'.2 hn), hpass, and_iff_left hne]
    · cases h
      exact hpass
    · cases h

/-- The byte loop ends if every run is a number. -/
theorem readBytes_isSome (hn : Numeric s.stdin) (hlt : s.stdin.length < n) :
    ∃ r, readBytes unset n addr s = some r ∧
      ∀ s', r = .ok (atSign, s') → s'.stdin.length < s.stdin.length := by
  induction n generalizing addr s with
  | zero => exact absurd hlt (Nat.not_lt_zero _)
  | succ n ih =>
    have hend := passEnd unset addr s
    rw [readBytes_succ]
    split_ifs with hin hc
    · cases hend with
      | done he => exact absurd he hc.2
      | eof text he => exact absurd he hc.2
      | «at» text he => exact absurd he hc.1
      | alnum text ha hn' hno heq hne hskip =>
        have hne' : s.stdin ≠ [] := by
          rw [heq]
          exact fun hnil => hne (List.append_eq_nil_iff.1 hnil).2
        have hless := (passEnd unset addr s).length_lt hn hne'
        obtain ⟨r, hr, hd⟩ := @ih (addr + 1) (s.pass unset addr).2 (hn'.2 hn) (by omega)
        exact ⟨r, hr, fun s' he => Nat.lt_trans (hd s' he) hless⟩
    · refine ⟨_, rfl, fun s' he => ?_⟩
      have hp : s.pass unset addr = (atSign, s') := Except.ok.inj he
      rw [hp] at hend
      refine hend.length_lt hn fun hnil => ?_
      have hne : atSign ≠ eof := by decide
      cases hend with
      | done he => exact hne he
      | eof text he => exact hne he
      | «at» text _ _ _ heq | alnum text _ _ _ heq hne => simp_all
    · exact ⟨_, rfl, fun s' he => by cases he⟩

def Loader.addressed (s : Loader) : Loader := { s with stdin := (scanHex s.stdin).2 }

theorem readSegments_at (n : ℕ) : readSegments unset (n + 1) atSign s =
    match readBytes unset n (readNum unset s.stdin).1 s.addressed with
    | none => none
    | some (.error f) => some (.error f)
    | some (.ok (c, s)) => if c = eof then some (.ok s) else readSegments unset n c s := rfl

theorem atMark_addressed {P : List Byte → Prop} :
    AtMark P s.addressed.stdin ↔ AtMark P s.stdin := by
  obtain ⟨text, heq, hno⟩ := scanHex_split s.stdin
  conv_rhs => rw [heq]
  exact (atMark_append hno).symm

theorem endsBare_segment :
    EndsBare (atSign :: s.stdin) ↔ s.addressed.stdin = [] ∨ EndsBare s.addressed.stdin := by
  rw [EndsBare, atMark_at, bare_iff, ← atMark_addressed]
  rfl

theorem overruns_segment : Overruns unset (atSign :: s.stdin) ↔
    memSize < s.addressed.writesTo (readNum unset s.stdin).1 ∨
      Overruns unset s.addressed.stdin := by
  rw [Overruns, atMark_at, ← atMark_addressed]
  rfl

/-- The loader comes to an end only if every run is a number, or past the end of memory. -/
theorem readSegments_some {r : Except Fault Loader}
    (h : readSegments unset n atSign s = some r) :
    (r = .error .outOfBounds ∧ (Numeric s.stdin → Overruns unset (atSign :: s.stdin))) ∨
    (Numeric s.stdin ∧ ¬Overruns unset (atSign :: s.stdin) ∧ ∃ s', r = .ok s' ∧
      (s'.Progressed ↔ s.Progressed ∧ ¬EndsBare (atSign :: s.stdin))) := by
  induction n generalizing s with
  | zero => cases h
  | succ n ih =>
    have hnum : Numeric s.addressed.stdin ↔ Numeric s.stdin := numeric_scanHex s.stdin
    rw [readSegments_at] at h
    cases hb : readBytes unset n (readNum unset s.stdin).1 s.addressed with
    | none => simp [hb] at h
    | some found =>
      rw [endsBare_segment, overruns_segment]
      cases readBytes_some hb with
      | outside hout =>
        simp only [hb] at h
        cases h
        exact .inl ⟨rfl, fun hn => .inl (hout (hnum.2 hn))⟩
      | «at» s₁ hn hmark hfit =>
        simp only [hb] at h
        rw [if_neg (show ¬atSign = eof by decide)] at h
        rw [EndsBare, Overruns, hmark, hmark, ← hnum, ← hn]
        rcases ih h with ⟨rfl, hout⟩ | ⟨hn₁, hin, s', hr, hprog⟩
        · exact .inl ⟨rfl, fun hn₁ => .inr (hout hn₁)⟩
        · refine .inr ⟨hn₁, ?_, s', hr, ?_⟩
          · rintro (hout | hout)
            · exact absurd (hfit (hn.1 hn₁)) (Nat.not_le.2 hout)
            · exact hin hout
          · rw [hprog, readBytes_progressed hb (hn.1 hn₁), not_or, and_assoc]
            rfl
      | done s₁ hn hmark hfit =>
        simp only [hb, ↓reduceIte] at h
        refine .inr ⟨hnum.1 hn, ?_, s₁, (Option.some.inj h).symm, ?_⟩
        · rintro (hout | hout)
          · exact absurd hfit (Nat.not_le.2 hout)
          · exact hmark _ hout
        · rw [readBytes_progressed hb hn, EndsBare, or_iff_left (hmark _)]
          rfl

theorem readSegments_isSome (hn : Numeric s.stdin) (hlt : s.stdin.length + 1 < n) :
    ∃ r, readSegments unset n atSign s = some r := by
  induction n generalizing s with
  | zero => exact absurd hlt (Nat.not_lt_zero _)
  | succ n ih =>
    have hnum : Numeric s.addressed.stdin := (numeric_scanHex s.stdin).2 hn
    have hlen : s.addressed.stdin.length ≤ s.stdin.length := by
      obtain ⟨text, heq, -⟩ := scanHex_split s.stdin
      have hsum := congrArg List.length heq
      rw [List.length_append] at hsum
      exact hsum ▸ Nat.le_add_left _ _
    obtain ⟨r, hb, hc⟩ :=
      @readBytes_isSome unset (readNum unset s.stdin).1 s.addressed n hnum (by omega)
    rw [readSegments_at, hb]
    cases readBytes_some hb with
    | outside => exact ⟨_, rfl⟩
    | «at» s₁ hn₁ =>
      have hless := hc s₁ rfl
      dsimp only
      rw [if_neg (show ¬atSign = eof by decide)]
      exact ih (hn₁.2 hnum) (by omega)
    | done s₁ => exact ⟨_, rfl⟩

/-- The loader fails its assertion, or it comes to an end and every pass of the byte
    loop has consumed a character. -/
def LoadsWithProgress (unset : List Byte → Word) (stdin : List Byte) : Prop :=
  ∃ n r, readToMemory unset n stdin = some r ∧
    (r = .error .assertion ∨ ∃ s, r = .ok s ∧ s.Progressed)

/-- The inputs on which the loader makes progress to its end: those that do not begin
    with a segment, and those whose letters and digits are all parts of numbers, that do
    not end in an address and whose segments end inside memory. -/
theorem loadsWithProgress_iff (unset : List Byte → Word) (stdin : List Byte) :
    LoadsWithProgress unset stdin ↔ stdin.head? ≠ some atSign ∨
      (Numeric stdin ∧ ¬EndsBare stdin ∧ ¬Overruns unset stdin) := by
  by_cases hhead : stdin.head? = some atSign
  · rw [or_iff_right (not_not.2 hhead)]
    obtain ⟨rest, rfl⟩ := List.head?_eq_some_iff.1 hhead
    have hload (n : ℕ) : readToMemory unset n (atSign :: rest) =
        readSegments unset n atSign ⟨rest, fun _ => 0, []⟩ := rfl
    have hnil : (⟨rest, fun _ => 0, []⟩ : Loader).Progressed := by
      intro pass hp
      cases hp
    rw [numeric_cons (by decide) (by decide)]
    constructor
    · rintro ⟨n, r, hr, hprog⟩
      rw [hload] at hr
      rcases readSegments_some hr with ⟨rfl, -⟩ | ⟨hn, hin, s', rfl, hiff⟩
      · rcases hprog with he | ⟨s, he, -⟩ <;> cases he
      · rcases hprog with he | ⟨s, he, hprog⟩
        · cases he
        · cases he
          exact ⟨hn, (hiff.1 hprog).2, hin⟩
    · rintro ⟨hn, hbare, hin⟩
      obtain ⟨r, hr⟩ := @readSegments_isSome unset ⟨rest, fun _ => 0, []⟩ (rest.length + 2) hn
        (Nat.lt_succ_self _)
      refine ⟨rest.length + 2, r, hr, .inr ?_⟩
      rcases readSegments_some hr with ⟨-, hout⟩ | ⟨-, -, s', he, hiff⟩
      · exact absurd (hout hn) hin
      · exact ⟨s', he, hiff.2 ⟨hnil, hbare⟩⟩
  · refine iff_of_true ⟨1, .error .assertion, ?_, .inl rfl⟩ (.inl hhead)
    have hc : (getchar stdin).1 ≠ atSign := by
      cases stdin with
      | nil => decide
      | cons c rest => exact fun h => hhead (congrArg some h)
    exact if_pos hc

/-- `@0 g`: the letter is read and pushed back again and again, until the bytes that
    are written for it reach the end of memory. -/
theorem not_loadsWithProgress_letter :
    ¬LoadsWithProgress (fun _ => 0) [0x40, 0x30, 0x20, 0x67] ∧
    ∀ n r, readToMemory (fun _ => 0) n [0x40, 0x30, 0x20, 0x67] = some r →
      r = .error .outOfBounds := by
  have hout : ∀ n r, readToMemory (fun _ => 0) n [0x40, 0x30, 0x20, 0x67] = some r →
      r = .error .outOfBounds := by
    intro n r hr
    rcases @readSegments_some (fun _ => 0) ⟨[0x30, 0x20, 0x67], fun _ => 0, []⟩ n r hr with
      ⟨he, -⟩ | ⟨hn, -⟩
    · exact he
    · exact absurd hn (by decide)
  refine ⟨?_, hout⟩
  rintro ⟨n, r, hr, hprog⟩
  rw [hout n r hr] at hprog
  rcases hprog with he | ⟨s, he, -⟩ <;> cases he

end

end TomasuloCpu
