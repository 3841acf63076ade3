import TomasuloCpu.Io

set_option autoImplicit false

/-!
# Characters and numbers

What `scanf("%x")` and the inner loop over `getchar` consume, and the inputs whose
letters and digits they get through.
-/
namespace TomasuloCpu

/-- A text that is a hexadecimal number, or the prefix of one. -/
def isNumber (text : List Byte) : Bool :=
  text.takeWhile isxdigit ≠ [] && (scanPrefix text).all isxdigit

/-- The maximal runs of letters and digits before a character that stops. -/
def runs (stop : Byte → Bool) (stdin : List Byte) : List (List Byte) :=
  ((stdin.takeWhile fun c => !stop c).splitOnP fun c => !isalnum c).filter fun run => run ≠ []

def isEof (c : Byte) : Bool := c = eof

/-- The byte loop ends at such a character. -/
def isMark (c : Byte) : Bool := c = atSign || c = eof

def Numeric (stdin : List Byte) : Prop := ∀ run ∈ runs isEof stdin, isNumber run = true

instance (stdin : List Byte) : Decidable (Numeric stdin) :=
  inferInstanceAs (Decidable (∀ run ∈ runs isEof stdin, _))

def byteRuns (stdin : List Byte) : ℕ := (runs isMark stdin).length

def Bare (stdin : List Byte) : Prop :=
  stdin.dropWhile isspace = [] ∨ isNumber (scanSign (stdin.dropWhile isspace)).2 = true

/-- What comes after a `@` before the end of the input. -/
def AtMark (P : List Byte → Prop) (stdin : List Byte) : Prop :=
  ∃ before after, stdin = before ++ atSign :: after ∧ eof ∉ before ∧ P after

/-- The input ends in an address without bytes. -/
def EndsBare (stdin : List Byte) : Prop := AtMark Bare stdin

/-- The address after the last one that is written for the segment that begins after a
    `@`: the first pass writes what it scans, every further run is a byte. -/
def segmentEnd (unset : List Byte → Word) (after : List Byte) : ℕ :=
  let (addr, text) := readNum unset after
  addr.toNat + 1 + byteRuns (readNum unset text).2

/-- A segment goes on past the end of memory. -/
def Overruns (unset : List Byte → Word) (stdin : List Byte) : Prop :=
  AtMark (fun after => memSize < segmentEnd unset after) stdin

theorem isalnum_of_isxdigit {c : Byte} (h : isxdigit c = true) : isalnum c = true := by
  revert c
  decide

theorem isalnum_false {c : Byte} (h : isspace c = true ∨ c = atSign ∨ c = eof) :
    isalnum c = false := by
  revert c
  decide

theorem isspace_ne {c : Byte} (h : isspace c = true) : c ≠ atSign ∧ c ≠ eof := by
  revert c
  decide

theorem isalnum_ne {c : Byte} (h : isalnum c = true) : c ≠ atSign ∧ c ≠ eof := by
  revert c
  decide

theorem sign_ne {c : Byte} (h : c = 0x2b ∨ c = 0x2d) :
    isalnum c = false ∧ c ≠ atSign ∧ c ≠ eof := by
  revert c
  decide

theorem isMark_of_isalnum {c : Byte} (h : isalnum c = true) :
    isMark c = false ∧ isEof c = false := by
  simpa [isMark, isEof] using isalnum_ne h

section
variable {c : Byte} {run stdin rest : List Byte} {stop : Byte → Bool}

@[simp] theorem runs_nil : runs stop [] = [] := by
  simp [runs]

theorem runs_cons_stop (h : stop c = true) : runs stop (c :: rest) = [] := by
  simp [runs, h]

/-- A character that is neither a letter nor a digit only separates runs. -/
theorem runs_cons (hc : isalnum c = false) (hs : stop c = false) :
    runs stop (c :: rest) = runs stop rest := by
  have hcut := List.splitOnP_append_cons (p := fun c => !isalnum c) []
    (rest.takeWhile fun c => !stop c) (show (!isalnum c) = true by simp [hc])
  simp only [runs, List.takeWhile_cons, hs, Bool.not_false, ↓reduceIte]
  rw [List.nil_append] at hcut
  simp [hcut]

theorem runs_append (hrun : ∀ c ∈ run, isalnum c = true ∧ stop c = false)
    (hrest : ∀ c ∈ rest.head?, isalnum c = false) :
    runs stop (run ++ rest) = (if run = [] then [] else [run]) ++ runs stop rest := by
  have hsingle : run.splitOnP (fun c => !isalnum c) = [run] :=
    List.splitOnP_eq_singleton fun c hc => by simp [(hrun c hc).1]
  have hlast : ((run.splitOnP fun c => !isalnum c).filter fun run => run ≠ []) =
      if run = [] then [] else [run] := by
    rw [hsingle]
    split_ifs with h <;> simp [h]
  have htake : (run ++ rest).takeWhile (fun c => !stop c) =
      run ++ rest.takeWhile fun c => !stop c :=
    List.takeWhile_append_of_pos fun c hc => by simp [(hrun c hc).2]
  rw [runs, htake]
  cases rest with
  | nil => simpa using hlast
  | cons c rest =>
    cases hs : stop c
    · have hcut := List.splitOnP_append_cons (p := fun c => !isalnum c) run
        (rest.takeWhile fun c => !stop c) (show (!isalnum c) = true by simp [hrest c rfl])
      rw [runs_cons (hrest c rfl) hs, List.takeWhile_cons, hs, Bool.not_false, if_pos rfl, hcut,
        List.filter_append, hlast]
      rfl
    · rw [runs_cons_stop hs, List.append_nil, List.takeWhile_cons, hs]
      simpa using hlast

theorem runs_skip (h : ∀ c ∈ run, isalnum c = false ∧ stop c = false) :
    runs stop (run ++ stdin) = runs stop stdin := by
  induction run with
  | nil => rfl
  | cons c run ih =>
    obtain ⟨hc, hs⟩ := h c List.mem_cons_self
    rw [List.cons_append, runs_cons hc hs]
    exact ih fun c hc => h c (List.mem_cons_of_mem _ hc)

theorem numeric_nil : Numeric [] := by decide

theorem numeric_eof : Numeric (eof :: stdin) := by
  rw [Numeric, runs_cons_stop (by decide)]
  simp

theorem numeric_cons (hc : isalnum c = false) (he : c ≠ eof) :
    Numeric (c :: rest) ↔ Numeric rest := by
  rw [Numeric, runs_cons hc (by simpa [isEof] using he)]
  rfl

theorem numeric_append (hrun : ∀ c ∈ run, isalnum c = true)
    (hrest : ∀ c ∈ rest.head?, isalnum c = false) :
    Numeric (run ++ rest) ↔ (run = [] ∨ isNumber run = true) ∧ Numeric rest := by
  rw [Numeric, runs_append (fun c hc => ⟨hrun c hc, (isMark_of_isalnum (hrun c hc)).2⟩) hrest]
  by_cases h : run = [] <;> simp [h, Numeric]

theorem byteRuns_append (hrun : ∀ c ∈ run, isalnum c = true)
    (hrest : ∀ c ∈ rest.head?, isalnum c = false) :
    byteRuns (run ++ rest) = (if run = [] then 0 else 1) + byteRuns rest := by
  rw [byteRuns, runs_append (fun c hc => ⟨hrun c hc, (isMark_of_isalnum (hrun c hc)).1⟩) hrest]
  split_ifs <;> simp [byteRuns, Nat.add_comm]

end

section
variable {run rest text stdin : List Byte}

theorem scanPrefix_append (h : run ≠ []) (hrest : ∀ c ∈ rest.head?, isalnum c = false) :
    scanPrefix (run ++ rest) = scanPrefix run ++ rest := by
  match run with
  | [] => exact absurd rfl h
  | [c] =>
    cases rest with
    | nil => rfl
    | cons x rest =>
      have hx : ¬(x = 0x58 ∨ x = 0x78) := by
        rintro (rfl | rfl)
        · exact absurd (hrest _ rfl) (by decide)
        · exact absurd (hrest _ rfl) (by decide)
      exact if_neg fun hp => hx hp.2
  | c :: x :: run =>
    simp only [List.cons_append, scanPrefix]
    split <;> rfl

theorem scanPrefix_suffix (text : List Byte) : scanPrefix text <:+ text := by
  unfold scanPrefix
  split
  · split
    · exact (List.suffix_cons _ _).trans (List.suffix_cons _ _)
    · exact List.suffix_rfl
  · exact List.suffix_rfl

theorem isNumber_iff : isNumber run = true ↔
    run.takeWhile isxdigit ≠ [] ∧ (scanPrefix run).dropWhile isxdigit = [] := by
  rw [isNumber, Bool.and_eq_true, decide_eq_true_eq, List.dropWhile_eq_nil_iff, List.all_eq_true]

/-- What is left of a run after the digits it begins with is not a number. -/
theorem not_isNumber_dropWhile (h : text.dropWhile isxdigit ≠ []) :
    isNumber (text.dropWhile isxdigit) = false := by
  obtain ⟨c, rest, he⟩ := List.exists_cons_of_ne_nil h
  have hc : isxdigit c = false := by
    have hhead := List.head_dropWhile_not isxdigit h
    simpa [he] using hhead
  rw [he, isNumber]
  simp [hc]

theorem takeWhile_append_stop {p : Byte → Bool} (hrest : ∀ c ∈ rest.head?, p c = false) :
    (run ++ rest).takeWhile p = run.takeWhile p ∧
      (run ++ rest).dropWhile p = run.dropWhile p ++ rest := by
  induction run with
  | nil =>
    cases rest with
    | nil => exact ⟨rfl, rfl⟩
    | cons c rest =>
      have hc := hrest c rfl
      simp [hc]
  | cons c run ih =>
    cases hc : p c
    · simp [hc]
    · simp [hc, ih]

def Blank (text : List Byte) : Prop := ∀ c ∈ text, isalnum c = false ∧ c ≠ atSign ∧ c ≠ eof

theorem blank_space (stdin : List Byte) : Blank (stdin.takeWhile isspace) := by
  intro c hc
  have hs := List.mem_takeWhile_imp hc
  exact ⟨isalnum_false (.inl hs), isspace_ne hs⟩

theorem Blank.append (h : Blank run) (h' : Blank rest) : Blank (run ++ rest) := by
  intro c hc
  rcases List.mem_append.1 hc with hc | hc
  · exact h c hc
  · exact h' c hc

theorem numeric_blank (h : Blank run) : Numeric (run ++ stdin) ↔ Numeric stdin := by
  rw [Numeric, runs_skip fun c hc => ⟨(h c hc).1, by simpa [isEof] using (h c hc).2.2⟩]
  rfl

theorem byteRuns_blank (h : Blank run) : byteRuns (run ++ stdin) = byteRuns stdin := by
  rw [byteRuns, runs_skip fun c hc => ⟨(h c hc).1, by simpa [isMark] using (h c hc).2⟩]
  rfl

theorem scanSign_split (item : List Byte) : ∃ sign, item = sign ++ (scanSign item).2 ∧
    Blank sign ∧ (sign = [] ∨ ∀ c ∈ item.head?, isalnum c = false) := by
  cases item with
  | nil => exact ⟨[], rfl, by simp [Blank], .inl rfl⟩
  | cons c text =>
    simp only [scanSign]
    split_ifs with hp hm
    · have hs := sign_ne (.inl hp)
      exact ⟨[c], rfl, by simpa [Blank] using hs, .inr (by simpa using hs.1)⟩
    · have hs := sign_ne (.inr hm)
      exact ⟨[c], rfl, by simpa [Blank] using hs, .inr (by simpa using hs.1)⟩
    · exact ⟨[], rfl, by simp [Blank], .inl rfl⟩

/-- The run of letters and digits that a conversion meets, and what it makes of it. -/
structure Scanned (stdin skipped run rest : List Byte) : Prop where
  eq : stdin = skipped ++ (run ++ rest)
  blank : Blank skipped
  alnum : ∀ c ∈ run, isalnum c = true
  stop : ∀ c ∈ rest.head?, isalnum c = false
  result :
    (run.takeWhile isxdigit ≠ [] ∧
      (scanHex stdin).2 = (scanPrefix run).dropWhile isxdigit ++ rest) ∨
    (run.takeWhile isxdigit = [] ∧
      ∃ space, stdin = space ++ (scanHex stdin).2 ∧ Blank space ∧
        ((scanHex stdin).2 = run ++ rest ∨ ∀ c ∈ (scanHex stdin).2.head?, isalnum c = false))

theorem scanned (stdin : List Byte) : ∃ skipped run rest, Scanned stdin skipped run rest := by
  obtain ⟨sign, hsign, hblank, hhead⟩ := scanSign_split (stdin.dropWhile isspace)
  generalize htext : (scanSign (stdin.dropWhile isspace)).2 = text at hsign
  have hspace : stdin = stdin.takeWhile isspace ++ stdin.dropWhile isspace :=
    List.takeWhile_append_dropWhile.symm
  have hrun : text.takeWhile isalnum ++ text.dropWhile isalnum = text :=
    List.takeWhile_append_dropWhile
  have halnum : ∀ c ∈ text.takeWhile isalnum, isalnum c = true := fun c hc =>
    List.mem_takeWhile_imp hc
  have hstop : ∀ c ∈ (text.dropWhile isalnum).head?, isalnum c = false := by
    intro c hc
    have hnot := List.head?_dropWhile_not isalnum text
    rw [Option.mem_def.1 hc] at hnot
    simpa using hnot
  generalize text.takeWhile isalnum = run at hrun halnum
  generalize text.dropWhile isalnum = rest at hrun hstop
  refine ⟨stdin.takeWhile isspace ++ sign, run, rest, ?_, (blank_space stdin).append hblank,
    halnum, hstop, ?_⟩
  · rw [hrun, List.append_assoc, ← hsign]
    exact hspace
  have hxstop : ∀ c ∈ rest.head?, isxdigit c = false := by
    intro c hc
    by_contra hx
    have ha := isalnum_of_isxdigit (Bool.not_eq_false _ ▸ hx)
    rw [hstop c hc] at ha
    cases ha
  have htake := (@takeWhile_append_stop run rest isxdigit hxstop).1
  rw [hrun] at htake
  by_cases hd : run.takeWhile isxdigit = []
  · have hitem : (scanHex stdin).2 = stdin.dropWhile isspace := by
      simp only [scanHex, htext, htake, if_pos hd]
    refine .inr ⟨hd, ?_⟩
    rw [hitem]
    refine ⟨stdin.takeWhile isspace, hspace, blank_space stdin, ?_⟩
    rcases hhead with hnil | hhead
    · rw [hsign, hnil, hrun]
      exact .inl (List.nil_append text)
    · exact .inr hhead
  · have hr : run ≠ [] := by
      rintro rfl
      exact hd rfl
    have hpre := scanPrefix_append hr hstop
    rw [hrun] at hpre
    have hdrop := (@takeWhile_append_stop (scanPrefix run) rest isxdigit hxstop).2
    rw [← hpre] at hdrop
    refine .inl ⟨hd, ?_⟩
    simp only [scanHex, htext, htake, hdrop, if_neg hd]

theorem isNumber_iff_dropWhile (h : run.takeWhile isxdigit ≠ []) :
    isNumber run = true ↔ (scanPrefix run).dropWhile isxdigit = [] := by
  rw [isNumber_iff, and_iff_right h]

theorem dropWhile_scanPrefix_suffix : (scanPrefix run).dropWhile isxdigit <:+ run :=
  (List.dropWhile_suffix _).trans (scanPrefix_suffix run)

theorem numeric_scanHex (stdin : List Byte) : Numeric (scanHex stdin).2 ↔ Numeric stdin := by
  obtain ⟨skipped, run, rest, sc⟩ := scanned stdin
  rcases sc.result with ⟨hd, he⟩ | ⟨-, space, he, hblank, -⟩
  · have halnum : ∀ c ∈ (scanPrefix run).dropWhile isxdigit, isalnum c = true := fun c hc =>
      sc.alnum c (dropWhile_scanPrefix_suffix.mem hc)
    have hr : run ≠ [] := by
      rintro rfl
      exact hd rfl
    have hleft : ((scanPrefix run).dropWhile isxdigit = [] ∨
        isNumber ((scanPrefix run).dropWhile isxdigit) = true) ↔ isNumber run = true := by
      rw [isNumber_iff_dropWhile hd]
      by_cases hnil : (scanPrefix run).dropWhile isxdigit = []
      · simp [hnil]
      · simp [hnil, not_isNumber_dropWhile hnil]
    rw [he, sc.eq, numeric_blank sc.blank, numeric_append halnum sc.stop,
      numeric_append sc.alnum sc.stop, hleft]
    simp [hr]
  · conv_rhs => rw [he]
    exact (numeric_blank hblank).symm

/-- In an input of numbers a conversion consumes the run that it meets. -/
theorem Scanned.run_eq {skipped : List Byte} (sc : Scanned stdin skipped run rest)
    (h : Numeric stdin) : run = [] ∨ run.takeWhile isxdigit ≠ [] ∧ (scanHex stdin).2 = rest := by
  rw [sc.eq, numeric_blank sc.blank, numeric_append sc.alnum sc.stop] at h
  refine h.1.imp_right fun hnumber => ?_
  obtain ⟨hd, hdrop⟩ := isNumber_iff.1 hnumber
  rcases sc.result with ⟨-, he⟩ | ⟨hnone, -⟩
  · rw [he, hdrop]
    exact ⟨hd, List.nil_append rest⟩
  · exact absurd hnone hd

/-- In an input of numbers a conversion stops where a run ends. -/
theorem scanHex_head (h : Numeric stdin) : ∀ c ∈ (scanHex stdin).2.head?, isalnum c = false := by
  obtain ⟨skipped, run, rest, sc⟩ := scanned stdin
  rcases sc.run_eq h with rfl | ⟨-, he⟩
  · rcases sc.result with ⟨hd, -⟩ | ⟨-, space, -, -, he | he⟩
    · exact absurd rfl hd
    · rw [he]
      exact sc.stop
    · exact he
  · rw [he]
    exact sc.stop

/-- At a letter or digit it consumes one run. -/
theorem byteRuns_scanHex {c : Byte} (h : Numeric (c :: stdin)) (hc : isalnum c = true) :
    byteRuns (c :: stdin) = 1 + byteRuns (scanHex (c :: stdin)).2 := by
  obtain ⟨skipped, run, rest, sc⟩ := scanned (c :: stdin)
  have hsk : skipped = [] := by
    cases skipped with
    | nil => rfl
    | cons d skipped =>
      have hd := (sc.blank d List.mem_cons_self).1
      rw [← (List.cons.inj sc.eq).1, hc] at hd
      cases hd
  have heq := sc.eq
  rw [hsk, List.nil_append] at heq
  have hrun : run ≠ [] := by
    rintro rfl
    have hd := sc.stop c (by rw [← List.nil_append rest, ← heq]; rfl)
    rw [hc] at hd
    cases hd
  have he := ((sc.run_eq h).resolve_left hrun).2
  rw [he, heq, byteRuns_append sc.alnum sc.stop, if_neg hrun]

theorem scanHex_split (stdin : List Byte) : ∃ text, stdin = text ++ (scanHex stdin).2 ∧
    ∀ c ∈ text, c ≠ atSign ∧ c ≠ eof := by
  obtain ⟨skipped, run, rest, sc⟩ := scanned stdin
  rcases sc.result with ⟨-, he⟩ | ⟨-, space, he, hblank, -⟩
  · obtain ⟨text, htext⟩ := @dropWhile_scanPrefix_suffix run
    refine ⟨skipped ++ text, ?_, ?_⟩
    · rw [he, List.append_assoc, ← List.append_assoc text, htext]
      exact sc.eq
    · intro c hc
      rcases List.mem_append.1 hc with hc | hc
      · exact (sc.blank c hc).2
      · refine isalnum_ne (sc.alnum c ?_)
        rw [← htext]
        exact List.mem_append_left _ hc
  · exact ⟨space, he, fun c hc => (hblank c hc).2⟩

theorem skipChars_cases (stdin : List Byte) : ∃ text, Blank text ∧
    ((skipChars stdin = (eof, []) ∧ stdin = text) ∨
      (stdin = text ++ (skipChars stdin).1 :: (skipChars stdin).2 ∧
        ((skipChars stdin).1 = atSign ∨ (skipChars stdin).1 = eof ∨
          isalnum (skipChars stdin).1 = true))) := by
  induction stdin with
  | nil => exact ⟨[], by simp [Blank], .inl ⟨rfl, rfl⟩⟩
  | cons c stdin ih =>
    by_cases hc : c ≠ atSign ∧ c ≠ eof ∧ !isalnum c
    · have hskip : skipChars (c :: stdin) = skipChars stdin := if_pos hc
      have hc' : isalnum c = false := by simpa using hc.2.2
      obtain ⟨text, hblank, h⟩ := ih
      refine ⟨c :: text, ?_, ?_⟩
      · intro d hd
        rcases List.mem_cons.1 hd with rfl | hd
        · exact ⟨hc', hc.1, hc.2.1⟩
        · exact hblank d hd
      · rw [hskip]
        rcases h with ⟨he, hs⟩ | ⟨hs, hm⟩
        · exact .inl ⟨he, congrArg (c :: ·) hs⟩
        · exact .inr ⟨congrArg (c :: ·) hs, hm⟩
    · have hskip : skipChars (c :: stdin) = (c, stdin) := if_neg hc
      refine ⟨[], by simp [Blank], .inr ?_⟩
      rw [hskip]
      refine ⟨rfl, ?_⟩
      by_contra hn
      apply hc
      simpa [not_or] using hn

end

end TomasuloCpu
