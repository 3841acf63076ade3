import TomasuloCpu.Isa
import TomasuloCpu.LoaderImage

set_option autoImplicit false

/-!
# Printed programs

From the text of a program on standard input to the number that `main` prints: words
that are printed byte by byte are fetched back, and what a hart makes of them is what
the build of the CPU prints.
-/
namespace TomasuloCpu
open Clocked Labelled

def wordBytes (w : Word) : List Byte := (List.range 4).map fun j => w.extractLsb' (8 * j) 8

def segmentsImage (segs : List Segment) : MemData :=
  writeCells (fun _ => 0) (segs.flatMap Segment.cells)

theorem getElem?_words (words : List Word) (k : ℕ) {j : ℕ} (hj : j < 4) :
    (words.flatMap wordBytes)[4 * k + j]? = words[k]?.map fun w => w.extractLsb' (8 * j) 8 := by
  induction words generalizing k with
  | nil => simp
  | cons w words ih =>
    have hlen : (wordBytes w).length = 4 := rfl
    rw [List.flatMap_cons]
    cases k with
    | zero =>
      rw [List.getElem?_append_left (by omega), wordBytes, List.getElem?_map,
        Nat.mul_zero, Nat.zero_add, List.getElem?_range hj]
      rfl
    | succ k =>
      have hsub : 4 * (k + 1) + j - (wordBytes w).length = 4 * k + j := by omega
      rw [List.getElem?_append_right (by omega), hsub, ih, List.getElem?_cons_succ]

theorem bytesAt_of_bytes {data : MemData} {a : ℕ} {w : Word}
    (h : ∀ j < 4, data (a + j) = w.extractLsb' (8 * j) 8) : bytesAt data a 4 = w := by
  have h0 := h 0 (by omega)
  have h1 := h 1 (by omega)
  have h2 := h 2 (by omega)
  have h3 := h 3 (by omega)
  simp only [bytesAt, Nat.add_assoc, Nat.reduceAdd]
  rw [← Nat.add_zero a, h0, h1, h2, h3]
  apply BitVec.eq_of_getLsbD_eq
  intro i hi
  simp only [BitVec.getLsbD_or, BitVec.getLsbD_setWidth, BitVec.getLsbD_shiftLeft,
    BitVec.getLsbD_extractLsb']
  interval_cases i <;> simp

theorem segmentsImage_eq {before after : List Segment} {seg : Segment}
    (hafter : ∀ x ∈ after.flatMap Segment.cells,
      x.1 < seg.start ∨ seg.start + seg.bytes.length ≤ x.1)
    {i : ℕ} {b : Byte} (hb : (seg.bytes.map PrintedByte.value)[i]? = some b) :
    segmentsImage (before ++ seg :: after) (seg.start + i) = b := by
  rw [List.getElem?_map, Option.map_eq_some_iff] at hb
  obtain ⟨printed, hget, rfl⟩ := hb
  have hi : i < seg.bytes.length := (List.getElem?_eq_some_iff.1 hget).1
  have hcell : seg.cells[i]? = some (seg.start + i, printed.value) := by
    simp [Segment.cells, List.getElem?_zipIdx, hget]
  obtain ⟨hlt, hcell⟩ := List.getElem?_eq_some_iff.1 hcell
  have hsplit : (before ++ seg :: after).flatMap Segment.cells =
      (before.flatMap Segment.cells ++ seg.cells.take i) ++
        (seg.start + i, printed.value) ::
          (seg.cells.drop (i + 1) ++ after.flatMap Segment.cells) := by
    rw [List.flatMap_append, List.flatMap_cons, ← hcell]
    conv_lhs => rw [← List.take_append_drop i seg.cells, List.drop_eq_getElem_cons hlt]
    simp only [List.append_assoc, List.cons_append]
  refine (holdsImage_writeCells _).last _ _ _ _ hsplit fun x hx => ?_
  rcases List.mem_append.1 hx with hx | hx
  · obtain ⟨j, hj, hx⟩ := List.mem_drop_iff_getElem.1 hx
    have hfst : x.1 = seg.start + (i + 1 + j) := by
      rw [← hx]
      simp [Segment.cells]
    omega
  · have := hafter x hx
    omega

theorem readToMemory_image {unset : List Byte → Word} {n : ℕ} {segs : List Segment}
    (hne : segs ≠ []) (hn : segmentFuel segs ≤ n) :
    ∃ s, readToMemory unset n (segs.flatMap Segment.print) = some (.ok s) ∧
      s.data = segmentsImage segs := by
  obtain ⟨seg, segs, rfl⟩ := List.exists_cons_of_ne_nil hne
  refine @readSegments_print unset ⟨((seg :: segs).flatMap Segment.print).tail, fun _ => 0, []⟩ n
    seg segs hn ?_
  rw [List.flatMap_cons, Segment.print]
  simp only [List.cons_append, List.tail_cons, List.append_assoc]

/-- The words of a program that is printed byte by byte are fetched from where they
    were printed to, if no later segment overlaps them. -/
theorem fetch_of_printed (unset : List Byte → Word) {before after : List Segment} {seg : Segment}
    {words : List Word} (hv : seg.bytes.map PrintedByte.value = words.flatMap wordBytes)
    (hafter : ∀ x ∈ after.flatMap Segment.cells,
      x.1 < seg.start ∨ seg.start + seg.bytes.length ≤ x.1)
    {n : ℕ} (hn : segmentFuel (before ++ seg :: after) ≤ n) :
    ∃ s, readToMemory unset n ((before ++ seg :: after).flatMap Segment.print) = some (.ok s) ∧
      ∀ k w, words[k]? = some w → memGetInst s.data (.ofNat 32 (seg.start + 4 * k)) = w := by
  obtain ⟨s, hread, hdata⟩ := @readToMemory_image unset n _ (by simp) hn
  refine ⟨s, hread, fun k w hk => ?_⟩
  have hbyte : ∀ j < 4, (seg.bytes.map PrintedByte.value)[4 * k + j]? =
      some (w.extractLsb' (8 * j) 8) := by
    intro j hj
    rw [hv, getElem?_words words k hj, hk]
    rfl
  have hlen : 4 * k + 3 < seg.bytes.length := by
    have h := (List.getElem?_eq_some_iff.1 (hbyte 3 (by omega))).1
    rwa [List.length_map] at h
  have hin := seg.inside
  have hsize : memSize = 131072 := rfl
  have haddr : (BitVec.ofNat 32 (seg.start + 4 * k)).toNat = seg.start + 4 * k := by
    rw [BitVec.toNat_ofNat]
    omega
  rw [memGetInst, haddr, hdata]
  apply bytesAt_of_bytes
  intro j hj
  rw [Nat.add_assoc]
  exact segmentsImage_eq hafter (hbyte j hj)

def hexDigitByte (n : ℕ) : Byte := .ofNat 8 (if n < 10 then 0x30 + n else 0x57 + n)

theorem hexDigitByte_spec : ∀ n < 16,
    isxdigit (hexDigitByte n) = true ∧ hexDigit (hexDigitByte n) = n := by
  decide

def byteNumeral (b : Byte) : Numeral b.toNat where
  digits := [hexDigitByte (b.toNat / 16), hexDigitByte (b.toNat % 16)]
  ne := by simp
  hex := by
    have hhigh := hexDigitByte_spec (b.toNat / 16) (by omega)
    have hlow := hexDigitByte_spec (b.toNat % 16) (by omega)
    simp [hhigh.1, hlow.1]
  value := by
    have hhigh := hexDigitByte_spec (b.toNat / 16) (by omega)
    have hlow := hexDigitByte_spec (b.toNat % 16) (by omega)
    simp only [hexNumber, List.foldl_cons, List.foldl_nil, hhigh.2, hlow.2]
    omega

def printByte (b : Byte) : PrintedByte :=
  ⟨[0x20], by decide, by decide, b, byteNumeral b⟩

/-- `@0 13 05 70 00 13 05 f0 0f`: 7 into `a0`, then HCF. -/
def resultSegment : Segment where
  start := 0
  addr := ⟨[0x30], by decide, by decide, by decide⟩
  bytes := ([0x00700513, instMagicHcf].flatMap wordBytes).map printByte
  bytes_ne := by decide
  trail := []
  isspace := by decide
  inside := by decide

theorem fetch_of_printed_result :
    ∃ s, readToMemory (fun _ => 0) 9 (resultSegment.print ++ []) = some (.ok s) ∧
      ∀ k w, [0x00700513, instMagicHcf][k]? = some w →
        memGetInst s.data (.ofNat 32 (0 + 4 * k)) = w :=
  @fetch_of_printed (fun _ => 0) [] [] resultSegment [0x00700513, instMagicHcf] (by decide)
    (by decide) 9 (by decide)

variable [WideShift]

/-- From text to text: if a hart brings a printed program to HCF, both builds of `main`
    print the low byte of its `a0`, unless an assertion fails on the CPU, which takes a
    word that is not executable. Where fetch and loads are inside memory, the CPU accesses
    nothing out of bounds. -/
theorem main_executes_rv32i (unset : List Byte → Word) {garbage : ℤ → ℤ → ℤ} {hist : ℤ}
    {os : List Schedule} {segs : List Segment} {is : List Rv32i} {h : Hart} {code : Addr → Prop}
    {k : ℕ} (ht : InTable hist) (hne : segs ≠ []) (hk : segmentFuel segs ≤ k)
    (hs : Steps (Hart.Step code) (Hart.start (segmentsImage segs)) is h)
    (hh : h.Fetches code instMagicHcf)
    (hw : LoopAll (fun o c => PushesForemost o c ∧ TakesLinks o c) os
      (cpuCreate (segmentsImage segs) garbage hist))
    (hin : LoopAll (fun _ c => (latch c).ReadsInside) os
      (cpuCreate (segmentsImage segs) garbage hist))
    (hn : (is.length + 1) * commitBound ≤ os.length) :
    fakeMain unset k (is.length + 1) (segs.flatMap Segment.print) =
        some (.ok (toString (h.x 10 &&& resultMask).toNat ++ "\n")) ∧
      LoopAll AccessesInside os (cpuCreate (segmentsImage segs) garbage hist) ∧
      (LoopAll DispatchesExecutable os (cpuCreate (segmentsImage segs) garbage hist) →
        cpuMain unset garbage hist k os (segs.flatMap Segment.print) =
          some (.ok (toString (h.x 10 &&& resultMask).toNat ++ "\n"))) ∧
      (cpuMain unset garbage hist k os (segs.flatMap Segment.print) =
          some (.ok (toString (h.x 10 &&& resultMask).toNat ++ "\n")) ∨
        cpuMain unset garbage hist k os (segs.flatMap Segment.print) =
          some (.error .assertion)) := by
  obtain ⟨s, hread, hdata⟩ := @readToMemory_image unset k _ hne hk
  obtain ⟨cpu, ha, hrun, -, htick, hgoes⟩ := fakeCpu_of_steps hs hh
  simp only [fakeMain, cpuMain, hread, hdata]
  refine ⟨?_, loopAll_accesses ht hgoes hw hin, ?_⟩
  · have hten : cpu.regs 10 = h.x 10 := by
      rw [← ha.hart]
      rfl
    rw [(FakeCpu.run_succ hrun ha.running).trans htick, ← toInt_and_mask, ← hten]
    rfl
  · have hgoes := hgoes.imp fun _ h => h.2
    cases hl : cpuLoop os (machineCreate (segmentsImage segs) garbage hist) with
    | error f =>
      obtain rfl := error_of_cpuLoop hgoes hw hl
      refine ⟨fun hd => ?_, .inr rfl⟩
      obtain ⟨m, hm⟩ := cpuLoop_of_always hgoes hw hd
      rw [hl] at hm
      cases hm
    | ok m =>
      obtain ⟨hhcf, -, -, cpu, ha, sim⟩ := simulates_of_steps hs hh hw hl hn
      have hten : regStoreGet m.read resultRegId = h.x 10 := regStoreGet_of_at ha sim hl hhcf 10
      simp only [hhcf, ↓reduceIte, writeResult, hten, implies_true, true_or, and_self]

def resultHart : Hart := (Hart.start (segmentsImage [resultSegment])).exec (.imm .addi 10 0 7)

omit [WideShift] in
theorem main_executes_rv32i_result :
    @fakeMain .masked (fun _ => 0) 9 2 ([resultSegment].flatMap Segment.print) =
        some (.ok (toString (resultHart.x 10 &&& resultMask).toNat ++ "\n")) ∧
      @cpuMain .masked (fun _ => 0) (fun _ _ => 0) 0 9 (bootTicks 448)
          ([resultSegment].flatMap Segment.print) =
        some (.ok (toString (resultHart.x 10 &&& resultMask).toNat ++ "\n")) :=
  have h := @main_executes_rv32i .masked (fun _ => 0) (fun _ _ => 0) 0 (bootTicks 448)
    [resultSegment] [.imm .addi 10 0 7] resultHart (fun a => a.toNat < 8) 9 (by decide) (by simp)
    (by decide)
    (.cons ⟨⟨by decide, by decide, by decide +kernel⟩,
      ⟨by decide, trivial, trivial, fun _ h => by cases h⟩, trivial, rfl⟩ .nil)
    ⟨by decide +kernel, by decide +kernel, by decide +kernel⟩ (by decide +kernel)
    (by decide +kernel) (by decide +kernel)
  ⟨h.1, h.2.2.1 (by decide +kernel)⟩

end TomasuloCpu
