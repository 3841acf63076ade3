import Mathlib.Algebra.Ring.Nat
import TomasuloCpu.LoaderProgress

set_option autoImplicit false

/-!
# Reading back a printed image

An image is printed as segments: `@` and an address, then bytes, all hexadecimal
with white space between them.
-/
namespace TomasuloCpu
open Clocked

structure Numeral (n : ℕ) where
  digits : List Byte
  ne : digits ≠ []
  hex : ∀ c ∈ digits, isxdigit c = true
  value : hexNumber digits = n

structure PrintedByte where
  space : List Byte
  space_ne : space ≠ []
  isspace : ∀ c ∈ space, TomasuloCpu.isspace c = true
  value : Byte
  numeral : Numeral value.toNat

structure Segment where
  start : ℕ
  addr : Numeral start
  bytes : List PrintedByte
  bytes_ne : bytes ≠ []
  trail : List Byte
  isspace : ∀ c ∈ trail, TomasuloCpu.isspace c = true
  inside : start + bytes.length ≤ memSize

def PrintedByte.print (b : PrintedByte) : List Byte := b.space ++ b.numeral.digits

namespace Segment

def print (seg : Segment) : List Byte :=
  atSign :: seg.addr.digits ++ seg.bytes.flatMap PrintedByte.print ++ seg.trail

def cells (seg : Segment) : List (ℕ × Byte) :=
  (seg.bytes.zipIdx seg.start).map fun x => (x.2, x.1.value)

end Segment

/-- Each address has the last byte that a segment gives for it, and 0 if none does. -/
structure HoldsImage (segs : List Segment) (data : MemData) : Prop where
  last : ∀ before after a b, segs.flatMap Segment.cells = before ++ (a, b) :: after →
    (∀ x ∈ after, x.1 ≠ a) → data a = b
  zero : ∀ a, (∀ x ∈ segs.flatMap Segment.cells, x.1 ≠ a) → data a = 0

def writeCells (data : MemData) (cells : List (ℕ × Byte)) : MemData :=
  cells.foldl (fun data x => Function.update data x.1 x.2) data

section
variable {data : MemData} {cells before after : List (ℕ × Byte)} {a : ℕ} {b : Byte}

theorem writeCells_other (h : ∀ x ∈ cells, x.1 ≠ a) : writeCells data cells a = data a := by
  induction cells generalizing data with
  | nil => rfl
  | cons x cells ih =>
    have hx := h x List.mem_cons_self
    rw [writeCells, List.foldl_cons]
    exact (ih fun y hy => h y (List.mem_cons_of_mem _ hy)).trans (Function.update_of_ne hx.symm _ _)

theorem writeCells_last (h : ∀ x ∈ after, x.1 ≠ a) :
    writeCells data (before ++ (a, b) :: after) a = b := by
  rw [writeCells, List.foldl_append, List.foldl_cons]
  exact (writeCells_other h).trans (Function.update_self _ _ _)

theorem holdsImage_writeCells (segs : List Segment) :
    HoldsImage segs (writeCells (fun _ => 0) (segs.flatMap Segment.cells)) where
  last before after a b heq h := by
    rw [heq]
    exact writeCells_last h
  zero a h := writeCells_other h

end

section
variable {n : ℕ} {space stdin rest : List Byte}

theorem dropWhile_isspace (hs : ∀ c ∈ space, isspace c = true)
    (h : ∀ c ∈ stdin.head?, isspace c = false) : (space ++ stdin).dropWhile isspace = stdin := by
  rw [List.dropWhile_append_of_pos hs]
  cases stdin with
  | nil => rfl
  | cons c stdin => exact List.dropWhile_cons_of_neg (by simp [h c rfl])

theorem isxdigit_ne {c : Byte} (h : isxdigit c = true) :
    isspace c = false ∧ c ≠ 0x2b ∧ c ≠ 0x2d ∧ c ≠ 0x58 ∧ c ≠ 0x78 := by
  revert c
  decide

theorem scanHex_numeral (num : Numeral n) (hn : n ≤ ulongMax) (hs : ∀ c ∈ space, isspace c = true)
    (hrest : ∀ c ∈ rest.head?, isalnum c = false) :
    scanHex (space ++ (num.digits ++ rest)) = (some (.ofNat 32 n), rest) := by
  have hxstop : ∀ c ∈ rest.head?, isxdigit c = false := by
    intro c hc
    by_contra hx
    have ha := isalnum_of_isxdigit (Bool.not_eq_false _ ▸ hx)
    rw [hrest c hc] at ha
    cases ha
  obtain ⟨c, digits, hd⟩ := List.exists_cons_of_ne_nil num.ne
  have hc := isxdigit_ne (num.hex c (by simp [hd]))
  have hitem : (space ++ (num.digits ++ rest)).dropWhile isspace = num.digits ++ rest := by
    refine dropWhile_isspace hs fun d hd' => ?_
    rw [hd] at hd'
    cases hd'
    exact hc.1
  have hsign : scanSign (num.digits ++ rest) = (false, num.digits ++ rest) := by
    rw [hd, List.cons_append, scanSign, if_neg hc.2.1, if_neg hc.2.2.1]
  have hprefix : scanPrefix num.digits = num.digits := by
    rw [hd]
    cases digits with
    | nil => rfl
    | cons x digits =>
      have hx := isxdigit_ne (num.hex x (by simp [hd]))
      exact if_neg fun h => h.2.elim hx.2.2.2.1 hx.2.2.2.2
  obtain ⟨htake, hdrop⟩ := @takeWhile_append_stop num.digits rest isxdigit hxstop
  rw [List.takeWhile_eq_self_iff.2 num.hex] at htake
  rw [List.dropWhile_eq_nil_iff.2 num.hex, List.nil_append] at hdrop
  simp only [scanHex, hitem, hsign, scanPrefix_append num.ne hrest, hprefix, htake, hdrop,
    if_neg num.ne, num.value, scanValue, if_neg (Nat.not_lt.2 hn), Bool.false_eq_true, ↓reduceIte]

theorem skipChars_space (hs : ∀ c ∈ space, isspace c = true) :
    skipChars (space ++ stdin) = skipChars stdin := by
  induction space with
  | nil => rfl
  | cons c space ih =>
    have hc := hs c List.mem_cons_self
    have hskip : c ≠ atSign ∧ c ≠ eof ∧ !isalnum c := by
      obtain ⟨ha, he⟩ := isspace_ne hc
      exact ⟨ha, he, by simp [isalnum_false (.inl hc)]⟩
    rw [List.cons_append, skipChars, if_pos hskip]
    exact ih fun d hd => hs d (List.mem_cons_of_mem _ hd)

theorem skipChars_alnum {c : Byte} (h : isalnum c = true) :
    skipChars (c :: stdin) = (c, stdin) :=
  if_neg fun hc => by simp [h] at hc

theorem skipChars_mark {tail : List Byte} (h : ∀ c ∈ tail.head?, c = atSign) :
    skipChars tail = (tail.head?.getD eof, tail.tail) := by
  cases tail with
  | nil => rfl
  | cons c tail =>
    have hc := h c rfl
    exact if_neg fun hne => hne.1 hc

end

section
variable {unset : List Byte → Word} {addr : Addr} {s : Loader} {space trail tail stdin : List Byte}

theorem pass_of_scan {w : Word} {rest : List Byte} (h : scanHex s.stdin = (some w, rest)) :
    (s.pass unset addr).1 = (skipChars rest).1 ∧
      (s.pass unset addr).2.data = Function.update s.data addr.toNat (w.setWidth 8) ∧
      (s.pass unset addr).2.stdin =
        if isalnum (skipChars rest).1 then ungetc (skipChars rest).1 (skipChars rest).2
        else (skipChars rest).2 := by
  simp only [Loader.pass, readNum, h, Option.getD_some, and_self]

theorem setWidth_value (b : PrintedByte) :
    (BitVec.ofNat 32 b.value.toNat).setWidth 8 = b.value := by
  have hlt := b.value.isLt
  apply BitVec.eq_of_toNat_eq
  rw [BitVec.toNat_setWidth, BitVec.toNat_ofNat]
  omega

theorem PrintedByte.value_le (b : PrintedByte) : b.value.toNat ≤ ulongMax :=
  b.value.isLt.le.trans (by decide)

theorem head_after (bs : List PrintedByte) (hs : ∀ c ∈ trail, isspace c = true)
    (ht : ∀ c ∈ tail.head?, c = atSign) :
    ∀ c ∈ (bs.flatMap PrintedByte.print ++ (trail ++ tail)).head?, isalnum c = false := by
  intro c hc
  cases bs with
  | nil =>
    cases trail with
    | nil => exact isalnum_false (.inr (.inl (ht c hc)))
    | cons d trail =>
      cases hc
      exact isalnum_false (.inl (hs c List.mem_cons_self))
  | cons b bs =>
    obtain ⟨d, space, hd⟩ := List.exists_cons_of_ne_nil b.space_ne
    rw [List.flatMap_cons, PrintedByte.print, hd] at hc
    cases hc
    exact isalnum_false (.inl (b.isspace c (by simp [hd])))

theorem readBytes_print {n : ℕ} {b : PrintedByte} {bs : List PrintedByte}
    (hn : bs.length < n) (ha : addr.toNat + bs.length < memSize)
    (hspace : ∀ c ∈ space, isspace c = true) (hs : ∀ c ∈ trail, isspace c = true)
    (ht : ∀ c ∈ tail.head?, c = atSign)
    (hin : s.stdin = space ++ (b.numeral.digits ++ (bs.flatMap PrintedByte.print ++
      (trail ++ tail)))) :
    ∃ s', readBytes unset n addr s = some (.ok (tail.head?.getD eof, s')) ∧ s'.stdin = tail.tail ∧
      s'.data = writeCells s.data
        (((b :: bs).zipIdx addr.toNat).map fun x => (x.2, x.1.value)) := by
  induction bs generalizing n b addr space s with
  | nil =>
    obtain ⟨n, rfl⟩ := Nat.exists_eq_add_one.2 hn
    have hscan := scanHex_numeral b.numeral b.value_le hspace (head_after [] hs ht)
    rw [← hin] at hscan
    have hskip : skipChars (([] : List PrintedByte).flatMap PrintedByte.print ++ (trail ++ tail)) =
        (tail.head?.getD eof, tail.tail) := by
      rw [List.flatMap_nil, List.nil_append, skipChars_space hs, skipChars_mark ht]
    have hmark : tail.head?.getD eof = atSign ∨ tail.head?.getD eof = eof := by
      cases tail with
      | nil => exact .inr rfl
      | cons c tail => exact .inl (ht c rfl)
    obtain ⟨hc, hdata, hstdin⟩ := @pass_of_scan unset addr s _ _ hscan
    rw [hskip] at hc hstdin
    have hstop : ¬((s.pass unset addr).1 ≠ atSign ∧ (s.pass unset addr).1 ≠ eof) := by
      rw [hc]
      rcases hmark with h | h
      · exact fun hne => hne.1 h
      · exact fun hne => hne.2 h
    have halnum : isalnum (tail.head?.getD eof) = false := isalnum_false (.inr hmark)
    refine ⟨(s.pass unset addr).2, ?_, ?_, ?_⟩
    · rw [readBytes_succ, if_pos (show addr.toNat < memSize from ha), if_neg hstop]
      exact congrArg (fun x => some (Except.ok x)) (Prod.ext hc rfl)
    · rw [hstdin]
      simp [halnum]
    · rw [hdata, setWidth_value]
      rfl
  | cons b' bs ih =>
    obtain ⟨n, rfl⟩ := Nat.exists_eq_add_one.2 (Nat.lt_of_le_of_lt (Nat.zero_le _) hn)
    have hscan := scanHex_numeral b.numeral b.value_le hspace (head_after (b' :: bs) hs ht)
    rw [← hin] at hscan
    obtain ⟨d, digits, hd⟩ := List.exists_cons_of_ne_nil b'.numeral.ne
    have hdalnum := isalnum_of_isxdigit (b'.numeral.hex d (by simp [hd]))
    have hskip : skipChars ((b' :: bs).flatMap PrintedByte.print ++ (trail ++ tail)) =
        (d, digits ++ (bs.flatMap PrintedByte.print ++ (trail ++ tail))) := by
      rw [List.flatMap_cons, PrintedByte.print, List.append_assoc, List.append_assoc,
        skipChars_space b'.isspace, hd, List.cons_append, skipChars_alnum hdalnum]
    obtain ⟨hc, hdata, hstdin⟩ := @pass_of_scan unset addr s _ _ hscan
    rw [hskip] at hc hstdin
    simp only [hdalnum, ↓reduceIte, ungetc] at hstdin
    have hgo : (s.pass unset addr).1 ≠ atSign ∧ (s.pass unset addr).1 ≠ eof := by
      rw [hc]
      exact isalnum_ne hdalnum
    rw [List.length_cons] at hn ha
    have hin : addr.toNat < memSize := by omega
    have hnext := addr_add_one hin
    obtain ⟨s', hread, hrest, hwrite⟩ :=
      @ih (addr + 1) (s.pass unset addr).2 [] n b' (by omega) (by omega) (by simp)
        (by rw [hstdin, hd]; rfl)
    refine ⟨s', ?_, hrest, ?_⟩
    · rw [readBytes_succ, if_pos hin, if_pos hgo, hread]
    · rw [hwrite, hdata, setWidth_value, hnext]
      rfl

theorem head_print (segs : List Segment) :
    ∀ c ∈ (segs.flatMap Segment.print).head?, c = atSign := by
  intro c hc
  cases segs with
  | nil => cases hc
  | cons seg segs =>
    cases hc
    rfl

def segmentFuel (segs : List Segment) : ℕ := (segs.map fun seg => seg.bytes.length + 1).sum

theorem readBytes_segment {n : ℕ} (seg : Segment) (hn : seg.bytes.length ≤ n)
    (ht : ∀ c ∈ tail.head?, c = atSign)
    (hin : s.stdin = seg.addr.digits ++ (seg.bytes.flatMap PrintedByte.print ++
      (seg.trail ++ tail))) :
    ∃ s', readBytes unset n (readNum unset s.stdin).1 s.addressed =
        some (.ok (tail.head?.getD eof, s')) ∧
      s'.stdin = tail.tail ∧ s'.data = writeCells s.data seg.cells := by
  have hinside := seg.inside
  have hstart : seg.start ≤ ulongMax :=
    (Nat.le_of_add_right_le hinside).trans (by decide)
  have hscan := @scanHex_numeral _ [] _ seg.addr hstart (by simp)
    (head_after seg.bytes seg.isspace ht)
  rw [List.nil_append, ← hin] at hscan
  have haddr : (readNum unset s.stdin).1 = .ofNat 32 seg.start := by
    simp only [readNum, hscan, Option.getD_some]
  have hstart : (readNum unset s.stdin).1.toNat = seg.start := by
    rw [haddr, BitVec.toNat_ofNat]
    exact Nat.mod_eq_of_lt (Nat.lt_of_le_of_lt (Nat.le_of_add_right_le hinside) (by decide))
  have hrest : s.addressed.stdin =
      seg.bytes.flatMap PrintedByte.print ++ (seg.trail ++ tail) := by
    rw [Loader.addressed, hscan]
  obtain ⟨b, bs, hbytes⟩ := List.exists_cons_of_ne_nil seg.bytes_ne
  have hlen : seg.bytes.length = bs.length + 1 := by
    rw [hbytes, List.length_cons]
  obtain ⟨s', hread, hstdin, hdata⟩ :=
    @readBytes_print unset (readNum unset s.stdin).1 s.addressed b.space seg.trail tail n b bs
      (by omega) (by omega) b.isspace seg.isspace ht (by
        rw [hrest, hbytes, List.flatMap_cons, PrintedByte.print]
        simp only [List.append_assoc])
  refine ⟨s', hread, hstdin, ?_⟩
  rw [hdata, hstart, Segment.cells, hbytes]
  rfl

theorem readSegments_print {n : ℕ} {seg : Segment} {segs : List Segment}
    (hn : segmentFuel (seg :: segs) ≤ n)
    (hin : s.stdin = seg.addr.digits ++ (seg.bytes.flatMap PrintedByte.print ++
      (seg.trail ++ segs.flatMap Segment.print))) :
    ∃ s', readSegments unset n atSign s = some (.ok s') ∧
      s'.data = writeCells s.data ((seg :: segs).flatMap Segment.cells) := by
  induction segs generalizing n seg s with
  | nil =>
    have hfuel : segmentFuel [seg] = seg.bytes.length + 1 := rfl
    obtain ⟨n, rfl⟩ : ∃ m, n = m + 1 := ⟨n - 1, by omega⟩
    obtain ⟨s', hread, -, hdata⟩ :=
      @readBytes_segment unset s _ n seg (by omega) (head_print []) hin
    refine ⟨s', ?_, ?_⟩
    · rw [readSegments_at, hread]
      rfl
    · rw [hdata, List.flatMap_cons, List.flatMap_nil, List.append_nil]
  | cons seg' segs ih =>
    have hfuel : segmentFuel (seg :: seg' :: segs) =
        seg.bytes.length + 1 + segmentFuel (seg' :: segs) := rfl
    obtain ⟨n, rfl⟩ : ∃ m, n = m + 1 := ⟨n - 1, by omega⟩
    obtain ⟨s₁, hread, hstdin, hdata⟩ :=
      @readBytes_segment unset s _ n seg (by omega) (head_print (seg' :: segs)) hin
    obtain ⟨s', hread', hdata'⟩ := @ih s₁ n seg' (by omega) (by
      rw [hstdin, List.flatMap_cons, Segment.print]
      simp only [List.cons_append, List.tail_cons, List.append_assoc])
    refine ⟨s', ?_, ?_⟩
    · rw [readSegments_at, hread]
      exact hread'
    · rw [hdata', hdata, writeCells, writeCells, ← List.foldl_append]
      rfl

end

/-- A printed image is read back. -/
theorem readToMemory_print (unset : List Byte → Word) (seg : Segment) (segs : List Segment) :
    ∃ n s, readToMemory unset n ((seg :: segs).flatMap Segment.print) = some (.ok s) ∧
      HoldsImage (seg :: segs) s.data := by
  obtain ⟨s', hread, hdata⟩ := @readSegments_print unset
    ⟨((seg :: segs).flatMap Segment.print).tail, fun _ => 0, []⟩ _ seg segs (Nat.le_refl _) (by
      rw [List.flatMap_cons, Segment.print]
      simp only [List.cons_append, List.tail_cons, List.append_assoc])
  refine ⟨_, s', hread, ?_⟩
  rw [hdata]
  exact holdsImage_writeCells (seg :: segs)

/-- An image without a segment is printed as nothing, which is not a `@`. -/
theorem readToMemory_nil : readToMemory (fun _ => 0) 1
    (([] : List Segment).flatMap Segment.print) = some (.error .assertion) := rfl

end TomasuloCpu
