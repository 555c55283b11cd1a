import TPBench.CFile.Fields
import TPBench.CFile.Text
import TPBench.Raf.Types

/-!
# The Double-Comma CSV Writer

`task export` writes its tables with `tpbcli-task-csv.c`. The cells of a row are separated
by two commas, and a reader splits a line on two commas from left to right, so the writer
rewrites the texts in which two commas could meet: it puts a blank between the commas, and
one behind a comma at the end of a cell.

The documented rule is `documented`: a blank between *every* two adjacent commas. The code
(`escapeLoop`) looks at one comma and the next, writes `, ,` for the two of them and goes on
behind both, so that the second comma is never compared with a third one. The two agree
exactly on the texts without three commas in a row, and a row reads back exactly when all
its texts are of this kind (`csvRow_reads_back`).

A write to the stream can fail at any position; `fault` says at which. All functions of the
writer report and pass on errors with the same module, so a failure leaves a call unchanged.
-/

open CFile

namespace TPBench

/-! ### The writer -/

/-- `tpbcli_task_csv_writer_t` with its stream: what was written, and the positions at which
a write fails. -/
structure CsvWriter where
  content : Bytes
  fault : ℕ → Bool
  inRow : Bool
  ncells : ℕ

/-- Programs over a writer. -/
abbrev CsvM := EStateM Err CsvWriter

/-- `tpbcli_task_csv_writer_init` on a fresh stream. -/
def tpbcliTaskCsvWriterInit (fault : ℕ → Bool) : CsvWriter := ⟨[], fault, false, 0⟩

/-- `fputc`, and the error it is answered with. -/
def fputc (b : UInt8) : CsvM Unit := fun w =>
  if w.fault w.content.length then .error (.code .cliMisc .fileIoFail) w
  else .ok () { w with content := w.content ++ [b] }

/-- An `if` without an `else`. -/
def onlyIf (c : Prop) [Decidable c] (m : CsvM Unit) : CsvM Unit := if c then m else pure ()

/-- `_sf_write_raw`. -/
def sfWriteRaw : Bytes → CsvM Unit
  | [] => pure ()
  | b :: bs => do
      fputc b
      sfWriteRaw bs

/-- The loop of `_sf_write_escaped_text`. Two commas are written with a blank between them
and are both passed over. -/
def escapeLoop : Bytes → CsvM Unit
  | [] => pure ()
  | [b] => escapeByte b
  | b :: b' :: bs => do
      if b = 44 ∧ b' = 44 then
        sfWriteRaw [44, 32, 44]
        escapeLoop bs
      else
        escapeByte b
        escapeLoop (b' :: bs)
where
  /-- A byte on its own: backslash, carriage return and line feed are made visible. -/
  escapeByte (b : UInt8) : CsvM Unit :=
    if b = 92 then sfWriteRaw [92, 92]
    else if b = 13 then sfWriteRaw [92, 114]
    else if b = 10 then sfWriteRaw [92, 110]
    else fputc b

/-- `_sf_write_escaped_text`. -/
def sfWriteEscapedText (text : Bytes) : CsvM Unit := do
  escapeLoop text
  onlyIf (text.getLast? = some 44) (sfWriteRaw [32])

/-- `tpbcli_task_csv_row_end`. -/
def tpbcliTaskCsvRowEnd : CsvM Unit := do
  let w ← get
  onlyIf w.inRow do
    fputc 10
    modify fun w => { w with inRow := false, ncells := 0 }

/-- `tpbcli_task_csv_row_begin`. -/
def tpbcliTaskCsvRowBegin : CsvM Unit := do
  let w ← get
  onlyIf w.inRow tpbcliTaskCsvRowEnd
  modify fun w => { w with inRow := true, ncells := 0 }

/-- The common frame of the two cell functions: open a row when none is open, write the
separator behind an earlier cell, and count the cell. -/
def csvCellWith (body : CsvM Unit) : CsvM Unit := do
  let w ← get
  onlyIf (!w.inRow) tpbcliTaskCsvRowBegin
  let w ← get
  onlyIf (w.ncells > 0) (sfWriteRaw [44, 44])
  body
  modify fun w => { w with ncells := w.ncells + 1 }

/-- `tpbcli_task_csv_cell`. -/
def tpbcliTaskCsvCell (text : Bytes) : CsvM Unit := csvCellWith (sfWriteEscapedText text)

/-- `isprint` in the C locale. -/
def isprint (b : UInt8) : Bool := 32 ≤ b ∧ b ≤ 126

/-- A digit of `%X`. -/
def hexUpper (n : ℕ) : UInt8 := UInt8.ofNat (if n < 10 then 48 + n else 55 + n)

/-- `tpbcli_task_csv_cell_byte`. -/
def tpbcliTaskCsvCellByte (b : UInt8) : CsvM Unit :=
  csvCellWith <|
    if b = 44 then fputc 28
    else if isprint b then fputc b
    else sfWriteRaw [48, 120, hexUpper (b.toNat / 16), hexUpper (b.toNat % 16)]

/-- A cell of a row: a C string, or a single byte. -/
inductive CsvCell
  | text (t : Bytes) (h : 0 ∉ t)
  | byte (b : UInt8)

/-- Write one cell. -/
def CsvCell.write : CsvCell → CsvM Unit
  | text t _ => tpbcliTaskCsvCell t
  | byte b => tpbcliTaskCsvCellByte b

/-- Write cells one after the other. -/
def writeCells : List CsvCell → CsvM Unit
  | [] => pure ()
  | c :: cs => do
      c.write
      writeCells cs

/-! ### The documented form of a cell -/

/-- The visible form of a byte of a text. -/
def visible (b : UInt8) : Bytes :=
  if b = 92 then [92, 92] else if b = 13 then [92, 114] else if b = 10 then [92, 110] else [b]

/-- A blank between every two adjacent commas. -/
def spaced : Bytes → Bytes
  | [] => []
  | [b] => [b]
  | b :: b' :: bs => if b = 44 ∧ b' = 44 then b :: 32 :: spaced (b' :: bs)
      else b :: spaced (b' :: bs)

/-- A blank behind a comma at the end. -/
def closed (bs : Bytes) : Bytes := if bs.getLast? = some 44 then bs ++ [32] else bs

/-- The documented form of a text: its bytes made visible, adjacent commas spaced, and a
final comma closed. -/
def documented (text : Bytes) : Bytes := closed (spaced (text.flatMap visible))

/-- The documented form of a single byte: a comma is a file separator, a printable byte
stands for itself, and any other byte is written in hexadecimal digits. -/
def documentedByte (b : UInt8) : Bytes :=
  if b = 44 then [28] else if isprint b then [b]
  else [48, 120, hexUpper (b.toNat / 16), hexUpper (b.toNat % 16)]

/-- The documented form of a cell. -/
def CsvCell.documented : CsvCell → Bytes
  | text t _ => TPBench.documented t
  | byte b => documentedByte b

/-! ### What the writer writes -/

/-- `Writes m bs`: when the program succeeds, it has added `bs` to the stream. -/
def Writes (m : CsvM Unit) (bs : Bytes) : Prop :=
  ∀ w w', m w = .ok () w' → w' = { w with content := w.content ++ bs }

theorem writes_pure : Writes (pure ()) [] := by
  intro w w' h
  cases h
  rw [List.append_nil]

theorem writes_fputc (b : UInt8) : Writes (fputc b) [b] := by
  intro w w' h
  rw [fputc] at h
  split at h
  · cases h
  · cases h
    rfl

theorem Writes.bind {m n : CsvM Unit} {a b : Bytes} (hm : Writes m a) (hn : Writes n b) :
    Writes (do m; n) (a ++ b) := by
  intro w w' h
  obtain ⟨u, w₁, h₁, h₂⟩ := bind_eq_ok.mp h
  rw [hn w₁ w' h₂, hm w w₁ h₁, List.append_assoc]

theorem Writes.onlyIf {m : CsvM Unit} {a : Bytes} (hm : Writes m a) (c : Prop) [Decidable c] :
    Writes (onlyIf c m) (if c then a else []) := by
  unfold TPBench.onlyIf
  split
  · exact hm
  · exact writes_pure

theorem writes_sfWriteRaw (bs : Bytes) : Writes (sfWriteRaw bs) bs := by
  induction bs with
  | nil => exact writes_pure
  | cons b bs ih => exact (writes_fputc b).bind ih

/-- The text the loop of `_sf_write_escaped_text` produces. -/
def escaped : Bytes → Bytes
  | [] => []
  | [b] => visible b
  | b :: b' :: bs =>
      if b = 44 ∧ b' = 44 then [44, 32, 44] ++ escaped bs else visible b ++ escaped (b' :: bs)

/-- The text `_sf_write_escaped_text` produces. -/
def escapedText (text : Bytes) : Bytes :=
  escaped text ++ if text.getLast? = some 44 then [32] else []

theorem writes_escapeByte (b : UInt8) : Writes (escapeLoop.escapeByte b) (visible b) := by
  unfold escapeLoop.escapeByte visible
  split_ifs
  · exact writes_sfWriteRaw _
  · exact writes_sfWriteRaw _
  · exact writes_sfWriteRaw _
  · exact writes_fputc b

theorem writes_escapeLoop (text : Bytes) : Writes (escapeLoop text) (escaped text) := by
  fun_induction escaped text with
  | case1 => exact writes_pure
  | case2 b => exact writes_escapeByte b
  | case3 b b' bs h ih =>
      rw [escapeLoop, if_pos h]
      exact (writes_sfWriteRaw _).bind ih
  | case4 b b' bs h ih =>
      rw [escapeLoop, if_neg h]
      exact (writes_escapeByte b).bind ih

theorem writes_sfWriteEscapedText (text : Bytes) :
    Writes (sfWriteEscapedText text) (escapedText text) := by
  exact (writes_escapeLoop text).bind ((writes_sfWriteRaw _).onlyIf _)

/-- The text of a cell. -/
def CsvCell.written : CsvCell → Bytes
  | text t _ => escapedText t
  | byte b => documentedByte b

/-- The text of the cells of a row, `n` of which are written already. -/
def cellsText : ℕ → List CsvCell → Bytes
  | _, [] => []
  | n, c :: cs => (if n > 0 then [44, 44] else []) ++ c.written ++ cellsText (n + 1) cs

/-- A cell in an open row. -/
theorem csvCellWith_eq_ok {body : CsvM Unit} {bs : Bytes} (hbody : Writes body bs)
    {w w' : CsvWriter} (hrow : w.inRow = true) (h : csvCellWith body w = .ok () w') :
    w' = { w with content := w.content ++ ((if w.ncells > 0 then [44, 44] else []) ++ bs)
                  ncells := w.ncells + 1 } := by
  obtain ⟨_, _, hget, h⟩ := bind_eq_ok.mp h
  cases hget
  obtain ⟨_, w₁, hbegin, h⟩ := bind_eq_ok.mp h
  rw [onlyIf, if_neg (by simp [hrow])] at hbegin
  cases hbegin
  obtain ⟨_, _, hget, h⟩ := bind_eq_ok.mp h
  cases hget
  obtain ⟨_, w₂, hsep, h⟩ := bind_eq_ok.mp h
  obtain ⟨_, w₃, hcell, h⟩ := bind_eq_ok.mp h
  cases h
  rw [hbody w₂ w₃ hcell, (writes_sfWriteRaw _).onlyIf _ w w₂ hsep, List.append_assoc]

theorem CsvCell.write_eq_ok (c : CsvCell) {w w' : CsvWriter} (hrow : w.inRow = true)
    (h : c.write w = .ok () w') :
    w' = { w with content := w.content ++ ((if w.ncells > 0 then [44, 44] else []) ++ c.written)
                  ncells := w.ncells + 1 } := by
  cases c with
  | text t ht => exact csvCellWith_eq_ok (writes_sfWriteEscapedText t) hrow h
  | byte b =>
      refine csvCellWith_eq_ok ?_ hrow h
      rw [CsvCell.written, documentedByte]
      split_ifs
      · exact writes_fputc _
      · exact writes_fputc _
      · exact writes_sfWriteRaw _

/-- The cells of a row, one after the other. -/
theorem writeCells_eq_ok {cells : List CsvCell} {w w' : CsvWriter} (hrow : w.inRow = true)
    (h : writeCells cells w = .ok () w') :
    w' = { w with content := w.content ++ cellsText w.ncells cells
                  ncells := w.ncells + cells.length } := by
  induction cells generalizing w with
  | nil =>
      cases h
      simp [cellsText]
  | cons c cs ih =>
      obtain ⟨_, w₁, hcell, hrest⟩ := bind_eq_ok.mp h
      obtain rfl := c.write_eq_ok hrow hcell
      refine (ih ?_ hrest).trans ?_
      · exact hrow
      · simp only [cellsText, List.append_assoc, List.length_cons]
        congr 1
        omega

/-- Behind a first cell, every cell follows a separator. -/
theorem append_cellsText (e : Bytes) (n : ℕ) (cs : List CsvCell) :
    e ++ cellsText (n + 1) cs = joinPairs 44 (e :: cs.map CsvCell.written) := by
  induction cs generalizing e n with
  | nil => simp [cellsText, joinPairs]
  | cons c cs ih =>
      rw [cellsText, if_pos (Nat.succ_pos n), List.map_cons, joinPairs, ← ih c.written (n + 1)]
      simp

/-- The line of a row. -/
theorem cellsText_zero (cs : List CsvCell) :
    cellsText 0 cs = joinPairs 44 (cs.map CsvCell.written) := by
  cases cs with
  | nil => rfl
  | cons c cs =>
      rw [cellsText, if_neg (lt_irrefl 0), List.nil_append, append_cellsText, List.map_cons]

/-- The line between the begin and the end of a row. -/
theorem csvRow_line {cells : List CsvCell} {w w₁ w₂ w₃ : CsvWriter}
    (hbegin : tpbcliTaskCsvRowBegin w = .ok () w₁) (hcells : writeCells cells w₁ = .ok () w₂)
    (hend : tpbcliTaskCsvRowEnd w₂ = .ok () w₃) :
    w₃.content = w₁.content ++ joinPairs 44 (cells.map CsvCell.written) ++ [10] := by
  have hopen : w₁.inRow = true ∧ w₁.ncells = 0 := by
    obtain ⟨_, _, hget, h⟩ := bind_eq_ok.mp hbegin
    obtain ⟨_, w', _, h⟩ := bind_eq_ok.mp h
    cases h
    exact ⟨rfl, rfl⟩
  obtain ⟨hrow, hzero⟩ := hopen
  obtain rfl := writeCells_eq_ok hrow hcells
  obtain ⟨_, _, hget, h⟩ := bind_eq_ok.mp hend
  cases hget
  rw [onlyIf, if_pos hrow] at h
  obtain ⟨_, w', hput, h⟩ := bind_eq_ok.mp h
  cases h
  rw [writes_fputc _ _ _ hput, hzero, cellsText_zero]

/-! ### The two forms of a text -/

theorem head?_visible (b : UInt8) : (visible b).head? = some 44 ↔ b = 44 := by
  unfold visible
  split_ifs with h₁ h₂ h₃
  · simp [h₁]
  · simp [h₂]
  · simp [h₃]
  · simp

theorem getLast?_visible (b : UInt8) : (visible b).getLast? = some 44 ↔ b = 44 := by
  unfold visible
  split_ifs with h₁ h₂ h₃
  · simp [h₁]
  · simp [h₂]
  · simp [h₃]
  · simp

theorem visible_ne_nil (b : UInt8) : visible b ≠ [] := by
  unfold visible
  split_ifs <;> simp

theorem head?_flatMap_visible (bs : Bytes) :
    (bs.flatMap visible).head? = some 44 ↔ bs.head? = some 44 := by
  cases bs with
  | nil => simp
  | cons b bs =>
      rw [List.flatMap_cons, List.head?_append_of_ne_nil _ (visible_ne_nil b), head?_visible]
      simp

theorem getLast?_flatMap_visible (bs : Bytes) :
    (bs.flatMap visible).getLast? = some 44 ↔ bs.getLast? = some 44 := by
  rcases List.eq_nil_or_concat' bs with rfl | ⟨init, b, rfl⟩
  · simp
  · rw [List.flatMap_append, List.flatMap_singleton,
      List.getLast?_append_of_ne_nil _ (visible_ne_nil b), getLast?_visible]
    simp

theorem spaced_cons {b : UInt8} {bs : Bytes} (h : b = 44 → bs.head? ≠ some 44) :
    spaced (b :: bs) = b :: spaced bs := by
  cases bs with
  | nil => rfl
  | cons b' bs =>
      rw [spaced, if_neg]
      rintro ⟨rfl, rfl⟩
      exact h rfl rfl

/-- A byte that is not followed by a comma, or is none itself, keeps its visible form. -/
theorem spaced_visible {b : UInt8} {bs : Bytes} (h : b = 44 → bs.head? ≠ some 44) :
    spaced (visible b ++ bs) = visible b ++ spaced bs := by
  have hpair : ∀ x : UInt8, x ≠ 44 → spaced (92 :: x :: bs) = 92 :: x :: spaced bs := by
    intro x hx
    rw [spaced_cons (by simp), spaced_cons fun hb => absurd hb hx]
  unfold visible
  split_ifs with h₁ h₂ h₃
  · exact hpair 92 (by decide)
  · exact hpair 114 (by decide)
  · exact hpair 110 (by decide)
  · exact spaced_cons h

theorem head?_spaced (bs : Bytes) : (spaced bs).head? = bs.head? := by
  fun_induction spaced bs <;> rfl

theorem getLast?_spaced (bs : Bytes) : (spaced bs).getLast? = bs.getLast? := by
  fun_induction spaced bs with
  | case1 => rfl
  | case2 b => rfl
  | case3 b b' bs h ih =>
      rw [List.getLast?_cons, List.getLast?_cons, ih]
      simp [List.getLast?_cons]
  | case4 b b' bs h ih =>
      rw [List.getLast?_cons, ih]
      simp [List.getLast?_cons]

/-- Without three commas in a row, the code writes what is documented. -/
theorem escaped_eq_spaced {t : Bytes} (h : ¬ [44, 44, 44] <:+: t) :
    escaped t = spaced (t.flatMap visible) := by
  fun_induction escaped t with
  | case1 => rfl
  | case2 b =>
      have := @spaced_visible b [] (by simp)
      simpa [spaced] using this.symm
  | case3 b b' bs hb ih =>
      obtain ⟨rfl, rfl⟩ := hb
      have hhead : bs.head? ≠ some 44 := by
        intro hhead
        obtain ⟨bs', rfl⟩ := List.head?_eq_some_iff.mp hhead
        exact h ⟨[], bs', rfl⟩
      have hrest : (bs.flatMap visible).head? ≠ some 44 := by
        rwa [ne_eq, head?_flatMap_visible]
      have hbs : ¬ [44, 44, 44] <:+: bs := fun hin =>
        h (hin.trans ⟨[44, 44], [], by simp⟩)
      change [44, 32, 44] ++ escaped bs = spaced (44 :: 44 :: bs.flatMap visible)
      rw [spaced, if_pos ⟨rfl, rfl⟩, spaced_cons fun _ => hrest, ih hbs]
      rfl
  | case4 b b' bs hb ih =>
      have hhead : b = 44 → ((b' :: bs).flatMap visible).head? ≠ some 44 := by
        intro hb₁ hb₂
        rw [head?_flatMap_visible] at hb₂
        exact hb ⟨hb₁, Option.some.inj hb₂⟩
      have hbs : ¬ [44, 44, 44] <:+: b' :: bs := fun hin =>
        h (hin.trans (List.suffix_cons b (b' :: bs)).isInfix)
      rw [List.flatMap_cons, spaced_visible hhead, ih hbs]

/-- The code and the documentation agree on a text without three commas in a row. -/
theorem escapedText_eq_documented {t : Bytes} (h : ¬ [44, 44, 44] <:+: t) :
    escapedText t = documented t := by
  rw [escapedText, documented, closed, getLast?_spaced, escaped_eq_spaced h]
  by_cases hlast : t.getLast? = some 44
  · rw [if_pos hlast, if_pos ((getLast?_flatMap_visible t).mpr hlast)]
  · rw [if_neg hlast, if_neg fun h' => hlast ((getLast?_flatMap_visible t).mp h'),
      List.append_nil]

/-- A documented text is read as one field. -/
theorem length_splitPairs_documented (t : Bytes) :
    (splitPairs 44 (documented t)).length = 1 := by
  have hspaced : ∀ bs, (splitPairs 44 (spaced bs)).length = 1 := by
    intro bs
    fun_induction spaced bs with
    | case1 => rfl
    | case2 b => rfl
    | case3 b b' bs h ih =>
        rw [splitPairs_cons (by simp), List.length_modifyHead, splitPairs_cons (by simp),
          List.length_modifyHead, ih]
    | case4 b b' bs h ih =>
        have hhead : b = 44 → (spaced (b' :: bs)).head? ≠ some 44 := by
          intro h₁ h₂
          rw [head?_spaced] at h₂
          exact h ⟨h₁, Option.some.inj h₂⟩
        rw [splitPairs_cons hhead, List.length_modifyHead, ih]
  rw [documented, closed]
  split
  · rw [length_splitPairs_concat (by decide), hspaced]
  · exact hspaced _

/-- What the code writes for a text that starts with a comma starts with a comma. -/
theorem head?_escaped (t : Bytes) : (escaped t).head? = some 44 ↔ t.head? = some 44 := by
  fun_cases escaped t with
  | case1 => simp
  | case2 b => simp [head?_visible]
  | case3 b b' bs h => simp [h.1]
  | case4 b b' bs h =>
      rw [List.head?_append_of_ne_nil _ (visible_ne_nil b), head?_visible]
      simp

/-- More text in front does not make one field of two. -/
theorem two_le_length_append (bs : Bytes) {cs : Bytes}
    (h : 2 ≤ (splitPairs 44 cs).length) : 2 ≤ (splitPairs 44 (bs ++ cs)).length := by
  induction bs with
  | nil => exact h
  | cons b bs ih => exact two_le_length_splitPairs_cons b ih

/-- Three commas in a row leave two commas in what the code writes. -/
theorem two_le_length_escaped {t : Bytes} (h : [44, 44, 44] <:+: t) :
    2 ≤ (splitPairs 44 (escaped t)).length := by
  fun_induction escaped t with
  | case1 => simp at h
  | case2 b => simp [List.infix_cons_iff] at h
  | case3 b b' bs hb ih =>
      obtain ⟨rfl, rfl⟩ := hb
      by_cases hhead : bs.head? = some 44
      · obtain ⟨rest, hrest⟩ := List.head?_eq_some_iff.mp ((head?_escaped bs).mpr hhead)
        rw [hrest]
        exact two_le_length_append [44, 32] (two_le_length_splitPairs_pair rest)
      · have hbs : [44, 44, 44] <:+: bs := by
          rcases List.infix_cons_iff.mp h with hpre | h
          · obtain ⟨rest, hrest⟩ := hpre
            exact absurd (by rw [← (List.cons.inj (List.cons.inj hrest).2).2]; rfl) hhead
          · rcases List.infix_cons_iff.mp h with hpre | h
            · obtain ⟨rest, hrest⟩ := hpre
              exact absurd (by rw [← (List.cons.inj hrest).2]; rfl) hhead
            · exact h
        exact two_le_length_append [44, 32, 44] (ih hbs)
  | case4 b b' bs hb ih =>
      rcases List.infix_cons_iff.mp h with hpre | h
      · obtain ⟨rest, hrest⟩ := hpre
        obtain ⟨hb₁, htail⟩ := List.cons.inj hrest
        exact absurd ⟨hb₁.symm, (List.cons.inj htail).1.symm⟩ hb
      · exact two_le_length_append (visible b) (ih h)

/-- The code's text of a cell is read as one field only if it has no three commas in a
row. -/
theorem not_triple_of_length_eq_one {t : Bytes}
    (h : (splitPairs 44 (escapedText t)).length = 1) : ¬ [44, 44, 44] <:+: t := by
  intro hin
  have htwo := two_le_length_escaped hin
  rw [escapedText] at h
  split at h
  · rw [length_splitPairs_concat (by decide)] at h
    omega
  · rw [List.append_nil] at h
    omega

/-! ### Rows -/

theorem escaped_cons_ne_nil (b : UInt8) (bs : Bytes) : escaped (b :: bs) ≠ [] := by
  cases bs with
  | nil => exact visible_ne_nil b
  | cons b' bs =>
      rw [escaped]
      split
      · simp
      · simp [visible_ne_nil]

theorem getLast?_escaped (t : Bytes) : (escaped t).getLast? = some 44 ↔ t.getLast? = some 44 := by
  fun_induction escaped t with
  | case1 => simp
  | case2 b => simp [getLast?_visible]
  | case3 b b' bs h ih =>
      obtain ⟨rfl, rfl⟩ := h
      cases bs with
      | nil => simp [escaped]
      | cons x bs =>
          rw [List.getLast?_append_of_ne_nil _ (escaped_cons_ne_nil x bs),
            List.getLast?_cons_cons, List.getLast?_cons_cons]
          exact ih
  | case4 b b' bs h ih =>
      rw [List.getLast?_append_of_ne_nil _ (escaped_cons_ne_nil b' bs), List.getLast?_cons_cons]
      exact ih

theorem hexUpper_digit : ∀ n < 16, hexUpper n ≠ 44 ∧ hexUpper n ≠ 10 ∧ hexUpper n ≠ 13 := by
  decide

/-- The text of a cell never ends in a comma. -/
theorem getLast?_written (c : CsvCell) : c.written.getLast? ≠ some 44 := by
  cases c with
  | text t ht =>
      rw [CsvCell.written, escapedText]
      split
      · simp
      · rename_i hlast
        rwa [List.append_nil, ne_eq, getLast?_escaped]
  | byte b =>
      obtain ⟨hdigit, -⟩ := hexUpper_digit (b.toNat % 16) (Nat.mod_lt _ (by decide))
      rw [CsvCell.written, documentedByte]
      split_ifs with h
      · simp
      · simpa using h
      · simpa using hdigit

/-- A visible byte is no line end. -/
theorem not_mem_visible (b : UInt8) : 10 ∉ visible b ∧ 13 ∉ visible b := by
  unfold visible
  split_ifs with h₁ h₂ h₃
  · decide
  · decide
  · decide
  · simp only [List.mem_singleton]
    exact ⟨fun h => h₃ h.symm, fun h => h₂ h.symm⟩

theorem not_mem_escaped (t : Bytes) : 10 ∉ escaped t ∧ 13 ∉ escaped t := by
  fun_induction escaped t with
  | case1 => simp
  | case2 b => exact not_mem_visible b
  | case3 b b' bs h ih => simpa using ih
  | case4 b b' bs h ih =>
      obtain ⟨h₁, h₂⟩ := not_mem_visible b
      simpa [h₁, h₂] using ih

/-- The text of a cell contains no line end. -/
theorem not_mem_written (c : CsvCell) : 10 ∉ c.written ∧ 13 ∉ c.written := by
  cases c with
  | text t ht =>
      obtain ⟨h₁, h₂⟩ := not_mem_escaped t
      rw [CsvCell.written, escapedText]
      split
      · simp [h₁, h₂]
      · simp [h₁, h₂]
  | byte b =>
      obtain ⟨-, h₁, h₂⟩ := hexUpper_digit (b.toNat / 16) (by have := b.toNat_lt; omega)
      obtain ⟨-, h₃, h₄⟩ := hexUpper_digit (b.toNat % 16) (Nat.mod_lt _ (by decide))
      rw [CsvCell.written, documentedByte]
      split_ifs with h hprint
      · decide
      · simp only [isprint, decide_eq_true_eq] at hprint
        simp only [List.mem_singleton]
        constructor
        · rintro rfl
          exact absurd hprint.1 (by decide)
        · rintro rfl
          exact absurd hprint.1 (by decide)
      · simp [Ne.symm h₁, Ne.symm h₂, Ne.symm h₃, Ne.symm h₄]

/-- A line of cells contains no line end. -/
theorem not_mem_line (cells : List CsvCell) :
    10 ∉ joinPairs 44 (cells.map CsvCell.written) ∧
      13 ∉ joinPairs 44 (cells.map CsvCell.written) := by
  have hcells : ∀ e ∈ cells.map CsvCell.written, 10 ∉ e ∧ 13 ∉ e := by
    intro e he
    obtain ⟨c, -, rfl⟩ := List.mem_map.mp he
    exact not_mem_written c
  generalize cells.map CsvCell.written = es at hcells
  fun_induction joinPairs 44 es with
  | case1 => simp
  | case2 e => exact hcells e (by simp)
  | case3 e e' es ih =>
      obtain ⟨h₁, h₂⟩ := hcells e (by simp)
      simpa [h₁, h₂] using ih fun x hx => hcells x (by simp [hx])

/-- The line of a row splits cell by cell. -/
theorem splitPairs_line {cells : List CsvCell} (hne : cells ≠ []) :
    splitPairs 44 (joinPairs 44 (cells.map CsvCell.written)) =
      cells.flatMap fun c => splitPairs 44 c.written := by
  rw [splitPairs_join (by simpa using hne), List.flatMap_map]
  intro e he
  obtain ⟨c, -, rfl⟩ := List.mem_map.mp he
  exact getLast?_written c

/-- The text of a cell without three commas in a row is its documented form, and is read as
one field. -/
theorem splitPairs_written {c : CsvCell} (h : ∀ t ht, c = .text t ht → ¬ [44, 44, 44] <:+: t) :
    splitPairs 44 c.written = [c.documented] := by
  cases c with
  | text t ht =>
      have heq : escapedText t = documented t := escapedText_eq_documented (h t ht rfl)
      rw [CsvCell.written, heq, CsvCell.documented]
      exact splitPairs_of_length_eq_one (length_splitPairs_documented t)
  | byte b =>
      refine splitPairs_of_length_eq_one ?_
      rw [CsvCell.written, documentedByte]
      split_ifs with h
      · rfl
      · rfl
      · obtain ⟨hdigit, -⟩ := hexUpper_digit (b.toNat / 16) (by have := b.toNat_lt; omega)
        rw [splitPairs_cons (by simp), splitPairs_cons (by simp),
          splitPairs_cons fun hb => absurd hb hdigit]
        rfl

/-- **Double-comma rows.** A row is written between `row_begin` and `row_end`, and all its
calls succeed. What is written is one line without line ends inside that splits into the
documented form of the cells if and only if the row has a cell and no text in it contains
three commas in a row. -/
theorem csvRow_reads_back (cells : List CsvCell) (w w₁ w₂ w₃ : CsvWriter)
    (hbegin : tpbcliTaskCsvRowBegin w = .ok () w₁) (hcells : writeCells cells w₁ = .ok () w₂)
    (hend : tpbcliTaskCsvRowEnd w₂ = .ok () w₃) :
    (∃ line, w₃.content = w₁.content ++ line ++ [10] ∧ 10 ∉ line ∧ 13 ∉ line ∧
      splitPairs 44 line = cells.map CsvCell.documented) ↔
    cells ≠ [] ∧ ∀ t h, CsvCell.text t h ∈ cells → ¬ [44, 44, 44] <:+: t := by
  have hline := csvRow_line hbegin hcells hend
  constructor
  · rintro ⟨line, hcontent, -, -, hsplit⟩
    obtain rfl : line = joinPairs 44 (cells.map CsvCell.written) := by
      rw [hcontent, List.append_assoc, List.append_assoc] at hline
      exact List.append_cancel_right (List.append_cancel_left hline)
    have hne : cells ≠ [] := by
      rintro rfl
      cases hsplit
    refine ⟨hne, fun t ht hmem => ?_⟩
    rw [splitPairs_line hne] at hsplit
    have hlen := congrArg List.length hsplit
    rw [List.length_map, ← List.flatMap_map, ← cells.length_map CsvCell.written] at hlen
    exact not_triple_of_length_eq_one
      (length_eq_one_of_flatMap hlen _ (List.mem_map_of_mem hmem))
  · rintro ⟨hne, htexts⟩
    obtain ⟨h₁, h₂⟩ := not_mem_line cells
    refine ⟨_, hline, h₁, h₂, ?_⟩
    have hfields : ∀ c ∈ cells, splitPairs 44 c.written = [c.documented] := by
      rintro c hc
      refine splitPairs_written ?_
      rintro t ht rfl
      exact htexts t ht hc
    rw [splitPairs_line hne, List.flatMap_congr hfields, ← List.map_eq_flatMap]

/-- A writer on a stream that never fails, in an open row behind `content`. -/
def csvRowWriter (content : Bytes) (ncells : ℕ) : CsvWriter :=
  ⟨content, fun _ => false, true, ncells⟩

/-- A row with a text that starts with a comma, and a comma as a byte. -/
theorem csvRow_reads_back_two :
    ∃ line, (⟨[44, 97, 44, 44, 28, 10], fun _ => false, false, 0⟩ : CsvWriter).content =
        [] ++ line ++ [10] ∧ 10 ∉ line ∧ 13 ∉ line ∧ splitPairs 44 line = [[44, 97], [28]] := by
  have hrow := csvRow_reads_back [.text [44, 97] (by decide), .byte 44]
    (tpbcliTaskCsvWriterInit fun _ => false) (csvRowWriter [] 0)
    (csvRowWriter [44, 97, 44, 44, 28] 2) ⟨[44, 97, 44, 44, 28, 10], fun _ => false, false, 0⟩
    rfl rfl rfl
  refine hrow.mpr ⟨by simp, ?_⟩
  rintro t h hmem
  have ht : t = [44, 97] := by simpa using hmem
  rw [ht]
  decide

/-- A cell of three commas is read as two fields. -/
theorem csvRow_three_commas : ∃ w₁ w₂ w₃ : CsvWriter,
    tpbcliTaskCsvRowBegin (tpbcliTaskCsvWriterInit fun _ => false) = .ok () w₁ ∧
    writeCells [.text [44, 44, 44] (by decide)] w₁ = .ok () w₂ ∧
    tpbcliTaskCsvRowEnd w₂ = .ok () w₃ ∧
    ¬ ∃ line, w₃.content = w₁.content ++ line ++ [10] ∧ 10 ∉ line ∧ 13 ∉ line ∧
      splitPairs 44 line =
        [CsvCell.text [44, 44, 44] (by decide)].map CsvCell.documented := by
  refine ⟨csvRowWriter [] 0, csvRowWriter [44, 32, 44, 44, 32] 1,
    ⟨[44, 32, 44, 44, 32, 10], fun _ => false, false, 0⟩, rfl, rfl, rfl, ?_⟩
  rintro ⟨line, hcontent, -, -, hsplit⟩
  obtain rfl : line = [44, 32, 44, 44, 32] := (List.append_cancel_right hcontent).symm
  revert hsplit
  decide

end TPBench
