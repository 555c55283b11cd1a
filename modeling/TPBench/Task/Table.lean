import TPBench.Task.Csv

/-!
# Tables of Rows

A file of `task export` is a table: rows of cells, each written between
`tpbcli_task_csv_row_begin` and `tpbcli_task_csv_row_end`. `TPBench.Task.Csv` says what a
program has written when it succeeds. This module adds that the programs do succeed as long
as no write fails (`Steady`), and from both the text of a whole row (`csvRow_ok`,
`csvRow_eq_ok`).
-/

open CFile

namespace TPBench

/-! ### Writers whose writes do not fail -/

/-- No write to the stream fails. -/
def CsvWriter.Steady (w : CsvWriter) : Prop := ∀ n, w.fault n = false

/-- The program succeeds when no write fails. -/
def Succeeds (m : CsvM Unit) : Prop :=
  ∀ w, w.Steady → ∃ w', m w = .ok () w' ∧ w'.Steady

theorem succeeds_pure : Succeeds (pure ()) := fun w hw => ⟨w, rfl, hw⟩

theorem succeeds_modify {f : CsvWriter → CsvWriter} (hf : ∀ w, (f w).fault = w.fault) :
    Succeeds (modify f) := fun w hw =>
  ⟨f w, rfl, fun n => by rw [hf, hw n]⟩

/-- A byte is written. -/
theorem succeeds_fputc (b : UInt8) : Succeeds (fputc b) := by
  intro w hw
  refine ⟨{ w with content := w.content ++ [b] }, ?_, hw⟩
  rw [fputc, if_neg (by simp [hw w.content.length])]

/-- One after the other. -/
theorem Succeeds.bind {m n : CsvM Unit} (hm : Succeeds m) (hn : Succeeds n) :
    Succeeds (do m; n) := by
  intro w hw
  obtain ⟨w₁, h₁, hw₁⟩ := hm w hw
  obtain ⟨w₂, h₂, hw₂⟩ := hn w₁ hw₁
  exact ⟨w₂, bind_then h₁ h₂, hw₂⟩

/-- A program may look at the writer before it goes on. -/
theorem Succeeds.get {m : CsvWriter → CsvM Unit} (hm : ∀ w, Succeeds (m w)) :
    Succeeds (do m (← get)) := by
  intro w hw
  obtain ⟨w₁, h₁, hw₁⟩ := hm w w hw
  exact ⟨w₁, bind_then rfl h₁, hw₁⟩

theorem Succeeds.onlyIf {m : CsvM Unit} (hm : Succeeds m) (c : Prop) [Decidable c] :
    Succeeds (onlyIf c m) := by
  unfold TPBench.onlyIf
  split
  · exact hm
  · exact succeeds_pure

/-- Bytes are written. -/
theorem succeeds_sfWriteRaw (bs : Bytes) : Succeeds (sfWriteRaw bs) := by
  induction bs with
  | nil => exact succeeds_pure
  | cons b bs ih => exact (succeeds_fputc b).bind ih

/-- A byte is escaped. -/
theorem succeeds_escapeByte (b : UInt8) : Succeeds (escapeLoop.escapeByte b) := by
  unfold escapeLoop.escapeByte
  split_ifs
  · exact succeeds_sfWriteRaw _
  · exact succeeds_sfWriteRaw _
  · exact succeeds_sfWriteRaw _
  · exact succeeds_fputc b

/-- A text is escaped. -/
theorem succeeds_escapeLoop (text : Bytes) : Succeeds (escapeLoop text) := by
  fun_induction escapeLoop text with
  | case1 => exact succeeds_pure
  | case2 b => exact succeeds_escapeByte b
  | case3 b b' bs h ih => exact (succeeds_sfWriteRaw _).bind ih
  | case4 b b' bs h ih => exact (succeeds_escapeByte b).bind ih

/-- A row is ended. -/
theorem succeeds_rowEnd : Succeeds tpbcliTaskCsvRowEnd := by
  refine Succeeds.get fun w => ?_
  refine Succeeds.onlyIf ((succeeds_fputc 10).bind ?_) w.inRow
  exact succeeds_modify fun _ => rfl

/-- A row is begun. -/
theorem succeeds_rowBegin : Succeeds tpbcliTaskCsvRowBegin := by
  refine Succeeds.get fun w => ?_
  exact (succeeds_rowEnd.onlyIf w.inRow).bind (succeeds_modify fun _ => rfl)

/-- A cell is written, with its separator. -/
theorem succeeds_csvCellWith {body : CsvM Unit} (hbody : Succeeds body) :
    Succeeds (csvCellWith body) := by
  refine Succeeds.get fun w => (succeeds_rowBegin.onlyIf _).bind ?_
  refine Succeeds.get fun w => ((succeeds_sfWriteRaw _).onlyIf _).bind ?_
  exact hbody.bind (succeeds_modify fun _ => rfl)

/-- Any cell is written. -/
theorem CsvCell.succeeds_write (c : CsvCell) : Succeeds c.write := by
  cases c with
  | text t ht =>
      refine succeeds_csvCellWith ?_
      exact (succeeds_escapeLoop t).bind ((succeeds_sfWriteRaw _).onlyIf _)
  | byte b =>
      refine succeeds_csvCellWith ?_
      split_ifs
      · exact succeeds_fputc _
      · exact succeeds_fputc _
      · exact succeeds_sfWriteRaw _

/-- Cells are written. -/
theorem succeeds_writeCells (cells : List CsvCell) : Succeeds (writeCells cells) := by
  induction cells with
  | nil => exact succeeds_pure
  | cons c cs ih => exact c.succeeds_write.bind ih

/-! ### Rows -/

/-- The writer behind more cells of its row. -/
def CsvWriter.after (w : CsvWriter) (cells : List CsvCell) : CsvWriter :=
  { w with content := w.content ++ cellsText w.ncells cells
           ncells := w.ncells + cells.length }

theorem CsvWriter.after_nil (w : CsvWriter) : w.after [] = w := by
  simp [CsvWriter.after, cellsText]

/-- The text of cells behind cells. -/
theorem cellsText_append (n : ℕ) (cs cs' : List CsvCell) :
    cellsText n (cs ++ cs') = cellsText n cs ++ cellsText (n + cs.length) cs' := by
  induction cs generalizing n with
  | nil => simp [cellsText]
  | cons c cs ih =>
      have hlen : n + (c :: cs).length = n + 1 + cs.length := by
        rw [List.length_cons]
        omega
      rw [List.cons_append, cellsText, cellsText, ih, hlen]
      simp

/-- The writer after cells behind cells. -/
theorem CsvWriter.after_append (w : CsvWriter) (cs cs' : List CsvCell) :
    w.after (cs ++ cs') = (w.after cs).after cs' := by
  simp only [CsvWriter.after, cellsText_append, List.length_append, List.append_assoc,
    Nat.add_assoc]

/-- Cells in an open row. -/
theorem writeCells_ok {w : CsvWriter} (hw : w.Steady) (hrow : w.inRow = true)
    (cells : List CsvCell) : writeCells cells w = .ok () (w.after cells) := by
  obtain ⟨w', hok, -⟩ := succeeds_writeCells cells w hw
  rw [hok, writeCells_eq_ok hrow hok, CsvWriter.after]

/-- A row of the table, from its begin to its end. -/
def csvRow (m : CsvM Unit) : CsvM Unit := do
  tpbcliTaskCsvRowBegin
  m
  tpbcliTaskCsvRowEnd

/-- The line of a row of cells. -/
def csvLine (cells : List CsvCell) : Bytes := joinPairs 44 (cells.map CsvCell.written) ++ [10]

/-- The text of a table. -/
def csvText (rows : List (List CsvCell)) : Bytes := rows.flatMap csvLine

/-- The writer between two rows. -/
def CsvWriter.between (w : CsvWriter) (content : Bytes) : CsvWriter :=
  { w with content, inRow := false, ncells := 0 }

/-- An open row without cells. -/
def CsvWriter.opened (w : CsvWriter) : CsvWriter := { w with inRow := true, ncells := 0 }

/-- The begin of a row. -/
theorem rowBegin_run {w : CsvWriter} (h : w.inRow = false) :
    tpbcliTaskCsvRowBegin w = .ok () w.opened := by
  refine bind_then rfl ?_
  rw [onlyIf, if_neg (by simp [h])]
  rfl

/-- A row that was written, whose cells are known when they are. -/
theorem csvRow_eq_ok {m : CsvM Unit} {w w' : CsvWriter} {P : List CsvCell → Prop}
    (h : w.inRow = false)
    (hm : ∀ w₁, m w.opened = .ok () w₁ → ∃ cells, P cells ∧ w₁ = w.opened.after cells)
    (hok : csvRow m w = .ok () w') :
    ∃ cells, P cells ∧ w' = w.between (w.content ++ csvLine cells) := by
  obtain ⟨_, w₁, hbegin, hrest⟩ := bind_eq_ok.mp hok
  rw [rowBegin_run h] at hbegin
  cases hbegin
  obtain ⟨_, w₂, hbody, hend⟩ := bind_eq_ok.mp hrest
  obtain ⟨cells, hP, rfl⟩ := hm w₂ hbody
  refine ⟨cells, hP, ?_⟩
  obtain ⟨_, _, hget, hend⟩ := bind_eq_ok.mp hend
  cases hget
  have hrow : (w.opened.after cells).inRow = true := rfl
  rw [onlyIf, if_pos hrow] at hend
  obtain ⟨_, w₃, hput, hend⟩ := bind_eq_ok.mp hend
  cases hend
  rw [writes_fputc 10 _ w₃ hput]
  simp [CsvWriter.between, CsvWriter.after, CsvWriter.opened, csvLine, cellsText_zero]

/-- A row whose cells are written. -/
theorem csvRow_ok {m : CsvM Unit} {w : CsvWriter} {cells : List CsvCell} (hw : w.Steady)
    (h : w.inRow = false) (hm : m w.opened = .ok () (w.opened.after cells)) :
    csvRow m w = .ok () (w.between (w.content ++ csvLine cells)) := by
  obtain ⟨w', hend, -⟩ := succeeds_rowEnd (w.opened.after cells) hw
  have hok : csvRow m w = .ok () w' := bind_then (rowBegin_run h) (bind_then hm hend)
  obtain ⟨cells', rfl, rfl⟩ := csvRow_eq_ok (P := (· = cells)) h
    (fun w₁ h₁ => ⟨cells, rfl, by rw [hm] at h₁; cases h₁; rfl⟩) hok
  exact hok

end TPBench
