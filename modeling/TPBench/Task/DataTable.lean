import Mathlib.Data.List.Forall2
import Mathlib.Data.List.MinMax
import TPBench.Task.DataColumns
import TPBench.Task.Samples

/-!
# The Table of the Data File

The data file of a task record is a table with a column for each header with data, but two for
the three headers of a snapshot. The program goes over the headers once for the names, once for
the number of rows, and once for each row, and keeps the place of a column in the payload as a sum
of sizes. This module puts the three passes together: a table is right if and only if each of its
columns is.

## Main results

* `rowCells_iff`, `countRows_eq`: the cells of a row and the number of rows, from the columns.
* `dataFileRight_iff`: for every record whose headers have the sizes that their dimensions ask for,
  the data file is what it should be if and only if the snapshot can be shown and every other column
  is sound (`ColumnSound`).
* `strings_scattered`: the file of a record with two strings of three bytes is not.
-/

open CFile

namespace TPBench

/-! ### What the table should be -/

/-- A column of the table: its header, the index of the header, and where its data begins. -/
structure TableColumn where
  header : MetaHeader
  index : ℕ
  off : ℕ

/-- The columns of headers, the data of the first of which begins at `off`. -/
def tableColumns (env : Option EnvBlock) : List (MetaHeader × ℕ) → ℕ → List TableColumn
  | [], _ => []
  | (h, hi) :: hs, off =>
      if h.dataSize = 0 ∨ sfEnvSkipCol env hi then
        tableColumns env hs (off + h.dataSize.toNat)
      else ⟨h, hi, off⟩ :: tableColumns env hs (off + h.dataSize.toNat)

/-- The columns of the table of a record. -/
def columnsOf (v : RecordView TaskAttr) (env : Option EnvBlock) : List TableColumn :=
  tableColumns env v.headers.zipIdx 0

namespace TableColumn

variable (env : Option EnvBlock) (data : Bytes) (c : TableColumn)

/-- The names of a column; a snapshot has two columns. -/
def names : List CsvCell :=
  match envAt env c.index with
  | some _ => [.ofBuf hdrEnvKey, .ofBuf hdrEnvValue]
  | none => [.ofBuf c.header.name.toList]

/-- The length of a column. -/
def rows : ℕ :=
  match envAt env c.index with
  | some b => b.nkeys
  | none => ((columnKind c.header).map (cellCount c.header)).getD 0

/-- What a row has in a column: two cells for a snapshot, and one for any other header. Below the
column they are empty. -/
def CellsAre (r : ℕ) (cells : List CsvCell) : Prop :=
  match envAt env c.index with
  | some b => cells.length = 2 ∧ (b.nkeys ≤ r → cells = [.ofBuf [], .ofBuf []])
  | none => ∃ kind cell, columnKind c.header = some kind ∧ cells = [cell] ∧
      if r < cellCount c.header kind then CellIs data c.off c.header r cell kind
      else cell = .ofBuf []

end TableColumn

/-- The length of the longest column. -/
def tableRows (env : Option EnvBlock) (cols : List TableColumn) : ℕ :=
  (cols.map (TableColumn.rows env)).foldr max 0

/-- The table is what it should be. -/
structure TableRight (v : RecordView TaskAttr) (env : Option EnvBlock) (names : List CsvCell)
    (rows : List (List CsvCell)) : Prop where
  names_eq : names = (columnsOf v env).flatMap (TableColumn.names env)
  length_eq : rows.length = tableRows env (columnsOf v env)
  width : ∀ row ∈ rows, row.length = names.length
  row : ∀ r row, rows[r]? = some row → ∃ cells,
    List.Forall₂ (fun c cs => c.CellsAre env v.data r cs) (columnsOf v env) cells ∧
      row = cells.flatten

/-- The snapshot of a record: none, or the block of its three headers when they agree. -/
def TableEnv (v : RecordView TaskAttr) (env : Option EnvBlock) : Prop :=
  match sfEnvDetectTriple v.headers with
  | none => env = none
  | some keyHi => ∃ b, sfEnvValidate v keyHi = .ok b ∧ env = some b

/-- The cells that the program computes for the table. -/
structure TableComputed (v : RecordView TaskAttr) (env : Option EnvBlock) (names : List CsvCell)
    (rows : List (List CsvCell)) : Prop where
  env_eq : TableEnv v env
  names_eq : nameCells env v.headers.zipIdx = names
  length_eq : countRows env v.headers.zipIdx 0 = .ok rows.length
  row : ∀ r row, rows[r]? = some row → rowCells v env r v.headers.zipIdx 0 = .ok row

/-- The data file of a record is what it should be: the program computes a table that is, and writes
it wherever no write fails. -/
def DataFileRight (v : RecordView TaskAttr) : Prop :=
  ∃ env names rows, TableRight v env names rows ∧ TableComputed v env names rows ∧
    ∀ w : CsvWriter, w.Steady → w.inRow = false → ∃ w', sfWriteData v w = .ok () w' ∧
      w'.content = w.content ++ csvText (names :: rows)

/-- A record whose headers have the sizes that their dimensions ask for, which sum up to the size
of the payload. -/
structure WellFormed (v : RecordView TaskAttr) : Prop where
  shaped : Shaped v
  sized : ∀ h ∈ v.headers, ∃ kind, SizedHeader h kind
  sum_eq : (v.headers.map fun h => h.dataSize.toNat).sum = v.datasize.toNat

/-- The variable of a row of the snapshot can be shown. -/
def VarShown (data : Bytes) (b : EnvBlock) (row : ℕ) : Prop :=
  ∃ kb vb key val, strAt data b.kb = some kb ∧ strAt data b.vb = some vb ∧
    sfEnvKeyToBuf cellBuf kb row = .ok key ∧
    sfEnvValueToBuf cellBuf (b.countsOf data) vb row = .ok val

/-- Each variable of the snapshot can be shown. -/
def EnvShown (data : Bytes) (b : EnvBlock) : Prop := ∀ row < b.nkeys, VarShown data b row

/-- What makes the data file right. -/
def DataSound (v : RecordView TaskAttr) : Prop :=
  ∃ env, TableEnv v env ∧ ∀ c ∈ columnsOf v env,
    match envAt env c.index with
    | some b => EnvShown v.data b
    | none => ∀ kind, columnKind c.header = some kind →
        ColumnSound v.data c.off c.header (tableRows env (columnsOf v env)) kind

/-! ### The columns of a table -/

section Table

variable {v : RecordView TaskAttr} {env : Option EnvBlock} {names : List CsvCell}
  {rows : List (List CsvCell)} {c : TableColumn}

theorem mem_tableColumns {hs : List (MetaHeader × ℕ)} {off : ℕ} (h : c ∈ tableColumns env hs off) :
    (c.header, c.index) ∈ hs ∧ c.header.dataSize ≠ 0 ∧
      c.off + c.header.dataSize.toNat ≤ off + (hs.map fun p => p.1.dataSize.toNat).sum := by
  induction hs generalizing off with
  | nil => cases h
  | cons p hs ih =>
      obtain ⟨hd, hi⟩ := p
      rw [tableColumns] at h
      rw [List.map_cons, List.sum_cons]
      dsimp only
      split_ifs at h with hskip
      · obtain ⟨hmem, hne, hle⟩ := ih h
        exact ⟨List.mem_cons_of_mem _ hmem, hne, by omega⟩
      · rcases List.mem_cons.mp h with rfl | h
        · refine ⟨List.mem_cons_self, fun hzero => hskip (.inl hzero), ?_⟩
          dsimp only
          omega
        · obtain ⟨hmem, hne, hle⟩ := ih h
          exact ⟨List.mem_cons_of_mem _ hmem, hne, by omega⟩

/-- The names of the columns. -/
theorem nameCells_eq (hs : List (MetaHeader × ℕ)) (off : ℕ) :
    nameCells env hs = (tableColumns env hs off).flatMap (TableColumn.names env) := by
  induction hs generalizing off with
  | nil => rfl
  | cons p hs ih =>
      obtain ⟨hd, hi⟩ := p
      rw [nameCells, tableColumns]
      split_ifs with hskip
      · exact ih _
      · rw [List.flatMap_cons, TableColumn.names, ← ih]
        dsimp only
        rcases envAt env hi with _ | b
        · rfl
        · rfl

/-- **The cells of a row** are those of the columns, one after the other. -/
theorem rowCells_iff {r : ℕ} {hs : List (MetaHeader × ℕ)} {off : UInt64}
    (hfit : off.toNat + (hs.map fun p => p.1.dataSize.toNat).sum ≤ v.datasize.toNat)
    {row : List CsvCell} :
    rowCells v env r hs off = .ok row ↔ ∃ cells,
      List.Forall₂ (fun c cs => columnCells env v.data r c.off c.header c.index = .ok cs)
        (tableColumns env hs off.toNat) cells ∧ row = cells.flatten := by
  induction hs generalizing off row with
  | nil =>
      rw [rowCells, tableColumns]
      constructor
      · rintro h
        cases h
        exact ⟨[], .nil, rfl⟩
      · rintro ⟨cells, hcells, rfl⟩
        cases hcells
        rfl
  | cons p hs ih =>
      obtain ⟨hd, hi⟩ := p
      rw [List.map_cons, List.sum_cons] at hfit
      dsimp only at hfit
      have hlt := v.datasize.toNat_lt
      have hadd : (off + hd.dataSize).toNat = off.toNat + hd.dataSize.toNat := by
        rw [UInt64.toNat_add, Nat.mod_eq_of_lt (by omega)]
      have hrest := @ih (off + hd.dataSize)
      rw [hadd] at hrest
      rw [rowCells, tableColumns]
      by_cases hzero : hd.dataSize = 0
      · rw [if_pos hzero, if_pos (.inl hzero)]
        have hsame : off + hd.dataSize = off := by rw [hzero, UInt64.add_zero]
        rw [hsame] at hrest
        exact hrest (by omega)
      rw [if_neg hzero]
      by_cases hskip : sfEnvSkipCol env hi = true
      · rw [if_pos hskip, if_pos (.inr hskip)]
        exact hrest (by omega)
      have hfits : ¬ off + hd.dataSize > v.datasize := by
        rw [gt_iff_lt, UInt64.lt_iff_toNat_lt, hadd]
        omega
      rw [if_neg hskip, if_neg hfits, if_neg fun h => h.elim hzero hskip]
      constructor
      · intro h
        rcases hcol : columnCells env v.data r off.toNat hd hi with e | cs
        · rw [hcol] at h
          cases h
        rw [hcol] at h
        rcases htail : rowCells v env r hs (off + hd.dataSize) with e | cs'
        · rw [htail] at h
          cases h
        rw [htail] at h
        cases h
        obtain ⟨cells, hcells, rfl⟩ := (hrest (by omega)).mp htail
        exact ⟨cs :: cells, .cons hcol hcells, rfl⟩
      · rintro ⟨cells, hcells, rfl⟩
        obtain ⟨cs, cells, hcol, htail, rfl⟩ := List.forall₂_cons_left_iff.mp hcells
        have hok := (hrest (by omega)).mpr ⟨cells, htail, rfl⟩
        dsimp only at hcol
        rw [hcol, hok]
        rfl

/-- The rows the program counts for a column. -/
def TableColumn.codeRows (env : Option EnvBlock) (c : TableColumn) : ℕ :=
  match envAt env c.index with
  | some b => b.nkeys
  | none => TPBench.codeRows c.header

/-- **The number of rows** is that of the longest column. -/
theorem countRows_eq {hs : List (MetaHeader × ℕ)} {off n : ℕ}
    (hrows : ∀ c ∈ tableColumns env hs off,
      sfColumnRows c.header (sfElemSize c.header) = .ok (TPBench.codeRows c.header)) :
    countRows env hs n =
      .ok (max n (((tableColumns env hs off).map (TableColumn.codeRows env)).foldr max 0)) := by
  induction hs generalizing off n with
  | nil => exact congrArg Except.ok (Nat.max_zero n).symm
  | cons p hs ih =>
      obtain ⟨hd, hi⟩ := p
      rw [tableColumns] at hrows ⊢
      rw [countRows]
      split_ifs at hrows ⊢ with hskip
      · exact ih hrows
      · have htail := fun m => @ih (off + hd.dataSize.toNat) m fun c hc =>
          hrows c (List.mem_cons_of_mem _ hc)
        have hhead := hrows _ List.mem_cons_self
        dsimp only at hhead
        have hmax : ∀ m : ℕ, (if m > n then m else n) = max n m := by
          intro m
          split_ifs with hlt
          · exact (max_eq_right hlt.le).symm
          · exact (max_eq_left (Nat.not_lt.mp hlt)).symm
        rw [List.map_cons, List.foldr_cons, TableColumn.codeRows, ← max_assoc]
        dsimp only
        rcases hat : envAt env hi with _ | b
        · simp only [hhead]
          rw [hmax, htail]
        · simp only
          rw [hmax, htail]

theorem le_tableRows {cols : List TableColumn} (hc : c ∈ cols) :
    c.rows env ≤ tableRows env cols :=
  List.le_max_of_le (List.mem_map_of_mem hc) le_rfl

/-! ### Rows of cells -/

theorem exists_forall₂ {α β : Type} {R : α → β → Prop} {l : List α} (h : ∀ a ∈ l, ∃ b, R a b) :
    ∃ bs, List.Forall₂ R l bs := by
  induction l with
  | nil => exact ⟨[], .nil⟩
  | cons a l ih =>
      obtain ⟨b, hb⟩ := h a List.mem_cons_self
      obtain ⟨bs, hbs⟩ := ih fun a' ha' => h a' (List.mem_cons_of_mem _ ha')
      exact ⟨b :: bs, .cons hb hbs⟩

theorem exists_of_forall₂ {α β : Type} {R : α → β → Prop} {l : List α} {bs : List β}
    (h : List.Forall₂ R l bs) {a : α} (ha : a ∈ l) : ∃ b, R a b := by
  induction h with
  | nil => cases ha
  | cons hab htail ih =>
      rcases List.mem_cons.mp ha with rfl | ha
      · exact ⟨_, hab⟩
      · exact ih ha

theorem forall₂_and {α β : Type} {R S : α → β → Prop} {l : List α} {bs : List β}
    (h : List.Forall₂ R l bs) (h' : List.Forall₂ S l bs) :
    List.Forall₂ (fun a b => R a b ∧ S a b) l bs := by
  induction h with
  | nil => exact .nil
  | cons hab htail ih =>
      obtain ⟨hs, htail'⟩ := List.forall₂_cons.mp h'
      exact .cons ⟨hab, hs⟩ (ih htail')

/-- What the program writes in a column has a cell for each of its names. -/
theorem length_columnCells {data : Bytes} {r off : ℕ} {h : MetaHeader} {hi : ℕ}
    {cs : List CsvCell} (hok : columnCells env data r off h hi = .ok cs) :
    cs.length = (TableColumn.names env ⟨h, hi, off⟩).length := by
  rw [columnCells] at hok
  rw [TableColumn.names]
  dsimp only
  rcases hat : envAt env hi with _ | b
  · rw [hat] at hok
    dsimp only at hok ⊢
    split at hok
    · cases hok
    · split_ifs at hok
      · rename_i nr hnr hlt
        rcases hf : sfFormatElem h data (off + r * sfElemSize h) (sfElemSize h) with e | x
        · rw [hf] at hok
          cases hok
        · rw [hf] at hok
          cases hok
          rfl
      · cases hok
        rfl
  · rw [hat] at hok
    dsimp only at hok ⊢
    split_ifs at hok
    · split at hok
      · split at hok
        · cases hok
          rfl
        · cases hok
      · cases hok
    · cases hok
      rfl

theorem TableColumn.CellsAre.length_eq {data : Bytes} {r : ℕ} {cs : List CsvCell}
    (h : c.CellsAre env data r cs) : cs.length = (c.names env).length := by
  rw [TableColumn.CellsAre] at h
  rw [TableColumn.names]
  rcases hat : envAt env c.index with _ | b
  · rw [hat] at h
    obtain ⟨kind, cell, -, rfl, -⟩ := h
    rfl
  · rw [hat] at h
    exact h.1

/-- A row with the right cells has a cell for each name. -/
theorem length_flatten_of_right {data : Bytes} {r : ℕ} {cols : List TableColumn}
    {cells : List (List CsvCell)}
    (h : List.Forall₂ (fun c cs => c.CellsAre env data r cs) cols cells) :
    cells.flatten.length = (cols.flatMap (TableColumn.names env)).length := by
  induction h with
  | nil => rfl
  | cons hcs htail ih =>
      rw [List.flatten_cons, List.flatMap_cons, List.length_append, List.length_append, ih,
        hcs.length_eq]

/-- The cells of a row are those of the columns in one way only. -/
theorem cells_unique {data : Bytes} {r : ℕ} {cols : List TableColumn}
    {cells cells' : List (List CsvCell)}
    (h : List.Forall₂ (fun c cs => columnCells env data r c.off c.header c.index = .ok cs)
      cols cells)
    (h' : List.Forall₂ (fun c cs => c.CellsAre env data r cs) cols cells')
    (heq : cells.flatten = cells'.flatten) : cells = cells' := by
  refine List.eq_iff_flatten_eq.mpr ⟨heq, ?_⟩
  clear heq
  induction h generalizing cells' with
  | nil =>
      cases h'
      rfl
  | cons hcs htail ih =>
      obtain ⟨cs', rest, hright, hrest, rfl⟩ := List.forall₂_cons_left_iff.mp h'
      rw [List.map_cons, List.map_cons, ih hrest, length_columnCells hcs, hright.length_eq]

end Table

/-! ### The file -/

section File

variable {v : RecordView TaskAttr} {env : Option EnvBlock} {names : List CsvCell}
  {rows : List (List CsvCell)} {c : TableColumn}

/-- A table that the program computes is written wherever no write fails. -/
theorem TableComputed.written (h : TableComputed v env names rows) {w : CsvWriter}
    (hw : w.Steady) (hrow : w.inRow = false) : ∃ w', sfWriteData v w = .ok () w' ∧
      w'.content = w.content ++ csvText (names :: rows) := by
  have hcells : ∀ i < rows.length,
      rowCells v env i v.headers.zipIdx 0 = .ok (rows.getD i []) := by
    intro i hi
    have hget : rows[i]? = some rows[i] := List.getElem?_eq_getElem hi
    rw [List.getD_eq_getElem?_getD, hget]
    exact h.row i _ hget
  obtain ⟨w', hok, hcontent⟩ := writeTable_ok hw hrow h.length_eq hcells
  have hrows : (List.range rows.length).map (fun i => rows.getD i []) = rows := by
    refine List.ext_getElem (by simp) fun i hi hi' => ?_
    simp [List.getElem?_eq_getElem hi']
  refine ⟨w', ?_, by rw [hcontent, h.names_eq, hrows]⟩
  have henv := h.env_eq
  rw [TableEnv] at henv
  rw [sfWriteData]
  split at henv
  · rename_i hnone
    simp only [hnone]
    rwa [henv] at hok
  · rename_i keyHi hsome
    obtain ⟨b, hb, rfl⟩ := henv
    simp only [hsome]
    exact bind_then (liftCsv_eq_ok.mpr ⟨hb, rfl⟩) hok

namespace WellFormed

theorem sizes_le (hv : WellFormed v) :
    (0 : UInt64).toNat + (v.headers.zipIdx.map fun p => p.1.dataSize.toNat).sum ≤
      v.datasize.toNat := by
  have hmap : v.headers.zipIdx.map (fun p => p.1.dataSize.toNat) =
      v.headers.map fun h => h.dataSize.toNat := by
    conv_rhs => rw [← List.zipIdx_map_fst 0 v.headers, List.map_map]
    rfl
  rw [hmap, hv.sum_eq, UInt64.toNat_zero, Nat.zero_add]

/-- A column has a kind, and its data lies in the payload. -/
theorem column (hv : WellFormed v) (hc : c ∈ columnsOf v env) :
    (∃ kind, SizedHeader c.header kind) ∧ c.header.dataSize ≠ 0 ∧
      c.off + c.header.dataSize.toNat ≤ v.data.length := by
  obtain ⟨hmem, hne, hle⟩ := mem_tableColumns hc
  have hsum := hv.sizes_le
  rw [UInt64.toNat_zero] at hsum
  refine ⟨hv.sized _ (List.fst_mem_of_mem_zipIdx hmem), hne, ?_⟩
  rw [hv.shaped.data]
  exact hle.trans hsum

theorem countRows_eq (hv : WellFormed v) : countRows env v.headers.zipIdx 0 =
    .ok (((columnsOf v env).map (TableColumn.codeRows env)).foldr max 0) := by
  have hrows : ∀ c ∈ tableColumns env v.headers.zipIdx 0,
      sfColumnRows c.header (sfElemSize c.header) = .ok (TPBench.codeRows c.header) := by
    intro c hc
    obtain ⟨⟨kind, hsized⟩, hne, -⟩ := hv.column hc
    exact hsized.sfColumnRows_codeRows hne
  rw [TPBench.countRows_eq hrows, Nat.zero_max]
  rfl

/-- Away from the snapshot, a column of the table is the column of its header. -/
theorem columnRight_iff_cells (hv : WellFormed v) (hc : c ∈ columnsOf v env)
    (hat : envAt env c.index = none) {n : ℕ} (hn : TPBench.codeRows c.header ≤ n)
    {kind : ColumnKind} (hkind : SizedHeader c.header kind) :
    ColumnRight v.data c.off c.header kind n ↔ ∀ r < n, ∃ cs,
      columnCells env v.data r c.off c.header c.index = .ok cs ∧ c.CellsAre env v.data r cs := by
  obtain ⟨-, hne, -⟩ := hv.column hc
  have hsame : ∀ r, columnCells env v.data r c.off c.header c.index =
      columnCells none v.data r c.off c.header 0 := by
    intro r
    have hfree : envAt none 0 = none := rfl
    rw [columnCells, columnCells, hat, hfree]
  have hcells : ∀ r cs, c.CellsAre env v.data r cs ↔ ∃ cell, cs = [cell] ∧
      if r < cellCount c.header kind then CellIs v.data c.off c.header r cell kind
      else cell = .ofBuf [] := by
    intro r cs
    rw [TableColumn.CellsAre, hat]
    constructor
    · rintro ⟨kind', cell, hk, rfl, hcell⟩
      obtain rfl := Option.some.inj (hkind.kind_eq.symm.trans hk)
      exact ⟨cell, rfl, hcell⟩
    · rintro ⟨cell, rfl, hcell⟩
      exact ⟨kind, cell, hkind.kind_eq, rfl, hcell⟩
  constructor
  · rintro ⟨-, hright⟩ r hr
    obtain ⟨cell, hok, hcell⟩ := hright r hr
    exact ⟨[cell], (hsame r).trans hok, (hcells r _).mpr ⟨cell, rfl, hcell⟩⟩
  · intro hright
    refine ⟨⟨_, hn, hkind.sfColumnRows_codeRows hne⟩, fun r hr => ?_⟩
    obtain ⟨cs, hok, hcs⟩ := hright r hr
    obtain ⟨cell, rfl, hcell⟩ := (hcells r cs).mp hcs
    exact ⟨cell, (hsame r).symm.trans hok, hcell⟩

end WellFormed

/-- In a table that is computed and right, each column is. -/
theorem TableComputed.column (hv : WellFormed v) (h : TableComputed v env names rows)
    (hright : TableRight v env names rows) (hc : c ∈ columnsOf v env) {r : ℕ}
    (hr : r < rows.length) : ∃ cs,
      columnCells env v.data r c.off c.header c.index = .ok cs ∧ c.CellsAre env v.data r cs := by
  have hget : rows[r]? = some rows[r] := List.getElem?_eq_getElem hr
  obtain ⟨cells, hcells, hrow⟩ := (rowCells_iff hv.sizes_le).mp (h.row r _ hget)
  obtain ⟨cells', hcells', hrow'⟩ := hright.row r _ hget
  obtain rfl := cells_unique hcells hcells' (hrow.symm.trans hrow')
  exact exists_of_forall₂ (forall₂_and hcells hcells') hc

/-- A data file that is right has a snapshot that can be shown, and sound columns. -/
theorem DataFileRight.sound (hv : WellFormed v) (h : DataFileRight v) : DataSound v := by
  obtain ⟨env, names, rows, hright, hcomputed, -⟩ := h
  have hlen : rows.length = ((columnsOf v env).map (TableColumn.codeRows env)).foldr max 0 :=
    Except.ok.inj (hcomputed.length_eq.symm.trans hv.countRows_eq)
  refine ⟨env, hcomputed.env_eq, fun c hc => ?_⟩
  have hcount : c.codeRows env ≤ rows.length := by
    rw [hlen]
    exact List.le_max_of_le (List.mem_map_of_mem hc) le_rfl
  rw [TableColumn.codeRows] at hcount
  rcases hat : envAt env c.index with _ | b
  · rw [hat] at hcount
    intro kind hk
    obtain ⟨⟨kind', hsized⟩, hne, hoff⟩ := hv.column hc
    obtain rfl := Option.some.inj (hsized.kind_eq.symm.trans hk)
    have hcells : cellCount c.header kind' ≤ rows.length := by
      have hle := @le_tableRows env c _ hc
      rw [TableColumn.rows, hat, hk] at hle
      rwa [hright.length_eq]
    rw [← hright.length_eq]
    refine (columnRight_iff hsized hne hoff hcells).mp ?_
    exact (hv.columnRight_iff_cells hc hat hcount hsized).mpr fun r hr =>
      hcomputed.column hv hright hc hr
  · rw [hat] at hcount
    intro row hrow
    obtain ⟨cs, hok, -⟩ := hcomputed.column hv hright hc (hrow.trans_le hcount)
    rw [columnCells, hat] at hok
    dsimp only at hok
    rw [if_pos hrow] at hok
    split at hok
    · rename_i kb vb hkb hvb
      split at hok
      · rename_i key val hkey hval
        exact ⟨kb, vb, key, val, hkb, hvb, hkey, hval⟩
      · cases hok
    · cases hok

/-- A sound column has as many rows as it should or more, no more than are counted, and in each row
the cell that is right. -/
theorem WellFormed.column_of_free (hv : WellFormed v) (hc : c ∈ columnsOf v env)
    (hat : envAt env c.index = none)
    (hsound : ∀ kind, columnKind c.header = some kind →
      ColumnSound v.data c.off c.header (tableRows env (columnsOf v env)) kind) :
    c.rows env ≤ c.codeRows env ∧ c.codeRows env ≤ tableRows env (columnsOf v env) ∧
      ∀ r < tableRows env (columnsOf v env), ∃ cs,
        columnCells env v.data r c.off c.header c.index = .ok cs ∧
          c.CellsAre env v.data r cs := by
  have hle := @le_tableRows env c _ hc
  obtain ⟨⟨kind, hsized⟩, hne, hoff⟩ := hv.column hc
  have hkind := hsound kind hsized.kind_eq
  have hrows : c.rows env = cellCount c.header kind := by
    rw [TableColumn.rows, hat, hsized.kind_eq]
    rfl
  have hcode : c.codeRows env = TPBench.codeRows c.header := by
    rw [TableColumn.codeRows, hat]
  rw [hrows] at hle
  have hright := (columnRight_iff hsized hne hoff hle).mpr hkind
  obtain ⟨nr, hnr, hok⟩ := hright.rows
  obtain rfl := Except.ok.inj ((hsized.sfColumnRows_codeRows hne).symm.trans hok)
  rw [hrows, hcode]
  exact ⟨cellCount_le_codeRows hsized hne hkind, hnr,
    (hv.columnRight_iff_cells hc hat hnr hsized).mp hright⟩

/-- The columns of a snapshot that can be shown have a row for each variable. -/
theorem column_of_env {b : EnvBlock} (hc : c ∈ columnsOf v env)
    (hat : envAt env c.index = some b) (hshown : EnvShown v.data b) :
    c.rows env ≤ c.codeRows env ∧ c.codeRows env ≤ tableRows env (columnsOf v env) ∧
      ∀ r < tableRows env (columnsOf v env), ∃ cs,
        columnCells env v.data r c.off c.header c.index = .ok cs ∧
          c.CellsAre env v.data r cs := by
  have hle := @le_tableRows env c _ hc
  have hrows : c.rows env = b.nkeys := by rw [TableColumn.rows, hat]
  have hcode : c.codeRows env = b.nkeys := by rw [TableColumn.codeRows, hat]
  rw [hrows] at hle
  rw [hrows, hcode]
  refine ⟨le_rfl, hle, fun r hr => ?_⟩
  unfold TableColumn.CellsAre
  rw [columnCells, hat]
  dsimp only
  by_cases hrow : r < b.nkeys
  · obtain ⟨kb, vb, key, val, hkb, hvb, hkey, hval⟩ := hshown r hrow
    rw [if_pos hrow, hkb, hvb]
    dsimp only
    rw [hkey, hval]
    exact ⟨_, rfl, rfl, fun hge => absurd hrow (Nat.not_lt.mpr hge)⟩
  · rw [if_neg hrow]
    exact ⟨_, rfl, rfl, fun _ => rfl⟩

/-- The rows that are counted are those of the longest column. -/
theorem WellFormed.countRows_eq_tableRows (hv : WellFormed v)
    (hcolumn : ∀ c ∈ columnsOf v env, c.rows env ≤ c.codeRows env ∧
      c.codeRows env ≤ tableRows env (columnsOf v env)) :
    countRows env v.headers.zipIdx 0 = .ok (tableRows env (columnsOf v env)) := by
  rw [hv.countRows_eq]
  refine congrArg Except.ok (le_antisymm ?_ ?_)
  · refine List.max_le_of_forall_le _ _ fun n hn => ?_
    obtain ⟨c, hc, rfl⟩ := List.mem_map.mp hn
    exact (hcolumn c hc).2
  · refine List.max_le_of_forall_le _ _ fun n hn => ?_
    obtain ⟨c, hc, rfl⟩ := List.mem_map.mp hn
    exact (hcolumn c hc).1.trans (List.le_max_of_le (List.mem_map_of_mem hc) le_rfl)

/-- Sound columns make a table that is computed and right. -/
theorem DataSound.fileRight (hv : WellFormed v) (h : DataSound v) : DataFileRight v := by
  obtain ⟨env, henv, hsound⟩ := h
  have hcolumn : ∀ c ∈ columnsOf v env, c.rows env ≤ c.codeRows env ∧
      c.codeRows env ≤ tableRows env (columnsOf v env) ∧
      ∀ r < tableRows env (columnsOf v env), ∃ cs,
        columnCells env v.data r c.off c.header c.index = .ok cs ∧
          c.CellsAre env v.data r cs := by
    intro c hc
    have hmatch := hsound c hc
    rcases hat : envAt env c.index with _ | b
    · rw [hat] at hmatch
      exact hv.column_of_free hc hat hmatch
    · rw [hat] at hmatch
      exact column_of_env hc hat hmatch
  have hcount := hv.countRows_eq_tableRows fun c hc => ⟨(hcolumn c hc).1, (hcolumn c hc).2.1⟩
  have hrows : ∀ r, ∃ cells : List (List CsvCell), r < tableRows env (columnsOf v env) →
      List.Forall₂ (fun c cs => columnCells env v.data r c.off c.header c.index = .ok cs ∧
        c.CellsAre env v.data r cs) (columnsOf v env) cells := by
    intro r
    by_cases hr : r < tableRows env (columnsOf v env)
    · obtain ⟨cells, hcells⟩ := exists_forall₂ fun c hc => (hcolumn c hc).2.2 r hr
      exact ⟨cells, fun _ => hcells⟩
    · exact ⟨[], fun h => absurd h hr⟩
  choose cells hcells using hrows
  have hget : ∀ r row, ((List.range (tableRows env (columnsOf v env))).map
      fun r => (cells r).flatten)[r]? = some row →
        r < tableRows env (columnsOf v env) ∧ row = (cells r).flatten := by
    intro r row h
    rw [List.getElem?_map, Option.map_eq_some_iff] at h
    obtain ⟨k, hk, rfl⟩ := h
    obtain ⟨hlt, rfl⟩ := List.getElem?_eq_some_iff.mp hk
    rw [List.length_range] at hlt
    rw [List.getElem_range]
    exact ⟨hlt, rfl⟩
  have hcomputed : TableComputed v env ((columnsOf v env).flatMap (TableColumn.names env))
      ((List.range (tableRows env (columnsOf v env))).map fun r => (cells r).flatten) := by
    refine ⟨henv, nameCells_eq _ _, ?_, fun r row h => ?_⟩
    · rw [hcount, List.length_map, List.length_range]
    · obtain ⟨hlt, rfl⟩ := hget r row h
      exact (rowCells_iff hv.sizes_le).mpr ⟨_, (hcells r hlt).imp fun _ _ h => h.1, rfl⟩
  refine ⟨env, _, _, ⟨rfl, by simp, fun row hrow => ?_, fun r row h => ?_⟩, hcomputed,
    fun w hw hrow => hcomputed.written hw hrow⟩
  · obtain ⟨r, hr⟩ := List.mem_iff_getElem?.mp hrow
    obtain ⟨hlt, rfl⟩ := hget r row hr
    exact length_flatten_of_right ((hcells r hlt).imp fun _ _ h => h.2)
  · obtain ⟨hlt, rfl⟩ := hget r row h
    exact ⟨_, (hcells r hlt).imp fun _ _ h => h.2, rfl⟩

/-- **The data file of a record.** For every record whose headers have the sizes that their
dimensions and kinds ask for: its data file is what it should be if and only if the snapshot, if
there is one, can be shown, and every other column is sound. -/
theorem dataFileRight_iff (hv : WellFormed v) : DataFileRight v ↔ DataSound v :=
  ⟨DataFileRight.sound hv, DataSound.fileRight hv⟩

end File

/-! ### Two records -/

/-- A record with one header. -/
def singleRecord (h : MetaHeader) (data : Bytes) : RecordView TaskAttr :=
  ⟨{ TaskAttr.zero with nheader := 1 }, [h], UInt64.ofNat data.length, data⟩

theorem wellFormed_singleRecord {h : MetaHeader} {data : Bytes} {kind : ColumnKind}
    (hh : SizedHeader h kind) (hlt : data.length < 2 ^ 64)
    (hsize : h.dataSize.toNat = data.length) : WellFormed (singleRecord h data) where
  shaped := ⟨rfl, (UInt64.toNat_ofNat_of_lt' hlt).symm⟩
  sized := by
    intro h' hmem
    obtain rfl := List.mem_singleton.mp hmem
    exact ⟨kind, hh⟩
  sum_eq := by
    change h.dataSize.toNat + 0 = (UInt64.ofNat data.length).toNat
    rw [UInt64.toNat_ofNat_of_lt' hlt, Nat.add_zero, hsize]

theorem tableEnv_singleRecord {h : MetaHeader} {data : Bytes} {env : Option EnvBlock} :
    TableEnv (singleRecord h data) env ↔ env = none := Iff.rfl

theorem columnsOf_singleRecord {h : MetaHeader} {data : Bytes} (hd : h.dataSize ≠ 0) :
    columnsOf (singleRecord h data) none = [⟨h, 0, 0⟩] := by
  rw [columnsOf, singleRecord, List.zipIdx_cons, tableColumns, if_neg]
  · rfl
  · rintro (hzero | hskip)
    · exact hd hzero
    · cases hskip

/-- Three numbers of four bytes. -/
def numbersHeader : MetaHeader :=
  { MetaHeader.zero with
    ndim := 1, dataSize := 12, typeBits := tpbInt32T
    dimsizes := MetaHeader.zero.dimsizes.set 0 3 }

theorem sized_numbersHeader : SizedHeader numbersHeader (.int 4 true) :=
  ⟨rfl, by decide, rfl⟩

/-- A string of three bytes. -/
def wordHeader : MetaHeader :=
  { MetaHeader.zero with
    ndim := 1, dataSize := 3, typeBits := tpbStringT
    dimsizes := MetaHeader.zero.dimsizes.set 0 3 }

theorem sized_wordHeader : SizedHeader wordHeader .string :=
  ⟨rfl, by decide, rfl⟩

/-- The numbers 7, 8 and 9, and the string `"ab"`. -/
def columnsRecord : RecordView TaskAttr :=
  ⟨{ TaskAttr.zero with nheader := 2 }, [numbersHeader, wordHeader], 15,
    [7, 0, 0, 0, 8, 0, 0, 0, 9, 0, 0, 0, 97, 98, 0]⟩

theorem wellFormed_columnsRecord : WellFormed columnsRecord where
  shaped := ⟨rfl, rfl⟩
  sized := by
    change ∀ h ∈ [numbersHeader, wordHeader], _
    rw [List.forall_mem_cons, List.forall_mem_singleton]
    exact ⟨⟨_, sized_numbersHeader⟩, _, sized_wordHeader⟩
  sum_eq := rfl

/-- The data file of the two columns. -/
theorem columns_shown : DataFileRight columnsRecord := by
  have hcols : columnsOf columnsRecord none = [⟨numbersHeader, 0, 0⟩, ⟨wordHeader, 1, 12⟩] := rfl
  refine (dataFileRight_iff wellFormed_columnsRecord).mpr ⟨none, rfl, ?_⟩
  rw [hcols, List.forall_mem_cons, List.forall_mem_singleton]
  constructor
  · intro kind hkind
    obtain rfl := Option.some.inj (hkind.symm.trans sized_numbersHeader.kind_eq)
    have hdt : sfHdrDtype numbersHeader = tpbInt32T := rfl
    exact .inl (by simp [hdt])
  · intro kind hkind
    obtain rfl := Option.some.inj (hkind.symm.trans sized_wordHeader.kind_eq)
    rw [ColumnSound, if_pos (by decide)]
    decide

/-- Two strings of three bytes. -/
def stringsHeader : MetaHeader :=
  { MetaHeader.zero with
    ndim := 2, dataSize := 6, typeBits := tpbStringT
    dimsizes := (MetaHeader.zero.dimsizes.set 0 3).set 1 2 }

theorem sized_stringsHeader : SizedHeader stringsHeader .string :=
  ⟨rfl, by simp [stringsHeader, ndimMax], rfl⟩

/-- The strings `"ab"` and `"cd"` fill six rows. -/
theorem strings_scattered : ∃ v, WellFormed v ∧ ¬DataFileRight v := by
  have hwf := @wellFormed_singleRecord stringsHeader [97, 98, 0, 99, 100, 0] .string
    sized_stringsHeader (by simp) rfl
  refine ⟨_, hwf, fun hright => ?_⟩
  obtain ⟨env, henv, hsound⟩ := hright.sound hwf
  obtain rfl := tableEnv_singleRecord.mp henv
  have hcols := @columnsOf_singleRecord stringsHeader [97, 98, 0, 99, 100, 0]
    (by simp [stringsHeader])
  have hstring := hsound ⟨stringsHeader, 0, 0⟩ (by rw [hcols]; simp) .string
    sized_stringsHeader.kind_eq
  rw [ColumnSound, if_neg (by simp [stringsHeader])] at hstring
  rcases hstring with ⟨hone, -⟩ | ⟨-, hzero, -⟩
  · cases hone
  · have := hzero 1 le_rfl (by rw [show elemCount stringsHeader = 6 from rfl]; omega)
    cases this

end TPBench
