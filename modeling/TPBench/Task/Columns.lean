import TPBench.Task.ExportData

/-!
# Columns of One Dimension

The headers of a task record, those of the snapshot apart, describe arrays of one dimension.
Such a column never stops the export: the number of its rows can be computed, each element it
shows lies in the payload, and a string that is not closed in its own data is closed by what
follows it. So every row has exactly one cell for each of these columns (`rowCells_plain`).
-/

open CFile

namespace TPBench

/-! ### Elements -/

/-- One extent has no product that overflows. -/
theorem dimProduct_ok {ds : List UInt64} (h : ds.length ≤ 1) :
    ∃ total, dimProduct ds 1 = .ok total := by
  match ds, h with
  | [], _ => exact ⟨1, rfl⟩
  | [d], _ =>
      rw [dimProduct]
      by_cases hzero : d = 0
      · exact ⟨0, if_pos hzero⟩
      · have hpos : 0 < d.toNat := by
          rw [Nat.pos_iff_ne_zero]
          exact fun h => hzero (UInt64.toNat_inj.mp h)
        have hlt := d.toNat_lt
        have hle : ¬ (1 : UInt64) > 0xFFFFFFFFFFFFFFFF / d := by
          rw [gt_iff_lt, UInt64.lt_iff_toNat_lt, UInt64.toNat_div, Nat.not_lt]
          simp only [UInt64.reduceToNat]
          exact (Nat.le_div_iff_mul_le hpos).mpr (by omega)
        rw [if_neg hzero, if_neg hle]
        exact ⟨_, rfl⟩

/-- The rows of a column of one dimension: a string is one row, and any other column has at
most the elements that its data holds. -/
theorem sfColumnRows_one {h : MetaHeader} (hn : h.ndim = 1) {esz : ℕ} (hesz : 0 < esz) :
    ∃ nr, sfColumnRows h esz = .ok nr ∧
      (sfHdrDtype h = tpbStringT ∧ nr = 1 ∨
        sfHdrDtype h ≠ tpbStringT ∧ nr * esz ≤ h.dataSize.toNat) := by
  rw [sfColumnRows, hn]
  by_cases hstring : sfHdrDtype h = tpbStringT
  · exact ⟨1, if_pos ⟨hstring, by decide⟩, .inl ⟨hstring, rfl⟩⟩
  obtain ⟨total, htotal⟩ := @dimProduct_ok (h.dimsizes.toList.take (1 : UInt32).toNat)
    (by rw [List.length_take]; exact min_le_left _ _)
  rw [if_neg fun h => hstring h.1, if_neg (by decide), htotal]
  refine ⟨_, rfl, .inr ⟨hstring, ?_⟩⟩
  have hmul := Nat.div_mul_le_self h.dataSize.toNat esz
  dsimp only
  split
  · exact hmul
  · rename_i hguard
    by_cases hzero : total = 0
    · simp [hzero]
    · have hpos : 0 < total := by
        rw [UInt64.lt_iff_toNat_lt, UInt64.toNat_zero, Nat.pos_iff_ne_zero]
        exact fun h => hzero (UInt64.toNat_inj.mp h)
      have hle : total.toNat ≤ h.dataSize.toNat / esz := by
        rw [← Nat.not_lt]
        exact fun hlt => hguard ⟨hesz, hpos, hlt⟩
      exact (Nat.mul_le_mul_right esz hle).trans hmul

/-- The element size of a known type. -/
theorem sfElemSize_eq {h : MetaHeader} (hlink : sfIsTaskidLink h = false) {dt : UInt32} {n : ℕ}
    (hdt : sfHdrDtype h = dt) (hn : tpbDtypeElemSize dt = some n) : sfElemSize h = n := by
  rw [sfElemSize, hlink, hdt, hn]
  rfl

theorem tpbDtypeElemSize_pos {dt : UInt32} {n : ℕ} (h : tpbDtypeElemSize dt = some n) :
    0 < n := by
  rw [tpbDtypeElemSize] at h
  split_ifs at h
  all_goals
    obtain rfl := Option.some.inj h
    decide

/-- No element of a vector is empty. -/
theorem sfElemSize_pos {h : MetaHeader} (hn : h.ndim = 1) : 0 < sfElemSize h := by
  rw [sfElemSize]
  split
  · decide
  · split
    · rename_i esz hsome
      exact tpbDtypeElemSize_pos hsome
    · rw [if_neg (by simp [hn])]
      decide

theorem bytesAt_ok {data : Bytes} {pos n : ℕ} (h : pos + n ≤ data.length) :
    bytesAt data pos n = .ok (pread data pos n) := if_pos h

/-- An element that lies in the payload can be shown. A string may run on into what follows
the payload, where there is a terminator. -/
theorem sfFormatElem_ok {h : MetaHeader} {d tail : Bytes} {pos : ℕ} (hn : h.ndim = 1)
    (htail : 6 ≤ tail.length) (hnul : 0 ∈ tail)
    (hlink : sfIsTaskidLink h = true → sfHdrDtype h ≠ tpbStringT)
    (hpos : sfHdrDtype h = tpbStringT ∧ pos ≤ d.length ∨ pos + sfElemSize h ≤ d.length) :
    ∃ c, sfFormatElem h (d ++ tail) pos (sfElemSize h) = .ok c := by
  have hesz := sfElemSize_pos hn
  have hlen : (d ++ tail).length = d.length + tail.length := List.length_append
  have hread : ∀ (n : ℕ) (f : Bytes → CsvCell), pos + n ≤ d.length + tail.length →
      ∃ c, (bytesAt (d ++ tail) pos n).map f = .ok c := by
    intro n f hle
    rw [bytesAt_ok (by rwa [hlen])]
    exact ⟨_, rfl⟩
  have hfit : sfHdrDtype h ≠ tpbStringT → pos + sfElemSize h ≤ d.length := by
    intro hne
    rcases hpos with ⟨heq, -⟩ | hle
    · exact absurd heq hne
    · exact hle
  unfold sfFormatElem
  dsimp only
  cases hl : sfIsTaskidLink h with
  | true =>
      have h20 : sfElemSize h = 20 := by rw [sfElemSize, hl]; rfl
      have := hfit (hlink hl)
      exact hread 20 _ (by omega)
  | false =>
      rw [if_neg (by simp)]
      split_ifs with hc hf hd hu hi hu64 hi64 hs
      · exact ⟨_, rfl⟩
      · have h4 := sfElemSize_eq hl hf (n := 4) (by decide)
        have := hfit (by rw [hf]; decide)
        exact hread 4 _ (by omega)
      · have h8 := sfElemSize_eq hl hd (n := 8) (by decide)
        have := hfit (by rw [hd]; decide)
        exact hread 8 _ (by omega)
      · have := hfit (by rcases hu with hu | hu <;> rw [hu] <;> decide)
        exact hread 4 _ (by omega)
      · have h4 : sfElemSize h = 4 := by
          rcases hi with hi | hi
          · exact sfElemSize_eq hl hi (by decide)
          · exact sfElemSize_eq hl hi (by decide)
        have := hfit (by rcases hi with hi | hi <;> rw [hi] <;> decide)
        exact hread 4 _ (by omega)
      · have h8 := sfElemSize_eq hl hu64 (n := 8) (by decide)
        have := hfit (by rw [hu64]; decide)
        exact hread 8 _ (by omega)
      · have h8 := sfElemSize_eq hl hi64 (n := 8) (by decide)
        have := hfit (by rw [hi64]; decide)
        exact hread 8 _ (by omega)
      · have hle : pos ≤ d.length := by
          rcases hpos with ⟨-, hle⟩ | hle
          · exact hle
          · omega
        have hmem : 0 ∈ (d ++ tail).drop pos := by
          rw [List.drop_append_of_le_length hle]
          exact List.mem_append_right _ hnul
        rw [strAt, if_pos hmem]
        exact ⟨_, rfl⟩
      · have := hfit hs
        exact hread _ _ (by omega)

/-- A column of one dimension has a cell in each row. -/
theorem columnCells_plain {env : Option EnvBlock} {hi row off : ℕ} {h : MetaHeader}
    {d tail : Bytes} (henv : envAt env hi = none) (hn : h.ndim = 1) (htail : 6 ≤ tail.length)
    (hnul : 0 ∈ tail) (hlink : sfIsTaskidLink h = true → sfHdrDtype h ≠ tpbStringT)
    (hoff : off + h.dataSize.toNat ≤ d.length) :
    ∃ c, columnCells env (d ++ tail) row off h hi = .ok [c] := by
  obtain ⟨nr, hnr, hrows⟩ := sfColumnRows_one hn (sfElemSize_pos hn)
  rw [columnCells, henv]
  simp only [hnr]
  by_cases hrow : row < nr
  · have hpos : sfHdrDtype h = tpbStringT ∧ off + row * sfElemSize h ≤ d.length ∨
        off + row * sfElemSize h + sfElemSize h ≤ d.length := by
      rcases hrows with ⟨hstring, rfl⟩ | ⟨-, hle⟩
      · obtain rfl : row = 0 := by omega
        exact .inl ⟨hstring, by omega⟩
      · have hmul : (row + 1) * sfElemSize h ≤ nr * sfElemSize h :=
          Nat.mul_le_mul_right _ hrow
        rw [Nat.add_mul, Nat.one_mul] at hmul
        exact .inr (by omega)
    obtain ⟨c, hc⟩ := sfFormatElem_ok hn htail hnul hlink hpos
    rw [if_pos hrow, hc]
    exact ⟨c, rfl⟩
  · rw [if_neg hrow]
    exact ⟨_, rfl⟩

/-! ### Rows -/

/-- The other columns of a table, from the header with index `i` on. -/
structure PlainColumns (env : Option EnvBlock) (hs : List MetaHeader) (i : ℕ) : Prop where
  free : ∀ j, i ≤ j → j < i + hs.length → envAt env j = none ∧ sfEnvSkipCol env j = false
  ndim_eq : ∀ h ∈ hs, h.ndim = 1
  link_ne : ∀ h ∈ hs, sfIsTaskidLink h = true → sfHdrDtype h ≠ tpbStringT

/-- What is plain stays plain without its first column. -/
theorem PlainColumns.cons {env : Option EnvBlock} {h : MetaHeader} {hs : List MetaHeader}
    {i : ℕ} (hc : PlainColumns env (h :: hs) i) : PlainColumns env hs (i + 1) where
  free := by
    intro j hj hj'
    refine hc.free j (by omega) ?_
    rw [List.length_cons]
    omega
  ndim_eq := fun x hx => hc.ndim_eq x (by simp [hx])
  link_ne := fun x hx => hc.link_ne x (by simp [hx])

/-- A plain column is not one of the snapshot. -/
theorem PlainColumns.head {env : Option EnvBlock} {h : MetaHeader} {hs : List MetaHeader}
    {i : ℕ} (hc : PlainColumns env (h :: hs) i) :
    envAt env i = none ∧ sfEnvSkipCol env i = false :=
  hc.free i le_rfl (by simp)

/-- The number of headers with data. -/
def ncolumns (hs : List MetaHeader) : ℕ := (hs.filter (·.dataSize ≠ 0)).length

/-- A header without data has no column. -/
theorem ncolumns_cons (h : MetaHeader) (hs : List MetaHeader) :
    ncolumns (h :: hs) = (if h.dataSize = 0 then 0 else 1) + ncolumns hs := by
  rw [ncolumns, ncolumns, List.filter_cons]
  split_ifs with h₁ h₂ h₂
  · exact absurd h₂ (by simpa using h₁)
  · rw [List.length_cons]
    omega
  · simp
  · exact absurd h₂ (by simpa using h₁)

theorem Except.map_append {ε : Type} (a b : List CsvCell) (x : Except ε (List CsvCell)) :
    (x.map (b ++ ·)).map (a ++ ·) = x.map (a ++ b ++ ·) := by
  cases x with
  | error e => rfl
  | ok c => simp [Except.map]

/-- Every row has a cell in each of the other columns with data. -/
theorem rowCells_plain {v : RecordView TaskAttr} {env : Option EnvBlock} {row : ℕ}
    {d tail : Bytes} (hdata : v.data = d ++ tail)
    (hsize : v.datasize.toNat = d.length + tail.length) (htail : 6 ≤ tail.length)
    (hnul : 0 ∈ tail) {hs : List MetaHeader} {i : ℕ} (hc : PlainColumns env hs i) {off : UInt64}
    (hoff : off.toNat + (hs.map fun h => h.dataSize.toNat).sum ≤ d.length) :
    ∃ cells, cells.length = ncolumns hs ∧ ∀ rest,
      rowCells v env row (hs.zipIdx i ++ rest) off =
        (rowCells v env row rest (off + (hs.map MetaHeader.dataSize).sum)).map (cells ++ ·) := by
  induction hs generalizing i off with
  | nil =>
      refine ⟨[], rfl, fun rest => ?_⟩
      rw [List.map_nil, List.sum_nil, UInt64.add_zero]
      simp only [List.zipIdx_nil, List.nil_append]
      rcases rowCells v env row rest off with e | cells
      · rfl
      · rfl
  | cons h hs ih =>
      obtain ⟨hfree, hskip⟩ := hc.head
      rw [List.map_cons, List.sum_cons] at hoff
      have hlt := v.datasize.toNat_lt
      have hadd : (off + h.dataSize).toNat = off.toNat + h.dataSize.toNat := by
        rw [UInt64.toNat_add, Nat.mod_eq_of_lt (by omega)]
      obtain ⟨cells, hlen, hrest⟩ := @ih (i + 1) hc.cons (off + h.dataSize) (by omega)
      by_cases hzero : h.dataSize = 0
      · refine ⟨cells, by rw [hlen, ncolumns_cons, if_pos hzero, Nat.zero_add], fun rest => ?_⟩
        have hstep := hrest rest
        rw [hzero, UInt64.add_zero] at hstep
        rw [List.zipIdx_cons, List.cons_append, rowCells, if_pos hzero, hstep, List.map_cons,
          List.sum_cons, hzero, UInt64.zero_add]
      · obtain ⟨c, hcell⟩ := @columnCells_plain env i row off.toNat h d tail hfree
          (hc.ndim_eq h (by simp)) htail hnul (hc.link_ne h (by simp)) (by omega)
        refine ⟨c :: cells, ?_, fun rest => ?_⟩
        · rw [List.length_cons, hlen, ncolumns_cons, if_neg hzero, Nat.add_comm]
        · have hfits : ¬ off + h.dataSize > v.datasize := by
            rw [gt_iff_lt, UInt64.lt_iff_toNat_lt, hadd, hsize]
            omega
          rw [List.zipIdx_cons, List.cons_append, rowCells, if_neg hzero,
            if_neg (by simp [hskip]), if_neg hfits, hdata, hcell, List.map_cons, List.sum_cons,
            ← UInt64.add_assoc]
          simp only [hrest rest, Except.map_append]
          rfl

/-- The names of plain columns stand in front of the others. -/
theorem nameCells_plain {env : Option EnvBlock} {hs : List MetaHeader} {i : ℕ}
    (hc : PlainColumns env hs i) :
    ∃ cells, cells.length = ncolumns hs ∧ ∀ rest,
      nameCells env (hs.zipIdx i ++ rest) = cells ++ nameCells env rest := by
  induction hs generalizing i with
  | nil => exact ⟨[], rfl, fun rest => rfl⟩
  | cons h hs ih =>
      obtain ⟨hfree, hskip⟩ := hc.head
      obtain ⟨cells, hlen, hrest⟩ := ih hc.cons
      by_cases hzero : h.dataSize = 0
      · refine ⟨cells, by rw [hlen, ncolumns_cons, if_pos hzero, Nat.zero_add], fun rest => ?_⟩
        rw [List.zipIdx_cons, List.cons_append, nameCells, if_pos (.inl hzero), hrest rest]
      · refine ⟨.ofBuf h.name.toList :: cells, ?_, fun rest => ?_⟩
        · rw [List.length_cons, hlen, ncolumns_cons, if_neg hzero, Nat.add_comm]
        · rw [List.zipIdx_cons, List.cons_append, nameCells, if_neg (by simp [hzero, hskip]),
            hfree]
          simp only [hrest rest, List.cons_append]

/-- Plain columns give their part of the number of rows. -/
theorem countRows_plain {env : Option EnvBlock} {hs : List MetaHeader} {i : ℕ}
    (hc : PlainColumns env hs i) (n : ℕ) :
    ∃ m, ∀ rest, countRows env (hs.zipIdx i ++ rest) n = countRows env rest m := by
  induction hs generalizing i n with
  | nil => exact ⟨n, fun rest => rfl⟩
  | cons h hs ih =>
      obtain ⟨hfree, hskip⟩ := hc.head
      by_cases hzero : h.dataSize = 0
      · obtain ⟨m, hm⟩ := ih hc.cons n
        refine ⟨m, fun rest => ?_⟩
        rw [List.zipIdx_cons, List.cons_append, countRows, if_pos (.inl hzero), hm rest]
      · have hn := hc.ndim_eq h (by simp)
        obtain ⟨nr, hnr, -⟩ := sfColumnRows_one hn (sfElemSize_pos hn)
        obtain ⟨m, hm⟩ := ih hc.cons (if nr > n then nr else n)
        refine ⟨m, fun rest => ?_⟩
        rw [List.zipIdx_cons, List.cons_append, countRows, if_neg (by simp [hzero, hskip]),
          hfree]
        simp only [hnr, hm rest]

end TPBench
