import TPBench.Raf.RecordIO
import TPBench.Conc.Runs

/-!
# Entry Tables

A `.tpbe` file is a START magic, the rows of one domain, all of the same size, and an
END magic. `tableBytes d rows` is that file, and the two generic functions on it are

* `tpbRafL1EntryAppend`, which under an exclusive lock overwrites the END magic with the
  new row and writes the magic again behind it;
* `tpbRafL1EntryList`, which infers the number of rows from the size of the file, reads
  that many rows and checks both magics.

An append needs the END magic only, so a file that fails its checks is left alone
(`tpbRafL1EntryAppend_rejects`) and a table grows by exactly the new row
(`tpbRafL1EntryAppend_table`), whatever bytes the row consists of. The listing stores the
number of rows in an `int`: it returns the table when the number fits
(`tpbRafL1EntryList_table`), and otherwise at most a part of the table
(`tpbRafL1EntryList_take`).

`RowFormat` describes the rows of one domain as the records the callers work with.
-/

open CFile Conc

namespace TPBench

/-! ### The two functions -/

/-- The conversion of a `long` to `int`. -/
@[irreducible] def intOfLong (v : ℤ) : ℤ := v.bmod (2 ^ 32)

/-- `INT_MAX`. -/
def intMax : ℕ := 2147483647

/-- `_tpb_raf_l1_entry_append`, on the open and locked file. -/
def entryAppend (domain : Domain) {entrySize : ℕ} (entryData : CArr entrySize) :
    FileM Unit := do
  let fsize ← fstatSize
  if fsize = 0 then
    fwrite (tpbRafBuildMagic .entry domain .posStart)
    fwrite entryData.toList
    fwrite (tpbRafBuildMagic .entry domain .posEnd)
  else
    check (16 ≤ fsize)
    fseek (fsize - 8)
    let magic ← fread 8
    check (tpbRafValidateMagic magic .entry domain .posEnd)
    fseek (fsize - 8)
    fwrite entryData.toList
    fwrite (tpbRafBuildMagic .entry domain .posEnd)

/-- `_tpb_raf_l1_entry_append`. -/
def tpbRafL1EntryAppend (domain : Domain) {entrySize : ℕ} (entryData : CArr entrySize) :
    WsM Unit :=
  fopenCreate .rafL1 (.entry domain) (entryAppend domain entryData)

/-- `_tpb_raf_l1_entry_list`, on an existing file. The number of rows is an `int`, and a
negative one is converted to a size no allocation can serve. -/
def entryList (domain : Domain) (entrySize : ℕ) : FileM (List (CArr entrySize)) := do
  let fsize ← fstatSize
  check (16 ≤ fsize)
  let dataSize := fsize - 16
  check (dataSize % entrySize = 0)
  let n := intOfLong (dataSize / entrySize : ℕ)
  let magic ← fread 8
  check (tpbRafValidateMagic magic .entry domain .posStart)
  if n = 0 then return [] else
  if n < 0 then outOfMemory else
  let entries ← readN n.toNat (readArr entrySize)
  let magic ← fread 8
  check (tpbRafValidateMagic magic .entry domain .posEnd)
  return entries

/-- `_tpb_raf_l1_entry_list`. A missing file is an empty table. -/
def tpbRafL1EntryList (domain : Domain) (entrySize : ℕ) : WsM (List (CArr entrySize)) :=
  fun ws =>
    match ws.files (.entry domain) with
    | none => .ok [] ws
    | some _ => fopenRead .rafL1 (.entry domain) (entryList domain entrySize) ws

/-! ### Tables -/

section Table

variable {d : Domain} {n : ℕ} {ws ws' : Workspace} {rows : List (CArr n)} {row : CArr n}

/-- The `.tpbe` file with the given rows. -/
def tableBytes (d : Domain) (rows : List (CArr n)) : Bytes :=
  tpbRafBuildMagic .entry d .posStart ++
    (rows.flatMap List.Vector.toList ++ tpbRafBuildMagic .entry d .posEnd)

/-- Rows of one size: the block of rows is as long as their number says. -/
theorem length_rows (rows : List (CArr n)) :
    (rows.flatMap List.Vector.toList).length = rows.length * n := by
  induction rows with
  | nil => simp
  | cons row rows ih =>
      rw [List.flatMap_cons, List.length_append, row.toList_length, ih, List.length_cons]
      ring

theorem length_tableBytes (d : Domain) (rows : List (CArr n)) :
    (tableBytes d rows).length = rows.length * n + 16 := by
  simp only [tableBytes, List.length_append, length_tpbRafBuildMagic, length_rows]
  omega

/-- Overwriting the END magic of a table with a row and a new END magic adds the row. -/
theorem pwrite_tableBytes (d : Domain) (rows : List (CArr n)) (row : CArr n) :
    pwrite (pwrite (tableBytes d rows) (rows.length * n + 8) row.toList)
        (rows.length * n + 8 + n) (tpbRafBuildMagic .entry d .posEnd) =
      tableBytes d (rows ++ [row]) := by
  have hlen : (tpbRafBuildMagic .entry d .posStart ++
      rows.flatMap List.Vector.toList).length = rows.length * n + 8 := by
    rw [List.length_append, length_rows, length_tpbRafBuildMagic, Nat.add_comm]
  have hinsert := pwrite_insert (tpbRafBuildMagic .entry d .posStart ++
    rows.flatMap List.Vector.toList) (tpbRafBuildMagic .entry d .posEnd) row.toList
  rw [hlen, row.toList_length, List.append_assoc] at hinsert
  rw [tableBytes, hinsert]
  simp [tableBytes]

/-- The END magic stands behind the rows. -/
theorem pread_tableBytes_end (d : Domain) (rows : List (CArr n)) :
    pread (tableBytes d rows) (rows.length * n + 8) 8 =
      tpbRafBuildMagic .entry d .posEnd := by
  have hrows := length_rows rows
  rw [tableBytes, pread_append_right (by simp), pread_append_right (by simp [hrows]),
    hrows, length_tpbRafBuildMagic, Nat.add_sub_cancel, Nat.sub_self]
  exact pread_self rfl

/-- An append to an empty or missing file creates the table of the row. -/
theorem tpbRafL1EntryAppend_create (row : CArr n)
    (h : ws.files (.entry d) = none ∨ ws.files (.entry d) = some []) :
    tpbRafL1EntryAppend d row ws = .ok () (ws.set (.entry d) (tableBytes d [row])) := by
  have hf : (ws.files (.entry d)).getD [] = [] := by
    rcases h with h | h <;> rw [h] <;> rfl
  have htable : pwrite (pwrite (pwrite [] 0 (tpbRafBuildMagic .entry d .posStart)) 8 row.toList)
      (8 + n) (tpbRafBuildMagic .entry d .posEnd) = tableBytes d [row] := by
    rw [pwrite_end List.length_nil, List.nil_append,
      pwrite_end (length_tpbRafBuildMagic _ _ _), pwrite_end (by simp)]
    simp [tableBytes]
  have hrun : entryAppend d row ⟨[], 0⟩ = .ok () ⟨tableBytes d [row], 8 + n + 8⟩ := by
    refine bind_then (fstatSize_run _ _) ?_
    refine bind_then (fwrite_run _ _ _) ?_
    refine bind_then (fwrite_run _ _ _) ?_
    rw [fwrite_run, row.toList_length, ← htable]
    rfl
  exact fopenCreate_ok hf hrun

/-- **An append adds its row to a table**, whatever bytes the rows consist of. -/
theorem tpbRafL1EntryAppend_table (row : CArr n)
    (h : ws.files (.entry d) = some (tableBytes d rows)) :
    tpbRafL1EntryAppend d row ws =
      .ok () (ws.set (.entry d) (tableBytes d (rows ++ [row]))) := by
  have hlen := length_tableBytes d rows
  have hseek : ((tableBytes d rows).length : ℤ) - 8 = (rows.length * n + 8 : ℕ) := by
    rw [hlen]
    omega
  have hrun : entryAppend d row ⟨tableBytes d rows, 0⟩ =
      .ok () ⟨tableBytes d (rows ++ [row]), rows.length * n + 8 + n + 8⟩ := by
    refine bind_then (fstatSize_run _ _) ?_
    rw [if_neg (by omega)]
    refine bind_then (check_run (by omega) _) ?_
    refine bind_then (fseek_run hseek) ?_
    refine bind_then (fread_run (pread_tableBytes_end d rows) rfl) ?_
    refine bind_then (check_run (tpbRafValidateMagic_self _ _ _) _) ?_
    refine bind_then (fseek_run hseek) ?_
    refine bind_then (fwrite_run _ _ _) ?_
    rw [fwrite_run, row.toList_length, pwrite_tableBytes]
    rfl
  exact fopenCreate_ok (by rw [h]; rfl) hrun

/-- An append to a file that is too short for two magics, or does not end with the END
magic, fails and leaves the file as it is. -/
theorem tpbRafL1EntryAppend_rejects {f : Bytes} (row : CArr n)
    (h : ws.files (.entry d) = some f) (hne : f ≠ [])
    (hbad : f.length < 16 ∨
      pread f (f.length - 8) 8 ≠ tpbRafBuildMagic .entry d .posEnd) :
    tpbRafL1EntryAppend d row ws = .error (.code .rafL1 .fileIoFail) ws := by
  have hpos : f.length ≠ 0 := by simpa using hne
  have hrun : ∃ pos, entryAppend d row ⟨f, 0⟩ = .error .fail ⟨f, pos⟩ := by
    by_cases hshort : f.length < 16
    · refine ⟨0, bind_then (fstatSize_run _ _) ?_⟩
      rw [if_neg hpos]
      exact bind_error (check_fail (by omega) _)
    · have hmagic := hbad.resolve_left hshort
      have hseek : (f.length : ℤ) - 8 = (f.length - 8 : ℕ) := by omega
      have hblock : (pread f (f.length - 8) 8).length = 8 := by
        simp only [pread, List.length_take, List.length_drop]
        omega
      refine ⟨f.length - 8 + 8, bind_then (fstatSize_run _ _) ?_⟩
      rw [if_neg hpos]
      refine bind_then (check_run (by omega) _) ?_
      refine bind_then (fseek_run hseek) ?_
      refine bind_then (fread_run rfl hblock) ?_
      exact bind_error (check_fail (by rwa [tpbRafValidateMagic_iff]) _)
  obtain ⟨pos, hs⟩ := hrun
  have hfile : (ws.files (.entry d)).getD [] = f := by
    rw [h]
    rfl
  have hws := fopenCreate_error .rafL1 hfile hs
  rwa [Workspace.set_self h] at hws

/-- A row count that fits an `int` is not changed by the conversion. -/
theorem intOfLong_of_le {k : ℕ} (h : k ≤ intMax) : intOfLong k = k := by
  simp only [intMax] at h
  simp only [intOfLong, Int.bmod_def]
  norm_num
  omega

/-- The number of rows a listing allocates for fits an `int`, and there are that many. -/
theorem toNat_intOfLong_le (k : ℕ) :
    (intOfLong k).toNat ≤ intMax ∧ (intOfLong k).toNat ≤ k := by
  simp only [intOfLong, Int.bmod_def, intMax]
  norm_num
  omega

/-- Reading the first `k` rows of a table. -/
theorem readN_tableBytes {k : ℕ} (hk : k ≤ rows.length) :
    readN k (readArr n) ⟨tableBytes d rows, 8⟩ =
      .ok (rows.take k) ⟨tableBytes d rows, 8 + k * n⟩ := by
  have hsplit : tableBytes d rows = tpbRafBuildMagic .entry d .posStart ++
      ((rows.take k).flatMap List.Vector.toList ++
        ((rows.drop k).flatMap List.Vector.toList ++ tpbRafBuildMagic .entry d .posEnd)) := by
    rw [tableBytes, ← List.append_assoc ((rows.take k).flatMap _), ← List.flatMap_append,
      List.take_append_drop]
  have hlen : (rows.take k).length = k := List.length_take_of_le hk
  have hreads : Reads (readN (rows.take k).length (readArr n))
      ((rows.take k).flatMap List.Vector.toList) ((rows.take k).map id) :=
    reads_readN (rows.take k) fun row _ => reads_readArr row
  have hrun := hreads (tpbRafBuildMagic .entry d .posStart)
    ((rows.drop k).flatMap List.Vector.toList ++ tpbRafBuildMagic .entry d .posEnd)
  rw [← hsplit, length_rows, hlen, List.map_id] at hrun
  exact hrun

/-- A listing of a table gets as far as the START magic. -/
theorem entryList_run (hn : 0 < n) (d : Domain) (rows : List (CArr n)) :
    entryList d n ⟨tableBytes d rows, 0⟩ =
      (if intOfLong rows.length = 0 then return [] else
        if intOfLong rows.length < 0 then outOfMemory else do
          let entries ← readN (intOfLong rows.length).toNat (readArr n)
          let magic ← fread 8
          check (tpbRafValidateMagic magic .entry d .posEnd)
          return entries : FileM (List (CArr n))) ⟨tableBytes d rows, 8⟩ := by
  have hsize : (tableBytes d rows).length - 16 = rows.length * n := by
    rw [length_tableBytes, Nat.add_sub_cancel]
  refine bind_then (fstatSize_run _ _) ?_
  refine bind_then (check_run (by rw [length_tableBytes]; omega) _) ?_
  refine bind_then (check_run (by rw [hsize, Nat.mul_mod_left]) _) ?_
  refine bind_then (fread_run (pread_append_self rfl) rfl) ?_
  refine bind_then (check_run (tpbRafValidateMagic_self _ _ _) _) ?_
  rw [hsize, Nat.mul_div_cancel _ hn]

/-- **A listing returns the rows of the table** when their number fits an `int`. -/
theorem tpbRafL1EntryList_table (hn : 0 < n)
    (h : ws.files (.entry d) = some (tableBytes d rows)) (hlen : rows.length ≤ intMax) :
    tpbRafL1EntryList d n ws = .ok rows ws := by
  have hcount := intOfLong_of_le hlen
  have hrun : ∃ s, entryList d n ⟨tableBytes d rows, 0⟩ = .ok rows s := by
    rw [entryList_run hn, hcount]
    by_cases hz : rows.length = 0
    · obtain rfl := List.length_eq_zero_iff.mp hz
      exact ⟨_, rfl⟩
    · rw [if_neg (by omega), if_neg (by omega), Int.toNat_natCast]
      refine ⟨⟨tableBytes d rows, rows.length * n + 8 + 8⟩, ?_⟩
      refine bind_then (readN_tableBytes le_rfl) ?_
      rw [List.take_length, Nat.add_comm]
      refine bind_then (fread_run (pread_tableBytes_end d rows) rfl) ?_
      exact bind_then (check_run (tpbRafValidateMagic_self _ _ _) _) rfl
  obtain ⟨s, hs⟩ := hrun
  simp only [tpbRafL1EntryList, h]
  exact fopenRead_ok h hs

/-- A successful listing of a table returns its first rows: as many as the row count,
converted to `int`, says. -/
theorem tpbRafL1EntryList_take (hn : 0 < n)
    (h : ws.files (.entry d) = some (tableBytes d rows)) {rs : List (CArr n)}
    (hok : tpbRafL1EntryList d n ws = .ok rs ws') :
    ws' = ws ∧ rs = rows.take (intOfLong rows.length).toNat := by
  simp only [tpbRafL1EntryList, h] at hok
  obtain ⟨hws, f, s, hf, hrun⟩ := fopenRead_eq_ok hok
  obtain rfl : tableBytes d rows = f := Option.some.inj (h.symm.trans hf)
  refine ⟨hws, ?_⟩
  rw [entryList_run hn] at hrun
  split at hrun
  · rename_i hz
    cases hrun
    simp [hz]
  · split at hrun
    · cases hrun
    · obtain ⟨es, s₁, hread, hrun⟩ := bind_eq_ok.mp hrun
      rw [readN_tableBytes (toNat_intOfLong_le _).2] at hread
      cases hread
      obtain ⟨_, _, -, hrun⟩ := bind_eq_ok.mp hrun
      obtain ⟨_, _, -, hrun⟩ := bind_eq_ok.mp hrun
      cases hrun
      rfl

/-- Whatever the file holds, a listing returns at most `INT_MAX` rows, and leaves the
workspace as it was. -/
theorem tpbRafL1EntryList_bound {rs : List (CArr n)}
    (hok : tpbRafL1EntryList d n ws = .ok rs ws') : ws' = ws ∧ rs.length ≤ intMax := by
  simp only [tpbRafL1EntryList] at hok
  split at hok
  · cases hok
    exact ⟨rfl, Nat.zero_le _⟩
  · obtain ⟨hws, f, s, -, hrun⟩ := fopenRead_eq_ok hok
    refine ⟨hws, ?_⟩
    obtain ⟨fsize, _, -, hrun⟩ := bind_eq_ok.mp hrun
    obtain ⟨_, _, -, hrun⟩ := bind_eq_ok.mp hrun
    obtain ⟨_, _, -, hrun⟩ := bind_eq_ok.mp hrun
    obtain ⟨_, _, -, hrun⟩ := bind_eq_ok.mp hrun
    obtain ⟨_, _, -, hrun⟩ := bind_eq_ok.mp hrun
    split at hrun
    · cases hrun
      exact Nat.zero_le _
    · split at hrun
      · cases hrun
      · obtain ⟨entries, _, hread, hrun⟩ := bind_eq_ok.mp hrun
        obtain ⟨_, _, -, hrun⟩ := bind_eq_ok.mp hrun
        obtain ⟨_, _, -, hrun⟩ := bind_eq_ok.mp hrun
        cases hrun
        rw [length_readN hread]
        exact (toNat_intOfLong_le _).1

/-- A listing of more than `INT_MAX` rows never returns them all. -/
theorem tpbRafL1EntryList_ne (hn : 0 < n)
    (h : ws.files (.entry d) = some (tableBytes d rows)) (hlen : intMax < rows.length) :
    tpbRafL1EntryList d n ws ≠ .ok rows ws := by
  intro hok
  have htake := congrArg List.length (tpbRafL1EntryList_take hn h hok).2
  have hle := toNat_intOfLong_le rows.length
  rw [List.length_take] at htake
  omega

end Table

/-! ### Any interleaving of appends -/

/-- The size of the rows of a domain: `sizeof(tbatch_entry_t)`, `sizeof(kernel_entry_t)`,
`sizeof(task_entry_t)` and `sizeof(rtenv_entry_disk_t)`. -/
def rowSize : Domain → ℕ
  | .tbatch => 264
  | .kernel => 264
  | .task => 232
  | .rtenv => 1828

theorem rowSize_pos (d : Domain) : 0 < rowSize d := by
  cases d <;> decide

/-- A row of a domain. -/
abbrev Row (d : Domain) := CArr (rowSize d)

section Interleaving

variable {ι : Type} [DecidableEq ι] {d : Domain}

/-- After the appends `as` the file is the table of `as`; before the first one it is
what it was. -/
def TableOf (d : Domain) (ws₀ : Workspace) (as : List (Row d)) (ws : Workspace) : Prop :=
  (as = [] → ws = ws₀) ∧ (as ≠ [] → ws = ws₀.set (.entry d) (tableBytes d as))

/-- The next append succeeds and adds its row. -/
theorem TableOf.append {ws₀ ws : Workspace} {as : List (Row d)}
    (hstart : ws₀.files (.entry d) = none ∨ ws₀.files (.entry d) = some [])
    (h : TableOf d ws₀ as ws) (a : Row d) :
    ∃ u ws', tpbRafL1EntryAppend d a ws = .ok u ws' ∧ TableOf d ws₀ (as ++ [a]) ws' := by
  have hnext : TableOf d ws₀ (as ++ [a]) (ws₀.set (.entry d) (tableBytes d (as ++ [a]))) :=
    ⟨fun hnil => absurd hnil (by simp), fun _ => rfl⟩
  by_cases has : as = []
  · obtain rfl := h.1 has
    subst has
    exact ⟨(), _, tpbRafL1EntryAppend_create a hstart, hnext⟩
  · obtain rfl := h.2 has
    refine ⟨(), _, tpbRafL1EntryAppend_table a (Workspace.set_files_same _ _ _), ?_⟩
    rwa [Workspace.set_set]

/-- A process that runs alone gets through its queue. -/
theorem exists_run_appends (d : Domain) (ws₀ : Workspace) (as rest : List (Row d))
    (hstart : ws₀.files (.entry d) = none ∨ ws₀.files (.entry d) = some []) :
    ∃ (s : Calls Unit (Row d) Workspace) (t : List (Done Unit (Row d) Err Unit)),
      Run (CallStep (tpbRafL1EntryAppend d)) ⟨ws₀, fun _ => as ++ rest⟩ t s ∧
        t.map Done.call = as ∧ s.pending = (fun _ => rest) ∧ TableOf d ws₀ as s.shared := by
  induction as using List.reverseRecOn generalizing rest with
  | nil => exact ⟨_, [], .nil, rfl, rfl, fun _ => rfl, fun hnil => absurd rfl hnil⟩
  | append_singleton as a ih =>
      obtain ⟨s, t, hrun, hcalls, hpending, htable⟩ := ih (a :: rest)
      obtain ⟨u, ws, hcall, htable'⟩ := htable.append hstart a
      have hstep : CallStep (tpbRafL1EntryAppend d) s ⟨(), a, .ok u⟩
          ⟨ws, Function.update s.pending () rest⟩ :=
        .ok (by rw [hpending]) hcall
      refine ⟨⟨ws, Function.update s.pending () rest⟩, t ++ [⟨(), a, .ok u⟩], ?_, ?_, ?_,
        htable'⟩
      · rw [List.append_assoc]
        exact hrun.snoc hstep
      · rw [List.map_append, hcalls]
        rfl
      · funext i
        cases i
        exact Function.update_self () rest s.pending

/-- **The entry table under concurrent appends.** Processes append rows to a missing or
empty table, in any interleaving of their atomic appends. Every append succeeds, the
appends of a process take effect in its order and none is lost or repeated, and once
there is a row the file is the table of the appended rows in the order of the appends.
The listing of that file returns exactly these rows if and only if there are no more of
them than an `int` can count. An append to a file that fails the checks changes
nothing. -/
theorem entryAppend_interleaved (d : Domain) (s₀ s : Calls ι (Row d) Workspace)
    (t : List (Done ι (Row d) Err Unit))
    (hstart : s₀.shared.files (.entry d) = none ∨ s₀.shared.files (.entry d) = some [])
    (hrun : Run (CallStep (tpbRafL1EntryAppend d)) s₀ t s) :
    (∀ c ∈ t, c.result = .ok ()) ∧
      (∀ i, (t.filter (·.proc = i)).map Done.call ++ s.pending i = s₀.pending i) ∧
      (t ≠ [] → s.shared = s₀.shared.set (.entry d) (tableBytes d (t.map Done.call)) ∧
        (tpbRafL1EntryList d (rowSize d) s.shared = .ok (t.map Done.call) s.shared ↔
          t.length ≤ intMax)) ∧
      (∀ (ws : Workspace) (f : Bytes) (row : Row d), ws.files (.entry d) = some f → f ≠ [] →
        (f.length < 16 ∨ pread f (f.length - 8) 8 ≠ tpbRafBuildMagic .entry d .posEnd) →
        tpbRafL1EntryAppend d row ws = .error (.code .rafL1 .fileIoFail) ws) := by
  have hinit : TableOf d s₀.shared [] s₀.shared :=
    ⟨fun _ => rfl, fun hnil => absurd rfl hnil⟩
  obtain ⟨hok, htable⟩ := calls_invariant hrun hinit
    fun as a sh _ h => h.append hstart a
  refine ⟨?_, calls_order hrun, ?_, fun ws f row hf hne hbad =>
    tpbRafL1EntryAppend_rejects row hf hne hbad⟩
  · intro c hc
    obtain ⟨⟨⟩, hb⟩ := hok c hc
    exact hb
  · intro hne
    have hshared := htable.2 (by simpa using hne)
    have hfile : s.shared.files (.entry d) = some (tableBytes d (t.map Done.call)) := by
      rw [hshared, Workspace.set_files_same]
    refine ⟨hshared, ?_, ?_⟩
    · intro hlist
      by_contra hlong
      refine tpbRafL1EntryList_ne (rowSize_pos d) hfile ?_ hlist
      rw [List.length_map]
      omega
    · intro hlen
      exact tpbRafL1EntryList_table (rowSize_pos d) hfile (by rwa [List.length_map])

end Interleaving

/-- Two appends of one process to the task table of the empty workspace. -/
theorem entryAppend_interleaved_two :
    ∃ (s : Calls Unit (Row .task) Workspace) (t : List (Done Unit (Row .task) Err Unit)),
      t.length = 2 ∧
        tpbRafL1EntryList .task (rowSize .task) s.shared = .ok (t.map Done.call) s.shared := by
  obtain ⟨s, t, hrun, hcalls, -, -⟩ := exists_run_appends .task Workspace.empty
    [zeroArr _, zeroArr _] [] (.inl rfl)
  have hlen : t.length = 2 := by
    rw [← List.length_map, hcalls]
    rfl
  have hne : t ≠ [] := by
    rintro rfl
    cases hlen
  have hspec := entryAppend_interleaved .task _ s t (.inl rfl) hrun
  exact ⟨s, t, hlen, (hspec.2.2.1 hne).2.mpr (by rw [hlen]; decide)⟩

/-- A listing of `2 ^ 32` rows reports success and no row at all. -/
theorem exists_run_listing_nothing (rows : List (Row .task)) (hlen : rows.length = 2 ^ 32) :
    ∃ (s : Calls Unit (Row .task) Workspace) (t : List (Done Unit (Row .task) Err Unit)),
      Run (CallStep (tpbRafL1EntryAppend .task)) ⟨Workspace.empty, fun _ => rows⟩ t s ∧
        t.map Done.call = rows ∧
        tpbRafL1EntryList .task (rowSize .task) s.shared = .ok [] s.shared := by
  obtain ⟨s, t, hrun, hcalls, -, htable⟩ := exists_run_appends .task Workspace.empty rows []
    (.inl rfl)
  rw [List.append_nil] at hrun
  refine ⟨s, t, hrun, hcalls, ?_⟩
  have hne : rows ≠ [] := by
    rintro rfl
    cases hlen
  have hfile : s.shared.files (.entry .task) = some (tableBytes .task rows) := by
    rw [htable.2 hne, Workspace.set_files_same]
  have hzero : intOfLong rows.length = 0 := by
    rw [hlen, intOfLong]
    rfl
  have hlist : entryList .task (rowSize .task) ⟨tableBytes .task rows, 0⟩ =
      .ok [] ⟨tableBytes .task rows, 8⟩ := by
    rw [entryList_run (rowSize_pos _), if_pos hzero]
    rfl
  simp only [tpbRafL1EntryList, hfile]
  exact fopenRead_ok hfile hlist

/-- After `2 ^ 32` appends of the zero row the listing loses them all. -/
theorem entryList_loses_rows :
    ∃ (s : Calls Unit (Row .task) Workspace) (t : List (Done Unit (Row .task) Err Unit)),
      Run (CallStep (tpbRafL1EntryAppend .task))
          ⟨Workspace.empty, fun _ => List.replicate (2 ^ 32) (zeroArr _)⟩ t s ∧
        t.map Done.call = List.replicate (2 ^ 32) (zeroArr _) ∧
        tpbRafL1EntryList .task (rowSize .task) s.shared = .ok [] s.shared :=
  exists_run_listing_nothing _ List.length_replicate

/-! ### Rows as records -/

/-- The rows of one domain as the structures its callers work with: the image of a
structure in the file and the structure a row is read as, which invert each other. -/
structure RowFormat (ρ : Type) where
  domain : Domain
  mod : Module
  encode : ρ → Row domain
  decode : Row domain → ρ
  decode_encode : ∀ r, decode (encode r) = r

section Rows

variable {ρ : Type} (R : RowFormat ρ)

/-- The `.tpbe` file of a list of structures. -/
def RowFormat.table (rows : List ρ) : Bytes := tableBytes R.domain (rows.map R.encode)

/-- The common body of the `tpb_raf_entry_append_*` functions. -/
def entryAppendRow (row : ρ) : WsM Unit :=
  propagate R.mod (tpbRafL1EntryAppend R.domain (R.encode row))

/-- The common body of the `tpb_raf_entry_list_*` functions. -/
def entryListRows : WsM (List ρ) := do
  let rows ← propagate R.mod (tpbRafL1EntryList R.domain (rowSize R.domain))
  return rows.map R.decode

/-- The table of the workspace consists of these rows; a missing file is the table
without rows. -/
def RowFormat.Holds (ws : Workspace) (rows : List ρ) : Prop :=
  ws.files (.entry R.domain) = some (R.table rows) ∨
    (ws.files (.entry R.domain) = none ∧ rows = [])

variable {R} {ws ws' : Workspace} {rows : List ρ}

/-- A table with a row has a file. -/
theorem RowFormat.Holds.file_of_mem (h : R.Holds ws rows) {row : ρ} (hrow : row ∈ rows) :
    ws.files (.entry R.domain) = some (R.table rows) := by
  rcases h with h | ⟨-, rfl⟩
  · exact h
  · cases hrow

/-- Rows of one size can be told apart in the block of rows. -/
theorem flatMap_toList_injective {n : ℕ} (hn : 0 < n) {as bs : List (CArr n)}
    (h : as.flatMap List.Vector.toList = bs.flatMap List.Vector.toList) : as = bs := by
  induction as generalizing bs with
  | nil =>
      cases bs with
      | nil => rfl
      | cons b bs =>
          have hlen := congrArg List.length h
          rw [length_rows, length_rows, List.length_nil, List.length_cons, Nat.zero_mul,
            Nat.succ_mul] at hlen
          omega
  | cons a as ih =>
      cases bs with
      | nil =>
          have hlen := congrArg List.length h
          rw [length_rows, length_rows, List.length_nil, List.length_cons, Nat.zero_mul,
            Nat.succ_mul] at hlen
          omega
      | cons b bs =>
          rw [List.flatMap_cons, List.flatMap_cons] at h
          obtain ⟨hab, hrest⟩ := List.append_inj h (by rw [a.toList_length, b.toList_length])
          rw [List.Vector.toList_injective hab, ih hrest]

/-- Decoding the image of a list of rows gives the rows. -/
theorem RowFormat.map_decode_encode (R : RowFormat ρ) (rows : List ρ) :
    (rows.map R.encode).map R.decode = rows := by
  rw [List.map_map]
  conv_rhs => rw [← List.map_id rows]
  exact List.map_congr_left fun r _ => R.decode_encode r

/-- The file determines the rows. -/
theorem RowFormat.Holds.unique {rows' : List ρ} (h : R.Holds ws rows)
    (h' : R.Holds ws rows') : rows = rows' := by
  rcases h with h | ⟨h, rfl⟩
  · rcases h' with h' | ⟨h', -⟩
    · have htable : R.table rows = R.table rows' := Option.some.inj (h.symm.trans h')
      have hblock := List.append_cancel_right (List.append_cancel_left htable)
      have hrows := flatMap_toList_injective (rowSize_pos R.domain) hblock
      rw [← R.map_decode_encode rows, ← R.map_decode_encode rows', hrows]
    · cases h.symm.trans h'
  · rcases h' with h' | ⟨-, rfl⟩
    · cases h.symm.trans h'
    · rfl

/-- An append adds its row to the table of the workspace. -/
theorem entryAppendRow_ok (h : R.Holds ws rows) (row : ρ) :
    entryAppendRow R row ws =
      .ok () (ws.set (.entry R.domain) (R.table (rows ++ [row]))) := by
  rw [entryAppendRow, propagate_eq_ok]
  rcases h with h | ⟨h, rfl⟩
  · rw [tpbRafL1EntryAppend_table (R.encode row) h, RowFormat.table, List.map_append,
      List.map_singleton]
  · exact tpbRafL1EntryAppend_create (R.encode row) (.inl h)

/-- A listing returns the rows of the table when an `int` can count them. -/
theorem entryListRows_ok (h : R.Holds ws rows) (hlen : rows.length ≤ intMax) :
    entryListRows R ws = .ok rows ws := by
  have hlist : tpbRafL1EntryList R.domain (rowSize R.domain) ws =
      .ok (rows.map R.encode) ws := by
    rcases h with h | ⟨h, rfl⟩
    · exact tpbRafL1EntryList_table (rowSize_pos _) h (by rwa [List.length_map])
    · simp [tpbRafL1EntryList, h]
  refine bind_then (propagate_eq_ok.mpr hlist) ?_
  rw [R.map_decode_encode]
  rfl

/-- Whatever the table file holds, a listing returns at most `INT_MAX` rows, and leaves the
workspace as it was. -/
theorem entryListRows_bound {rs : List ρ} (hok : entryListRows R ws = .ok rs ws') :
    ws' = ws ∧ rs.length ≤ intMax := by
  obtain ⟨bs, ws₁, hlist, hret⟩ := bind_eq_ok.mp hok
  rw [propagate_eq_ok] at hlist
  cases hret
  rw [List.length_map]
  exact tpbRafL1EntryList_bound hlist

/-- A listing that fails leaves the workspace as it was, too. -/
theorem entryListRows_error {e : Err} (h : entryListRows R ws = .error e ws') : ws' = ws := by
  rcases hlist : propagate R.mod (tpbRafL1EntryList R.domain (rowSize R.domain)) ws with
    ⟨bs, ws₁⟩ | ⟨e₁, ws₁⟩
  · rw [entryListRows, bind_ok hlist] at h
    cases h
  · rw [entryListRows, bind_error hlist] at h
    cases h
    obtain ⟨e', herror⟩ := propagate_eq_error hlist
    simp only [tpbRafL1EntryList] at herror
    split at herror
    · cases herror
    · exact fopenRead_eq_error herror

/-- A successful listing returns the first rows of the table. -/
theorem entryListRows_take (h : R.Holds ws rows) {rs : List ρ}
    (hok : entryListRows R ws = .ok rs ws') :
    ws' = ws ∧ rs = rows.take (intOfLong rows.length).toNat := by
  obtain ⟨bs, ws₁, hlist, hret⟩ := bind_eq_ok.mp hok
  rw [propagate_eq_ok] at hlist
  cases hret
  rcases h with h | ⟨h, rfl⟩
  · obtain ⟨hws, rfl⟩ := tpbRafL1EntryList_take (rowSize_pos _) h hlist
    rw [List.length_map, ← List.map_take, R.map_decode_encode]
    exact ⟨hws, rfl⟩
  · simp only [tpbRafL1EntryList, h] at hlist
    cases hlist
    exact ⟨rfl, by simp⟩

/-- The bytes of row `i` of a table. -/
theorem RowFormat.pread_table (R : RowFormat ρ) {rows : List ρ} {i : ℕ} {r : ρ}
    (hr : rows[i]? = some r) :
    pread (R.table rows) (8 + i * rowSize R.domain) (rowSize R.domain) =
      (R.encode r).toList := by
  obtain ⟨hi, rfl⟩ := List.getElem?_eq_some_iff.mp hr
  obtain ⟨pre, q, post, rfl, rfl, -⟩ := List.exists_of_modify id hi
  have hpre : ((pre.map R.encode).flatMap List.Vector.toList).length =
      pre.length * rowSize R.domain := by
    rw [length_rows, List.length_map]
  simp only [RowFormat.table, tableBytes, List.map_append, List.map_cons, List.flatMap_append,
    List.flatMap_cons, List.append_assoc]
  rw [pread_append_right (by simp), pread_append_right (by rw [hpre]; simp), hpre,
    length_tpbRafBuildMagic, Nat.add_sub_cancel_left, Nat.sub_self,
    pread_append_self (List.Vector.toList_length _)]
  simp

/-- Overwriting a block of row `i` with the block another structure has there replaces
that row of the table and no other. -/
theorem RowFormat.pwrite_table (R : RowFormat ρ) {rows : List ρ} {i off : ℕ} {r : ρ}
    {bs : Bytes} {f : ρ → ρ} (hr : rows[i]? = some r)
    (hlen : off + bs.length ≤ rowSize R.domain)
    (h : pwrite (R.encode r).toList off bs = (R.encode (f r)).toList) :
    pwrite (R.table rows) (8 + i * rowSize R.domain + off) bs =
      R.table (rows.modify i f) := by
  obtain ⟨hi, rfl⟩ := List.getElem?_eq_some_iff.mp hr
  obtain ⟨pre, q, post, rfl, rfl, hmod⟩ := List.exists_of_modify f hi
  have hpre : ((pre.map R.encode).flatMap List.Vector.toList).length =
      pre.length * rowSize R.domain := by
    rw [length_rows, List.length_map]
  rw [List.getElem_append_right le_rfl] at h
  simp only [Nat.sub_self, List.getElem_cons_zero] at h
  rw [hmod]
  simp only [RowFormat.table, tableBytes, List.map_append, List.map_cons, List.flatMap_append,
    List.flatMap_cons, List.append_assoc]
  rw [pwrite_append_right (by simp; omega), pwrite_append_right (by rw [hpre]; simp; omega),
    hpre, length_tpbRafBuildMagic, show 8 + pre.length * rowSize R.domain + off - 8 -
      pre.length * rowSize R.domain = off by omega,
    pwrite_append_left (by rw [List.Vector.toList_length]; exact hlen), h]

end Rows

end TPBench
