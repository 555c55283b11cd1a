import Mathlib.Data.Finset.Card
import TPBench.Raf.Patch
import TPBench.Raf.TbatchTaglink

/-!
# Batch Records

The command line tools bracket a batch of tasks with `tpb_record_begin_batch` and
`tpb_record_end_batch`. The first writes a record without tasks. The second scans the task
table for the rows of the batch, links each of them to the record, counts the tasks and
the distinct kernels on the way, and then patches the counters.

The scan walks over the table once, and for every row of the batch once more over the
rows in front of it, to find out whether the kernel of the row is new. The invariant of
the walk (`scanRows_ok_iff`) is that the rows passed so far account for everything done: the
appends are those of `appendAll` on their IDs, the first counter is their number, and the
second is the number of kernels among them.
-/

open CFile

namespace TPBench

/-! ### The scan -/

/-- `_sf_is_zero_id20`. -/
def sfIsZeroId20 (id : Id20) : Bool := id == zeroArr 20

/-- The three tests both loops of the scan make on a row. -/
def inBatch (tbatchId : Id20) (batchUtcBits : UInt64) (e : TaskEntry) : Bool :=
  if e.utcBits < batchUtcBits then false
  else if e.tbatchId ≠ tbatchId then false
  else sfIsZeroId20 e.deriveTo

/-- The inner loop of the scan, over the rows in front of row `e`: whether it was left with
`break`. -/
def kernelSeen (tbatchId : Id20) (batchUtcBits : UInt64) (e : TaskEntry) :
    List TaskEntry → Bool
  | [] => false
  | f :: rows =>
      if inBatch tbatchId batchUtcBits f && f.kernelId == e.kernelId then true
      else kernelSeen tbatchId batchUtcBits e rows

/-- The outer loop of the scan: `done` are the rows in front of the current one. -/
def scanRows (tbatchId : Id20) (batchUtcBits : UInt64) :
    List TaskEntry → List TaskEntry → ℕ → ℕ → WsM (ℕ × ℕ)
  | _, [], matched, nkernel => return (matched, nkernel)
  | done, e :: rest, matched, nkernel =>
      if inBatch tbatchId batchUtcBits e then do
        propagate .rafMisc (tpbRafRecordAppendTbatch tbatchId e.taskRecordId)
        let nkernel' := if kernelSeen tbatchId batchUtcBits e done then nkernel
          else nkernel + 1
        scanRows tbatchId batchUtcBits (done ++ [e]) rest (matched + 1) nkernel'
      else scanRows tbatchId batchUtcBits (done ++ [e]) rest matched nkernel

/-- `_sf_scan_batch`: the number of tasks and of kernels. -/
def sfScanBatch (tbatchId : Id20) (batchUtcBits : UInt64) : WsM (ℕ × ℕ) := do
  let rows ← propagate .rafMisc tpbRafEntryListTask
  scanRows tbatchId batchUtcBits [] rows 0 0

/-! ### The rows of a batch -/

section Scan

variable (tbatchId : Id20) (batchUtcBits : UInt64)

/-- The rows of the batch, in the order of the table. -/
def batchRows (rows : List TaskEntry) : List TaskEntry :=
  rows.filter (inBatch tbatchId batchUtcBits)

/-- The number of distinct kernels among the rows of the batch. -/
def batchKernels (rows : List TaskEntry) : ℕ :=
  ((batchRows tbatchId batchUtcBits rows).map TaskEntry.kernelId).toFinset.card

variable {tbatchId batchUtcBits}

/-- A row belongs to the batch when it carries its ID, is not older than it and was not
derived to a capsule. -/
theorem inBatch_iff {e : TaskEntry} : inBatch tbatchId batchUtcBits e = true ↔
    e.tbatchId = tbatchId ∧ batchUtcBits ≤ e.utcBits ∧ e.deriveTo = zeroArr 20 := by
  rw [inBatch, ← UInt64.not_lt]
  by_cases hutc : e.utcBits < batchUtcBits
  · simp [hutc]
  · by_cases hid : e.tbatchId = tbatchId
    · simp [hutc, hid, sfIsZeroId20]
    · simp [hutc, hid]

/-- The inner loop finds the kernel exactly when a row of the batch has it. -/
theorem kernelSeen_iff {e : TaskEntry} {rows : List TaskEntry} :
    kernelSeen tbatchId batchUtcBits e rows = true ↔
      e.kernelId ∈ (batchRows tbatchId batchUtcBits rows).map TaskEntry.kernelId := by
  induction rows with
  | nil => simp [kernelSeen, batchRows]
  | cons f rows ih =>
      rw [kernelSeen]
      by_cases hf : inBatch tbatchId batchUtcBits f = true
      · by_cases hk : f.kernelId = e.kernelId
        · simp [batchRows, hf, hk]
        · have hk' : e.kernelId ≠ f.kernelId := Ne.symm hk
          rw [batchRows] at ih ⊢
          simp [hf, hk, hk', ih]
      · rw [batchRows] at ih ⊢
        simp [hf, ih]

/-- A row that is not in the batch changes neither the rows nor the kernels of it. -/
theorem batchRows_snoc_of_not {e : TaskEntry} {rows : List TaskEntry}
    (he : ¬inBatch tbatchId batchUtcBits e = true) :
    batchRows tbatchId batchUtcBits (rows ++ [e]) = batchRows tbatchId batchUtcBits rows := by
  simp [batchRows, he]

theorem batchRows_snoc {e : TaskEntry} {rows : List TaskEntry}
    (he : inBatch tbatchId batchUtcBits e = true) :
    batchRows tbatchId batchUtcBits (rows ++ [e]) =
      batchRows tbatchId batchUtcBits rows ++ [e] := by
  simp [batchRows, he]

/-- The kernel counter after one more row of the batch. -/
theorem batchKernels_snoc {e : TaskEntry} {rows : List TaskEntry}
    (he : inBatch tbatchId batchUtcBits e = true) :
    batchKernels tbatchId batchUtcBits (rows ++ [e]) =
      if kernelSeen tbatchId batchUtcBits e rows then batchKernels tbatchId batchUtcBits rows
      else batchKernels tbatchId batchUtcBits rows + 1 := by
  set ks := ((batchRows tbatchId batchUtcBits rows).map TaskEntry.kernelId).toFinset with hks
  have hinsert : ((batchRows tbatchId batchUtcBits (rows ++ [e])).map
      TaskEntry.kernelId).toFinset = insert e.kernelId ks := by
    rw [batchRows_snoc he, List.map_append, List.toFinset_append, ← hks, Finset.union_comm]
    rfl
  rw [batchKernels, batchKernels, hinsert]
  by_cases hseen : kernelSeen tbatchId batchUtcBits e rows = true
  · have hmem : e.kernelId ∈ ks := List.mem_toFinset.mpr (kernelSeen_iff.mp hseen)
    rw [if_pos hseen, Finset.insert_eq_of_mem hmem]
  · have hmem : e.kernelId ∉ ks := fun h => hseen (kernelSeen_iff.mpr (List.mem_toFinset.mp h))
    rw [if_neg hseen, Finset.card_insert_of_notMem hmem]

/-- **The walk over the table.** If the counters are right for the rows passed so far, the
walk over the rest succeeds exactly when the appends of the rest do, and returns counters
that are right for the whole table. -/
theorem scanRows_ok_iff {rest done : List TaskEntry} {n : ℕ × ℕ} {ws ws' : Workspace} :
    scanRows tbatchId batchUtcBits done rest (batchRows tbatchId batchUtcBits done).length
        (batchKernels tbatchId batchUtcBits done) ws = .ok n ws' ↔
      appendAll tbatchId ((batchRows tbatchId batchUtcBits rest).map TaskEntry.taskRecordId)
          ws = .ok () ws' ∧
        n = ((batchRows tbatchId batchUtcBits (done ++ rest)).length,
          batchKernels tbatchId batchUtcBits (done ++ rest)) := by
  induction rest generalizing done ws with
  | nil =>
      rw [List.append_nil]
      constructor
      · intro hscan
        cases hscan
        exact ⟨rfl, rfl⟩
      · rintro ⟨happends, rfl⟩
        cases happends
        rfl
  | cons e rest ih =>
      rw [List.append_cons, scanRows]
      by_cases he : inBatch tbatchId batchUtcBits e = true
      · have hlen : (batchRows tbatchId batchUtcBits done).length + 1 =
            (batchRows tbatchId batchUtcBits (done ++ [e])).length := by
          rw [batchRows_snoc he, List.length_append, List.length_singleton]
        have hcons : batchRows tbatchId batchUtcBits (e :: rest) =
            e :: batchRows tbatchId batchUtcBits rest := by
          simp [batchRows, he]
        rw [if_pos he, ← batchKernels_snoc he, hlen, hcons, List.map_cons]
        constructor
        · intro hscan
          obtain ⟨u, ws₁, happend, hrest⟩ := bind_eq_ok.mp hscan
          obtain ⟨happends, hn⟩ := ih.mp hrest
          exact ⟨bind_then (propagate_eq_ok.mp happend) happends, hn⟩
        · rintro ⟨happends, hn⟩
          obtain ⟨u, ws₁, happend, hrest⟩ := bind_eq_ok.mp happends
          exact bind_then (propagate_eq_ok.mpr happend) (ih.mpr ⟨hrest, hn⟩)
      · have hkernels : batchKernels tbatchId batchUtcBits (done ++ [e]) =
            batchKernels tbatchId batchUtcBits done := by
          rw [batchKernels, batchRows_snoc_of_not he, batchKernels]
        have hcons : batchRows tbatchId batchUtcBits (e :: rest) =
            batchRows tbatchId batchUtcBits rest := by
          simp [batchRows, he]
        rw [if_neg he, ← batchRows_snoc_of_not he, ← hkernels, hcons]
        exact ih

/-- A scan succeeds exactly when the listing of the table and the appends of the rows of
the batch, in the order of the table, do, and returns the number of these rows and the
number of their kernels. -/
theorem sfScanBatch_ok_iff {n : ℕ × ℕ} {ws ws' : Workspace} :
    sfScanBatch tbatchId batchUtcBits ws = .ok n ws' ↔
      ∃ rows, tpbRafEntryListTask ws = .ok rows ws ∧
        appendAll tbatchId ((batchRows tbatchId batchUtcBits rows).map TaskEntry.taskRecordId)
          ws = .ok () ws' ∧
        n = ((batchRows tbatchId batchUtcBits rows).length,
          batchKernels tbatchId batchUtcBits rows) := by
  constructor
  · intro hscan
    obtain ⟨rows, ws₁, hlist, hrows⟩ := bind_eq_ok.mp hscan
    rw [propagate_eq_ok] at hlist
    obtain ⟨rfl, -⟩ := entryListRows_bound hlist
    exact ⟨rows, hlist, scanRows_ok_iff.mp hrows⟩
  · rintro ⟨rows, hlist, hrows⟩
    exact bind_then (propagate_eq_ok.mpr hlist) (scanRows_ok_iff.mpr hrows)

end Scan

/-! ### Beginning and ending a batch -/

/-- The static variables of the batch side. The hexadecimal form of the ID and the path of
the workspace follow from the others. -/
structure BatchState where
  active : Bool
  tbatchId : Id20
  utcBits : UInt64
  btimeNs : UInt64
  hostname : CArr 64
  username : CArr 64
  pid : UInt32
  batchType : UInt32
  rtenvId : Int32

/-- The record without tasks that `tpb_record_begin_batch` writes once it has set the
static variables. -/
def BatchState.skeleton (s : BatchState) : Record tbatchFormat where
  attr := { TbatchAttr.zero with
    tbatchId := s.tbatchId
    utcBits := s.utcBits
    btime := s.btimeNs
    hostname := snprintfS 64 s.hostname.toList
    username := snprintfS 64 s.username.toList
    frontPid := s.pid
    batchType := s.batchType
    nheader := 2 }
  headers := [linkHeader taskIdName, linkHeader kernelIdName]
  buf := none
  nheader_eq := rfl
  ndim_le := by
    intro h hh
    simp only [List.mem_cons, List.not_mem_nil, or_false] at hh
    rcases hh with rfl | rfl
    · decide
    · decide
  data_lt := data_lt_none

/-- The part of `tpb_record_begin_batch` behind the setting of the static variables. -/
def tpbRecordBeginBatch (s : BatchState) : WsM BatchState := do
  propagate .rafMisc (tpbRafRecordWriteTbatch s.skeleton.attr s.skeleton.headers
    s.skeleton.buf s.skeleton.datasize)
  return { s with active := true }

/-- Programs over a workspace and the static variables. -/
abbrev BatchM := EStateM Err (BatchState × Workspace)

/-- A call that does not touch the static variables. -/
def onWorkspace {α : Type} (m : WsM α) : BatchM α := fun s =>
  match m s.2 with
  | .ok a ws => .ok a (s.1, ws)
  | .error e ws => .error e (s.1, ws)

/-- The row a batch gets in the task batch table. -/
def BatchState.entry (s : BatchState) (duration : UInt64) (nkernel matched : ℕ) :
    TbatchEntry where
  tbatchId := s.tbatchId
  inheritFrom := zeroArr 20
  startUtcBits := s.utcBits
  duration := duration
  hostname := snprintfS 64 s.hostname.toList
  nkernel := UInt32.ofNat nkernel
  ntask := UInt32.ofNat matched
  nscore := 0
  batchType := s.batchType
  reserve := zeroArr 128

/-- The last part of `tpb_record_end_batch`: the row is appended, and the batch is over
whether or not that failed. -/
def closeBatch (entry : TbatchEntry) : BatchM Unit := fun s =>
  match tpbRafEntryAppendTbatch entry s.2 with
  | .ok () ws => .ok () ({ s.1 with active := false }, ws)
  | .error e ws => .error e ({ s.1 with active := false }, ws)

/-- `tpb_record_end_batch`, at the monotonic time `endBtimeNs`. -/
def tpbRecordEndBatch (endBtimeNs : UInt64) : BatchM Unit := do
  let (s, _) ← get
  if s.active = false then return ()
  let duration := if s.btimeNs < endBtimeNs then endBtimeNs - s.btimeNs else 0
  let (matched, nkernel) ←
    onWorkspace (propagate .rafMisc (sfScanBatch s.tbatchId s.utcBits))
  onWorkspace (propagate .rafMisc (tpbRafRecordPatchTbatchCounters s.tbatchId duration
    (UInt32.ofNat nkernel) (UInt32.ofNat matched)))
  onWorkspace (propagate .rafMisc (tpbRafRecordPatchRtenvCounters s.rtenvId 0 1))
  closeBatch (s.entry duration nkernel matched)

/-! ### What a batch stores -/

section Stored

variable {s : BatchState} {ws ws' ws'' : Workspace}

/-- The task batch of a record without tasks. -/
theorem BatchState.linksTasks (s : BatchState) :
    LinksTasks s.skeleton (linkHeader taskIdName) (linkHeader kernelIdName) where
  headers_eq := rfl
  task_ndim := rfl
  kernel_ndim := rfl
  task_name := by decide +kernel
  kernel_name := by decide +kernel
  whole := rfl
  sizes := rfl

/-- The attributes of the record once the counters are patched. -/
def BatchState.counted (s : BatchState) (duration : UInt64) (nkernel matched : ℕ) :
    TbatchAttr :=
  s.skeleton.attr.withCounters duration (UInt32.ofNat nkernel) (UInt32.ofNat matched)

/-- A counter that an `int` holds survives the conversion to `uint32_t`. -/
theorem toNat_ofNat_u32 {n : ℕ} (h : n ≤ intMax) : (UInt32.ofNat n).toNat = n := by
  simp only [intMax] at h
  rw [UInt32.toNat_ofNat']
  omega

/-- Appending IDs to a record without tasks and patching its counters: the reader finds
the IDs in the payload, their number in the size of the first header, and the counters in
the attributes. -/
theorem BatchState.counters_run (s : BatchState) {ids : List Id20}
    (hfile : ws.files (.record .tbatch s.tbatchId) = some s.skeleton.bytes)
    (hlen : ids.length ≤ intMax) (happend : appendAll s.tbatchId ids ws = .ok () ws')
    (duration : UInt64) (nkernel matched : ℕ) :
    ∃ ws'' v, tpbRafRecordPatchTbatchCounters s.tbatchId duration (UInt32.ofNat nkernel)
        (UInt32.ofNat matched) ws' = .ok () ws'' ∧
      tpbRafRecordReadTbatch s.tbatchId true ws'' = .ok v ws'' ∧
      v.attr = s.counted duration nkernel matched ∧
      v.data = idBytes ids ∧
      v.headers.map MetaHeader.dataSize = [UInt64.ofNat (20 * ids.length), 0] := by
  have hnone : s.skeleton.data.length < 2 ^ 63 := Nat.two_pow_pos 63
  set b := s.linksTasks.batch hnone with hb
  have htask : b.taskData = [] := rfl
  have hkernel : b.kernelData = [] := rfl
  have hroom : b.taskData.length + 20 * ids.length + b.kernelData.length < 2 ^ 63 := by
    rw [htask, hkernel]
    simp only [intMax] at hlen
    simp only [List.length_nil]
    omega
  rw [← s.linksTasks.bytes_batch hnone] at hfile
  rw [appendAll_run b ids hroom hfile] at happend
  cases happend
  have hpatch := tpbRafRecordPatchTbatchCounters_run
    (ws.set_files_same (.record .tbatch s.tbatchId) (b.after ids hroom).record.bytes)
    duration (UInt32.ofNat nkernel) (UInt32.ofNat matched)
  refine ⟨_, _, hpatch, recordRead_of_bytes (Workspace.set_files_same _ _ _), rfl, ?_, ?_⟩
  · change b.taskData ++ idBytes ids ++ b.kernelData = idBytes ids
    rw [htask, hkernel, List.nil_append, List.append_nil]
  · change [(b.after ids hroom).task.dataSize, b.kernel.dataSize] = _
    rw [(b.after ids hroom).task_size]
    change [UInt64.ofNat (b.taskData ++ idBytes ids).length, 0] = _
    rw [htask, List.nil_append, length_idBytes]

/-- **The record of a batch.** For every workspace, a successful scan made exactly the
appends of the rows of the batch, each once and in the order of the table, and returns
their number and the number of their distinct kernels. If the record of the batch was the
one without tasks, patching it with these counters succeeds, and the record then stores
these IDs and no others, as many as the counter of tasks says. -/
theorem endBatch_links_batch_rows (tbatchId : Id20) (batchUtcBits : UInt64) (ws : Workspace)
    {matched nkernel : ℕ}
    (hscan : sfScanBatch tbatchId batchUtcBits ws = .ok (matched, nkernel) ws') :
    ∃ rows found : List TaskEntry, tpbRafEntryListTask ws = .ok rows ws ∧
      found = rows.filter (fun e =>
        e.tbatchId = tbatchId ∧ batchUtcBits ≤ e.utcBits ∧ e.deriveTo = zeroArr 20) ∧
      appendAll tbatchId (found.map TaskEntry.taskRecordId) ws = .ok () ws' ∧
      matched = found.length ∧
      nkernel = (found.map TaskEntry.kernelId).toFinset.card ∧
      ∀ s : BatchState, s.tbatchId = tbatchId →
        ws.files (.record .tbatch tbatchId) = some s.skeleton.bytes →
        ∀ duration, ∃ ws'' v,
          tpbRafRecordPatchTbatchCounters tbatchId duration (UInt32.ofNat nkernel)
            (UInt32.ofNat matched) ws' = .ok () ws'' ∧
          tpbRafRecordReadTbatch tbatchId true ws'' = .ok v ws'' ∧
          v.data = idBytes (found.map TaskEntry.taskRecordId) ∧
          v.headers.map MetaHeader.dataSize = [UInt64.ofNat (20 * matched), 0] ∧
          v.attr.ntask.toNat = matched ∧ v.attr.nkernel.toNat = nkernel := by
  obtain ⟨rows, hlist, happend, hn⟩ := sfScanBatch_ok_iff.mp hscan
  have hlen : rows.length ≤ intMax := (entryListRows_bound hlist).2
  set found := batchRows tbatchId batchUtcBits rows with hdef
  have hfound : found = rows.filter (fun e =>
      e.tbatchId = tbatchId ∧ batchUtcBits ≤ e.utcBits ∧ e.deriveTo = zeroArr 20) := by
    refine List.filter_congr ?_
    intro e _
    rw [Bool.eq_iff_iff, inBatch_iff, decide_eq_true_iff]
  obtain ⟨rfl, rfl⟩ := Prod.mk.inj hn
  have hle : found.length ≤ intMax := (List.length_filter_le _ _).trans hlen
  have hkernels : batchKernels tbatchId batchUtcBits rows ≤ intMax := by
    refine (List.toFinset_card_le _).trans ?_
    rwa [List.length_map]
  refine ⟨rows, found, hlist, hfound, happend, rfl, rfl, ?_⟩
  rintro s rfl hfile duration
  obtain ⟨ws'', v, hpatch, hread, hattr, hdata, hsizes⟩ :=
    s.counters_run hfile (by rwa [List.length_map]) happend duration
      (batchKernels s.tbatchId batchUtcBits rows) found.length
  refine ⟨ws'', v, hpatch, hread, hdata, ?_, ?_, ?_⟩
  · rw [hsizes, List.length_map]
  · rw [hattr]
    exact toNat_ofNat_u32 hle
  · rw [hattr]
    exact toNat_ofNat_u32 hkernels

/-- A batch that was begun at time 5, for the example below. -/
def batchSample : BatchState :=
  ⟨true, zeroArr 20, 5, 0, zeroArr 64, zeroArr 64, 0, 0, 0⟩

/-- A row of the sample batch, with the given ID and kernel. -/
def batchSampleRow (id kernelId : Id20) : TaskEntry where
  taskRecordId := id
  inheritFrom := zeroArr 20
  tbatchId := zeroArr 20
  kernelId := kernelId
  utcBits := 7
  duration := 0
  exitCode := 0
  handleIndex := 0
  deriveTo := zeroArr 20
  reserve := zeroArr 108

/-- Two tasks of one kernel, and between them a row that is older than the batch. -/
def batchSampleRows : List TaskEntry :=
  [batchSampleRow (toArr 20 [1]) (toArr 20 [9]),
    { batchSampleRow (toArr 20 [2]) (toArr 20 [8]) with utcBits := 4 },
    batchSampleRow (toArr 20 [3]) (toArr 20 [9])]

/-- The record of the sample batch stores the first and the third row, and counts one
kernel. -/
theorem endBatch_links_batch_rows_sample :
    ∃ ws ws' ws'' : Workspace, ∃ v,
      sfScanBatch (zeroArr 20) 5 ws = .ok (2, 1) ws' ∧
      tpbRafRecordPatchTbatchCounters (zeroArr 20) 0 1 2 ws' = .ok () ws'' ∧
      tpbRafRecordReadTbatch (zeroArr 20) true ws'' = .ok v ws'' ∧
      v.data = idBytes [toArr 20 [1], toArr 20 [3]] ∧ v.attr.ntask.toNat = 2 := by
  set ws := (Workspace.empty.set (.record .tbatch (zeroArr 20)) batchSample.skeleton.bytes).set
    (.entry .task) (taskRow.table batchSampleRows) with hws
  have hfile : ws.files (.record .tbatch (zeroArr 20)) = some batchSample.skeleton.bytes := by
    rw [hws, Workspace.set_files_of_ne _ _ (by decide), Workspace.set_files_same]
  have hlist : tpbRafEntryListTask ws = .ok batchSampleRows ws :=
    entryListRows_ok (.inl (Workspace.set_files_same _ _ _)) (by decide)
  have hrows : batchRows (zeroArr 20) 5 batchSampleRows =
      [batchSampleRow (toArr 20 [1]) (toArr 20 [9]),
        batchSampleRow (toArr 20 [3]) (toArr 20 [9])] := by
    decide +kernel
  have hkernels : batchKernels (zeroArr 20) 5 batchSampleRows = 1 := by decide +kernel
  have hnone : batchSample.skeleton.data.length < 2 ^ 63 := Nat.two_pow_pos 63
  have hroom : 0 + 20 * 2 + 0 < 2 ^ 63 := by decide
  have happend := appendAll_run (batchSample.linksTasks.batch hnone)
    [toArr 20 [1], toArr 20 [3]] hroom
    (hfile.trans (congrArg some (batchSample.linksTasks.bytes_batch hnone).symm))
  have hscan := sfScanBatch_ok_iff.mpr ⟨_, hlist, by rw [hrows]; exact happend, rfl⟩
  rw [hrows, hkernels] at hscan
  obtain ⟨rows, found, hlist', hfound, -, -, -, hrest⟩ :=
    endBatch_links_batch_rows (zeroArr 20) 5 ws hscan
  rw [hlist] at hlist'
  cases hlist'
  obtain ⟨ws'', v, hpatch, hread, hdata, -, hntask, -⟩ := hrest batchSample rfl hfile 0
  refine ⟨ws, _, ws'', v, hscan, hpatch, hread, ?_, hntask⟩
  have hids : found.map TaskEntry.taskRecordId = [toArr 20 [1], toArr 20 [3]] := by
    rw [hfound]
    decide +kernel
  rw [hdata, hids]

end Stored

end TPBench
