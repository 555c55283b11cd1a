import TPBench.Task.Ridmap

/-!
# The Listing of `task ls`

`tpbcli task ls` lists the entry points of the task table: the rows whose `derive_to` is zero
and that satisfy every filter, in the order of their start times, from the newest or from the
oldest on, and at most as many as were asked for. The task IDs of the rows it shows become the
RIDMAP (`TPBench.Task.Ridmap`), so that a row can be named by its number afterwards.

The rows are sorted by start time and place in the table, and walked from the end for the
newest first. This also turns around the rows of the same start time, which the listing is to
keep in the order of the table. The listing is right exactly when no such rows are reached
(`task_ls_listed`): whenever two rows have the same start time, at least as many later rows
match as are shown.

The local time and the duration are printed by functions outside of the model (`LsEnv`), and
reading the record of a capsule may be undefined, as everywhere.
-/

open CFile

namespace TPBench

/-! ### Arrangements that differ in ties -/

section Ties

variable {α κ : Type} [LinearOrder κ] (key : α → κ) (idx : α → ℕ)

/-- Decreasing keys, and increasing places among equal keys. -/
def KeepsTies (a b : α) : Prop := key b < key a ∨ key a = key b ∧ idx a < idx b

/-- Decreasing keys, and decreasing places among equal keys. -/
def TurnsTies (a b : α) : Prop := key b < key a ∨ key a = key b ∧ idx b < idx a

variable {key idx}

theorem KeepsTies.key_le {a b : α} (h : KeepsTies key idx a b) : key b ≤ key a := by
  rcases h with h | ⟨h, -⟩
  · exact h.le
  · exact h.symm.le

theorem TurnsTies.key_le {a b : α} (h : TurnsTies key idx a b) : key b ≤ key a := by
  rcases h with h | ⟨h, -⟩
  · exact h.le
  · exact h.symm.le

/-- Nothing has a larger key than the first element. -/
theorem countP_key_head {x : α} {l : List α} (h : ∀ b ∈ l, key b ≤ key x) :
    (x :: l).countP (fun c => key x < key c) = 0 := by
  rw [List.countP_eq_zero]
  intro c hc
  rcases List.mem_cons.mp hc with rfl | hc
  · simp
  · simpa using h c hc

/-- Two arrangements by decreasing keys that treat ties in opposite ways agree on their first
`n` elements exactly when no two elements with the same key are among these or next to
them: at least `n` elements have a larger key. -/
theorem take_eq_take_iff {s r : List α} (hperm : r.Perm s) (hs : s.Pairwise (KeepsTies key idx))
    (hr : r.Pairwise (TurnsTies key idx)) (n : ℕ) :
    r.take n = s.take n ↔ ∀ a ∈ s, ∀ b ∈ s, a ≠ b → key a = key b →
      n ≤ s.countP fun c => key a < key c := by
  induction s generalizing r n with
  | nil => simp [hperm.eq_nil]
  | cons x s ih =>
      cases r with
      | nil => simp at hperm
      | cons y r =>
          obtain ⟨hx, hs'⟩ := List.pairwise_cons.mp hs
          obtain ⟨hy, hr'⟩ := List.pairwise_cons.mp hr
          have hnone := countP_key_head fun b hb => (hx b hb).key_le
          cases n with
          | zero => simp
          | succ n =>
              by_cases hxy : y = x
              · obtain rfl := hxy
                have hperm' : r.Perm s := (List.perm_cons y).mp hperm
                have hnotie : ∀ b ∈ s, key b < key y := by
                  intro b hb
                  rcases hx b hb with h | ⟨heq, hlt⟩
                  · exact h
                  · rcases hy b (hperm'.mem_iff.mpr hb) with h | ⟨-, hgt⟩
                    · exact h
                    · omega
                rw [List.take_succ_cons, List.take_succ_cons, List.cons.injEq,
                  and_iff_right rfl, ih hperm' hs' hr' n]
                constructor
                · intro h a ha b hb hab hkey
                  rcases List.mem_cons.mp ha with rfl | ha'
                  · rcases List.mem_cons.mp hb with rfl | hb'
                    · exact absurd rfl hab
                    · exact absurd hkey (hnotie b hb').ne'
                  · rcases List.mem_cons.mp hb with rfl | hb'
                    · exact absurd hkey (hnotie a ha').ne
                    · have := h a ha' b hb' hab hkey
                      rw [List.countP_cons, if_pos (by simpa using hnotie a ha')]
                      omega
                · intro h a ha b hb hab hkey
                  have := h a (by simp [ha]) b (by simp [hb]) hab hkey
                  rw [List.countP_cons, if_pos (by simpa using hnotie a ha)] at this
                  omega
              · have hmem : y ∈ s := by
                  have : y ∈ x :: s := hperm.mem_iff.mp (by simp)
                  exact (List.mem_cons.mp this).resolve_left hxy
                have hmem' : x ∈ r := by
                  have : x ∈ y :: r := hperm.mem_iff.mpr (by simp)
                  exact (List.mem_cons.mp this).resolve_left (Ne.symm hxy)
                have hkey : key x = key y :=
                  le_antisymm (hy x hmem').key_le (hx y hmem).key_le
                constructor
                · intro h
                  rw [List.take_succ_cons, List.take_succ_cons, List.cons.injEq] at h
                  exact absurd h.1 hxy
                · intro h
                  have := h x (by simp) y (by simp [hmem]) (Ne.symm hxy) hkey
                  omega

end Ties

/-! ### Rows and filters -/

/-- A row of the listing, `tpbcli_task_row_t`: an entry and its place in the table. -/
structure TaskRow where
  entry : TaskEntry
  indexOrder : ℕ
  deriving DecidableEq

/-- `tpbcli_task_filter_op_t`. -/
inductive FilterOp
  | eq
  | gt
  | ge
  | lt
  | le
  deriving DecidableEq

/-- `tpbcli_task_filter_key_t`. -/
inductive FilterKey
  | kernelId
  | kernelName
  | tbatchId
  | datetime
  | exitCode
  deriving DecidableEq

/-- A filter, `tpbcli_task_filter_t`. -/
structure TaskFilter where
  key : FilterKey
  op : FilterOp
  value : CArr 256
  datetimeUtc : UInt64
  exitCode : UInt32

/-- `tpbcli_task_ls_opts_t`. -/
structure LsOpts where
  count : ℤ
  fromOldest : Bool
  filters : List TaskFilter

/-- `_sf_cmp_rows`. -/
def sfCmpRows (a b : TaskRow) : Ordering :=
  if a.entry.utcBits < b.entry.utcBits then .lt
  else if a.entry.utcBits > b.entry.utcBits then .gt
  else if a.indexOrder < b.indexOrder then .lt
  else if a.indexOrder > b.indexOrder then .gt
  else .eq

/-- `tpbcli_task_format_id_prefix6`. -/
def tpbcliTaskFormatIdPrefix6 (id : Id20) : Bytes := (hexBytes id.toList).take 6 ++ [42]

/-- `_sf_lookup_kernel_name`. -/
def sfLookupKernelName (kentries : List KernelEntry) (kernelId : Id20) : Bytes :=
  match kentries.find? (·.kernelId = kernelId) with
  | some e =>
      if cstr e.kernelName.toList ≠ [] then cstr e.kernelName.toList
      else tpbcliTaskFormatIdPrefix6 kernelId
  | none => tpbcliTaskFormatIdPrefix6 kernelId

/-- `_sf_hex_prefix_match`. -/
def sfHexPrefixMatch (id : Id20) (pre : Bytes) : Bool :=
  if pre.length < 4 ∨ pre.length > 40 then false
  else if pre.any (!isxdigit ·) then false
  else ((hexBytes id.toList).take pre.length).map tolower = pre.map tolower

/-- The comparison of a start time. -/
def FilterOp.holds (op : FilterOp) (bits value : UInt64) : Bool :=
  match op with
  | .eq => bits = value
  | .gt => bits > value
  | .ge => bits ≥ value
  | .lt => bits < value
  | .le => bits ≤ value

/-- A row satisfies one filter: the body of the loop of `_sf_match_filters`. -/
def matchFilter (kentries : List KernelEntry) (e : TaskEntry) (f : TaskFilter) : Bool :=
  match f.key with
  | .kernelId => sfHexPrefixMatch e.kernelId (cstr f.value.toList)
  | .kernelName => sfLookupKernelName kentries e.kernelId = cstr f.value.toList
  | .tbatchId => sfHexPrefixMatch e.tbatchId (cstr f.value.toList)
  | .exitCode => e.exitCode = f.exitCode
  | .datetime => f.op.holds e.utcBits f.datetimeUtc

/-- `_sf_match_filters`. -/
def sfMatchFilters (kentries : List KernelEntry) (opts : LsOpts) (row : TaskRow) : Bool :=
  opts.filters.all (matchFilter kentries row.entry)

/-- The rows of the entry points, with their places in the table. -/
def entryRows (all : List TaskEntry) : List TaskRow :=
  (all.zipIdx.map fun p => ⟨p.1, p.2⟩).filter fun r => sfIsZeroId20 r.entry.deriveTo

/-- `qsort` with `_sf_cmp_rows`. The order of the sort does not matter: no two rows compare
as equal. -/
def sortRows (rows : List TaskRow) : List TaskRow :=
  rows.mergeSort fun a b => sfCmpRows a b ≠ .gt

/-- The number of rows to show of `nmatched`. -/
def LsOpts.nshow (opts : LsOpts) (nmatched : ℕ) : ℕ :=
  if opts.count ≤ 0 then nmatched else min nmatched opts.count.toNat

/-! ### The command -/

/-- What the command prints: a message, the header of the table, or a row with its cells. -/
inductive LsLine
  | text (t : Bytes)
  | header (cells : List Bytes)
  | row (r : TaskRow) (cells : List Bytes)

/-- What the command works on: the store, the RIDMAP, and what was printed. -/
structure LsState where
  ws : Workspace
  files : RidmapFiles
  out : List LsLine

/-- Programs of the command. -/
abbrev LsM := EStateM Err LsState

/-- What the command depends on beside its options: the path of the workspace, the answers of
the system, the local time of a start time, and the seconds of a duration. -/
structure LsEnv where
  workspace : Bytes
  sys : RidmapSys
  localTime : UInt64 → Option Bytes
  seconds : UInt64 → Bytes

/-- Print a line. -/
def printOut (l : LsLine) : LsM Unit := fun s => .ok () { s with out := s.out ++ [l] }

/-- Print a message. -/
def say (t : String) : LsM Unit := printOut (.text (ascii t.toList))

/-- A program over the store. -/
def onStore {α : Type} (m : WsM α) : LsM α := fun s =>
  match m s.ws with
  | .ok a ws => .ok a { s with ws }
  | .error e ws => .error e { s with ws }

/-- A program over the RIDMAP. -/
def onRidmap {α : Type} (m : RidmapM α) : LsM α := fun s =>
  match m s.files with
  | .ok a files => .ok a { s with files }
  | .error e files => .error e { s with files }

/-- The kernel table, and a warning when it cannot be read. -/
def listKernels : LsM (List KernelEntry) := fun s =>
  match tpbRafEntryListKernel s.ws with
  | .ok kentries ws => .ok kentries { s with ws }
  | .error .undefined ws => .error .undefined { s with ws }
  | .error (.code _ _) ws =>
      (do say "WARNING: kernel index unavailable; Kernel column uses ID prefixes\n"
          return []) { s with ws }

/-- The warning about a capsule, which is printed once. -/
def warnOnce (warned : Bool) (t : String) : LsM (Bytes × Bool) := do
  if warned then return (ascii ['?'], true)
  else
    say t
    return (ascii ['?'], true)

/-- `_sf_subproc_cell`: the cell, and whether a warning was printed. -/
def sfSubprocCell (e : TaskEntry) (warned : Bool) : LsM (Bytes × Bool) :=
  if !sfIsAllFf e.inheritFrom then return (ascii ['0'], warned)
  else do
    match ← onStore (attemptRead e.taskRecordId) with
    | none =>
        warnOnce warned
          "WARNING: failed to read capsule candidate; Subproc shown as ?\n"
    | some v =>
        if !tpbcliTaskConfirmCapsule v then return (ascii ['0'], warned)
        else match tpbcliTaskReadCapsuleMembers v with
          | .error _ =>
              warnOnce warned "WARNING: capsule member list unreadable; Subproc shown as ?\n"
          | .ok ids => return (formatD ids.length, warned)

/-- The cells of a row. -/
def rowCellsOf (env : LsEnv) (kentries : List KernelEntry) (shown : ℕ) (e : TaskEntry)
    (subproc : Bytes) : List Bytes :=
  [formatD shown, (env.localTime e.utcBits).getD (ascii ['-']),
    (sfLookupKernelName kentries e.kernelId).take 71, formatD e.exitCode.toNat,
    env.seconds e.duration, formatD e.handleIndex.toNat, subproc,
    tpbcliTaskFormatIdPrefix6 e.taskRecordId, tpbcliTaskFormatIdPrefix6 e.tbatchId]

/-- The loop over the shown rows: `left` rows are still to be shown, `idx` is the next one,
and the IDs of the rows come back. -/
def showRows (env : LsEnv) (kentries : List KernelEntry) (matched : List TaskRow) (step : ℤ) :
    ℕ → ℤ → ℕ → Bool → LsM (List Id20)
  | 0, _, _, _ => return []
  | left + 1, idx, shown, warned =>
      if idx < 0 then return []
      else match matched[idx.toNat]? with
        | none => return []
        | some r => do
            let cell ← sfSubprocCell r.entry warned
            printOut (.row r (rowCellsOf env kentries shown r.entry cell.1))
            let ids ← showRows env kentries matched step left (idx + step) (shown + 1) cell.2
            return r.entry.taskRecordId :: ids

/-- The header of the table. -/
def lsHeader : List Bytes :=
  ["Rid", "Start Time (Local)", "Kernel", "Exit", "Duration(s)", "Handle", "Subproc",
    "Task ID", "TBatch ID"].map fun t => ascii t.toList

/-- The end of `tpbcli_task_ls`: the RIDMAP is written when rows were shown. -/
def finishLs (env : LsEnv) (ids : List Id20) : LsM Unit :=
  if ids.length > 0 then do
    onRidmap (tpbcliTaskRidmapWriteAtomic env.sys env.workspace ids)
    printOut (.text (ascii "RIDMAP updated with ".toList ++ formatD ids.length ++
      ascii (if ids.length = 1 then " entry.\n" else " entries.\n").toList))
  else say "RIDMAP not updated (zero shown results).\n"

/-- The rows of the table that match, in the order of the sort. -/
def matchedRows (opts : LsOpts) (kentries : List KernelEntry) (all : List TaskEntry) :
    List TaskRow :=
  (sortRows (entryRows all)).filter (sfMatchFilters kentries opts)

/-- `tpbcli_task_ls`. -/
def tpbcliTaskLs (env : LsEnv) (opts : LsOpts) : LsM Unit := do
  let path ← liftResult (tpbcliTaskRidmapPath env.workspace)
  printOut (.text (ascii "RIDMAP: ".toList ++ path ++ [newline]))
  let all ← onStore (propagate .cliMisc tpbRafEntryListTask)
  let kentries ← listKernels
  let matched := matchedRows opts kentries all
  let nshow := opts.nshow matched.length
  printOut (.header lsHeader)
  let ids ← showRows env kentries matched (if opts.fromOldest then 1 else -1) nshow
    (if opts.fromOldest then 0 else (matched.length : ℤ) - 1) 0 false
  printOut (.text (ascii "Found ".toList ++ formatD matched.length ++ ascii " in ".toList ++
    formatD (entryRows all).length ++ ascii " task records, shown ".toList ++
    formatD ids.length ++ ascii " results.\n".toList))
  finishLs env ids

/-! ### What is shown -/

/-- The row of a line, when it is one. -/
def LsLine.row? : LsLine → Option TaskRow
  | .row r _ => some r
  | _ => none

/-- The rows that were shown, in the order of the display. -/
def LsState.shown (s : LsState) : List TaskRow := s.out.filterMap LsLine.row?

/-- A part of the command that shows `rs` and leaves the rest of the state alone. -/
structure Shows (s s' : LsState) (rs : List TaskRow) : Prop where
  ws : s'.ws = s.ws
  files : s'.files = s.files
  shown : s'.shown = s.shown ++ rs

theorem Shows.refl (s : LsState) : Shows s s [] := ⟨rfl, rfl, by simp⟩

theorem Shows.trans {s s₁ s₂ : LsState} {rs rs₁ : List TaskRow} (h : Shows s s₁ rs)
    (h₁ : Shows s₁ s₂ rs₁) : Shows s s₂ (rs ++ rs₁) where
  ws := h₁.ws.trans h.ws
  files := h₁.files.trans h.files
  shown := by rw [h₁.shown, h.shown, List.append_assoc]

/-- Printing succeeds, and shows the row of the line. -/
theorem printOut_ok (l : LsLine) (s : LsState) :
    ∃ s', printOut l s = .ok () s' ∧ Shows s s' l.row?.toList := by
  refine ⟨_, rfl, rfl, rfl, ?_⟩
  cases hl : l.row? <;> simp [LsState.shown, hl]

/-- A program that shows nothing, and fails only where it has no meaning. -/
def Quiet {α : Type} (m : LsM α) : Prop :=
  ∀ s, (∃ a s', m s = .ok a s' ∧ Shows s s' []) ∨ ∃ s', m s = .error .undefined s'

theorem quiet_pure {α : Type} (a : α) : Quiet (pure a : LsM α) :=
  fun s => .inl ⟨a, s, rfl, .refl s⟩

theorem quiet_say (t : String) : Quiet (say t) := by
  intro s
  obtain ⟨s', hprint, hshow⟩ := printOut_ok (.text (ascii t.toList)) s
  exact .inl ⟨(), s', hprint, hshow⟩

theorem Quiet.bind {α β : Type} {m : LsM α} {f : α → LsM β} (hm : Quiet m)
    (hf : ∀ a, Quiet (f a)) : Quiet (m >>= f) := by
  intro s
  rcases hm s with ⟨a, s₁, hrun, hshow⟩ | ⟨s₁, hrun⟩
  · rw [bind_ok hrun]
    rcases hf a s₁ with ⟨b, s₂, hrest, hshow'⟩ | ⟨s₂, hrest⟩
    · exact .inl ⟨b, s₂, hrest, hshow.trans hshow'⟩
    · exact .inr ⟨s₂, hrest⟩
  · exact .inr ⟨s₁, bind_error hrun⟩

theorem quiet_warnOnce (warned : Bool) (t : String) : Quiet (warnOnce warned t) := by
  cases warned with
  | true => exact quiet_pure _
  | false => exact (quiet_say t).bind fun _ => quiet_pure _

theorem quiet_attemptRead (id : Id20) : Quiet (onStore (attemptRead id)) := by
  intro s
  simp only [onStore, attemptRead]
  rcases hread : tpbRafRecordReadTask id true s.ws with ⟨v, ws'⟩ | ⟨⟨m, c⟩ | -, ws'⟩
  · rw [tpbRafRecordReadTask_ws hread]
    exact .inl ⟨some v, s, rfl, .refl s⟩
  · rw [fopenRead_eq_error hread]
    exact .inl ⟨none, s, rfl, .refl s⟩
  · exact .inr ⟨_, rfl⟩

theorem quiet_sfSubprocCell (e : TaskEntry) (warned : Bool) : Quiet (sfSubprocCell e warned) := by
  rw [sfSubprocCell]
  split
  · exact quiet_pure _
  · refine (quiet_attemptRead e.taskRecordId).bind fun v => ?_
    cases v with
    | none => exact quiet_warnOnce warned _
    | some v =>
        simp only
        split
        · exact quiet_pure _
        · split
          · exact quiet_warnOnce warned _
          · exact quiet_pure _

/-- The kernel table as the listing uses it: a table that cannot be read is empty. -/
def kernelTable (ws : Workspace) : List KernelEntry :=
  match tpbRafEntryListKernel ws with
  | .ok kentries _ => kentries
  | .error _ _ => []

theorem listKernels_cases (s : LsState) :
    (∃ s', listKernels s = .ok (kernelTable s.ws) s' ∧ Shows s s' []) ∨
      (∃ s', listKernels s = .error .undefined s') ∧
        ∃ ws', tpbRafEntryListKernel s.ws = .error .undefined ws' := by
  simp only [listKernels, kernelTable]
  rcases hlist : tpbRafEntryListKernel s.ws with ⟨kentries, ws'⟩ | ⟨⟨m, c⟩ | -, ws'⟩
  · obtain ⟨rfl, -⟩ := entryListRows_bound hlist
    exact .inl ⟨s, rfl, .refl s⟩
  · obtain rfl := entryListRows_error hlist
    obtain ⟨s', hprint, hshow⟩ := printOut_ok (.text (ascii
      "WARNING: kernel index unavailable; Kernel column uses ID prefixes\n".toList)) s
    exact .inl ⟨s', bind_then hprint rfl, hshow⟩
  · exact .inr ⟨⟨_, rfl⟩, ws', rfl⟩

/-- The rows the loop passes. -/
def walk (matched : List TaskRow) (step : ℤ) : ℕ → ℤ → List TaskRow
  | 0, _ => []
  | left + 1, idx =>
      if idx < 0 then []
      else match matched[idx.toNat]? with
        | none => []
        | some r => r :: walk matched step left (idx + step)

/-- The loop shows the rows it passes, and collects their IDs. -/
theorem showRows_cases (env : LsEnv) (kentries : List KernelEntry) (matched : List TaskRow)
    (step : ℤ) (left : ℕ) (idx : ℤ) (shown : ℕ) (warned : Bool) (s : LsState) :
    (∃ s', showRows env kentries matched step left idx shown warned s =
        .ok ((walk matched step left idx).map (·.entry.taskRecordId)) s' ∧
      Shows s s' (walk matched step left idx)) ∨
    (∃ s', showRows env kentries matched step left idx shown warned s = .error .undefined s') ∧
      ∃ r ∈ matched, sfIsAllFf r.entry.inheritFrom = true := by
  induction left generalizing idx shown warned s with
  | zero => exact .inl ⟨s, rfl, .refl s⟩
  | succ left ih =>
      rw [showRows, walk]
      split
      · exact .inl ⟨s, rfl, .refl s⟩
      · cases hrow : matched[idx.toNat]? with
        | none => exact .inl ⟨s, rfl, .refl s⟩
        | some r =>
            simp only
            have hmem : r ∈ matched := List.mem_of_getElem? hrow
            rcases quiet_sfSubprocCell r.entry warned s with ⟨cell, s₁, hcell, hshow⟩ | ⟨s₁, hcell⟩
            · rw [bind_ok hcell]
              obtain ⟨s₂, hprint, hline⟩ :=
                printOut_ok (.row r (rowCellsOf env kentries shown r.entry cell.1)) s₁
              rw [bind_ok hprint]
              rcases ih (idx + step) (shown + 1) cell.2 s₂ with
                ⟨s₃, hrest, hshow'⟩ | ⟨⟨s₃, hrest⟩, hcapsule⟩
              · exact .inl ⟨s₃, bind_then hrest rfl, (hshow.trans hline).trans hshow'⟩
              · exact .inr ⟨⟨s₃, bind_error hrest⟩, hcapsule⟩
            · refine .inr ⟨⟨s₁, bind_error hcell⟩, r, hmem, ?_⟩
              by_contra hplain
              rw [sfSubprocCell, if_pos (by simp [hplain])] at hcell
              cases hcell

/-- From the oldest on, the loop passes the first rows. -/
theorem walk_up (matched : List TaskRow) (left i : ℕ) :
    walk matched 1 left i = (matched.drop i).take left := by
  induction left generalizing i with
  | zero => simp [walk]
  | succ left ih =>
      rw [walk, if_neg (by omega), Int.toNat_natCast]
      cases hrow : matched[i]? with
      | none =>
          rw [List.drop_eq_nil_of_le (List.getElem?_eq_none_iff.mp hrow), List.take_nil]
      | some r =>
          obtain ⟨hi, rfl⟩ := List.getElem?_eq_some_iff.mp hrow
          simp only
          rw [List.drop_eq_getElem_cons hi, List.take_succ_cons]
          exact congrArg _ (ih (i + 1))

/-- From the newest on, the loop passes the last rows, backwards. -/
theorem walk_down (matched : List TaskRow) (left i : ℕ) (hi : i ≤ matched.length) :
    walk matched (-1) left ((i : ℤ) - 1) = (matched.take i).reverse.take left := by
  induction left generalizing i with
  | zero => simp [walk]
  | succ left ih =>
      cases i with
      | zero => simp [walk]
      | succ i =>
          have hlt : i < matched.length := hi
          have hidx : ((i + 1 : ℕ) : ℤ) - 1 = i := by push_cast; ring
          rw [hidx, walk, if_neg (by omega), Int.toNat_natCast, List.getElem?_eq_getElem hlt]
          simp only
          rw [List.take_succ_eq_append_getElem hlt, List.reverse_append, List.reverse_singleton,
            List.singleton_append, List.take_succ_cons]
          exact congrArg _ (ih i hlt.le)

/-! ### Runs of the command -/

/-- The state in which the command starts. -/
def LsState.start (ws : Workspace) (files : RidmapFiles) : LsState := ⟨ws, files, []⟩

/-- The matching rows as the listing shows them. -/
def displayedRows (opts : LsOpts) (matched : List TaskRow) : List TaskRow :=
  (if opts.fromOldest then matched else matched.reverse).take (opts.nshow matched.length)

/-- The loop shows the displayed rows. -/
theorem walk_matched (opts : LsOpts) (matched : List TaskRow) :
    walk matched (if opts.fromOldest then 1 else -1) (opts.nshow matched.length)
      (if opts.fromOldest then 0 else (matched.length : ℤ) - 1) = displayedRows opts matched := by
  rw [displayedRows]
  cases opts.fromOldest with
  | true => exact walk_up matched _ 0
  | false =>
      have hdown := walk_down matched (opts.nshow matched.length) matched.length le_rfl
      rw [List.take_length] at hdown
      exact hdown

section Run

variable {env : LsEnv} {opts : LsOpts} {ws : Workspace} {files : RidmapFiles}

/-- A command that cannot name the RIDMAP or read the task table shows nothing and leaves the
RIDMAP alone. -/
theorem tpbcliTaskLs_refused (opts : LsOpts) (files : RidmapFiles)
    (h : (∃ e, tpbcliTaskRidmapPath env.workspace = .error e) ∨
      ∃ e ws', tpbRafEntryListTask ws = .error e ws') :
    ∃ e s', tpbcliTaskLs env opts (.start ws files) = .error e s' ∧ s'.shown = [] ∧
      s'.files = files := by
  cases hpath : tpbcliTaskRidmapPath env.workspace with
  | error e =>
      refine ⟨e.propagated .cliMisc, .start ws files, ?_, rfl, rfl⟩
      rw [tpbcliTaskLs, hpath]
      exact bind_error rfl
  | ok path =>
      obtain ⟨e, ws', hlist⟩ := h.resolve_left (by simp [hpath])
      obtain ⟨s₁, hprint, hshow⟩ := printOut_ok
        (.text (ascii "RIDMAP: ".toList ++ path ++ [newline])) (.start ws files)
      rcases hprop : propagate .cliMisc tpbRafEntryListTask ws with ⟨all, ws₁⟩ | ⟨e₁, ws₁⟩
      · rw [propagate_eq_ok, hlist] at hprop
        cases hprop
      · refine ⟨e₁, { s₁ with ws := ws₁ }, ?_, hshow.shown, hshow.files⟩
        rw [tpbcliTaskLs, hpath]
        refine bind_then rfl (bind_then hprint (bind_error ?_))
        rw [onStore, hshow.ws]
        simp only [LsState.start, hprop]

/-- A command that gets to its table shows the displayed rows, and then writes the RIDMAP,
unless it reads a record that has no meaning. -/
theorem tpbcliTaskLs_listed {path : Bytes} {all : List TaskEntry}
    (hpath : tpbcliTaskRidmapPath env.workspace = .ok path)
    (hlist : tpbRafEntryListTask ws = .ok all ws) :
    ((∃ s', tpbcliTaskLs env opts (.start ws files) = .error .undefined s') ∧
      ((∃ r ∈ matchedRows opts (kernelTable ws) all, sfIsAllFf r.entry.inheritFrom = true) ∨
        ∃ ws', tpbRafEntryListKernel ws = .error .undefined ws')) ∨
    ∃ s', Shows (.start ws files) s'
        (displayedRows opts (matchedRows opts (kernelTable ws) all)) ∧
      tpbcliTaskLs env opts (.start ws files) = finishLs env
        ((displayedRows opts (matchedRows opts (kernelTable ws) all)).map
          (·.entry.taskRecordId)) s' := by
  obtain ⟨s₁, hpath', hshow₁⟩ := printOut_ok
    (.text (ascii "RIDMAP: ".toList ++ path ++ [newline])) (.start ws files)
  have hws₁ : s₁.ws = ws := hshow₁.ws
  have htable : onStore (propagate .cliMisc tpbRafEntryListTask) s₁ = .ok all s₁ := by
    rw [onStore, hws₁, propagate_eq_ok.mpr hlist, ← hws₁]
  rw [tpbcliTaskLs, hpath, bind_ok (show liftResult _ _ = .ok path _ from rfl), bind_ok hpath',
    bind_ok htable]
  rcases listKernels_cases s₁ with ⟨s₂, hkernels, hshow₂⟩ | ⟨⟨s₂, hkernels⟩, hundef⟩
  · rw [hws₁] at hkernels
    rw [bind_ok hkernels]
    obtain ⟨s₃, hheader, hshow₃⟩ := printOut_ok (.header lsHeader) s₂
    rw [bind_ok hheader]
    have hloop := showRows_cases env (kernelTable ws) (matchedRows opts (kernelTable ws) all)
      (if opts.fromOldest then 1 else -1)
      (opts.nshow (matchedRows opts (kernelTable ws) all).length)
      (if opts.fromOldest then 0 else ((matchedRows opts (kernelTable ws) all).length : ℤ) - 1)
      0 false s₃
    rw [walk_matched] at hloop
    rcases hloop with ⟨s₄, hrows, hshow₄⟩ | ⟨⟨s₄, hrows⟩, hcapsule⟩
    · rw [bind_ok hrows]
      obtain ⟨s₅, hfound, hshow₅⟩ := printOut_ok (.text _) s₄
      refine .inr ⟨s₅, ?_, bind_then hfound rfl⟩
      have hshow := (((hshow₁.trans hshow₂).trans hshow₃).trans hshow₄).trans hshow₅
      simpa [LsLine.row?] using hshow
    · exact .inl ⟨⟨s₄, bind_error hrows⟩, .inl hcapsule⟩
  · exact .inl ⟨⟨s₂, bind_error hkernels⟩, .inr (hws₁ ▸ hundef)⟩

end Run

/-! ### The promised order -/

/-- The order the listing promises: by start time in its direction, and by place in the table
among rows of the same start time. -/
def listedBefore (fromOldest : Bool) (a b : TaskRow) : Bool :=
  if a.entry.utcBits = b.entry.utcBits then a.indexOrder ≤ b.indexOrder
  else if fromOldest then a.entry.utcBits < b.entry.utcBits
  else b.entry.utcBits < a.entry.utcBits

/-- The rows that match, in the order of the table. -/
def keptRows (opts : LsOpts) (kentries : List KernelEntry) (all : List TaskEntry) :
    List TaskRow :=
  (entryRows all).filter (sfMatchFilters kentries opts)

/-- The rows the listing promises to show. -/
def promisedRows (opts : LsOpts) (kept : List TaskRow) : List TaskRow :=
  (kept.mergeSort (listedBefore opts.fromOldest)).take (opts.nshow kept.length)

section Order

variable {o : Bool} {a b c : TaskRow}

theorem listedBefore_trans (a b c : TaskRow) (hab : listedBefore o a b = true)
    (hbc : listedBefore o b c = true) : listedBefore o a c = true := by
  unfold listedBefore at *
  cases o <;> grind

theorem listedBefore_total (a b : TaskRow) :
    (listedBefore o a b || listedBefore o b a) = true := by
  unfold listedBefore
  cases o <;> grind

/-- The comparison of the source is the order from the oldest on. -/
theorem sfCmpRows_ne_gt : decide (sfCmpRows a b ≠ .gt) = listedBefore true a b := by
  unfold sfCmpRows listedBefore
  grind

/-- Rows in different places of the table that are in the promised order are in no other. -/
theorem listedBefore_strict (h : listedBefore o a b = true)
    (hne : a.indexOrder ≠ b.indexOrder) : listedBefore o b a = false := by
  unfold listedBefore at *
  cases o <;> grind

end Order

/-- The places of the rows in the table increase. -/
theorem pairwise_entryRows (all : List TaskEntry) :
    (entryRows all).Pairwise fun a b => a.indexOrder < b.indexOrder := by
  refine List.Pairwise.filter _ ?_
  rw [List.pairwise_map]
  have hsnd : (all.zipIdx.map (·.2)).Pairwise (· < ·) := by
    rw [List.zipIdx_map_snd]
    exact List.pairwise_lt_range'
  exact List.pairwise_map.mp hsnd

/-- No two rows of a rearrangement are in the same place of the table. -/
theorem indexOrder_ne {opts : LsOpts} {kentries : List KernelEntry} {all : List TaskEntry}
    {rows : List TaskRow} (h : rows.Perm (keptRows opts kentries all)) :
    rows.Pairwise fun a b => a.indexOrder ≠ b.indexOrder := by
  rw [h.pairwise_iff Ne.symm]
  exact ((pairwise_entryRows all).filter _).imp Nat.ne_of_lt

section Listing

variable (opts : LsOpts) (kentries : List KernelEntry) (all : List TaskEntry)

theorem matchedRows_perm : (matchedRows opts kentries all).Perm (keptRows opts kentries all) :=
  (List.mergeSort_perm _ _).filter _

/-- The rows that match are sorted from the oldest on. -/
theorem pairwise_matchedRows :
    (matchedRows opts kentries all).Pairwise fun a b => listedBefore true a b = true := by
  refine List.Pairwise.filter _ ?_
  simp only [sortRows, sfCmpRows_ne_gt]
  exact List.pairwise_mergeSort listedBefore_trans listedBefore_total _

/-- The rows in the promised order, in different places of the table. -/
theorem pairwise_promised (o : Bool) :
    ((keptRows opts kentries all).mergeSort (listedBefore o)).Pairwise fun a b =>
      listedBefore o a b = true ∧ a.indexOrder ≠ b.indexOrder :=
  (List.pairwise_mergeSort listedBefore_trans listedBefore_total _).and
    (indexOrder_ne (List.mergeSort_perm _ _))

/-- From the oldest on, the listing is as promised. -/
theorem displayedRows_oldest (h : opts.fromOldest = true) :
    displayedRows opts (matchedRows opts kentries all) =
      promisedRows opts (keptRows opts kentries all) := by
  have hperm := matchedRows_perm opts kentries all
  have heq : matchedRows opts kentries all =
      (keptRows opts kentries all).mergeSort (listedBefore true) := by
    refine List.Perm.eq_of_pairwise ?_
      ((pairwise_matchedRows opts kentries all).and (indexOrder_ne hperm))
      (pairwise_promised opts kentries all true)
      (hperm.trans (List.mergeSort_perm _ _).symm)
    rintro a b - - ⟨hab, hne⟩ ⟨hba, -⟩
    rw [listedBefore_strict hab hne] at hba
    cases hba
  rw [displayedRows, promisedRows, h, if_pos rfl, hperm.length_eq, heq]

/-- No two rows that match and have the same start time are within the reach of the listing:
at least as many later rows match as are shown. -/
def TiesOutOfReach (kept : List TaskRow) : Prop :=
  ∀ a ∈ kept, ∀ b ∈ kept, a ≠ b → a.entry.utcBits = b.entry.utcBits →
    opts.nshow kept.length ≤ kept.countP fun c => a.entry.utcBits < c.entry.utcBits

/-- From the newest on, the listing is as promised exactly when no rows of the same start time
are within reach. -/
theorem displayedRows_newest (h : opts.fromOldest = false) :
    displayedRows opts (matchedRows opts kentries all) =
        promisedRows opts (keptRows opts kentries all) ↔
      TiesOutOfReach opts (keptRows opts kentries all) := by
  have hperm := matchedRows_perm opts kentries all
  have hsort := List.mergeSort_perm (keptRows opts kentries all) (listedBefore false)
  have hkeeps : ((keptRows opts kentries all).mergeSort (listedBefore false)).Pairwise
      (KeepsTies (fun r => r.entry.utcBits.toNat) TaskRow.indexOrder) := by
    refine (pairwise_promised opts kentries all false).imp ?_
    rintro a b ⟨hab, hne⟩
    simp only [listedBefore, KeepsTies, ← UInt64.lt_iff_toNat_lt, UInt64.toNat_inj] at hab ⊢
    grind
  have hturns : (matchedRows opts kentries all).reverse.Pairwise
      (TurnsTies (fun r => r.entry.utcBits.toNat) TaskRow.indexOrder) := by
    rw [List.pairwise_reverse]
    refine ((pairwise_matchedRows opts kentries all).and (indexOrder_ne hperm)).imp ?_
    rintro a b ⟨hab, hne⟩
    simp only [listedBefore, TurnsTies, ← UInt64.lt_iff_toNat_lt, UInt64.toNat_inj] at hab ⊢
    grind
  have hiff := take_eq_take_iff ((List.reverse_perm _).trans (hperm.trans hsort.symm)) hkeeps
    hturns (opts.nshow (keptRows opts kentries all).length)
  rw [displayedRows, promisedRows, h, hperm.length_eq]
  refine hiff.trans ?_
  simp only [TiesOutOfReach, hsort.mem_iff, hsort.countP_eq, ← UInt64.lt_iff_toNat_lt,
    UInt64.toNat_inj]

end Listing

/-! ### The command -/

section Command

variable (env : LsEnv) (opts : LsOpts) (ws : Workspace) (files : RidmapFiles)

/-- The state the command leaves, whatever it returns. -/
def lsFinal : LsState :=
  match tpbcliTaskLs env opts (.start ws files) with
  | .ok _ s => s
  | .error _ s => s

/-- The command succeeds. -/
def LsSucceeds : Prop := ∃ s, tpbcliTaskLs env opts (.start ws files) = .ok () s

/-- The command has a meaning: it reads no record that has none. -/
def LsDefined : Prop := ∀ s, tpbcliTaskLs env opts (.start ws files) ≠ .error .undefined s

/-- What the listing promises. Once the table is read, the promised rows are shown. When the
command succeeds and shows rows, the RIDMAP is read back as their IDs in the order of the
display; when it shows none or fails, the RIDMAP is as it was. -/
structure LsRight : Prop where
  shows : ∀ path all, tpbcliTaskRidmapPath env.workspace = .ok path →
    tpbRafEntryListTask ws = .ok all ws →
    (lsFinal env opts ws files).shown =
      promisedRows opts (keptRows opts (kernelTable ws) all)
  maps : LsSucceeds env opts ws files → (lsFinal env opts ws files).shown ≠ [] →
    tpbcliTaskRidmapRead env.workspace (lsFinal env opts ws files).files =
      .ok ((lsFinal env opts ws files).shown.map (·.entry.taskRecordId))
  keeps : (lsFinal env opts ws files).shown = [] ∨ ¬ LsSucceeds env opts ws files →
    (lsFinal env opts ws files).files.ridmap = files.ridmap

/-- When the listing keeps its promise: it starts from the oldest row, or no rows of the same
start time are within its reach; and at most 2³⁰ rows are shown, unless the RIDMAP cannot be
written anyway. -/
def LsOrderly : Prop :=
  ∀ path all, tpbcliTaskRidmapPath env.workspace = .ok path →
    tpbRafEntryListTask ws = .ok all ws →
    (opts.fromOldest = true ∨ TiesOutOfReach opts (keptRows opts (kernelTable ws) all)) ∧
      (opts.nshow (keptRows opts (kernelTable ws) all).length ≤ 2 ^ 30 ∨
        ¬ env.sys.Answers env.workspace
          (opts.nshow (keptRows opts (kernelTable ws) all).length))

variable {env opts ws files}

/-- The end of the command, when no rows are shown. -/
theorem finishLs_nil (env : LsEnv) (s : LsState) :
    ∃ s', finishLs env [] s = .ok () s' ∧ Shows s s' [] :=
  printOut_ok (.text (ascii "RIDMAP not updated (zero shown results).\n".toList)) s

/-- The end of the command, when rows are shown: it succeeds exactly when the RIDMAP is
written. -/
theorem finishLs_cons (env : LsEnv) {ids : List Id20} (hids : ids ≠ []) (s : LsState) :
    (∃ s', finishLs env ids s = .ok () s' ∧ s'.shown = s.shown ∧
      env.sys.Answers env.workspace ids.length ∧ s'.files.ridmap = some (ridmapText ids)) ∨
    ∃ e s', finishLs env ids s = .error e s' ∧ s'.shown = s.shown ∧
      ¬ env.sys.Answers env.workspace ids.length ∧ s'.files.ridmap = s.files.ridmap := by
  rw [finishLs, if_pos (List.length_pos_iff.mpr hids)]
  rcases hwrite : tpbcliTaskRidmapWriteAtomic env.sys env.workspace ids s.files with
    ⟨u, files'⟩ | ⟨e, files'⟩
  · have hmap : onRidmap (tpbcliTaskRidmapWriteAtomic env.sys env.workspace ids) s =
        .ok () { s with files := files' } := by
      simp only [onRidmap, hwrite]
    obtain ⟨s', hprint, hshow⟩ := printOut_ok (.text _) { s with files := files' }
    refine .inl ⟨s', bind_then hmap hprint, ?_, (ridmapWrite_ok_iff hids).mp ⟨files', hwrite⟩, ?_⟩
    · rw [hshow.shown]
      exact List.append_nil _
    · rw [hshow.files]
      exact ridmapWrite_eq_ok hids hwrite
  · have hmap : onRidmap (tpbcliTaskRidmapWriteAtomic env.sys env.workspace ids) s =
        .error e { s with files := files' } := by
      simp only [onRidmap, hwrite]
    refine .inr ⟨e, _, bind_error hmap, rfl, ?_, ridmapWrite_eq_error hwrite⟩
    intro hans
    have hok : ∃ s', tpbcliTaskRidmapWriteAtomic env.sys env.workspace ids s.files = .ok () s' :=
      (ridmapWrite_ok_iff hids).mpr hans
    simp [hwrite] at hok

theorem lsFinal_of_ok {s : LsState} (h : tpbcliTaskLs env opts (.start ws files) = .ok () s) :
    lsFinal env opts ws files = s ∧ LsSucceeds env opts ws files :=
  ⟨by rw [lsFinal, h], s, h⟩

theorem lsFinal_of_error {e : Err} {s : LsState}
    (h : tpbcliTaskLs env opts (.start ws files) = .error e s) :
    lsFinal env opts ws files = s ∧ ¬ LsSucceeds env opts ws files := by
  refine ⟨by rw [lsFinal, h], ?_⟩
  rintro ⟨s', hok⟩
  rw [h] at hok
  cases hok

/-- What the command does once it has read the table: nothing is shown, or the rows are shown
and the RIDMAP is replaced or not. -/
theorem lsFinal_listed (hdef : LsDefined env opts ws files) {path : Bytes}
    {all : List TaskEntry} (hpath : tpbcliTaskRidmapPath env.workspace = .ok path)
    (hlist : tpbRafEntryListTask ws = .ok all ws) {rows : List TaskRow}
    (hrows : rows = displayedRows opts (matchedRows opts (kernelTable ws) all)) :
    (lsFinal env opts ws files).shown = rows ∧
    ((rows = [] ∧ LsSucceeds env opts ws files ∧
        (lsFinal env opts ws files).files.ridmap = files.ridmap) ∨
      (rows ≠ [] ∧ LsSucceeds env opts ws files ∧ env.sys.Answers env.workspace rows.length ∧
        (lsFinal env opts ws files).files.ridmap =
          some (ridmapText (rows.map (·.entry.taskRecordId)))) ∨
      (rows ≠ [] ∧ ¬ LsSucceeds env opts ws files ∧
        ¬ env.sys.Answers env.workspace rows.length ∧
        (lsFinal env opts ws files).files.ridmap = files.ridmap)) := by
  rcases tpbcliTaskLs_listed hpath hlist with ⟨⟨s', hundef⟩, -⟩ | ⟨s₁, hshow, hrun⟩
  · exact absurd hundef (hdef s')
  · rw [← hrows] at hshow hrun
    by_cases hnil : rows = []
    · subst hnil
      obtain ⟨s', hfinish, hshow'⟩ := finishLs_nil env s₁
      obtain ⟨hfinal, hok⟩ := lsFinal_of_ok (hrun.trans hfinish)
      rw [hfinal]
      exact ⟨(hshow.trans hshow').shown, .inl ⟨rfl, hok, by rw [hshow'.files, hshow.files]; rfl⟩⟩
    · have hids : rows.map (·.entry.taskRecordId) ≠ [] := by simpa using hnil
      have hshown : s₁.shown = rows := hshow.shown
      rcases finishLs_cons env hids s₁ with
        ⟨s', hfinish, hkeep, hans, hmap⟩ | ⟨e, s', hfinish, hkeep, hans, hmap⟩
      · obtain ⟨hfinal, hok⟩ := lsFinal_of_ok (hrun.trans hfinish)
        rw [List.length_map] at hans
        rw [hfinal, hkeep, hshown]
        exact ⟨rfl, .inr (.inl ⟨hnil, hok, hans, hmap⟩)⟩
      · obtain ⟨hfinal, hfail⟩ := lsFinal_of_error (hrun.trans hfinish)
        rw [List.length_map] at hans
        rw [hfinal, hkeep, hshown]
        exact ⟨rfl, .inr (.inr ⟨hnil, hfail, hans, by rw [hmap, hshow.files]; rfl⟩)⟩

/-- As many rows are displayed as were asked for. -/
theorem length_displayedRows (opts : LsOpts) (all : List TaskEntry)
    (kentries : List KernelEntry) :
    (displayedRows opts (matchedRows opts kentries all)).length =
      opts.nshow (keptRows opts kentries all).length := by
  have hlen := (matchedRows_perm opts kentries all).length_eq
  have hle : opts.nshow (matchedRows opts kentries all).length ≤
      (matchedRows opts kentries all).length := by
    rw [LsOpts.nshow]
    split
    · exact le_rfl
    · exact min_le_left _ _
  rw [displayedRows, List.length_take, ← hlen]
  split
  · exact min_eq_left hle
  · rw [List.length_reverse]
    exact min_eq_left hle

/-- The listing is as promised exactly when the rows are in the right order. -/
theorem displayedRows_iff (opts : LsOpts) (all : List TaskEntry)
    (kentries : List KernelEntry) :
    displayedRows opts (matchedRows opts kentries all) =
        promisedRows opts (keptRows opts kentries all) ↔
      opts.fromOldest = true ∨ TiesOutOfReach opts (keptRows opts kentries all) := by
  cases h : opts.fromOldest with
  | true => simp [displayedRows_oldest opts kentries all h]
  | false => simp [displayedRows_newest opts kentries all h]

/-- **The listing of `task ls`**: the rows are shown in the promised order, and the RIDMAP
afterwards maps the number of a row to its task, exactly when the listing starts from the
oldest row or no rows of the same start time are within its reach, and the number of rows can
be read back. -/
theorem task_ls_listed (hdef : LsDefined env opts ws files) :
    LsRight env opts ws files ↔ LsOrderly env opts ws := by
  constructor
  · intro h path all hpath hlist
    obtain ⟨hshown, hcases⟩ := lsFinal_listed hdef hpath hlist rfl
    have hlen := length_displayedRows opts all (kernelTable ws)
    refine ⟨?_, ?_⟩
    · rw [← displayedRows_iff, ← hshown]
      exact h.shows path all hpath hlist
    · by_contra hbig
      rw [not_or, not_not, ← hlen] at hbig
      obtain ⟨hbig, hans⟩ := hbig
      rcases hcases with ⟨hnil, -, -⟩ | ⟨hne, hok, -, hmap⟩ | ⟨-, -, hno, -⟩
      · rw [hnil] at hbig
        simp at hbig
      · have hread := h.maps hok (by rwa [hshown])
        rw [hshown] at hread
        have := (ridmapRead_ridmapText hpath hmap).mp hread
        rw [List.length_map] at this
        exact hbig this
      · exact hno hans
  · intro h
    by_cases hlisted : (∃ path, tpbcliTaskRidmapPath env.workspace = .ok path) ∧
        ∃ all, tpbRafEntryListTask ws = .ok all ws
    · obtain ⟨⟨path, hpath⟩, all, hlist⟩ := hlisted
      obtain ⟨hties, hfit⟩ := h path all hpath hlist
      obtain ⟨hshown, hcases⟩ := lsFinal_listed hdef hpath hlist rfl
      have hlen := length_displayedRows opts all (kernelTable ws)
      refine ⟨?_, ?_, ?_⟩
      · intro path' all' hpath' hlist'
        rw [hlist] at hlist'
        cases hlist'
        rw [hshown]
        exact (displayedRows_iff opts all (kernelTable ws)).mpr hties
      · intro hok hne
        rcases hcases with ⟨hnil, -, -⟩ | ⟨-, -, hans, hmap⟩ | ⟨-, hfail, -, -⟩
        · exact absurd (hshown.trans hnil) hne
        · rw [hshown]
          refine (ridmapRead_ridmapText hpath hmap).mpr ?_
          rw [List.length_map, hlen]
          rw [hlen] at hans
          exact hfit.resolve_right (not_not.mpr hans)
        · exact absurd hok hfail
      · intro hquiet
        rcases hcases with ⟨-, -, hmap⟩ | ⟨hne, hok, -, -⟩ | ⟨-, -, -, hmap⟩
        · exact hmap
        · rw [hshown] at hquiet
          rcases hquiet with hnil | hfail
          · exact absurd hnil hne
          · exact absurd hok hfail
        · exact hmap
    · have hrefused : (∃ e, tpbcliTaskRidmapPath env.workspace = .error e) ∨
          ∃ e ws', tpbRafEntryListTask ws = .error e ws' := by
        by_contra hno
        rw [not_or] at hno
        refine hlisted ⟨?_, ?_⟩
        · cases hpath : tpbcliTaskRidmapPath env.workspace with
          | ok path => exact ⟨path, rfl⟩
          | error e => exact absurd ⟨e, hpath⟩ hno.1
        · rcases hlist : tpbRafEntryListTask ws with ⟨all, ws'⟩ | ⟨e, ws'⟩
          · obtain ⟨rfl, -⟩ := entryListRows_bound hlist
            exact ⟨all, rfl⟩
          · exact absurd ⟨e, ws', hlist⟩ hno.2
      obtain ⟨e, s', hrun, hshown, hfiles⟩ := tpbcliTaskLs_refused opts files hrefused
      obtain ⟨hfinal, hfail⟩ := lsFinal_of_error hrun
      refine ⟨?_, ?_, ?_⟩
      · intro path all hpath hlist
        exact absurd ⟨⟨path, hpath⟩, all, hlist⟩ hlisted
      · intro hok
        exact absurd hok hfail
      · intro _
        rw [hfinal, hfiles]

/-- A command has a meaning when no row that matches looks like a capsule, the kernel table
can be read, and the RIDMAP can be written. -/
theorem lsDefined_of_plain {path : Bytes} {all : List TaskEntry} {kentries : List KernelEntry}
    (hpath : tpbcliTaskRidmapPath env.workspace = .ok path)
    (hlist : tpbRafEntryListTask ws = .ok all ws)
    (hkernel : tpbRafEntryListKernel ws = .ok kentries ws)
    (hplain : ∀ r ∈ matchedRows opts (kernelTable ws) all,
      sfIsAllFf r.entry.inheritFrom = false)
    (hans : ∀ n, env.sys.Answers env.workspace n) : LsDefined env opts ws files := by
  intro s hundef
  rcases tpbcliTaskLs_listed hpath hlist with ⟨-, ⟨r, hr, hcapsule⟩ | ⟨ws', hno⟩⟩ | ⟨s₁, -, hrun⟩
  · rw [hplain r hr] at hcapsule
    cases hcapsule
  · rw [hkernel] at hno
    cases hno
  · rw [hrun] at hundef
    by_cases hnil : (displayedRows opts (matchedRows opts (kernelTable ws) all)).map
        (·.entry.taskRecordId) = []
    · rw [hnil] at hundef
      obtain ⟨s', hfinish, -⟩ := finishLs_nil env s₁
      rw [hfinish] at hundef
      cases hundef
    · rcases finishLs_cons env hnil s₁ with ⟨s', hfinish, -⟩ | ⟨e, s', -, -, hno, -⟩
      · rw [hfinish] at hundef
        cases hundef
      · exact hno (hans _)

/-- A system that answers every call, in a workspace with a short path. -/
def obligingEnv : LsEnv where
  workspace := []
  sys := ⟨1, true, true, true, fun _ => true, true, true, true, true, true⟩
  localTime _ := none
  seconds _ := []

theorem obligingEnv_answers (n : ℕ) : obligingEnv.sys.Answers obligingEnv.workspace n :=
  ⟨rfl, rfl, rfl, fun _ _ => rfl, rfl, rfl, rfl, rfl, by decide⟩

/-- An entry point that started at `utcBits`. -/
def entryAt (taskRecordId : Id20) (utcBits : UInt64) : TaskEntry :=
  ⟨taskRecordId, zeroArr 20, zeroArr 20, zeroArr 20, utcBits, 0, 0, 0, zeroArr 20, zeroArr 108⟩

/-- The entry points of two tasks that started at the given times. -/
def twoEntries (t₁ t₂ : UInt64) : List TaskEntry :=
  [entryAt (List.Vector.replicate 20 1) t₁, entryAt (List.Vector.replicate 20 2) t₂]

/-- A workspace with the two entry points. -/
def twoEntriesWorkspace (t₁ t₂ : UInt64) : Workspace :=
  Workspace.empty.set (.entry .task) (taskRow.table (twoEntries t₁ t₂))

/-- `task ls -n 0`. -/
def newestFirst : LsOpts := ⟨0, false, []⟩

theorem twoEntriesWorkspace_task (t₁ t₂ : UInt64) :
    tpbRafEntryListTask (twoEntriesWorkspace t₁ t₂) =
      .ok (twoEntries t₁ t₂) (twoEntriesWorkspace t₁ t₂) :=
  entryListRows_ok (.inl (Workspace.set_files_same _ _ _)) (by simp [twoEntries, intMax])

theorem twoEntriesWorkspace_kernel (t₁ t₂ : UInt64) :
    tpbRafEntryListKernel (twoEntriesWorkspace t₁ t₂) =
      .ok [] (twoEntriesWorkspace t₁ t₂) := by
  refine entryListRows_ok (.inr ⟨?_, rfl⟩) (Nat.zero_le _)
  exact Workspace.set_files_of_ne _ _ (by decide)

theorem twoEntries_kept (t₁ t₂ : UInt64) (kentries : List KernelEntry) :
    keptRows newestFirst kentries (twoEntries t₁ t₂) =
      [⟨entryAt (List.Vector.replicate 20 1) t₁, 0⟩,
        ⟨entryAt (List.Vector.replicate 20 2) t₂, 1⟩] := rfl

theorem twoEntries_defined (t₁ t₂ : UInt64) :
    LsDefined obligingEnv newestFirst (twoEntriesWorkspace t₁ t₂) ⟨none, none⟩ := by
  refine lsDefined_of_plain rfl (twoEntriesWorkspace_task t₁ t₂)
    (twoEntriesWorkspace_kernel t₁ t₂) ?_ obligingEnv_answers
  intro r hr
  have hmem := (matchedRows_perm newestFirst _ _).mem_iff.mp hr
  rw [twoEntries_kept] at hmem
  simp only [List.mem_cons, List.not_mem_nil, or_false] at hmem
  rcases hmem with rfl | rfl
  · rfl
  · rfl

/-- Two tasks that started at different times are listed as promised. -/
theorem task_ls_two_times :
    LsRight obligingEnv newestFirst (twoEntriesWorkspace 5 7) ⟨none, none⟩ := by
  refine (task_ls_listed (twoEntries_defined 5 7)).mpr ?_
  intro path all _ hlist
  rw [twoEntriesWorkspace_task] at hlist
  cases hlist
  rw [twoEntries_kept]
  refine ⟨.inr ?_, .inl (by decide)⟩
  intro a ha b hb hab hkey
  simp only [List.mem_cons, List.not_mem_nil, or_false] at ha hb
  rcases ha with rfl | rfl
  · rcases hb with rfl | rfl
    · exact absurd rfl hab
    · exact absurd hkey (by decide)
  · rcases hb with rfl | rfl
    · exact absurd hkey (by decide)
    · exact absurd rfl hab

/-- Two tasks that started at the same time are listed in the wrong order. -/
theorem task_ls_one_time :
    LsDefined obligingEnv newestFirst (twoEntriesWorkspace 5 5) ⟨none, none⟩ ∧
      ¬ LsRight obligingEnv newestFirst (twoEntriesWorkspace 5 5) ⟨none, none⟩ := by
  refine ⟨twoEntries_defined 5 5, fun h => ?_⟩
  have hlist := twoEntriesWorkspace_task 5 5
  obtain ⟨hshown, -⟩ := lsFinal_listed (twoEntries_defined 5 5) rfl hlist rfl
  have hpromise := hshown.symm.trans (h.shows _ _ rfl hlist)
  rw [displayedRows_iff] at hpromise
  have hties := hpromise.resolve_left (by decide)
  rw [twoEntries_kept] at hties
  have hreach := hties ⟨entryAt (List.Vector.replicate 20 1) 5, 0⟩ (by simp)
    ⟨entryAt (List.Vector.replicate 20 2) 5, 1⟩ (by simp) (by decide) rfl
  exact absurd hreach (by decide)

end Command

end TPBench
