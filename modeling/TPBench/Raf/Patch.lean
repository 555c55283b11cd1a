import TPBench.Raf.Domains

/-!
# In-Place Patches

Seven functions of the store change single fields of files that already exist. Each of
them seeks to a hard-coded offset and overwrites a few bytes, independently of the
encoders, so each offset has to be checked against the layout the encoders produce.

The checks have one shape. A patch of a record is located in the attribute section by
`Record.pwrite_attr`, a patch of a table row by `RowFormat.pwrite_table`; what remains is
that overwriting the block at the offset inside the encoded attributes (or row) gives the
encoding of the attributes (or row) with the field replaced.

The rows are found in two ways. The kernel and task patches list the table and search the
listing (`findIdx?_of_take`: what they find in a listing is the first match of the table),
the runtime environment patches read row after row from the file (`scanRtenv`).
-/

open CFile

namespace TPBench

/-! ### Rows found in a listing -/

section Rows

variable {ρ : Type}

/-- The rows with the first one that satisfies `p` replaced. -/
def modifyFirst (p : ρ → Bool) (f : ρ → ρ) (rows : List ρ) : List ρ :=
  rows.modify (rows.findIdx p) f

/-- The first match in the first rows is the first match. -/
theorem findIdx?_of_take {p : ρ → Bool} {rows : List ρ} {k i : ℕ}
    (h : (rows.take k).findIdx? p = some i) : rows.findIdx? p = some i := by
  rw [← List.take_append_drop k rows, List.findIdx?_append, h]
  rfl

/-- A row of which something holds is still there when the replacement keeps it. -/
theorem exists_row_modifyFirst {P : ρ → Prop} {q : ρ → Bool} {f : ρ → ρ}
    (hf : ∀ r, P r → P (f r)) {rows : List ρ} (h : ∃ r ∈ rows, P r) :
    ∃ r ∈ modifyFirst q f rows, P r := by
  obtain ⟨r, hr, hP⟩ := h
  obtain ⟨k, hk⟩ := List.mem_iff_getElem?.mp hr
  by_cases hfirst : rows.findIdx q = k
  · refine ⟨f r, List.mem_iff_getElem?.mpr ⟨k, ?_⟩, hf r hP⟩
    rw [modifyFirst, List.getElem?_modify, hk, hfirst]
    simp
  · refine ⟨r, List.mem_iff_getElem?.mpr ⟨k, ?_⟩, hP⟩
    rw [modifyFirst, List.getElem?_modify, hk]
    simp [hfirst]

/-- A match at index `i` is a row that satisfies the predicate, at the index `findIdx`
reports. -/
theorem exists_row_of_findIdx? {p : ρ → Bool} {rows : List ρ} {i : ℕ}
    (h : rows.findIdx? p = some i) :
    rows.findIdx p = i ∧ ∃ r, rows[i]? = some r ∧ r ∈ rows ∧ p r = true := by
  obtain ⟨hi, hp, -⟩ := List.findIdx?_eq_some_iff_getElem.mp h
  obtain ⟨-, hidx⟩ := List.findIdx?_eq_some_iff_findIdx_eq.mp h
  exact ⟨hidx, rows[i], List.getElem?_eq_getElem hi, List.getElem_mem hi, hp⟩

end Rows

/-! ### Task batch counters -/

/-- `tpb_raf_record_patch_tbatch_counters`. -/
def tpbRafRecordPatchTbatchCounters (tbatchId : Id20) (duration : UInt64)
    (nkernel ntask : UInt32) : WsM Unit :=
  fopenUpdate .rafL2Tbatch (.record .tbatch tbatchId) do
    let magic ← fread 8
    check (tpbRafValidateMagic magic .record .tbatch .posStart)
    fseek 100
    fwrite (u64 duration)
    fseek 240
    fwrite (u32 nkernel)
    fwrite (u32 ntask)

/-- The attributes with the counters of the patch. -/
def TbatchAttr.withCounters (a : TbatchAttr) (duration : UInt64) (nkernel ntask : UInt32) :
    TbatchAttr :=
  { a with duration, nkernel, ntask }

theorem TbatchAttr.pwrite_duration (a : TbatchAttr) (duration : UInt64) :
    pwrite a.encode 76 (u64 duration) = TbatchAttr.encode { a with duration } := by
  simp (disch := simp) only [TbatchAttr.encode, List.flatten_cons, pwrite_append_right,
    pwrite_append_self, List.Vector.toList_length, length_u64, Nat.reduceSub]

theorem TbatchAttr.pwrite_nkernel (a : TbatchAttr) (nkernel : UInt32) :
    pwrite a.encode 216 (u32 nkernel) = TbatchAttr.encode { a with nkernel } := by
  simp (disch := simp) only [TbatchAttr.encode, List.flatten_cons, pwrite_append_right,
    pwrite_append_self, List.Vector.toList_length, length_u64, length_u32, Nat.reduceSub]

theorem TbatchAttr.pwrite_ntask (a : TbatchAttr) (ntask : UInt32) :
    pwrite a.encode 220 (u32 ntask) = TbatchAttr.encode { a with ntask } := by
  simp (disch := simp) only [TbatchAttr.encode, List.flatten_cons, pwrite_append_right,
    pwrite_append_self, List.Vector.toList_length, length_u64, length_u32, Nat.reduceSub]

/-- The offsets 100, 240 and 244 of a task batch record hold the three counters. -/
theorem pwrite_tbatch_counters (r : Record tbatchFormat) (duration : UInt64)
    (nkernel ntask : UInt32) :
    pwrite (pwrite (pwrite r.bytes 100 (u64 duration)) 240 (u32 nkernel)) 244 (u32 ntask) =
      (r.withAttr (r.attr.withCounters duration nkernel ntask) rfl).bytes := by
  have hlen : ∀ a : TbatchAttr, (tbatchFormat.encode a).length = 364 :=
    TbatchAttr.length_encode
  have hdur : pwrite r.bytes (24 + 76) (u64 duration) =
      (r.withAttr { r.attr with duration } rfl).bytes := by
    refine r.pwrite_attr 76 { r.attr with duration } rfl rfl ?_ (r.attr.pwrite_duration _)
    rw [hlen, length_u64]
    decide
  set r₁ := r.withAttr { r.attr with duration } rfl
  have hker : pwrite r₁.bytes (24 + 216) (u32 nkernel) =
      (r₁.withAttr { r₁.attr with nkernel } rfl).bytes := by
    refine r₁.pwrite_attr 216 { r₁.attr with nkernel } rfl rfl ?_ (r₁.attr.pwrite_nkernel _)
    rw [hlen, length_u32]
    decide
  set r₂ := r₁.withAttr { r₁.attr with nkernel } rfl
  have htask : pwrite r₂.bytes (24 + 220) (u32 ntask) =
      (r₂.withAttr { r₂.attr with ntask } rfl).bytes := by
    refine r₂.pwrite_attr 220 { r₂.attr with ntask } rfl rfl ?_ (r₂.attr.pwrite_ntask _)
    rw [hlen, length_u32]
    decide
  rw [hdur, hker, htask]
  rfl

/-- The patch replaces the three counters of the record. -/
theorem tpbRafRecordPatchTbatchCounters_run {ws : Workspace} {id : Id20}
    {r : Record tbatchFormat} (h : ws.files (.record .tbatch id) = some r.bytes)
    (duration : UInt64) (nkernel ntask : UInt32) :
    tpbRafRecordPatchTbatchCounters id duration nkernel ntask ws =
      .ok () (ws.set (.record .tbatch id)
        (r.withAttr (r.attr.withCounters duration nkernel ntask) rfl).bytes) := by
  rw [← pwrite_tbatch_counters]
  refine fopenUpdate_ok h (s := ⟨_, 248⟩) ?_
  refine bind_then (fread_run r.pread_magic rfl) ?_
  refine bind_then (check_run (tpbRafValidateMagic_self _ _ _) _) ?_
  refine bind_then (fseek_run rfl) ?_
  refine bind_then (fwrite_run _ _ _) ?_
  refine bind_then (fseek_run rfl) ?_
  exact bind_then (fwrite_run _ _ _) rfl

/-! ### The active flag and the build time of a kernel -/

/-- `tpb_raf_record_patch_kernel_active`. Nothing of the file is checked. -/
def tpbRafRecordPatchKernelActive (kernelId : Id20) (active : UInt32) : WsM Unit :=
  fopenUpdate .rafL3Kernel (.record .kernel kernelId) do
    fseek (8 + 8 + 8 + 60 + 256 + 64 + 2048 + 4 + 4 + 4 + 4)
    fwrite (u32 active)

/-- The common body of `tpb_raf_entry_patch_kernel_active` and
`tpb_raf_entry_patch_kernel_utc`: overwrite the field at `fieldOff` of the first listed
row with the ID. -/
def patchKernelEntry (kernelId : Id20) (fieldOff : ℕ) (field : Bytes) : WsM Unit := do
  let entries ← orFail .rafL3Kernel .fileIoFail tpbRafEntryListKernel
  match entries.findIdx? (·.kernelId = kernelId) with
  | none => tpbFail .rafL3Kernel .listNotFound
  | some off =>
      fopenUpdate .rafL3Kernel (.entry .kernel) do
        let fsize ← fstatSize
        check (16 ≤ fsize)
        fseek (8 + off * 264 + fieldOff : ℕ)
        fwrite field

/-- `tpb_raf_entry_patch_kernel_active`. -/
def tpbRafEntryPatchKernelActive (kernelId : Id20) (active : UInt32) : WsM Unit :=
  patchKernelEntry kernelId 116 (u32 active)

/-- `tpb_raf_entry_patch_kernel_utc`. -/
def tpbRafEntryPatchKernelUtc (kernelId : Id20) (utcBits : UInt64) : WsM Unit :=
  patchKernelEntry kernelId 120 (u64 utcBits)

theorem KernelAttr.pwrite_active (a : KernelAttr) (active : UInt32) :
    pwrite a.encode 2444 (u32 active) = KernelAttr.encode { a with active } := by
  simp (disch := simp) only [KernelAttr.encode, List.flatten_cons, pwrite_append_right,
    pwrite_append_self, List.Vector.toList_length, length_u32, Nat.reduceSub]

/-- The patch replaces the active flag of the record. -/
theorem tpbRafRecordPatchKernelActive_run {ws : Workspace} {id : Id20}
    {r : Record kernelFormat} (h : ws.files (.record .kernel id) = some r.bytes)
    (active : UInt32) :
    tpbRafRecordPatchKernelActive id active ws =
      .ok () (ws.set (.record .kernel id)
        (r.withAttr { r.attr with active } rfl).bytes) := by
  have hlen : (kernelFormat.encode r.attr).length = 2636 := r.attr.length_encode
  have hpatch : pwrite r.bytes (24 + 2444) (u32 active) =
      (r.withAttr { r.attr with active } rfl).bytes := by
    refine r.pwrite_attr 2444 { r.attr with active } rfl rfl ?_ (r.attr.pwrite_active _)
    rw [hlen, length_u32]
    decide
  rw [← hpatch]
  refine fopenUpdate_ok h (s := ⟨_, 2472⟩) ?_
  exact bind_then (fseek_run rfl) rfl

theorem KernelEntry.pwrite_active (e : KernelEntry) (active : UInt32) :
    pwrite e.encode.toList 116 (u32 active) =
      (KernelEntry.encode { e with active }).toList := by
  simp (disch := simp) only [KernelEntry.toList_encode, List.flatten_cons,
    pwrite_append_right, pwrite_append_self, List.Vector.toList_length, length_u32,
    Nat.reduceSub]

theorem KernelEntry.pwrite_utcBits (e : KernelEntry) (utcBits : UInt64) :
    pwrite e.encode.toList 120 (u64 utcBits) =
      (KernelEntry.encode { e with utcBits }).toList := by
  simp (disch := simp) only [KernelEntry.toList_encode, List.flatten_cons,
    pwrite_append_right, pwrite_append_self, List.Vector.toList_length, length_u32,
    Nat.reduceSub]

section KernelEntry

variable {ws ws' : Workspace} {rows : List KernelEntry} {id : Id20} {off : ℕ} {bs : Bytes}
  {f : KernelEntry → KernelEntry}

/-- A patch that finds row `i` in the listing replaces the field of that row. -/
theorem patchKernelEntry_run (h : ws.files (.entry .kernel) = some (kernelRow.table rows))
    (hlen : off + bs.length ≤ 264)
    (hf : ∀ e, pwrite (kernelRow.encode e).toList off bs = (kernelRow.encode (f e)).toList)
    {es : List KernelEntry} {i : ℕ} (hlist : tpbRafEntryListKernel ws = .ok es ws)
    (hes : es.findIdx? (·.kernelId = id) = some i)
    (hrows : rows.findIdx? (·.kernelId = id) = some i) :
    patchKernelEntry id off bs ws = .ok () (ws.set (.entry .kernel)
      (kernelRow.table (modifyFirst (·.kernelId = id) f rows))) := by
  obtain ⟨hidx, e, he, -, -⟩ := exists_row_of_findIdx? hrows
  have hsize : 16 ≤ (kernelRow.table rows).length := by
    rw [RowFormat.table, length_tableBytes]
    omega
  have hpatch : pwrite (kernelRow.table rows) (8 + i * 264 + off) bs =
      kernelRow.table (modifyFirst (·.kernelId = id) f rows) := by
    rw [modifyFirst, hidx]
    exact kernelRow.pwrite_table he hlen (hf e)
  refine bind_then (orFail_eq_ok.mpr hlist) ?_
  simp only [hes]
  rw [← hpatch]
  refine fopenUpdate_ok h (s := ⟨_, 8 + i * 264 + off + bs.length⟩) ?_
  refine bind_then (fstatSize_run _ _) ?_
  refine bind_then (check_run hsize _) ?_
  exact bind_then (fseek_run rfl) rfl

/-- A successful patch found a row with the ID, and replaced the field of the first one. -/
theorem patchKernelEntry_eq_ok (h : ws.files (.entry .kernel) = some (kernelRow.table rows))
    (hlen : off + bs.length ≤ 264)
    (hf : ∀ e, pwrite (kernelRow.encode e).toList off bs = (kernelRow.encode (f e)).toList)
    (hok : patchKernelEntry id off bs ws = .ok () ws') :
    (∃ e ∈ rows, e.kernelId = id) ∧
      ws' = ws.set (.entry .kernel)
        (kernelRow.table (modifyFirst (·.kernelId = id) f rows)) := by
  obtain ⟨es, ws₁, hlist, hpatch⟩ := bind_eq_ok.mp hok
  rw [orFail_eq_ok] at hlist
  obtain ⟨rfl, rfl⟩ := entryListRows_take (.inl h) hlist
  cases hi : (rows.take (intOfLong rows.length).toNat).findIdx? (·.kernelId = id) with
  | none =>
      simp only [hi] at hpatch
      cases hpatch
  | some i =>
      have hrows := findIdx?_of_take hi
      obtain ⟨-, e, -, hmem, heq⟩ := exists_row_of_findIdx? hrows
      rw [patchKernelEntry_run h hlen hf hlist hi hrows] at hok
      injection hok with _ hws
      exact ⟨⟨e, hmem, by simpa using heq⟩, hws.symm⟩

/-- The patch of a listable table that has a row with the ID succeeds. -/
theorem patchKernelEntry_ok (h : ws.files (.entry .kernel) = some (kernelRow.table rows))
    (hlen : off + bs.length ≤ 264)
    (hf : ∀ e, pwrite (kernelRow.encode e).toList off bs = (kernelRow.encode (f e)).toList)
    (hcount : rows.length ≤ intMax) (hex : ∃ e ∈ rows, e.kernelId = id) :
    patchKernelEntry id off bs ws = .ok () (ws.set (.entry .kernel)
      (kernelRow.table (modifyFirst (·.kernelId = id) f rows))) := by
  obtain ⟨i, hi⟩ : ∃ i, rows.findIdx? (·.kernelId = id) = some i := by
    apply Option.isSome_iff_exists.mp
    simpa using hex
  exact patchKernelEntry_run h hlen hf (entryListRows_ok (.inl h) hcount) hi hi

end KernelEntry

/-! ### The derivation target of a task -/

/-- The first half of `tpb_k_task_set_derive_to`, on the open record. -/
def patchTaskDeriveTo (taskId deriveToId : Id20) : FileM Unit := do
  let magic ← fread 8
  check (tpbRafValidateMagic magic .record .task .posStart)
  fseek 24
  let idchk ← fread 20
  check (idchk = taskId.toList)
  fseek 44
  fwrite deriveToId.toList

/-- `tpb_k_task_set_derive_to`: patch the record, then the first listed row. -/
def tpbKTaskSetDeriveTo (taskId deriveToId : Id20) : WsM Unit := do
  fopenUpdate .rafMisc (.record .task taskId) (patchTaskDeriveTo taskId deriveToId)
  let entries ← propagate .rafMisc tpbRafEntryListTask
  match entries.findIdx? (·.taskRecordId = taskId) with
  | none => tpbFail .rafMisc .fileIoFail
  | some row =>
      fopenUpdate .rafMisc (.entry .task) do
        fseek (8 + row * 232 + 104 : ℕ)
        fwrite deriveToId.toList

theorem TaskAttr.pwrite_deriveTo (a : TaskAttr) (deriveTo : Id20) :
    pwrite a.encode 20 deriveTo.toList = TaskAttr.encode { a with deriveTo } := by
  simp (disch := simp) only [TaskAttr.encode, List.flatten_cons, pwrite_append_right,
    pwrite_append_self, List.Vector.toList_length, Nat.reduceSub]

theorem TaskAttr.pread_taskRecordId (a : TaskAttr) :
    pread a.encode 0 20 = a.taskRecordId.toList := by
  simp only [TaskAttr.encode, List.flatten_cons]
  exact pread_append_self (List.Vector.toList_length _)

theorem TaskEntry.pwrite_deriveTo (e : TaskEntry) (deriveTo : Id20) :
    pwrite e.encode.toList 104 deriveTo.toList =
      (TaskEntry.encode { e with deriveTo }).toList := by
  simp (disch := simp) only [TaskEntry.toList_encode, List.flatten_cons,
    pwrite_append_right, pwrite_append_self, List.Vector.toList_length, length_u32,
    length_u64, Nat.reduceSub]

section TaskDerive

variable {ws ws' : Workspace} {rows : List TaskEntry} {r : Record taskFormat} {d : Id20}

/-- The first half of the patch replaces the derivation target of the record. -/
theorem patchTaskDeriveTo_run (r : Record taskFormat) (d : Id20) :
    patchTaskDeriveTo r.attr.taskRecordId d ⟨r.bytes, 0⟩ =
      .ok () ⟨(r.withAttr { r.attr with deriveTo := d } rfl).bytes, 64⟩ := by
  have hlen : (taskFormat.encode r.attr).length = 284 := r.attr.length_encode
  have hid : pread r.bytes (24 + 0) 20 = r.attr.taskRecordId.toList := by
    rw [r.pread_attr (by rw [hlen]; decide)]
    exact r.attr.pread_taskRecordId
  have hpatch : pwrite r.bytes (24 + 20) d.toList =
      (r.withAttr { r.attr with deriveTo := d } rfl).bytes := by
    refine r.pwrite_attr 20 { r.attr with deriveTo := d } rfl rfl ?_ (r.attr.pwrite_deriveTo d)
    rw [hlen, d.toList_length]
    decide
  refine bind_then (fread_run r.pread_magic rfl) ?_
  refine bind_then (check_run (tpbRafValidateMagic_self _ _ _) _) ?_
  refine bind_then (fseek_run rfl) ?_
  refine bind_then (fread_run hid (List.Vector.toList_length _)) ?_
  refine bind_then (check_run rfl _) ?_
  refine bind_then (fseek_run rfl) ?_
  rw [← hpatch, fwrite_run, d.toList_length]

/-- Behind the patch of a record, a row that the listing has is derived, too. -/
theorem tpbKTaskSetDeriveTo_of_patch {x : Id20} {f : Bytes} {s : Stream}
    (hf : ws.files (.record .task x) = some f) (hpatch : patchTaskDeriveTo x d ⟨f, 0⟩ = .ok () s)
    (h : ws.files (.entry .task) = some (taskRow.table rows)) {es : List TaskEntry} {i : ℕ}
    (hlist : tpbRafEntryListTask (ws.set (.record .task x) s.content) =
      .ok es (ws.set (.record .task x) s.content))
    (hes : es.findIdx? (·.taskRecordId = x) = some i)
    (hrows : rows.findIdx? (·.taskRecordId = x) = some i) :
    tpbKTaskSetDeriveTo x d ws =
      .ok () ((ws.set (.record .task x) s.content).set (.entry .task)
        (taskRow.table (modifyFirst (·.taskRecordId = x) ({ · with deriveTo := d }) rows))) := by
  obtain ⟨hidx, e, he, -, -⟩ := exists_row_of_findIdx? hrows
  have hrow : pwrite (taskRow.table rows) (8 + i * 232 + 104) d.toList =
      taskRow.table (modifyFirst (·.taskRecordId = x) ({ · with deriveTo := d }) rows) := by
    rw [modifyFirst, hidx]
    refine taskRow.pwrite_table he ?_ (e.pwrite_deriveTo d)
    rw [d.toList_length]
    decide
  refine bind_then (fopenUpdate_ok hf hpatch) ?_
  refine bind_then (propagate_eq_ok.mpr hlist) ?_
  simp only [hes]
  rw [← hrow]
  refine fopenUpdate_ok (f := taskRow.table rows) ?_
    (s := ⟨_, 8 + i * 232 + 104 + d.toList.length⟩) ?_
  · rw [Workspace.set_files_of_ne _ _ (by simp), h]
  · exact bind_then (fseek_run rfl) rfl

/-- A patch that finds a row in the listing replaces the derivation target of the record
and of that row. -/
theorem tpbKTaskSetDeriveTo_run
    (hr : ws.files (.record .task r.attr.taskRecordId) = some r.bytes)
    (h : ws.files (.entry .task) = some (taskRow.table rows)) {es : List TaskEntry} {i : ℕ}
    (hlist : tpbRafEntryListTask (ws.set (.record .task r.attr.taskRecordId)
        (r.withAttr { r.attr with deriveTo := d } rfl).bytes) =
      .ok es (ws.set (.record .task r.attr.taskRecordId)
        (r.withAttr { r.attr with deriveTo := d } rfl).bytes))
    (hes : es.findIdx? (·.taskRecordId = r.attr.taskRecordId) = some i)
    (hrows : rows.findIdx? (·.taskRecordId = r.attr.taskRecordId) = some i) :
    tpbKTaskSetDeriveTo r.attr.taskRecordId d ws =
      .ok () ((ws.set (.record .task r.attr.taskRecordId)
          (r.withAttr { r.attr with deriveTo := d } rfl).bytes).set (.entry .task)
        (taskRow.table (modifyFirst (·.taskRecordId = r.attr.taskRecordId)
          ({ · with deriveTo := d }) rows))) :=
  tpbKTaskSetDeriveTo_of_patch hr (patchTaskDeriveTo_run r d) h hlist hes hrows

/-- A successful patch found a row of the task, and replaced the derivation target of the
record and of the first such row. -/
theorem tpbKTaskSetDeriveTo_eq_ok
    (hr : ws.files (.record .task r.attr.taskRecordId) = some r.bytes)
    (h : ws.files (.entry .task) = some (taskRow.table rows))
    (hok : tpbKTaskSetDeriveTo r.attr.taskRecordId d ws = .ok () ws') :
    (∃ e ∈ rows, e.taskRecordId = r.attr.taskRecordId) ∧
      ws' = (ws.set (.record .task r.attr.taskRecordId)
          (r.withAttr { r.attr with deriveTo := d } rfl).bytes).set (.entry .task)
        (taskRow.table (modifyFirst (·.taskRecordId = r.attr.taskRecordId)
          ({ · with deriveTo := d }) rows)) := by
  obtain ⟨_, ws₁, hrec, hrest⟩ := bind_eq_ok.mp hok
  rw [fopenUpdate_ok hr (patchTaskDeriveTo_run r d)] at hrec
  injection hrec with _ hws₁
  subst hws₁
  obtain ⟨es, ws₂, hlist, hpatch⟩ := bind_eq_ok.mp hrest
  rw [propagate_eq_ok] at hlist
  have htable : (ws.set (.record .task r.attr.taskRecordId)
      (r.withAttr { r.attr with deriveTo := d } rfl).bytes).files (.entry .task) =
      some (taskRow.table rows) := by
    rw [Workspace.set_files_of_ne _ _ (by simp), h]
  obtain ⟨rfl, rfl⟩ := entryListRows_take (.inl htable) hlist
  cases hi : (rows.take (intOfLong rows.length).toNat).findIdx?
      (·.taskRecordId = r.attr.taskRecordId) with
  | none =>
      simp only [hi] at hpatch
      cases hpatch
  | some i =>
      have hrows := findIdx?_of_take hi
      obtain ⟨-, e, -, hmem, heq⟩ := exists_row_of_findIdx? hrows
      rw [tpbKTaskSetDeriveTo_run hr h hlist hi hrows] at hok
      injection hok with _ hws
      exact ⟨⟨e, hmem, by simpa using heq⟩, hws.symm⟩

/-- The patch of a task with a row in a listable table succeeds. -/
theorem tpbKTaskSetDeriveTo_ok
    (hr : ws.files (.record .task r.attr.taskRecordId) = some r.bytes)
    (h : ws.files (.entry .task) = some (taskRow.table rows))
    (hcount : rows.length ≤ intMax) (hex : ∃ e ∈ rows, e.taskRecordId = r.attr.taskRecordId) :
    ∃ ws', tpbKTaskSetDeriveTo r.attr.taskRecordId d ws = .ok () ws' := by
  obtain ⟨i, hi⟩ : ∃ i, rows.findIdx? (·.taskRecordId = r.attr.taskRecordId) = some i := by
    apply Option.isSome_iff_exists.mp
    simpa using hex
  have htable : (ws.set (.record .task r.attr.taskRecordId)
      (r.withAttr { r.attr with deriveTo := d } rfl).bytes).files (.entry .task) =
      some (taskRow.table rows) := by
    rw [Workspace.set_files_of_ne _ _ (by simp), h]
  exact ⟨_, tpbKTaskSetDeriveTo_run hr h (entryListRows_ok (.inl htable) hcount) hi hi⟩

end TaskDerive

/-! ### Scanning the runtime environment table -/

/-- The loop of the runtime environment patches: read row after row from position `pos`
until one has the ID, and run `act` with its position. The loop ends without a match when
less than a row is left, and that is the error exit; `fuel` bounds the number of rows. -/
def scanRtenv (id : Int32) (act : ℕ → RtenvEntry → FileM Unit) : ℕ → ℕ → FileM Unit
  | 0, _ => check False
  | fuel + 1, pos => do
      fseek pos
      match ← freadTry 1828 with
      | none => check False
      | some bytes =>
          let disk := RtenvEntry.decode (toArr (rowSize .rtenv) bytes)
          if disk.id = id then act pos disk else scanRtenv id act fuel (pos + 1828)

/-- The common body of `_sf_patch_tpbe_counters` and `_sf_patch_tpbe_derive_to`. A file
has fewer rows than bytes, so the loop never runs out of fuel. -/
def patchTpbe (id : Int32) (act : ℕ → RtenvEntry → FileM Unit) : FileM Unit := do
  let magic ← fread 8
  check (tpbRafValidateMagic magic .entry .rtenv .posStart)
  let fsize ← fstatSize
  scanRtenv id act (fsize + 1) 8

section Scan

variable {id : Int32} {act : ℕ → RtenvEntry → FileM Unit} {rows : List RtenvEntry}

/-- One round of the loop, at a row. -/
theorem scanRtenv_step {fuel k p : ℕ} {e : RtenvEntry} (he : rows[k]? = some e) :
    scanRtenv id act (fuel + 1) (8 + k * 1828) ⟨rtenvRow.table rows, p⟩ =
      (if e.id = id then act (8 + k * 1828) e
        else scanRtenv id act fuel (8 + k * 1828 + 1828))
        ⟨rtenvRow.table rows, 8 + k * 1828 + 1828⟩ := by
  have hread : pread (rtenvRow.table rows) (8 + k * 1828) 1828 = e.encode.toList :=
    rtenvRow.pread_table he
  have hdecode : RtenvEntry.decode (toArr (rowSize .rtenv) e.encode.toList) = e := by
    rw [toArr_toList]
    exact e.decode_encode
  refine bind_then (fseek_run rfl) ?_
  refine bind_then (freadTry_run hread (List.Vector.toList_length _)) ?_
  simp only [hdecode]

/-- The loop behind the last row finds only the END magic. -/
theorem scanRtenv_end {fuel p : ℕ} :
    ∃ q, scanRtenv id act (fuel + 1) (8 + rows.length * 1828) ⟨rtenvRow.table rows, p⟩ =
      .error .fail ⟨rtenvRow.table rows, q⟩ := by
  have hlen : (rtenvRow.table rows).length = rows.length * 1828 + 16 := by
    rw [RowFormat.table, length_tableBytes, List.length_map]
    rfl
  refine ⟨max (8 + rows.length * 1828) (rtenvRow.table rows).length, ?_⟩
  refine bind_then (fseek_run rfl) ?_
  exact bind_then (freadTry_short (by rw [hlen]; omega) (by decide)) rfl

/-- The loop gets to the first row with the ID. -/
theorem scanRtenv_found {k i fuel p : ℕ} {e : RtenvEntry} (he : rows[i]? = some e)
    (hid : e.id = id) (hbefore : ∀ j e', k ≤ j → j < i → rows[j]? = some e' → e'.id ≠ id)
    (hk : k ≤ i) (hfuel : i < k + fuel) :
    scanRtenv id act fuel (8 + k * 1828) ⟨rtenvRow.table rows, p⟩ =
      act (8 + i * 1828) e ⟨rtenvRow.table rows, 8 + i * 1828 + 1828⟩ := by
  induction fuel generalizing k p with
  | zero => omega
  | succ fuel ih =>
      by_cases hki : k = i
      · subst hki
        rw [scanRtenv_step he, if_pos hid]
      · have hk' : k < rows.length := by
          have := (List.getElem?_eq_some_iff.mp he).1
          omega
        have hne := hbefore k _ le_rfl (by omega) (List.getElem?_eq_getElem hk')
        rw [scanRtenv_step (List.getElem?_eq_getElem hk'), if_neg hne,
          show 8 + k * 1828 + 1828 = 8 + (k + 1) * 1828 by ring]
        exact ih (fun j e' hj hji => hbefore j e' (by omega) hji) (by omega) (by omega)

/-- The loop fails when no row has the ID. -/
theorem scanRtenv_none (act : ℕ → RtenvEntry → FileM Unit) (fuel : ℕ) {k p : ℕ}
    (hnone : ∀ e ∈ rows, e.id ≠ id) (hk : k ≤ rows.length) :
    ∃ q, scanRtenv id act fuel (8 + k * 1828) ⟨rtenvRow.table rows, p⟩ =
      .error .fail ⟨rtenvRow.table rows, q⟩ := by
  induction fuel generalizing k p with
  | zero => exact ⟨p, rfl⟩
  | succ fuel ih =>
      by_cases hki : k = rows.length
      · subst hki
        exact scanRtenv_end
      · have hk' : k < rows.length := by omega
        have hne := hnone _ (List.getElem_mem hk')
        rw [scanRtenv_step (List.getElem?_eq_getElem hk'), if_neg hne,
          show 8 + k * 1828 + 1828 = 8 + (k + 1) * 1828 by ring]
        exact ih (by omega)

/-- Where a row has the ID, the patch acts on the first such row. -/
theorem patchTpbe_found {i : ℕ} {e : RtenvEntry}
    (hi : rows.findIdx? (·.id = id) = some i) (he : rows[i]? = some e) :
    patchTpbe id act ⟨rtenvRow.table rows, 0⟩ =
      act (8 + i * 1828) e ⟨rtenvRow.table rows, 8 + i * 1828 + 1828⟩ := by
  obtain ⟨hlt, hp, hbefore⟩ := List.findIdx?_eq_some_iff_getElem.mp hi
  obtain ⟨_, heq⟩ := List.getElem?_eq_some_iff.mp he
  rw [heq] at hp
  have hlen : (rtenvRow.table rows).length = rows.length * 1828 + 16 := by
    rw [RowFormat.table, length_tableBytes, List.length_map]
    rfl
  refine bind_then (fread_run (pread_append_self rfl) rfl) ?_
  refine bind_then (check_run (tpbRafValidateMagic_self _ _ _) _) ?_
  refine bind_then (fstatSize_run _ _) ?_
  refine scanRtenv_found (k := 0) he (by simpa using hp) ?_ (Nat.zero_le i) (by omega)
  intro j e' _ hji he'
  obtain ⟨hj, rfl⟩ := List.getElem?_eq_some_iff.mp he'
  simpa using hbefore j hji

/-- Where no row has the ID, the patch fails and changes nothing. -/
theorem patchTpbe_none (act : ℕ → RtenvEntry → FileM Unit) (hnone : ∀ e ∈ rows, e.id ≠ id) :
    ∃ q, patchTpbe id act ⟨rtenvRow.table rows, 0⟩ =
      .error .fail ⟨rtenvRow.table rows, q⟩ := by
  obtain ⟨q, hq⟩ := scanRtenv_none act (rtenvRow.table rows).length.succ (k := 0) (p := 8)
    hnone (Nat.zero_le _)
  refine ⟨q, bind_then (fread_run (pread_append_self rfl) rfl) ?_⟩
  refine bind_then (check_run (tpbRafValidateMagic_self _ _ _) _) ?_
  exact bind_then (fstatSize_run _ _) hq

end Scan

/-! ### Runtime environment counters -/

/-- `_sf_patch_tpbe_counters`. -/
def sfPatchTpbeCounters (id : Int32) (addNtask addNtbatch : UInt32) : WsM Unit :=
  fopenUpdate .none (.entry .rtenv) (patchTpbe id fun pos disk => do
    fseek (pos + 532 : ℕ)
    fwrite (u32 (disk.ntask + addNtask))
    fwrite (u32 (disk.ntbatch + addNtbatch)))

/-- The first half of `tpb_raf_record_patch_rtenv_counters`, on the open and locked
record. -/
def patchTpbrCounters (addNtask addNtbatch : UInt32) : FileM Unit := do
  let magic ← fread 8
  check (tpbRafValidateMagic magic .record .rtenv .posStart)
  fseek (24 + 532)
  let ntask ← readU32
  let ntbatch ← readU32
  fseek (24 + 532)
  fwrite (u32 (ntask + addNtask))
  fwrite (u32 (ntbatch + addNtbatch))

/-- `tpb_raf_record_patch_rtenv_counters`: patch the record, then the table row. -/
def tpbRafRecordPatchRtenvCounters (id : Int32) (addNtask addNtbatch : UInt32) : WsM Unit :=
  if addNtask = 0 ∧ addNtbatch = 0 then pure () else do
    fopenUpdate .rafL3Rtenv (.rtenv id) (patchTpbrCounters addNtask addNtbatch)
    orFail .rafL3Rtenv .fileIoFail (sfPatchTpbeCounters id addNtask addNtbatch)

/-- The attributes with the counters increased. -/
def RtenvAttr.addCounters (a : RtenvAttr) (addNtask addNtbatch : UInt32) : RtenvAttr :=
  { a with ntask := a.ntask + addNtask, ntbatch := a.ntbatch + addNtbatch }

/-- The row with the counters increased. -/
def RtenvEntry.addCounters (addNtask addNtbatch : UInt32) (e : RtenvEntry) : RtenvEntry :=
  { e with ntask := e.ntask + addNtask, ntbatch := e.ntbatch + addNtbatch }

theorem RtenvAttr.pread_ntask (a : RtenvAttr) : pread a.encode 532 4 = u32 a.ntask := by
  simp (disch := simp) only [RtenvAttr.encode, List.flatten_cons, pread_append_right,
    pread_append_self, List.Vector.toList_length, length_u64, length_i32, Nat.reduceSub]

theorem RtenvAttr.pread_ntbatch (a : RtenvAttr) : pread a.encode 536 4 = u32 a.ntbatch := by
  simp (disch := simp) only [RtenvAttr.encode, List.flatten_cons, pread_append_right,
    pread_append_self, List.Vector.toList_length, length_u64, length_i32, length_u32,
    Nat.reduceSub]

theorem RtenvAttr.pwrite_ntask (a : RtenvAttr) (ntask : UInt32) :
    pwrite a.encode 532 (u32 ntask) = RtenvAttr.encode { a with ntask } := by
  simp (disch := simp) only [RtenvAttr.encode, List.flatten_cons, pwrite_append_right,
    pwrite_append_self, List.Vector.toList_length, length_u64, length_i32, Nat.reduceSub]

theorem RtenvAttr.pwrite_ntbatch (a : RtenvAttr) (ntbatch : UInt32) :
    pwrite a.encode 536 (u32 ntbatch) = RtenvAttr.encode { a with ntbatch } := by
  simp (disch := simp) only [RtenvAttr.encode, List.flatten_cons, pwrite_append_right,
    pwrite_append_self, List.Vector.toList_length, length_u64, length_i32, length_u32,
    Nat.reduceSub]

theorem RtenvEntry.pwrite_ntask (e : RtenvEntry) (ntask : UInt32) :
    pwrite e.encode.toList 532 (u32 ntask) =
      (RtenvEntry.encode { e with ntask }).toList := by
  simp (disch := simp) only [RtenvEntry.toList_encode, List.flatten_cons,
    pwrite_append_right, pwrite_append_self, List.Vector.toList_length, length_u64,
    length_i32, Nat.reduceSub]

theorem RtenvEntry.pwrite_ntbatch (e : RtenvEntry) (ntbatch : UInt32) :
    pwrite e.encode.toList 536 (u32 ntbatch) =
      (RtenvEntry.encode { e with ntbatch }).toList := by
  simp (disch := simp) only [RtenvEntry.toList_encode, List.flatten_cons,
    pwrite_append_right, pwrite_append_self, List.Vector.toList_length, length_u64,
    length_i32, length_u32, Nat.reduceSub]

/-- The first half of the patch increases the counters of the record. -/
theorem patchTpbrCounters_run (r : Record rtenvFormat) (m n : UInt32) :
    patchTpbrCounters m n ⟨r.bytes, 0⟩ =
      .ok () ⟨(r.withAttr (r.attr.addCounters m n) rfl).bytes, 564⟩ := by
  have hlen : ∀ a : RtenvAttr, (rtenvFormat.encode a).length = 1832 := RtenvAttr.length_encode
  have hntask : pread r.bytes (24 + 532) 4 = u32 r.attr.ntask := by
    rw [r.pread_attr (by rw [hlen]; decide)]
    exact r.attr.pread_ntask
  have hntbatch : pread r.bytes (24 + 536) 4 = u32 r.attr.ntbatch := by
    rw [r.pread_attr (by rw [hlen]; decide)]
    exact r.attr.pread_ntbatch
  have htask : pwrite r.bytes (24 + 532) (u32 (r.attr.ntask + m)) =
      (r.withAttr { r.attr with ntask := r.attr.ntask + m } rfl).bytes := by
    refine r.pwrite_attr 532 { r.attr with ntask := r.attr.ntask + m } rfl rfl ?_
      (r.attr.pwrite_ntask _)
    rw [hlen, length_u32]
    decide
  set r₁ := r.withAttr { r.attr with ntask := r.attr.ntask + m } rfl
  have hbatch : pwrite r₁.bytes (24 + 536) (u32 (r.attr.ntbatch + n)) =
      (r.withAttr (r.attr.addCounters m n) rfl).bytes := by
    refine r₁.pwrite_attr 536 { r₁.attr with ntbatch := r.attr.ntbatch + n } rfl rfl ?_
      (r₁.attr.pwrite_ntbatch _)
    rw [hlen, length_u32]
    decide
  refine bind_then (fread_run r.pread_magic rfl) ?_
  refine bind_then (check_run (tpbRafValidateMagic_self _ _ _) _) ?_
  refine bind_then (fseek_run rfl) ?_
  refine bind_then (readU32_run hntask) ?_
  refine bind_then (readU32_run hntbatch) ?_
  refine bind_then (fseek_run rfl) ?_
  refine bind_then (fwrite_run _ _ _) ?_
  rw [htask, ← hbatch]
  rfl

section Counters

variable {ws ws' : Workspace} {rows : List RtenvEntry} {id : Int32}

/-- The second half of the patch increases the counters of the first row with the ID. -/
theorem sfPatchTpbeCounters_found (h : ws.files (.entry .rtenv) = some (rtenvRow.table rows))
    (hex : ∃ e ∈ rows, e.id = id) (m n : UInt32) :
    sfPatchTpbeCounters id m n ws = .ok () (ws.set (.entry .rtenv)
      (rtenvRow.table (modifyFirst (·.id = id) (RtenvEntry.addCounters m n) rows))) := by
  obtain ⟨i, hi⟩ : ∃ i, rows.findIdx? (·.id = id) = some i := by
    apply Option.isSome_iff_exists.mp
    simpa using hex
  obtain ⟨hidx, e, he, -, -⟩ := exists_row_of_findIdx? hi
  have htask : pwrite (rtenvRow.table rows) (8 + i * 1828 + 532) (u32 (e.ntask + m)) =
      rtenvRow.table (rows.modify i ({ · with ntask := e.ntask + m })) :=
    rtenvRow.pwrite_table he (by rw [length_u32]; decide) (e.pwrite_ntask _)
  have he₁ : (rows.modify i ({ · with ntask := e.ntask + m }))[i]? =
      some { e with ntask := e.ntask + m } := by
    rw [List.getElem?_modify_eq, he]
    rfl
  have hbatch : pwrite (rtenvRow.table (rows.modify i ({ · with ntask := e.ntask + m })))
      (8 + i * 1828 + 536) (u32 (e.ntbatch + n)) =
      rtenvRow.table (modifyFirst (·.id = id) (RtenvEntry.addCounters m n) rows) := by
    have hmod : modifyFirst (·.id = id) (RtenvEntry.addCounters m n) rows =
        (rows.modify i ({ · with ntask := e.ntask + m })).modify i
          ({ · with ntbatch := e.ntbatch + n }) := by
      rw [modifyFirst, hidx, List.modify_modify_eq]
      refine List.ext_getElem? fun j => ?_
      by_cases hj : i = j
      · subst hj
        rw [List.getElem?_modify_eq, List.getElem?_modify_eq, he]
        rfl
      · rw [List.getElem?_modify_ne _ _ hj, List.getElem?_modify_ne _ _ hj]
    rw [hmod]
    exact rtenvRow.pwrite_table he₁ (by rw [length_u32]; decide) (RtenvEntry.pwrite_ntbatch _ _)
  rw [← hbatch, ← htask]
  refine fopenUpdate_ok h (s := ⟨_, 8 + i * 1828 + 532 + 4 + 4⟩) ?_
  rw [patchTpbe_found hi he]
  refine bind_then (fseek_run rfl) ?_
  exact bind_then (fwrite_run _ _ _) rfl

/-- The second half of the patch fails when no row has the ID. -/
theorem sfPatchTpbeCounters_none (h : ws.files (.entry .rtenv) = some (rtenvRow.table rows))
    (hnone : ∀ e ∈ rows, e.id ≠ id) (m n : UInt32) :
    sfPatchTpbeCounters id m n ws = .error (.code .none .fileIoFail) ws := by
  obtain ⟨q, hq⟩ := patchTpbe_none (fun pos disk => do
    fseek (pos + 532 : ℕ)
    fwrite (u32 (disk.ntask + m))
    fwrite (u32 (disk.ntbatch + n))) hnone
  simp only [sfPatchTpbeCounters, fopenUpdate, h, hq, Workspace.set_self h]
  rfl

/-- Adding nothing changes no row. -/
theorem modifyFirst_addCounters_zero (rows : List RtenvEntry) :
    modifyFirst (·.id = id) (RtenvEntry.addCounters 0 0) rows = rows := by
  have hid : RtenvEntry.addCounters 0 0 = fun e => e := by
    funext e
    simp [RtenvEntry.addCounters]
  rw [modifyFirst, hid]
  exact List.modify_id _ _

/-- The patch of a runtime environment with a record and a row increases the counters of
both. -/
theorem tpbRafRecordPatchRtenvCounters_run {r : Record rtenvFormat}
    (hr : ws.files (.rtenv id) = some r.bytes)
    (h : ws.files (.entry .rtenv) = some (rtenvRow.table rows))
    (hex : ∃ e ∈ rows, e.id = id) (m n : UInt32) :
    tpbRafRecordPatchRtenvCounters id m n ws =
      .ok () ((ws.set (.rtenv id) (r.withAttr (r.attr.addCounters m n) rfl).bytes).set
        (.entry .rtenv)
        (rtenvRow.table (modifyFirst (·.id = id) (RtenvEntry.addCounters m n) rows))) := by
  have htable : (ws.set (.rtenv id) (r.withAttr (r.attr.addCounters m n) rfl).bytes).files
      (.entry .rtenv) = some (rtenvRow.table rows) := by
    rw [Workspace.set_files_of_ne _ _ (by simp), h]
  rw [tpbRafRecordPatchRtenvCounters]
  by_cases hmn : m = 0 ∧ n = 0
  · obtain ⟨rfl, rfl⟩ := hmn
    have hattr : r.withAttr (r.attr.addCounters 0 0) rfl = r := by
      simp [Record.withAttr, RtenvAttr.addCounters]
    rw [if_pos ⟨rfl, rfl⟩, modifyFirst_addCounters_zero, Workspace.set_self htable, hattr,
      Workspace.set_self hr]
    rfl
  · rw [if_neg hmn]
    refine bind_then (fopenUpdate_ok hr (patchTpbrCounters_run r m n)) ?_
    rw [orFail_eq_ok]
    exact sfPatchTpbeCounters_found htable hex m n

/-- A patch that succeeds added nothing, or found a row with the ID. -/
theorem tpbRafRecordPatchRtenvCounters_eq_ok (h : rtenvRow.Holds ws rows) {m n : UInt32}
    (hok : tpbRafRecordPatchRtenvCounters id m n ws = .ok () ws') :
    ws' = ws ∨ ∃ e ∈ rows, e.id = id := by
  rw [tpbRafRecordPatchRtenvCounters] at hok
  by_cases hmn : m = 0 ∧ n = 0
  · rw [if_pos hmn] at hok
    cases hok
    exact .inl rfl
  · rw [if_neg hmn] at hok
    refine .inr ?_
    by_contra hnone
    obtain ⟨⟨⟩, ws₁, hrecord, htable⟩ := bind_eq_ok.mp hok
    obtain ⟨f, s, -, -, rfl⟩ := fopenUpdate_eq_ok hrecord
    rw [orFail_eq_ok] at htable
    rcases h with h | ⟨h, rfl⟩
    · have hsame : (ws.set (.rtenv id) s.content).files (.entry .rtenv) =
          some (rtenvRow.table rows) := by
        rw [Workspace.set_files_of_ne _ _ (by simp)]
        exact h
      rw [sfPatchTpbeCounters_none hsame fun e he heq => hnone ⟨e, he, heq⟩] at htable
      cases htable
    · have hmissing : (ws.set (.rtenv id) s.content).files (.entry .rtenv) = none := by
        rw [Workspace.set_files_of_ne _ _ (by simp)]
        exact h
      simp only [sfPatchTpbeCounters, fopenUpdate, hmissing] at htable
      cases htable

end Counters

/-! ### All patches -/

/-- Decoding the record at `p` after the step gives what decoding it before gave, with
`f` applied to the attributes. -/
def RecordPatched {α : Type} (F : RecordFormat α) (p : Path) (f : α → α)
    (ws ws' : Workspace) : Prop :=
  ∃ v, recordRead F p true ws = .ok v ws ∧
    recordRead F p true ws' = .ok { v with attr := f v.attr } ws'

/-- The table after the step consists of the rows before it, with `f` applied to the first
row that satisfies `q`. -/
def TablePatched {ρ : Type} (R : RowFormat ρ) (q : ρ → Bool) (f : ρ → ρ) (rows : List ρ)
    (ws' : Workspace) : Prop :=
  ws'.files (.entry R.domain) = some (R.table (modifyFirst q f rows))

/-- The step touches no file but these. -/
def OnlyTouches (ps : List Path) (ws ws' : Workspace) : Prop :=
  ws'.baseId = ws.baseId ∧ ∀ p, p ∉ ps → ws'.files p = ws.files p

/-- A workspace in which one record file was replaced by the file of the record with other
attributes. -/
theorem recordPatched_set {α : Type} {F : RecordFormat α} {ws ws' : Workspace} {p : Path}
    {r : Record F} {f : α → α} (hr : ws.files p = some r.bytes)
    (hn : F.nheader (f r.attr) = F.nheader r.attr)
    (h' : ws'.files p = some (r.withAttr (f r.attr) hn).bytes) :
    RecordPatched F p f ws ws' :=
  ⟨r.view, recordRead_of_bytes hr, recordRead_of_bytes h'⟩

theorem onlyTouches_set (ws : Workspace) (p : Path) (f : Bytes) :
    OnlyTouches [p] ws (ws.set p f) :=
  ⟨rfl, fun q hq => ws.set_files_of_ne f (by simpa using hq)⟩

theorem onlyTouches_set_set (ws : Workspace) (p q : Path) (f g : Bytes) :
    OnlyTouches [p, q] ws ((ws.set p f).set q g) := by
  refine ⟨rfl, fun x hx => ?_⟩
  have hne : x ≠ p ∧ x ≠ q := by simpa using hx
  rw [Workspace.set_files_of_ne _ _ hne.2, Workspace.set_files_of_ne _ _ hne.1]

/-- **Every patch changes exactly the fields it names.** For every record that a writer
produced and every table of rows, whatever its length and wherever the row stands:
decoding after the patch gives what decoding before gave with only these fields replaced,
and no other file changes. The patches that search a listing are described for every
table on which they succeed; they succeed when a row matches and an `int` can count the
rows. -/
theorem patches_change_named_fields (ws : Workspace) :
    (∀ (r : Record tbatchFormat) (duration : UInt64) (nkernel ntask : UInt32),
      ws.files (.record .tbatch r.attr.tbatchId) = some r.bytes →
      ∃ ws', tpbRafRecordPatchTbatchCounters r.attr.tbatchId duration nkernel ntask ws =
          .ok () ws' ∧
        RecordPatched tbatchFormat (.record .tbatch r.attr.tbatchId)
          ({ · with duration, nkernel, ntask }) ws ws' ∧
        OnlyTouches [.record .tbatch r.attr.tbatchId] ws ws') ∧
    (∀ (r : Record kernelFormat) (active : UInt32),
      ws.files (.record .kernel r.attr.kernelId) = some r.bytes →
      ∃ ws', tpbRafRecordPatchKernelActive r.attr.kernelId active ws = .ok () ws' ∧
        RecordPatched kernelFormat (.record .kernel r.attr.kernelId) ({ · with active })
          ws ws' ∧
        OnlyTouches [.record .kernel r.attr.kernelId] ws ws') ∧
    (∀ (rows : List KernelEntry) (id : Id20) (active : UInt32),
      ws.files (.entry .kernel) = some (kernelRow.table rows) →
      (∀ ws', tpbRafEntryPatchKernelActive id active ws = .ok () ws' →
        (∃ e ∈ rows, e.kernelId = id) ∧
        TablePatched kernelRow (·.kernelId = id) ({ · with active }) rows ws' ∧
        OnlyTouches [.entry .kernel] ws ws') ∧
      (rows.length ≤ intMax → (∃ e ∈ rows, e.kernelId = id) →
        ∃ ws', tpbRafEntryPatchKernelActive id active ws = .ok () ws')) ∧
    (∀ (rows : List KernelEntry) (id : Id20) (utcBits : UInt64),
      ws.files (.entry .kernel) = some (kernelRow.table rows) →
      (∀ ws', tpbRafEntryPatchKernelUtc id utcBits ws = .ok () ws' →
        (∃ e ∈ rows, e.kernelId = id) ∧
        TablePatched kernelRow (·.kernelId = id) ({ · with utcBits }) rows ws' ∧
        OnlyTouches [.entry .kernel] ws ws') ∧
      (rows.length ≤ intMax → (∃ e ∈ rows, e.kernelId = id) →
        ∃ ws', tpbRafEntryPatchKernelUtc id utcBits ws = .ok () ws')) ∧
    (∀ (r : Record taskFormat) (rows : List TaskEntry) (deriveTo : Id20),
      ws.files (.record .task r.attr.taskRecordId) = some r.bytes →
      ws.files (.entry .task) = some (taskRow.table rows) →
      (∀ ws', tpbKTaskSetDeriveTo r.attr.taskRecordId deriveTo ws = .ok () ws' →
        (∃ e ∈ rows, e.taskRecordId = r.attr.taskRecordId) ∧
        RecordPatched taskFormat (.record .task r.attr.taskRecordId) ({ · with deriveTo })
          ws ws' ∧
        TablePatched taskRow (·.taskRecordId = r.attr.taskRecordId) ({ · with deriveTo })
          rows ws' ∧
        OnlyTouches [.record .task r.attr.taskRecordId, .entry .task] ws ws') ∧
      (rows.length ≤ intMax → (∃ e ∈ rows, e.taskRecordId = r.attr.taskRecordId) →
        ∃ ws', tpbKTaskSetDeriveTo r.attr.taskRecordId deriveTo ws = .ok () ws')) ∧
    (∀ (r : Record rtenvFormat) (rows : List RtenvEntry) (addNtask addNtbatch : UInt32),
      ws.files (.rtenv r.attr.id) = some r.bytes →
      ws.files (.entry .rtenv) = some (rtenvRow.table rows) →
      (∃ e ∈ rows, e.id = r.attr.id) →
      ∃ ws', tpbRafRecordPatchRtenvCounters r.attr.id addNtask addNtbatch ws = .ok () ws' ∧
        RecordPatched rtenvFormat (.rtenv r.attr.id)
          (fun a => { a with ntask := a.ntask + addNtask, ntbatch := a.ntbatch + addNtbatch })
          ws ws' ∧
        TablePatched rtenvRow (·.id = r.attr.id)
          (fun e => { e with ntask := e.ntask + addNtask, ntbatch := e.ntbatch + addNtbatch })
          rows ws' ∧
        OnlyTouches [.rtenv r.attr.id, .entry .rtenv] ws ws') := by
  refine ⟨?_, ?_, ?_, ?_, ?_, ?_⟩
  · intro r duration nkernel ntask hr
    exact ⟨_, tpbRafRecordPatchTbatchCounters_run hr duration nkernel ntask,
      recordPatched_set hr rfl (ws.set_files_same _ _), onlyTouches_set _ _ _⟩
  · intro r active hr
    exact ⟨_, tpbRafRecordPatchKernelActive_run hr active,
      recordPatched_set hr rfl (ws.set_files_same _ _), onlyTouches_set _ _ _⟩
  · intro rows id active h
    have hlen : 116 + (u32 active).length ≤ 264 := by rw [length_u32]; decide
    refine ⟨fun ws' hok => ?_, fun hcount hex => ⟨_, patchKernelEntry_ok h hlen
      (fun e => e.pwrite_active active) hcount hex⟩⟩
    obtain ⟨hex, rfl⟩ := patchKernelEntry_eq_ok h hlen (fun e => e.pwrite_active active) hok
    exact ⟨hex, ws.set_files_same _ _, onlyTouches_set _ _ _⟩
  · intro rows id utcBits h
    have hlen : 120 + (u64 utcBits).length ≤ 264 := by rw [length_u64]; decide
    refine ⟨fun ws' hok => ?_, fun hcount hex => ⟨_, patchKernelEntry_ok h hlen
      (fun e => e.pwrite_utcBits utcBits) hcount hex⟩⟩
    obtain ⟨hex, rfl⟩ := patchKernelEntry_eq_ok h hlen (fun e => e.pwrite_utcBits utcBits) hok
    exact ⟨hex, ws.set_files_same _ _, onlyTouches_set _ _ _⟩
  · intro r rows deriveTo hr h
    refine ⟨fun ws' hok => ?_, tpbKTaskSetDeriveTo_ok hr h⟩
    obtain ⟨hex, rfl⟩ := tpbKTaskSetDeriveTo_eq_ok hr h hok
    refine ⟨hex, recordPatched_set hr rfl ?_, Workspace.set_files_same _ _ _,
      onlyTouches_set_set _ _ _ _ _⟩
    rw [Workspace.set_files_of_ne _ _ (by simp), Workspace.set_files_same]
  · intro r rows m n hr h hex
    refine ⟨_, tpbRafRecordPatchRtenvCounters_run hr h hex m n, recordPatched_set hr rfl ?_,
      Workspace.set_files_same _ _ _, onlyTouches_set_set _ _ _ _ _⟩
    rw [Workspace.set_files_of_ne _ _ (by simp), Workspace.set_files_same]
    rfl

/-- A record without headers and payload. -/
def Record.bare {α : Type} {F : RecordFormat α} (a : α) (h : F.nheader a = 0) : Record F where
  attr := a
  headers := []
  buf := none
  nheader_eq := by rw [h]; rfl
  ndim_le := ndim_le_nil
  data_lt := data_lt_none

/-- A workspace with a task batch record, two kernel rows, and a runtime environment with
its record and its row. -/
def patchSample : Workspace :=
  (((Workspace.empty.set (.record .tbatch (zeroArr 20))
      (Record.bare (F := tbatchFormat) TbatchAttr.zero rfl).bytes).set
    (.entry .kernel) (kernelRow.table [KernelEntry.zero, KernelEntry.zero])).set
    (.rtenv 0) (Record.bare (F := rtenvFormat) RtenvAttr.zero rfl).bytes).set
    (.entry .rtenv) (rtenvRow.table [RtenvEntry.zero])

/-- The task batch patch, the kernel row patch and the runtime environment patch on the
sample workspace. -/
theorem patches_sample :
    (∃ ws', tpbRafRecordPatchTbatchCounters (zeroArr 20) 5 1 2 patchSample = .ok () ws' ∧
      RecordPatched tbatchFormat (.record .tbatch (zeroArr 20))
        ({ · with duration := 5, nkernel := 1, ntask := 2 }) patchSample ws') ∧
    (∃ ws', tpbRafEntryPatchKernelActive (zeroArr 20) 1 patchSample = .ok () ws' ∧
      TablePatched kernelRow (·.kernelId = zeroArr 20) ({ · with active := 1 })
        [KernelEntry.zero, KernelEntry.zero] ws') ∧
    (∃ ws', tpbRafRecordPatchRtenvCounters 0 3 1 patchSample = .ok () ws' ∧
      TablePatched rtenvRow (·.id = 0)
        (fun e => { e with ntask := e.ntask + 3, ntbatch := e.ntbatch + 1 })
        [RtenvEntry.zero] ws') := by
  obtain ⟨hbatch, -, hkernel, -, -, hrtenv⟩ := patches_change_named_fields patchSample
  refine ⟨?_, ?_, ?_⟩
  · obtain ⟨ws', hok, hrec, -⟩ := hbatch (Record.bare TbatchAttr.zero rfl) 5 1 2
      (by simp [patchSample, Record.bare, TbatchAttr.zero])
    exact ⟨ws', hok, hrec⟩
  · obtain ⟨hspec, hok⟩ := hkernel [KernelEntry.zero, KernelEntry.zero] (zeroArr 20) 1
      (by simp [patchSample])
    obtain ⟨ws', hws⟩ := hok (by decide) ⟨KernelEntry.zero, List.mem_cons_self, rfl⟩
    exact ⟨ws', hws, (hspec ws' hws).2.1⟩
  · obtain ⟨ws', hok, -, htable, -⟩ := hrtenv (Record.bare RtenvAttr.zero rfl)
      [RtenvEntry.zero] 3 1 (by simp [patchSample, Record.bare, RtenvAttr.zero])
      (by simp [patchSample]) ⟨RtenvEntry.zero, List.mem_cons_self, rfl⟩
    exact ⟨ws', hok, htable⟩

end TPBench
