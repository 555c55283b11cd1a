import TPBench.Conc.Progs
import TPBench.Kernel.KernelRecord
import TPBench.Paired
import TPBench.Raf.Frames
import TPBench.Raf.KernelCut
import TPBench.Task.Select

/-!
# The Versions of a Kernel

A kernel is a shared library, and its ID is the hash of the library, so that every build of a
kernel is a version with an ID of its own. The table of kernels has a row for each version, and
each version has a record. A flag in both says whether the version is active. When a library is
loaded (`sfResolveKernelIdForWorkspace`), built (`sfActivateInstalledKernel`) or moved away
(`tpbcliKernelBackupInactive`), flags are patched in rows and records one by one, and the
results of most patches are not looked at. So a call may succeed though a flag is not what it
should be: `KernelFaults` says which file operations of a call fail.

This module has the code and the invariant of the store. `lib id` is the kernel that the library
with the hash `id` registers: the loader asks a library for the registration function of one
kernel name, and the row and the record of a version are filled in from what it registers.
`VersionStore lib ws log` says that the table consists of the rows of the versions of `log`, and
that the record of each says what the log says of it: its flag and its time, which may differ
from those of the row, and whether a write of it was cut short. Each operation is described by
what it does to the versions of the log: `VersionStore.patch`, `VersionStore.deactivate`,
`VersionStore.write`, `VersionStore.append`, `VersionStore.override` and
`VersionStore.updateMeta`.
-/

open CFile Conc

namespace TPBench

/-! ### Failures -/

/-- How the write of a record fails: before the file is opened, or behind some of its bytes. -/
inductive WriteFault
  | unopened
  | behind (n : ℕ)
  deriving DecidableEq, Repr

/-- The file operations of a call that fail: the write of the record, the append of the row, the
listing of the versions to deactivate, the patches of flags in rows and in records, by the ID,
and the patch of the time. -/
structure KernelFaults where
  write : Option WriteFault
  append : Bool
  list : Bool
  row : Id20 → Bool
  record : Id20 → Bool
  utc : Bool

/-- Nothing fails. -/
def KernelFaults.nothing : KernelFaults :=
  ⟨none, false, false, fun _ => false, fun _ => false, false⟩

/-- The write of the record is cut short. -/
def KernelFaults.cuts (F : KernelFaults) : Bool :=
  match F.write with
  | some (.behind _) => true
  | _ => false

/-- A call that fails, or does not. -/
def failsIf {α : Type} (fails : Bool) (m : WsM α) : WsM α :=
  if fails then tpbFail .rafL3Kernel .fileIoFail else m

/-- A callee whose failure the caller goes on from. -/
def attempt {α : Type} (m : WsM α) : WsM (Option α) := fun ws =>
  match m ws with
  | .ok a ws' => .ok (some a) ws'
  | .error (.code _ _) ws' => .ok none ws'
  | .error .undefined ws' => .error .undefined ws'

/-! ### The code -/

/-- `tpb_raf_gen_kernel_id`. -/
def tpbRafGenKernelId (tpbxSha1 : Id20) : Id20 := tpbxSha1

/-- `tpb_raf_kernel_override_enabled`, for the value of the environment variable. -/
def tpbRafKernelOverrideEnabled (v : Option Bytes) : Bool :=
  match v with
  | none => false
  | some v =>
      let lower := v.map fun b => if 65 ≤ b ∧ b ≤ 90 then b + 32 else b
      !(v = [] ∨ v = ascii ['0'] ∨ lower = ascii "false".toList ∨ lower = ascii "no".toList)

section Code

variable (F : KernelFaults)

/-- `tpb_raf_record_write_kernel`. -/
def recordWriteKernel (a : KernelAttr) (headers : List MetaHeader) (data : Option Bytes)
    (datasize : UInt64) : WsM Unit :=
  match F.write with
  | none => tpbRafRecordWriteKernel a headers data datasize
  | some .unopened => tpbFail .rafL2Kernel .fileIoFail
  | some (.behind n) => do
      fopenWrite (.record .kernel a.kernelId)
        ((recordBytes kernelFormat a headers data datasize).take n)
      tpbFail .rafL2Kernel .fileIoFail

/-- The two patches of the active flag, of the row and of the record. -/
def patchKernelActive (kernelId : Id20) (active : UInt32) : WsM Unit := do
  ignoring (failsIf (F.row kernelId) (tpbRafEntryPatchKernelActive kernelId active))
  ignoring (failsIf (F.record kernelId) (tpbRafRecordPatchKernelActive kernelId active))

/-- The loop of `tpb_raf_kernel_deactivate_same_name`. -/
def deactivateLoop (kernelName : Bytes) (skipId : Option Id20) : List KernelEntry → WsM Unit
  | [] => return ()
  | e :: es => do
      if cstr e.kernelName.toList ≠ kernelName then deactivateLoop kernelName skipId es
      else if skipId = some e.kernelId then deactivateLoop kernelName skipId es
      else do
        patchKernelActive F e.kernelId 0
        deactivateLoop kernelName skipId es

/-- `tpb_raf_kernel_deactivate_same_name`. -/
def tpbRafKernelDeactivateSameName (kernelName : Bytes) (skipId : Option Id20) : WsM Unit := do
  let entries ← propagate .rafL3Kernel (failsIf F.list tpbRafEntryListKernel)
  deactivateLoop F kernelName skipId entries

/-- `_sf_follow_kernel_dup_chain` with the hops that are left. -/
def sfFollowKernelDupChain : ℕ → Id20 → WsM Id20
  | 0, curId => return curId
  | hops + 1, curId => do
      match ← attempt (tpbRafRecordReadKernel curId true) with
      | none => return curId
      | some v =>
          if v.attr.deriveTo = zeroArr 20 ∨ v.attr.deriveTo = curId then return curId
          else sfFollowKernelDupChain hops v.attr.deriveTo

/-- The row of a new version. -/
def kernelEntryOf (kernelName : Bytes) (kernelId : Id20) (registered : KernelInfo)
    (buildUtc : UInt64) : KernelEntry :=
  { KernelEntry.zero with
    kernelId := kernelId
    kernelName := snprintfS 64 kernelName
    kctrl := registered.kctrl
    narg := UInt32.ofNat registered.args.length
    nmetric := UInt32.ofNat registered.outs.length
    active := 1
    utcBits := buildUtc }

/-- Build the record of a version and write it. -/
def writeRegistered (registered : KernelInfo) (kernelId : Id20) (buildUtc : UInt64) :
    WsM Unit := do
  let b ← liftExcept (tpbRafKernelBuildRegisteredAttr registered kernelId)
  recordWriteKernel F { b.attr with utcBits := buildUtc } b.headers (some b.data) b.datasize

/-- The case of `_sf_resolve_kernel_id_for_workspace` in which a listed version is recorded
anew. -/
def overrideVersion (kernelName : Bytes) (computedId : Id20) (registered : KernelInfo)
    (buildUtc : UInt64) : WsM Unit := do
  match ← attempt (writeRegistered F registered computedId buildUtc) with
  | none => return ()
  | some () => do
      ignoring (tpbRafKernelDeactivateSameName F kernelName (some computedId))
      patchKernelActive F computedId 1
      ignoring (failsIf F.utc (tpbRafEntryPatchKernelUtc computedId buildUtc))

/-- The case of `_sf_resolve_kernel_id_for_workspace` in which a version is new. -/
def recordVersion (kernelName : Bytes) (computedId : Id20) (registered : KernelInfo)
    (buildUtc : UInt64) : WsM Unit := do
  propagate .driver (writeRegistered F registered computedId buildUtc)
  propagate .driver (failsIf F.append
    (tpbRafEntryAppendKernel (kernelEntryOf kernelName computedId registered buildUtc)))
  ignoring (tpbRafKernelDeactivateSameName F kernelName (some computedId))

/-- `_sf_resolve_kernel_id_for_workspace`: the ID, and whether the version is new. The result
of `_sf_kernel_build_utc_bits` is `buildUtc`. -/
def sfResolveKernelIdForWorkspace (override : Bool) (buildUtc : Except Err UInt64)
    (kernelName : Bytes) (soSha1 : Id20) (registered : KernelInfo) : WsM (Id20 × Bool) := do
  let computedId := tpbRafGenKernelId soSha1
  let entries := (← attempt tpbRafEntryListKernel).getD []
  if entries.any (·.kernelId = computedId) then do
    if override then do
      let buildUtc ← propagate .driver (liftExcept buildUtc)
      overrideVersion F kernelName computedId registered buildUtc
    let finalId ← propagate .driver (sfFollowKernelDupChain 64 computedId)
    return (finalId, false)
  else do
    let buildUtc ← propagate .driver (liftExcept buildUtc)
    recordVersion F kernelName computedId registered buildUtc
    return (computedId, true)

/-- `_sf_activate_installed_kernel`, for a library with the hash `soSha1`. -/
def sfActivateInstalledKernel (kernelName : Bytes) (soSha1 : Id20) : WsM Unit := do
  let kernelId := tpbRafGenKernelId soSha1
  ignoring (tpbRafKernelDeactivateSameName F kernelName (some kernelId))
  patchKernelActive F kernelId 1

/-- What `tpbcli_kernel_backup_inactive` does to the store when it has moved a library with the
hash `kernelId` away. -/
def tpbcliKernelBackupInactive (kernelId : Id20) : WsM Unit := patchKernelActive F kernelId 0

/-- `writeSection`, when the write may fail. -/
def writeSectionOr (v : RecordView KernelAttr) (idx : ℕ) (text : Bytes) : WsM Unit :=
  let headers := v.headers.modify idx (·.withText text)
  if 2 ^ 63 ≤ claimed headers then tpbFail .rafL3Kernel .mallocFail
  else match copyBlocks v.data text idx [] headers with
    | none => undefinedCall
    | some data => propagate .rafL3Kernel
        (recordWriteKernel F v.attr headers (some data) (UInt64.ofNat (claimed headers)))

/-- `tpb_raf_kernel_update_meta_key`, when its write may fail. -/
def updateMetaKeyOr (kernelId : Id20) (fullKey value : Bytes) : WsM Unit := do
  let names ← propagate .rafL3Kernel (sfSplitMetaKey fullKey)
  let v ← propagate .rafL3Kernel (tpbRafRecordReadKernel kernelId true)
  match tpbRafKernelFindHeader v.headers names.1 with
  | none => tpbFail .rafL3Kernel .listNotFound
  | some idx =>
      match v.headers[idx]? with
      | none => undefinedCall
      | some h => do
          let old ← sectionText v (v.headers.take idx) h
          let text ← propagate .rafL3Kernel (tpbRafKernelMetaKvSet old names.2 value)
          writeSectionOr F v idx text

end Code

/-- When nothing fails it is the update of `Raf/KernelMeta.lean`. -/
theorem updateMetaKeyOr_nothing :
    updateMetaKeyOr .nothing = tpbRafKernelUpdateMetaKey := rfl

/-! ### The store -/

/-- A version in the log of the store: its row, the flag and the time in its record, and whether a
write of the record may have been cut short, so that nothing is known of it. -/
structure StoredVersion where
  row : KernelEntry
  active : UInt32
  utcBits : UInt64
  cut : Bool

/-- The ID of a version. -/
def StoredVersion.id (v : StoredVersion) : Id20 := v.row.kernelId

/-- A version that was recorded just now. -/
def StoredVersion.new (e : KernelEntry) : StoredVersion := ⟨e, e.active, e.utcBits, false⟩

/-- The row and the record of a version agree on the fields they share, flag and time apart, and
the record says that nothing was derived from the version. -/
structure KernelAgree (e : KernelEntry) (r : Record kernelFormat) : Prop where
  kernelId : e.kernelId = r.attr.kernelId
  inheritFrom : e.inheritFrom = r.attr.inheritFrom
  kernelName : e.kernelName = snprintfS 64 r.attr.kernelName.toList
  kctrl : e.kctrl = r.attr.kctrl
  narg : e.narg = r.attr.narg
  nmetric : e.nmetric = r.attr.nmetric
  underived : r.attr.deriveTo = zeroArr 20

/-- What the record of a version says, unless it may be cut. -/
def StoredVersion.Fits (v : StoredVersion) (f : Bytes) : Prop :=
  v.cut = false → ∃ r : Record kernelFormat, f = r.bytes ∧ KernelAgree v.row r ∧
    r.attr.active = v.active ∧ r.attr.utcBits = v.utcBits

/-- The row of a version has the data of its library. -/
structure RowOf (k : KernelInfo) (e : KernelEntry) : Prop where
  inheritFrom : e.inheritFrom = zeroArr 20
  kernelName : e.kernelName = snprintfS 64 k.name
  kctrl : e.kctrl = k.kctrl
  narg : e.narg = UInt32.ofNat k.args.length
  nmetric : e.nmetric = UInt32.ofNat k.outs.length

/-- What holds of the kernel that a library registers: a record can be made of it. -/
structure Library (k : KernelInfo) : Prop extends Recordable k where
  countable : k.args.length + k.outs.length + 3 < 2 ^ 32

/-- The file of a record. -/
def HoldsKernel (ws : Workspace) (kernelId : Id20) (f : Bytes) : Prop :=
  ws.files (.record .kernel kernelId) = some f

/-- The table consists of the rows of the log, an `int` can count them, rows and records are
paired, the rows have the data of the libraries, and every record is one of its version, or is
cut. -/
structure VersionStore (lib : Id20 → KernelInfo) (ws : Workspace) (log : List StoredVersion) :
    Prop where
  table : kernelRow.Holds ws (log.map StoredVersion.row)
  count : log.length ≤ intMax
  paired : Paired StoredVersion.id StoredVersion.Fits log (HoldsKernel ws)
  ofLib : ∀ v ∈ log, RowOf (lib v.id) v.row
  files : ∀ kernelId f, HoldsKernel ws kernelId f → KernelFile kernelId f

section Calls

variable {ws ws' : Workspace} {α : Type}

theorem attempt_ok {m : WsM α} {a : α} (h : m ws = .ok a ws') :
    attempt m ws = .ok (some a) ws' := by
  simp only [attempt, h]

theorem attempt_code {m : WsM α} {mod : Module} {cause : Cause}
    (h : m ws = .error (.code mod cause) ws') : attempt m ws = .ok none ws' := by
  simp only [attempt, h]

theorem failsIf_false (m : WsM α) : failsIf false m = m := rfl

/-- A call that fails is passed over. -/
theorem ignoring_failsIf (m : WsM Unit) (ws : Workspace) :
    ignoring (failsIf true m) ws = .ok () ws := rfl

end Calls

section Store

variable {lib : Id20 → KernelInfo} {F : KernelFaults} {ws ws' : Workspace}
  {log : List StoredVersion}

/-- The store without versions. -/
theorem versionStore_nil (h : kernelRow.Holds ws [])
    (hnone : ∀ kernelId, ws.files (.record .kernel kernelId) = none) :
    VersionStore lib ws [] where
  table := h
  count := Nat.zero_le _
  paired := Paired.nil
  ofLib := by
    intro v hv
    cases hv
  files := by
    intro kernelId f hf
    rw [HoldsKernel, hnone] at hf
    cases hf

/-- The listing is complete. -/
theorem VersionStore.list (h : VersionStore lib ws log) :
    tpbRafEntryListKernel ws = .ok (log.map StoredVersion.row) ws :=
  entryListRows_ok h.table (by rw [List.length_map]; exact h.count)

/-- The IDs of the rows. -/
theorem map_kernelId_row (log : List StoredVersion) :
    (log.map StoredVersion.row).map KernelEntry.kernelId = log.map StoredVersion.id := by
  rw [List.map_map]
  rfl

/-- **The table changes**: fields of rows that the records do not share. -/
theorem VersionStore.setTable (h : VersionStore lib ws log) {g : StoredVersion → StoredVersion}
    (hid : ∀ v, (g v).id = v.id) (hfits : ∀ v f, v.Fits f → (g v).Fits f)
    (hof : ∀ v, RowOf (lib v.id) v.row → RowOf (lib v.id) (g v).row) :
    VersionStore lib
      (ws.set (.entry .kernel) (kernelRow.table ((log.map g).map StoredVersion.row)))
      (log.map g) where
  table := .inl (Workspace.set_files_same _ _ _)
  count := by
    rw [List.length_map]
    exact h.count
  paired := by
    refine h.paired.map hid fun v _ f hf hv => ⟨f, ?_, hfits v f hv⟩
    rw [HoldsKernel, Workspace.set_files_of_ne _ _ (by simp)]
    exact hf
  ofLib := by
    intro v hv
    obtain ⟨v₀, hv₀, rfl⟩ := List.mem_map.mp hv
    rw [hid]
    exact hof v₀ (h.ofLib v₀ hv₀)
  files := by
    intro kernelId f hf
    rw [HoldsKernel, Workspace.set_files_of_ne _ _ (by simp)] at hf
    exact h.files kernelId f hf

/-- **A record changes**: what the log says of the record of its version. -/
theorem VersionStore.setRecord (h : VersionStore lib ws log) {kernelId : Id20} {f : Bytes}
    {g : StoredVersion → StoredVersion} (hfile : KernelFile kernelId f)
    (hrow : ∀ v, (g v).row = v.row) (hother : ∀ v, v.id ≠ kernelId → g v = v)
    (hfits : ∀ v ∈ log, v.id = kernelId → (g v).Fits f) :
    VersionStore lib (ws.set (.record .kernel kernelId) f) (log.map g) where
  table := by
    have hrows : (log.map g).map StoredVersion.row = log.map StoredVersion.row := by
      rw [List.map_map]
      exact List.map_congr_left fun v _ => hrow v
    have htable := h.table
    unfold RowFormat.Holds at htable ⊢
    rwa [Workspace.set_files_of_ne _ _ (by simp), hrows]
  count := by
    rw [List.length_map]
    exact h.count
  paired := by
    refine h.paired.map (fun v => congrArg KernelEntry.kernelId (hrow v)) fun v hv f₀ hf₀ hv₀ => ?_
    by_cases hid : v.id = kernelId
    · subst hid
      exact ⟨f, Workspace.set_files_same _ _ _, hfits v hv rfl⟩
    · rw [hother v hid]
      refine ⟨f₀, ?_, hv₀⟩
      rw [HoldsKernel, Workspace.set_files_of_ne _ _ (by simpa using hid)]
      exact hf₀
  ofLib := by
    intro v hv
    obtain ⟨v₀, hv₀, rfl⟩ := List.mem_map.mp hv
    rw [StoredVersion.id, hrow]
    exact h.ofLib v₀ hv₀
  files := by
    intro x f₀ hf₀
    by_cases hx : x = kernelId
    · subst hx
      rw [HoldsKernel, Workspace.set_files_same] at hf₀
      cases hf₀
      exact hfile
    · rw [HoldsKernel, Workspace.set_files_of_ne _ _ (by simpa using hx)] at hf₀
      exact h.files x f₀ hf₀

/-- Nothing changes. -/
theorem VersionStore.same (h : VersionStore lib ws log) {g : StoredVersion → StoredVersion}
    (hsame : ∀ v ∈ log, g v = v) : VersionStore lib ws (log.map g) := by
  rwa [List.map_congr_left hsame, List.map_id']

/-! ### The flag of one version -/

/-- The patch of the row. -/
def StoredVersion.patchRow (F : KernelFaults) (kernelId : Id20) (active : UInt32)
    (v : StoredVersion) : StoredVersion :=
  if v.id = kernelId ∧ F.row kernelId = false then { v with row := { v.row with active } } else v

/-- The patch of the record. -/
def StoredVersion.patchRecord (F : KernelFaults) (kernelId : Id20) (active : UInt32)
    (v : StoredVersion) : StoredVersion :=
  if v.id = kernelId ∧ F.record kernelId = false then { v with active } else v

/-- Both patches. -/
def StoredVersion.patch (F : KernelFaults) (kernelId : Id20) (active : UInt32)
    (v : StoredVersion) : StoredVersion :=
  (v.patchRow F kernelId active).patchRecord F kernelId active

@[simp] theorem StoredVersion.id_patchRow (F : KernelFaults) (kernelId : Id20) (active : UInt32)
    (v : StoredVersion) : (v.patchRow F kernelId active).id = v.id := by
  unfold StoredVersion.patchRow
  split
  · rfl
  · rfl

@[simp] theorem StoredVersion.row_patchRecord (F : KernelFaults) (kernelId : Id20)
    (active : UInt32) (v : StoredVersion) : (v.patchRecord F kernelId active).row = v.row := by
  unfold StoredVersion.patchRecord
  split
  · rfl
  · rfl

@[simp] theorem StoredVersion.id_patch (F : KernelFaults) (kernelId : Id20) (active : UInt32)
    (v : StoredVersion) : (v.patch F kernelId active).id = v.id := by
  rw [StoredVersion.patch, StoredVersion.id, StoredVersion.row_patchRecord]
  exact v.id_patchRow F kernelId active

/-- What the patches make of their version. -/
theorem StoredVersion.patch_self (F : KernelFaults) (v : StoredVersion) (active : UInt32) :
    v.patch F v.id active =
      { v with
        row := { v.row with active := if F.row v.id then v.row.active else active }
        active := if F.record v.id then v.active else active } := by
  have hrow : v.patchRow F v.id active =
      { v with row := { v.row with active := if F.row v.id then v.row.active else active } } := by
    unfold StoredVersion.patchRow
    cases F.row v.id
    · exact if_pos ⟨rfl, rfl⟩
    · exact if_neg fun h => Bool.noConfusion h.2
  rw [StoredVersion.patch, hrow]
  unfold StoredVersion.patchRecord
  cases F.record v.id
  · exact if_pos ⟨rfl, rfl⟩
  · exact if_neg fun h => Bool.noConfusion h.2

/-- The patches leave other versions alone. -/
theorem StoredVersion.patch_of_ne {kernelId : Id20} {v : StoredVersion} (h : v.id ≠ kernelId)
    (active : UInt32) : v.patch F kernelId active = v := by
  have hrow : v.patchRow F kernelId active = v := if_neg fun hv => h hv.1
  rw [StoredVersion.patch, hrow]
  exact if_neg fun hv => h hv.1

/-- Flag and time of a row are no data of the library. -/
theorem RowOf.setActive {k : KernelInfo} {e : KernelEntry} (h : RowOf k e) (active : UInt32) :
    RowOf k { e with active } := ⟨h.inheritFrom, h.kernelName, h.kctrl, h.narg, h.nmetric⟩

theorem RowOf.setUtc {k : KernelInfo} {e : KernelEntry} (h : RowOf k e) (utcBits : UInt64) :
    RowOf k { e with utcBits } := ⟨h.inheritFrom, h.kernelName, h.kctrl, h.narg, h.nmetric⟩

/-- They are not shared with the record. -/
theorem StoredVersion.Fits.setActive {v : StoredVersion} {f : Bytes} (h : v.Fits f)
    (active : UInt32) : { v with row := { v.row with active } }.Fits f := by
  intro hcut
  obtain ⟨r, hf, hagree, hrest⟩ := h hcut
  exact ⟨r, hf, { hagree with }, hrest⟩

theorem StoredVersion.Fits.setUtc {v : StoredVersion} {f : Bytes} (h : v.Fits f)
    (utcBits : UInt64) : { v with row := { v.row with utcBits } }.Fits f := by
  intro hcut
  obtain ⟨r, hf, hagree, hrest⟩ := h hcut
  exact ⟨r, hf, { hagree with }, hrest⟩

/-- The row of a version is not there. -/
theorem VersionStore.entryPatch_none (h : VersionStore lib ws log) {kernelId : Id20}
    (hnone : kernelId ∉ log.map StoredVersion.id) (off : ℕ) (field : Bytes) :
    patchKernelEntry kernelId off field ws = .error (.code .rafL3Kernel .listNotFound) ws := by
  have hfind : (log.map StoredVersion.row).findIdx? (·.kernelId = kernelId) = none := by
    rw [List.findIdx?_eq_none_iff]
    intro e he
    refine decide_eq_false ?_
    rintro rfl
    rw [← map_kernelId_row] at hnone
    exact hnone (List.mem_map_of_mem he)
  refine bind_then (orFail_eq_ok.mpr h.list) ?_
  simp only [hfind]
  rfl

/-- **The patch of a field of a row.** Where the version is not listed, or the patch fails,
nothing changes. -/
theorem VersionStore.entryPatch (h : VersionStore lib ws log) (fails : Bool) {kernelId : Id20}
    {off : ℕ} {field : Bytes} {u : KernelEntry → KernelEntry} (hlen : off + field.length ≤ 264)
    (hu : ∀ e, pwrite (kernelRow.encode e).toList off field = (kernelRow.encode (u e)).toList)
    (hkey : ∀ e, (u e).kernelId = e.kernelId)
    (hfits : ∀ (v : StoredVersion) f, v.Fits f → { v with row := u v.row }.Fits f)
    (hof : ∀ k e, RowOf k e → RowOf k (u e)) :
    ∃ ws', ignoring (failsIf fails (patchKernelEntry kernelId off field)) ws = .ok () ws' ∧
      VersionStore lib ws' (log.map fun v =>
        if v.id = kernelId ∧ fails = false then { v with row := u v.row } else v) := by
  cases fails with
  | true =>
      refine ⟨ws, ignoring_failsIf _ _, h.same fun v _ => if_neg ?_⟩
      rintro ⟨-, hno⟩
      cases hno
  | false =>
      rw [failsIf_false]
      by_cases hmem : kernelId ∈ log.map StoredVersion.id
      · set g : StoredVersion → StoredVersion := fun v =>
          if v.id = kernelId ∧ false = false then { v with row := u v.row } else v with hg
        have hdistinct : ((log.map StoredVersion.row).map KernelEntry.kernelId).Nodup := by
          rw [map_kernelId_row]
          exact h.paired.distinct
        obtain ⟨e, he, hid⟩ := List.mem_map.mp ((map_kernelId_row log).symm ▸ hmem)
        have hcount : (log.map StoredVersion.row).length ≤ intMax := by
          rw [List.length_map]
          exact h.count
        have hrows : (log.map StoredVersion.row).map
            (fun e => if e.kernelId = kernelId then u e else e) =
              (log.map g).map StoredVersion.row := by
          rw [List.map_map, List.map_map]
          refine List.map_congr_left fun v _ => ?_
          by_cases hv : v.id = kernelId
          · have hgv : g v = { v with row := u v.row } := if_pos ⟨hv, rfl⟩
            rw [Function.comp_apply, Function.comp_apply, hgv]
            exact if_pos hv
          · have hgv : g v = v := if_neg fun hv' => hv hv'.1
            rw [Function.comp_apply, Function.comp_apply, hgv]
            exact if_neg hv
        have hpatch := patchKernelEntry_ok (h.table.file_of_mem he) hlen hu hcount ⟨e, he, hid⟩
        rw [modifyFirst, Paired.modify_findIdx_eq_map hdistinct, hrows] at hpatch
        refine ⟨_, ignoring_ok hpatch, h.setTable (g := g) ?_ ?_ ?_⟩
        · intro v
          simp only [hg]
          split
          · exact hkey v.row
          · rfl
        · intro v f hv
          simp only [hg]
          split
          · exact hfits v f hv
          · exact hv
        · intro v hv
          simp only [hg]
          split
          · exact hof _ _ hv
          · exact hv
      · refine ⟨ws, ignoring_code (h.entryPatch_none hmem off field), h.same fun v hv => if_neg ?_⟩
        rintro ⟨rfl, -⟩
        exact hmem (List.mem_map_of_mem hv)

/-- The flag of the row. -/
theorem VersionStore.patchRow (h : VersionStore lib ws log) (F : KernelFaults) (kernelId : Id20)
    (active : UInt32) :
    ∃ ws', ignoring (failsIf (F.row kernelId) (tpbRafEntryPatchKernelActive kernelId active)) ws =
        .ok () ws' ∧ VersionStore lib ws' (log.map (StoredVersion.patchRow F kernelId active)) :=
  h.entryPatch (F.row kernelId) (u := ({ · with active })) (by rw [length_u32]; decide)
    (fun e => e.pwrite_active active) (fun _ => rfl) (fun _ _ hv => hv.setActive active)
    fun _ _ he => he.setActive active

/-- The flag of the record. -/
theorem VersionStore.patchRecord (h : VersionStore lib ws log) (F : KernelFaults)
    (kernelId : Id20) (active : UInt32) :
    ∃ ws', ignoring (failsIf (F.record kernelId)
        (tpbRafRecordPatchKernelActive kernelId active)) ws = .ok () ws' ∧
      VersionStore lib ws' (log.map (StoredVersion.patchRecord F kernelId active)) := by
  cases hfails : F.record kernelId with
  | true =>
      refine ⟨ws, ignoring_failsIf _ _, h.same fun v _ => if_neg ?_⟩
      rw [hfails]
      rintro ⟨-, hno⟩
      cases hno
  | false =>
      rw [failsIf_false]
      cases hfile : ws.files (.record .kernel kernelId) with
      | none =>
          have herr : tpbRafRecordPatchKernelActive kernelId active ws =
              .error (.code .rafL3Kernel .fileIoFail) ws := by
            simp only [tpbRafRecordPatchKernelActive, fopenUpdate, hfile]
          refine ⟨ws, ignoring_code herr, h.same fun v hv => if_neg ?_⟩
          rintro ⟨rfl, -⟩
          obtain ⟨f, hf, -⟩ := h.paired.paired v hv
          rw [HoldsKernel, hfile] at hf
          cases hf
      | some f =>
          refine ⟨_, ignoring_ok (tpbRafRecordPatchKernelActive_file hfile active),
            h.setRecord ((h.files _ f hfile).patch active)
              (StoredVersion.row_patchRecord F kernelId active)
              (fun v hv => if_neg fun hv' => hv hv'.1) ?_⟩
          rintro v hv rfl hcut
          obtain ⟨f₀, hf₀, hv₀⟩ := h.paired.paired v hv
          rw [HoldsKernel, hfile] at hf₀
          cases hf₀
          have hpatched : v.patchRecord F v.id active = { v with active } := if_pos ⟨rfl, hfails⟩
          rw [hpatched] at hcut ⊢
          obtain ⟨r, rfl, hagree, -, hutc⟩ := hv₀ hcut
          exact ⟨_, pwrite_kernel_active r active, { hagree with }, rfl, hutc⟩

/-- **The flag of a version**: both patches, of which each may fail. -/
theorem VersionStore.patch (h : VersionStore lib ws log) (F : KernelFaults) (kernelId : Id20)
    (active : UInt32) :
    ∃ ws', patchKernelActive F kernelId active ws = .ok () ws' ∧
      VersionStore lib ws' (log.map (StoredVersion.patch F kernelId active)) := by
  obtain ⟨ws₁, hrow, h₁⟩ := h.patchRow F kernelId active
  obtain ⟨ws₂, hrecord, h₂⟩ := h₁.patchRecord F kernelId active
  rw [List.map_map] at h₂
  exact ⟨ws₂, bind_then hrow hrecord, h₂⟩

/-! ### The flags of the other versions -/

/-- The version without its flag, if it has the name and is not the one that is skipped. -/
def StoredVersion.deactivate (F : KernelFaults) (kernelName : Bytes) (skipId : Id20)
    (v : StoredVersion) : StoredVersion :=
  if F.list = false ∧ cstr v.row.kernelName.toList = kernelName ∧ v.id ≠ skipId then
    v.patch F v.id 0
  else v

@[simp] theorem StoredVersion.id_deactivate (F : KernelFaults) (kernelName : Bytes)
    (skipId : Id20) (v : StoredVersion) : (v.deactivate F kernelName skipId).id = v.id := by
  unfold StoredVersion.deactivate
  split
  · exact v.id_patch F v.id 0
  · rfl

/-- The version without its flag, if it is one of these. -/
def StoredVersion.clearIn (F : KernelFaults) (kernelIds : List Id20) (v : StoredVersion) :
    StoredVersion :=
  if v.id ∈ kernelIds then v.patch F v.id 0 else v

/-- The versions that the loop deactivates. -/
def deactivatedIds (kernelName : Bytes) (skipId : Id20) (entries : List KernelEntry) :
    List Id20 :=
  (entries.filter fun e => cstr e.kernelName.toList = kernelName ∧ e.kernelId ≠ skipId).map
    KernelEntry.kernelId

/-- Patches that are made twice. -/
theorem StoredVersion.patch_patch (F : KernelFaults) (v : StoredVersion) (active : UInt32) :
    (v.patch F v.id active).patch F v.id active = v.patch F v.id active := by
  have hself := (v.patch F v.id active).patch_self F active
  rw [StoredVersion.id_patch] at hself
  rw [hself, StoredVersion.patch_self]
  cases F.row v.id
  · cases F.record v.id
    · rfl
    · rfl
  · cases F.record v.id
    · rfl
    · rfl

/-- The loop clears the flags of the versions that it does not pass over, one after the
other. -/
theorem VersionStore.deactivateLoop (F : KernelFaults) (kernelName : Bytes) (skipId : Id20)
    (entries : List KernelEntry) (h : VersionStore lib ws log) :
    ∃ ws', deactivateLoop F kernelName (some skipId) entries ws = .ok () ws' ∧
      VersionStore lib ws'
        (log.map (StoredVersion.clearIn F (deactivatedIds kernelName skipId entries))) := by
  induction entries generalizing ws log with
  | nil => exact ⟨ws, rfl, h.same fun v _ => if_neg List.not_mem_nil⟩
  | cons e es ih =>
      by_cases hmatch : cstr e.kernelName.toList = kernelName ∧ e.kernelId ≠ skipId
      · obtain ⟨ws₁, hset, h₁⟩ := h.patch F e.kernelId 0
        obtain ⟨ws₂, hloop, h₂⟩ := ih h₁
        refine ⟨ws₂, ?_, ?_⟩
        · have hskip : ¬some skipId = some e.kernelId := fun hid =>
            hmatch.2 (Option.some.inj hid).symm
          rw [TPBench.deactivateLoop, if_neg (not_not.mpr hmatch.1), if_neg hskip]
          exact bind_then hset hloop
        · have hids : deactivatedIds kernelName skipId (e :: es) =
              e.kernelId :: deactivatedIds kernelName skipId es := by
            simp [deactivatedIds, hmatch]
          have hclear : ∀ v ∈ log, (v.patch F e.kernelId 0).clearIn F
              (deactivatedIds kernelName skipId es) =
                v.clearIn F (deactivatedIds kernelName skipId (e :: es)) := by
            intro v _
            rw [hids, StoredVersion.clearIn, StoredVersion.clearIn, StoredVersion.id_patch]
            by_cases hv : v.id = e.kernelId
            · rw [← hv, StoredVersion.patch_patch, ite_self, if_pos (List.mem_cons_self ..)]
            · rw [StoredVersion.patch_of_ne hv]
              refine if_congr ?_ rfl rfl
              rw [List.mem_cons]
              exact (or_iff_right hv).symm
          rw [List.map_map] at h₂
          rw [← List.map_congr_left hclear]
          exact h₂
      · obtain ⟨ws₁, hloop, h₁⟩ := ih h
        refine ⟨ws₁, ?_, ?_⟩
        · rw [TPBench.deactivateLoop]
          by_cases hname : cstr e.kernelName.toList = kernelName
          · have hid : e.kernelId = skipId := by
              by_contra hne
              exact hmatch ⟨hname, hne⟩
            rw [if_neg (not_not.mpr hname), if_pos (by rw [hid])]
            exact hloop
          · rw [if_pos hname]
            exact hloop
        · have hids : deactivatedIds kernelName skipId (e :: es) =
              deactivatedIds kernelName skipId es := by
            simp only [deactivatedIds, List.filter_cons, decide_eq_true_eq, if_neg hmatch]
          rw [hids]
          exact h₁

/-- **The flags of the other versions** of a name are cleared, unless a patch or the listing
fails. -/
theorem VersionStore.deactivate (h : VersionStore lib ws log) (F : KernelFaults)
    (kernelName : Bytes) (skipId : Id20) :
    ∃ ws', ignoring (tpbRafKernelDeactivateSameName F kernelName (some skipId)) ws = .ok () ws' ∧
      VersionStore lib ws' (log.map (StoredVersion.deactivate F kernelName skipId)) := by
  cases hlist : F.list with
  | true =>
      have hfails : tpbRafKernelDeactivateSameName F kernelName (some skipId) ws =
          .error (.code .rafL3Kernel .fileIoFail) ws := by
        rw [tpbRafKernelDeactivateSameName, hlist]
        rfl
      refine ⟨ws, ignoring_code hfails, h.same fun v _ => if_neg ?_⟩
      rw [hlist]
      rintro ⟨hno, -⟩
      cases hno
  | false =>
      obtain ⟨ws', hloop, h'⟩ :=
        h.deactivateLoop F kernelName skipId (log.map StoredVersion.row)
      have hrun : tpbRafKernelDeactivateSameName F kernelName (some skipId) ws = .ok () ws' := by
        rw [tpbRafKernelDeactivateSameName, hlist]
        exact bind_then (propagate_eq_ok.mpr h.list) hloop
      refine ⟨ws', ignoring_ok hrun, ?_⟩
      have hclear : ∀ v ∈ log, v.clearIn F (deactivatedIds kernelName skipId
          (log.map StoredVersion.row)) = v.deactivate F kernelName skipId := by
        intro v hv
        have hmem : v.id ∈ deactivatedIds kernelName skipId (log.map StoredVersion.row) ↔
            F.list = false ∧ cstr v.row.kernelName.toList = kernelName ∧ v.id ≠ skipId := by
          constructor
          · intro hid
            obtain ⟨e, he, hid⟩ := List.mem_map.mp hid
            obtain ⟨he, hmatch⟩ := List.mem_filter.mp he
            obtain ⟨d, hd, rfl⟩ := List.mem_map.mp he
            obtain rfl := h.paired.eq_of_key hd hv hid
            exact ⟨hlist, of_decide_eq_true hmatch⟩
          · rintro ⟨-, hmatch⟩
            exact List.mem_map_of_mem (List.mem_filter.mpr
              ⟨List.mem_map_of_mem hv, decide_eq_true hmatch⟩)
        exact if_congr hmem rfl rfl
      rw [← List.map_congr_left hclear]
      exact h'

/-! ### A record is written -/

/-- How a write of a record ends, and what it leaves. -/
def KernelFaults.outcome (F : KernelFaults) (kernelId : Id20) (f : Bytes) : WsM Unit := fun ws =>
  match F.write with
  | none => .ok () (ws.set (.record .kernel kernelId) f)
  | some .unopened => .error (.code .rafL2Kernel .fileIoFail) ws
  | some (.behind n) =>
      .error (.code .rafL2Kernel .fileIoFail) (ws.set (.record .kernel kernelId) (f.take n))

theorem recordWriteKernel_eq (F : KernelFaults) (a : KernelAttr) (headers : List MetaHeader)
    (data : Option Bytes) (datasize : UInt64) :
    recordWriteKernel F a headers data datasize =
      F.outcome a.kernelId (recordBytes kernelFormat a headers data datasize) := by
  funext ws
  unfold recordWriteKernel KernelFaults.outcome
  rcases F.write with - | - | n
  · rfl
  · rfl
  · rfl

/-- The version behind a write of its record. -/
def StoredVersion.written (F : KernelFaults) (kernelId : Id20) (buildUtc : UInt64)
    (v : StoredVersion) : StoredVersion :=
  if v.id = kernelId then
    match F.write with
    | none => { v with active := 1, utcBits := buildUtc, cut := false }
    | some .unopened => v
    | some (.behind _) => { v with cut := true }
  else v

@[simp] theorem StoredVersion.row_written (F : KernelFaults) (kernelId : Id20)
    (buildUtc : UInt64) (v : StoredVersion) : (v.written F kernelId buildUtc).row = v.row := by
  unfold StoredVersion.written
  split
  · split
    · rfl
    · rfl
    · rfl
  · rfl

/-- The record of a version, as it is made from its library. -/
theorem exists_registered {k : KernelInfo} (hk : Library k) (kernelId : Id20)
    (buildUtc : UInt64) : ∃ r : Record kernelFormat,
      r.attr = { kernelBuildAttr k kernelId (UInt32.ofNat k.args.length)
        (UInt32.ofNat k.outs.length) with utcBits := buildUtc } ∧
      ∀ F, writeRegistered F k kernelId buildUtc = F.outcome kernelId r.bytes := by
  obtain ⟨b, hbuild, hheaders, hdata, hsize, hnheader⟩ :=
    build_eq_ok hk.toRecordable kernelId hk.countable
  have hattr : b.attr = kernelBuildAttr k kernelId (UInt32.ofNat k.args.length)
      (UInt32.ofNat k.outs.length) := by
    have hcopy := hbuild
    unfold tpbRafKernelBuildRegisteredAttr at hcopy
    dsimp only at hcopy
    split at hcopy
    · cases hcopy
    · split at hcopy
      · cases hcopy
      · split at hcopy
        · cases hcopy
        · cases hcopy
          rfl
  have hndim : ∀ h ∈ b.headers, h.ndim.toNat ≤ ndimMax := by
    intro h hh
    rw [hheaders, kernelBuildHeaders_eq hk.name_length] at hh
    have hone : h.ndim = 1 := by
      rcases List.mem_append.mp hh with hh | hh
      · rcases List.mem_append.mp hh with hh | hh
        · obtain ⟨a, -, rfl⟩ := List.mem_map.mp hh
          rfl
        · obtain ⟨o, -, rfl⟩ := List.mem_map.mp hh
          rfl
      · obtain ⟨name, -, rfl⟩ := List.mem_map.mp hh
        rfl
    rw [hone]
    decide
  let r : Record kernelFormat := {
    attr := { b.attr with utcBits := buildUtc }
    headers := b.headers
    buf := some b.data
    nheader_eq := by
      change b.headers.length = b.attr.nheader.toNat
      rw [hnheader, hheaders, kernelBuildHeaders_eq hk.name_length]
      simp [textHeaders, gMetaHdrNames]
      omega
    ndim_le := hndim
    data_lt := by
      rw [Option.getD_some, ← hsize]
      exact b.datasize.toNat_lt }
  refine ⟨r, by rw [← hattr], fun F => ?_⟩
  have hdatasize : b.datasize = r.datasize := by
    rw [← UInt64.toNat_inj, r.toNat_datasize]
    exact hsize
  have hid : b.attr.kernelId = kernelId := by
    rw [hattr]
    rfl
  funext ws
  refine bind_then (m := liftExcept _) (by rw [hbuild]; rfl) ?_
  rw [recordWriteKernel_eq, hdatasize]
  change F.outcome b.attr.kernelId r.bytes ws = _
  rw [hid]

/-- A row with the data of a library agrees with the record that is made from it. -/
theorem kernelAgree_registered {k : KernelInfo} (hk : Library k) {e : KernelEntry}
    (he : RowOf k e) {r : Record kernelFormat} {buildUtc : UInt64}
    (hr : r.attr = { kernelBuildAttr k e.kernelId (UInt32.ofNat k.args.length)
      (UInt32.ofNat k.outs.length) with utcBits := buildUtc }) :
    KernelAgree e r := by
  have hname : e.kernelName = snprintfS 64 r.attr.kernelName.toList := by
    have hcstr : cstr (snprintfS 256 k.name).toList = k.name :=
      cstr_snprintfS hk.name_plain hk.name_length
    rw [he.kernelName, hr]
    change _ = snprintfS 64 (snprintfS 256 k.name).toList
    rw [snprintfS, snprintfS, hcstr, cstr_of_not_mem hk.name_plain]
  refine ⟨?_, ?_, hname, ?_, ?_, ?_, ?_⟩
  · rw [hr]
    rfl
  · rw [he.inheritFrom, hr]
    rfl
  · rw [he.kctrl, hr]
    rfl
  · rw [he.narg, hr]
    rfl
  · rw [he.nmetric, hr]
    rfl
  · rw [hr]
    rfl

/-- The row of a new version has the data of its library. -/
theorem rowOf_kernelEntryOf (k : KernelInfo) (kernelId : Id20) (buildUtc : UInt64) :
    RowOf k (kernelEntryOf k.name kernelId k buildUtc) :=
  ⟨rfl, rfl, rfl, rfl, rfl⟩

/-- **The record of a version is written**, listed or not. When the write succeeds, the record
is that of the library. -/
theorem VersionStore.write (h : VersionStore lib ws log) (F : KernelFaults) {kernelId : Id20}
    (hk : Library (lib kernelId)) (buildUtc : UInt64) :
    ∃ ws', (writeRegistered F (lib kernelId) kernelId buildUtc ws =
        if F.write = none then .ok () ws'
        else .error (.code .rafL2Kernel .fileIoFail) ws') ∧
      VersionStore lib ws' (log.map (StoredVersion.written F kernelId buildUtc)) ∧
      (F.write = none → ∃ r : Record kernelFormat, HoldsKernel ws' kernelId r.bytes ∧
        r.attr = { kernelBuildAttr (lib kernelId) kernelId
          (UInt32.ofNat (lib kernelId).args.length)
          (UInt32.ofNat (lib kernelId).outs.length) with utcBits := buildUtc }) := by
  obtain ⟨r, hattr, hwrite⟩ := exists_registered hk kernelId buildUtc
  have hid : r.attr.kernelId = kernelId := by
    rw [hattr]
    rfl
  have hzero : r.attr.deriveTo = zeroArr 20 := by
    rw [hattr]
    rfl
  have hother : ∀ v : StoredVersion, v.id ≠ kernelId → v.written F kernelId buildUtc = v :=
    fun v hv => if_neg hv
  have hself : ∀ v : StoredVersion, v.id = kernelId → v.written F kernelId buildUtc =
      match F.write with
      | none => { v with active := 1, utcBits := buildUtc, cut := false }
      | some .unopened => v
      | some (.behind _) => { v with cut := true } :=
    fun v hv => if_pos hv
  rw [hwrite, KernelFaults.outcome]
  rcases hfault : F.write with - | - | n
  · refine ⟨_, rfl, h.setRecord (.inl ⟨r, rfl, hid, hzero⟩)
      (StoredVersion.row_written F kernelId buildUtc) hother ?_, fun _ =>
        ⟨r, Workspace.set_files_same _ _ _, hattr⟩⟩
    rintro v hv rfl -
    rw [hself v rfl, hfault]
    exact ⟨r, rfl, kernelAgree_registered hk (h.ofLib v hv) hattr, by rw [hattr]; rfl,
      by rw [hattr]⟩
  · refine ⟨ws, rfl, h.same fun v _ => ?_, fun hno => by cases hno⟩
    by_cases hv : v.id = kernelId
    · rw [hself v hv, hfault]
    · exact hother v hv
  · refine ⟨_, rfl, h.setRecord (kernelFile_take hid hzero n)
      (StoredVersion.row_written F kernelId buildUtc) hother ?_, fun hno => by cases hno⟩
    intro v _ hv hcut
    rw [hself v hv, hfault] at hcut
    cases hcut

/-- **A new version**: the row is appended behind the write of the record. -/
theorem VersionStore.append (h : VersionStore lib ws log) {kernelId : Id20}
    (hnew : kernelId ∉ log.map StoredVersion.id) (hk : Library (lib kernelId))
    (hcount : log.length + 1 ≤ intMax) {r : Record kernelFormat} {buildUtc : UInt64}
    (hrecord : HoldsKernel ws kernelId r.bytes)
    (hattr : r.attr = { kernelBuildAttr (lib kernelId) kernelId
      (UInt32.ofNat (lib kernelId).args.length)
      (UInt32.ofNat (lib kernelId).outs.length) with utcBits := buildUtc }) :
    ∃ ws', tpbRafEntryAppendKernel
        (kernelEntryOf (lib kernelId).name kernelId (lib kernelId) buildUtc) ws = .ok () ws' ∧
      VersionStore lib ws' (log ++
        [.new (kernelEntryOf (lib kernelId).name kernelId (lib kernelId) buildUtc)]) := by
  set e := kernelEntryOf (lib kernelId).name kernelId (lib kernelId) buildUtc with he
  have hrowOf : RowOf (lib kernelId) e := rowOf_kernelEntryOf _ _ _
  have hkeep : ∀ x f, HoldsKernel (ws.set (.entry .kernel)
      (kernelRow.table (log.map StoredVersion.row ++ [e]))) x f ↔ HoldsKernel ws x f := by
    intro x f
    rw [HoldsKernel, Workspace.set_files_of_ne _ _ (by simp), HoldsKernel]
  refine ⟨_, entryAppendRow_ok h.table e, ?_, ?_, ?_, ?_, ?_⟩
  · refine .inl ?_
    rw [List.map_append]
    exact Workspace.set_files_same _ _ _
  · rwa [List.length_append, List.length_singleton]
  · refine h.paired.concat (e := .new e) (a := r.bytes) hnew
      (fun v _ f hf => (hkeep _ _).mpr hf) ((hkeep _ _).mpr hrecord) fun _ => ?_
    exact ⟨r, rfl, kernelAgree_registered hk hrowOf hattr, by rw [hattr]; rfl, by rw [hattr]; rfl⟩
  · intro v hv
    rcases List.mem_append.mp hv with hv | hv
    · exact h.ofLib v hv
    · rw [List.mem_singleton.mp hv]
      exact hrowOf
  · intro x f hf
    exact h.files x f ((hkeep x f).mp hf)

/-! ### A version is recorded anew -/

/-- The patch of the time of the row. -/
def StoredVersion.patchUtc (F : KernelFaults) (kernelId : Id20) (buildUtc : UInt64)
    (v : StoredVersion) : StoredVersion :=
  if v.id = kernelId ∧ F.utc = false then
    { v with row := { v.row with utcBits := buildUtc } }
  else v

/-- The version behind the case that records a listed version anew. -/
def StoredVersion.override (F : KernelFaults) (kernelName : Bytes) (kernelId : Id20)
    (buildUtc : UInt64) (v : StoredVersion) : StoredVersion :=
  if F.write = none then
    (((v.written F kernelId buildUtc).deactivate F kernelName kernelId).patch F kernelId 1).patchUtc
      F kernelId buildUtc
  else v.written F kernelId buildUtc

/-- What the patch of the time makes of its version. -/
theorem StoredVersion.patchUtc_self (F : KernelFaults) (v : StoredVersion) (buildUtc : UInt64) :
    v.patchUtc F v.id buildUtc =
      { v with row := { v.row with utcBits := if F.utc then v.row.utcBits else buildUtc } } := by
  unfold StoredVersion.patchUtc
  cases F.utc
  · exact if_pos ⟨rfl, rfl⟩
  · exact if_neg fun h => Bool.noConfusion h.2

/-- A version whose record was written anew. -/
theorem StoredVersion.override_self (F : KernelFaults) (kernelName : Bytes) (buildUtc : UInt64)
    (v : StoredVersion) (hfault : F.write = none) :
    v.override F kernelName v.id buildUtc =
      { row := { v.row with
          active := if F.row v.id then v.row.active else 1
          utcBits := if F.utc then v.row.utcBits else buildUtc }
        active := 1
        utcBits := buildUtc
        cut := false } := by
  have hwritten : v.written F v.id buildUtc =
      { v with active := 1, utcBits := buildUtc, cut := false } := by
    rw [StoredVersion.written, if_pos rfl, hfault]
  set w : StoredVersion := { v with active := 1, utcBits := buildUtc, cut := false }
  have hskip : w.deactivate F kernelName v.id = w := if_neg fun h => h.2.2 rfl
  have hpatch : w.patch F v.id 1 = _ := w.patch_self F 1
  rw [StoredVersion.override, if_pos hfault, hwritten, hskip, hpatch]
  refine (StoredVersion.patchUtc_self F _ buildUtc).trans ?_
  have hactive : (if F.record v.id then w.active else 1) = 1 := ite_self 1
  exact congrArg (fun active => (⟨_, active, _, _⟩ : StoredVersion)) hactive

/-- The other versions. -/
theorem StoredVersion.override_of_ne {F : KernelFaults} {kernelId : Id20} {v : StoredVersion}
    (hid : v.id ≠ kernelId) (kernelName : Bytes) (buildUtc : UInt64) :
    v.override F kernelName kernelId buildUtc =
      if F.write = none then v.deactivate F kernelName kernelId else v := by
  have hwritten : v.written F kernelId buildUtc = v := if_neg hid
  have hdeact := v.id_deactivate F kernelName kernelId
  have hne : (v.deactivate F kernelName kernelId).id ≠ kernelId := by rwa [hdeact]
  have hutc : (v.deactivate F kernelName kernelId).patchUtc F kernelId buildUtc =
      v.deactivate F kernelName kernelId := if_neg fun h => hne h.1
  rw [StoredVersion.override, hwritten, StoredVersion.patch_of_ne hne, hutc]

/-- The time of the row. -/
theorem VersionStore.patchUtc (h : VersionStore lib ws log) (F : KernelFaults) (kernelId : Id20)
    (buildUtc : UInt64) :
    ∃ ws', ignoring (failsIf F.utc (tpbRafEntryPatchKernelUtc kernelId buildUtc)) ws =
        .ok () ws' ∧ VersionStore lib ws' (log.map (StoredVersion.patchUtc F kernelId buildUtc)) :=
  h.entryPatch F.utc (u := ({ · with utcBits := buildUtc })) (by rw [length_u64]; decide)
    (fun e => e.pwrite_utcBits buildUtc) (fun _ => rfl) (fun _ _ hv => hv.setUtc buildUtc)
    fun _ _ he => he.setUtc buildUtc

/-- **A version is recorded anew**: the other versions of the name are not active any more, and
the version is active with the new time, but for what fails. -/
theorem VersionStore.override (h : VersionStore lib ws log) (F : KernelFaults) {kernelId : Id20}
    (hk : Library (lib kernelId)) (kernelName : Bytes) (buildUtc : UInt64) :
    ∃ ws', overrideVersion F kernelName kernelId (lib kernelId) buildUtc ws = .ok () ws' ∧
      VersionStore lib ws' (log.map (StoredVersion.override F kernelName kernelId buildUtc)) := by
  obtain ⟨ws₁, hwrite, h₁, -⟩ := h.write F hk buildUtc
  by_cases hfault : F.write = none
  · rw [if_pos hfault] at hwrite
    obtain ⟨ws₂, hdeact, h₂⟩ := h₁.deactivate F kernelName kernelId
    obtain ⟨ws₃, hset, h₃⟩ := h₂.patch F kernelId 1
    obtain ⟨ws₄, hutc, h₄⟩ := h₃.patchUtc F kernelId buildUtc
    refine ⟨ws₄, bind_then (attempt_ok hwrite) (bind_then hdeact (bind_then hset hutc)), ?_⟩
    rw [List.map_map, List.map_map, List.map_map] at h₄
    rwa [show StoredVersion.override F kernelName kernelId buildUtc = _ from
      funext fun v => if_pos hfault]
  · rw [if_neg hfault] at hwrite
    refine ⟨ws₁, bind_then (attempt_code hwrite) rfl, ?_⟩
    rwa [show StoredVersion.override F kernelName kernelId buildUtc = _ from
      funext fun v => if_neg hfault]

/-! ### The chain of duplicates -/

/-- What the reader makes of the file of a version: a record from which nothing was derived, or
an error. -/
theorem KernelFile.read {kernelId : Id20} {f : Bytes} (hfile : KernelFile kernelId f)
    (hf : HoldsKernel ws kernelId f) :
    (∃ r : Record kernelFormat, f = r.bytes ∧ r.attr.kernelId = kernelId ∧
        r.attr.deriveTo = zeroArr 20 ∧ tpbRafRecordReadKernel kernelId true ws = .ok r.view ws) ∨
      ∃ mod cause, tpbRafRecordReadKernel kernelId true ws = .error (.code mod cause) ws := by
  rcases hfile with ⟨r, rfl, hid, hzero⟩ | hcut
  · exact .inl ⟨r, rfl, hid, hzero, recordRead_of_bytes hf⟩
  · obtain ⟨e, s, hread, hne⟩ := hcut.read
    have herr : tpbRafRecordReadKernel kernelId true ws =
        .error (Stop.toErr kernelFormat.mod e) ws := by
      have hfiles : ws.files (.record .kernel kernelId) = some f := hf
      simp only [tpbRafRecordReadKernel, recordRead, fopenRead, hfiles, hread]
    cases e with
    | fail => exact .inr ⟨_, _, herr⟩
    | noMemory => exact .inr ⟨_, _, herr⟩
    | undefined => exact absurd rfl hne

/-- Nothing is derived from a version, so that the chain ends where it starts. -/
theorem VersionStore.followDupChain (h : VersionStore lib ws log) {kernelId : Id20}
    (hmem : kernelId ∈ log.map StoredVersion.id) (hops : ℕ) :
    sfFollowKernelDupChain hops kernelId ws = .ok kernelId ws := by
  obtain ⟨v, hv, rfl⟩ := List.mem_map.mp hmem
  obtain ⟨f, hf, -⟩ := h.paired.paired v hv
  cases hops with
  | zero => rfl
  | succ hops =>
      obtain ⟨r, -, -, hzero, hread⟩ | ⟨mod, cause, hread⟩ := (h.files _ f hf).read hf
      · refine bind_then (attempt_ok hread) ?_
        dsimp only
        rw [if_pos (.inl hzero)]
        rfl
      · exact bind_then (attempt_code hread) rfl

/-! ### The texts of a version -/

/-- The new payload has the length that the headers claim. -/
theorem length_copyBlocks {data text out : Bytes} {idx : ℕ} {before hs : List MetaHeader}
    (hsize : ∀ i h, hs[i]? = some h → before.length + i = idx →
      h.dataSize.toNat = text.length + 1)
    (h : copyBlocks data text idx before hs = some out) : out.length = claimed hs := by
  induction hs generalizing before out with
  | nil =>
      cases h
      rfl
  | cons hd hs ih =>
      simp only [copyBlocks, Option.bind_eq_bind, Option.bind_eq_some_iff] at h
      obtain ⟨block, hblock, rest, hrest, hout⟩ := h
      cases hout
      have hrestLen : rest.length = claimed hs := by
        refine ih (fun i x hx hi => hsize (i + 1) x (by simpa using hx) ?_) hrest
        rw [List.length_append, List.length_singleton] at hi
        omega
      have hblockLen : block.length = hd.dataSize.toNat := by
        unfold copyBlock at hblock
        split at hblock
        · rename_i hidx
          cases hblock
          rw [hsize 0 hd rfl hidx, List.length_append, List.length_singleton]
        · split at hblock
          · rename_i hzero
            cases hblock
            rw [hzero]
            rfl
          · split at hblock
            · rename_i hle
              cases hblock
              rw [pread, List.length_take, List.length_drop]
              omega
            · cases hblock
      rw [List.length_append, hblockLen, hrestLen, claimed_cons]

/-- The writing that ends the update fails before it writes, or it writes a record with the
attributes that were read. -/
theorem writeSectionOr_cases {v : RecordView KernelAttr} {idx : ℕ} {text : Bytes}
    (hcount : v.headers.length = v.attr.nheader.toNat)
    (hndim : ∀ h ∈ v.headers, h.ndim.toNat ≤ ndimMax) (htext : text.length + 1 < 2 ^ 64)
    (ws : Workspace) :
    (∃ e, writeSectionOr F v idx text ws = .error e ws) ∨
      ∃ r : Record kernelFormat, r.attr = v.attr ∧ writeSectionOr F v idx text ws =
        propagate .rafL3Kernel (F.outcome v.attr.kernelId r.bytes) ws := by
  set headers := v.headers.modify idx (·.withText text) with hheaders
  by_cases hclaimed : 2 ^ 63 ≤ claimed headers
  · exact .inl ⟨_, by rw [writeSectionOr, if_pos hclaimed]; rfl⟩
  rcases hcopy : copyBlocks v.data text idx [] headers with - | data
  · exact .inl ⟨_, by rw [writeSectionOr, if_neg hclaimed, hcopy]; rfl⟩
  have hlen : data.length = claimed headers := by
    refine length_copyBlocks (fun i h hi hidx => ?_) hcopy
    rw [List.length_nil, Nat.zero_add] at hidx
    rw [hidx, hheaders, List.getElem?_modify_eq] at hi
    obtain ⟨h₀, -, rfl⟩ := Option.map_eq_some_iff.mp hi
    exact toNat_dataSize_withText h₀ htext
  have hndim' : ∀ h ∈ headers, h.ndim.toNat ≤ ndimMax := by
    intro h hh
    obtain ⟨i, hi⟩ := List.getElem?_of_mem hh
    rw [hheaders, List.getElem?_modify] at hi
    obtain ⟨h₀, hh₀, rfl⟩ := Option.map_eq_some_iff.mp hi
    have hle := hndim h₀ (List.mem_of_getElem? hh₀)
    split
    · exact hle
    · exact hle
  let r : Record kernelFormat := {
    attr := v.attr
    headers := headers
    buf := some data
    nheader_eq := by
      rw [hheaders, List.length_modify]
      exact hcount
    ndim_le := hndim'
    data_lt := by
      rw [Option.getD_some, hlen]
      omega }
  refine .inr ⟨r, rfl, ?_⟩
  rw [writeSectionOr, if_neg hclaimed, hcopy]
  change propagate .rafL3Kernel (recordWriteKernel F v.attr headers (some data) _) ws = _
  rw [recordWriteKernel_eq, ← hlen]
  rfl

/-- The parts of the update in front of the writing read only. -/
theorem readsOnly_sfSplitMetaKey (fullKey : Bytes) : ReadsOnly (sfSplitMetaKey fullKey) :=
  .ite (readsOnly_tpbFail _ _) (.ite (readsOnly_tpbFail _ _) (readsOnly_pure _))

theorem readsOnly_sectionText (v : RecordView KernelAttr) (before : List MetaHeader)
    (h : MetaHeader) : ReadsOnly (sectionText v before h) := by
  refine .ite (readsOnly_tpbFail _ _) ?_
  split
  · exact fun _ => rfl
  · exact readsOnly_pure _

theorem readsOnly_kvSet (old key value : Bytes) : ReadsOnly (tpbRafKernelMetaKvSet old key value) :=
  .ite (readsOnly_tpbFail _ _) (readsOnly_pure _)

/-- The update behind the reading of the record. -/
theorem updateMetaKey_rest {v : RecordView KernelAttr} {key value : Bytes} {idx : Option ℕ}
    {r : EStateM.Result Err Workspace Unit}
    (h : (match idx with
      | none => tpbFail .rafL3Kernel .listNotFound
      | some idx =>
          match v.headers[idx]? with
          | none => undefinedCall
          | some h => do
              let old ← sectionText v (v.headers.take idx) h
              let text ← propagate .rafL3Kernel (tpbRafKernelMetaKvSet old key value)
              writeSectionOr F v idx text : WsM Unit) ws = r) :
    (∃ e, r = .error e ws) ∨ ∃ idx text, text.length + 1 < 2 ^ 64 ∧
      r = writeSectionOr F v idx text ws := by
  rcases idx with - | idx
  · exact .inl ⟨_, h.symm⟩
  dsimp only at h
  rcases hh : v.headers[idx]? with - | hd
  · rw [hh] at h
    exact .inl ⟨_, h.symm⟩
  rw [hh] at h
  dsimp only at h
  rcases hold : sectionText v (v.headers.take idx) hd ws with ⟨old, ws₁⟩ | ⟨e, ws₁⟩
  · obtain rfl := (readsOnly_sectionText _ _ _).of_ok hold
    rw [bind_ok hold] at h
    rcases hset : propagate .rafL3Kernel (tpbRafKernelMetaKvSet old key value) ws₁ with
      ⟨text, ws₂⟩ | ⟨e, ws₂⟩
    · obtain rfl := ((readsOnly_kvSet _ _ _).propagate _).of_ok hset
      rw [bind_ok hset] at h
      refine .inr ⟨idx, text, ?_, h.symm⟩
      have hkv := propagate_eq_ok.mp hset
      unfold tpbRafKernelMetaKvSet at hkv
      split at hkv
      · cases hkv
      · cases hkv
        have hlen := length_kvSetText_le old key value
        omega
    · obtain rfl := ((readsOnly_kvSet _ _ _).propagate _).of_error hset
      rw [bind_error hset] at h
      exact .inl ⟨e, h.symm⟩
  · obtain rfl := (readsOnly_sectionText _ _ _).of_error hold
    rw [bind_error hold] at h
    exact .inl ⟨e, h.symm⟩

/-- An update fails and changes nothing, or it has read the record and comes to the writing of
one with the same attributes. -/
theorem updateMetaKey_cases (F : KernelFaults) (kernelId : Id20) (fullKey value : Bytes)
    (ws : Workspace) :
    (∃ e, updateMetaKeyOr F kernelId fullKey value ws = .error e ws) ∨
      ∃ (v : RecordView KernelAttr) (r : Record kernelFormat),
        tpbRafRecordReadKernel kernelId true ws = .ok v ws ∧ r.attr = v.attr ∧
          updateMetaKeyOr F kernelId fullKey value ws =
            propagate .rafL3Kernel (F.outcome v.attr.kernelId r.bytes) ws := by
  unfold updateMetaKeyOr
  rcases hnames : propagate .rafL3Kernel (sfSplitMetaKey fullKey) ws with ⟨names, ws₁⟩ | ⟨e, ws₁⟩
  · obtain rfl := ((readsOnly_sfSplitMetaKey fullKey).propagate _).of_ok hnames
    rcases hread : propagate .rafL3Kernel (tpbRafRecordReadKernel kernelId true) ws₁ with
      ⟨v, ws₂⟩ | ⟨e, ws₂⟩
    · obtain rfl := ((readsOnly_fopenRead _ _ _).propagate _).of_ok hread
      rw [bind_ok hnames, bind_ok hread]
      rw [propagate_eq_ok] at hread
      obtain ⟨-, hcount, -, hheaders⟩ := norm_of_recordRead hread
      obtain ⟨e, herr⟩ | ⟨idx, text, htext, hrest⟩ :=
        @updateMetaKey_rest F ws₂ v names.2 value (tpbRafKernelFindHeader v.headers names.1) _ rfl
      · exact .inl ⟨e, herr⟩
      · obtain ⟨e, herr⟩ | ⟨r, hattr, hwrite⟩ :=
          @writeSectionOr_cases F v idx text hcount (fun x hx => (hheaders x hx).1) htext ws₂
        · exact .inl ⟨e, hrest.trans herr⟩
        · exact .inr ⟨v, r, hread, hattr, hrest.trans hwrite⟩
    · obtain rfl := ((readsOnly_fopenRead _ _ _).propagate _).of_error hread
      rw [bind_ok hnames, bind_error hread]
      exact .inl ⟨e, rfl⟩
  · obtain rfl := ((readsOnly_sfSplitMetaKey fullKey).propagate _).of_error hnames
    rw [bind_error hnames]
    exact .inl ⟨e, rfl⟩

/-- The version behind an update of its texts. -/
def StoredVersion.updated (F : KernelFaults) (kernelId : Id20) (v : StoredVersion) :
    StoredVersion :=
  if v.id = kernelId ∧ F.cuts = true then { v with cut := true } else v

theorem StoredVersion.row_updated (F : KernelFaults) (kernelId : Id20) (v : StoredVersion) :
    (v.updated F kernelId).row = v.row := by
  unfold StoredVersion.updated
  split
  · rfl
  · rfl

/-- Less is known of a record. -/
theorem StoredVersion.Fits.updated {v : StoredVersion} {f : Bytes} (h : v.Fits f)
    (F : KernelFaults) (kernelId : Id20) : (v.updated F kernelId).Fits f := by
  unfold StoredVersion.updated
  split
  · exact fun hno => Bool.noConfusion hno
  · exact h

theorem VersionStore.unknown (h : VersionStore lib ws log) (F : KernelFaults) (kernelId : Id20) :
    VersionStore lib ws (log.map (StoredVersion.updated F kernelId)) where
  table := by
    have hrows : (log.map (StoredVersion.updated F kernelId)).map StoredVersion.row =
        log.map StoredVersion.row := by
      rw [List.map_map]
      exact List.map_congr_left fun v _ => v.row_updated F kernelId
    rw [hrows]
    exact h.table
  count := by
    rw [List.length_map]
    exact h.count
  paired := h.paired.map (fun v => congrArg KernelEntry.kernelId (v.row_updated F kernelId))
    fun v _ f hf hv => ⟨f, hf, hv.updated F kernelId⟩
  ofLib := by
    intro v hv
    obtain ⟨v₀, hv₀, rfl⟩ := List.mem_map.mp hv
    rw [StoredVersion.id, v₀.row_updated]
    exact h.ofLib v₀ hv₀
  files := h.files

/-- **The texts of a version** are not part of the invariant. Only a write that is cut short
leaves a trace. -/
theorem VersionStore.updateMeta (h : VersionStore lib ws log) (F : KernelFaults)
    (kernelId : Id20) (fullKey value : Bytes) :
    VersionStore lib (after (updateMetaKeyOr F kernelId fullKey value ws))
      (log.map (StoredVersion.updated F kernelId)) := by
  obtain ⟨e, herr⟩ | ⟨view, r, hread, hattr, hwrite⟩ :=
    updateMetaKey_cases F kernelId fullKey value ws
  · rw [herr]
    exact h.unknown F kernelId
  -- what was read is the record of the version
  obtain ⟨-, f, -, hfile, -⟩ := fopenRead_eq_ok hread
  obtain ⟨r₀, hf, hid, hzero, hview⟩ | ⟨mod, cause, herr⟩ := (h.files kernelId f hfile).read hfile
  · rw [hview] at hread
    cases hread
    have hattr' : r.attr = r₀.attr := hattr
    have hpath : r₀.view.attr.kernelId = kernelId := hid
    have hother : ∀ v : StoredVersion, v.id ≠ kernelId → v.updated F kernelId = v :=
      fun v hv => if_neg fun hv' => hv hv'.1
    rw [hwrite, hpath]
    unfold propagate KernelFaults.outcome
    rcases hfault : F.write with - | - | n
    · refine h.setRecord (.inl ⟨r, rfl, by rw [hattr', hid], by rw [hattr', hzero]⟩)
        (fun v => v.row_updated F kernelId) hother ?_
      rintro v hv rfl
      refine StoredVersion.Fits.updated (fun hcut => ?_) F v.id
      obtain ⟨f₁, hf₁, hfits⟩ := h.paired.paired v hv
      obtain rfl : f = f₁ := Option.some.inj (hfile.symm.trans hf₁)
      obtain ⟨r₁, hr₁, hagree, hactive, hutc⟩ := hfits hcut
      have hsame : r.attr = r₁.attr := by
        have hread₁ : tpbRafRecordReadKernel v.id true ws = .ok r₁.view ws :=
          recordRead_of_bytes (hr₁ ▸ hfile)
        rw [hview] at hread₁
        injection hread₁ with hviews
        exact hattr'.trans (congrArg RecordView.attr hviews)
      exact ⟨r, rfl, ⟨hsame ▸ hagree.kernelId, hsame ▸ hagree.inheritFrom,
        hsame ▸ hagree.kernelName, hsame ▸ hagree.kctrl, hsame ▸ hagree.narg,
        hsame ▸ hagree.nmetric, hsame ▸ hagree.underived⟩, hsame ▸ hactive, hsame ▸ hutc⟩
    · exact h.unknown F kernelId
    · refine h.setRecord (kernelFile_take (by rw [hattr', hid]) (by rw [hattr', hzero]) n)
        (fun v => v.row_updated F kernelId) hother fun v _ hv hcut => ?_
      have hupdated : v.updated F kernelId = { v with cut := true } :=
        if_pos ⟨hv, by rw [KernelFaults.cuts, hfault]⟩
      rw [hupdated] at hcut
      cases hcut
  · rw [herr] at hread
    cases hread

end Store

end TPBench
