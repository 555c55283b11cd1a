import TPBench.Raf.Config
import TPBench.Raf.RtenvDerive

/-!
# Creating Runtime Environments

Two functions create runtime environments. `tpb_rtenv_snapshot_build_env` of the core
library records the environment of the process as a root entry, under a name it picks
itself. `tpbcli_rtenv_write_record` of the command line tool records the applications and
variables of a template, and registers the new environment with its parent. Both append a
row to the table and write a record whose headers name the variables one by one.

The variable part of the two records is the same, and described once (`varHeaders`,
`varPayload`). The attributes are written out for each function, because the two functions
do not set the same ones: the second leaves `derive_to` and `note` of the record zero.
-/

open CFile

namespace TPBench

/-! ### Headers and payload -/

/-- `"application"`. -/
def applicationName : Bytes :=
  ascii "application".toList

/-- The parts of the record of one variable. -/
inductive VarField
  | key
  | value
  | onSet
  | onGet
  deriving DecidableEq

/-- The word in front of the index in the name of a header. -/
def VarField.word : VarField → Bytes
  | key => ascii ['k', 'e', 'y']
  | value => ascii "value".toList
  | onSet => ascii "on_set".toList
  | onGet => ascii "on_get".toList

/-- `"key[%d]"` and its siblings. -/
def VarField.headerName (f : VarField) (i : ℕ) : Bytes :=
  f.word ++ ascii ['['] ++ formatD i ++ ascii [']']

/-- `TPB_STRING_T` for texts, `TPB_UINT32_T` for the two actions. -/
def VarField.typeBits : VarField → UInt32
  | key => 0x1000
  | value => 0x1000
  | onSet => 0x043d
  | onGet => 0x043d

/-- The one-dimensional header of a field of `size` bytes. -/
def fieldHeader (f : VarField) (i size : ℕ) : MetaHeader :=
  MetaHeader.setDim0 { MetaHeader.zero with
    blockSize := hdrFixedSize
    ndim := 1
    dataSize := UInt64.ofNat size
    typeBits := f.typeBits
    name := snprintfS 256 (f.headerName i) } (UInt64.ofNat size)

/-- The header of the application table. -/
def applicationHeader (napp : ℕ) : MetaHeader :=
  { MetaHeader.zero with
    blockSize := hdrFixedSize
    ndim := 3
    dataSize := UInt64.ofNat (napp * 3 * 64)
    typeBits := 0x1000
    name := snprintfS 256 applicationName
    dimsizes := fillVec 0 ndimMax [64, 3, UInt64.ofNat napp] }

/-- A variable: two strings, and what to do on setting and on getting it. -/
structure EnvVar where
  key : Bytes
  value : Bytes
  onSet : UInt32
  onGet : UInt32
  deriving DecidableEq

/-- The four headers of variable number `i`. -/
def varHeaders (v : EnvVar) (i : ℕ) : List MetaHeader :=
  [fieldHeader .key i (v.key.length + 1), fieldHeader .value i (v.value.length + 1),
    fieldHeader .onSet i 4, fieldHeader .onGet i 4]

/-- The payload of one variable. -/
def varPayload (v : EnvVar) : Bytes :=
  v.key ++ [0] ++ (v.value ++ [0]) ++ u32 v.onSet ++ u32 v.onGet

/-- The headers of a list of variables. -/
def varsHeaders (vars : List EnvVar) : List MetaHeader :=
  vars.zipIdx.flatMap fun v => varHeaders v.1 v.2

theorem length_varsHeaders (vars : List EnvVar) :
    (varsHeaders vars).length = 4 * vars.length := by
  simp [varsHeaders, List.length_flatMap, varHeaders, Nat.mul_comm]

theorem ndim_varsHeaders {vars : List EnvVar} {h : MetaHeader} (hh : h ∈ varsHeaders vars) :
    h.ndim = 1 := by
  obtain ⟨v, -, hv⟩ := List.mem_flatMap.mp hh
  simp only [varHeaders, List.mem_cons, List.not_mem_nil, or_false] at hv
  rcases hv with rfl | rfl | rfl | rfl <;> rfl

/-! ### The snapshot of the build environment -/

/-- What the snapshot reads of its process: the strings of `environ`, the host name (or
`localhost`) and the time. -/
structure SysEnv where
  environ : List Bytes
  hostname : Bytes
  utcBits : UInt64

/-- The test and the split the snapshot performs on a string of `environ`: the key is what
stands in front of the first `=`, and must not be empty. -/
def splitVar (e : Bytes) : Option EnvVar :=
  let s := cstr e
  let key := s.takeWhile (· ≠ 61)
  if key.length = s.length ∨ key = [] then none
  else some ⟨key, s.drop (key.length + 1), 0, 0⟩

/-- `TPB_RTENV_BUILD_NOTE`. -/
def buildNote : Bytes :=
  ascii "build-time environment snapshot".toList

/-- The row of a snapshot with `nenv` variables. -/
def snapshotEntry (sys : SysEnv) (id : Int32) (name : Bytes) (nenv : ℕ) : RtenvEntry :=
  { RtenvEntry.zero with
    id
    name := snprintfS 256 name
    hostname := snprintfS 256 sys.hostname
    utcBits := sys.utcBits
    inheritFrom := 0
    deriveTo := -1
    note := snprintfS 256 buildNote
    napp := 0
    nenv := UInt32.ofNat nenv }

/-- The attributes of the record of a snapshot. -/
def snapshotAttr (sys : SysEnv) (id : Int32) (name : Bytes) (nenv : ℕ) : RtenvAttr :=
  { RtenvAttr.zero with
    id
    name := snprintfS 256 name
    hostname := snprintfS 256 sys.hostname
    utcBits := sys.utcBits
    inheritFrom := 0
    deriveTo := -1
    note := snprintfS 256 buildNote
    napp := 0
    nenv := UInt32.ofNat nenv
    nheader := UInt32.ofNat (1 + nenv * 4) }

/-- `_sf_write_env_snapshot_record`. The number of headers is computed as an `int`; a
payload that no object can hold is not allocated. -/
def sfWriteEnvSnapshotRecord (sys : SysEnv) (id : Int32) (name : Bytes) : WsM Unit := do
  let vars := sys.environ.filterMap splitVar
  propagate .misc (tpbRafEntryAppendRtenv (snapshotEntry sys id name vars.length))
  if intMax < 1 + vars.length * 4 then undefinedCall else
  let payload := vars.flatMap varPayload
  if 2 ^ 63 ≤ payload.length then tpbFail .misc .mallocFail else
  propagate .misc (tpbRafRecordWriteRtenv (snapshotAttr sys id name vars.length)
    (applicationHeader 0 :: varsHeaders vars)
    (if payload = [] then none else some payload) (UInt64.ofNat payload.length))

theorem nheader_varsHeaders (vars : List EnvVar) (hcount : 1 + vars.length * 4 ≤ intMax) :
    (applicationHeader 0 :: varsHeaders vars).length =
      (UInt32.ofNat (1 + vars.length * 4)).toNat := by
  simp only [intMax] at hcount
  rw [UInt32.toNat_ofNat', List.length_cons, length_varsHeaders]
  omega

theorem data_lt_varsPayload (vars : List EnvVar)
    (hsize : (vars.flatMap varPayload).length < 2 ^ 63) :
    ((if vars.flatMap varPayload = [] then none
      else some (vars.flatMap varPayload)).getD []).length < 2 ^ 64 := by
  split
  · exact data_lt_none
  · rw [Option.getD_some]
    omega

/-- The record of a snapshot. -/
def snapshotRecord (sys : SysEnv) (id : Int32) (name : Bytes) (vars : List EnvVar)
    (hcount : 1 + vars.length * 4 ≤ intMax)
    (hsize : (vars.flatMap varPayload).length < 2 ^ 63) : Record rtenvFormat where
  attr := snapshotAttr sys id name vars.length
  headers := applicationHeader 0 :: varsHeaders vars
  buf := if vars.flatMap varPayload = [] then none else some (vars.flatMap varPayload)
  nheader_eq := nheader_varsHeaders vars hcount
  ndim_le := by
    intro h hh
    rcases List.mem_cons.mp hh with rfl | hh
    · decide
    · rw [ndim_varsHeaders hh]
      decide
  data_lt := data_lt_varsPayload vars hsize

/-- The payload of the record, null or not. -/
theorem snapshotRecord_data {sys : SysEnv} {id : Int32} {name : Bytes} {vars : List EnvVar}
    (hcount : 1 + vars.length * 4 ≤ intMax)
    (hsize : (vars.flatMap varPayload).length < 2 ^ 63) :
    (snapshotRecord sys id name vars hcount hsize).data = vars.flatMap varPayload := by
  rw [Record.data, snapshotRecord]
  dsimp only
  split
  · rename_i hnil
    rw [hnil]
    rfl
  · rfl

/-- The row and the record of a snapshot whose name is new. -/
theorem sfWriteEnvSnapshotRecord_run {ws : Workspace} {rows : List RtenvEntry} {sys : SysEnv}
    {id : Int32} {name : Bytes} {vars : List EnvVar} (htable : rtenvRow.Holds ws rows)
    (hnew : sfNameExists (cstr (snapshotEntry sys id name vars.length).name.toList) ws =
      .ok false ws) (hvars : sys.environ.filterMap splitVar = vars)
    (hcount : 1 + vars.length * 4 ≤ intMax)
    (hsize : (vars.flatMap varPayload).length < 2 ^ 63) :
    sfWriteEnvSnapshotRecord sys id name ws = .ok () ((ws.set (.entry .rtenv)
      (rtenvRow.table (rows ++ [snapshotEntry sys id name vars.length]))).set (.rtenv id)
        (snapshotRecord sys id name vars hcount hsize).bytes) := by
  have happend : tpbRafEntryAppendRtenv (snapshotEntry sys id name vars.length) ws =
      .ok () (ws.set (.entry .rtenv)
        (rtenvRow.table (rows ++ [snapshotEntry sys id name vars.length]))) := by
    refine bind_then hnew ?_
    rw [if_neg (by simp), entryAppendRow_ok htable]
    rfl
  have hdata : (snapshotRecord sys id name vars hcount hsize).datasize =
      UInt64.ofNat (vars.flatMap varPayload).length := by
    rw [Record.datasize, snapshotRecord_data]
  simp only [sfWriteEnvSnapshotRecord, hvars]
  refine bind_then (propagate_eq_ok.mpr happend) ?_
  rw [if_neg (by omega), if_neg (by omega), propagate_eq_ok, ← hdata]
  rfl

/-- `"base"`. -/
def baseName : Bytes := ascii "base".toList

/-- The loop of `_sf_pick_build_env_name`, with `k` rounds left. -/
def pickName : ℕ → ℕ → WsM Bytes
  | 0, _ => tpbFail .misc .cliFail
  | k + 1, n => do
      let candidate := baseName ++ ascii ['_'] ++ formatD n
      if ← sfNameExists candidate then pickName k (n + 1) else return candidate

/-- `_sf_pick_build_env_name`. -/
def sfPickBuildEnvName : WsM Bytes := do
  if ← sfNameExists baseName then pickName 99999 1 else return baseName

/-- `tpb_raf_config_get_base_id`. -/
def tpbRafConfigGetBaseId : WsM Int32 := fun ws => .ok (ws.baseId.getD 1) ws

/-- `tpb_raf_config_set_base_id`. -/
def tpbRafConfigSetBaseId (baseId : Int32) : WsM Unit := fun ws =>
  .ok () { ws with baseId := some baseId }

/-- The configuration file of a workspace: there is none without an ID, and otherwise it has the
ID of the workspace. -/
inductive ConfigHolds (ws : Workspace) : Option Bytes → Prop
  | absent : ws.baseId = none → ConfigHolds ws none
  | stored {name : Bytes} {b : Int32} : Config.ConfigName name → ws.baseId = some b →
      ConfigHolds ws (some (Config.configText name b))

/-- The ID is that of the file. -/
theorem ConfigHolds.get {ws : Workspace} {file : Option Bytes} (h : ConfigHolds ws file) :
    ∃ b, tpbRafConfigGetBaseId ws = .ok b ws ∧ Config.tpbRafConfigGetBaseId file = b.toInt := by
  cases h with
  | absent hnone => exact ⟨1, by rw [tpbRafConfigGetBaseId, hnone]; rfl, rfl⟩
  | stored hname hb =>
      exact ⟨_, by rw [tpbRafConfigGetBaseId, hb]; rfl, Config.getBaseId_configText hname⟩

/-- Setting the ID sets that of the file. -/
theorem ConfigHolds.set {ws : Workspace} {file : Option Bytes} (h : ConfigHolds ws file)
    (b : Int32) : ∃ ws', tpbRafConfigSetBaseId b ws = .ok () ws' ∧
      ConfigHolds ws' (some (Config.tpbRafConfigSetBaseId file b)) := by
  refine ⟨_, rfl, ?_⟩
  cases h with
  | absent => exact .stored ⟨by decide, by decide, by decide, by decide⟩ rfl
  | stored hname =>
      rw [Config.setBaseId_configText hname]
      exact .stored hname.readBack rfl

/-- `tpb_rtenv_snapshot_build_env`, on a clock that does not fail. -/
def tpbRtenvSnapshotBuildEnv (sys : SysEnv) (alwaysNew : Bool) : WsM Int32 := do
  let entries ← propagate .misc tpbRafEntryListRtenv
  if alwaysNew = false ∧ 0 < entries.length then
    let baseId ← propagate .misc tpbRafConfigGetBaseId
    if ← sfRtenvIdExists baseId then return baseId else tpbFail .misc .listNotFound
  else
    let name ← propagate .misc sfPickBuildEnvName
    let id ← propagate .misc tpbRafRtenvAllocNextId
    propagate .misc (sfWriteEnvSnapshotRecord sys id name)
    propagate .misc (tpbRafConfigSetBaseId id)
    return id

/-- A snapshot of an empty workspace. -/
theorem tpbRtenvSnapshotBuildEnv_empty {sys : SysEnv} {vars : List EnvVar}
    (hvars : sys.environ.filterMap splitVar = vars) (hcount : 1 + vars.length * 4 ≤ intMax)
    (hsize : (vars.flatMap varPayload).length < 2 ^ 63) :
    ∃ ws, tpbRtenvSnapshotBuildEnv sys true Workspace.empty = .ok 1 ws ∧
      rtenvRow.Holds ws [snapshotEntry sys 1 baseName vars.length] ∧
      ws.files (.rtenv 1) =
        some (snapshotRecord sys 1 baseName vars hcount hsize).bytes := by
  have hempty : rtenvRow.Holds Workspace.empty [] := .inr ⟨rfl, rfl⟩
  have hnew : sfNameExists
      (cstr (snapshotEntry sys 1 baseName vars.length).name.toList) Workspace.empty =
      .ok false Workspace.empty := rfl
  have hwrite := sfWriteEnvSnapshotRecord_run hempty hnew hvars hcount hsize
  have hname : propagate .misc sfPickBuildEnvName Workspace.empty =
      .ok baseName Workspace.empty := rfl
  have hid : propagate .misc tpbRafRtenvAllocNextId Workspace.empty =
      .ok 1 Workspace.empty := rfl
  refine ⟨_, bind_then rfl (bind_then hname (bind_then hid
    (bind_then (propagate_eq_ok.mpr hwrite) rfl))), .inl ?_, ?_⟩
  · dsimp only
    rw [Workspace.set_files_of_ne _ _ (by simp [rtenvRow])]
    exact Workspace.set_files_same _ _ _
  · dsimp only
    exact Workspace.set_files_same _ _ _

/-- A process with the variable `A=b`, and the variable. -/
def oneVarSys : SysEnv := ⟨[[65, 61, 98]], [], 0⟩

def rootVar : EnvVar := ⟨[65], [98], 0, 0⟩

/-- Its snapshot, with a record that has room for a child. -/
theorem exists_oneVar_snapshot : ∃ ws, ∃ r : Record rtenvFormat,
    tpbRtenvSnapshotBuildEnv oneVarSys true Workspace.empty = .ok 1 ws ∧
    rtenvRow.Holds ws [snapshotEntry oneVarSys 1 baseName 1] ∧
    ws.files (.rtenv 1) = some r.bytes ∧ r.attr.id = 1 ∧
    deriveUpdate r.view 2 ≠ .undefined := by
  obtain ⟨ws, hsnap, hrows, hfile⟩ := @tpbRtenvSnapshotBuildEnv_empty oneVarSys [rootVar] rfl
    (by decide) (by decide)
  have hnone : sfFindDeriveHeader (snapshotRecord oneVarSys 1 baseName [rootVar] (by decide)
      (by decide)).view.headers = none := by decide +kernel
  refine ⟨ws, _, hsnap, hrows, hfile, rfl, fun h => ?_⟩
  rw [deriveUpdate, hnone] at h
  dsimp only at h
  rw [if_pos (by decide +kernel)] at h
  cases h

/-! ### Environments of the command line tool -/

/-- `tpbcli_rtenv_app_t`. -/
structure RtenvApp where
  name : CArr 64
  version : CArr 64
  note : CArr 64
  deriving DecidableEq

/-- `tpbcli_rtenv_var_t`. -/
structure RtenvVar where
  key : CArr 256
  value : CArr 4096
  onSet : UInt32
  onGet : UInt32
  deriving DecidableEq

/-- The applications and variables of a `tpbcli_rtenv_spec_t`, in arrays of
`TPBCLI_RTENV_MAX_APP` and `TPBCLI_RTENV_MAX_VAR` slots. -/
structure RtenvSpec where
  apps : List RtenvApp
  vars : List RtenvVar
  napp_le : apps.length ≤ 32
  nenv_le : vars.length ≤ 128

theorem napp_le_nil : ([] : List RtenvApp).length ≤ 32 := Nat.zero_le 32

theorem nenv_le_nil : ([] : List RtenvVar).length ≤ 128 := Nat.zero_le 128

/-- The strings of a variable. -/
def RtenvVar.envVar (v : RtenvVar) : EnvVar :=
  ⟨cstr v.key.toList, cstr v.value.toList, v.onSet, v.onGet⟩

/-- The row of an application in the payload. -/
def RtenvApp.payload (a : RtenvApp) : Bytes :=
  (snprintfS 64 a.name.toList).toList ++ (snprintfS 64 a.version.toList).toList ++
    (snprintfS 64 a.note.toList).toList

section WriteRecord

variable (hostname : CArr 256) (utcBits : UInt64) (id : Int32) (name note : Bytes)
  (inheritFrom : Int32) (spec : RtenvSpec)

/-- The row of an environment of the command line tool. -/
def writeRecordEntry : RtenvEntry :=
  { RtenvEntry.zero with
    id
    name := snprintfS 256 name
    hostname
    utcBits
    inheritFrom
    deriveTo := -1
    note := snprintfS 256 note
    napp := UInt32.ofNat spec.apps.length
    nenv := UInt32.ofNat spec.vars.length }

/-- The attributes of its record. `derive_to` and `note` are not set. -/
def writeRecordAttr (ent : RtenvEntry) : RtenvAttr :=
  { RtenvAttr.zero with
    id
    name := snprintfS 256 name
    hostname := snprintfS 256 ent.hostname.toList
    utcBits := ent.utcBits
    inheritFrom
    napp := ent.napp
    nenv := ent.nenv
    nheader := UInt32.ofNat (1 + spec.vars.length * 4) }

/-- `tpbcli_rtenv_write_record`, on a host with the name `hostname` and at the time
`utcBits`. The payload is assembled in an array of 65536 bytes. -/
def tpbcliRtenvWriteRecord : WsM Unit := do
  let ent := writeRecordEntry hostname utcBits id name note inheritFrom spec
  tpbRafEntryAppendRtenv ent
  let vars := spec.vars.map RtenvVar.envVar
  let payload := spec.apps.flatMap RtenvApp.payload ++ vars.flatMap varPayload
  if 65536 < payload.length then undefinedCall else
  tpbRafRecordWriteRtenv (writeRecordAttr id name inheritFrom spec ent)
    (applicationHeader spec.apps.length :: varsHeaders vars) (some payload)
    (UInt64.ofNat payload.length)
  if 0 < inheritFrom then ignoring (tpbRafRecordAppendRtenvDerive inheritFrom id)
  else return ()

/-- `_sf_commit_new`: create an environment of the command line tool under a new ID. -/
def sfCommitNew : WsM Unit :=
  if cstr name = [] then tpbFail .cliRtenv .cliFail else do
    let id ← propagate .cliRtenv tpbRafRtenvAllocNextId
    propagate .cliRtenv
      (tpbcliRtenvWriteRecord hostname utcBits id name note inheritFrom spec)

end WriteRecord

end TPBench
