import TPBench.Raf.Entry

/-!
# The Four Domains

The attributes, record formats and table rows of task batches, kernels, tasks and runtime
environments. Every encoder lists the fields in the order in which the source writes
them, every decoder reads them in the order in which the source reads them, and the proof
that a format needs (`reads_decode`, `decode_encode`) compares the two field by field.

With the four formats in hand, `record_roundTrip` is the round trip of all record files:
whatever a `tpb_raf_record_write_*` function wrote, the matching reader returns, up to
the two things the header loop normalises (`ReadBack`).
-/

open CFile

namespace TPBench

/-- `TPB_RAF_RESERVE_SIZE` zero bytes. -/
def reserve128 : Bytes := (zeroArr 128).toList

/-- `TPB_RAF_KERNEL_ATTR_RESERVE` zero bytes. -/
def reserve180 : Bytes := (zeroArr 180).toList

@[simp] theorem length_reserve128 : reserve128.length = 128 := (zeroArr 128).toList_length

@[simp] theorem length_reserve180 : reserve180.length = 180 := (zeroArr 180).toList_length

/-! ### Task batches -/

/-- The fixed attributes of a task batch, `tbatch_attr_t`. -/
structure TbatchAttr where
  tbatchId : Id20
  deriveTo : Id20
  inheritFrom : Id20
  utcBits : UInt64
  btime : UInt64
  duration : UInt64
  hostname : CArr 64
  username : CArr 64
  frontPid : UInt32
  nkernel : UInt32
  ntask : UInt32
  nscore : UInt32
  batchType : UInt32
  nheader : UInt32
  deriving DecidableEq

/-- Zeroed attributes, as `memset` leaves them. -/
def TbatchAttr.zero : TbatchAttr :=
  ⟨zeroArr 20, zeroArr 20, zeroArr 20, 0, 0, 0, zeroArr 64, zeroArr 64, 0, 0, 0, 0, 0, 0⟩

/-- The attribute section of a task batch record. -/
def TbatchAttr.encode (a : TbatchAttr) : Bytes :=
  [a.tbatchId.toList, a.deriveTo.toList, a.inheritFrom.toList, u64 a.utcBits, u64 a.btime,
    u64 a.duration, a.hostname.toList, a.username.toList, u32 a.frontPid, u32 a.nkernel,
    u32 a.ntask, u32 a.nscore, u32 a.batchType, u32 a.nheader, reserve128].flatten

/-- The attribute section as `tpb_raf_record_read_tbatch` reads it. -/
def TbatchAttr.decode : FileM TbatchAttr := do
  let tbatchId ← readArr 20
  let deriveTo ← readArr 20
  let inheritFrom ← readArr 20
  let utcBits ← readU64
  let btime ← readU64
  let duration ← readU64
  let hostname ← readArr 64
  let username ← readArr 64
  let frontPid ← readU32
  let nkernel ← readU32
  let ntask ← readU32
  let nscore ← readU32
  let batchType ← readU32
  let nheader ← readU32
  let _reserve ← fread 128
  return {
    tbatchId, deriveTo, inheritFrom, utcBits, btime, duration, hostname, username
    frontPid, nkernel, ntask, nscore, batchType, nheader }

@[simp] theorem TbatchAttr.length_encode (a : TbatchAttr) : a.encode.length = 364 := by
  simp [TbatchAttr.encode]

theorem TbatchAttr.reads_decode (a : TbatchAttr) : Reads decode a.encode a := by
  simp only [TbatchAttr.encode, List.flatten_cons, List.flatten_nil, List.append_nil]
  refine (reads_readArr _).bind ?_
  refine (reads_readArr _).bind ?_
  refine (reads_readArr _).bind ?_
  refine (reads_readU64 _).bind ?_
  refine (reads_readU64 _).bind ?_
  refine (reads_readU64 _).bind ?_
  refine (reads_readArr _).bind ?_
  refine (reads_readArr _).bind ?_
  refine (reads_readU32 _).bind ?_
  refine (reads_readU32 _).bind ?_
  refine (reads_readU32 _).bind ?_
  refine (reads_readU32 _).bind ?_
  refine (reads_readU32 _).bind ?_
  refine (reads_readU32 _).bind ?_
  exact (reads_fread length_reserve128).map _

/-- Task batch records. The product in the meta size is computed in 32 bits. -/
def tbatchFormat : RecordFormat TbatchAttr where
  domain := .tbatch
  mod := .rafL2Tbatch
  path a := .record .tbatch a.tbatchId
  metasize a := 236 + 128 + (a.nheader * hdrFixedSize).toUInt64
  nheader := TbatchAttr.nheader
  encode := TbatchAttr.encode
  decode := TbatchAttr.decode
  reads_decode := TbatchAttr.reads_decode

/-- Write a task batch record. -/
def tpbRafRecordWriteTbatch := recordWrite tbatchFormat

/-- Read a task batch record. -/
def tpbRafRecordReadTbatch (tbatchId : Id20) (wantData : Bool) : WsM (RecordView TbatchAttr) :=
  recordRead tbatchFormat (.record .tbatch tbatchId) wantData

/-- A row of the task batch table, `tbatch_entry_t`. -/
structure TbatchEntry where
  tbatchId : Id20
  inheritFrom : Id20
  startUtcBits : UInt64
  duration : UInt64
  hostname : CArr 64
  nkernel : UInt32
  ntask : UInt32
  nscore : UInt32
  batchType : UInt32
  reserve : CArr 128
  deriving DecidableEq

/-- The memory image of a task batch row. -/
def TbatchEntry.encode (e : TbatchEntry) : Row .tbatch :=
  ⟨[e.tbatchId.toList, e.inheritFrom.toList, u64 e.startUtcBits, u64 e.duration,
    e.hostname.toList, u32 e.nkernel, u32 e.ntask, u32 e.nscore, u32 e.batchType,
    e.reserve.toList].flatten, by simp [rowSize]⟩

/-- The structure at a task batch row. -/
def TbatchEntry.decode (row : Row .tbatch) : TbatchEntry where
  tbatchId := toArr 20 (pread row.toList 0 20)
  inheritFrom := toArr 20 (pread row.toList 20 20)
  startUtcBits := getU64 (pread row.toList 40 8)
  duration := getU64 (pread row.toList 48 8)
  hostname := toArr 64 (pread row.toList 56 64)
  nkernel := getU32 (pread row.toList 120 4)
  ntask := getU32 (pread row.toList 124 4)
  nscore := getU32 (pread row.toList 128 4)
  batchType := getU32 (pread row.toList 132 4)
  reserve := toArr 128 (pread row.toList 136 128)

theorem TbatchEntry.toList_encode (e : TbatchEntry) :
    e.encode.toList = [e.tbatchId.toList, e.inheritFrom.toList, u64 e.startUtcBits,
      u64 e.duration, e.hostname.toList, u32 e.nkernel, u32 e.ntask, u32 e.nscore,
      u32 e.batchType, e.reserve.toList].flatten := rfl

theorem TbatchEntry.decode_encode (e : TbatchEntry) : decode e.encode = e := by
  simp (disch := simp) only [TbatchEntry.decode, TbatchEntry.toList_encode,
    List.flatten_cons, List.flatten_nil, List.append_nil, pread_append_right,
    pread_append_self, pread_self, List.Vector.toList_length, length_u32, length_u64,
    toArr_toList, getU32_u32, getU64_u64, Nat.reduceSub]

/-- Rows of the task batch table. -/
def tbatchRow : RowFormat TbatchEntry where
  domain := .tbatch
  mod := .rafL2Tbatch
  encode := TbatchEntry.encode
  decode := TbatchEntry.decode
  decode_encode := TbatchEntry.decode_encode

/-- Append a task batch row. -/
def tpbRafEntryAppendTbatch := entryAppendRow tbatchRow

/-- List the task batch rows. -/
def tpbRafEntryListTbatch := entryListRows tbatchRow

/-! ### Kernels -/

/-- The fixed attributes of a kernel, `kernel_attr_t`. -/
structure KernelAttr where
  kernelId : Id20
  deriveTo : Id20
  inheritFrom : Id20
  kernelName : CArr 256
  version : CArr 64
  description : CArr 2048
  narg : UInt32
  nmetric : UInt32
  kctrl : UInt32
  nheader : UInt32
  active : UInt32
  utcBits : UInt64
  deriving DecidableEq

/-- The attribute section of a kernel record. -/
def KernelAttr.encode (a : KernelAttr) : Bytes :=
  [a.kernelId.toList, a.deriveTo.toList, a.inheritFrom.toList, a.kernelName.toList,
    a.version.toList, a.description.toList, u32 a.narg, u32 a.nmetric, u32 a.kctrl,
    u32 a.nheader, u32 a.active, u64 a.utcBits, reserve180].flatten

/-- The attribute section as `tpb_raf_record_read_kernel` reads it. -/
def KernelAttr.decode : FileM KernelAttr := do
  let kernelId ← readArr 20
  let deriveTo ← readArr 20
  let inheritFrom ← readArr 20
  let kernelName ← readArr 256
  let version ← readArr 64
  let description ← readArr 2048
  let narg ← readU32
  let nmetric ← readU32
  let kctrl ← readU32
  let nheader ← readU32
  let active ← readU32
  let utcBits ← readU64
  let _reserve ← fread 180
  return {
    kernelId, deriveTo, inheritFrom, kernelName, version, description, narg, nmetric
    kctrl, nheader, active, utcBits }

@[simp] theorem KernelAttr.length_encode (a : KernelAttr) : a.encode.length = 2636 := by
  simp [KernelAttr.encode]

theorem KernelAttr.reads_decode (a : KernelAttr) : Reads decode a.encode a := by
  simp only [KernelAttr.encode, List.flatten_cons, List.flatten_nil, List.append_nil]
  refine (reads_readArr _).bind ?_
  refine (reads_readArr _).bind ?_
  refine (reads_readArr _).bind ?_
  refine (reads_readArr _).bind ?_
  refine (reads_readArr _).bind ?_
  refine (reads_readArr _).bind ?_
  refine (reads_readU32 _).bind ?_
  refine (reads_readU32 _).bind ?_
  refine (reads_readU32 _).bind ?_
  refine (reads_readU32 _).bind ?_
  refine (reads_readU32 _).bind ?_
  refine (reads_readU64 _).bind ?_
  exact (reads_fread length_reserve180).map _

/-- Kernel records. -/
def kernelFormat : RecordFormat KernelAttr where
  domain := .kernel
  mod := .rafL2Kernel
  path a := .record .kernel a.kernelId
  metasize a := 2448 + 180 + (a.nheader * hdrFixedSize).toUInt64
  nheader := KernelAttr.nheader
  encode := KernelAttr.encode
  decode := KernelAttr.decode
  reads_decode := KernelAttr.reads_decode

/-- Write a kernel record. -/
def tpbRafRecordWriteKernel := recordWrite kernelFormat

/-- Read a kernel record. -/
def tpbRafRecordReadKernel (kernelId : Id20) (wantData : Bool) : WsM (RecordView KernelAttr) :=
  recordRead kernelFormat (.record .kernel kernelId) wantData

/-- A row of the kernel table, `kernel_entry_t`. -/
structure KernelEntry where
  kernelId : Id20
  inheritFrom : Id20
  kernelName : CArr 64
  kctrl : UInt32
  narg : UInt32
  nmetric : UInt32
  active : UInt32
  utcBits : UInt64
  reserve : CArr 136
  deriving DecidableEq

/-- A zeroed row. -/
def KernelEntry.zero : KernelEntry :=
  ⟨zeroArr 20, zeroArr 20, zeroArr 64, 0, 0, 0, 0, 0, zeroArr 136⟩

/-- The memory image of a kernel row. -/
def KernelEntry.encode (e : KernelEntry) : Row .kernel :=
  ⟨[e.kernelId.toList, e.inheritFrom.toList, e.kernelName.toList, u32 e.kctrl, u32 e.narg,
    u32 e.nmetric, u32 e.active, u64 e.utcBits, e.reserve.toList].flatten, by
    simp [rowSize]⟩

/-- The structure at a kernel row. -/
def KernelEntry.decode (row : Row .kernel) : KernelEntry where
  kernelId := toArr 20 (pread row.toList 0 20)
  inheritFrom := toArr 20 (pread row.toList 20 20)
  kernelName := toArr 64 (pread row.toList 40 64)
  kctrl := getU32 (pread row.toList 104 4)
  narg := getU32 (pread row.toList 108 4)
  nmetric := getU32 (pread row.toList 112 4)
  active := getU32 (pread row.toList 116 4)
  utcBits := getU64 (pread row.toList 120 8)
  reserve := toArr 136 (pread row.toList 128 136)

theorem KernelEntry.toList_encode (e : KernelEntry) :
    e.encode.toList = [e.kernelId.toList, e.inheritFrom.toList, e.kernelName.toList,
      u32 e.kctrl, u32 e.narg, u32 e.nmetric, u32 e.active, u64 e.utcBits,
      e.reserve.toList].flatten := rfl

theorem KernelEntry.decode_encode (e : KernelEntry) : decode e.encode = e := by
  simp (disch := simp) only [KernelEntry.decode, KernelEntry.toList_encode,
    List.flatten_cons, List.flatten_nil, List.append_nil, pread_append_right,
    pread_append_self, pread_self, List.Vector.toList_length, length_u32, length_u64,
    toArr_toList, getU32_u32, getU64_u64, Nat.reduceSub]

/-- Rows of the kernel table. -/
def kernelRow : RowFormat KernelEntry where
  domain := .kernel
  mod := .rafL2Kernel
  encode := KernelEntry.encode
  decode := KernelEntry.decode
  decode_encode := KernelEntry.decode_encode

/-- Append a kernel row. -/
def tpbRafEntryAppendKernel := entryAppendRow kernelRow

/-- List the kernel rows. -/
def tpbRafEntryListKernel := entryListRows kernelRow

/-! ### Tasks -/

/-- The fixed attributes of a task, `task_attr_t`. -/
structure TaskAttr where
  taskRecordId : Id20
  deriveTo : Id20
  inheritFrom : Id20
  tbatchId : Id20
  kernelId : Id20
  utcBits : UInt64
  btime : UInt64
  duration : UInt64
  exitCode : UInt32
  handleIndex : UInt32
  pid : UInt32
  tid : UInt32
  ninput : UInt32
  noutput : UInt32
  nheader : UInt32
  reserve : UInt32
  deriving DecidableEq

/-- Zeroed attributes, as `memset` leaves them. -/
def TaskAttr.zero : TaskAttr :=
  ⟨zeroArr 20, zeroArr 20, zeroArr 20, zeroArr 20, zeroArr 20, 0, 0, 0, 0, 0, 0, 0, 0, 0, 0, 0⟩

/-- The attribute section of a task record. -/
def TaskAttr.encode (a : TaskAttr) : Bytes :=
  [a.taskRecordId.toList, a.deriveTo.toList, a.inheritFrom.toList, a.tbatchId.toList,
    a.kernelId.toList, u64 a.utcBits, u64 a.btime, u64 a.duration, u32 a.exitCode,
    u32 a.handleIndex, u32 a.pid, u32 a.tid, u32 a.ninput, u32 a.noutput, u32 a.nheader,
    u32 a.reserve, reserve128].flatten

/-- The attribute section as `tpb_raf_record_read_task` reads it. -/
def TaskAttr.decode : FileM TaskAttr := do
  let taskRecordId ← readArr 20
  let deriveTo ← readArr 20
  let inheritFrom ← readArr 20
  let tbatchId ← readArr 20
  let kernelId ← readArr 20
  let utcBits ← readU64
  let btime ← readU64
  let duration ← readU64
  let exitCode ← readU32
  let handleIndex ← readU32
  let pid ← readU32
  let tid ← readU32
  let ninput ← readU32
  let noutput ← readU32
  let nheader ← readU32
  let reserve ← readU32
  let _reserve ← fread 128
  return {
    taskRecordId, deriveTo, inheritFrom, tbatchId, kernelId, utcBits, btime, duration
    exitCode, handleIndex, pid, tid, ninput, noutput, nheader, reserve }

@[simp] theorem TaskAttr.length_encode (a : TaskAttr) : a.encode.length = 284 := by
  simp [TaskAttr.encode]

theorem TaskAttr.reads_decode (a : TaskAttr) : Reads decode a.encode a := by
  simp only [TaskAttr.encode, List.flatten_cons, List.flatten_nil, List.append_nil]
  refine (reads_readArr _).bind ?_
  refine (reads_readArr _).bind ?_
  refine (reads_readArr _).bind ?_
  refine (reads_readArr _).bind ?_
  refine (reads_readArr _).bind ?_
  refine (reads_readU64 _).bind ?_
  refine (reads_readU64 _).bind ?_
  refine (reads_readU64 _).bind ?_
  refine (reads_readU32 _).bind ?_
  refine (reads_readU32 _).bind ?_
  refine (reads_readU32 _).bind ?_
  refine (reads_readU32 _).bind ?_
  refine (reads_readU32 _).bind ?_
  refine (reads_readU32 _).bind ?_
  refine (reads_readU32 _).bind ?_
  refine (reads_readU32 _).bind ?_
  exact (reads_fread length_reserve128).map _

/-- Task records. -/
def taskFormat : RecordFormat TaskAttr where
  domain := .task
  mod := .rafL2Task
  path a := .record .task a.taskRecordId
  metasize a := 156 + 128 + (a.nheader * hdrFixedSize).toUInt64
  nheader := TaskAttr.nheader
  encode := TaskAttr.encode
  decode := TaskAttr.decode
  reads_decode := TaskAttr.reads_decode

theorem nheader_taskZero : taskFormat.nheader TaskAttr.zero = 0 := rfl

/-- Write a task record. -/
def tpbRafRecordWriteTask := recordWrite taskFormat

/-- Read a task record. -/
def tpbRafRecordReadTask (taskId : Id20) (wantData : Bool) : WsM (RecordView TaskAttr) :=
  recordRead taskFormat (.record .task taskId) wantData

/-- A row of the task table, `task_entry_t`. -/
structure TaskEntry where
  taskRecordId : Id20
  inheritFrom : Id20
  tbatchId : Id20
  kernelId : Id20
  utcBits : UInt64
  duration : UInt64
  exitCode : UInt32
  handleIndex : UInt32
  deriveTo : Id20
  reserve : CArr 108
  deriving DecidableEq

/-- The memory image of a task row. -/
def TaskEntry.encode (e : TaskEntry) : Row .task :=
  ⟨[e.taskRecordId.toList, e.inheritFrom.toList, e.tbatchId.toList, e.kernelId.toList,
    u64 e.utcBits, u64 e.duration, u32 e.exitCode, u32 e.handleIndex, e.deriveTo.toList,
    e.reserve.toList].flatten, by simp [rowSize]⟩

/-- The structure at a task row. -/
def TaskEntry.decode (row : Row .task) : TaskEntry where
  taskRecordId := toArr 20 (pread row.toList 0 20)
  inheritFrom := toArr 20 (pread row.toList 20 20)
  tbatchId := toArr 20 (pread row.toList 40 20)
  kernelId := toArr 20 (pread row.toList 60 20)
  utcBits := getU64 (pread row.toList 80 8)
  duration := getU64 (pread row.toList 88 8)
  exitCode := getU32 (pread row.toList 96 4)
  handleIndex := getU32 (pread row.toList 100 4)
  deriveTo := toArr 20 (pread row.toList 104 20)
  reserve := toArr 108 (pread row.toList 124 108)

theorem TaskEntry.toList_encode (e : TaskEntry) :
    e.encode.toList = [e.taskRecordId.toList, e.inheritFrom.toList, e.tbatchId.toList,
      e.kernelId.toList, u64 e.utcBits, u64 e.duration, u32 e.exitCode, u32 e.handleIndex,
      e.deriveTo.toList, e.reserve.toList].flatten := rfl

theorem TaskEntry.decode_encode (e : TaskEntry) : decode e.encode = e := by
  simp (disch := simp) only [TaskEntry.decode, TaskEntry.toList_encode,
    List.flatten_cons, List.flatten_nil, List.append_nil, pread_append_right,
    pread_append_self, pread_self, List.Vector.toList_length, length_u32, length_u64,
    toArr_toList, getU32_u32, getU64_u64, Nat.reduceSub]

/-- Rows of the task table. -/
def taskRow : RowFormat TaskEntry where
  domain := .task
  mod := .rafL2Task
  encode := TaskEntry.encode
  decode := TaskEntry.decode
  decode_encode := TaskEntry.decode_encode

/-- Append a task row. -/
def tpbRafEntryAppendTask := entryAppendRow taskRow

/-- List the task rows. -/
def tpbRafEntryListTask := entryListRows taskRow

/-! ### Runtime environments -/

/-- The fixed attributes of a runtime environment, `tpb_raf_rtenv_attr_t`. -/
structure RtenvAttr where
  id : Int32
  name : CArr 256
  hostname : CArr 256
  utcBits : UInt64
  inheritFrom : Int32
  deriveTo : Int32
  ntask : UInt32
  ntbatch : UInt32
  note : CArr 256
  napp : UInt32
  nenv : UInt32
  nheader : UInt32
  reserve : CArr 1024
  deriving DecidableEq

/-- Zeroed attributes, as `memset` leaves them. -/
def RtenvAttr.zero : RtenvAttr :=
  ⟨0, zeroArr 256, zeroArr 256, 0, 0, 0, 0, 0, zeroArr 256, 0, 0, 0, zeroArr 1024⟩

/-- `_sf_write_attr_meta`. -/
def RtenvAttr.encode (a : RtenvAttr) : Bytes :=
  [i32 a.id, a.name.toList, a.hostname.toList, u64 a.utcBits, i32 a.inheritFrom,
    i32 a.deriveTo, u32 a.ntask, u32 a.ntbatch, a.note.toList, u32 a.napp, u32 a.nenv,
    u32 a.nheader, a.reserve.toList].flatten

/-- `_sf_read_attr_meta`. -/
def RtenvAttr.decode : FileM RtenvAttr := do
  let id ← readI32
  let name ← readArr 256
  let hostname ← readArr 256
  let utcBits ← readU64
  let inheritFrom ← readI32
  let deriveTo ← readI32
  let ntask ← readU32
  let ntbatch ← readU32
  let note ← readArr 256
  let napp ← readU32
  let nenv ← readU32
  let nheader ← readU32
  let reserve ← readArr 1024
  return {
    id, name, hostname, utcBits, inheritFrom, deriveTo, ntask, ntbatch, note, napp, nenv
    nheader, reserve }

@[simp] theorem RtenvAttr.length_encode (a : RtenvAttr) : a.encode.length = 1832 := by
  simp [RtenvAttr.encode]

theorem RtenvAttr.reads_decode (a : RtenvAttr) : Reads decode a.encode a := by
  simp only [RtenvAttr.encode, List.flatten_cons, List.flatten_nil, List.append_nil]
  refine (reads_readI32 _).bind ?_
  refine (reads_readArr _).bind ?_
  refine (reads_readArr _).bind ?_
  refine (reads_readU64 _).bind ?_
  refine (reads_readI32 _).bind ?_
  refine (reads_readI32 _).bind ?_
  refine (reads_readU32 _).bind ?_
  refine (reads_readU32 _).bind ?_
  refine (reads_readArr _).bind ?_
  refine (reads_readU32 _).bind ?_
  refine (reads_readU32 _).bind ?_
  refine (reads_readU32 _).bind ?_
  exact (reads_readArr _).map _

/-- Runtime environment records. The product in the meta size is computed in 64 bits. -/
def rtenvFormat : RecordFormat RtenvAttr where
  domain := .rtenv
  mod := .rafL2Rtenv
  path a := .rtenv a.id
  metasize a := 1832 + a.nheader.toUInt64 * hdrFixedSize.toUInt64
  nheader := RtenvAttr.nheader
  encode := RtenvAttr.encode
  decode := RtenvAttr.decode
  reads_decode := RtenvAttr.reads_decode

/-- Write a runtime environment record. -/
def tpbRafRecordWriteRtenv := recordWrite rtenvFormat

/-- Read a runtime environment record, always with its payload. -/
def tpbRafRecordReadRtenv (id : Int32) : WsM (RecordView RtenvAttr) :=
  recordRead rtenvFormat (.rtenv id) true

/-- A row of the runtime environment table, `tpb_raf_rtenv_entry_t`. -/
structure RtenvEntry where
  id : Int32
  name : CArr 256
  hostname : CArr 256
  utcBits : UInt64
  inheritFrom : Int32
  deriveTo : Int32
  ntask : UInt32
  ntbatch : UInt32
  note : CArr 256
  napp : UInt32
  nenv : UInt32
  reserve : CArr 1024
  deriving DecidableEq

/-- A zeroed row. -/
def RtenvEntry.zero : RtenvEntry :=
  ⟨0, zeroArr 256, zeroArr 256, 0, 0, 0, 0, 0, zeroArr 256, 0, 0, zeroArr 1024⟩

/-- `_sf_entry_to_disk`: the packed row of a runtime environment. -/
def RtenvEntry.encode (e : RtenvEntry) : Row .rtenv :=
  ⟨[i32 e.id, e.name.toList, e.hostname.toList, u64 e.utcBits, i32 e.inheritFrom,
    i32 e.deriveTo, u32 e.ntask, u32 e.ntbatch, e.note.toList, u32 e.napp, u32 e.nenv,
    e.reserve.toList].flatten, by simp [rowSize]⟩

/-- `_sf_disk_to_entry`. -/
def RtenvEntry.decode (row : Row .rtenv) : RtenvEntry where
  id := getI32 (pread row.toList 0 4)
  name := toArr 256 (pread row.toList 4 256)
  hostname := toArr 256 (pread row.toList 260 256)
  utcBits := getU64 (pread row.toList 516 8)
  inheritFrom := getI32 (pread row.toList 524 4)
  deriveTo := getI32 (pread row.toList 528 4)
  ntask := getU32 (pread row.toList 532 4)
  ntbatch := getU32 (pread row.toList 536 4)
  note := toArr 256 (pread row.toList 540 256)
  napp := getU32 (pread row.toList 796 4)
  nenv := getU32 (pread row.toList 800 4)
  reserve := toArr 1024 (pread row.toList 804 1024)

theorem RtenvEntry.toList_encode (e : RtenvEntry) :
    e.encode.toList = [i32 e.id, e.name.toList, e.hostname.toList, u64 e.utcBits,
      i32 e.inheritFrom, i32 e.deriveTo, u32 e.ntask, u32 e.ntbatch, e.note.toList,
      u32 e.napp, u32 e.nenv, e.reserve.toList].flatten := rfl

theorem RtenvEntry.decode_encode (e : RtenvEntry) : decode e.encode = e := by
  simp (disch := simp) only [RtenvEntry.decode, RtenvEntry.toList_encode,
    List.flatten_cons, List.flatten_nil, List.append_nil, pread_append_right,
    pread_append_self, pread_self, List.Vector.toList_length, length_u32, length_u64,
    length_i32, toArr_toList, getU32_u32, getU64_u64, getI32_i32, Nat.reduceSub]

/-- Rows of the runtime environment table. -/
def rtenvRow : RowFormat RtenvEntry where
  domain := .rtenv
  mod := .rafL2Rtenv
  encode := RtenvEntry.encode
  decode := RtenvEntry.decode
  decode_encode := RtenvEntry.decode_encode

/-- List the runtime environment rows. -/
def tpbRafEntryListRtenv := entryListRows rtenvRow

/-! ### The round trip of all record files -/

/-- A header and what the reader returns for it: the block size is the fixed one, the
slots behind the used dimensions are zero, and nothing else differs. -/
structure ReadBack (h h' : MetaHeader) : Prop where
  blockSize : h'.blockSize = hdrFixedSize
  ndim : h'.ndim = h.ndim
  dataSize : h'.dataSize = h.dataSize
  typeBits : h'.typeBits = h.typeBits
  reserve : h'.reserve = h.reserve
  uattrBits : h'.uattrBits = h.uattrBits
  name : h'.name = h.name
  tag : h'.tag = h.tag
  note : h'.note = h.note
  dimsizes : ∀ i : Fin ndimMax,
    h'.dimsizes.get i = if i.val < h.ndim.toNat then h.dimsizes.get i else 0
  dimnames : ∀ i : Fin ndimMax,
    h'.dimnames.get i = if i.val < h.ndim.toNat then h.dimnames.get i else zeroArr 64

/-- The slots of an array into which the first slots of another one were stored. -/
theorem get_fillVec_take {α : Type} (z : α) {n : ℕ} (v : List.Vector α n) (k : ℕ)
    (i : Fin n) :
    (fillVec z n (v.toList.take k)).get i = if i.val < k then v.get i else z := by
  have hget : ∀ w : List.Vector α n, w.toList[i.val]? = some (w.get i) := by
    intro w
    have hi : i.val < w.toList.length := by
      rw [w.toList_length]
      exact i.isLt
    rw [List.getElem?_eq_getElem hi, List.Vector.get_eq_get_toList]
    rfl
  have htake : (v.toList.take k).length = min k n := by
    rw [List.length_take, v.toList_length]
  apply Option.some_injective
  rw [← hget, toList_fillVec, List.take_of_length_le (by omega), List.getElem?_append, htake]
  by_cases hk : i.val < k
  · rw [if_pos (by omega), if_pos hk, List.getElem?_take_of_lt hk, hget]
  · rw [if_neg (by omega), if_neg hk, List.getElem?_replicate_of_lt (by omega)]

/-- The reader stores `dimsizes[0]` of every header that has a dimension. -/
theorem MetaHeader.dim0_norm {h : MetaHeader} (hndim : 1 ≤ h.ndim.toNat) :
    h.norm.dim0 = h.dim0 := by
  rw [MetaHeader.dim0, MetaHeader.norm, get_fillVec_take]
  exact if_pos hndim

theorem MetaHeader.dim0_setDim0 (h : MetaHeader) (v : UInt64) : (h.setDim0 v).dim0 = v :=
  List.Vector.get_set_same h.dimsizes 0 v

/-- The header the reader returns, field by field. -/
theorem MetaHeader.readBack_norm (h : MetaHeader) : ReadBack h h.norm where
  blockSize := rfl
  ndim := rfl
  dataSize := rfl
  typeBits := rfl
  reserve := rfl
  uattrBits := rfl
  name := rfl
  tag := rfl
  note := rfl
  dimsizes := get_fillVec_take 0 h.dimsizes h.ndim.toNat
  dimnames := get_fillVec_take (zeroArr 64) h.dimnames h.ndim.toNat

/-- What a reader returns after a record was written: the attributes and the payload of
the record, and its headers as `ReadBack` describes them. -/
structure RecordView.Returns {α : Type} {F : RecordFormat α} (v : RecordView α)
    (r : Record F) : Prop where
  attr : v.attr = r.attr
  headers : List.Forall₂ ReadBack r.headers v.headers
  datasize : v.datasize = r.datasize
  data : v.data = r.data

/-- The view of a record is what a reader returns for it. -/
theorem Record.returns_view {α : Type} {F : RecordFormat α} (r : Record F) :
    r.view.Returns r where
  attr := rfl
  headers := by
    rw [Record.view, List.forall₂_map_right_iff]
    exact List.forall₂_same.mpr fun h _ => h.readBack_norm
  datasize := rfl
  data := rfl

/-- **The round trip of record files, in all four domains**: for every record, reading
what the writer of its domain wrote succeeds and returns the record. -/
theorem record_roundTrip (ws : Workspace) :
    (∀ r : Record tbatchFormat, ∃ v ws',
      (do tpbRafRecordWriteTbatch r.attr r.headers r.buf r.datasize
          tpbRafRecordReadTbatch r.attr.tbatchId true) ws = .ok v ws' ∧ v.Returns r) ∧
    (∀ r : Record kernelFormat, ∃ v ws',
      (do tpbRafRecordWriteKernel r.attr r.headers r.buf r.datasize
          tpbRafRecordReadKernel r.attr.kernelId true) ws = .ok v ws' ∧ v.Returns r) ∧
    (∀ r : Record taskFormat, ∃ v ws',
      (do tpbRafRecordWriteTask r.attr r.headers r.buf r.datasize
          tpbRafRecordReadTask r.attr.taskRecordId true) ws = .ok v ws' ∧ v.Returns r) ∧
    (∀ r : Record rtenvFormat, ∃ v ws',
      (do tpbRafRecordWriteRtenv r.attr r.headers r.buf r.datasize
          tpbRafRecordReadRtenv r.attr.id) ws = .ok v ws' ∧ v.Returns r) := by
  refine ⟨?_, ?_, ?_, ?_⟩ <;>
  · intro r
    exact ⟨r.view, _, recordRead_recordWrite r ws, r.returns_view⟩

end TPBench
