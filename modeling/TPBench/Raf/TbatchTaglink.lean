import TPBench.Raf.Link

/-!
# Linking Tasks to a Task Batch

A task batch record has two link headers, `TaskID` and `KernelID`, whose payloads follow
each other. `tpb_raf_record_append_tbatch` inserts a task ID behind the IDs of the first
header: it locates both headers and the END magic, moves the payload of the second header
and the magic back by 20 bytes, and adapts the payload size, the size in the first header
and the word at offset 2336 of the first header.

That last word is not `dimsizes[0]`, which stands at offset 2592. `MetaHeader.linked` says
what the append does instead: `dimsizes[0]` keeps its value, and eight bytes of the note
are overwritten. `appendTbatch_run` is the exact effect of one append on the file of a
`Batch`, `appendAll_run` the effect of a sequence of appends, and
`tbatch_appends_iff` compares that effect with the one the headers promise to a reader.
-/

open CFile

namespace TPBench

/-! ### The append -/

/-- `tpb_raf_record_append_tbatch`, on the open and locked record. -/
def appendTbatch (taskId : Id20) : FileM Unit := do
  let magic ← fread 8
  check (tpbRafValidateMagic magic .record .tbatch .posStart)
  let _metasize ← readU64
  let datasize ← readU64
  fseek 256
  let nheader ← readU32
  check (nheader = 2)
  let hdr0Base : ℤ := 388
  fseek (hdr0Base + 32)
  let namechk ← fread 256
  check (nameIs namechk taskIdName)
  let len0 ← tpbRafL1HdrSerializedLenAt hdr0Base
  let hdr1Base := hdr0Base + len0
  fseek (hdr1Base + 32)
  let namechk ← fread 256
  check (nameIs namechk kernelIdName)
  let len1 ← tpbRafL1HdrSerializedLenAt hdr1Base
  let splitOff := hdr1Base + len1
  fseek (hdr0Base + 8)
  let hdr0Ds ← readU64
  fseek (hdr1Base + 8)
  let hdr1Ds ← readU64
  check (hdr0Ds % 20 = 0)
  check (hdr0Ds + hdr1Ds = datasize)
  let endMagicOff := splitOff + 8 + longOfU64 datasize
  fseek endMagicOff
  let magic ← fread 8
  check (tpbRafValidateMagic magic .record .tbatch .posEnd)
  let newTotalDs := datasize + 20
  let newHdr0Ds := hdr0Ds + 20
  let newDim0 := newHdr0Ds / 20
  let insertOff := splitOff + 8 + longOfU64 hdr0Ds
  let tailLen := hdr1Ds + 8
  fseek insertOff
  let tail ← fread tailLen.toNat
  fseek insertOff
  fwrite taskId.toList
  fwrite tail
  fseek 16
  fwrite (u64 newTotalDs)
  fseek (hdr0Base + 8)
  fwrite (u64 newHdr0Ds)
  fseek (hdr0Base + 2336)
  fwrite (u64 newDim0)

/-- `tpb_raf_record_append_tbatch`. -/
def tpbRafRecordAppendTbatch (tbatchId taskId : Id20) : WsM Unit :=
  fopenUpdate .rafL3Tbatch (.record .tbatch tbatchId) (appendTbatch taskId)

/-- A task batch record to which IDs can be appended: two one-dimensional headers with the
names the append looks for, the IDs of the first one in whole, and the payload of the two
headers. -/
structure Batch where
  attr : TbatchAttr
  task : MetaHeader
  kernel : MetaHeader
  taskData : Bytes
  kernelData : Bytes
  nheader_eq : attr.nheader = 2
  task_ndim : task.ndim = 1
  kernel_ndim : kernel.ndim = 1
  task_name : cstr task.name.toList = taskIdName
  kernel_name : cstr kernel.name.toList = kernelIdName
  task_size : task.dataSize = UInt64.ofNat taskData.length
  kernel_size : kernel.dataSize = UInt64.ofNat kernelData.length
  whole : taskData.length % 20 = 0
  size_lt : taskData.length + kernelData.length < 2 ^ 63

/-- The record of a task batch. -/
def Batch.record (b : Batch) : Record tbatchFormat where
  attr := b.attr
  headers := [b.task, b.kernel]
  buf := some (b.taskData ++ b.kernelData)
  nheader_eq := by
    change 2 = b.attr.nheader.toNat
    rw [b.nheader_eq]
    rfl
  ndim_le := by
    intro h hh
    simp only [List.mem_cons, List.not_mem_nil, or_false] at hh
    rcases hh with rfl | rfl
    · rw [b.task_ndim]
      decide
    · rw [b.kernel_ndim]
      decide
  data_lt := by
    have := b.size_lt
    simp only [Option.getD_some, List.length_append]
    omega

/-- What an append does to the first header: the size is adapted, `dimsizes[0]` is not,
and the number of IDs is written into the note. -/
def MetaHeader.linked (h : MetaHeader) : MetaHeader :=
  MetaHeader.scribble { h with dataSize := h.dataSize + 20 } ((h.dataSize + 20) / 20)

/-- The task batch after one append. -/
def Batch.append (b : Batch) (id : Id20)
    (h : b.taskData.length + 20 + b.kernelData.length < 2 ^ 63) : Batch where
  attr := b.attr
  task := b.task.linked
  kernel := b.kernel
  taskData := b.taskData ++ id.toList
  kernelData := b.kernelData
  nheader_eq := b.nheader_eq
  task_ndim := b.task_ndim
  kernel_ndim := b.kernel_ndim
  task_name := b.task_name
  kernel_name := b.kernel_name
  task_size := by
    change b.task.dataSize + 20 = _
    rw [b.task_size, List.length_append, id.toList_length, UInt64.ofNat_add]
    rfl
  kernel_size := b.kernel_size
  whole := by
    rw [List.length_append, id.toList_length, Nat.add_mod_right]
    exact b.whole
  size_lt := by rwa [List.length_append, id.toList_length]

/-- The file of a task batch. -/
theorem Batch.bytes_eq (b : Batch) :
    b.record.bytes = layout tbatchFormat b.attr
      (UInt64.ofNat (b.taskData.length + b.kernelData.length))
      (b.task.encode ++ b.kernel.encode) (b.taskData ++ b.kernelData) := by
  have hsize : b.record.datasize =
      UInt64.ofNat (b.taskData.length + b.kernelData.length) :=
    congrArg UInt64.ofNat List.length_append
  have hhdrs : tpbRafL1WriteHeaders b.record.headers = b.task.encode ++ b.kernel.encode := by
    change b.task.encode ++ (b.kernel.encode ++ []) = _
    rw [List.append_nil]
  rw [Record.bytes_layout, hsize, hhdrs]
  rfl

theorem TbatchAttr.pread_nheader (a : TbatchAttr) : pread a.encode 232 4 = u32 a.nheader := by
  simp (disch := simp) only [TbatchAttr.encode, List.flatten_cons, pread_append_right,
    pread_append_self, List.Vector.toList_length, length_u64, length_u32, Nat.reduceSub]

section OneBatchAppend

variable (b : Batch)

/-- The headers of a task batch start at offset 388. -/
theorem Batch.base_eq : 24 + (tbatchFormat.encode b.attr).length = 388 :=
  congrArg (24 + ·) b.attr.length_encode

theorem Batch.length_headers : (b.task.encode ++ b.kernel.encode).length = 5328 := by
  rw [List.length_append, MetaHeader.length_encode_one b.task_ndim,
    MetaHeader.length_encode_one b.kernel_ndim]

/-- A block of the first header. -/
theorem Batch.pread_task {off k : ℕ} (h : off + k ≤ 2664) :
    pread b.record.bytes (388 + off) k = pread b.task.encode off k := by
  have hlen := MetaHeader.length_encode_one b.task_ndim
  rw [b.bytes_eq, pread_layout_hdrs b.base_eq (by rw [b.length_headers]; omega),
    pread_append_left (by omega)]

/-- A block of the second header. -/
theorem Batch.pread_kernel {off k : ℕ} (h : off + k ≤ 2664) :
    pread b.record.bytes (3052 + off) k = pread b.kernel.encode off k := by
  have hlen := MetaHeader.length_encode_one b.task_ndim
  rw [b.bytes_eq, show 3052 + off = 388 + (2664 + off) by omega,
    pread_layout_hdrs b.base_eq (by rw [b.length_headers]; omega),
    pread_append_right (by omega), hlen, Nat.add_sub_cancel_left]

theorem Batch.pread_nheader : pread b.record.bytes (24 + 232) 4 = u32 2 := by
  have hlen : (tbatchFormat.encode b.attr).length = 364 := b.attr.length_encode
  rw [b.bytes_eq, pread_layout_attr (by rw [hlen]; decide), ← b.nheader_eq]
  exact b.attr.pread_nheader

/-- The END magic stands where the append looks for it. -/
theorem Batch.pread_end :
    pread b.record.bytes (5724 + (b.taskData.length + b.kernelData.length)) 8 =
      tpbRafBuildMagic .record .tbatch .posEnd := by
  have hend := pread_layout_end (UInt64.ofNat (b.taskData.length + b.kernelData.length))
    (b.task.encode ++ b.kernel.encode) (b.taskData ++ b.kernelData) b.base_eq
  rwa [b.length_headers, List.length_append, ← b.bytes_eq] at hend

/-- The tail the append moves: the payload of the second header, and the END magic. -/
theorem Batch.pread_tail :
    pread b.record.bytes (5724 + b.taskData.length) (b.kernelData.length + 8) =
      b.kernelData ++ tpbRafBuildMagic .record .tbatch .posEnd := by
  have hfits : b.taskData.length ≤ (b.taskData ++ b.kernelData).length := by simp
  have htail := pread_layout_tail (UInt64.ofNat (b.taskData.length + b.kernelData.length))
    (b.task.encode ++ b.kernel.encode) b.base_eq hfits
  rwa [b.length_headers, List.length_append, Nat.add_sub_cancel_left, List.drop_left,
    ← b.bytes_eq] at htail

/-- Writing the ID in front of the tail, and the tail again, inserts it into the
payload. -/
theorem Batch.pwrite_id (id : Id20) :
    pwrite (pwrite b.record.bytes (5724 + b.taskData.length) id.toList)
        (5724 + b.taskData.length + 20)
        (b.kernelData ++ tpbRafBuildMagic .record .tbatch .posEnd) =
      layout tbatchFormat b.attr (UInt64.ofNat (b.taskData.length + b.kernelData.length))
        (b.task.encode ++ b.kernel.encode) (b.taskData ++ id.toList ++ b.kernelData) := by
  have hfits : b.taskData.length ≤ (b.taskData ++ b.kernelData).length := by simp
  have hins := pwrite_layout_insert
    (UInt64.ofNat (b.taskData.length + b.kernelData.length))
    (b.task.encode ++ b.kernel.encode) b.base_eq hfits id.toList
  rwa [b.length_headers, List.drop_left, List.take_left, id.toList_length, ← b.bytes_eq] at hins

/-- The three words the append writes at the offsets 16, 396 and 2724. -/
theorem Batch.pwrite_counts (id : Id20)
    (h : b.taskData.length + 20 + b.kernelData.length < 2 ^ 63) :
    pwrite (pwrite (pwrite (layout tbatchFormat b.attr
        (UInt64.ofNat (b.taskData.length + b.kernelData.length))
        (b.task.encode ++ b.kernel.encode) (b.taskData ++ id.toList ++ b.kernelData))
        16 (u64 (UInt64.ofNat (b.taskData.length + b.kernelData.length) + 20)))
        (388 + 8) (u64 (b.task.dataSize + 20)))
        (388 + 2336) (u64 ((b.task.dataSize + 20) / 20)) =
      (b.append id h).record.bytes := by
  set h₁ : MetaHeader := { b.task with dataSize := b.task.dataSize + 20 } with hh₁
  have hlen : b.task.encode.length = 2664 := MetaHeader.length_encode_one b.task_ndim
  have hlen₁ : h₁.encode.length = 2664 := MetaHeader.length_encode_one b.task_ndim
  have hall : (h₁.encode ++ b.kernel.encode).length = 5328 := by
    rw [List.length_append, hlen₁, MetaHeader.length_encode_one b.kernel_ndim]
  have hds : UInt64.ofNat (b.taskData.length + b.kernelData.length) + 20 =
      UInt64.ofNat ((b.append id h).taskData.length + (b.append id h).kernelData.length) := by
    have hsum : (b.append id h).taskData.length + (b.append id h).kernelData.length =
        b.taskData.length + b.kernelData.length + 20 := by
      simp only [Batch.append, List.length_append, id.toList_length]
      omega
    rw [hsum, UInt64.ofNat_add _ 20]
    rfl
  rw [pwrite_layout_datasize,
    pwrite_layout_hdrs b.base_eq (by rw [b.length_headers, length_u64]; decide),
    pwrite_append_left (by rw [hlen, length_u64]; decide), b.task.pwrite_dataSize, ← hh₁,
    pwrite_layout_hdrs b.base_eq (by rw [hall, length_u64]; decide),
    pwrite_append_left (by rw [hlen₁, length_u64]; decide), h₁.pwrite_note, hds,
    Batch.bytes_eq]
  rfl

/-- **One append to a task batch**: it succeeds, inserts its ID behind the IDs of the first
header, and changes that header as `MetaHeader.linked` says. -/
theorem appendTbatch_run (id : Id20)
    (h : b.taskData.length + 20 + b.kernelData.length < 2 ^ 63) :
    appendTbatch id ⟨b.record.bytes, 0⟩ =
      .ok () ⟨(b.append id h).record.bytes, 2732⟩ := by
  have htname : nameIs b.task.name.toList taskIdName = true := by
    refine nameIs_of_cstr b.task_name ?_
    rw [b.task.name.toList_length]
    decide
  have hkname : nameIs b.kernel.name.toList kernelIdName = true := by
    refine nameIs_of_cstr b.kernel_name ?_
    rw [b.kernel.name.toList_length]
    decide
  have hmeta : pread b.record.bytes 8 8 = u64 (tbatchFormat.metasize b.attr) := by
    rw [b.bytes_eq, pread_layout_metasize]
  have hsize : pread b.record.bytes 16 8 =
      u64 (UInt64.ofNat (b.taskData.length + b.kernelData.length)) := by
    rw [b.bytes_eq, pread_layout_datasize]
  have htask : pread b.record.bytes (388 + 32) 256 = b.task.name.toList := by
    rw [b.pread_task (by decide), b.task.pread_name]
  have htdim : pread b.record.bytes (388 + 4) 4 = u32 1 := by
    rw [b.pread_task (by decide), b.task.pread_ndim, b.task_ndim]
  have htsize : pread b.record.bytes (388 + 8) 8 = u64 b.task.dataSize := by
    rw [b.pread_task (by decide), b.task.pread_dataSize]
  have hkernel : pread b.record.bytes (3052 + 32) 256 = b.kernel.name.toList := by
    rw [b.pread_kernel (by decide), b.kernel.pread_name]
  have hkdim : pread b.record.bytes (3052 + 4) 4 = u32 1 := by
    rw [b.pread_kernel (by decide), b.kernel.pread_ndim, b.kernel_ndim]
  have hksize : pread b.record.bytes (3052 + 8) 8 = u64 b.kernel.dataSize := by
    rw [b.pread_kernel (by decide), b.kernel.pread_dataSize]
  have hwhole : b.task.dataSize % 20 = 0 := by
    apply UInt64.toNat_inj.mp
    rw [UInt64.toNat_mod, b.task_size, toNat_ofNat_of_lt (by omega)]
    exact b.whole
  have hsum : b.task.dataSize + b.kernel.dataSize =
      UInt64.ofNat (b.taskData.length + b.kernelData.length) := by
    rw [b.task_size, b.kernel_size, UInt64.ofNat_add]
  have hend : (388 + 2664 + 2664 + 8 +
      longOfU64 (UInt64.ofNat (b.taskData.length + b.kernelData.length)) : ℤ) =
      (5724 + (b.taskData.length + b.kernelData.length) : ℕ) := by
    rw [longOfU64_ofNat b.size_lt]
    omega
  have hins : (388 + 2664 + 2664 + 8 + longOfU64 b.task.dataSize : ℤ) =
      (5724 + b.taskData.length : ℕ) := by
    rw [b.task_size, longOfU64_ofNat (by omega)]
    omega
  have htail : (b.kernel.dataSize + 8).toNat = b.kernelData.length + 8 := by
    rw [UInt64.toNat_add, b.kernel_size, toNat_ofNat_of_lt (by omega)]
    change (b.kernelData.length + 8) % 2 ^ 64 = _
    omega
  have hread : pread b.record.bytes (5724 + b.taskData.length) (b.kernel.dataSize + 8).toNat =
      b.kernelData ++ tpbRafBuildMagic .record .tbatch .posEnd := by
    rw [htail, b.pread_tail]
  rw [← b.pwrite_counts id h, ← b.pwrite_id id]
  refine bind_then (fread_run b.record.pread_magic rfl) ?_
  refine bind_then (check_run (tpbRafValidateMagic_self _ _ _) _) ?_
  refine bind_then (readU64_run hmeta) ?_
  refine bind_then (readU64_run hsize) ?_
  refine bind_then (fseek_run rfl) ?_
  refine bind_then (readU32_run b.pread_nheader) ?_
  refine bind_then (check_run rfl _) ?_
  refine bind_then (fseek_run rfl) ?_
  refine bind_then (fread_run htask (List.Vector.toList_length _)) ?_
  refine bind_then (check_run htname _) ?_
  refine bind_then (tpbRafL1HdrSerializedLenAt_run 388 htdim) ?_
  refine bind_then (fseek_run rfl) ?_
  refine bind_then (fread_run hkernel (List.Vector.toList_length _)) ?_
  refine bind_then (check_run hkname _) ?_
  refine bind_then (tpbRafL1HdrSerializedLenAt_run 3052 hkdim) ?_
  refine bind_then (fseek_run rfl) ?_
  refine bind_then (readU64_run htsize) ?_
  refine bind_then (fseek_run rfl) ?_
  refine bind_then (readU64_run hksize) ?_
  refine bind_then (check_run hwhole _) ?_
  refine bind_then (check_run hsum _) ?_
  refine bind_then (fseek_run hend) ?_
  refine bind_then (fread_run b.pread_end rfl) ?_
  refine bind_then (check_run (tpbRafValidateMagic_self _ _ _) _) ?_
  refine bind_then (fseek_run hins) ?_
  refine bind_then (fread_run hread (by rw [htail]; simp)) ?_
  refine bind_then (fseek_run hins) ?_
  refine bind_then (fwrite_run _ _ _) ?_
  rw [id.toList_length]
  refine bind_then (fwrite_run _ _ _) ?_
  refine bind_then (fseek_run rfl) ?_
  refine bind_then (fwrite_run _ _ _) ?_
  refine bind_then (fseek_run rfl) ?_
  refine bind_then (fwrite_run _ _ _) ?_
  exact bind_then (fseek_run rfl) rfl

end OneBatchAppend

/-! ### Sequences of appends -/

/-- Append IDs one after another. -/
def appendAll (tbatchId : Id20) : List Id20 → WsM Unit
  | [] => pure ()
  | t :: ts => do
      tpbRafRecordAppendTbatch tbatchId t
      appendAll tbatchId ts

/-- What `n` appends do to the first header: the note keeps the last number written into
it. -/
def MetaHeader.linkedBy (h : MetaHeader) (n : ℕ) : MetaHeader :=
  if n = 0 then h else
    MetaHeader.scribble { h with dataSize := h.dataSize + UInt64.ofNat (20 * n) }
      ((h.dataSize + UInt64.ofNat (20 * n)) / 20)

/-- A second number in the note replaces the first. -/
theorem MetaHeader.scribble_scribble (h : MetaHeader) (v w : UInt64) :
    (h.scribble v).scribble w = h.scribble w := by
  have hnote : pwrite (pwrite h.note.toList 1792 (u64 v)) 1792 (u64 w) =
      pwrite h.note.toList 1792 (u64 w) :=
    pwrite_pwrite (by simp) (by simp)
  have htoList := h.toList_note_scribble v
  simp only [MetaHeader.scribble] at htoList ⊢
  rw [htoList, hnote]

/-- One append and `n` more are `n + 1` appends. -/
theorem MetaHeader.linkedBy_linked (h : MetaHeader) (n : ℕ) :
    h.linked.linkedBy n = h.linkedBy (n + 1) := by
  have hsize : h.dataSize + 20 + UInt64.ofNat (20 * n) =
      h.dataSize + UInt64.ofNat (20 * (n + 1)) := by
    rw [← ofNat_add_twenty, UInt64.add_assoc, UInt64.add_comm 20]
  by_cases hn : n = 0
  · subst hn
    simp [MetaHeader.linkedBy, MetaHeader.linked]
  · simp only [MetaHeader.linkedBy, if_neg hn, if_neg (Nat.succ_ne_zero n), ← hsize]
    exact MetaHeader.scribble_scribble
      { h with dataSize := h.dataSize + 20 + UInt64.ofNat (20 * n) } ((h.dataSize + 20) / 20) _

/-- The task batch after a sequence of appends. -/
def Batch.after (b : Batch) (ts : List Id20)
    (h : b.taskData.length + 20 * ts.length + b.kernelData.length < 2 ^ 63) : Batch where
  attr := b.attr
  task := b.task.linkedBy ts.length
  kernel := b.kernel
  taskData := b.taskData ++ idBytes ts
  kernelData := b.kernelData
  nheader_eq := b.nheader_eq
  task_ndim := by
    rw [MetaHeader.linkedBy]
    split <;> exact b.task_ndim
  kernel_ndim := b.kernel_ndim
  task_name := by
    rw [MetaHeader.linkedBy]
    split <;> exact b.task_name
  kernel_name := b.kernel_name
  task_size := by
    rw [MetaHeader.linkedBy, List.length_append, length_idBytes, UInt64.ofNat_add,
      ← b.task_size]
    split
    · rename_i hnil
      simp [hnil]
    · rfl
  kernel_size := b.kernel_size
  whole := by
    rw [List.length_append, length_idBytes, Nat.add_mul_mod_self_left]
    exact b.whole
  size_lt := by rwa [List.length_append, length_idBytes]

/-- **A sequence of appends** succeeds, and its effect is that of `Batch.after`. -/
theorem appendAll_run {ws : Workspace} (b : Batch) (ts : List Id20)
    (h : b.taskData.length + 20 * ts.length + b.kernelData.length < 2 ^ 63) {id : Id20}
    (hfile : ws.files (.record .tbatch id) = some b.record.bytes) :
    appendAll id ts ws = .ok () (ws.set (.record .tbatch id) (b.after ts h).record.bytes) := by
  induction ts generalizing b ws with
  | nil =>
      have hafter : b.after [] h = b := by
        simp [Batch.after, MetaHeader.linkedBy, idBytes]
      rw [hafter, Workspace.set_self hfile]
      rfl
  | cons t ts ih =>
      rw [List.length_cons] at h
      have hone : b.taskData.length + 20 + b.kernelData.length < 2 ^ 63 := by omega
      have hrest : (b.append t hone).taskData.length + 20 * ts.length +
          (b.append t hone).kernelData.length < 2 ^ 63 := by
        simp only [Batch.append, List.length_append, t.toList_length]
        omega
      have hafter : (b.append t hone).after ts hrest = b.after (t :: ts) h := by
        simp [Batch.after, Batch.append, MetaHeader.linkedBy_linked, idBytes]
      refine bind_then (fopenUpdate_ok hfile (appendTbatch_run b t hone)) ?_
      rw [ih (b.append t hone) hrest (Workspace.set_files_same _ _ _), hafter,
        Workspace.set_set]

/-! ### What the headers promise -/

/-- The first header as a reader expects it after `n` appends: its size grows by the size
of `n` IDs, and its first dimension is the number of IDs. -/
def MetaHeader.promised (h : MetaHeader) (n : ℕ) : MetaHeader :=
  MetaHeader.setDim0 { h with dataSize := h.dataSize + UInt64.ofNat (20 * n) }
    ((h.dataSize + UInt64.ofNat (20 * n)) / 20)

theorem MetaHeader.dim0_scribble (h : MetaHeader) (v : UInt64) :
    (h.scribble v).dim0 = h.dim0 := rfl

/-- Setting the first dimension to what it is changes nothing. -/
theorem MetaHeader.setDim0_self (h : MetaHeader) : h.setDim0 h.dim0 = h := by
  have hset : h.dimsizes.set 0 (h.dimsizes.get 0) = h.dimsizes := by
    apply List.Vector.ext
    intro i
    rw [List.Vector.get_set_eq_if]
    by_cases hi : 0 = i
    · rw [if_pos hi, ← hi]
    · rw [if_neg hi]
  rw [MetaHeader.setDim0, MetaHeader.dim0, hset]

/-- A number in the note changes nothing exactly when it stands there already. -/
theorem MetaHeader.note_scribble_iff (h : MetaHeader) (v : UInt64) :
    (h.scribble v).note = h.note ↔ pread h.note.toList 1792 8 = u64 v := by
  have hfits : 1792 + (u64 v).length ≤ h.note.toList.length := by simp
  have hiff := pwrite_eq_self_iff hfits
  rw [length_u64, ← h.toList_note_scribble v] at hiff
  rw [← hiff]
  exact List.Vector.toList_injective.eq_iff.symm

/-- The header after `n` appends reads as promised exactly when the first dimension is the
final number of IDs already, and so is the word in the note if there was an append. -/
theorem MetaHeader.norm_linkedBy_iff {h : MetaHeader} (hdim : h.ndim = 1) (n : ℕ) :
    (h.linkedBy n).norm = (h.promised n).norm ↔
      h.dim0 = (h.dataSize + UInt64.ofNat (20 * n)) / 20 ∧
        (n = 0 ∨ pread h.note.toList 1792 8 =
          u64 ((h.dataSize + UInt64.ofNat (20 * n)) / 20)) := by
  set N := (h.dataSize + UInt64.ofNat (20 * n)) / 20 with hN
  set g : MetaHeader := { h with dataSize := h.dataSize + UInt64.ofNat (20 * n) } with hg
  have hpromised : h.promised n = g.setDim0 N := rfl
  constructor
  · intro heq
    have hdim0 : (h.linkedBy n).dim0 = h.dim0 := by
      rw [MetaHeader.linkedBy]
      split <;> rfl
    have hndim : 1 ≤ (h.linkedBy n).ndim.toNat := by
      have hsame : (h.linkedBy n).ndim = h.ndim := by
        rw [MetaHeader.linkedBy]
        split <;> rfl
      rw [hsame, hdim]
      decide
    have hnote : (h.linkedBy n).norm.note = (h.promised n).norm.note :=
      congrArg MetaHeader.note heq
    have hgdim : 1 ≤ (g.setDim0 N).ndim.toNat := by
      have hsame : (g.setDim0 N).ndim = h.ndim := rfl
      rw [hsame, hdim]
      decide
    refine ⟨?_, ?_⟩
    · calc h.dim0 = (h.linkedBy n).norm.dim0 := by rw [MetaHeader.dim0_norm hndim, hdim0]
        _ = (g.setDim0 N).norm.dim0 := by rw [heq, hpromised]
        _ = N := by rw [MetaHeader.dim0_norm hgdim, MetaHeader.dim0_setDim0]
    · by_cases hn : n = 0
      · exact .inl hn
      · rw [MetaHeader.linkedBy, if_neg hn] at hnote
        exact .inr ((g.note_scribble_iff N).mp hnote)
  · rintro ⟨hd, hnote⟩
    have hset : g.setDim0 N = g := by
      rw [← hd]
      exact g.setDim0_self
    rw [hpromised, hset, MetaHeader.linkedBy]
    by_cases hn : n = 0
    · subst hn
      simp [hg]
    · have hsame := (g.note_scribble_iff N).mpr (hnote.resolve_left hn)
      rw [if_neg hn]
      refine congrArg MetaHeader.norm ?_
      change { g with note := (g.scribble N).note } = g
      rw [hsame]

/-- A record whose two one-dimensional headers are the link headers `h₀` and `h₁`, with
the IDs of `h₀` in whole and the payload of the two. -/
structure LinksTasks (r : Record tbatchFormat) (h₀ h₁ : MetaHeader) : Prop where
  headers_eq : r.headers = [h₀, h₁]
  task_ndim : h₀.ndim = 1
  kernel_ndim : h₁.ndim = 1
  task_name : cstr h₀.name.toList = taskIdName
  kernel_name : cstr h₁.name.toList = kernelIdName
  whole : h₀.dataSize.toNat % 20 = 0
  sizes : h₀.dataSize.toNat + h₁.dataSize.toNat = r.data.length

/-- What the reader is promised after the IDs `ts` were appended to a record: more IDs in
the first header and in the payload in front of the IDs of the second, and nothing else. -/
def promisedView (r : Record tbatchFormat) (h₀ h₁ : MetaHeader) (ts : List Id20) :
    RecordView TbatchAttr where
  attr := r.attr
  headers := [(h₀.promised ts.length).norm, h₁.norm]
  datasize := UInt64.ofNat (r.data.length + 20 * ts.length)
  data := r.data.take h₀.dataSize.toNat ++ idBytes ts ++ r.data.drop h₀.dataSize.toNat

section Promise

variable {r : Record tbatchFormat} {h₀ h₁ : MetaHeader}

/-- The task batch of a record with two link headers. -/
def LinksTasks.batch (h : LinksTasks r h₀ h₁) (hlt : r.data.length < 2 ^ 63) : Batch where
  attr := r.attr
  task := h₀
  kernel := h₁
  taskData := r.data.take h₀.dataSize.toNat
  kernelData := r.data.drop h₀.dataSize.toNat
  nheader_eq := by
    apply UInt32.toNat_inj.mp
    have hn : r.headers.length = r.attr.nheader.toNat := r.nheader_eq
    rw [← hn, h.headers_eq]
    rfl
  task_ndim := h.task_ndim
  kernel_ndim := h.kernel_ndim
  task_name := h.task_name
  kernel_name := h.kernel_name
  task_size := by
    rw [List.length_take_of_le (by have := h.sizes; omega), UInt64.ofNat_toNat]
  kernel_size := by
    rw [List.length_drop, ← h.sizes, Nat.add_sub_cancel_left, UInt64.ofNat_toNat]
  whole := by
    rw [List.length_take_of_le (by have := h.sizes; omega)]
    exact h.whole
  size_lt := by rwa [← List.length_append, List.take_append_drop]

/-- The file of a record with two link headers is the file of its task batch. -/
theorem LinksTasks.bytes_batch (h : LinksTasks r h₀ h₁) (hlt : r.data.length < 2 ^ 63) :
    (h.batch hlt).record.bytes = r.bytes := by
  have hdata : (h.batch hlt).record.data = r.data :=
    List.take_append_drop h₀.dataSize.toNat r.data
  have hsize : (h.batch hlt).record.datasize = r.datasize := by
    rw [Record.datasize, Record.datasize, hdata]
  have hheaders : (h.batch hlt).record.headers = r.headers := h.headers_eq.symm
  rw [Record.bytes_layout, Record.bytes_layout, hdata, hsize, hheaders]
  rfl

/-- What the reader returns after the IDs `ts` were appended to a record: the first header
is the one the appends leave. -/
def linkedView (r : Record tbatchFormat) (h₀ h₁ : MetaHeader) (ts : List Id20) :
    RecordView TbatchAttr where
  attr := r.attr
  headers := [(h₀.linkedBy ts.length).norm, h₁.norm]
  datasize := UInt64.ofNat (r.data.length + 20 * ts.length)
  data := r.data.take h₀.dataSize.toNat ++ idBytes ts ++ r.data.drop h₀.dataSize.toNat

/-- Every append to a record with two link headers succeeds, and the reader then returns
what `linkedView` says. -/
theorem LinksTasks.appends_run (h : LinksTasks r h₀ h₁) (ts : List Id20)
    (hlt : r.data.length + 20 * ts.length < 2 ^ 63) (ws : Workspace) :
    ∃ ws', (do tpbRafRecordWriteTbatch r.attr r.headers r.buf r.datasize
               appendAll r.attr.tbatchId ts) ws = .ok () ws' ∧
      tpbRafRecordReadTbatch r.attr.tbatchId true ws' = .ok (linkedView r h₀ h₁ ts) ws' := by
  have hlt₀ : r.data.length < 2 ^ 63 := by omega
  set b := h.batch hlt₀ with hb
  have hsum : b.taskData.length + b.kernelData.length = r.data.length := by
    rw [hb, ← List.length_append]
    exact congrArg List.length (List.take_append_drop h₀.dataSize.toNat r.data)
  have hroom : b.taskData.length + 20 * ts.length + b.kernelData.length < 2 ^ 63 := by omega
  have hfile : (ws.set (.record .tbatch r.attr.tbatchId) r.bytes).files
      (.record .tbatch r.attr.tbatchId) = some b.record.bytes := by
    rw [Workspace.set_files_same, hb, h.bytes_batch hlt₀]
  have hwrite : tpbRafRecordWriteTbatch r.attr r.headers r.buf r.datasize ws =
      .ok () (ws.set (.record .tbatch r.attr.tbatchId) r.bytes) := rfl
  have hsize : (b.after ts hroom).record.datasize =
      UInt64.ofNat (r.data.length + 20 * ts.length) := by
    have hdata : (b.after ts hroom).record.data =
        b.taskData ++ idBytes ts ++ b.kernelData := rfl
    rw [Record.datasize, hdata, List.length_append, List.length_append, length_idBytes, ← hsum]
    congr 1
    omega
  have hview : (b.after ts hroom).record.view = linkedView r h₀ h₁ ts := by
    rw [Record.view, linkedView, hsize]
    rfl
  refine ⟨_, bind_then hwrite (appendAll_run b ts hroom hfile), ?_⟩
  rw [← hview]
  exact recordRead_of_bytes (Workspace.set_files_same _ _ _)

/-- **Appends against the promise of the headers.** Every append to a record with two link
headers succeeds. What the reader then returns is what the headers promise exactly when
the first dimension of the first header was the final number of IDs before the first
append, and the word at offset 1792 of its note as well, unless nothing was appended. -/
theorem tbatch_appends_iff (h : LinksTasks r h₀ h₁) (ts : List Id20)
    (hlt : r.data.length + 20 * ts.length < 2 ^ 63) (ws : Workspace) :
    ∃ ws', (do tpbRafRecordWriteTbatch r.attr r.headers r.buf r.datasize
               appendAll r.attr.tbatchId ts) ws = .ok () ws' ∧
      (tpbRafRecordReadTbatch r.attr.tbatchId true ws' =
          .ok (promisedView r h₀ h₁ ts) ws' ↔
        h₀.dim0 = (h₀.dataSize + UInt64.ofNat (20 * ts.length)) / 20 ∧
          (ts = [] ∨ pread h₀.note.toList 1792 8 =
            u64 ((h₀.dataSize + UInt64.ofNat (20 * ts.length)) / 20))) := by
  obtain ⟨ws', hrun, hread⟩ := h.appends_run ts hlt ws
  have hview : linkedView r h₀ h₁ ts = promisedView r h₀ h₁ ts ↔
      (h₀.linkedBy ts.length).norm = (h₀.promised ts.length).norm := by
    constructor
    · intro heq
      exact (List.cons.inj (congrArg RecordView.headers heq)).1
    · intro heq
      rw [linkedView, promisedView, heq]
  refine ⟨ws', hrun, ?_⟩
  rw [hread, ← List.length_eq_zero_iff, ← MetaHeader.norm_linkedBy_iff h.task_ndim, ← hview]
  constructor
  · intro heq
    injection heq
  · intro heq
    rw [heq]

end Promise

/-- A batch without tasks, with the given first header. -/
def skeleton (h₀ : MetaHeader) (hdim : h₀.ndim = 1) : Record tbatchFormat where
  attr := { TbatchAttr.zero with nheader := 2 }
  headers := [h₀, linkHeader kernelIdName]
  buf := none
  nheader_eq := rfl
  ndim_le := by
    intro h hh
    simp only [List.mem_cons, List.not_mem_nil, or_false] at hh
    rcases hh with rfl | rfl
    · rw [hdim]
      decide
    · decide
  data_lt := data_lt_none

theorem skeleton_linksTasks (h₀ : MetaHeader) (hdim : h₀.ndim = 1)
    (hname : cstr h₀.name.toList = taskIdName) (hsize : h₀.dataSize = 0) :
    LinksTasks (skeleton h₀ hdim) h₀ (linkHeader kernelIdName) where
  headers_eq := rfl
  task_ndim := hdim
  kernel_ndim := rfl
  task_name := hname
  kernel_name := by decide +kernel
  whole := by
    rw [hsize]
    rfl
  sizes := by
    rw [hsize]
    rfl

/-- A first header that holds the number 1 before the first append, in its first dimension
and in its note, reads as promised after one append. -/
theorem tbatch_appends_prepared :
    let h₀ := ((linkHeader taskIdName).setDim0 1).scribble 1
    ∃ ws', (do tpbRafRecordWriteTbatch (skeleton h₀ rfl).attr (skeleton h₀ rfl).headers
                 (skeleton h₀ rfl).buf (skeleton h₀ rfl).datasize
               appendAll (skeleton h₀ rfl).attr.tbatchId [zeroArr 20]) Workspace.empty =
        .ok () ws' ∧
      tpbRafRecordReadTbatch (skeleton h₀ rfl).attr.tbatchId true ws' =
        .ok (promisedView (skeleton h₀ rfl) h₀ (linkHeader kernelIdName) [zeroArr 20]) ws' := by
  intro h₀
  have hname : cstr h₀.name.toList = taskIdName := by decide +kernel
  have hlinks := skeleton_linksTasks h₀ rfl hname rfl
  have hcount : (h₀.dataSize + UInt64.ofNat (20 * [zeroArr 20].length)) / 20 = 1 := by
    decide +kernel
  have hdim0 : h₀.dim0 = 1 := by
    rw [MetaHeader.dim0_scribble, MetaHeader.dim0_setDim0]
  have hnote : pread h₀.note.toList 1792 8 = u64 1 := by
    refine (h₀.note_scribble_iff 1).mp ?_
    rw [MetaHeader.scribble_scribble]
  obtain ⟨ws', hrun, hiff⟩ :=
    tbatch_appends_iff hlinks [zeroArr 20] (by decide) Workspace.empty
  rw [hcount] at hiff
  exact ⟨ws', hrun, hiff.mpr ⟨hdim0, .inr hnote⟩⟩

/-- One append to the batch a `tpb_record_begin_batch` call creates: the number of IDs does
not reach `dimsizes[0]`, and the note of the header is no longer empty. -/
theorem tbatch_append_misses_dim0 :
    let h₀ := linkHeader taskIdName
    ∃ ws', (do tpbRafRecordWriteTbatch (skeleton h₀ rfl).attr (skeleton h₀ rfl).headers
                 (skeleton h₀ rfl).buf (skeleton h₀ rfl).datasize
               appendAll (skeleton h₀ rfl).attr.tbatchId [zeroArr 20]) Workspace.empty =
        .ok () ws' ∧
      (∃ v h h', tpbRafRecordReadTbatch (skeleton h₀ rfl).attr.tbatchId true ws' = .ok v ws' ∧
        v.headers = [h, h'] ∧ h.dataSize = 20 ∧ h.dim0 = 0 ∧ h.note ≠ h₀.note) ∧
      tpbRafRecordReadTbatch (skeleton h₀ rfl).attr.tbatchId true ws' ≠
        .ok (promisedView (skeleton h₀ rfl) h₀ (linkHeader kernelIdName) [zeroArr 20]) ws' := by
  intro h₀
  have hname : cstr h₀.name.toList = taskIdName := by decide +kernel
  have hnote : (h₀.linkedBy [zeroArr 20].length).norm.note ≠ h₀.note := by decide +kernel
  have hdim0 : (h₀.linkedBy [zeroArr 20].length).norm.dim0 = 0 := by
    rw [MetaHeader.dim0_norm (by decide +kernel)]
    rfl
  obtain ⟨ws', hrun, hread⟩ := (skeleton_linksTasks h₀ rfl hname rfl).appends_run
    [zeroArr 20] (by decide) Workspace.empty
  refine ⟨ws', hrun, ?_, ?_⟩
  · exact ⟨_, _, _, hread, rfl, by decide +kernel, hdim0, hnote⟩
  rw [hread]
  intro heq
  injection heq with hview
  have hhead := (List.cons.inj (congrArg RecordView.headers hview)).1
  have hkept : (h₀.promised [zeroArr 20].length).norm.note = h₀.note := rfl
  rw [hhead] at hnote
  exact hnote hkept

end TPBench
