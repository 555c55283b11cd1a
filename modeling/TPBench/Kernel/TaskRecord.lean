import TPBench.Autorecord
import TPBench.Kernel.Names
import TPBench.Kernel.Outputs
import TPBench.Rtenv.Snapshot
import TPBench.Task.Blocks

/-!
# The Record a Kernel Leaves

When it is done, a kernel writes the record of its task (`tpb_record_write_task`): a header
and a value for each argument, a header and a block for each output it allocated, and the
three headers of the environment snapshot.

Three loops go over the outputs. The first counts those with a positive number of elements,
and as many slots are allocated for headers; the second fills the slots, and the third copies
the blocks, both for all outputs whose number is not zero. As the number is an `int`, a kernel
that asks for 2³¹ elements or more gets a number that is negative or too small. Where the
second loop runs out of slots, or a copy leaves a block, the model is undefined.

## Main definitions

* `buildTaskRecord` and `tpbRecordWriteTask`, the code;
* `TaskRecorded`, what a record has to be for a handle and the blocks its kernel has;
* `CountsFit`, the condition under which it is.

## Main results

* `task_recorded_iff` — for a handle as it is built and any allocations, the record is as it
  has to be exactly when the numbers of elements, and the sizes in total, fit.
-/

open CFile Conc

namespace TPBench

/-! ### The headers -/

/-- What identifies a task in its record. -/
structure TaskIdent where
  taskRecordId : Id20
  tbatchId : Id20
  kernelId : Id20
  utcBits : UInt64
  btime : UInt64
  exitCode : UInt32
  handleIndex : UInt32
  pid : UInt32
  tid : UInt32

/-- The attributes of the record. -/
def TaskIdent.attr (t : TaskIdent) (ninput noutput nheader : UInt32) : TaskAttr :=
  { TaskAttr.zero with
    taskRecordId := t.taskRecordId
    tbatchId := t.tbatchId
    kernelId := t.kernelId
    utcBits := t.utcBits
    btime := t.btime
    exitCode := t.exitCode
    handleIndex := t.handleIndex
    pid := t.pid
    tid := t.tid
    ninput, noutput, nheader }

/-- The row of the task table. -/
def TaskIdent.entry (t : TaskIdent) : TaskEntry where
  taskRecordId := t.taskRecordId
  inheritFrom := zeroArr 20
  tbatchId := t.tbatchId
  kernelId := t.kernelId
  utcBits := t.utcBits
  duration := 0
  exitCode := t.exitCode
  handleIndex := t.handleIndex
  deriveTo := zeroArr 20
  reserve := zeroArr 108

/-- The size of the value of an argument, which the code of its type holds. -/
def inputElemSize (a : ArgInfo) : UInt32 :=
  if (a.typeCode >>> 8) &&& 0xFF = 0 then 8 else (a.typeCode >>> 8) &&& 0xFF

/-- The header of an argument. -/
def inputHeader (a : ArgInfo) : MetaHeader :=
  MetaHeader.setDim0
    { MetaHeader.zero with
      blockSize := hdrFixedSize
      ndim := 1
      dataSize := (inputElemSize a).toUInt64
      typeBits := a.ctrlbits &&& (parmSourceMask ||| parmCheckMask ||| parmTypeMask)
      name := snprintfS 256 a.name
      tag := snprintfS 256 a.tag
      note := snprintfS 2048 a.note }
    1

/-- The size of the block of an output. The number of elements is converted from `int`. -/
def outputSize (o : KOutput) : UInt64 :=
  o.n.toInt64.toUInt64 * UInt64.ofNat ((tpbDtypeElemSize o.dtype).getD 0)

/-- The header of an output. -/
def outputHeader (o : KOutput) : MetaHeader :=
  MetaHeader.setDim0
    { MetaHeader.zero with
      blockSize := hdrFixedSize
      ndim := 1
      dataSize := outputSize o
      typeBits := o.dtype &&& parmTypeMask
      uattrBits := o.unit
      name := snprintfS 256 o.name
      tag := snprintfS 256 o.tag
      note := snprintfS 2048 o.note }
    o.n.toInt64.toUInt64

/-- Whether the first loop counts an output. -/
def isCounted (o : KOutput) : Bool := 0 < o.n ∧ o.p ≠ none

/-- Whether the second and the third loop take an output. -/
def isFilled (o : KOutput) : Bool := o.n ≠ 0 ∧ o.p ≠ none

/-- `noutput_written`. -/
def noutputWritten (h : Rthdl) : UInt32 := UInt32.ofNat (h.outputs.filter isCounted).length

/-- The headers that are filled. -/
def filledHeaders (h : Rthdl) : List MetaHeader :=
  h.args.map inputHeader ++ (h.outputs.filter isFilled).map outputHeader

/-! ### The payload -/

/-- The copy of the value of an argument, which has eight bytes. -/
def inputBytes (a : ArgInfo) : Except Err Bytes :=
  if 8 < inputElemSize a then .error .undefined
  else .ok ((u64 a.value).take (inputElemSize a).toNat)

/-- The copy of the block of an output. -/
def outputBytes (o : KOutput) : Except Err Bytes :=
  if (o.p.getD []).length < (outputSize o).toNat then .error .undefined
  else .ok ((o.p.getD []).take (outputSize o).toNat)

/-- A loop that copies one block after the other. -/
def copyAll {α : Type} (f : α → Except Err Bytes) : List α → Except Err Bytes
  | [] => .ok []
  | a :: as =>
      match f a with
      | .error e => .error e
      | .ok b =>
          match copyAll f as with
          | .error e => .error e
          | .ok bs => .ok (b ++ bs)

/-- The third loop, for the arguments and for the outputs. -/
def handlePayload (h : Rthdl) : Except Err Bytes :=
  match copyAll inputBytes h.args with
  | .error e => .error e
  | .ok ins =>
      match copyAll outputBytes (h.outputs.filter isFilled) with
      | .error e => .error e
      | .ok outs => .ok (ins ++ outs)

/-- The headers of a record with its payload and the size of the payload. -/
structure RecordParts where
  headers : List MetaHeader
  data : Bytes
  datasize : UInt64

/-- The part of the record that comes from the handle. The slots are allocated for `nheader`
headers, the memory for the sum of their sizes. -/
def handleParts (h : Rthdl) (nheader : UInt32) : Except Err RecordParts :=
  if nheader = 0 then .ok ⟨[], [], 0⟩
  else if nheader.toNat < (filledHeaders h).length then .error .undefined
  else
    match handlePayload h with
    | .error e => .error e
    | .ok data =>
        if (((filledHeaders h).map MetaHeader.dataSize).sum).toNat < data.length then
          .error .undefined
        else
          .ok ⟨filledHeaders h ++
              List.replicate (nheader.toNat - (filledHeaders h).length) MetaHeader.zero,
            data, ((filledHeaders h).map MetaHeader.dataSize).sum⟩

/-- The size of the payload of a snapshot. -/
def EnvSnapshot.size (s : EnvSnapshot) : ℕ :=
  s.keyBytes.length + s.countBytes.length + s.valueBytes.length

/-- `tpb_rtenv_append_env_snapshot_headers` on a record with `nheader` headers. -/
def appendSnapshot (snap : EnvSnapshot) (nheader : UInt32) (p : RecordParts) :
    Except Err RecordParts :=
  if 2 ^ 32 ≤ nheader.toNat + 3 ∨ 2 ^ 64 ≤ p.datasize.toNat + snap.size then .error .undefined
  else
    .ok ⟨(tpbRtenvAppendEnvSnapshotHeaders snap p.headers p.data).1,
      (tpbRtenvAppendEnvSnapshotHeaders snap p.headers p.data).2,
      p.datasize + UInt64.ofNat snap.size⟩

/-! ### The record -/

/-- The attributes of a record with the rest of it. -/
structure TaskBuild extends RecordParts where
  attr : TaskAttr

/-- `ninput + noutput_written`. -/
def nheaderOf (h : Rthdl) : UInt32 := UInt32.ofNat h.args.length + noutputWritten h

/-- The part of `tpb_record_write_task` that makes the record. -/
def buildTaskRecord (t : TaskIdent) (snap : EnvSnapshot) (h : Rthdl) : Except Err TaskBuild :=
  match handleParts h (nheaderOf h) with
  | .error e => .error e
  | .ok p =>
      match appendSnapshot snap (nheaderOf h) p with
      | .error e => .error e
      | .ok p' =>
          .ok ⟨p', t.attr (UInt32.ofNat h.args.length) (noutputWritten h) (nheaderOf h + 3)⟩

/-- `tpb_record_write_task`, once the task has its ID and `activeId` is the active
environment. -/
def tpbRecordWriteTask (t : TaskIdent) (activeId : Int32) (snap : EnvSnapshot) (h : Rthdl) :
    WsM Id20 :=
  match buildTaskRecord t snap h with
  | .error e => fun ws => .error (e.propagated .rafMisc) ws
  | .ok r => do
      propagate .rafMisc (tpbRafRecordWriteTask r.attr r.headers (some r.data) r.datasize)
      propagate .rafMisc (tpbRafEntryAppendTask t.entry)
      propagate .rafMisc (tpbRafRecordPatchRtenvCounters activeId 1 0)
      return t.taskRecordId

/-! ### What the record has to be -/

/-- The bytes that are recorded of an argument. -/
def inputValue (a : ArgInfo) : Bytes := (u64 a.value).take (inputElemSize a).toNat

/-- The record of a handle with the arguments `args` whose kernel has the blocks `asked` for its
outputs: there is a slot for each argument, each output and each header of the snapshot, the
counts and sizes are right, and when it was written and is read back, the value of every
argument and the block of every output are found. A block has the number of elements the kernel
asked for. -/
structure TaskRecorded (args : List ArgInfo) (asked : List Asked) (r : TaskBuild) : Prop where
  slots : r.headers.length = args.length + asked.length + 3
  nheader : r.attr.nheader.toNat = r.headers.length
  ninput : r.attr.ninput.toNat = args.length
  noutput : r.attr.noutput.toNat = asked.length
  sizes : claimed r.headers = r.datasize.toNat
  readback : ∀ ws : Workspace, ∃ v ws',
    (do tpbRafRecordWriteTask r.attr r.headers (some r.data) r.datasize
        tpbRafRecordReadTask r.attr.taskRecordId true) ws = .ok v ws' ∧
      (∀ (i : ℕ) (a : ArgInfo), args[i]? = some a → PointsTo v i (inputValue a)) ∧
      ∀ (j : ℕ) (x : Asked), asked[j]? = some x →
        x.block.length = x.n.toNat * x.esz ∧ PointsTo v (args.length + j) x.block

/-- The numbers of elements are less than 2³¹, and the payload and the number of headers can
be counted. -/
structure CountsFit (args : List ArgInfo) (snap : EnvSnapshot) (asked : List Asked) : Prop where
  counts : ∀ x ∈ asked, x.n.toNat < 2 ^ 31
  payload : (args.map fun a => (inputElemSize a).toNat).sum +
    (asked.map fun x => x.n.toNat * x.esz).sum + snap.size < 2 ^ 64
  headers : args.length + asked.length + 3 < 2 ^ 32

/-! ### Sizes -/

section Sizes

variable {o : KOutput} {x : Asked} {a : ArgInfo}

theorem tpbDtypeElemSize_le {dt : UInt32} {n : ℕ} (h : tpbDtypeElemSize dt = some n) :
    1 ≤ n ∧ n ≤ 16 := by
  unfold tpbDtypeElemSize at h
  simp only at h
  split_ifs at h <;> cases h <;> omega

/-- A count that is not negative is multiplied by the size of an element. -/
theorem toNat_outputSize {esz : ℕ} (hn : 0 ≤ o.n.toInt)
    (hesz : tpbDtypeElemSize o.dtype = some esz) :
    (outputSize o).toNat = o.n.toInt.toNat * esz := by
  have hle := (tpbDtypeElemSize_le hesz).2
  have hlt : o.n.toInt < 2 ^ 31 := o.n.toInt_lt
  have hconv : (o.n.toInt64.toUInt64).toNat = o.n.toInt.toNat := by
    rw [Int64.toNat_toUInt64_of_le (by rw [Int64.le_iff_toInt_le]; simpa using hn)]
    exact congrArg Int.toNat o.n.toInt_toInt64
  have hmul : o.n.toInt.toNat * esz ≤ 2 ^ 31 * 16 := Nat.mul_le_mul (by omega) hle
  rw [outputSize, hesz, Option.getD_some, UInt64.toNat_mul, hconv,
    UInt64.toNat_ofNat_of_lt' (by change esz < 2 ^ 64; omega)]
  exact Nat.mod_eq_of_lt (by omega)

/-- The size of the value of an argument of a kernel. -/
theorem inputElemSize_of_sized (h : SizedType a.typeCode) :
    1 ≤ (inputElemSize a).toNat ∧ (inputElemSize a).toNat ≤ 8 := by
  unfold inputElemSize
  rcases h with h | h | h | h
  · rw [h]
    decide
  · rw [h]
    decide
  · rw [h]
    decide
  · rw [h]
    decide

theorem length_inputValue (h : SizedType a.typeCode) :
    (inputValue a).length = (inputElemSize a).toNat := by
  have hle := (inputElemSize_of_sized h).2
  rw [inputValue, List.length_take, length_u64]
  omega

theorem inputBytes_of_sized (h : SizedType a.typeCode) : inputBytes a = .ok (inputValue a) := by
  have hle := (inputElemSize_of_sized h).2
  rw [inputBytes, if_neg ?_, inputValue]
  rw [UInt32.lt_iff_toNat_lt]
  change ¬8 < (inputElemSize a).toNat
  omega

/-- A loop whose copies all succeed. -/
theorem copyAll_ok {α : Type} {f : α → Except Err Bytes} {g : α → Bytes} {as : List α}
    (h : ∀ a ∈ as, f a = .ok (g a)) : copyAll f as = .ok (as.map g).flatten := by
  induction as with
  | nil => rfl
  | cons a as ih =>
      rw [copyAll, h a (by simp), ih fun b hb => h b (by simp [hb])]
      rfl

end Sizes

/-! ### The loops over the outputs -/

/-- An output whose number of elements is the one the kernel asked for. -/
structure KOutput.FilledBy (o : KOutput) (x : Asked) : Prop where
  p_eq : o.p = some x.block
  n_eq : o.n.toInt = x.n.toNat
  esz_eq : tpbDtypeElemSize o.dtype = some x.esz
  length_block : x.block.length = x.n.toNat * x.esz

/-- The blocks with elements among those a kernel has. -/
def written (as : List (Option Asked)) : List Asked := as.filterMap fun a => a.filter (·.n ≠ 0)

section Loops

variable {o : KOutput} {x : Asked} {os : List KOutput} {as : List (Option Asked)}

/-- A number of elements that an `int` holds. -/
theorem KOutput.Holds.filledBy (h : o.Holds (some x)) (hn : x.n.toNat < 2 ^ 31) :
    o.FilledBy x where
  p_eq := h.p_eq
  n_eq := by
    rw [h.n_eq x rfl]
    have hmod : x.n.toUInt32.toNat = x.n.toNat := by
      rw [UInt64.toNat_toUInt32]
      omega
    change (x.n.toUInt32.toBitVec).toInt = _
    rw [BitVec.toInt_eq_toNat_of_lt]
    · exact congrArg _ hmod
    · change 2 * x.n.toUInt32.toNat < 2 ^ 32
      omega
  esz_eq := h.esz_eq x rfl
  length_block := by
    have hle := (tpbDtypeElemSize_le (h.esz_eq x rfl)).2
    have hmul : x.n.toNat * x.esz ≤ 2 ^ 31 * 16 := Nat.mul_le_mul (by omega) hle
    rw [h.length_block x rfl, UInt64.toNat_mul,
      UInt64.toNat_ofNat_of_lt' (by change x.esz < 2 ^ 64; omega)]
    exact Nat.mod_eq_of_lt (by omega)

theorem KOutput.FilledBy.toNat_outputSize (h : o.FilledBy x) :
    (outputSize o).toNat = x.block.length := by
  have hn := h.n_eq
  rw [TPBench.toNat_outputSize (by omega) h.esz_eq, h.length_block, hn, Int.toNat_natCast]

/-- Only an output with elements is taken. -/
theorem written_of_isFilled {a : Option Asked} (h : o.Holds a) (hfilled : isFilled o = true) :
    ∃ x, a = some x ∧ x.n ≠ 0 := by
  simp only [isFilled, decide_eq_true_eq] at hfilled
  obtain ⟨hn, hp⟩ := hfilled
  rcases a with - | x
  · exact absurd h.p_eq hp
  · refine ⟨x, rfl, ?_⟩
    rintro hzero
    rw [h.n_eq x rfl, hzero] at hn
    exact hn rfl

theorem written_none : written (none :: as) = written as := rfl

theorem written_some_of_zero (hzero : x.n = 0) : written (some x :: as) = written as := by
  simp [written, Option.filter, hzero]

theorem written_some_of_ne (hne : x.n ≠ 0) : written (some x :: as) = x :: written as := by
  simp [written, Option.filter, hne]

/-- An output that is counted is taken. -/
theorem isFilled_of_isCounted (h : isCounted o = true) : isFilled o = true := by
  simp only [isCounted, isFilled, decide_eq_true_eq] at h ⊢
  refine ⟨?_, h.2⟩
  rintro hzero
  rw [hzero] at h
  exact absurd h.1 (by decide)

theorem KOutput.FilledBy.isCounted (h : o.FilledBy x) (hne : x.n ≠ 0) : isCounted o = true := by
  have hpos : 0 < x.n.toNat := Nat.pos_of_ne_zero fun h0 => hne (UInt64.toNat_inj.mp h0)
  have hn := h.n_eq
  simp only [TPBench.isCounted, decide_eq_true_eq, Int32.lt_iff_toInt_lt, Int32.toInt_zero, h.p_eq]
  exact ⟨by omega, by simp⟩

/-- With numbers of elements that fit, the outputs that are counted are those that are taken,
and they are those with elements. -/
theorem filledBy_of_counts (h : List.Forall₂ KOutput.Holds os as)
    (hcounts : ∀ x ∈ written as, x.n.toNat < 2 ^ 31) :
    os.filter isCounted = os.filter isFilled ∧
      List.Forall₂ KOutput.FilledBy (os.filter isFilled) (written as) := by
  induction h with
  | nil => exact ⟨rfl, .nil⟩
  | @cons o a os as ho _ ih =>
      by_cases hfilled : isFilled o = true
      · obtain ⟨x, rfl, hne⟩ := written_of_isFilled ho hfilled
        rw [written_some_of_ne hne] at hcounts ⊢
        obtain ⟨hfilter, hforall⟩ := ih fun y hy => hcounts y (by simp [hy])
        have hby := ho.filledBy (hcounts x (by simp))
        rw [List.filter_cons_of_pos (hby.isCounted hne), List.filter_cons_of_pos hfilled, hfilter]
        exact ⟨rfl, .cons hby hforall⟩
      · have hskip : written (a :: as) = written as := by
          rcases a with - | x
          · exact written_none
          · refine written_some_of_zero ?_
            by_contra hne
            rw [written_some_of_ne hne] at hcounts
            have hby := ho.filledBy (hcounts x (by simp))
            exact hfilled (isFilled_of_isCounted (hby.isCounted hne))
        rw [hskip] at hcounts ⊢
        rw [List.filter_cons_of_neg fun hc => hfilled (isFilled_of_isCounted hc),
          List.filter_cons_of_neg hfilled]
        exact ih hcounts

/-- At most as many outputs are taken as have elements, and when it is as many, they are the
same. -/
theorem holds_of_length (h : List.Forall₂ KOutput.Holds os as) :
    (os.filter isFilled).length ≤ (written as).length ∧
      ((os.filter isFilled).length = (written as).length →
        List.Forall₂ (fun o x => o.Holds (some x)) (os.filter isFilled) (written as)) := by
  induction h with
  | nil => exact ⟨le_rfl, fun _ => .nil⟩
  | @cons o a os as ho _ ih =>
      obtain ⟨hle, hforall⟩ := ih
      by_cases hfilled : isFilled o = true
      · obtain ⟨x, rfl, hne⟩ := written_of_isFilled ho hfilled
        rw [List.filter_cons_of_pos hfilled, written_some_of_ne hne, List.length_cons,
          List.length_cons]
        refine ⟨by omega, fun heq => .cons ho (hforall ?_)⟩
        omega
      · rw [List.filter_cons_of_neg hfilled]
        rcases a with - | x
        · exact ⟨hle, hforall⟩
        · by_cases hzero : x.n = 0
          · rw [written_some_of_zero hzero]
            exact ⟨hle, hforall⟩
          · rw [written_some_of_ne hzero, List.length_cons]
            exact ⟨by omega, fun heq => by omega⟩

end Loops

/-! ### The record is built -/

section Build

variable {t : TaskIdent} {snap : EnvSnapshot} {h : Rthdl} {as : List (Option Asked)}

/-- The blocks of the payload in front of the snapshot. -/
def handleBlocks (args : List ArgInfo) (asked : List Asked) : List Bytes :=
  args.map inputValue ++ asked.map Asked.block

/-- The blocks of the snapshot. -/
def EnvSnapshot.blocks (s : EnvSnapshot) : List Bytes := [s.keyBytes, s.countBytes, s.valueBytes]

theorem EnvSnapshot.length_flatten_blocks (s : EnvSnapshot) : s.blocks.flatten.length = s.size := by
  simp only [EnvSnapshot.blocks, List.flatten_cons, List.flatten_nil, List.append_nil,
    List.length_append, EnvSnapshot.size]
  omega

theorem sizesOf_snapshot (hlt : snap.size < 2 ^ 64) : SizesOf snap.headers snap.blocks := by
  have hcount : snap.countBytes.length = 4 * max snap.counts.length 1 := by
    rw [EnvSnapshot.countBytes]
    split
    · rw [List.length_flatMap]
      simp
      omega
    · rw [length_i32]
      omega
  have hofNat : ∀ n, n < 2 ^ 64 → (UInt64.ofNat n).toNat = n := fun n hn =>
    UInt64.toNat_ofNat_of_lt' hn
  rw [EnvSnapshot.size] at hlt
  have h₁ := hofNat snap.keyBytes.length (by omega)
  have h₂ := hofNat (4 * max snap.counts.length 1) (by omega)
  have h₃ := hofNat snap.valueBytes.length (by omega)
  simp only [SizesOf, EnvSnapshot.headers, EnvSnapshot.blocks, List.map_cons, List.map_nil, hcount]
  change [_, _, _] = _
  rw [show (envHeader hdrEnvKey tpbStringT (UInt64.ofNat snap.keyBytes.length)
      (UInt64.ofNat snap.keyBytes.length)).dataSize.toNat = snap.keyBytes.length from h₁,
    show (envHeader hdrEnvCount tpbInt32T (UInt64.ofNat snap.counts.length)
      (UInt64.ofNat (4 * max snap.counts.length 1))).dataSize.toNat =
        4 * max snap.counts.length 1 from h₂,
    show (envHeader hdrEnvValue tpbStringT (UInt64.ofNat snap.valueBytes.length)
      (UInt64.ofNat snap.valueBytes.length)).dataSize.toNat = snap.valueBytes.length from h₃]

/-- The headers of the arguments have the sizes of the values. -/
theorem sizesOf_inputs {args : List ArgInfo} (hargs : ∀ a ∈ args, SizedType a.typeCode) :
    SizesOf (args.map inputHeader) (args.map inputValue) := by
  rw [SizesOf, List.map_map, List.map_map]
  refine List.map_congr_left fun a ha => ?_
  change (inputElemSize a).toUInt64.toNat = (inputValue a).length
  rw [length_inputValue (hargs a ha), UInt32.toNat_toUInt64]

/-- The headers of outputs with the numbers asked for have the sizes of the blocks. -/
theorem sizesOf_outputs {os : List KOutput} {xs : List Asked}
    (h : List.Forall₂ KOutput.FilledBy os xs) :
    SizesOf (os.map outputHeader) (xs.map Asked.block) := by
  rw [SizesOf, List.map_map, List.map_map]
  induction h with
  | nil => rfl
  | cons hby _ ih =>
      rw [List.map_cons, List.map_cons, ih]
      exact congrArg (· :: _) hby.toNat_outputSize

/-- The blocks have the numbers of elements asked for. -/
theorem length_blocks {os : List KOutput} {xs : List Asked}
    (h : List.Forall₂ KOutput.FilledBy os xs) :
    (xs.map Asked.block).flatten.length = (xs.map fun x => x.n.toNat * x.esz).sum := by
  induction h with
  | nil => rfl
  | cons hby _ ih =>
      rw [List.map_cons, List.flatten_cons, List.length_append, ih, hby.length_block,
        List.map_cons, List.sum_cons]

theorem length_inputValues {args : List ArgInfo} (hargs : ∀ a ∈ args, SizedType a.typeCode) :
    (args.map inputValue).flatten.length = (args.map fun a => (inputElemSize a).toNat).sum := by
  rw [List.length_flatten, List.map_map]
  exact congrArg _ (List.map_congr_left fun a ha => length_inputValue (hargs a ha))

theorem copyAll_outputs {os : List KOutput} {xs : List Asked}
    (h : List.Forall₂ KOutput.FilledBy os xs) :
    copyAll outputBytes os = .ok (xs.map Asked.block).flatten := by
  induction h with
  | nil => rfl
  | @cons o x os xs hby _ ih =>
      have hsize := hby.toNat_outputSize
      have hok : outputBytes o = .ok x.block := by
        rw [outputBytes, hby.p_eq, Option.getD_some, if_neg (by omega), hsize, List.take_length]
      rw [copyAll, hok, ih]
      rfl

/-- **The part of the handle**, for numbers of elements that fit: the headers of the arguments
and outputs, with the blocks of them. -/
theorem handleParts_of_fit (hargs : ∀ a ∈ h.args, SizedType a.typeCode)
    (hholds : List.Forall₂ KOutput.Holds h.outputs as) (hfit : CountsFit h.args snap (written as)) :
    (noutputWritten h).toNat = (written as).length ∧
      (nheaderOf h).toNat = h.args.length + (written as).length ∧
      SizesOf (filledHeaders h) (handleBlocks h.args (written as)) ∧
      ∃ p, handleParts h (nheaderOf h) = .ok p ∧ p.headers = filledHeaders h ∧
        p.data = (handleBlocks h.args (written as)).flatten ∧
        p.datasize.toNat = p.data.length := by
  obtain ⟨hfilter, hby⟩ := filledBy_of_counts hholds hfit.counts
  have hheaders := hfit.headers
  have hlen : (h.outputs.filter isFilled).length = (written as).length := hby.length_eq
  have hwritten : (noutputWritten h).toNat = (written as).length := by
    rw [noutputWritten, hfilter, hlen]
    exact UInt32.toNat_ofNat_of_lt' (by change (written as).length < 2 ^ 32; omega)
  have hnheader : (nheaderOf h).toNat = h.args.length + (written as).length := by
    have hn : (UInt32.ofNat h.args.length).toNat = h.args.length :=
      UInt32.toNat_ofNat_of_lt' (by change h.args.length < 2 ^ 32; omega)
    rw [nheaderOf, UInt32.toNat_add, hn, hwritten, Nat.mod_eq_of_lt (by omega)]
  have hsizes : SizesOf (filledHeaders h) (handleBlocks h.args (written as)) :=
    (sizesOf_inputs hargs).append (sizesOf_outputs hby)
  have hcount : (filledHeaders h).length = (nheaderOf h).toNat := by
    rw [filledHeaders, List.length_append, List.length_map, List.length_map, hlen, hnheader]
  have hclaimed : claimed (filledHeaders h) < 2 ^ 64 := by
    have hpayload := hfit.payload
    rw [hsizes.claimed_eq, handleBlocks, List.flatten_append, List.length_append,
      length_inputValues hargs, length_blocks hby]
    omega
  have hsum := toNat_sum_dataSize hclaimed
  refine ⟨hwritten, hnheader, hsizes, ?_⟩
  rw [handleParts]
  by_cases hzero : nheaderOf h = 0
  · rw [if_pos hzero]
    rw [hzero] at hcount
    have hnil : filledHeaders h = [] := List.length_eq_zero_iff.mp hcount
    have hblocks : handleBlocks h.args (written as) = [] := by
      rw [hnil] at hsizes
      exact List.length_eq_zero_iff.mp hsizes.length_eq.symm
    exact ⟨_, rfl, hnil.symm, by rw [hblocks]; rfl, rfl⟩
  · have hpayload : handlePayload h = .ok (handleBlocks h.args (written as)).flatten := by
      rw [handlePayload, copyAll_ok fun a ha => inputBytes_of_sized (hargs a ha),
        copyAll_outputs hby, handleBlocks, List.flatten_append]
    have hdata : claimed (filledHeaders h) = (handleBlocks h.args (written as)).flatten.length :=
      hsizes.claimed_eq
    rw [if_neg hzero, if_neg (by omega), hpayload]
    simp only
    rw [if_neg (by omega)]
    refine ⟨_, rfl, ?_, rfl, ?_⟩
    · simp only
      rw [hcount, Nat.sub_self, List.replicate_zero, List.append_nil]
    · simp only
      omega

/-! ### The record is read back -/

/-- A loop that copies ends with one block for each round. -/
theorem copyAll_eq_ok {α : Type} {f : α → Except Err Bytes} {l : List α} {bs : Bytes}
    (hok : copyAll f l = .ok bs) :
    ∃ blocks, bs = blocks.flatten ∧ List.Forall₂ (fun a b => f a = .ok b) l blocks := by
  induction l generalizing bs with
  | nil =>
      cases hok
      exact ⟨[], rfl, .nil⟩
  | cons a l ih =>
      rw [copyAll] at hok
      split at hok
      · cases hok
      · rename_i b hb
        split at hok
        · cases hok
        · rename_i bs' hbs
          cases hok
          obtain ⟨blocks, rfl, hforall⟩ := ih hbs
          exact ⟨b :: blocks, rfl, .cons hb hforall⟩

theorem sizesOf_of_forall₂ {α : Type} {f : α → Except Err Bytes} {header : α → MetaHeader}
    {l : List α} {blocks : List Bytes}
    (hlen : ∀ a b, f a = .ok b → (header a).dataSize.toNat = b.length)
    (h : List.Forall₂ (fun a b => f a = .ok b) l blocks) : SizesOf (l.map header) blocks := by
  induction h with
  | nil => rfl
  | cons hb _ ih =>
      rw [SizesOf] at ih ⊢
      rw [List.map_cons, List.map_cons, ih, hlen _ _ hb, List.map_cons]

theorem length_of_inputBytes {a : ArgInfo} {b : Bytes} (hok : inputBytes a = .ok b) :
    (inputHeader a).dataSize.toNat = b.length := by
  rw [inputBytes] at hok
  split_ifs at hok with hlarge
  cases hok
  rw [UInt32.lt_iff_toNat_lt] at hlarge
  have hle : (inputElemSize a).toNat ≤ 8 := by
    change ¬8 < _ at hlarge
    omega
  change (inputElemSize a).toUInt64.toNat = _
  rw [UInt32.toNat_toUInt64, List.length_take, length_u64]
  omega

theorem length_of_outputBytes {o : KOutput} {b : Bytes} (hok : outputBytes o = .ok b) :
    (outputHeader o).dataSize.toNat = b.length := by
  rw [outputBytes] at hok
  split_ifs at hok with hshort
  cases hok
  rw [List.length_take]
  change (outputSize o).toNat = _
  omega

/-- A slot that is not filled has no data. -/
theorem sum_sizes_replicate (k : ℕ) :
    ((List.replicate k MetaHeader.zero).map MetaHeader.dataSize).sum = 0 := by
  induction k with
  | zero => rfl
  | succ k ih => rw [List.replicate_succ, List.map_cons, List.sum_cons, ih]; rfl

/-- Headers, payload and size of a record belong together. -/
structure RecordParts.Fits (p : RecordParts) (blocks : List Bytes) : Prop where
  sizes : SizesOf p.headers blocks
  data_eq : p.data = blocks.flatten
  ndim_le : ∀ hd ∈ p.headers, hd.ndim.toNat ≤ ndimMax

/-- What the part of the handle is when it can be built. -/
theorem fits_of_handleParts {n : UInt32} {p : RecordParts} (hok : handleParts h n = .ok p) :
    ∃ blocks, p.Fits blocks ∧ p.data.length ≤ p.datasize.toNat ∧ p.headers.length = n.toNat ∧
      p.datasize = (p.headers.map MetaHeader.dataSize).sum ∧
      (n ≠ 0 → (filledHeaders h).length ≤ n.toNat ∧ filledHeaders h <+: p.headers) := by
  rw [handleParts] at hok
  split_ifs at hok with hzero hslots
  · cases hok
    refine ⟨[], ⟨rfl, rfl, by simp⟩, le_rfl, by rw [hzero]; rfl, rfl, fun hne => absurd hzero hne⟩
  · split at hok
    · cases hok
    · rename_i data hdata
      split_ifs at hok with hsum
      cases hok
      rw [handlePayload] at hdata
      split at hdata
      · cases hdata
      · rename_i ins hins
        split at hdata
        · cases hdata
        · rename_i outs houts
          cases hdata
          obtain ⟨bins, rfl, hbins⟩ := copyAll_eq_ok hins
          obtain ⟨bouts, rfl, hbouts⟩ := copyAll_eq_ok houts
          set k := n.toNat - (filledHeaders h).length with hk
          have hfilled : SizesOf (filledHeaders h) (bins ++ bouts) :=
            (sizesOf_of_forall₂ (fun _ _ => length_of_inputBytes) hbins).append
              (sizesOf_of_forall₂ (fun _ _ => length_of_outputBytes) hbouts)
          have hpad : SizesOf (List.replicate k MetaHeader.zero) (List.replicate k []) := by
            rw [SizesOf, List.map_replicate, List.map_replicate]
            rfl
          refine ⟨bins ++ bouts ++ List.replicate k [], ⟨hfilled.append hpad, ?_, ?_⟩, ?_, ?_, ?_,
            fun _ => ⟨by omega, List.prefix_append _ _⟩⟩
          · simp
          · intro hd hmem
            simp only [filledHeaders, List.mem_append, List.mem_map, List.mem_replicate] at hmem
            rcases hmem with (⟨a, -, rfl⟩ | ⟨o, -, rfl⟩) | ⟨-, rfl⟩
            · exact (by decide : (1 : ℕ) ≤ ndimMax)
            · exact (by decide : (1 : ℕ) ≤ ndimMax)
            · exact (by decide : (0 : ℕ) ≤ ndimMax)
          · simpa using hsum
          · rw [List.length_append, List.length_replicate]
            omega
          · rw [List.map_append, List.sum_append, sum_sizes_replicate, UInt64.add_zero]

/-- What the parts are once the snapshot is appended. -/
theorem fits_of_appendSnapshot {n : UInt32} {p p' : RecordParts} {blocks : List Bytes}
    (hfits : p.Fits blocks) (hok : appendSnapshot snap n p = .ok p') :
    p'.Fits (blocks ++ snap.blocks) ∧ p'.headers = p.headers ++ snap.headers ∧
      p'.data.length = p.data.length + snap.size ∧
      p'.datasize.toNat = p.datasize.toNat + snap.size ∧ n.toNat + 3 < 2 ^ 32 := by
  rw [appendSnapshot] at hok
  split_ifs at hok with hlarge
  cases hok
  rw [not_or, not_le, not_le] at hlarge
  have hsnap : snap.size < 2 ^ 64 := by omega
  have hone : ∀ n ty d z, (envHeader n ty d z).ndim.toNat ≤ ndimMax := fun _ _ _ _ =>
    (by decide : (1 : ℕ) ≤ ndimMax)
  refine ⟨⟨hfits.sizes.append (sizesOf_snapshot hsnap), ?_, ?_⟩, rfl, ?_, ?_, hlarge.1⟩
  · simp [tpbRtenvAppendEnvSnapshotHeaders, hfits.data_eq, EnvSnapshot.blocks]
  · intro hd hmem
    rcases List.mem_append.mp hmem with hmem | hmem
    · exact hfits.ndim_le hd hmem
    · simp only [EnvSnapshot.headers, List.mem_cons, List.not_mem_nil, or_false] at hmem
      rcases hmem with rfl | rfl | rfl
      · exact hone _ _ _ _
      · exact hone _ _ _ _
      · exact hone _ _ _ _
  · simp only [tpbRtenvAppendEnvSnapshotHeaders, List.length_append, EnvSnapshot.size]
    omega
  · simp only
    rw [UInt64.toNat_add, UInt64.toNat_ofNat_of_lt' hsnap, Nat.mod_eq_of_lt hlarge.2]

/-- **Writing and reading back**: the pointers lead to the blocks. -/
theorem readback_of_fits {r : TaskBuild} {blocks : List Bytes} (hfits : r.Fits blocks)
    (hn : r.attr.nheader.toNat = r.headers.length) (hlen : r.datasize.toNat = r.data.length)
    (hne : r.data ≠ []) (ws : Workspace) :
    ∃ v ws', (do tpbRafRecordWriteTask r.attr r.headers (some r.data) r.datasize
                 tpbRafRecordReadTask r.attr.taskRecordId true) ws = .ok v ws' ∧
      v.headers = r.headers.map MetaHeader.norm ∧
      ∀ (i : ℕ) (b : Bytes), blocks[i]? = some b → PointsTo v i b := by
  have hlt := r.datasize.toNat_lt
  let rec₀ : Record taskFormat :=
    { attr := r.attr, headers := r.headers, buf := some r.data, nheader_eq := hn.symm,
      ndim_le := hfits.ndim_le, data_lt := by rw [Option.getD_some]; omega }
  have hsize : rec₀.datasize = r.datasize := by
    refine UInt64.toNat_inj.mp ?_
    rw [rec₀.toNat_datasize, hlen]
    rfl
  have hrun := recordRead_recordWrite rec₀ ws
  rw [hsize] at hrun
  refine ⟨rec₀.view, _, hrun, rfl, ?_⟩
  intro i b hb
  refine pointsTo_of_blocks ?_ hfits.data_eq ?_ hne hb
  · change SizesOf (r.headers.map MetaHeader.norm) blocks
    rw [SizesOf, List.map_map]
    exact hfits.sizes
  · change rec₀.datasize.toNat = _
    rw [hsize, hlen]
    rfl

/-! ### When the record is as it has to be -/

theorem buildTaskRecord_eq_ok {r : TaskBuild} : buildTaskRecord t snap h = .ok r ↔
    ∃ p p', handleParts h (nheaderOf h) = .ok p ∧ appendSnapshot snap (nheaderOf h) p = .ok p' ∧
      r = ⟨p', t.attr (UInt32.ofNat h.args.length) (noutputWritten h) (nheaderOf h + 3)⟩ := by
  rw [buildTaskRecord]
  constructor
  · intro hok
    split at hok
    · cases hok
    · rename_i p hp
      split at hok
      · cases hok
      · rename_i p' hp'
        cases hok
        exact ⟨p, p', hp, hp', rfl⟩
  · rintro ⟨p, p', hp, hp', rfl⟩
    rw [hp]
    simp only [hp']

theorem toNat_nheader_add {n : UInt32} (hn : n.toNat + 3 < 2 ^ 32) :
    (n + 3).toNat = n.toNat + 3 := by
  rw [UInt32.toNat_add]
  exact Nat.mod_eq_of_lt hn

/-- The payload of a snapshot is not empty. -/
theorem EnvSnapshot.size_pos (s : EnvSnapshot) : 0 < s.size := by
  simp only [EnvSnapshot.size, EnvSnapshot.keyBytes, List.length_append, List.length_singleton]
  omega

/-- Numbers of elements that fit make the record as it has to be. -/
theorem recorded_of_fit (t : TaskIdent) (hargs : ∀ a ∈ h.args, SizedType a.typeCode)
    (hholds : List.Forall₂ KOutput.Holds h.outputs as) (hfit : CountsFit h.args snap (written as)) :
    ∃ r, buildTaskRecord t snap h = .ok r ∧ TaskRecorded h.args (written as) r := by
  obtain ⟨hwritten, hnheader, hsizes, p, hp, hheaders, hdata, hlen⟩ :=
    handleParts_of_fit hargs hholds hfit
  obtain ⟨-, hby⟩ := filledBy_of_counts hholds hfit.counts
  have hpayload := hfit.payload
  have hcount := hfit.headers
  have hdatalen : p.data.length = (h.args.map fun a => (inputElemSize a).toNat).sum +
      ((written as).map fun x => x.n.toNat * x.esz).sum := by
    rw [hdata, handleBlocks, List.flatten_append, List.length_append, length_inputValues hargs,
      length_blocks hby]
  have hp' : ∃ p', appendSnapshot snap (nheaderOf h) p = .ok p' := by
    rw [appendSnapshot, if_neg]
    · exact ⟨_, rfl⟩
    · rw [not_or, not_le, not_le]
      omega
  obtain ⟨p', hp'⟩ := hp'
  obtain ⟨blocks, hfits, -, -, -, -⟩ := fits_of_handleParts hp
  have hfits₀ : p.Fits (handleBlocks h.args (written as)) := by
    refine ⟨?_, hdata, hfits.ndim_le⟩
    rw [hheaders]
    exact hsizes
  obtain ⟨hfits', hheaders', hlen', hsize', hn⟩ := fits_of_appendSnapshot hfits₀ hp'
  have hslots : p'.headers.length = h.args.length + (written as).length + 3 := by
    have hblocks := hfits'.sizes.length_eq
    rw [hblocks, List.length_append, handleBlocks, List.length_append, List.length_map,
      List.length_map]
    rfl
  have hpos := snap.size_pos
  refine ⟨_, buildTaskRecord_eq_ok.mpr ⟨p, p', hp, hp', rfl⟩, hslots, ?_, ?_, hwritten, ?_, ?_⟩
  · change (nheaderOf h + 3).toNat = _
    rw [toNat_nheader_add hn, hnheader]
    exact hslots.symm
  · exact UInt32.toNat_ofNat_of_lt' (by change h.args.length < 2 ^ 32; omega)
  · change claimed p'.headers = p'.datasize.toNat
    rw [hfits'.sizes.claimed_eq, ← hfits'.data_eq]
    omega
  · intro ws
    obtain ⟨v, ws', hrun, -, hpoints⟩ := @readback_of_fits
      ⟨p', t.attr (UInt32.ofNat h.args.length) (noutputWritten h) (nheaderOf h + 3)⟩ _ hfits' (by
        change (nheaderOf h + 3).toNat = p'.headers.length
        rw [toNat_nheader_add hn, hnheader, hslots]) (by
        change p'.datasize.toNat = p'.data.length
        omega) (by
        change p'.data ≠ []
        rintro hnil
        rw [hnil, List.length_nil] at hlen'
        omega) ws
    refine ⟨v, ws', hrun, ?_, ?_⟩
    · intro i a ha
      refine hpoints i _ ?_
      have hi : i < (h.args.map inputValue).length := by
        rw [List.length_map]
        exact (List.getElem?_eq_some_iff.mp ha).1
      rw [handleBlocks, List.append_assoc, List.getElem?_append_left hi, List.getElem?_map, ha]
      rfl
    · intro j x hx
      have hj := (List.getElem?_eq_some_iff.mp hx).1
      constructor
      · obtain ⟨hlt, rfl⟩ := List.getElem?_eq_some_iff.mp hx
        have hget := hby.get (i := j) (by rw [hby.length_eq]; exact hlt) hlt
        exact hget.length_block
      · refine hpoints _ _ ?_
        have hle : (h.args.map inputValue).length ≤ h.args.length + j := by
          rw [List.length_map]
          omega
        rw [handleBlocks, List.append_assoc, List.getElem?_append_right hle, List.length_map,
          Nat.add_sub_cancel_left, List.getElem?_append_left (by rwa [List.length_map]),
          List.getElem?_map, hx]
        rfl

/-- The size that comes with a pointer is that of the header. -/
theorem dataSize_of_pointsTo {α : Type} {v : RecordView α} {i : ℕ} {b : Bytes}
    (hpoints : PointsTo v i b) :
    ∃ hd, v.headers[i]? = some hd ∧ hd.dataSize.toNat = b.length := by
  obtain ⟨ptr, n, hok, hn, -⟩ := hpoints
  rw [tpbRafHeaderDataPtr] at hok
  split at hok
  · cases hok
  · rename_i hd hget
    simp only at hok
    split_ifs at hok
    · cases hok
    · cases hok
      exact ⟨hd, hget, hn⟩

/-- As many outputs as have elements are taken and counted, when the record has a slot for
each of them. -/
theorem counted_of_slots (hholds : List.Forall₂ KOutput.Holds h.outputs as)
    (hslots : (h.outputs.filter isFilled).length ≤ (written as).length)
    (hnoutput : (noutputWritten h).toNat = (written as).length) :
    List.Forall₂ (fun o x => o.Holds (some x)) (h.outputs.filter isFilled) (written as) ∧
      ∀ o ∈ h.outputs.filter isFilled, isCounted o = true := by
  have hlt := (noutputWritten h).toNat_lt
  have hfilter : (h.outputs.filter isFilled).filter isCounted = h.outputs.filter isCounted := by
    rw [List.filter_filter]
    refine List.filter_congr fun o _ => ?_
    rcases hc : isCounted o with - | -
    · rfl
    · rw [isFilled_of_isCounted hc]
      rfl
  have hle : (h.outputs.filter isCounted).length ≤ (h.outputs.filter isFilled).length := by
    rw [← hfilter]
    exact List.length_filter_le _ _
  have hmod : (noutputWritten h).toNat = (h.outputs.filter isCounted).length := by
    rw [noutputWritten]
    exact UInt32.toNat_ofNat_of_lt' (by
      change (h.outputs.filter isCounted).length < 2 ^ 32
      omega)
  have heq : (h.outputs.filter isFilled).length = (written as).length := by omega
  refine ⟨(holds_of_length hholds).2 heq, ?_⟩
  rw [← List.length_filter_eq_length_iff, hfilter]
  omega

/-- An output whose header has the size of the block asked for has the number of elements
asked for. -/
theorem lt_of_outputSize {o : KOutput} {x : Asked} (hholds : o.Holds (some x))
    (hcounted : isCounted o = true) (hsize : (outputSize o).toNat = x.n.toNat * x.esz) :
    x.n.toNat < 2 ^ 31 := by
  have hesz := hholds.esz_eq x rfl
  have hpos := (tpbDtypeElemSize_le hesz).1
  have hlt : o.n.toInt < 2 ^ 31 := o.n.toInt_lt
  simp only [isCounted, decide_eq_true_eq, Int32.lt_iff_toInt_lt, Int32.toInt_zero] at hcounted
  rw [toNat_outputSize (by omega) hesz] at hsize
  have heq : o.n.toInt.toNat = x.n.toNat := Nat.eq_of_mul_eq_mul_right hpos hsize
  omega

/-- A record that is as it has to be comes from numbers of elements that fit. -/
theorem fit_of_recorded (hargs : ∀ a ∈ h.args, SizedType a.typeCode)
    (hholds : List.Forall₂ KOutput.Holds h.outputs as) {r : TaskBuild}
    (hok : buildTaskRecord t snap h = .ok r) (hrec : TaskRecorded h.args (written as) r) :
    CountsFit h.args snap (written as) := by
  obtain ⟨p, p', hp, hp', rfl⟩ := buildTaskRecord_eq_ok.mp hok
  obtain ⟨blocks, hfits, -, hplen, -, hfilled⟩ := fits_of_handleParts hp
  obtain ⟨hfits', hheaders', hlen', hsize', hn⟩ := fits_of_appendSnapshot hfits hp'
  have hlt := p'.datasize.toNat_lt
  have hslots : p'.headers.length = h.args.length + (written as).length + 3 := hrec.slots
  have hnheader : (nheaderOf h).toNat = h.args.length + (written as).length := by
    rw [hheaders', List.length_append, hplen] at hslots
    have hthree : snap.headers.length = 3 := rfl
    omega
  by_cases hzero : nheaderOf h = 0
  · rw [hzero, UInt32.toNat_zero] at hnheader
    have hnil : h.args = [] := List.length_eq_zero_iff.mp (by omega)
    have hnil' : written as = [] := List.length_eq_zero_iff.mp (by omega)
    rw [hnil, hnil']
    refine ⟨by simp, ?_, by simp⟩
    simp only [List.map_nil, List.sum_nil]
    omega
  · obtain ⟨hfits₀, hprefix⟩ := hfilled hzero
    rw [hnheader, filledHeaders, List.length_append, List.length_map, List.length_map] at hfits₀
    obtain ⟨hforall, hcounted⟩ := counted_of_slots hholds (by omega) hrec.noutput
    have hp_eq : filledHeaders h = p.headers := by
      refine hprefix.eq_of_length ?_
      rw [hplen, hnheader, filledHeaders, List.length_append, List.length_map, List.length_map,
        hforall.length_eq]
    -- what is read back is what the claim on the record speaks about
    have hdata : p'.datasize.toNat = p'.data.length := by
      rw [hfits'.data_eq, ← hfits'.sizes.claimed_eq]
      exact hrec.sizes.symm
    have hpos := snap.size_pos
    obtain ⟨v, ws', hrun, hheaders, -⟩ := @readback_of_fits
      ⟨p', t.attr (UInt32.ofNat h.args.length) (noutputWritten h) (nheaderOf h + 3)⟩ _ hfits' (by
        change (nheaderOf h + 3).toNat = p'.headers.length
        rw [toNat_nheader_add hn, hnheader, hslots]) hdata (by
        change p'.data ≠ []
        rintro hnil
        rw [hnil, List.length_nil] at hlen'
        omega) Workspace.empty
    obtain ⟨v', ws'', hrun', -, houts⟩ := hrec.readback Workspace.empty
    rw [hrun] at hrun'
    cases hrun'
    have hcounts : ∀ x ∈ written as, x.n.toNat < 2 ^ 31 := by
      intro x hx
      obtain ⟨j, hj, rfl⟩ := List.getElem_of_mem hx
      obtain ⟨hblock, hpoints⟩ := houts j _ (List.getElem?_eq_getElem hj)
      have hj' : j < (h.outputs.filter isFilled).length := by rwa [hforall.length_eq]
      obtain ⟨hd, hget, hsize⟩ := dataSize_of_pointsTo hpoints
      have hhd : hd = (outputHeader (h.outputs.filter isFilled)[j]).norm := by
        rw [hheaders] at hget
        change (p'.headers.map MetaHeader.norm)[_]? = _ at hget
        rw [hheaders', ← hp_eq, filledHeaders, List.getElem?_map, List.append_assoc,
          List.getElem?_append_right (by rw [List.length_map]; omega), List.length_map,
          Nat.add_sub_cancel_left, List.getElem?_append_left (by rwa [List.length_map]),
          List.getElem?_map, List.getElem?_eq_getElem hj'] at hget
        exact (Option.some.inj hget).symm
      refine lt_of_outputSize (hforall.get hj' hj) (hcounted _ (List.getElem_mem _)) ?_
      rw [← hblock, ← hsize, hhd]
      rfl
    obtain ⟨-, hby⟩ := filledBy_of_counts hholds hcounts
    refine ⟨hcounts, ?_, by omega⟩
    have hclaimed : claimed p'.headers = p'.datasize.toNat := hrec.sizes
    have hhandle : claimed (filledHeaders h) =
        (h.args.map fun a => (inputElemSize a).toNat).sum +
          ((written as).map fun x => x.n.toNat * x.esz).sum := by
      rw [filledHeaders, ((sizesOf_inputs hargs).append (sizesOf_outputs hby)).claimed_eq,
        List.flatten_append, List.length_append, length_inputValues hargs, length_blocks hby]
    have hsnap : claimed snap.headers = snap.size := by
      rw [(sizesOf_snapshot (by omega)).claimed_eq, EnvSnapshot.length_flatten_blocks]
    rw [hheaders', claimed_append, ← hp_eq, hhandle, hsnap] at hclaimed
    omega

end Build

/-- **The record of a task.** For a handle as the driver builds it, any allocations of the
kernel and any snapshot, the record is built and is as it has to be exactly when the numbers
of elements, and the sizes in total, fit. -/
theorem task_recorded_iff {F : Floats} {timer : Timer} {calls : List RegCall} {d : PliDriver}
    {h : Rthdl} (hrun : Run (RegStep F timer) PliDriver.empty calls d)
    (hh : d.currentRthdl = some h) (allocs : List AllocCall) (t : TaskIdent) (snap : EnvSnapshot) :
    (∃ r, buildTaskRecord t snap (h.afterAllocs timer allocs) = .ok r ∧
        TaskRecorded h.args (writtenOutputs h.outputs allocs) r) ↔
      CountsFit h.args snap (writtenOutputs h.outputs allocs) := by
  have hinit := unallocated_run hrun hh
  have hholds : List.Forall₂ KOutput.Holds (h.afterAllocs timer allocs).outputs
      (askedAfter h.outputs allocs) := forall₂_afterAllocs hinit.p_eq
  have hargs : ∀ a ∈ (h.afterAllocs timer allocs).args, SizedType a.typeCode := by
    rw [Rthdl.afterAllocs_args]
    exact hinit.sized
  constructor
  · rintro ⟨r, hok, hrec⟩
    have hfit := fit_of_recorded hargs hholds hok (by rwa [Rthdl.afterAllocs_args])
    rwa [Rthdl.afterAllocs_args] at hfit
  · intro hfit
    have hrec := recorded_of_fit t hargs hholds (by rwa [Rthdl.afterAllocs_args])
    rwa [Rthdl.afterAllocs_args] at hrec

/-! ### An output of two billion elements -/

/-- A task without an ID. -/
def zeroIdent : TaskIdent := ⟨zeroArr 20, zeroArr 20, zeroArr 20, 0, 0, 0, 0, 0, 0⟩

/-- The kernel asks for `n` elements of its output `t`, and gets zeroed memory. -/
def askFor (n : UInt64) : AllocCall where
  name := ascii ['t']
  n := n
  malloc := fun size => some (List.replicate size.toNat 0)
  length_malloc := by
    rintro size b ⟨⟩
    exact List.length_replicate

/-- The run that declares an argument and an output `t` of 64-bit integers ends with a handle
that has them. -/
theorem declaringRun_handle : ∃ d h, Run (RegStep noFloats nsTimer) PliDriver.empty declaringRun d ∧
    d.currentRthdl = some h ∧
    h.outputs = [newOutput (ascii ['t']) tpbTagOutput [] typeInt64 0] ∧
    h.args.map inputElemSize = [8] := by
  have hboth : ((driverAfter noFloats nsTimer declaringRun PliDriver.empty).bind fun d =>
      d.currentRthdl.map fun h => (h.outputs, h.args.map inputElemSize)) =
        some ([newOutput (ascii ['t']) tpbTagOutput [] typeInt64 0], [8]) := by decide +kernel
  obtain ⟨d, hd, hmap⟩ := Option.bind_eq_some_iff.mp hboth
  obtain ⟨h, hh, hboth⟩ := Option.map_eq_some_iff.mp hmap
  obtain ⟨houts, hargs⟩ := Prod.mk.inj hboth
  exact ⟨d, h, run_of_driverAfter hd, hh, houts, hargs⟩

/-- What the kernel has for its output. -/
theorem writtenOutputs_askFor {n : UInt64} (hne : n ≠ 0) :
    writtenOutputs [newOutput (ascii ['t']) tpbTagOutput [] typeInt64 0] [askFor n] =
      [⟨n, 8, List.replicate (n * 8).toNat 0⟩] := by
  have hlast : lastAlloc [newOutput (ascii ['t']) tpbTagOutput [] typeInt64 0] [askFor n] 0 =
      some (askFor n) := rfl
  have hasked : askedOf (newOutput (ascii ['t']) tpbTagOutput [] typeInt64 0) (askFor n) =
      some ⟨n, 8, List.replicate (n * 8).toNat 0⟩ := rfl
  rw [writtenOutputs, askedAfter]
  simp only [List.zipIdx_cons, List.zipIdx_nil, List.map_cons, List.map_nil, hlast,
    Option.bind_some, hasked]
  simp [Option.filter, hne]

/-- **2³¹ elements**: the record of the task is not as it has to be. -/
theorem task_record_of_large_count :
    ∃ d h, Run (RegStep noFloats nsTimer) PliDriver.empty declaringRun d ∧
      d.currentRthdl = some h ∧
      ¬∃ r, buildTaskRecord zeroIdent EnvSnapshot.clear
            (h.afterAllocs nsTimer [askFor 2147483648]) = .ok r ∧
          TaskRecorded h.args (writtenOutputs h.outputs [askFor 2147483648]) r := by
  obtain ⟨d, h, hrun, hh, houts, -⟩ := declaringRun_handle
  refine ⟨d, h, hrun, hh, ?_⟩
  rintro ⟨r, hok, hrec⟩
  have hinit := unallocated_run hrun hh
  have hfit := @fit_of_recorded _ _ (h.afterAllocs nsTimer [askFor 2147483648])
    (askedAfter h.outputs [askFor 2147483648]) (by
      rw [Rthdl.afterAllocs_args]
      exact hinit.sized) (forall₂_afterAllocs hinit.p_eq) r hok (by
      rw [Rthdl.afterAllocs_args]
      exact hrec)
  have hcounts := hfit.counts
  change ∀ x ∈ writtenOutputs h.outputs [askFor 2147483648], x.n.toNat < 2 ^ 31 at hcounts
  rw [houts, writtenOutputs_askFor (by decide)] at hcounts
  exact absurd (hcounts _ (List.mem_singleton_self _)) (by decide)

/-- Three elements. -/
theorem task_recorded_iff_three :
    ∃ d h, Run (RegStep noFloats nsTimer) PliDriver.empty declaringRun d ∧
      d.currentRthdl = some h ∧
      ∃ r, buildTaskRecord zeroIdent EnvSnapshot.clear (h.afterAllocs nsTimer [askFor 3]) = .ok r ∧
        TaskRecorded h.args (writtenOutputs h.outputs [askFor 3]) r := by
  obtain ⟨d, h, hrun, hh, houts, hargs⟩ := declaringRun_handle
  refine ⟨d, h, hrun, hh,
    (task_recorded_iff hrun hh [askFor 3] zeroIdent EnvSnapshot.clear).mpr ?_⟩
  have hsizes : h.args.map (fun a => (inputElemSize a).toNat) = [8] := by
    rw [← Function.comp_def, ← List.map_map, hargs]
    rfl
  have hlen : h.args.length = 1 := by
    have hmap := congrArg List.length hargs
    rwa [List.length_map] at hmap
  rw [houts, writtenOutputs_askFor (by decide)]
  refine ⟨?_, ?_, ?_⟩
  · intro x hx
    rw [List.mem_singleton.mp hx]
    decide
  · rw [hsizes]
    decide
  · rw [hlen]
    decide

end TPBench
