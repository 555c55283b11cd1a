import TPBench.CFile.Stable
import TPBench.Raf.NdimBounds
import TPBench.Raf.Patch

/-!
# Records of a Kernel that Are Cut

A write of the record of a kernel that fails leaves a beginning of the record. The reader goes
through a record from its front to its back, so that it fails on every beginning that is not
the whole record (`CutRecord.read`). A patch of the active flag looks at nothing: it puts its
four bytes at their place in whatever it finds, behind the end of the file, too. What it leaves is
a beginning of another record then, or a file that is too short for the attributes of a kernel.

`KernelFile` is what holds of every file at the place of a record, however often it was written
and patched, and whatever of this has failed.
-/

open CFile

namespace TPBench

/-! ### The reader on a cut file -/

section Stable

variable {α : Type} {F : RecordFormat α}

theorem stable_readHeader : Stable readHeader := by
  refine stable_readU32.bind fun _ => stable_readU32.bind fun ndim => ?_
  refine stable_readU64.bind fun _ => stable_readU32.bind fun _ => ?_
  refine stable_readU32.bind fun _ => stable_readU64.bind fun _ => ?_
  refine (stable_readArr 256).bind fun _ => (stable_readArr 256).bind fun _ => ?_
  refine (stable_readArr 2048).bind fun _ => ?_
  refine (stable_readInto stable_readU64 _ _).bind fun _ => ?_
  exact (stable_readInto (stable_readArr 64) _ _).map _

/-- The readers of records are stable. -/
theorem stable_readRecord (hdecode : Stable F.decode) : Stable (readRecord F true) := by
  refine (stable_fread 8).bind fun _ => (stable_check _).bind fun _ => ?_
  refine stable_readU64.bind fun _ => stable_readU64.bind fun ds => ?_
  refine hdecode.bind fun attr => (stable_readN stable_readHeader _).bind fun _ => ?_
  refine (stable_fread 8).bind fun _ => (stable_check _).bind fun _ => ?_
  refine (stable_fread ds.toNat).bind fun _ => ?_
  exact (stable_fread 8).bind fun _ => (stable_check _).bind fun _ => stable_pure _

theorem stable_decode_kernel : Stable KernelAttr.decode := by
  refine (stable_readArr 20).bind fun _ => (stable_readArr 20).bind fun _ => ?_
  refine (stable_readArr 20).bind fun _ => (stable_readArr 256).bind fun _ => ?_
  refine (stable_readArr 64).bind fun _ => (stable_readArr 2048).bind fun _ => ?_
  refine stable_readU32.bind fun _ => stable_readU32.bind fun _ => ?_
  refine stable_readU32.bind fun _ => stable_readU32.bind fun _ => ?_
  exact stable_readU32.bind fun _ => stable_readU64.bind fun _ => (stable_fread 180).map _

end Stable

/-! ### Cut records -/

/-- A beginning of a record that is not the whole one, or a file that ends with the active flag or
before it. -/
def CutRecord (f : Bytes) : Prop :=
  (∃ r : Record kernelFormat, f.length < r.bytes.length ∧ f = r.bytes.take f.length) ∨
    f.length ≤ 2472

/-- **A cut record cannot be read.** -/
theorem CutRecord.read {f : Bytes} (h : CutRecord f) :
    ∃ e s, readRecord kernelFormat true ⟨f, 0⟩ = .error e s ∧ e ≠ .undefined := by
  rcases h with ⟨r, hlt, hf⟩ | hshort
  · rw [hf]
    exact (reads_readRecord r).cut (stable_readRecord stable_decode_kernel) hlt
  · obtain ⟨s, hs, -⟩ | ⟨-, hbase, -⟩ :=
      readRecord_cases f true readsAttr_kernel (by decide)
    · exact ⟨_, s, hs, by decide⟩
    · have hle : (2660 : ℕ) ≤ f.length := hbase
      omega

/-- What stands at the place of the record of a version: a record of the version, from which
nothing was derived, or a cut record. -/
def KernelFile (kernelId : Id20) (f : Bytes) : Prop :=
  (∃ r : Record kernelFormat, f = r.bytes ∧ r.attr.kernelId = kernelId ∧
    r.attr.deriveTo = zeroArr 20) ∨ CutRecord f

/-- A beginning of a record. -/
theorem kernelFile_take {kernelId : Id20} {r : Record kernelFormat}
    (hid : r.attr.kernelId = kernelId) (hzero : r.attr.deriveTo = zeroArr 20) (n : ℕ) :
    KernelFile kernelId (r.bytes.take n) := by
  by_cases hn : n < r.bytes.length
  · have hlen : (r.bytes.take n).length = n := by
      rw [List.length_take]
      omega
    exact .inr (.inl ⟨r, by rwa [hlen], by rw [hlen]⟩)
  · exact .inl ⟨r, List.take_of_length_le (Nat.le_of_not_lt hn), hid, hzero⟩

/-! ### The patch of the active flag -/

/-- The patch in a record. -/
theorem pwrite_kernel_active (r : Record kernelFormat) (active : UInt32) :
    pwrite r.bytes 2468 (u32 active) = (r.withAttr { r.attr with active } rfl).bytes := by
  have hlen : (kernelFormat.encode r.attr).length = 2636 := r.attr.length_encode
  refine r.pwrite_attr 2444 { r.attr with active } rfl rfl ?_ (r.attr.pwrite_active _)
  rw [hlen, length_u32]
  decide

theorem CutRecord.patch {f : Bytes} (h : CutRecord f) (active : UInt32) :
    CutRecord (pwrite f 2468 (u32 active)) := by
  by_cases hlong : 2472 ≤ f.length
  · have hlen : (pwrite f 2468 (u32 active)).length = f.length :=
      length_pwrite (by rwa [length_u32])
    rw [CutRecord, hlen]
    rcases h with ⟨r, hlt, hf⟩ | hshort
    · refine .inl ⟨r.withAttr { r.attr with active } rfl, ?_, ?_⟩
      · rw [← pwrite_kernel_active, length_pwrite]
        · exact hlt
        · rw [length_u32]
          omega
      · rw [← pwrite_kernel_active, ← pwrite_take (by rwa [length_u32]) hlt.le, ← hf]
    · exact .inr hshort
  · refine .inr ?_
    simp only [pwrite, List.length_append, List.length_take, List.length_replicate,
      List.length_drop, length_u32]
    omega

/-- **The patch** leads from such a file to such a file. -/
theorem KernelFile.patch {kernelId : Id20} {f : Bytes} (h : KernelFile kernelId f)
    (active : UInt32) : KernelFile kernelId (pwrite f 2468 (u32 active)) := by
  rcases h with ⟨r, rfl, hid, hzero⟩ | hcut
  · exact .inl ⟨_, pwrite_kernel_active r active, hid, hzero⟩
  · exact .inr (hcut.patch active)

/-- The patch of a file that is there. -/
theorem tpbRafRecordPatchKernelActive_file {ws : Workspace} {kernelId : Id20} {f : Bytes}
    (hf : ws.files (.record .kernel kernelId) = some f) (active : UInt32) :
    tpbRafRecordPatchKernelActive kernelId active ws =
      .ok () (ws.set (.record .kernel kernelId) (pwrite f 2468 (u32 active))) := by
  refine fopenUpdate_ok hf (s := ⟨_, 2472⟩) ?_
  refine bind_then (fseek_run (k := 2468) (by decide)) ?_
  exact fwrite_run f 2468 (u32 active)

end TPBench
