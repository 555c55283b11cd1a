import TPBench.Kernel.Sound
import TPBench.Kernel.TaskRecord
import TPBench.Raf.KvText
import TPBench.Task.Ridmap

/-!
# The Record of a Kernel

When a kernel was registered, a record is made of it (`tpb_raf_kernel_build_registered_attr`): a
header and a default value for each argument, a header without a payload for each output, and
three headers whose payloads are texts of keys and values, `variation`, `compilation` and
`dependency`. The name of the kernel and its ID are lines of the first text.

A payload has its place behind those of the headers in front of it, and a text is found by the
first header that has its name (`tpbRafKernelGetHeaderPayload`). Arguments and outputs have
names that are distinct from each other, but they may have the name of a text, and then their
headers come first. A line ends at a newline, and the name of a kernel may have one.

## Main definitions

* `tpbRafKernelBuildRegisteredAttr` and `tpbRafKernelGetHeaderPayload`, the code;
* `KernelRecorded`, what the record of a kernel has to be.

## Main results

* `kernel_recorded_iff`: the record of a registered kernel is as it has to be if and only if no
  argument and no output hides a text, the name of the kernel is one line, and the headers can
  be counted.
-/

open CFile Conc

namespace TPBench

/-! ### The headers -/

/-- `_sf_fill_parm_header`. -/
def sfFillParmHeader (parm : ArgInfo) : MetaHeader := inputHeader parm

/-- `_sf_fill_metric_header`. -/
def sfFillMetricHeader (out : KOutput) : MetaHeader :=
  MetaHeader.setDim0
    { MetaHeader.zero with
      blockSize := hdrFixedSize
      ndim := 1
      dataSize := 0
      typeBits :=
        if out.dtype &&& parmTypeMask = dtypeTimer &&& parmTypeMask then typeInt64 &&& parmTypeMask
        else out.dtype &&& parmTypeMask
      uattrBits := out.unit
      name := snprintfS 256 out.name
      tag := snprintfS 256 out.tag
      note := snprintfS 2048 out.note }
    1

/-- `_sf_fill_string_header`. -/
def sfFillStringHeader (name payload : Bytes) : MetaHeader :=
  MetaHeader.setDim0
    { MetaHeader.zero with
      blockSize := hdrFixedSize
      ndim := 1
      dataSize := UInt64.ofNat (payload.length + 1)
      typeBits := tpbStringT &&& parmTypeMask
      name := snprintfS 256 name
      note := snprintfS 2048 (ascii "Kernel metadata: ".toList ++ name) }
    (UInt64.ofNat (payload.length + 1))

/-! ### The texts -/

/-- `TPB_RAF_KERNEL_HDR_VARIATION`. -/
def hdrVariation : Bytes := ascii "variation".toList

/-- `TPB_RAF_KERNEL_HDR_COMPILATION`. -/
def hdrCompilation : Bytes := ascii "compilation".toList

/-- `TPB_RAF_KERNEL_HDR_DEPENDENCY`. -/
def hdrDependency : Bytes := ascii "dependency".toList

/-- `g_meta_hdr_names`. -/
def gMetaHdrNames : List Bytes := [hdrVariation, hdrCompilation, hdrDependency]

/-- `_sf_init_meta_payload`, in a buffer of `need` bytes. -/
def sfInitMetaPayload (name : Bytes) (initialKv : Option Bytes) : Bytes :=
  let need := 64 + (initialKv.getD []).length
  let buf := printedIn need
    (ascii "format=tpbench.kernel_meta.v1\nsection=".toList ++ name ++ [newline])
  match initialKv with
  | none => buf
  | some kv => if kv = [] then buf else buf ++ kv.take (need - buf.length - 1)

/-- `var_init`, a buffer of 512 bytes. -/
def varInit (kernelName : Bytes) (kernelId : Id20) : Bytes :=
  printedIn 512 (ascii "kernel.name=".toList ++ kernelName ++ ascii "\nkernel.id=".toList ++
    hexBytes kernelId.toList ++ ascii "\nactive=1\n".toList)

/-- `meta_payloads`: the first text starts with `var_init`. -/
def metaPayloads (kernelName : Bytes) (kernelId : Id20) : List Bytes :=
  gMetaHdrNames.mapIdx fun mi name =>
    sfInitMetaPayload name (if mi = 0 then some (varInit kernelName kernelId) else none)

/-! ### The record -/

/-- What `tpb_raf_kernel_build_registered_attr` returns: the attributes, their headers, and the
payload with its size. -/
structure KernelBuild extends RecordParts where
  attr : KernelAttr

/-- The attributes of the record. `TPB_VERSION` is printed with one digit behind the point. -/
def kernelBuildAttr (k : KernelInfo) (kernelId : Id20) (narg nmetric : UInt32) : KernelAttr where
  kernelId := kernelId
  deriveTo := zeroArr 20
  inheritFrom := zeroArr 20
  kernelName := snprintfS 256 k.name
  version := snprintfS 64 (ascii "0.8".toList)
  description := snprintfS 2048 k.note
  narg := narg
  nmetric := nmetric
  kctrl := k.kctrl
  nheader := narg + nmetric + 3
  active := 1
  utcBits := 0

/-- The headers of the record. -/
def kernelBuildHeaders (k : KernelInfo) (kernelId : Id20) : List MetaHeader :=
  k.args.map sfFillParmHeader ++ k.outs.map sfFillMetricHeader ++
    List.zipWith sfFillStringHeader gMetaHdrNames (metaPayloads k.name kernelId)

/-- `datasize`: the sizes of the values, and those of the texts. -/
def kernelDatasize (k : KernelInfo) (kernelId : Id20) : UInt64 :=
  (k.args.map fun a => (inputElemSize a).toUInt64).sum +
    ((List.zipWith sfFillStringHeader gMetaHdrNames (metaPayloads k.name kernelId)).map
      MetaHeader.dataSize).sum

/-- `tpb_raf_kernel_build_registered_attr`. As many slots are allocated for headers as `nheader`
says, and as many bytes for the payload as `datasize`. -/
def tpbRafKernelBuildRegisteredAttr (k : KernelInfo) (kernelId : Id20) : Except Err KernelBuild :=
  let narg := UInt32.ofNat k.args.length
  let nmetric := UInt32.ofNat k.outs.length
  if (narg + nmetric + 3).toNat < k.args.length + k.outs.length + 3 then .error .undefined
  else
    match copyAll inputBytes k.args with
    | .error e => .error e
    | .ok values =>
        let data := values ++ (metaPayloads k.name kernelId).flatMap (· ++ [0])
        let datasize := kernelDatasize k kernelId
        if datasize.toNat < data.length then .error .undefined
        else
          .ok ⟨⟨kernelBuildHeaders k kernelId,
              data ++ List.replicate (datasize.toNat - data.length) 0, datasize⟩,
            kernelBuildAttr k kernelId narg nmetric⟩

/-- `tpb_raf_kernel_get_header_payload` with a buffer of `bufsz` bytes. -/
def tpbRafKernelGetHeaderPayload (headers : List MetaHeader) (data : Option Bytes)
    (hdrName : Bytes) (bufsz : ℕ) : Except Err Bytes :=
  if bufsz = 0 then .error (.code .rafL3Kernel .nullptrArg)
  else
    match tpbRafKernelFindHeader headers hdrName with
    | none => .error (.code .rafL3Kernel .listNotFound)
    | some idx =>
        match data, headers[idx]? with
        | none, _ => .ok []
        | _, none => .error .undefined
        | some data, some h =>
            if h.dataSize = 0 then .ok []
            else
              match strAt data (blockOffset (headers.take idx)) with
              | none => .error .undefined
              | some payload => .ok (printedIn bufsz payload)

/-! ### What the record has to be -/

/-- The text of a header: two lines that tell what it is, and in the first one the name of the
kernel, its ID, and that it is active. -/
def kernelText (k : KernelInfo) (kernelId : Id20) (name : Bytes) : Bytes :=
  kvText ([ascii "format=tpbench.kernel_meta.v1".toList, ascii "section=".toList ++ name] ++
    if name = hdrVariation then
      [ascii "kernel.name=".toList ++ k.name, ascii "kernel.id=".toList ++ hexBytes kernelId.toList,
        ascii "active=1".toList]
    else [])

/-- The record of a kernel: there is a header for each argument, each output and each text, the
counts and sizes are right, the default value of every argument is found behind those in front of
it, and so is every text by its name. The first text tells the name of the kernel and its ID. -/
structure KernelRecorded (k : KernelInfo) (kernelId : Id20) (r : KernelBuild) : Prop where
  slots : r.headers.length = k.args.length + k.outs.length + 3
  nheader : r.attr.nheader.toNat = r.headers.length
  sizes : claimed r.headers = r.datasize.toNat
  values : ∀ (i : ℕ) (a : ArgInfo), k.args[i]? = some a →
    (r.data.drop (claimed (r.headers.take i))).take (inputElemSize a).toNat = inputValue a
  texts : ∀ name ∈ gMetaHdrNames, ∀ n, (kernelText k kernelId name).length < n →
    tpbRafKernelGetHeaderPayload r.headers (some r.data) name n = .ok (kernelText k kernelId name)
  name : ∀ n, k.name.length < n →
    tpbRafKernelMetaKvGet (kernelText k kernelId hdrVariation) (ascii "kernel.name".toList) n =
      .ok k.name
  id : ∀ n, 40 < n →
    tpbRafKernelMetaKvGet (kernelText k kernelId hdrVariation) (ascii "kernel.id".toList) n =
      .ok (hexBytes kernelId.toList)

/-- The default values from an argument with this name on have a zero byte, and in front of it the
text of the header with the name. -/
def SpelledByValues (k : KernelInfo) (kernelId : Id20) (name : Bytes) : Prop :=
  ∃ as a cs, k.args = as ++ a :: cs ∧ a.name = name ∧
    0 ∈ ((a :: cs).map inputValue).flatten ∧
      cstr ((a :: cs).map inputValue).flatten = kernelText k kernelId name

/-! ### The texts are not cut -/

section Texts

variable {k : KernelInfo} {kernelId : Id20} {name : Bytes}

/-- The first two lines of the first text. -/
def variationLines : List Bytes :=
  [ascii "format=tpbench.kernel_meta.v1".toList, ascii "section=variation".toList]

/-- The lines about the kernel. -/
def kernelLines (k : KernelInfo) (kernelId : Id20) : List Bytes :=
  [ascii "kernel.name=".toList ++ k.name, ascii "kernel.id=".toList ++ hexBytes kernelId.toList,
    ascii "active=1".toList]

theorem kernelText_variation (k : KernelInfo) (kernelId : Id20) :
    kernelText k kernelId hdrVariation =
      kvText variationLines ++ kvText (kernelLines k kernelId) := by
  rw [kernelText, if_pos rfl, kvText, List.flatMap_append]
  rfl

/-- The buffer of 512 bytes has room for the lines about the kernel. -/
theorem varInit_eq (hlen : k.name.length < nameStrMaxLen) (kernelId : Id20) :
    varInit k.name kernelId = kvText (kernelLines k kernelId) := by
  have hlines : ascii "kernel.name=".toList ++ k.name ++ ascii "\nkernel.id=".toList ++
      hexBytes kernelId.toList ++ ascii "\nactive=1\n".toList =
        kvText (kernelLines k kernelId) := by
    have hid : ascii "\nkernel.id=".toList = newline :: ascii "kernel.id=".toList := rfl
    have hactive : ascii "\nactive=1\n".toList =
      newline :: (ascii "active=1".toList ++ [newline]) := rfl
    simp only [kvText, kernelLines, hid, hactive, List.flatMap_cons, List.flatMap_nil,
      List.append_assoc, List.append_nil, List.cons_append, List.nil_append]
  rw [varInit, printedIn_of_lt ?_, hlines]
  have hname : (ascii "kernel.name=".toList).length = 12 := rfl
  have hid : (ascii "\nkernel.id=".toList).length = 11 := rfl
  have hactive : (ascii "\nactive=1\n".toList).length = 10 := rfl
  simp only [List.length_append, length_hexBytes_id, hname, hid, hactive]
  rw [nameStrMaxLen] at hlen
  omega

/-- The other texts do not depend on the kernel. -/
theorem kernelText_other (k : KernelInfo) (kernelId : Id20) :
    ∀ name ∈ [hdrCompilation, hdrDependency], kernelText k kernelId name =
      kvText [ascii "format=tpbench.kernel_meta.v1".toList, ascii "section=".toList ++ name] := by
  have hne : ∀ name ∈ [hdrCompilation, hdrDependency], name ≠ hdrVariation := by decide +kernel
  intro name hname
  rw [kernelText, if_neg (hne name hname), List.append_nil]

theorem sfInitMetaPayload_none (k : KernelInfo) (kernelId : Id20) :
    ∀ name ∈ [hdrCompilation, hdrDependency],
      sfInitMetaPayload name none = kernelText k kernelId name := by
  have hclosed : ∀ name ∈ [hdrCompilation, hdrDependency], sfInitMetaPayload name none =
      kvText [ascii "format=tpbench.kernel_meta.v1".toList, ascii "section=".toList ++ name] := by
    decide +kernel
  intro name hname
  rw [kernelText_other k kernelId name hname, hclosed name hname]

/-- The length of the first text. -/
theorem length_kernelText_variation (k : KernelInfo) (kernelId : Id20) :
    (kernelText k kernelId hdrVariation).length = 121 + k.name.length := by
  have hfront : (kvText variationLines).length = 48 := by decide +kernel
  have hname : (ascii "kernel.name=".toList).length = 12 := by decide +kernel
  have hid : (ascii "kernel.id=".toList).length = 10 := by decide +kernel
  have hactive : (ascii "active=1".toList).length = 8 := by decide +kernel
  have hlines : (kvText (kernelLines k kernelId)).length = 73 + k.name.length := by
    simp only [kvText, kernelLines, List.flatMap_cons, List.flatMap_nil, List.length_append,
      List.length_cons, List.length_nil, length_hexBytes_id, hname, hid, hactive]
    omega
  rw [kernelText_variation, List.length_append, hfront, hlines]
  omega

/-- No text is longer than the first. -/
theorem length_kernelText_le (k : KernelInfo) (kernelId : Id20) :
    ∀ name ∈ gMetaHdrNames, (kernelText k kernelId name).length ≤ 121 + k.name.length := by
  have hclosed : ∀ name ∈ [hdrCompilation, hdrDependency],
      (kvText [ascii "format=tpbench.kernel_meta.v1".toList,
        ascii "section=".toList ++ name]).length ≤ 121 := by decide +kernel
  intro name hname
  rcases List.mem_cons.mp hname with rfl | hother
  · rw [length_kernelText_variation]
  · have hle := hclosed name hother
    rw [kernelText_other k kernelId name hother]
    omega

/-- **The texts** are what they have to be. -/
theorem metaPayloads_eq (hlen : k.name.length < nameStrMaxLen) (kernelId : Id20) :
    metaPayloads k.name kernelId = gMetaHdrNames.map (kernelText k kernelId) := by
  have hfirst : sfInitMetaPayload hdrVariation (some (varInit k.name kernelId)) =
      kernelText k kernelId hdrVariation := by
    have hfront : ascii "format=tpbench.kernel_meta.v1\nsection=".toList ++ hdrVariation ++
        [newline] = kvText variationLines := by decide +kernel
    have hlenFront : (kvText variationLines).length = 48 := by decide +kernel
    have hne : kvText (kernelLines k kernelId) ≠ [] := List.cons_ne_nil _ _
    rw [kernelText_variation, sfInitMetaPayload, varInit_eq hlen, hfront,
      printedIn_of_lt (by rw [hlenFront]; omega), Option.getD_some, if_neg hne,
      List.take_of_length_le (by rw [hlenFront]; omega)]
  have hother := sfInitMetaPayload_none k kernelId
  rw [metaPayloads, gMetaHdrNames, List.mapIdx_cons, List.mapIdx_cons, List.mapIdx_cons,
    List.mapIdx_nil]
  simp only [↓reduceIte, Nat.reduceAdd, OfNat.ofNat_ne_zero, one_ne_zero, hfirst,
    hother hdrCompilation (by simp), hother hdrDependency (by simp), List.map_cons, List.map_nil]

end Texts

/-! ### The record that is built -/

/-- What holds of a kernel that was registered: its arguments are of types with a size, the
names of the arguments and outputs are distinct and let pass, and no name has a zero byte. -/
structure Recordable (k : KernelInfo) : Prop where
  sized : ∀ a ∈ k.args, SizedType a.typeCode
  distinct : k.names.Nodup
  valid : ∀ name ∈ k.names, sfValidateHeaderName name = true ∧ 0 ∉ name
  name_length : k.name.length < nameStrMaxLen
  name_plain : 0 ∉ k.name

section Build

variable {k : KernelInfo} {kernelId : Id20}

/-- The blocks of the payload. -/
def kernelBlocks (k : KernelInfo) (kernelId : Id20) : List Bytes :=
  k.args.map inputValue ++ k.outs.map (fun _ => []) ++
    gMetaHdrNames.map fun name => kernelText k kernelId name ++ [0]

/-- The headers of the texts. -/
def textHeaders (k : KernelInfo) (kernelId : Id20) : List MetaHeader :=
  gMetaHdrNames.map fun name => sfFillStringHeader name (kernelText k kernelId name)

theorem kernelBuildHeaders_eq (hlen : k.name.length < nameStrMaxLen) (kernelId : Id20) :
    kernelBuildHeaders k kernelId =
      k.args.map sfFillParmHeader ++ k.outs.map sfFillMetricHeader ++ textHeaders k kernelId := by
  rw [kernelBuildHeaders, metaPayloads_eq hlen]
  rfl

/-- The size of a text, with its terminator. -/
theorem toNat_dataSize_text (hlen : k.name.length < nameStrMaxLen) (kernelId : Id20) {name : Bytes}
    (hname : name ∈ gMetaHdrNames) :
    (sfFillStringHeader name (kernelText k kernelId name)).dataSize.toNat =
      (kernelText k kernelId name).length + 1 := by
  have hle := length_kernelText_le k kernelId name hname
  rw [nameStrMaxLen] at hlen
  refine UInt64.toNat_ofNat_of_lt' ?_
  change _ < 2 ^ 64
  omega

/-- The headers have the sizes of the blocks. -/
theorem sizesOf_kernelBlocks (hk : Recordable k) (kernelId : Id20) :
    SizesOf (kernelBuildHeaders k kernelId) (kernelBlocks k kernelId) := by
  rw [kernelBuildHeaders_eq hk.name_length]
  refine SizesOf.append (SizesOf.append (sizesOf_inputs hk.sized) ?_) ?_
  · rw [SizesOf, List.map_map, List.map_map]
    exact List.map_congr_left fun o _ => rfl
  · rw [SizesOf, textHeaders, List.map_map, List.map_map]
    refine List.map_congr_left fun name hname => ?_
    change (sfFillStringHeader name (kernelText k kernelId name)).dataSize.toNat =
      (kernelText k kernelId name ++ [0]).length
    rw [toNat_dataSize_text hk.name_length kernelId hname, List.length_append,
      List.length_singleton]

/-- The texts with their terminators. -/
def textBytes (k : KernelInfo) (kernelId : Id20) : Bytes :=
  gMetaHdrNames.flatMap fun name => kernelText k kernelId name ++ [0]

/-- What stands behind some values: the outputs have nothing. -/
theorem flatten_values_texts (as : List ArgInfo) (k : KernelInfo) (kernelId : Id20) :
    (as.map inputValue ++ k.outs.map (fun _ => []) ++
      gMetaHdrNames.map fun name => kernelText k kernelId name ++ [0]).flatten =
        (as.map inputValue).flatten ++ textBytes k kernelId := by
  have houts : (k.outs.map fun _ => ([] : Bytes)).flatten = [] := by
    rw [List.flatten_eq_nil_iff]
    intro b hb
    obtain ⟨-, -, rfl⟩ := List.mem_map.mp hb
    rfl
  rw [List.flatten_append, List.flatten_append, houts, List.append_nil, textBytes, List.flatMap_def]

/-- The payload: the values of the arguments, and the texts. -/
theorem flatten_kernelBlocks (k : KernelInfo) (kernelId : Id20) :
    (kernelBlocks k kernelId).flatten = (k.args.map inputValue).flatten ++ textBytes k kernelId :=
  flatten_values_texts k.args k kernelId

/-- The values have at most eight bytes each. -/
theorem length_flatten_values_le {as : List ArgInfo} (h : ∀ a ∈ as, SizedType a.typeCode) :
    (as.map inputValue).flatten.length ≤ 8 * as.length := by
  induction as with
  | nil => simp
  | cons a as ih =>
      rw [List.forall_mem_cons] at h
      have hle := ih h.2
      have ha := (inputElemSize_of_sized h.1).2
      rw [List.map_cons, List.flatten_cons, List.length_append, length_inputValue h.1,
        List.length_cons]
      omega

/-- The blocks have few bytes, so that their sizes can be added up. -/
theorem length_kernelBlocks_lt (hk : Recordable k) (kernelId : Id20)
    (hcount : k.args.length + k.outs.length + 3 < 2 ^ 32) :
    (kernelBlocks k kernelId).flatten.length < 2 ^ 64 := by
  have hvalues := length_flatten_values_le hk.sized
  have htexts := length_kernelText_le k kernelId
  have hlen := hk.name_length
  rw [nameStrMaxLen] at hlen
  simp only [gMetaHdrNames, List.forall_mem_cons] at htexts
  obtain ⟨h₁, h₂, h₃, -⟩ := htexts
  rw [flatten_kernelBlocks, List.length_append]
  simp only [textBytes, gMetaHdrNames, List.flatMap_cons, List.flatMap_nil, List.length_append,
    List.length_singleton, List.length_nil]
  omega

/-- The size that is computed is that of the blocks. -/
theorem toNat_kernelDatasize (hk : Recordable k) (kernelId : Id20)
    (hcount : k.args.length + k.outs.length + 3 < 2 ^ 32) :
    (kernelDatasize k kernelId).toNat = (kernelBlocks k kernelId).flatten.length := by
  have hsum : kernelDatasize k kernelId =
      ((kernelBuildHeaders k kernelId).map MetaHeader.dataSize).sum := by
    have hargs : (k.args.map sfFillParmHeader).map MetaHeader.dataSize =
        k.args.map fun a => (inputElemSize a).toUInt64 := by
      rw [List.map_map]
      rfl
    have houts : ((k.outs.map sfFillMetricHeader).map MetaHeader.dataSize).sum = 0 := by
      induction k.outs with
      | nil => rfl
      | cons o os ih =>
          rw [List.map_cons, List.map_cons, List.sum_cons, ih]
          rfl
    rw [kernelDatasize, kernelBuildHeaders, List.map_append, List.map_append, List.sum_append,
      List.sum_append, hargs, houts, UInt64.add_zero]
  have hclaimed := (sizesOf_kernelBlocks hk kernelId).claimed_eq
  rw [hsum, toNat_sum_dataSize, hclaimed]
  rw [hclaimed]
  exact length_kernelBlocks_lt hk kernelId hcount

/-- **The record that is built**, when the headers can be counted. -/
theorem build_eq_ok (hk : Recordable k) (kernelId : Id20)
    (hcount : k.args.length + k.outs.length + 3 < 2 ^ 32) :
    ∃ r, tpbRafKernelBuildRegisteredAttr k kernelId = .ok r ∧
      r.headers = kernelBuildHeaders k kernelId ∧ r.data = (kernelBlocks k kernelId).flatten ∧
        r.datasize.toNat = r.data.length ∧
          r.attr.nheader.toNat = k.args.length + k.outs.length + 3 := by
  have hnheader : (UInt32.ofNat k.args.length + UInt32.ofNat k.outs.length + 3).toNat =
      k.args.length + k.outs.length + 3 := by
    simp only [UInt32.toNat_add, UInt32.toNat_ofNat', UInt32.reduceToNat]
    omega
  have hvalues : copyAll inputBytes k.args = .ok (k.args.map inputValue).flatten :=
    copyAll_ok fun a ha => inputBytes_of_sized (hk.sized a ha)
  have hdata : (k.args.map inputValue).flatten ++
      (metaPayloads k.name kernelId).flatMap (· ++ [0]) = (kernelBlocks k kernelId).flatten := by
    rw [flatten_kernelBlocks, metaPayloads_eq hk.name_length, List.flatMap_map, textBytes]
  have hsize := toNat_kernelDatasize hk kernelId hcount
  rw [tpbRafKernelBuildRegisteredAttr, hnheader, if_neg (Nat.lt_irrefl _), hvalues]
  dsimp only
  rw [hdata, hsize, if_neg (Nat.lt_irrefl _), Nat.sub_self, List.replicate_zero, List.append_nil]
  exact ⟨_, rfl, rfl, rfl, hsize, hnheader⟩

/-- Otherwise there are too few slots for the headers. -/
theorem build_eq_undefined (hcount : ¬k.args.length + k.outs.length + 3 < 2 ^ 32) :
    tpbRafKernelBuildRegisteredAttr k kernelId = .error .undefined := by
  rw [tpbRafKernelBuildRegisteredAttr, if_pos ?_]
  have hlt := (UInt32.ofNat k.args.length + UInt32.ofNat k.outs.length + 3).toNat_lt
  omega

end Build

/-! ### Finding a text -/

section Find

variable {k : KernelInfo} {kernelId : Id20} {name : Bytes}

/-- The name in a header. -/
def MetaHeader.nameText (h : MetaHeader) : Bytes := cstr h.name.toList

/-- **The payload of the first header with the name**: a text from the place of its block on. -/
theorem headerPayload_blocks {before after : List MetaHeader} {h : MetaHeader} {bs cs : List Bytes}
    {b : Bytes} (hsizes : SizesOf (before ++ h :: after) (bs ++ b :: cs))
    (hlen : before.length = bs.length) (hsmall : (bs ++ b :: cs).flatten.length < 2 ^ 64)
    (hbefore : ∀ g ∈ before, g.nameText ≠ name) (hname : h.nameText = name) {n : ℕ} (hn : 0 < n) :
    tpbRafKernelGetHeaderPayload (before ++ h :: after) (some (bs ++ b :: cs).flatten) name n =
      if h.dataSize = 0 then .ok []
      else if 0 ∈ b ++ cs.flatten then .ok (printedIn n (cstr (b ++ cs.flatten)))
      else .error .undefined := by
  have hfind : tpbRafKernelFindHeader (before ++ h :: after) name = some before.length := by
    have hnone : before.findIdx? (fun g => decide (cstr g.name.toList = name)) = none := by
      rw [List.findIdx?_eq_none_iff]
      intro g hg
      exact decide_eq_false (hbefore g hg)
    have hhead : decide (cstr h.name.toList = name) = true := decide_eq_true hname
    rw [tpbRafKernelFindHeader, List.findIdx?_append, hnone, List.findIdx?_cons, if_pos hhead]
    simp
  have hget : (before ++ h :: after)[before.length]? = some h := by simp
  have hclaimed : claimed before = bs.flatten.length := by
    have htake := hsizes.claimed_take before.length
    rwa [List.take_left, hlen, List.take_left] at htake
  have hoff : blockOffset ((before ++ h :: after).take before.length) = bs.flatten.length := by
    rw [List.flatten_append, List.length_append] at hsmall
    rw [List.take_left, blockOffset_eq (by omega), hclaimed]
  rw [tpbRafKernelGetHeaderPayload, if_neg (by omega), hfind]
  dsimp only
  rw [hget]
  dsimp only
  rw [hoff, strAt, List.flatten_append, List.drop_left, List.flatten_cons]
  split_ifs
  · rfl
  · rfl
  · rfl

/-- The headers of the arguments and outputs have their names. -/
theorem nameText_parm (hk : Recordable k) :
    ∀ a ∈ k.args, (sfFillParmHeader a).nameText = a.name := by
  intro a ha
  obtain ⟨hvalid, hzero⟩ := hk.valid a.name (List.mem_append_left _ (List.mem_map_of_mem ha))
  exact cstr_snprintfS hzero (length_of_valid hvalid).2

theorem nameText_metric (hk : Recordable k) :
    ∀ o ∈ k.outs, (sfFillMetricHeader o).nameText = o.name := by
  intro o ho
  obtain ⟨hvalid, hzero⟩ := hk.valid o.name (List.mem_append_right _ (List.mem_map_of_mem ho))
  exact cstr_snprintfS hzero (length_of_valid hvalid).2

/-- The headers of the texts have their names. -/
theorem nameText_text (text : Bytes) :
    ∀ name ∈ gMetaHdrNames, (sfFillStringHeader name text).nameText = name := by
  have hclosed : ∀ name ∈ gMetaHdrNames, 0 ∉ name ∧ name.length < 256 := by decide +kernel
  intro name hname
  obtain ⟨hzero, hlen⟩ := hclosed name hname
  exact cstr_snprintfS hzero hlen

/-- A text has no zero byte. -/
theorem zero_not_mem_kernelText (hk : Recordable k) (kernelId : Id20) :
    ∀ name ∈ gMetaHdrNames, 0 ∉ kernelText k kernelId name := by
  have hclosed : ∀ name ∈ gMetaHdrNames, 0 ∉ kvText
      [ascii "format=tpbench.kernel_meta.v1".toList, ascii "section=".toList ++ name] := by
    decide +kernel
  have hwords : 0 ∉ ascii "kernel.name=".toList ∧ 0 ∉ ascii "kernel.id=".toList ∧
      0 ∉ ascii "active=1".toList ++ [newline] := by decide +kernel
  have hhex : 0 ∉ hexBytes kernelId.toList := by
    intro h
    obtain ⟨n, hn, hc⟩ := exists_of_mem_hexBytes h
    exact (hexLower_class hn).2.1 hc.symm
  have hplain := hk.name_plain
  have hline : (0 : UInt8) ≠ newline := by decide
  intro name hname
  have hfront := hclosed name hname
  rw [kernelText, kvText, List.flatMap_append, List.mem_append, not_or]
  refine ⟨hfront, ?_⟩
  split_ifs
  · simp only [List.flatMap_cons, List.flatMap_nil, List.append_nil, List.mem_append, not_or,
      List.mem_singleton] at hwords ⊢
    exact ⟨⟨⟨hwords.1, hplain⟩, hline⟩, ⟨⟨hwords.2.1, hhex⟩, hline⟩, hwords.2.2⟩
  · exact List.not_mem_nil

/-- A text that no argument and no output has the name of is found. -/
theorem headerPayload_text (hk : Recordable k) (kernelId : Id20)
    (hcount : k.args.length + k.outs.length + 3 < 2 ^ 32) (hname : name ∈ gMetaHdrNames)
    (hfree : name ∉ k.names) {n : ℕ} (hn : (kernelText k kernelId name).length < n) :
    tpbRafKernelGetHeaderPayload (kernelBuildHeaders k kernelId)
      (some (kernelBlocks k kernelId).flatten) name n = .ok (kernelText k kernelId name) := by
  obtain ⟨pre, post, hsplit, hpre⟩ := List.eq_append_cons_of_mem hname
  have hmem : ∀ g ∈ pre, g ∈ gMetaHdrNames := fun g hg => by simp [hsplit, hg]
  -- the headers and blocks in front of the text
  have hheaders : kernelBuildHeaders k kernelId =
      (k.args.map sfFillParmHeader ++ k.outs.map sfFillMetricHeader ++
        pre.map fun s => sfFillStringHeader s (kernelText k kernelId s)) ++
      sfFillStringHeader name (kernelText k kernelId name) ::
        post.map fun s => sfFillStringHeader s (kernelText k kernelId s) := by
    rw [kernelBuildHeaders_eq hk.name_length, textHeaders, hsplit, List.map_append, List.map_cons]
    simp only [List.append_assoc]
  have hblocks : kernelBlocks k kernelId =
      (k.args.map inputValue ++ k.outs.map (fun _ => []) ++
        pre.map fun s => kernelText k kernelId s ++ [0]) ++
      (kernelText k kernelId name ++ [0]) :: post.map fun s => kernelText k kernelId s ++ [0] := by
    rw [kernelBlocks, hsplit, List.map_append, List.map_cons]
    simp only [List.append_assoc]
  have hsizes := sizesOf_kernelBlocks hk kernelId
  have hsmall := length_kernelBlocks_lt hk kernelId hcount
  rw [hheaders, hblocks] at hsizes
  rw [hblocks] at hsmall
  have hother : ∀ g ∈ k.args.map sfFillParmHeader ++ k.outs.map sfFillMetricHeader ++
      pre.map (fun s => sfFillStringHeader s (kernelText k kernelId s)), g.nameText ≠ name := by
    intro g hg
    rw [List.mem_append, List.mem_append] at hg
    rcases hg with (hg | hg) | hg
    · obtain ⟨a, ha, rfl⟩ := List.mem_map.mp hg
      rw [nameText_parm hk a ha]
      rintro rfl
      exact hfree (List.mem_append_left _ (List.mem_map_of_mem ha))
    · obtain ⟨o, ho, rfl⟩ := List.mem_map.mp hg
      rw [nameText_metric hk o ho]
      rintro rfl
      exact hfree (List.mem_append_right _ (List.mem_map_of_mem ho))
    · obtain ⟨s, hs, rfl⟩ := List.mem_map.mp hg
      rw [nameText_text _ s (hmem s hs)]
      rintro rfl
      exact hpre hs
  have hsize : (sfFillStringHeader name (kernelText k kernelId name)).dataSize ≠ 0 := by
    intro hzero
    have htoNat := toNat_dataSize_text hk.name_length kernelId hname
    rw [hzero, UInt64.toNat_zero] at htoNat
    omega
  rw [hheaders, hblocks, headerPayload_blocks hsizes (by simp) hsmall hother
    (nameText_text _ name hname) (by omega), if_neg hsize, List.append_assoc, List.singleton_append,
    if_pos (by simp), cstr_append_zero (zero_not_mem_kernelText hk _ _ hname), printedIn_of_lt hn]

/-- The value of an argument has its place. -/
theorem value_at (hk : Recordable k) (kernelId : Id20) {i : ℕ} {a : ArgInfo}
    (hi : k.args[i]? = some a) :
    ((kernelBlocks k kernelId).flatten.drop
      (claimed ((kernelBuildHeaders k kernelId).take i))).take (inputElemSize a).toNat =
        inputValue a := by
  have ha := hk.sized a (List.mem_of_getElem? hi)
  obtain ⟨hlt, rfl⟩ := List.getElem?_eq_some_iff.mp hi
  have hblocks : (kernelBlocks k kernelId).drop i = inputValue k.args[i] ::
      ((k.args.drop (i + 1)).map inputValue ++ k.outs.map (fun _ => []) ++
        gMetaHdrNames.map fun name => kernelText k kernelId name ++ [0]) := by
    rw [kernelBlocks, List.append_assoc, List.drop_append_of_le_length (by simpa using hlt.le),
      ← List.map_drop, List.drop_eq_getElem_cons hlt, List.map_cons, List.cons_append,
      List.append_assoc]
  rw [(sizesOf_kernelBlocks hk kernelId).claimed_take, drop_flatten_take, hblocks,
    List.flatten_cons, ← length_inputValue ha, List.take_left]

/-- The names of the arguments in front of an argument are others. -/
theorem name_ne_of_args (hk : Recordable k) {as cs : List ArgInfo} {a : ArgInfo}
    (hsplit : k.args = as ++ a :: cs) : ∀ b ∈ as, b.name ≠ a.name := by
  have hargs := (List.nodup_append.mp hk.distinct).1
  rw [hsplit, List.map_append, List.map_cons] at hargs
  intro b hb
  exact (List.nodup_append.mp hargs).2.2 _ (List.mem_map_of_mem hb) _ List.mem_cons_self

/-- The names of the arguments, and of the outputs in front of an output, are others. -/
theorem name_ne_of_outs (hk : Recordable k) {os ps : List KOutput} {o : KOutput}
    (hsplit : k.outs = os ++ o :: ps) :
    (∀ a ∈ k.args, a.name ≠ o.name) ∧ ∀ p ∈ os, p.name ≠ o.name := by
  obtain ⟨-, houts, hdisjoint⟩ := List.nodup_append.mp hk.distinct
  refine ⟨fun a ha => ?_, fun p hp => ?_⟩
  · have ho : o ∈ k.outs := by simp [hsplit]
    exact hdisjoint _ (List.mem_map_of_mem ha) _ (List.mem_map_of_mem ho)
  · rw [hsplit, List.map_append, List.map_cons] at houts
    exact (List.nodup_append.mp houts).2.2 _ (List.mem_map_of_mem hp) _ List.mem_cons_self

/-- Some text ends. -/
theorem zero_mem_textBytes (k : KernelInfo) (kernelId : Id20) : 0 ∈ textBytes k kernelId :=
  List.mem_flatMap.mpr ⟨hdrVariation, List.mem_cons_self, by simp⟩

/-- Under the name of an argument its value is read as a text, and what follows it. -/
theorem headerPayload_arg (hk : Recordable k) (kernelId : Id20)
    (hcount : k.args.length + k.outs.length + 3 < 2 ^ 32) {as cs : List ArgInfo} {a : ArgInfo}
    (hsplit : k.args = as ++ a :: cs) (hname : a.name = name) {n : ℕ} (hn : 0 < n) :
    tpbRafKernelGetHeaderPayload (kernelBuildHeaders k kernelId)
      (some (kernelBlocks k kernelId).flatten) name n =
        .ok (printedIn n (cstr (((a :: cs).map inputValue).flatten ++ textBytes k kernelId))) := by
  have hheaders : kernelBuildHeaders k kernelId = as.map sfFillParmHeader ++ sfFillParmHeader a ::
      (cs.map sfFillParmHeader ++ k.outs.map sfFillMetricHeader ++ textHeaders k kernelId) := by
    rw [kernelBuildHeaders_eq hk.name_length, hsplit, List.map_append, List.map_cons]
    simp only [List.append_assoc, List.cons_append]
  have hblocks : kernelBlocks k kernelId = as.map inputValue ++ inputValue a ::
      (cs.map inputValue ++ k.outs.map (fun _ => []) ++
        gMetaHdrNames.map fun name => kernelText k kernelId name ++ [0]) := by
    rw [kernelBlocks, hsplit, List.map_append, List.map_cons]
    simp only [List.append_assoc, List.cons_append]
  have hsizes := sizesOf_kernelBlocks hk kernelId
  have hsmall := length_kernelBlocks_lt hk kernelId hcount
  rw [hheaders, hblocks] at hsizes
  rw [hblocks] at hsmall
  have ha : a ∈ k.args := by simp [hsplit]
  have hother : ∀ g ∈ as.map sfFillParmHeader, g.nameText ≠ name := by
    intro g hg
    obtain ⟨b, hb, rfl⟩ := List.mem_map.mp hg
    rw [nameText_parm hk b (by simp [hsplit, hb]), ← hname]
    exact name_ne_of_args hk hsplit b hb
  have hsize : (sfFillParmHeader a).dataSize ≠ 0 := by
    intro hzero
    have hpos := (inputElemSize_of_sized (hk.sized a ha)).1
    have htoNat : (sfFillParmHeader a).dataSize.toNat = (inputElemSize a).toNat :=
      UInt32.toNat_toUInt64 _
    rw [hzero, UInt64.toNat_zero] at htoNat
    omega
  rw [hheaders, hblocks, headerPayload_blocks hsizes (by simp) hsmall hother
    ((nameText_parm hk a ha).trans hname) hn, if_neg hsize, flatten_values_texts,
    ← List.append_assoc, ← List.flatten_cons, ← List.map_cons,
    if_pos (List.mem_append_right _ (zero_mem_textBytes k kernelId))]

/-- Under the name of an output there is nothing. -/
theorem headerPayload_out (hk : Recordable k) (kernelId : Id20)
    (hcount : k.args.length + k.outs.length + 3 < 2 ^ 32) {o : KOutput} (ho : o ∈ k.outs)
    (hname : o.name = name) {n : ℕ} (hn : 0 < n) :
    tpbRafKernelGetHeaderPayload (kernelBuildHeaders k kernelId)
      (some (kernelBlocks k kernelId).flatten) name n = .ok [] := by
  obtain ⟨os, ps, hsplit⟩ := List.append_of_mem ho
  have hheaders : kernelBuildHeaders k kernelId =
      (k.args.map sfFillParmHeader ++ os.map sfFillMetricHeader) ++ sfFillMetricHeader o ::
        (ps.map sfFillMetricHeader ++ textHeaders k kernelId) := by
    rw [kernelBuildHeaders_eq hk.name_length, hsplit, List.map_append, List.map_cons]
    simp only [List.append_assoc, List.cons_append]
  have hblocks : kernelBlocks k kernelId =
      (k.args.map inputValue ++ os.map (fun _ => [])) ++ [] ::
        (ps.map (fun _ => []) ++
          gMetaHdrNames.map fun name => kernelText k kernelId name ++ [0]) := by
    rw [kernelBlocks, hsplit, List.map_append, List.map_cons]
    simp only [List.append_assoc, List.cons_append]
  have hsizes := sizesOf_kernelBlocks hk kernelId
  have hsmall := length_kernelBlocks_lt hk kernelId hcount
  rw [hheaders, hblocks] at hsizes
  rw [hblocks] at hsmall
  obtain ⟨hargs, houts⟩ := name_ne_of_outs hk hsplit
  have hother : ∀ g ∈ k.args.map sfFillParmHeader ++ os.map sfFillMetricHeader,
      g.nameText ≠ name := by
    intro g hg
    rw [List.mem_append] at hg
    rcases hg with hg | hg
    · obtain ⟨a, ha, rfl⟩ := List.mem_map.mp hg
      rw [nameText_parm hk a ha, ← hname]
      exact hargs a ha
    · obtain ⟨p, hp, rfl⟩ := List.mem_map.mp hg
      rw [nameText_metric hk p (by simp [hsplit, hp]), ← hname]
      exact houts p hp
  rw [hheaders, hblocks, headerPayload_blocks hsizes (by simp) hsmall hother
    ((nameText_metric hk o ho).trans hname) hn]
  exact if_pos rfl

/-- A string that ends in front of what follows it. -/
theorem cstr_append_of_mem {b c : Bytes} (h : 0 ∈ b) : cstr (b ++ c) = cstr b := by
  obtain ⟨a, d, rfl, ha⟩ := List.eq_append_cons_of_mem h
  rw [List.append_assoc, List.cons_append, cstr_append_zero ha, cstr_append_zero ha]

/-- Behind the values the first text is read. -/
theorem cstr_append_textBytes (hk : Recordable k) (kernelId : Id20) {b : Bytes} (h : 0 ∉ b) :
    cstr (b ++ textBytes k kernelId) = b ++ kernelText k kernelId hdrVariation := by
  have hfirst := zero_not_mem_kernelText hk kernelId hdrVariation List.mem_cons_self
  have hsplit : b ++ textBytes k kernelId = (b ++ kernelText k kernelId hdrVariation) ++ 0 ::
      [hdrCompilation, hdrDependency].flatMap fun name => kernelText k kernelId name ++ [0] := by
    rw [textBytes, gMetaHdrNames, List.flatMap_cons]
    simp only [List.append_assoc, List.cons_append, List.nil_append]
  rw [hsplit, cstr_append_zero]
  rw [List.mem_append, not_or]
  exact ⟨h, hfirst⟩

/-- A text under the name of an argument is the one that is wanted when the values spell it. -/
theorem headerPayload_spelled (hk : Recordable k)
    (hcount : k.args.length + k.outs.length + 3 < 2 ^ 32)
    (h : SpelledByValues k kernelId name) {n : ℕ}
    (hn : (kernelText k kernelId name).length < n) :
    tpbRafKernelGetHeaderPayload (kernelBuildHeaders k kernelId)
      (some (kernelBlocks k kernelId).flatten) name n = .ok (kernelText k kernelId name) := by
  obtain ⟨as, a, cs, hsplit, hname, hzero, htext⟩ := h
  rw [headerPayload_arg hk kernelId hcount hsplit hname (by omega), cstr_append_of_mem hzero, htext,
    printedIn_of_lt hn]

/-- **A text under the name of an argument or output** is the one that is wanted only when values
spell it. -/
theorem spelled_of_headerPayload (hk : Recordable k)
    (hcount : k.args.length + k.outs.length + 3 < 2 ^ 32) (hname : name ∈ gMetaHdrNames)
    (htaken : name ∈ k.names)
    (htext : ∀ n, (kernelText k kernelId name).length < n →
      tpbRafKernelGetHeaderPayload (kernelBuildHeaders k kernelId)
        (some (kernelBlocks k kernelId).flatten) name n = .ok (kernelText k kernelId name)) :
    SpelledByValues k kernelId name := by
  rcases List.mem_append.mp htaken with htaken | htaken
  · obtain ⟨a, ha, haname⟩ := List.mem_map.mp htaken
    obtain ⟨as, cs, hsplit⟩ := List.append_of_mem ha
    refine ⟨as, a, cs, hsplit, haname, ?_⟩
    -- a buffer with room for one more character
    have hread := htext ((kernelText k kernelId name).length + 2) (by omega)
    rw [headerPayload_arg hk kernelId hcount hsplit haname (by omega)] at hread
    have hcut : (cstr (((a :: cs).map inputValue).flatten ++ textBytes k kernelId)).take
        ((kernelText k kernelId name).length + 1) = kernelText k kernelId name :=
      Except.ok.inj hread
    have hwhole : cstr (((a :: cs).map inputValue).flatten ++ textBytes k kernelId) =
        kernelText k kernelId name := by
      have hlen := congrArg List.length hcut
      rw [List.length_take] at hlen
      rwa [List.take_of_length_le (by omega)] at hcut
    by_cases hzero : 0 ∈ ((a :: cs).map inputValue).flatten
    · exact ⟨hzero, by rw [← hwhole, cstr_append_of_mem hzero]⟩
    · have hlen := congrArg List.length hwhole
      have hle := length_kernelText_le k kernelId name hname
      have hpos := (inputElemSize_of_sized (hk.sized a ha)).1
      rw [cstr_append_textBytes hk kernelId hzero, List.length_append, length_kernelText_variation,
        List.map_cons, List.flatten_cons, List.length_append,
        length_inputValue (hk.sized a ha)] at hlen
      omega
  · obtain ⟨o, ho, honame⟩ := List.mem_map.mp htaken
    have hread := htext ((kernelText k kernelId name).length + 1) (by omega)
    rw [headerPayload_out hk kernelId hcount ho honame (by omega)] at hread
    exact absurd (Except.ok.inj hread).symm (List.cons_ne_nil _ _)

end Find

/-! ### The lines of the first text -/

section Lines

variable {k : KernelInfo} {kernelId : Id20}

/-- A name with a newline is not the value of a line. -/
theorem newline_not_mem_of_kvGet {text key value : Bytes} (hkey : IsKvKey key) {n : ℕ} (hn : 0 < n)
    (h : tpbRafKernelMetaKvGet text key n = .ok value) : newline ∉ value := by
  rw [tpbRafKernelMetaKvGet_eq hkey.no_newline hkey.length_le hn] at h
  split at h
  · rename_i l hfind
    obtain rfl := Except.ok.inj h
    intro hmem
    refine newline_not_mem_kvLines text l (List.mem_of_find?_eq_some hfind) ?_
    exact List.mem_of_mem_drop (List.mem_of_mem_take hmem)
  · cases h

/-- The first line of a key has its value. -/
theorem kvGet_of_lines {text key value : Bytes} (hkey : IsKvKey key) {before after : List Bytes}
    (hlines : kvLines text = before ++ (key ++ [61] ++ value) :: after)
    (hbefore : ∀ l ∈ before, isKeyLine key l = false) {n : ℕ} (hn : value.length < n) :
    tpbRafKernelMetaKvGet text key n = .ok value := by
  have hfind : (kvLines text).find? (isKeyLine key) = some (key ++ [61] ++ value) := by
    have hnone : before.find? (isKeyLine key) = none := by
      rw [List.find?_eq_none]
      intro l hl
      simp [hbefore l hl]
    rw [hlines, List.find?_append, hnone, List.find?_cons_of_pos (isKeyLine_line key value)]
    rfl
  have hdrop : (key ++ [61] ++ value).drop (key.length + 1) = value :=
    List.drop_left' List.length_append
  rw [tpbRafKernelMetaKvGet_eq hkey.no_newline hkey.length_le (by omega), hfind]
  dsimp only
  rw [lineValue, hdrop, List.take_of_length_le (by omega)]

/-- The keys of the first text. -/
theorem isKvKey_kernelName : IsKvKey (ascii "kernel.name".toList) :=
  ⟨by decide +kernel, by decide +kernel, by decide +kernel⟩

theorem isKvKey_kernelId : IsKvKey (ascii "kernel.id".toList) :=
  ⟨by decide +kernel, by decide +kernel, by decide +kernel⟩

/-- The lines of the first text. -/
theorem kvLines_kernelText_variation (hname : newline ∉ k.name) (kernelId : Id20) :
    kvLines (kernelText k kernelId hdrVariation) =
      variationLines ++ [ascii "kernel.name".toList ++ [61] ++ k.name,
        ascii "kernel.id".toList ++ [61] ++ hexBytes kernelId.toList, ascii "active=1".toList] := by
  have hkeys : ascii "kernel.name=".toList = ascii "kernel.name".toList ++ [61] ∧
      ascii "kernel.id=".toList = ascii "kernel.id".toList ++ [61] := by decide +kernel
  have hwords : newline ∉ ascii "kernel.name".toList ++ [61] ∧
      newline ∉ ascii "kernel.id".toList ++ [61] ∧ newline ∉ ascii "active=1".toList := by
    decide +kernel
  have hfront : ∀ l ∈ variationLines, newline ∉ l := by decide +kernel
  have hhex : newline ∉ hexBytes kernelId.toList := by
    intro h
    obtain ⟨n, hn, hc⟩ := exists_of_mem_hexBytes h
    exact (hexLower_class hn).2.2.1 hc.symm
  obtain ⟨hkey, hid, hactive⟩ := hwords
  rw [kernelText_variation, kernelLines, hkeys.1, hkeys.2, kvText, kvText, ← List.flatMap_append,
    ← kvText, kvLines_kvText]
  simp only [List.forall_mem_append, List.forall_mem_cons, List.not_mem_nil, IsEmpty.forall_iff,
    implies_true, and_true]
  refine ⟨hfront, ?_, ?_, hactive⟩
  · rw [List.mem_append, not_or]
    exact ⟨hkey, hname⟩
  · rw [List.mem_append, not_or]
    exact ⟨hid, hhex⟩

/-- The first text tells the name and the ID of a kernel whose name is one line. -/
theorem kvGet_variation (hname : newline ∉ k.name) (kernelId : Id20) :
    (∀ n, k.name.length < n →
      tpbRafKernelMetaKvGet (kernelText k kernelId hdrVariation) (ascii "kernel.name".toList) n =
        .ok k.name) ∧
    ∀ n, 40 < n →
      tpbRafKernelMetaKvGet (kernelText k kernelId hdrVariation) (ascii "kernel.id".toList) n =
        .ok (hexBytes kernelId.toList) := by
  have hlines := kvLines_kernelText_variation hname kernelId
  have hfront : ∀ l ∈ variationLines, isKeyLine (ascii "kernel.name".toList) l = false ∧
      isKeyLine (ascii "kernel.id".toList) l = false := by decide +kernel
  have hnameLine : isKeyLine (ascii "kernel.id".toList)
      (ascii "kernel.name".toList ++ [61] ++ k.name) = false := by
    by_contra hline
    rw [Bool.not_eq_false] at hline
    have hkeys := (takeWhile_of_isKeyLine isKvKey_kernelId.no_eq hline).symm.trans
      (takeWhile_of_isKeyLine isKvKey_kernelName.no_eq (isKeyLine_line _ k.name))
    revert hkeys
    decide +kernel
  constructor
  · intro n hn
    exact kvGet_of_lines isKvKey_kernelName hlines (fun l hl => (hfront l hl).1) hn
  · intro n hn
    rw [List.append_cons] at hlines
    refine kvGet_of_lines isKvKey_kernelId hlines ?_ (by rwa [length_hexBytes_id])
    rw [List.forall_mem_append, List.forall_mem_singleton]
    exact ⟨fun l hl => (hfront l hl).2, hnameLine⟩

end Lines

/-! ### The record is as it has to be -/

section Recorded

variable {k : KernelInfo}

/-- **The record of a kernel** is as it has to be exactly when its headers can be counted, its
name is one line, and no argument or output hides a text. -/
theorem recorded_iff (hk : Recordable k) (kernelId : Id20) :
    (∃ r, tpbRafKernelBuildRegisteredAttr k kernelId = .ok r ∧ KernelRecorded k kernelId r) ↔
      k.args.length + k.outs.length + 3 < 2 ^ 32 ∧ newline ∉ k.name ∧
        ∀ name ∈ gMetaHdrNames, name ∉ k.names ∨ SpelledByValues k kernelId name := by
  by_cases hcount : k.args.length + k.outs.length + 3 < 2 ^ 32
  · obtain ⟨r, hbuild, hheaders, hdata, hsize, hnheader⟩ := build_eq_ok hk kernelId hcount
    constructor
    · rintro ⟨r', hbuild', hrec⟩
      rw [hbuild] at hbuild'
      obtain rfl := Except.ok.inj hbuild'
      refine ⟨hcount, ?_, fun name hname => ?_⟩
      · have hget := hrec.name (k.name.length + 1) (by omega)
        exact newline_not_mem_of_kvGet isKvKey_kernelName (by omega) hget
      · by_cases htaken : name ∈ k.names
        · have htexts := hrec.texts name hname
          rw [hheaders, hdata] at htexts
          exact .inr (spelled_of_headerPayload hk hcount hname htaken htexts)
        · exact .inl htaken
    · rintro ⟨-, hline, hnames⟩
      have hsizes := sizesOf_kernelBlocks hk kernelId
      have hslots : r.headers.length = k.args.length + k.outs.length + 3 := by
        rw [hheaders, hsizes.length_eq, kernelBlocks, gMetaHdrNames]
        simp only [List.length_append, List.length_map, List.length_cons, List.length_nil]
      refine ⟨r, hbuild, hslots, hnheader.trans hslots.symm, ?_, ?_, ?_, ?_, ?_⟩
      · rw [hheaders, hsizes.claimed_eq, hsize, hdata]
      · intro i a hi
        rw [hheaders, hdata]
        exact value_at hk kernelId hi
      · intro name hname n hn
        rw [hheaders, hdata]
        rcases hnames name hname with hfree | hspelled
        · exact headerPayload_text hk kernelId hcount hname hfree hn
        · exact headerPayload_spelled hk hcount hspelled hn
      · exact (kvGet_variation hline kernelId).1
      · exact (kvGet_variation hline kernelId).2
  · rw [build_eq_undefined hcount]
    constructor
    · rintro ⟨r, ⟨⟩, -⟩
    · rintro ⟨h, -⟩
      exact absurd h hcount

end Recorded

/-! ### Registered kernels -/

/-- A caller hands over strings, which have no zero byte. -/
def RegCall.HasStrings : RegCall → Prop
  | register name note _ => 0 ∉ name ∧ 0 ∉ note
  | addArg name tag note dflt _ _ => 0 ∉ name ∧ 0 ∉ tag ∧ 0 ∉ note ∧ 0 ∉ dflt
  | addOutput name tag note _ _ => 0 ∉ name ∧ 0 ∉ tag ∧ 0 ∉ note
  | finalizePli => True
  | buildHandle argv => ∀ w ∈ argv, 0 ∉ w

/-- The names of a kernel have no zero byte, and its own fits its field. -/
structure KernelInfo.Plain (k : KernelInfo) : Prop where
  name_length : k.name.length < nameStrMaxLen
  name_plain : 0 ∉ k.name
  names : ∀ name ∈ k.names, 0 ∉ name

/-- All kernels of the driver have such names. -/
def PlainKernels (d : PliDriver) : Prop :=
  (∀ k ∈ d.kernelAll, k.Plain) ∧ ∀ k ∈ d.currentKernel, k.Plain

section Registered

variable {F : Floats} {timer : Timer} {d d' : PliDriver} {c : RegCall} {t : List RegCall}

theorem KernelInfo.Plain.withArg {k : KernelInfo} {a : ArgInfo} (hk : k.Plain) (ha : 0 ∉ a.name) :
    (k.withArg a).Plain := by
  refine ⟨hk.name_length, hk.name_plain, fun name hname => ?_⟩
  rcases List.mem_cons.mp ((k.withArg_names_perm a).mem_iff.mp hname) with rfl | hname
  · exact ha
  · exact hk.names name hname

theorem KernelInfo.Plain.withOutput {k : KernelInfo} {o : KOutput} (hk : k.Plain)
    (ho : 0 ∉ o.name) : (k.withOutput o).Plain := by
  refine ⟨hk.name_length, hk.name_plain, fun name hname => ?_⟩
  rcases List.mem_cons.mp ((k.withOutput_names_perm o).mem_iff.mp hname) with rfl | hname
  · exact ho
  · exact hk.names name hname

/-- **The step lemma**: a call with strings keeps the names without zero bytes. -/
theorem RegStep.plain (hinv : PlainKernels d) (hc : c.HasStrings) (h : RegStep F timer d c d') :
    PlainKernels d' := by
  refine h.forall_kernels ?_ ?_ ?_ hinv
  · rintro name note kctrl rfl hlen
    exact ⟨hlen, hc.1, by simp [KernelInfo.names]⟩
  · rintro name tag note dflt dtype va k a rfl _ _ hname _ hk
    exact hk.withArg (hname.symm ▸ hc.1)
  · rintro name tag note dtype unit k o rfl _ hname _ hk
    exact hk.withOutput (hname.symm ▸ hc.1)

/-- A kernel that was registered by calls with strings can be recorded. -/
theorem recordable_of_run (hrun : Run (RegStep F timer) PliDriver.empty t d)
    (hstrings : ∀ c ∈ t, c.HasStrings) {k : KernelInfo} (hk : k ∈ d.kernelAll) : Recordable k := by
  have hsound := (sound_of_run hrun).1 k hk
  have hsized : UnallocatedInv d := by
    refine hrun.invariant (P := fun _ d => UnallocatedInv d) unallocatedInv_empty ?_
    intro t d c d' hinv hstep
    exact hstep.unallocatedInv hinv
  have hplain : (∀ c ∈ t, c.HasStrings) → PlainKernels d := by
    refine hrun.invariant (P := fun t d => (∀ c ∈ t, c.HasStrings) → PlainKernels d) ?_ ?_
    · intro _
      exact ⟨fun k hk => absurd hk List.not_mem_nil, by rintro k ⟨⟩⟩
    · intro t d c d' hinv hstep hall
      rw [List.forall_mem_append, List.forall_mem_singleton] at hall
      exact hstep.plain (hinv hall.1) hall.2
  have hk' := (hplain hstrings).1 k hk
  refine ⟨(hsized.registered k hk).sized, hsound.names,
    fun name hname => ⟨?_, hk'.names name hname⟩, hk'.name_length, hk'.name_plain⟩
  rcases List.mem_append.mp hname with hname | hname
  · obtain ⟨a, ha, rfl⟩ := List.mem_map.mp hname
    exact (hsound.arg a ha).name
  · obtain ⟨o, ho, rfl⟩ := List.mem_map.mp hname
    exact hsound.out o ho

/-- **The record of a registered kernel**, whatever calls registered it and whatever its ID: it
is as it has to be exactly when there are few enough headers to be counted, the name of the
kernel is one line, and each of the three texts has a name that no argument and no output has,
unless the default values from the argument with the name on spell the text. -/
theorem kernel_recorded_iff (hrun : Run (RegStep F timer) PliDriver.empty t d)
    (hstrings : ∀ c ∈ t, c.HasStrings) {k : KernelInfo} (hk : k ∈ d.kernelAll) (kernelId : Id20) :
    (∃ r, tpbRafKernelBuildRegisteredAttr k kernelId = .ok r ∧ KernelRecorded k kernelId r) ↔
      k.args.length + k.outs.length + 3 < 2 ^ 32 ∧ newline ∉ k.name ∧
        ∀ name ∈ gMetaHdrNames, name ∉ k.names ∨ SpelledByValues k kernelId name :=
  recorded_iff (recordable_of_run hrun hstrings hk) kernelId

end Registered

/-! ### An argument with the name of a text -/

/-- A kernel with one argument is registered. -/
def oneArgRun (name : Bytes) : List RegCall :=
  [.register (ascii ['k']) [] 2, .addArg name [] [] (ascii ['1']) typeInt64 [], .finalizePli]

theorem hasStrings_oneArgRun {name : Bytes} (h : 0 ∉ name) :
    ∀ c ∈ oneArgRun name, c.HasStrings := by
  have hwords : (0 : UInt8) ∉ ascii ['k'] ∧ (0 : UInt8) ∉ ascii ['1'] := by decide
  simp only [oneArgRun, List.forall_mem_cons, RegCall.HasStrings, List.not_mem_nil,
    not_false_eq_true, and_true, true_and, IsEmpty.forall_iff, implies_true]
  exact ⟨hwords.1, h, hwords.2⟩

/-- The kernel that is registered. -/
def oneArgKernel (name : Bytes) : Option KernelInfo :=
  (driverAfter noFloats nsTimer (oneArgRun name) PliDriver.empty).bind fun d => d.kernelAll.head?

/-- The run ends with the kernel. -/
theorem run_oneArgKernel {name : Bytes} {k : KernelInfo} (h : oneArgKernel name = some k) :
    ∃ d, Run (RegStep noFloats nsTimer) PliDriver.empty (oneArgRun name) d ∧ k ∈ d.kernelAll := by
  obtain ⟨d, hd, hk⟩ := Option.bind_eq_some_iff.mp h
  exact ⟨d, run_of_driverAfter hd, List.mem_of_head? hk⟩

/-- The record of a kernel with an argument `n` is as it has to be. -/
theorem kernel_recorded_n : ∃ d k, Run (RegStep noFloats nsTimer) PliDriver.empty
    (oneArgRun (ascii ['n'])) d ∧ k ∈ d.kernelAll ∧
      ∃ r, tpbRafKernelBuildRegisteredAttr k (zeroArr 20) = .ok r ∧
        KernelRecorded k (zeroArr 20) r := by
  have hshape : (oneArgKernel (ascii ['n'])).map
      (fun k => (k.name, k.names, k.args.length, k.outs.length)) =
        some (ascii ['k'], [ascii ['n']], 1, 0) := by decide +kernel
  obtain ⟨k, hkernel, hshape⟩ := Option.map_eq_some_iff.mp hshape
  obtain ⟨d, hrun, hk⟩ := run_oneArgKernel hkernel
  obtain ⟨hname, hnames, hargs, houts⟩ : k.name = ascii ['k'] ∧ k.names = [ascii ['n']] ∧
      k.args.length = 1 ∧ k.outs.length = 0 := by simpa only [Prod.mk.injEq] using hshape
  have hstrings : ∀ c ∈ oneArgRun (ascii ['n']), c.HasStrings := hasStrings_oneArgRun (by decide)
  refine ⟨d, k, hrun, hk, (kernel_recorded_iff hrun hstrings hk _).mpr ⟨?_, ?_, ?_⟩⟩
  · rw [hargs, houts]
    norm_num
  · rw [hname]
    decide
  · rw [hnames]
    have hfree : ∀ name ∈ gMetaHdrNames, name ∉ [ascii ['n']] := by decide +kernel
    exact fun name hmem => .inl (hfree name hmem)

/-- **An argument named `dependency`** hides the text with this name. -/
theorem argument_hides_text : ∃ d k, Run (RegStep noFloats nsTimer) PliDriver.empty
    (oneArgRun hdrDependency) d ∧ k ∈ d.kernelAll ∧
      ¬∃ r, tpbRafKernelBuildRegisteredAttr k (zeroArr 20) = .ok r ∧
        KernelRecorded k (zeroArr 20) r := by
  have hshape : (oneArgKernel hdrDependency).map (fun k => (k.names, k.args.length)) =
      some ([hdrDependency], 1) := by decide +kernel
  obtain ⟨k, hkernel, hshape⟩ := Option.map_eq_some_iff.mp hshape
  obtain ⟨d, hrun, hk⟩ := run_oneArgKernel hkernel
  obtain ⟨hnames, hargs⟩ : k.names = [hdrDependency] ∧ k.args.length = 1 := by
    simpa only [Prod.mk.injEq] using hshape
  have hrecordable := recordable_of_run hrun (hasStrings_oneArgRun (by decide +kernel)) hk
  refine ⟨d, k, hrun, hk, fun hrec => ?_⟩
  obtain ⟨-, -, hall⟩ := (recorded_iff hrecordable _).mp hrec
  have hmem : hdrDependency ∈ gMetaHdrNames := by simp [gMetaHdrNames]
  rcases hall hdrDependency hmem with hfree | ⟨as, a, cs, hsplit, -, -, htext⟩
  · exact hfree (by rw [hnames]; exact List.mem_singleton_self _)
  · -- one value is too short to spell a text
    have hsized : ∀ b ∈ a :: cs, SizedType b.typeCode := fun b hb =>
      hrecordable.sized b (by rw [hsplit]; exact List.mem_append_right _ hb)
    have hvalues := length_flatten_values_le hsized
    have hcstr : (cstr ((a :: cs).map inputValue).flatten).length ≤
        ((a :: cs).map inputValue).flatten.length := (List.takeWhile_prefix _).length_le
    have hlen : (kvText [ascii "format=tpbench.kernel_meta.v1".toList,
        ascii "section=".toList ++ hdrDependency]).length = 49 := by decide +kernel
    rw [htext, kernelText_other k _ hdrDependency (by simp), hlen] at hcstr
    rw [hsplit, List.length_append] at hargs
    omega

end TPBench
