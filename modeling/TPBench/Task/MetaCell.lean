import TPBench.CFile.Scan
import TPBench.Task.Csv
import TPBench.Task.Ls
import TPBench.Task.Samples

/-!
# Cells of the Meta Data

`task get-result --meta-name` prints fields of the members of a logical task. A key is derived
from the task, a field of its record, or `header[INDEX].FIELD`, a field of one of its headers
(`tpbcli-task-get-result.c`). The index has up to 23 digits: it is read by `strtol`, which
saturates, compared with the number of headers after it was narrowed to 32 bits, and used as it
was read.

Without `--show-each-subrank` a capsule has one cell for all its members that can be read: their
common text, or `mixed`. The cells of the members are written to a buffer of 192 bytes for this,
to one of 512 otherwise.

What is printed of type bits, of units, of seconds and of packed times is a parameter
(`CellTexts`), and so are the kernels and the batches that are looked up.

## Main results

* `sfGrHeaderCell_iff`: a cell of a header is looked up where the index says if and only if the
  index is not one of those that are narrowed to an index of a header.
* `metaConsensus_iff`: the cell of a capsule is the consensus of the cells of its members if and
  only if no header is looked up wrongly and the cells do not agree in 191 bytes where one is
  longer.
-/

open CFile

namespace TPBench

/-! ### Keys -/

/-- `tpbcli_gr_hfield_t`. -/
inductive HField
  | blockSize | ndim | dataSize | typeBits | typeBitsSource | typeBitsCheck | typeBitsType | reserve
  | uattrBits | uattrCast | uattrShape | uattrTrim | uattrKind | uattrName | uattrBase | uattrValue
  | name | tag | note | dimsizes | dimnames
  deriving DecidableEq, Repr

/-- `s_hfield_names`, with the fields. -/
def hfieldNames : List (Bytes × HField) :=
  [(ascii "block_size".toList, .blockSize), (ascii "ndim".toList, .ndim),
    (ascii "data_size".toList, .dataSize), (ascii "type_bits".toList, .typeBits),
    (ascii "type_bits.source".toList, .typeBitsSource),
    (ascii "type_bits.check".toList, .typeBitsCheck),
    (ascii "type_bits.type".toList, .typeBitsType),
    (ascii "_reserve".toList, .reserve), (ascii "uattr_bits".toList, .uattrBits),
    (ascii "uattr_bits.cast".toList, .uattrCast), (ascii "uattr_bits.shape".toList, .uattrShape),
    (ascii "uattr_bits.trim".toList, .uattrTrim), (ascii "uattr_bits.kind".toList, .uattrKind),
    (ascii "uattr_bits.name".toList, .uattrName), (ascii "uattr_bits.base".toList, .uattrBase),
    (ascii "uattr_bits.value".toList, .uattrValue), (ascii "name".toList, .name),
    (ascii "tag".toList, .tag), (ascii "note".toList, .note),
    (ascii "dimsizes".toList, .dimsizes), (ascii "dimnames".toList, .dimnames)]

/-- `_sf_gr_hfield_from_str`. -/
def sfGrHfieldFromStr (s : Bytes) : Option HField :=
  (hfieldNames.find? fun p => p.1 = s).map Prod.snd

/-- The digits of the index of a key, behind `header[`. -/
def indexDigits (key : Bytes) : Bytes := (key.drop 7).takeWhile isdigit

/-- The index that is written in a key. -/
def writtenIndex (key : Bytes) : ℕ := digitsNat (indexDigits key)

/-- `_sf_gr_parse_header_key`: the index as a `long`, and the field. -/
def sfGrParseHeaderKey (key : Bytes) : Except Err (ℤ × HField) :=
  if key.take 7 ≠ ascii "header[".toList then .error (.code .none .listNotFound)
  else
    let digits := indexDigits key
    let p := (key.drop 7).drop digits.length
    if digits = [] ∨ p.head? ≠ some 93 ∨ 24 ≤ digits.length then .error (.code .none .cliFail)
    else
      match p.tail with
      | 46 :: field =>
          if field = [] then .error (.code .none .cliFail)
          else match sfGrHfieldFromStr field with
            | none => .error (.code .none .cliFail)
            | some f => .ok (min 9223372036854775807 (digitsNat digits), f)
      | _ => .error (.code .none .cliFail)

/-- `s_derived_keys`. -/
def derivedKeys : List Bytes :=
  [ascii "ref".toList, ascii "taskid".toList, ascii "kernel".toList, ascii "batch_host".toList,
    ascii "nmember".toList]

/-- `s_attr_keys`. -/
def attrKeys : List Bytes :=
  [ascii "task_record_id".toList, ascii "derive_to".toList, ascii "inherit_from".toList,
    ascii "tbatch_id".toList, ascii "kernel_id".toList, ascii "datetime".toList,
    ascii "utc_bits".toList, ascii "btime".toList, ascii "duration".toList,
    ascii "duration_seconds".toList, ascii "exit_code".toList, ascii "handle_index".toList,
    ascii "pid".toList, ascii "tid".toList, ascii "ninput".toList, ascii "noutput".toList,
    ascii "nheader".toList, ascii "reserve".toList]

/-- `tpbcli_gr_mkey_kind_t`, with the index and the field of a header. -/
inductive MetaKeyKind
  | derived
  | attr
  | header (idx : ℤ) (field : HField)
  | invalid

/-- `_sf_gr_meta_key_kind`. -/
def sfGrMetaKeyKind (key : Bytes) : MetaKeyKind :=
  if key ∈ derivedKeys then .derived
  else if key ∈ attrKeys then .attr
  else match sfGrParseHeaderKey key with
    | .ok (idx, field) => .header idx field
    | .error _ => .invalid

/-! ### Texts -/

/-- What the functions outside of this file print: type bits and unit bits, a packed time, and a
duration in seconds. -/
structure CellTexts where
  decodeTypeBits : UInt32 → Bytes
  decodeUattrBits : UInt64 → Bytes
  isoutc : UInt64 → Bytes
  seconds : UInt64 → Bytes

/-- `%0nX` of a number with no more than `n` digits. -/
def hexFixed (n v : ℕ) : Bytes := (List.range n).reverse.map fun i => hexUpper (v / 16 ^ i % 16)

section Texts

variable (E : CellTexts)

/-- Type bits with their decoding. -/
def typeBitsText (v : UInt32) : Bytes :=
  [48, 120] ++ hexFixed 8 v.toNat ++ [32, 40] ++ E.decodeTypeBits v ++ [41]

/-- Unit bits with their decoding. -/
def uattrBitsText (v : UInt64) : Bytes :=
  [48, 120] ++ hexFixed 16 v.toNat ++ [32, 40] ++ E.decodeUattrBits v ++ [41]

/-- Parts that are appended to a buffer as long as there is room for them, the parts but the first
behind a comma. -/
def appendParts (size partSize : ℕ) (parts : List Bytes) : Bytes :=
  parts.zipIdx.foldl (fun out p =>
    let part := ((if p.2 = 0 then [] else [44]) ++ p.1).take (partSize - 1)
    if out.length + part.length + 1 < size then out ++ part else out) []

/-- The text of a field of a header. A text ends at the latest with its array, as all do that are
written; one without a NUL would be read past its end. -/
def headerFieldText (h : MetaHeader) : HField → Bytes
  | .blockSize => formatD h.blockSize.toNat
  | .ndim => formatD h.ndim.toNat
  | .dataSize => formatD h.dataSize.toNat
  | .typeBits => typeBitsText E h.typeBits
  | .typeBitsSource => typeBitsText E (h.typeBits &&& 0xFF000000)
  | .typeBitsCheck => typeBitsText E (h.typeBits &&& 0x00FF0000)
  | .typeBitsType => typeBitsText E (h.typeBits &&& tpbParmTypeMask)
  | .reserve => formatD h.reserve.toNat
  | .uattrBits => uattrBitsText E h.uattrBits
  | .uattrCast => uattrBitsText E (h.uattrBits &&& 0x0001000000000000)
  | .uattrShape => uattrBitsText E (h.uattrBits &&& tpbUattrShapeMask)
  | .uattrTrim => uattrBitsText E (h.uattrBits &&& 0x0010000000000000)
  | .uattrKind => uattrBitsText E (h.uattrBits &&& 0x0000F00000000000)
  | .uattrName => uattrBitsText E (h.uattrBits &&& 0x0000FFF000000000)
  | .uattrBase => uattrBitsText E (h.uattrBits &&& 0x0000000F00000000)
  | .uattrValue => uattrBitsText E (h.uattrBits &&& tpbUnitMask)
  | .name => cstr h.name.toList
  | .tag => cstr h.tag.toList
  | .note => cstr h.note.toList
  | .dimsizes => appendParts 256 32 (h.dimsizes.toList.map fun d => formatD d.toNat)
  | .dimnames => appendParts 512 80 (h.dimnames.toList.map fun d => cstr d.toList)

/-- `_sf_gr_attr_cell`: the text of a field of a record. -/
def sfGrAttrCell (a : TaskAttr) (key : Bytes) : Except Err Bytes :=
  if key = ascii "task_record_id".toList then .ok (hexBytes a.taskRecordId.toList)
  else if key = ascii "derive_to".toList then .ok (hexBytes a.deriveTo.toList)
  else if key = ascii "inherit_from".toList then .ok (hexBytes a.inheritFrom.toList)
  else if key = ascii "tbatch_id".toList then .ok (hexBytes a.tbatchId.toList)
  else if key = ascii "kernel_id".toList then .ok (hexBytes a.kernelId.toList)
  else if key = ascii "datetime".toList then .ok (E.isoutc a.utcBits)
  else if key = ascii "utc_bits".toList then .ok (formatD a.utcBits.toNat)
  else if key = ascii "btime".toList then .ok (formatD a.btime.toNat)
  else if key = ascii "duration".toList then .ok (formatD a.duration.toNat)
  else if key = ascii "duration_seconds".toList then .ok (E.seconds a.duration)
  else if key = ascii "exit_code".toList then .ok (formatD a.exitCode.toNat)
  else if key = ascii "handle_index".toList then .ok (formatD a.handleIndex.toNat)
  else if key = ascii "pid".toList then .ok (formatD a.pid.toNat)
  else if key = ascii "tid".toList then .ok (formatD a.tid.toNat)
  else if key = ascii "ninput".toList then .ok (formatD a.ninput.toNat)
  else if key = ascii "noutput".toList then .ok (formatD a.noutput.toNat)
  else if key = ascii "nheader".toList then .ok (formatD a.nheader.toNat)
  else if key = ascii "reserve".toList then .ok (formatD a.reserve.toNat)
  else .error (.code .none .listNotFound)

/-- `_sf_gr_header_cell`: the text of a field of the header at an index, which is a `long`. Reading
behind the headers is undefined. -/
def sfGrHeaderCell (v : RecordView TaskAttr) (idx : ℤ) (field : HField) : Except Err Bytes :=
  if idx < 0 ∨ v.headers = [] ∨ v.attr.nheader.toNat ≤ (idx % 4294967296).toNat then
    .error (.code .none .listNotFound)
  else match v.headers[idx.toNat]? with
    | none => .error .undefined
    | some h => .ok (headerFieldText E h field)

/-! ### Cells -/

/-- The kernels and the batches of the workspace, where they can be read. -/
structure MetaSource where
  kernels : Option (List KernelEntry)
  tbatch : Id20 → Option TbatchAttr

/-- `_sf_gr_kernel_name`. -/
def sfGrKernelName (src : MetaSource) (kid : Id20) : Bytes :=
  match src.kernels.bind fun entries => entries.find? fun e => e.kernelId = kid with
  | some e => cstr e.kernelName.toList
  | none => tpbcliTaskFormatIdPrefix6 kid

/-- `_sf_gr_batch_host`. -/
def sfGrBatchHost (src : MetaSource) (tbatchId : Id20) : Bytes :=
  match src.tbatch tbatchId with
  | none => ascii "N/A".toList
  | some attr =>
      if cstr attr.hostname.toList = [] then ascii "N/A".toList else cstr attr.hostname.toList

/-- The text of a key for a member of a logical task. -/
def metaText (src : MetaSource) (t : Logical) (key : Bytes) (memberIdx : ℤ) : Except Err Bytes :=
  if key = ascii "ref".toList then .ok (cstr t.ref.toList)
  else if key = ascii "taskid".toList then .ok (tpbcliTaskFormatIdPrefix6 t.rootId)
  else if key = ascii "nmember".toList then
    .ok (formatD (if t.isCapsule then t.members.length else 1))
  else match
      (if memberIdx < 0 then none else t.members[memberIdx.toNat]?).bind MemberRec.record with
    | none => .error (.code .none .listNotFound)
    | some v =>
        if key = ascii "kernel".toList then .ok (sfGrKernelName src v.attr.kernelId)
        else if key = ascii "batch_host".toList then .ok (sfGrBatchHost src v.attr.tbatchId)
        else match sfGrMetaKeyKind key with
          | .attr => sfGrAttrCell E v.attr key
          | .header idx field => sfGrHeaderCell E v idx field
          | _ => .error (.code .none .listNotFound)

/-- `_sf_gr_meta_cell_one`: what it leaves in a buffer of `outlen` bytes, and whether the key was
resolved. A text that is not found is shown as `N/A`. -/
def sfGrMetaCellOne (src : MetaSource) (t : Logical) (key : Bytes) (memberIdx : ℤ) (outlen : ℕ) :
    Except Err (Bytes × Bool) :=
  match metaText E src t key memberIdx with
  | .ok text => .ok (text.take (outlen - 1), true)
  | .error .undefined => .error .undefined
  | .error (.code _ _) => .ok ((ascii "N/A".toList).take (outlen - 1), false)

/-- The variables of the loop over the members: the text in the buffer of the caller, and whether
the members differ. -/
structure Consensus where
  out : Option Bytes
  mixed : Bool

/-- The text `tmp` of one more member. -/
def Consensus.add (outlen : ℕ) (s : Consensus) (tmp : Bytes) : Consensus :=
  match s.out with
  | none => { s with out := some (tmp.take (outlen - 1)) }
  | some out => if out ≠ tmp then { s with mixed := true } else s

/-- The loop over the members, from member `m` on. Nothing is in the buffer as long as no member
resolved the key. -/
def consensusLoop (src : MetaSource) (t : Logical) (key : Bytes) (outlen : ℕ) :
    List MemberRec → ℕ → Consensus → Except Err Consensus
  | [], _, s => .ok s
  | mem :: members, m, s =>
      if mem.record.isNone then consensusLoop src t key outlen members (m + 1) s
      else
        match sfGrMetaCellOne E src t key m 192 with
        | .error e => .error e
        | .ok (_, false) => consensusLoop src t key outlen members (m + 1) s
        | .ok (tmp, true) => consensusLoop src t key outlen members (m + 1) (s.add outlen tmp)

/-- `_sf_gr_meta_cell`: what it leaves in a buffer of `outlen` bytes. -/
def sfGrMetaCell (src : MetaSource) (t : Logical) (key : Bytes) (showEach : Bool) (subrank : ℤ)
    (outlen : ℕ) : Except Err Bytes :=
  if showEach then (sfGrMetaCellOne E src t key subrank outlen).map Prod.fst
  else if t.isCapsule = false ∨ key = ascii "ref".toList ∨ key = ascii "taskid".toList ∨
      key = ascii "nmember".toList then
    (sfGrMetaCellOne E src t key 0 outlen).map Prod.fst
  else if key = ascii "datetime".toList then .ok ((E.isoutc t.rootUtcBits).take (outlen - 1))
  else if key = ascii "utc_bits".toList then .ok ((formatD t.rootUtcBits.toNat).take (outlen - 1))
  else if key = ascii "btime".toList then .ok ((formatD t.rootBtime.toNat).take (outlen - 1))
  else
    match consensusLoop E src t key outlen t.members 0 ⟨none, false⟩ with
    | .error e => .error e
    | .ok s =>
        match s.out with
        | none => .ok ((ascii "N/A".toList).take (outlen - 1))
        | some out => .ok (if s.mixed then (ascii "mixed".toList).take (outlen - 1) else out)

/-! ### Looking up headers -/

/-- The index of a parsed key is the written one, saturated. -/
theorem idx_of_sfGrParseHeaderKey {key : Bytes} {idx : ℤ} {field : HField}
    (h : sfGrParseHeaderKey key = .ok (idx, field)) :
    idx = min 9223372036854775807 (writtenIndex key : ℤ) := by
  rw [sfGrParseHeaderKey] at h
  split at h
  · cases h
  · dsimp only at h
    split at h
    · cases h
    · split at h
      · split at h
        · cases h
        · split at h
          · cases h
          · injection h with h
            exact (congrArg Prod.fst h).symm
      · cases h

/-- The index `w` is behind the headers of the record, and narrowed to 32 bits it is the index of a
header. -/
def NarrowedInto (v : RecordView TaskAttr) (w : ℕ) : Prop :=
  2 ^ 32 ≤ w ∧ w < 2 ^ 63 ∧ w % 2 ^ 32 < v.attr.nheader.toNat

/-- The lookup of a header goes wrong exactly on these indices. -/
theorem sfGrHeaderCell_eq {v : RecordView TaskAttr} (hv : Shaped v) {key : Bytes} {idx : ℤ}
    {field : HField} (hkey : sfGrParseHeaderKey key = .ok (idx, field)) :
    (NarrowedInto v (writtenIndex key) ∧ sfGrHeaderCell E v idx field = .error .undefined) ∨
      (¬ NarrowedInto v (writtenIndex key) ∧ v.attr.nheader.toNat ≤ writtenIndex key ∧
        sfGrHeaderCell E v idx field = .error (.code .none .listNotFound)) ∨
      (¬ NarrowedInto v (writtenIndex key) ∧ writtenIndex key < v.attr.nheader.toNat ∧
        idx = writtenIndex key ∧ ∃ h, v.headers[idx.toNat]? = some h ∧
          sfGrHeaderCell E v idx field = .ok (headerFieldText E h field)) := by
  have hidx := idx_of_sfGrParseHeaderKey hkey
  have hlen := hv.headers
  have hmax := v.attr.nheader.toNat_lt
  unfold NarrowedInto
  generalize writtenIndex key = w at hidx
  have hempty : v.headers = [] ↔ v.attr.nheader.toNat = 0 := by
    rw [← hlen, List.length_eq_zero_iff]
  by_cases hw : w < v.attr.nheader.toNat
  · have hget : idx.toNat < v.headers.length := by omega
    have hhave : ¬ (idx < 0 ∨ v.headers = [] ∨
        v.attr.nheader.toNat ≤ (idx % 4294967296).toNat) := by
      rw [hempty]
      omega
    refine Or.inr (Or.inr ⟨by omega, hw, by omega, v.headers[idx.toNat],
      List.getElem?_eq_getElem hget, ?_⟩)
    rw [sfGrHeaderCell, if_neg hhave, List.getElem?_eq_getElem hget]
  · by_cases hwrap : 2 ^ 32 ≤ w ∧ w < 2 ^ 63 ∧ w % 2 ^ 32 < v.attr.nheader.toNat
    · have hhave : ¬ (idx < 0 ∨ v.headers = [] ∨
          v.attr.nheader.toNat ≤ (idx % 4294967296).toNat) := by
        rw [hempty]
        omega
      have hnone : v.headers[idx.toNat]? = none := by
        rw [List.getElem?_eq_none_iff]
        omega
      refine Or.inl ⟨hwrap, ?_⟩
      rw [sfGrHeaderCell, if_neg hhave, hnone]
    · have hover : idx < 0 ∨ v.headers = [] ∨
          v.attr.nheader.toNat ≤ (idx % 4294967296).toNat := by
        rw [hempty]
        omega
      refine Or.inr (Or.inl ⟨hwrap, by omega, ?_⟩)
      rw [sfGrHeaderCell, if_pos hover]

/-- **Cells of headers**: the lookup of a parsed key reads a header of the record or finds nothing,
and finds nothing exactly where the written index is behind the headers, if and only if the index is
not narrowed to one of a header. -/
theorem sfGrHeaderCell_iff {v : RecordView TaskAttr} (hv : Shaped v) {key : Bytes} {idx : ℤ}
    {field : HField} (hkey : sfGrParseHeaderKey key = .ok (idx, field)) :
    ((sfGrHeaderCell E v idx field = .error (.code .none .listNotFound) ∨
        ∃ h, idx.toNat < v.attr.nheader.toNat ∧ v.headers[idx.toNat]? = some h ∧
          sfGrHeaderCell E v idx field = .ok (headerFieldText E h field)) ∧
      (sfGrHeaderCell E v idx field = .error (.code .none .listNotFound) ↔
        v.attr.nheader.toNat ≤ writtenIndex key)) ↔
      ¬ NarrowedInto v (writtenIndex key) := by
  rcases sfGrHeaderCell_eq E hv hkey with ⟨hwrap, hcell⟩ | ⟨hwrap, hover, hcell⟩ |
    ⟨hwrap, hin, hidx, h, hget, hcell⟩
  · simp only [hcell, hwrap]
    simp
  · simp only [hcell, hwrap, hover]
    simp
  · simp only [hcell, hwrap, hget]
    have : idx.toNat < v.attr.nheader.toNat := by omega
    simp [this, hin]

/-! ### Consensus -/

/-- The consensus of cells: `N/A` where there is none, their common text, or `mixed`. -/
def consensusText : List Bytes → Bytes
  | [] => ascii "N/A".toList
  | c :: cs => if ∀ d ∈ cs, d = c then c else ascii "mixed".toList

/-- The texts of a key for those of the members that can be read and resolve it, from member `m`
on. -/
def memberTexts (src : MetaSource) (t : Logical) (key : Bytes) (members : List MemberRec) (m : ℕ) :
    List Bytes :=
  (members.zipIdx m).filterMap fun p =>
    if p.1.record.isNone then none else (metaText E src t key p.2).toOption

/-- The cells that `--show-each-subrank` shows for these members. -/
def shownCells (src : MetaSource) (t : Logical) (key : Bytes) : List Bytes :=
  t.members.zipIdx.filterMap fun p =>
    if p.1.record.isNone then none
    else match sfGrMetaCellOne E src t key p.2 512 with
      | .ok (_, true) => (sfGrMetaCell E src t key true p.2 512).toOption
      | _ => none

section Loop

variable {E} {src : MetaSource} {t : Logical} {key : Bytes}

/-- What is shown of a text is what fits in 512 bytes. -/
theorem shownCells_eq :
    shownCells E src t key = (memberTexts E src t key t.members 0).map fun c => c.take 511 := by
  rw [shownCells, memberTexts, List.map_filterMap]
  congr 1
  funext p
  by_cases hnone : p.1.record.isNone
  · simp [hnone]
  · simp only [hnone, sfGrMetaCell, sfGrMetaCellOne]
    rcases metaText E src t key p.2 with (⟨_, _⟩ | _) | text <;> rfl

/-- The cells of more members do not change the text that is there. -/
theorem foldl_add_some {outlen : ℕ} (c : Bytes) (cells : List Bytes) (mixed : Bool) :
    cells.foldl (Consensus.add outlen) ⟨some c, mixed⟩ =
      ⟨some c, mixed || cells.any fun d => d ≠ c⟩ := by
  induction cells generalizing mixed with
  | nil => simp
  | cons d ds ih =>
      rw [List.foldl_cons, List.any_cons]
      by_cases hd : d = c
      · subst hd
        simp only [Consensus.add, ne_eq, not_true_eq_false, ↓reduceIte, ih]
        simp
      · have hadd : Consensus.add outlen ⟨some c, mixed⟩ d = ⟨some c, true⟩ := by
          simp [Consensus.add, Ne.symm hd]
        rw [hadd, ih]
        simp [hd]

/-- The loop adds the texts of the members, as far as they fit in 192 bytes. -/
theorem consensusLoop_eq {outlen : ℕ} {members : List MemberRec} {m : ℕ} {s : Consensus}
    (hok : ∀ p ∈ members.zipIdx m, p.1.record.isNone = false →
      metaText E src t key p.2 ≠ .error .undefined) :
    consensusLoop E src t key outlen members m s =
      .ok (((memberTexts E src t key members m).map fun c => c.take 191).foldl
        (Consensus.add outlen) s) := by
  induction members generalizing m s with
  | nil => rfl
  | cons mem members ih =>
      rw [List.zipIdx_cons] at hok
      have ih' := fun s' => @ih (m + 1) s' fun p hp => hok p (List.mem_cons_of_mem _ hp)
      have hhead := hok (mem, m) List.mem_cons_self
      rw [memberTexts, List.zipIdx_cons, List.filterMap_cons] at *
      rw [consensusLoop]
      by_cases hnone : mem.record.isNone
      · simp only [hnone, ↓reduceIte, ih']
      · have hsome : mem.record.isNone = false := Bool.eq_false_iff.mpr hnone
        simp only [hsome, Bool.false_eq_true, ↓reduceIte, sfGrMetaCellOne]
        rcases htext : metaText E src t key m with (⟨mod, cause⟩ | _) | text
        · simp only [ih']
          rfl
        · exact absurd htext (hhead hsome)
        · simp only [ih']
          rfl

/-- The loop fails on a member whose text is undefined. -/
theorem consensusLoop_undefined {outlen : ℕ} {members : List MemberRec} {m : ℕ} {s : Consensus}
    (hbad : ∃ p ∈ members.zipIdx m, p.1.record.isNone = false ∧
      metaText E src t key p.2 = .error .undefined) :
    consensusLoop E src t key outlen members m s = .error .undefined := by
  induction members generalizing m s with
  | nil => simp at hbad
  | cons mem members ih =>
      obtain ⟨p, hp, hsome, hundef⟩ := hbad
      rw [List.zipIdx_cons, List.mem_cons] at hp
      rw [consensusLoop]
      rcases hp with rfl | hp
      · simp only [hsome, Bool.false_eq_true, ↓reduceIte, sfGrMetaCellOne, hundef]
      · have ih' := fun s' => @ih (m + 1) s' ⟨p, hp, hsome, hundef⟩
        by_cases hnone : mem.record.isNone
        · simp only [hnone, ↓reduceIte, ih']
        · simp only [hnone, Bool.false_eq_true, ↓reduceIte, sfGrMetaCellOne]
          rcases metaText E src t key m with (⟨mod, cause⟩ | _) | text <;> simp only [ih']

/-- The cell of a capsule is the consensus of the texts, as far as they fit in 192 bytes. -/
theorem sfGrMetaCell_eq (hcapsule : t.isCapsule = true)
    (hkey : key ∉ [ascii "ref".toList, ascii "taskid".toList, ascii "nmember".toList,
      ascii "datetime".toList, ascii "utc_bits".toList, ascii "btime".toList]) {subrank : ℤ}
    (hok : ∀ p ∈ t.members.zipIdx, p.1.record.isNone = false →
      metaText E src t key p.2 ≠ .error .undefined) :
    sfGrMetaCell E src t key false subrank 512 =
      .ok (consensusText ((memberTexts E src t key t.members 0).map fun c => c.take 191)) := by
  simp only [List.mem_cons, List.not_mem_nil, or_false, not_or] at hkey
  obtain ⟨href, htaskid, hnmember, hdatetime, hutc, hbtime⟩ := hkey
  simp only [sfGrMetaCell, Bool.false_eq_true, hcapsule, href, htaskid, hnmember, hdatetime, hutc,
    hbtime, Bool.true_eq_false, or_self, ↓reduceIte, consensusLoop_eq hok]
  rcases memberTexts E src t key t.members 0 with _ | ⟨c, cs⟩
  · rfl
  · rw [List.map_cons, List.foldl_cons]
    have hadd : Consensus.add 512 ⟨none, false⟩ (c.take 191) = ⟨some (c.take 191), false⟩ := by
      simp [Consensus.add, List.take_take]
    rw [hadd, foldl_add_some]
    simp only [Bool.false_or, List.any_eq_true, decide_eq_true_eq, consensusText]
    by_cases hall : ∀ d ∈ cs.map fun c => c.take 191, d = c.take 191
    · have hnone : ¬ ∃ d ∈ cs.map fun c => c.take 191, d ≠ c.take 191 := by
        rintro ⟨d, hd, hne⟩
        exact hne (hall d hd)
      rw [if_pos hall, if_neg hnone]
    · have hsome : ∃ d ∈ cs.map fun c => c.take 191, d ≠ c.take 191 := by
        obtain ⟨d, hd⟩ := not_forall.mp hall
        exact ⟨d, Classical.not_imp.mp hd⟩
      rw [if_neg hall, if_pos hsome]
      rfl

end Loop

/-- The consensus of texts that are cut at `n` bytes is the one of texts that are cut at more,
if and only if texts that agree in `n` bytes have no more. -/
theorem consensusText_take_iff {n k : ℕ} (hn : 5 < n) (hk : n < k) (texts : List Bytes) :
    consensusText (texts.map fun c => c.take n) = consensusText (texts.map fun c => c.take k) ↔
      ((∀ a ∈ texts, ∀ b ∈ texts, a.take n = b.take n) → ∀ a ∈ texts, a.length ≤ n) := by
  -- a text that is cut to a shorter one was not cut
  have huncut : ∀ {a b : Bytes}, a.take n = b → b.length < n → a = b := by
    intro a b hab hlt
    have hlen := congrArg List.length hab
    rw [List.length_take] at hlen
    rw [← hab, List.take_of_length_le (by omega)]
  rcases texts with _ | ⟨c, cs⟩
  · simp [consensusText]
  · simp only [List.map_cons, consensusText, List.mem_map, forall_exists_index, and_imp,
      forall_apply_eq_imp_iff₂]
    by_cases hagree : ∀ d ∈ cs, d.take n = c.take n
    · have hall : ∀ a ∈ c :: cs, ∀ b ∈ c :: cs, a.take n = b.take n := by
        have hto : ∀ a ∈ c :: cs, a.take n = c.take n := by
          simpa using hagree
        intro a ha b hb
        rw [hto a ha, hto b hb]
      rw [if_pos hagree]
      constructor
      · intro hsame _
        by_cases hequal : ∀ d ∈ cs, d.take k = c.take k
        · rw [if_pos hequal] at hsame
          have hshort : (c.take k).length ≤ n := by
            rw [← hsame]
            exact List.length_take_le _ _
          intro a ha
          have htake : (a.take k).length ≤ n := by
            rcases List.mem_cons.mp ha with rfl | ha
            · exact hshort
            · rw [hequal a ha]
              exact hshort
          rw [List.length_take] at htake
          omega
        · rw [if_neg hequal] at hsame
          have hc := huncut hsame hn
          refine absurd (fun d hd => ?_) hequal
          rw [huncut ((hagree d hd).trans hsame) hn, hc]
      · intro hshort
        have hfits := hshort hall
        have htake : ∀ a ∈ c :: cs, a.take k = a.take n := by
          intro a ha
          have := hfits a ha
          rw [List.take_of_length_le (by omega), List.take_of_length_le this]
        have hequal : ∀ d ∈ cs, d.take k = c.take k := by
          intro d hd
          rw [htake d (List.mem_cons_of_mem _ hd), htake c List.mem_cons_self]
          exact hagree d hd
        rw [if_pos hequal, htake c List.mem_cons_self]
    · have hdiffer : ¬ ∀ d ∈ cs, d.take k = c.take k := by
        intro hequal
        refine hagree fun d hd => ?_
        have := congrArg (List.take n) (hequal d hd)
        rwa [List.take_take, List.take_take, min_eq_left hk.le] at this
      rw [if_neg hagree, if_neg hdiffer]
      refine iff_of_true rfl fun hall => absurd (fun d hd => ?_) hagree
      exact hall d (List.mem_cons_of_mem _ hd) c List.mem_cons_self

/-- One more text to choose is not undefined. -/
theorem ite_ok_ne_undefined {c : Prop} [Decidable c] {text : Bytes} {r : Except Err Bytes}
    (h : r ≠ .error .undefined) : (if c then .ok text else r) ≠ .error .undefined := by
  split
  · nofun
  · exact h

/-- The fields of a record have texts. -/
theorem sfGrAttrCell_ne_undefined (a : TaskAttr) (key : Bytes) :
    sfGrAttrCell E a key ≠ .error .undefined := by
  unfold sfGrAttrCell
  iterate 18 apply ite_ok_ne_undefined
  nofun

/-- A key of a header is parsed. -/
theorem sfGrMetaKeyKind_eq_header {key : Bytes} {idx : ℤ} {field : HField}
    (h : sfGrMetaKeyKind key = .header idx field) :
    sfGrParseHeaderKey key = .ok (idx, field) ∧ key ∉ derivedKeys := by
  rw [sfGrMetaKeyKind] at h
  split at h
  · cases h
  · rename_i hderived
    split at h
    · cases h
    · split at h
      · cases h
        exact ⟨by assumption, hderived⟩
      · cases h

/-- The only texts that are undefined are those of headers that are looked up wrongly. -/
theorem metaText_undefined_iff {src : MetaSource} {t : Logical} {key : Bytes} {i : ℕ}
    {mem : MemberRec} {v : RecordView TaskAttr} (hmem : t.members[i]? = some mem)
    (hrecord : mem.record = some v) (hv : Shaped v) :
    metaText E src t key i = .error .undefined ↔
      ∃ idx field, sfGrMetaKeyKind key = .header idx field ∧ NarrowedInto v (writtenIndex key) := by
  have hfound : (if (i : ℤ) < 0 then none else t.members[(i : ℤ).toNat]?).bind MemberRec.record =
      some v := by
    rw [if_neg (by omega), Int.toNat_natCast, hmem, Option.bind_some, hrecord]
  -- the derived keys are no keys of headers
  have hderived : ∀ {text : Bytes}, key ∈ derivedKeys → ((Except.ok text : Except Err Bytes) =
      .error .undefined ↔ ∃ idx field, sfGrMetaKeyKind key = .header idx field ∧
        NarrowedInto v (writtenIndex key)) := by
    intro text hin
    refine iff_of_false nofun ?_
    rintro ⟨idx, field, hkind, -⟩
    exact (sfGrMetaKeyKind_eq_header hkind).2 hin
  rw [metaText, hfound]
  split
  · exact hderived (by simp_all [derivedKeys])
  · split
    · exact hderived (by simp_all [derivedKeys])
    · split
      · exact hderived (by simp_all [derivedKeys])
      · dsimp only
        split
        · exact hderived (by simp_all [derivedKeys])
        · split
          · exact hderived (by simp_all [derivedKeys])
          · rcases hkind : sfGrMetaKeyKind key with _ | _ | ⟨idx, field⟩ | _
            · simp
            · simp [sfGrAttrCell_ne_undefined]
            · have hparse := (sfGrMetaKeyKind_eq_header hkind).1
              rcases sfGrHeaderCell_eq E hv hparse with ⟨hwrap, hcell⟩ | ⟨hwrap, -, hcell⟩ |
                ⟨hwrap, -, -, h, -, hcell⟩
              · simp only [hcell, hwrap]
                simp
              · simp only [hcell, hwrap]
                simp
              · simp only [hcell, hwrap]
                simp
            · simp

/-- **The cell of a capsule**: without `--show-each-subrank`, it is the consensus of the cells
that the members have with it, if and only if no header of a member is looked up wrongly, and no
text that agrees with all others in 191 bytes is longer. The records of a task are in shape
(`shaped_of_sfLogicalFromRoot`). -/
theorem metaConsensus_iff {src : MetaSource} {t : Logical} {key : Bytes}
    (hcapsule : t.isCapsule = true)
    (hkey : key ∉ [ascii "ref".toList, ascii "taskid".toList, ascii "nmember".toList,
      ascii "datetime".toList, ascii "utc_bits".toList, ascii "btime".toList])
    (hshaped : ∀ mem ∈ t.members, ∀ v, mem.record = some v → Shaped v) (subrank : ℤ) :
    sfGrMetaCell E src t key false subrank 512 = .ok (consensusText (shownCells E src t key)) ↔
      (∀ mem ∈ t.members, ∀ v, mem.record = some v → ∀ idx field,
        sfGrMetaKeyKind key = .header idx field → ¬ NarrowedInto v (writtenIndex key)) ∧
      ((∀ a ∈ memberTexts E src t key t.members 0, ∀ b ∈ memberTexts E src t key t.members 0,
          a.take 191 = b.take 191) →
        ∀ a ∈ memberTexts E src t key t.members 0, a.length ≤ 191) := by
  -- the members behind their indices
  have hindex : ∀ p ∈ t.members.zipIdx, t.members[p.2]? = some p.1 := by
    rintro ⟨mem, i⟩ hp
    exact List.mem_zipIdx_iff_getElem?.mp hp
  by_cases hok : ∀ p ∈ t.members.zipIdx, p.1.record.isNone = false →
      metaText E src t key p.2 ≠ .error .undefined
  · rw [sfGrMetaCell_eq hcapsule hkey hok, shownCells_eq, Except.ok.injEq,
      consensusText_take_iff (by omega) (by omega)]
    refine (and_iff_right ?_).symm
    intro mem hmem v hrecord idx field hkind hwrap
    obtain ⟨i, hi⟩ := List.mem_iff_getElem?.mp hmem
    refine hok (mem, i) (List.mem_zipIdx_iff_getElem?.mpr hi) (by simp [hrecord]) ?_
    exact (metaText_undefined_iff E hi hrecord (hshaped mem hmem v hrecord)).mpr
      ⟨idx, field, hkind, hwrap⟩
  · obtain ⟨p, hp⟩ := not_forall.mp hok
    obtain ⟨hmem, hp⟩ := Classical.not_imp.mp hp
    obtain ⟨hsome, hundef⟩ := Classical.not_imp.mp hp
    have hundef := not_not.mp hundef
    have hcell : sfGrMetaCell E src t key false subrank 512 = .error .undefined := by
      have hkeys := hkey
      simp only [List.mem_cons, List.not_mem_nil, or_false, not_or] at hkeys
      obtain ⟨href, htaskid, hnmember, hdatetime, hutc, hbtime⟩ := hkeys
      simp only [sfGrMetaCell, Bool.false_eq_true, hcapsule, href, htaskid, hnmember, hdatetime,
        hutc, hbtime, Bool.true_eq_false, or_self, ↓reduceIte,
        consensusLoop_undefined ⟨p, hmem, hsome, hundef⟩]
    rw [hcell]
    refine iff_of_false (by rintro ⟨⟩) fun hgood => ?_
    rcases hrecord : p.1.record with _ | v
    · rw [hrecord] at hsome
      cases hsome
    · have hin : p.1 ∈ t.members := List.mem_of_getElem? (hindex p hmem)
      obtain ⟨idx, field, hkind, hwrap⟩ :=
        (metaText_undefined_iff E (hindex p hmem) hrecord (hshaped _ hin v hrecord)).mp hundef
      exact hgood.1 p.1 hin v hrecord idx field hkind hwrap

end Texts

/-- No texts for what the functions outside of this file print. -/
def emptyTexts : CellTexts := ⟨fun _ => [], fun _ => [], fun _ => [], fun _ => []⟩

/-- A record with the only header `h`. -/
def recordWith (h : MetaHeader) : RecordView TaskAttr :=
  ⟨{ TaskAttr.zero with nheader := 1 }, [h], 0, []⟩

theorem shaped_recordWith (h : MetaHeader) : Shaped (recordWith h) := ⟨rfl, rfl⟩

/-- Four digits are the index of no header, and it is not looked up. -/
theorem small_index_not_found :
    (sfGrHeaderCell emptyTexts (recordWith MetaHeader.zero) 4096 .name =
        .error (.code .none .listNotFound) ∨
      ∃ h, (4096 : ℤ).toNat < (recordWith MetaHeader.zero).attr.nheader.toNat ∧
        (recordWith MetaHeader.zero).headers[(4096 : ℤ).toNat]? = some h ∧
        sfGrHeaderCell emptyTexts (recordWith MetaHeader.zero) 4096 .name =
          .ok (headerFieldText emptyTexts h .name)) ∧
    (sfGrHeaderCell emptyTexts (recordWith MetaHeader.zero) 4096 .name =
        .error (.code .none .listNotFound) ↔
      (recordWith MetaHeader.zero).attr.nheader.toNat ≤
        writtenIndex (ascii "header[4096].name".toList)) := by
  have hkey : sfGrParseHeaderKey (ascii "header[4096].name".toList) = .ok (4096, .name) := rfl
  refine (sfGrHeaderCell_iff emptyTexts (shaped_recordWith MetaHeader.zero) hkey).mpr ?_
  rintro ⟨hwide, -, -⟩
  have hwritten : writtenIndex (ascii "header[4096].name".toList) = 4096 := rfl
  omega

/-- The index 2³² is behind the only header of a record, and the header with this index is read. -/
theorem wide_index_read :
    ∃ idx field, sfGrParseHeaderKey (ascii "header[4294967296].name".toList) = .ok (idx, field) ∧
      Shaped (recordWith MetaHeader.zero) ∧
      ¬((sfGrHeaderCell emptyTexts (recordWith MetaHeader.zero) idx field =
            .error (.code .none .listNotFound) ∨
          ∃ h, idx.toNat < (recordWith MetaHeader.zero).attr.nheader.toNat ∧
            (recordWith MetaHeader.zero).headers[idx.toNat]? = some h ∧
            sfGrHeaderCell emptyTexts (recordWith MetaHeader.zero) idx field =
              .ok (headerFieldText emptyTexts h field)) ∧
        (sfGrHeaderCell emptyTexts (recordWith MetaHeader.zero) idx field =
            .error (.code .none .listNotFound) ↔
          (recordWith MetaHeader.zero).attr.nheader.toNat ≤
            writtenIndex (ascii "header[4294967296].name".toList))) := by
  refine ⟨4294967296, .name, rfl, shaped_recordWith _, ?_⟩
  have hcell : sfGrHeaderCell emptyTexts (recordWith MetaHeader.zero) 4294967296 .name =
      .error .undefined := rfl
  rw [hcell]
  rintro ⟨h | ⟨h, -, -, h'⟩, -⟩
  · cases h
  · cases h'

/-- `"header[0].note"`. -/
def noteKey : Bytes := ascii "header[0].note".toList

/-- A header with this note. -/
def notedHeader (note : Bytes) : MetaHeader := { MetaHeader.zero with note := snprintfS 2048 note }

/-- A capsule of two members whose headers have these notes. -/
def notedTask (a b : Bytes) : Logical :=
  ⟨zeroArr 20, snprintfS 16 [114], true,
    [⟨zeroArr 20, 0, some (recordWith (notedHeader a))⟩,
      ⟨zeroArr 20, 1, some (recordWith (notedHeader b))⟩], 0, 0, 0⟩

theorem noteKey_not_mem : noteKey ∉ [ascii "ref".toList, ascii "taskid".toList,
    ascii "nmember".toList, ascii "datetime".toList, ascii "utc_bits".toList,
    ascii "btime".toList] := by
  simp [noteKey, ascii]

theorem shaped_notedTask (a b : Bytes) :
    ∀ mem ∈ (notedTask a b).members, ∀ v, mem.record = some v → Shaped v := by
  intro mem hmem v hrecord
  simp only [notedTask, List.mem_cons, List.not_mem_nil, or_false] at hmem
  rcases hmem with rfl | rfl <;>
  · injection hrecord with hrecord
    rw [← hrecord]
    exact shaped_recordWith _

/-- The texts of the members are their notes. -/
theorem memberTexts_notedTask {src : MetaSource} {a b : Bytes} (ha : 0 ∉ a) (hb : 0 ∉ b)
    (hfita : a.length < 2048) (hfitb : b.length < 2048) :
    memberTexts emptyTexts src (notedTask a b) noteKey (notedTask a b).members 0 = [a, b] := by
  have hnote : ∀ {text : Bytes}, 0 ∉ text → text.length < 2048 →
      headerFieldText emptyTexts (notedHeader text) .note = text := fun h hfit =>
    cstr_snprintfS h hfit
  have htext : memberTexts emptyTexts src (notedTask a b) noteKey (notedTask a b).members 0 =
      [headerFieldText emptyTexts (notedHeader a) .note,
        headerFieldText emptyTexts (notedHeader b) .note] := rfl
  rw [htext, hnote ha hfita, hnote hb hfitb]

/-- Members with the same short note have it as their consensus. -/
theorem short_note_shown :
    sfGrMetaCell emptyTexts ⟨none, fun _ => none⟩ (notedTask [111, 107] [111, 107]) noteKey false 0
        512 =
      .ok (consensusText (shownCells emptyTexts ⟨none, fun _ => none⟩
        (notedTask [111, 107] [111, 107]) noteKey)) := by
  refine (metaConsensus_iff emptyTexts rfl noteKey_not_mem (shaped_notedTask _ _) 0).mpr ⟨?_, ?_⟩
  · rintro mem - v - idx field - ⟨hwide, -, -⟩
    have hwritten : writtenIndex noteKey = 0 := rfl
    omega
  · rw [memberTexts_notedTask (by simp) (by simp) (by simp) (by simp)]
    simp

/-- Notes that differ in the byte behind 191 common ones are not shown as mixed. -/
theorem notes_not_mixed {src : MetaSource} {note : Bytes} (hzero : 0 ∉ note)
    (hlong : 191 ≤ note.length) (hfit : note.length < 2047) :
    sfGrMetaCell emptyTexts src (notedTask (note ++ [97]) (note ++ [98])) noteKey false 0 512 ≠
      .ok (consensusText (shownCells emptyTexts src (notedTask (note ++ [97]) (note ++ [98]))
        noteKey)) := by
  intro hshown
  have htexts := @memberTexts_notedTask src (note ++ [97]) (note ++ [98]) (by simp [hzero])
    (by simp [hzero]) (by simp; omega) (by simp; omega)
  have hdefined : ∀ p ∈ (notedTask (note ++ [97]) (note ++ [98])).members.zipIdx,
      p.1.record.isNone = false →
      metaText emptyTexts src (notedTask (note ++ [97]) (note ++ [98])) noteKey p.2 ≠
        .error .undefined := by
    intro p hp _
    simp only [notedTask, List.zipIdx_cons, List.zipIdx_nil, List.mem_cons, List.not_mem_nil,
      or_false] at hp
    rcases hp with rfl | rfl <;> rintro ⟨⟩
  rw [sfGrMetaCell_eq rfl noteKey_not_mem hdefined, shownCells_eq, htexts, Except.ok.injEq,
    consensusText_take_iff (by omega) (by omega)] at hshown
  have htake : ∀ b : UInt8, (note ++ [b]).take 191 = note.take 191 := fun b =>
    List.take_append_of_le_length hlong
  have hshort := hshown (by simp [htake]) (note ++ [97]) List.mem_cons_self
  rw [List.length_append, List.length_singleton] at hshort
  omega

/-- Two notes of 192 bytes that differ in the last one are not shown as mixed. -/
theorem long_notes_not_mixed :
    ∃ src a b, (notedTask a b).isCapsule = true ∧
      (∀ mem ∈ (notedTask a b).members, mem.record.isSome) ∧
      sfGrMetaKeyKind noteKey = .header 0 .note ∧
      noteKey ∉ [ascii "ref".toList, ascii "taskid".toList, ascii "nmember".toList,
        ascii "datetime".toList, ascii "utc_bits".toList, ascii "btime".toList] ∧
      sfGrMetaCell emptyTexts src (notedTask a b) noteKey false 0 512 ≠
        .ok (consensusText (shownCells emptyTexts src (notedTask a b) noteKey)) := by
  refine ⟨⟨none, fun _ => none⟩, List.replicate 191 97 ++ [97], List.replicate 191 97 ++ [98], rfl,
    ?_, rfl, noteKey_not_mem, notes_not_mixed ?_ ?_ ?_⟩
  · intro mem hmem
    simp only [notedTask, List.mem_cons, List.not_mem_nil, or_false] at hmem
    rcases hmem with rfl | rfl <;> rfl
  · intro hzero
    cases List.eq_of_mem_replicate hzero
  · rw [List.length_replicate]
  · rw [List.length_replicate]
    omega

end TPBench
