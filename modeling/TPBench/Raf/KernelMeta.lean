import TPBench.CFile.Lines
import TPBench.Raf.Domains

/-!
# Metadata of a Kernel

A kernel record has headers whose payload is a text with a line `key=value` for each key.
`tpb_raf_kernel_meta_kv_set` replaces or appends the line of a key, and
`tpb_raf_kernel_update_meta_key` does so to the text of one header of a stored record: it
reads the record, takes the new size of the text into the header, puts the payload together
from the blocks of the headers, and writes the record.

The payload is cut into blocks by the sizes in the headers (`blocksOf`). The function finds
the block of a header in the *old* payload by adding up the *new* sizes in front of it. For
the headers in front of the changed one these are the old sizes, too. For those behind it
the sum is off by the difference of the two sizes: a text that grows makes the function read
behind the payload, and one that shrinks makes it shift the later blocks.
`update_meta_key_iff` says when the record is updated as it should be.
-/

open CFile

namespace TPBench

/-! ### Texts of keys and values -/

/-- The lines of a text, each with its newline. The last one may have none. -/
def textLines : Bytes → List Bytes
  | [] => []
  | b :: bs =>
      if b = newline then [b] :: textLines bs
      else match textLines bs with
        | [] => [[b]]
        | l :: ls => (b :: l) :: ls

/-- The loop of `tpb_raf_kernel_meta_kv_set` over the lines: what was written to `out`, and
whether the line of the key was among it. The key is compared with the whole rest. -/
def kvSetLoop (search value : Bytes) : List Bytes → Bytes → Bool → Bytes × Bool
  | [], out, replaced => (out, replaced)
  | l :: ls, out, replaced =>
      if search.isPrefixOf (l :: ls).flatten then
        if replaced then kvSetLoop search value ls out true
        else kvSetLoop search value ls (out ++ search ++ value ++ [newline]) true
      else if l.getLast? = some newline then kvSetLoop search value ls (out ++ l) replaced
      else kvSetLoop search value ls (out ++ l ++ [newline]) replaced

/-- The text `search` of `tpb_raf_kernel_meta_kv_set`, a buffer of 256 bytes. -/
def kvSearch (key : Bytes) : Bytes := (key ++ [61]).take 255

/-- The text that `tpb_raf_kernel_meta_kv_set` makes. -/
def kvSetText (old key value : Bytes) : Bytes :=
  match kvSetLoop (kvSearch key) value (textLines old) [] false with
  | (out, true) => out
  | (out, false) => out ++ kvSearch key ++ value ++ [newline]

/-- `tpb_raf_kernel_meta_kv_set`. No object has half the address space. -/
def tpbRafKernelMetaKvSet (old key value : Bytes) : WsM Bytes :=
  if 2 ^ 63 ≤ old.length + key.length + value.length + 32 then tpbFail .rafL3Kernel .mallocFail
  else return kvSetText old key value

/-! ### The update -/

/-- `_sf_split_meta_key` with buffers of 64 and 256 bytes. -/
def sfSplitMetaKey (fullKey : Bytes) : WsM (Bytes × Bytes) :=
  if 46 ∉ fullKey ∨ fullKey.head? = some 46 then tpbFail .rafL3Kernel .kernArgFail
  else if 64 ≤ (fullKey.takeWhile (· ≠ 46)).length then tpbFail .rafL3Kernel .kernArgFail
  else return (fullKey.takeWhile (· ≠ 46), ((fullKey.dropWhile (· ≠ 46)).drop 1).take 255)

/-- `tpb_raf_kernel_find_header`. It returns the index as an `int`, which is the same for fewer than
2³¹ headers. -/
def tpbRafKernelFindHeader (headers : List MetaHeader) (name : Bytes) : Option ℕ :=
  headers.findIdx? (cstr ·.name.toList = name)

/-- The offset of a block: the sizes in front of it. -/
def blockOffset (headers : List MetaHeader) : ℕ := (headers.map MetaHeader.dataSize).sum.toNat

/-- The text of the header `h` behind the headers `before`. -/
def sectionText (v : RecordView KernelAttr) (before : List MetaHeader) (h : MetaHeader) :
    WsM Bytes :=
  if v.datasize = 0 ∨ (before.map MetaHeader.dataSize).sum + h.dataSize > v.datasize then
    tpbFail .rafL3Kernel .fileIoFail
  else match strAt v.data (blockOffset before) with
    | none => undefinedCall
    | some text => return text

/-- One round of the loop that puts the new payload together: the block of the header `h`
behind the headers `before`, where header `idx` has the text `text`. A `memcpy` from behind
the old payload is no block. -/
def copyBlock (data text : Bytes) (idx : ℕ) (before : List MetaHeader) (h : MetaHeader) :
    Option Bytes :=
  if before.length = idx then some (text ++ [0])
  else if h.dataSize = 0 then some []
  else if blockOffset before + h.dataSize.toNat ≤ data.length then
    some (pread data (blockOffset before) h.dataSize.toNat)
  else none

/-- The loop that puts the new payload together, with the headers `before` done. -/
def copyBlocks (data text : Bytes) (idx : ℕ) : List MetaHeader → List MetaHeader →
    Option Bytes
  | _, [] => some []
  | before, h :: hs => do
      let block ← copyBlock data text idx before h
      let rest ← copyBlocks data text idx (before ++ [h]) hs
      return block ++ rest

/-- The header with the size of a text. -/
def MetaHeader.withText (h : MetaHeader) (text : Bytes) : MetaHeader :=
  MetaHeader.setDim0 { h with dataSize := UInt64.ofNat (text.length + 1) }
    (UInt64.ofNat (text.length + 1))

/-- The end of `tpb_raf_kernel_update_meta_key`: the record `v` is written with the text
`text` for header `idx`. -/
def writeSection (v : RecordView KernelAttr) (idx : ℕ) (text : Bytes) : WsM Unit :=
  let headers := v.headers.modify idx (·.withText text)
  if 2 ^ 63 ≤ claimed headers then tpbFail .rafL3Kernel .mallocFail
  else match copyBlocks v.data text idx [] headers with
    | none => undefinedCall
    | some data => propagate .rafL3Kernel
        (tpbRafRecordWriteKernel v.attr headers (some data) (UInt64.ofNat (claimed headers)))

/-- `tpb_raf_kernel_update_meta_key`. -/
def tpbRafKernelUpdateMetaKey (kernelId : Id20) (fullKey value : Bytes) : WsM Unit := do
  let names ← propagate .rafL3Kernel (sfSplitMetaKey fullKey)
  let v ← propagate .rafL3Kernel (tpbRafRecordReadKernel kernelId true)
  match tpbRafKernelFindHeader v.headers names.1 with
  | none => tpbFail .rafL3Kernel .listNotFound
  | some idx =>
      match v.headers[idx]? with
      | none => undefinedCall
      | some h => do
          let old ← sectionText v (v.headers.take idx) h
          let text ← propagate .rafL3Kernel (tpbRafKernelMetaKvSet old names.2 value)
          writeSection v idx text

/-! ### Blocks -/

/-- A payload cut into the blocks of the headers. -/
def blocksOf : List MetaHeader → Bytes → List Bytes
  | [], _ => []
  | h :: hs, data => data.take h.dataSize.toNat :: blocksOf hs (data.drop h.dataSize.toNat)

@[simp] theorem length_blocksOf (hs : List MetaHeader) (data : Bytes) :
    (blocksOf hs data).length = hs.length := by
  induction hs generalizing data with
  | nil => rfl
  | cons h hs ih => simp [blocksOf, ih]

/-- The blocks make up as much of the payload as the headers claim. -/
theorem flatten_blocksOf (hs : List MetaHeader) (data : Bytes) :
    (blocksOf hs data).flatten = data.take (claimed hs) := by
  induction hs generalizing data with
  | nil => simp [blocksOf, claimed]
  | cons h hs ih => rw [blocksOf, List.flatten_cons, ih, claimed_cons, List.take_add]

/-- The blocks of the first headers and those of the others. -/
theorem blocksOf_append (hs hs' : List MetaHeader) (data : Bytes) :
    blocksOf (hs ++ hs') data = blocksOf hs data ++ blocksOf hs' (data.drop (claimed hs)) := by
  induction hs generalizing data with
  | nil => simp [blocksOf, claimed]
  | cons h hs ih =>
      rw [List.cons_append, blocksOf, ih, blocksOf, claimed_cons, List.drop_drop]
      rfl

/-- The blocks depend on the part of the payload that the headers claim. -/
theorem blocksOf_eq_iff (hs : List MetaHeader) (data data' : Bytes) :
    blocksOf hs data = blocksOf hs data' ↔
      data.take (claimed hs) = data'.take (claimed hs) := by
  constructor
  · intro h
    rw [← flatten_blocksOf, h, flatten_blocksOf]
  · induction hs generalizing data data' with
    | nil => exact fun _ => rfl
    | cons h hs ih =>
        intro heq
        rw [claimed_cons] at heq
        have hhead := congrArg (List.take h.dataSize.toNat) heq
        have htail := congrArg (List.drop h.dataSize.toNat) heq
        rw [List.take_take, List.take_take, min_eq_left (by omega)] at hhead
        rw [List.take_add, List.take_add, hhead, List.append_cancel_left_eq] at heq
        rw [blocksOf, blocksOf, hhead, ih _ _ heq]

/-! ### What was read -/

/-- A header that was read into a zeroed one has at most as many dimensions as there are
slots, and nothing in the slots it does not use. -/
theorem norm_of_readHeader {h : MetaHeader} {s s' : Stream} (hread : readHeader s = .ok h s') :
    h.ndim.toNat ≤ ndimMax ∧ h.norm = { h with blockSize := hdrFixedSize } := by
  unfold readHeader at hread
  obtain ⟨blockSize, _, -, hread⟩ := bind_eq_ok.mp hread
  obtain ⟨ndim, _, -, hread⟩ := bind_eq_ok.mp hread
  obtain ⟨dataSize, _, -, hread⟩ := bind_eq_ok.mp hread
  obtain ⟨typeBits, _, -, hread⟩ := bind_eq_ok.mp hread
  obtain ⟨reserve, _, -, hread⟩ := bind_eq_ok.mp hread
  obtain ⟨uattrBits, _, -, hread⟩ := bind_eq_ok.mp hread
  obtain ⟨name, _, -, hread⟩ := bind_eq_ok.mp hread
  obtain ⟨tag, _, -, hread⟩ := bind_eq_ok.mp hread
  obtain ⟨note, _, -, hread⟩ := bind_eq_ok.mp hread
  obtain ⟨sizes, _, hsizes, hread⟩ := bind_eq_ok.mp hread
  obtain ⟨names, _, hnames, hread⟩ := bind_eq_ok.mp hread
  cases hread
  obtain ⟨hle, hsizes⟩ := length_of_readInto hsizes
  obtain ⟨-, hnames⟩ := length_of_readInto hnames
  refine ⟨hle, ?_⟩
  have hfill : ∀ {α : Type} (d : α) (xs : List α), xs.length = ndim.toNat →
      fillVec d ndimMax ((fillVec d ndimMax xs).toList.take ndim.toNat) =
        fillVec d ndimMax xs := by
    intro α d xs hxs
    have htake : xs.take ndimMax = xs := List.take_of_length_le (by omega)
    rw [toList_fillVec, htake, ← hxs, List.take_left]
  simp only [MetaHeader.norm, hfill _ _ hsizes, hfill _ _ hnames]

/-- The headers of a record that was read. -/
theorem norm_of_recordRead {id : Id20} {v : RecordView KernelAttr} {ws ws' : Workspace}
    (hread : tpbRafRecordReadKernel id true ws = .ok v ws') :
    ws' = ws ∧ v.headers.length = v.attr.nheader.toNat ∧
      v.data.length = v.datasize.toNat ∧ ∀ h ∈ v.headers,
        h.ndim.toNat ≤ ndimMax ∧ h.norm = { h with blockSize := hdrFixedSize } := by
  obtain ⟨hws, f, s, -, hrun⟩ := fopenRead_eq_ok hread
  obtain ⟨hlen, hdata⟩ := shape_of_readRecord kernelFormat hrun
  refine ⟨hws, hlen, hdata, ?_⟩
  unfold readRecord at hrun
  obtain ⟨_, _, -, hrun⟩ := bind_eq_ok.mp hrun
  obtain ⟨_, _, -, hrun⟩ := bind_eq_ok.mp hrun
  obtain ⟨_, _, -, hrun⟩ := bind_eq_ok.mp hrun
  obtain ⟨_, _, -, hrun⟩ := bind_eq_ok.mp hrun
  obtain ⟨_, _, -, hrun⟩ := bind_eq_ok.mp hrun
  obtain ⟨headers, _, hheaders, hrun⟩ := bind_eq_ok.mp hrun
  obtain ⟨_, _, -, hrun⟩ := bind_eq_ok.mp hrun
  obtain ⟨_, _, -, hrun⟩ := bind_eq_ok.mp hrun
  obtain ⟨_, _, -, hrun⟩ := bind_eq_ok.mp hrun
  obtain ⟨_, _, -, hrun⟩ := bind_eq_ok.mp hrun
  obtain ⟨_, _, -, hrun⟩ := bind_eq_ok.mp hrun
  cases hrun
  exact forall_of_readN (fun _ _ _ => norm_of_readHeader) hheaders

/-! ### Putting the payload together -/

section Copy

variable {data text : Bytes} {idx : ℕ} {before hs : List MetaHeader}

/-- The offset of a block, unless it overflows. -/
theorem blockOffset_eq (h : claimed before < 2 ^ 64) : blockOffset before = claimed before :=
  toNat_sum_dataSize h

/-- The headers in front of the changed one, and those behind it, have their blocks copied
from one place of the payload, if they lie inside of it. -/
theorem copyBlocks_run (hidx : idx < before.length ∨ before.length + hs.length ≤ idx)
    (hsmall : claimed before + claimed hs < 2 ^ 64) :
    copyBlocks data text idx before hs =
      if claimed hs = 0 ∨ claimed before + claimed hs ≤ data.length then
        some ((data.drop (claimed before)).take (claimed hs))
      else none := by
  induction hs generalizing before with
  | nil => simp [copyBlocks, claimed]
  | cons h hs ih =>
      rw [claimed_cons] at hsmall
      rw [List.length_cons] at hidx
      have hbefore : claimed (before ++ [h]) = claimed before + h.dataSize.toNat := by
        rw [claimed_append, claimed_cons]
        rfl
      have hrest := @ih (before ++ [h])
        (by rw [List.length_append, List.length_singleton]; omega) (by rw [hbefore]; omega)
      rw [hbefore] at hrest
      rw [copyBlocks, hrest, copyBlock, if_neg (by omega), blockOffset_eq (by omega),
        claimed_cons]
      by_cases hzero : h.dataSize = 0
      · rw [if_pos hzero, hzero, UInt64.toNat_zero, Nat.add_zero, Nat.zero_add]
        split_ifs
        · rfl
        · rfl
      · have hpos : h.dataSize.toNat ≠ 0 := fun h0 => hzero (UInt64.toNat_inj.mp h0)
        rw [if_neg hzero]
        by_cases hfits : claimed before + h.dataSize.toNat ≤ data.length
        · rw [if_pos hfits, List.take_add, List.drop_drop]
          by_cases hall : claimed hs = 0 ∨
              claimed before + h.dataSize.toNat + claimed hs ≤ data.length
          · rw [if_pos hall, if_pos (by omega)]
            rfl
          · rw [if_neg hall, if_neg (by omega)]
            rfl
        · have hout : ¬(h.dataSize.toNat + claimed hs = 0 ∨
              claimed before + (h.dataSize.toNat + claimed hs) ≤ data.length) := by omega
          rw [if_neg hfits, if_neg hout]
          rfl

theorem copyBlocks_append (before hs hs' : List MetaHeader) :
    copyBlocks data text idx before (hs ++ hs') = (copyBlocks data text idx before hs).bind
      fun a => (copyBlocks data text idx (before ++ hs) hs').map (a ++ ·) := by
  induction hs generalizing before with
  | nil =>
      rw [List.nil_append, List.append_nil, copyBlocks, Option.bind_some]
      simp
  | cons h hs ih =>
      rw [List.cons_append, copyBlocks, copyBlocks, ih, List.append_cons before h hs]
      rcases copyBlock data text idx before h with _ | block
      · rfl
      · rcases copyBlocks data text idx (before ++ [h]) hs with _ | front
        · rfl
        · rcases copyBlocks data text idx (before ++ [h] ++ hs) hs' with _ | rest
          · rfl
          · exact congrArg some (List.append_assoc block front rest).symm

/-- **The payload that is put together**: the blocks in front of the changed one, the text,
and as much of the old payload as the later headers claim, from where the new sizes say. -/
theorem copyBlocks_section {A B : List MetaHeader} {h : MetaHeader}
    (hdata : claimed A ≤ data.length)
    (hsize : h.dataSize.toNat = text.length + 1)
    (hsmall : claimed (A ++ h :: B) < 2 ^ 64) :
    copyBlocks data text A.length [] (A ++ h :: B) =
      if claimed B = 0 ∨ claimed A + (text.length + 1) + claimed B ≤ data.length then
        some (data.take (claimed A) ++ (text ++ [0]) ++
          (data.drop (claimed A + (text.length + 1))).take (claimed B))
      else none := by
  rw [claimed_append, claimed_cons] at hsmall
  have hfront : copyBlocks data text A.length [] A = some (data.take (claimed A)) := by
    rw [copyBlocks_run (.inr (by simp)) (by simp [claimed] at hsmall ⊢; omega)]
    simp [claimed] at hdata ⊢
    omega
  have hbefore : claimed (A ++ [h]) = claimed A + (text.length + 1) := by
    rw [claimed_append, claimed_cons, hsize]
    rfl
  have hback := @copyBlocks_run data text A.length (A ++ [h]) B
    (.inl (by simp)) (by rw [hbefore]; omega)
  rw [hbefore] at hback
  have hown : copyBlock data text A.length A h = some (text ++ [0]) := if_pos rfl
  rw [copyBlocks_append, hfront, Option.bind_some, List.nil_append, copyBlocks, hown, hback]
  split_ifs
  · simp
  · rfl

end Copy

/-! ### The record that is written -/

/-- What the function is expected to make of the record `v`: the attributes and headers are
the same, except for the sizes in header `idx`, whose block is the text, and the other blocks
are the same. -/
def SectionUpdated (v v' : RecordView KernelAttr) (idx : ℕ) (text : Bytes) : Prop :=
  v'.attr = v.attr ∧
    (∃ size dim, v'.headers = v.headers.modify idx fun h =>
      MetaHeader.setDim0 { h with dataSize := size } dim) ∧
    blocksOf v'.headers v'.data = (blocksOf v.headers v.data).set idx (text ++ [0])

/-- The later blocks lie where the new size of block `idx` says, if there are any: the new
block, of `n` bytes, is not longer than the old one, and behind its first `n` bytes there is
what the later headers claim. -/
def LaterKept (v : RecordView KernelAttr) (idx n : ℕ) : Prop :=
  claimed (v.headers.drop (idx + 1)) = 0 ∨
    claimed (v.headers.take idx) + n ≤ claimed (v.headers.take (idx + 1)) ∧
      (v.data.drop (claimed (v.headers.take idx) + n)).take
        (claimed (v.headers.drop (idx + 1))) = v.data.drop (claimed (v.headers.take (idx + 1)))

/-- The sizes of the blocks do not depend on the parts of a header that are not written. -/
theorem blocksOf_map_norm (hs : List MetaHeader) (data : Bytes) :
    blocksOf (hs.map MetaHeader.norm) data = blocksOf hs data := by
  induction hs generalizing data with
  | nil => rfl
  | cons h hs ih => exact congrArg (_ :: ·) (ih _)

/-- The first slot of an array whose unused slots are zero may be changed before the unused
slots are filled up again. -/
theorem fillVec_set {v : List.Vector UInt64 ndimMax} {n : ℕ}
    (hv : fillVec 0 ndimMax (v.toList.take n) = v) (x : UInt64) :
    ∃ y, fillVec 0 ndimMax ((v.set 0 x).toList.take n) = v.set 0 y := by
  cases n with
  | zero =>
      refine ⟨v.get 0, ?_⟩
      rw [List.take_zero] at hv ⊢
      rw [hv]
      refine List.Vector.ext fun i => ?_
      by_cases hi : i = 0
      · rw [hi, List.Vector.get_set_same]
      · rw [List.Vector.get_set_of_ne (Ne.symm hi)]
  | succ n =>
      refine ⟨x, ?_⟩
      have hlen : v.toList.length = 7 := v.toList_length
      obtain ⟨a, as, has⟩ : ∃ a as, v.toList = a :: as :=
        List.exists_cons_of_length_pos (by omega)
      have hv' := congrArg List.Vector.toList hv
      rw [toList_fillVec, has, List.take_succ_cons] at hv'
      have hset : (v.set 0 x).toList = x :: as := by
        rw [List.Vector.toList_set, has]
        rfl
      refine List.Vector.eq _ _ ?_
      rw [toList_fillVec, hset, List.take_succ_cons]
      have hpad : ∀ c : UInt64, List.take ndimMax (c :: as.take n) ++
          List.replicate (ndimMax - (c :: as.take n).length) 0 =
          c :: (List.take 6 (as.take n) ++ List.replicate (6 - (as.take n).length) 0) := by
        intro c
        rw [List.length_cons, List.take_succ_cons, Nat.succ_sub_succ]
        rfl
      rw [hpad] at hv' ⊢
      rw [(List.cons.inj hv').2]

/-- The header with the size of a text, as it is read back. The slot of its first dimension
is zero if it has no dimensions. -/
theorem norm_withText {h : MetaHeader} (hnorm : h.norm = { h with blockSize := hdrFixedSize })
    (text : Bytes) :
    ∃ dim, (h.withText text).norm = { MetaHeader.setDim0
      { h with dataSize := UInt64.ofNat (text.length + 1) } dim with
        blockSize := hdrFixedSize } := by
  have hsizes := congrArg MetaHeader.dimsizes hnorm
  have hnames := congrArg MetaHeader.dimnames hnorm
  obtain ⟨dim, hdim⟩ := fillVec_set hsizes (UInt64.ofNat (text.length + 1))
  refine ⟨dim, ?_⟩
  simp only [MetaHeader.norm] at hnames
  simp only [MetaHeader.norm, MetaHeader.withText, MetaHeader.setDim0, hdim, hnames]

/-- The headers as they are read back are the expected ones if all have the block size that
the writer writes. -/
theorem headers_updated_iff {hs : List MetaHeader} {idx : ℕ} (hidx : idx < hs.length)
    (hnorm : ∀ h ∈ hs, h.norm = { h with blockSize := hdrFixedSize }) (text : Bytes) :
    (∃ size dim, (hs.modify idx (·.withText text)).map MetaHeader.norm =
        hs.modify idx fun h => MetaHeader.setDim0 { h with dataSize := size } dim) ↔
      ∀ h ∈ hs, h.blockSize = hdrFixedSize := by
  have hget : ∀ (f : MetaHeader → MetaHeader) (i : ℕ) (h : MetaHeader), hs[i]? = some h →
      (hs.modify idx f)[i]? = some (if idx = i then f h else h) := by
    intro f i h hi
    rw [List.getElem?_modify, hi]
    split_ifs
    · rfl
    · rfl
  constructor
  · rintro ⟨size, dim, heq⟩ h hh
    obtain ⟨i, hi⟩ := List.mem_iff_getElem?.mp hh
    have hi' := congrArg (·[i]?) heq
    simp only [List.getElem?_map, hget _ i h hi, Option.map_some, Option.some.injEq] at hi'
    have hsize := congrArg MetaHeader.blockSize hi'
    split_ifs at hsize
    · exact hsize.symm
    · exact hsize.symm
  · intro hblock
    obtain ⟨dim, hdim⟩ := norm_withText (hnorm hs[idx] (List.getElem_mem hidx)) text
    refine ⟨UInt64.ofNat (text.length + 1), dim, List.ext_getElem? fun i => ?_⟩
    rw [List.getElem?_map]
    rcases hi : hs[i]? with _ | h
    · rw [List.getElem?_modify, List.getElem?_modify, hi]
      rfl
    · have hmem := List.mem_of_getElem? hi
      rw [hget _ i h hi, hget _ i h hi, Option.map_some]
      split_ifs with heq
      · subst heq
        obtain rfl : hs[idx] = h := by
          rw [List.getElem?_eq_getElem hidx] at hi
          exact Option.some.inj hi
        rw [hdim, ← hblock _ hmem]
        rfl
      · rw [hnorm h hmem, ← hblock h hmem]

/-! ### Sizes of texts -/

theorem flatten_textLines (bs : Bytes) : (textLines bs).flatten = bs := by
  induction bs with
  | nil => rfl
  | cons b bs ih =>
      rw [textLines]
      split_ifs
      · simp [ih]
      · split
        · rename_i heq
          rw [heq] at ih
          simp [← ih]
        · rename_i l ls heq
          rw [heq] at ih
          simp [← ih]

theorem length_textLines_le (bs : Bytes) : (textLines bs).length ≤ bs.length := by
  induction bs with
  | nil => rfl
  | cons b bs ih =>
      rw [textLines]
      split_ifs
      · simpa using ih
      · split
        · simp
        · rename_i l ls heq
          rw [heq] at ih
          rw [List.length_cons] at ih ⊢
          exact ih.trans (Nat.le_succ _)

/-- The bytes of the line of the key, while it has not been written. -/
def pendingLine (search value : Bytes) (replaced : Bool) : ℕ :=
  bif replaced then 0 else search.length + value.length + 1

/-- The loop writes each line at most once, with a newline, and one line for the key. -/
theorem length_kvSetLoop_le (search value : Bytes) (ls : List Bytes) (out : Bytes)
    (replaced : Bool) :
    (kvSetLoop search value ls out replaced).1.length +
        pendingLine search value (kvSetLoop search value ls out replaced).2 ≤
      out.length + ls.flatten.length + ls.length + pendingLine search value replaced := by
  induction ls generalizing out replaced with
  | nil => simp [kvSetLoop]
  | cons l ls ih =>
      have hdone : pendingLine search value true = 0 := rfl
      have htodo : pendingLine search value false = search.length + value.length + 1 := rfl
      rw [List.flatten_cons, List.length_append, List.length_cons, kvSetLoop]
      split_ifs with hmatch hreplaced hline
      · have := ih out true
        omega
      · obtain rfl : replaced = false := by simpa using hreplaced
        have hrest := ih (out ++ search ++ value ++ [newline]) true
        simp only [List.length_append, List.length_singleton] at hrest
        omega
      · have hrest := ih (out ++ l) replaced
        rw [List.length_append] at hrest
        omega
      · have hrest := ih (out ++ l ++ [newline]) replaced
        simp only [List.length_append, List.length_singleton] at hrest
        omega

theorem length_kvSetText_le (old key value : Bytes) :
    (kvSetText old key value).length ≤ 2 * old.length + key.length + value.length + 2 := by
  have hloop := length_kvSetLoop_le (kvSearch key) value (textLines old) [] false
  have hlines := length_textLines_le old
  have hsearch : (kvSearch key).length ≤ key.length + 1 := by
    rw [kvSearch, List.length_take, List.length_append, List.length_singleton]
    exact min_le_right _ _
  have hdone : pendingLine (kvSearch key) value true = 0 := rfl
  have htodo : pendingLine (kvSearch key) value false =
      (kvSearch key).length + value.length + 1 := rfl
  rw [flatten_textLines, List.length_nil] at hloop
  rw [kvSetText]
  split
  · rename_i out heq
    rw [heq] at hloop
    dsimp only at hloop
    omega
  · rename_i out heq
    rw [heq] at hloop
    dsimp only at hloop
    simp only [List.length_append, List.length_singleton]
    omega

/-! ### Writing the record -/

section Update

variable {v : RecordView KernelAttr} {A B : List MetaHeader} {h : MetaHeader} {text : Bytes}
  {ws : Workspace}

theorem modify_length_append {α : Type} (f : α → α) (as : List α) (b : α) (bs : List α) :
    (as ++ b :: bs).modify as.length f = as ++ f b :: bs := by
  induction as with
  | nil => rfl
  | cons a as ih => exact congrArg (a :: ·) ih

theorem toNat_dataSize_withText (h : MetaHeader) (htext : text.length + 1 < 2 ^ 64) :
    (h.withText text).dataSize.toNat = text.length + 1 := by
  change (UInt64.ofNat (text.length + 1)).toNat = _
  rw [UInt64.toNat_ofNat']
  exact Nat.mod_eq_of_lt htext

/-- The function reads behind the payload. -/
theorem writeSection_undefined (hsplit : v.headers = A ++ h :: B)
    (hdata : claimed v.headers = v.data.length) (htext : text.length + 1 < 2 ^ 64)
    (hfits : claimed (A ++ h.withText text :: B) < 2 ^ 63)
    (hout : ¬(claimed B = 0 ∨ claimed A + (text.length + 1) + claimed B ≤ v.data.length)) :
    writeSection v A.length text ws = .error .undefined ws := by
  have hA : claimed A ≤ v.data.length := by
    rw [← hdata, hsplit, claimed_append]
    omega
  have hcopy := @copyBlocks_section v.data text A B (h.withText text) hA
    (toNat_dataSize_withText h htext) (by omega)
  rw [if_neg hout] at hcopy
  unfold writeSection
  rw [hsplit, modify_length_append, if_neg (by omega), hcopy]
  rfl

/-- The function writes the record, with the payload that it has put together. -/
theorem writeSection_ok (hsplit : v.headers = A ++ h :: B)
    (hcount : v.headers.length = v.attr.nheader.toNat)
    (hndim : ∀ h ∈ v.headers, h.ndim.toNat ≤ ndimMax)
    (hdata : claimed v.headers = v.data.length) (htext : text.length + 1 < 2 ^ 64)
    (hfits : claimed (A ++ h.withText text :: B) < 2 ^ 63)
    (hin : claimed B = 0 ∨ claimed A + (text.length + 1) + claimed B ≤ v.data.length) :
    ∃ v' ws', writeSection v A.length text ws = .ok () ws' ∧
      tpbRafRecordReadKernel v.attr.kernelId true ws' = .ok v' ws' ∧
      v'.attr = v.attr ∧
      v'.headers = (v.headers.modify A.length (·.withText text)).map MetaHeader.norm ∧
      v'.data = v.data.take (claimed A) ++ ((text ++ [0]) ++
        (v.data.drop (claimed A + (text.length + 1))).take (claimed B)) := by
  have hA : claimed A ≤ v.data.length := by
    rw [← hdata, hsplit, claimed_append]
    omega
  have hsize := toNat_dataSize_withText h htext
  have hcopy := @copyBlocks_section v.data text A B (h.withText text) hA hsize (by omega)
  rw [if_pos hin, List.append_assoc] at hcopy
  set data := v.data.take (claimed A) ++ ((text ++ [0]) ++
    (v.data.drop (claimed A + (text.length + 1))).take (claimed B)) with hnew
  have hclaimed : claimed (A ++ h.withText text :: B) = data.length := by
    rw [claimed_append, claimed_cons, hsize, hnew]
    simp only [List.length_append, List.length_take, List.length_drop, List.length_singleton]
    omega
  let r : Record kernelFormat := {
    attr := v.attr
    headers := A ++ h.withText text :: B
    buf := some data
    nheader_eq := by
      rw [hsplit, List.length_append, List.length_cons] at hcount
      rw [List.length_append, List.length_cons]
      exact hcount
    ndim_le := by
      intro x hx
      rcases List.mem_append.mp hx with hx | hx
      · exact hndim x (by simp [hsplit, hx])
      · rcases List.mem_cons.mp hx with rfl | hx
        · exact hndim h (by simp [hsplit])
        · exact hndim x (by simp [hsplit, hx])
    data_lt := by
      rw [Option.getD_some, ← hclaimed]
      omega }
  refine ⟨r.view, ws.set (.record .kernel v.attr.kernelId) r.bytes, ?_, ?_, rfl, ?_, rfl⟩
  · unfold writeSection
    rw [hsplit, modify_length_append, if_neg (by omega), hcopy]
    exact propagate_eq_ok.mpr (by rw [hclaimed]; rfl)
  · exact recordRead_of_bytes (r := r) (ws.set_files_same _ _)
  · rw [hsplit, modify_length_append]
    rfl

/-- The blocks of the new payload are the expected ones if those of the later headers are. -/
theorem blocks_updated_iff (hdata : claimed A ≤ v.data.length)
    (htext : text.length + 1 < 2 ^ 64) :
    blocksOf (A ++ h.withText text :: B) (v.data.take (claimed A) ++ ((text ++ [0]) ++
        (v.data.drop (claimed A + (text.length + 1))).take (claimed B))) =
      (blocksOf (A ++ h :: B) v.data).set A.length (text ++ [0]) ↔
    (v.data.drop (claimed A + (text.length + 1))).take (claimed B) =
      (v.data.drop (claimed A + h.dataSize.toNat)).take (claimed B) := by
  have hlen : (v.data.take (claimed A)).length = claimed A := List.length_take_of_le hdata
  have hfront : ∀ rest, blocksOf A (v.data.take (claimed A) ++ rest) = blocksOf A v.data := by
    intro rest
    rw [blocksOf_eq_iff, List.take_left' hlen]
  have hset : (blocksOf A v.data ++ blocksOf (h :: B) (v.data.drop (claimed A))).set A.length
      (text ++ [0]) = blocksOf A v.data ++ (text ++ [0]) ::
        blocksOf B ((v.data.drop (claimed A)).drop h.dataSize.toNat) := by
    rw [List.set_append_right _ _ (by rw [length_blocksOf]), length_blocksOf, Nat.sub_self]
    rfl
  have hown : (text ++ [(0 : UInt8)]).length = text.length + 1 := List.length_append
  rw [blocksOf_append, blocksOf_append, hfront, hset, List.drop_left' hlen, blocksOf,
    toNat_dataSize_withText h htext, List.take_left' hown, List.drop_left' hown,
    List.append_cancel_left_eq, List.cons.injEq, List.drop_drop, blocksOf_eq_iff]
  simp only [true_and, List.take_take, min_self]

/-- The later blocks in terms of the two parts of the header list. -/
theorem laterKept_iff (hsplit : v.headers = A ++ h :: B)
    (hdata : claimed v.headers = v.data.length) (n : ℕ) :
    LaterKept v A.length n ↔
      (claimed B = 0 ∨ claimed A + n + claimed B ≤ v.data.length) ∧
        (v.data.drop (claimed A + n)).take (claimed B) =
          (v.data.drop (claimed A + h.dataSize.toNat)).take (claimed B) := by
  have htake : v.headers.take A.length = A := by rw [hsplit, List.take_left]
  have happ : v.headers = (A ++ [h]) ++ B := by rw [hsplit, List.append_cons]
  have hone : (A ++ [h]).length = A.length + 1 := List.length_append
  have hnext : claimed (v.headers.take (A.length + 1)) = claimed A + h.dataSize.toNat := by
    rw [happ, List.take_left' hone, claimed_append]
    rfl
  have hdrop : v.headers.drop (A.length + 1) = B := by rw [happ, List.drop_left' hone]
  rw [LaterKept, htake, hnext, hdrop]
  rw [hsplit, claimed_append, claimed_cons] at hdata
  have hall : (v.data.drop (claimed A + h.dataSize.toNat)).take (claimed B) =
      v.data.drop (claimed A + h.dataSize.toNat) :=
    List.take_of_length_le (by rw [List.length_drop]; omega)
  rw [hall]
  constructor
  · rintro (hzero | ⟨hle, heq⟩)
    · refine ⟨.inl hzero, ?_⟩
      rw [hzero, List.take_zero, List.drop_of_length_le (by omega)]
    · exact ⟨.inr (by omega), heq⟩
  · rintro ⟨hzero | hle, heq⟩
    · exact .inl hzero
    · exact .inr ⟨by omega, heq⟩

end Update

/-! ### The update of a key -/

/-- The update does not run out of memory, and its section has a name that can be found. -/
def UpdateFits (v : RecordView KernelAttr) (idx : ℕ) (sec key old value : Bytes) : Prop :=
  sec.length < 64 ∧ old.length + key.length + value.length + 32 < 2 ^ 63 ∧
    claimed (v.headers.modify idx (·.withText (kvSetText old key value))) < 2 ^ 63

/-- What is expected of the update of a key: if it succeeds, the record reads back with the
text `text` for header `idx`. -/
def MetaKeyUpdated (ws : Workspace) (kernelId : Id20) (fullKey value : Bytes)
    (v : RecordView KernelAttr) (idx : ℕ) (text : Bytes) : Prop :=
  match tpbRafKernelUpdateMetaKey kernelId fullKey value ws with
  | .ok () ws' => ∃ v', tpbRafRecordReadKernel kernelId true ws' = .ok v' ws' ∧
      SectionUpdated v v' idx text
  | .error .undefined _ => False
  | .error (.code _ _) _ => True

/-- The two parts of a full key. -/
theorem sfSplitMetaKey_run {sec : Bytes} (hdot : 46 ∉ sec) (hne : sec ≠ [])
    (hsec : sec.length < 64) (sub : Bytes) (ws : Workspace) :
    sfSplitMetaKey (sec ++ 46 :: sub) ws = .ok (sec, sub.take 255) ws := by
  have hall : ∀ b ∈ sec, decide (b ≠ 46) = true := by
    intro b hb
    rw [decide_eq_true_eq]
    rintro rfl
    exact hdot hb
  have htake : (sec ++ 46 :: sub).takeWhile (· ≠ 46) = sec := by
    rw [List.takeWhile_append_of_pos hall]
    simp
  have hdrop : (sec ++ 46 :: sub).dropWhile (· ≠ 46) = 46 :: sub := by
    rw [List.dropWhile_append_of_pos hall]
    simp
  obtain ⟨b, bs, rfl⟩ := List.exists_cons_of_ne_nil hne
  have hb : b ≠ 46 := fun h => hdot (by simp [h])
  rw [sfSplitMetaKey, htake, hdrop, if_neg (by simp [hb]), if_neg (by omega)]
  rfl

/-- A string that ends in a part of a buffer. -/
theorem cstr_take {bs : Bytes} {n : ℕ} (h : 0 ∈ bs.take n) : cstr (bs.take n) = cstr bs := by
  obtain ⟨s, t, hs, hzero⟩ := List.eq_append_cons_of_mem h
  have hbs : bs = s ++ 0 :: (t ++ bs.drop n) := by
    conv_lhs => rw [← List.take_append_drop n bs, hs]
    simp
  rw [hs, hbs, cstr_append_zero hzero, cstr_append_zero hzero]

/-- The text of a header whose block has a terminator. -/
theorem sectionText_run {v : RecordView KernelAttr} {A B : List MetaHeader} {h : MetaHeader}
    (hsplit : v.headers = A ++ h :: B) (hsum : claimed v.headers = v.datasize.toNat)
    (hnul : 0 ∈ (v.data.drop (claimed A)).take h.dataSize.toNat) (ws : Workspace) :
    sectionText v A h ws =
      .ok (cstr ((v.data.drop (claimed A)).take h.dataSize.toNat)) ws := by
  have hlt := v.datasize.toNat_lt
  rw [hsplit, claimed_append, claimed_cons] at hsum
  have hpos : 0 < h.dataSize.toNat := by
    by_contra hzero
    rw [show h.dataSize.toNat = 0 by omega] at hnul
    simp at hnul
  have hA := @toNat_sum_dataSize A (by omega)
  have hcheck : ¬(v.datasize = 0 ∨
      (A.map MetaHeader.dataSize).sum + h.dataSize > v.datasize) := by
    rw [not_or, gt_iff_lt, UInt64.not_lt, UInt64.le_iff_toNat_le, UInt64.toNat_add, hA,
      Nat.mod_eq_of_lt (by omega)]
    refine ⟨fun hzero => ?_, by omega⟩
    rw [hzero, UInt64.toNat_zero] at hsum
    omega
  have hstr : strAt v.data (blockOffset A) =
      some (cstr ((v.data.drop (claimed A)).take h.dataSize.toNat)) := by
    rw [blockOffset_eq (by omega), strAt, if_pos (List.mem_of_mem_take hnul), cstr_take hnul]
  rw [sectionText, if_neg hcheck, hstr]
  rfl

/-- The function up to the point where the text is put into the record. -/
theorem tpbRafKernelUpdateMetaKey_run {ws : Workspace} {kernelId : Id20}
    {v : RecordView KernelAttr} {A B : List MetaHeader} {h : MetaHeader} {sec sub value : Bytes}
    (hread : tpbRafRecordReadKernel kernelId true ws = .ok v ws)
    (hsum : claimed v.headers = v.datasize.toNat) (hdot : 46 ∉ sec) (hne : sec ≠ [])
    (hsec : sec.length < 64) (hfind : tpbRafKernelFindHeader v.headers sec = some A.length)
    (hsplit : v.headers = A ++ h :: B)
    (hnul : 0 ∈ (v.data.drop (claimed A)).take h.dataSize.toNat) :
    tpbRafKernelUpdateMetaKey kernelId (sec ++ 46 :: sub) value ws =
      (do let text ← propagate .rafL3Kernel (tpbRafKernelMetaKvSet
            (cstr ((v.data.drop (claimed A)).take h.dataSize.toNat)) (sub.take 255) value)
          writeSection v A.length text : WsM Unit) ws := by
  have htake : v.headers.take A.length = A := by rw [hsplit, List.take_left]
  have hget : v.headers[A.length]? = some h := by
    rw [hsplit, List.getElem?_append_right le_rfl, Nat.sub_self]
    rfl
  refine bind_then (propagate_eq_ok.mpr (sfSplitMetaKey_run hdot hne hsec sub ws)) ?_
  refine bind_then (propagate_eq_ok.mpr hread) ?_
  rw [hfind]
  dsimp only
  rw [hget, htake]
  exact bind_then (sectionText_run hsplit hsum hnul ws) rfl

/-- A section whose name is too long cannot be asked for. -/
theorem sfSplitMetaKey_long {sec : Bytes} (hdot : 46 ∉ sec) (hsec : 64 ≤ sec.length)
    (sub : Bytes) (ws : Workspace) :
    sfSplitMetaKey (sec ++ 46 :: sub) ws = .error (.code .rafL3Kernel .kernArgFail) ws := by
  have hall : ∀ b ∈ sec, decide (b ≠ 46) = true := by
    intro b hb
    rw [decide_eq_true_eq]
    rintro rfl
    exact hdot hb
  have htake : (sec ++ 46 :: sub).takeWhile (· ≠ 46) = sec := by
    rw [List.takeWhile_append_of_pos hall]
    simp
  rw [sfSplitMetaKey, htake]
  split_ifs
  · rfl
  · rfl

section Updated

variable {ws : Workspace} {kernelId : Id20} {v : RecordView KernelAttr}
  {A B : List MetaHeader} {h : MetaHeader} {sec sub value old : Bytes}

/-- What is expected of an update that writes a text. -/
theorem metaKeyUpdated_of_run {fullKey text : Bytes} {idx : ℕ}
    (hrun : tpbRafKernelUpdateMetaKey kernelId fullKey value ws = writeSection v idx text ws) :
    MetaKeyUpdated ws kernelId fullKey value v idx text ↔
      match writeSection v idx text ws with
      | .ok () ws' => ∃ v', tpbRafRecordReadKernel kernelId true ws' = .ok v' ws' ∧
          SectionUpdated v v' idx text
      | .error .undefined _ => False
      | .error (.code _ _) _ => True := by
  rw [MetaKeyUpdated, hrun]

/-- What is expected of an update that has room, in terms of the headers in front of the
changed one and behind it. -/
theorem metaKeyUpdated_iff_of_fits (hread : tpbRafRecordReadKernel kernelId true ws = .ok v ws)
    (hid : v.attr.kernelId = kernelId) (hsum : claimed v.headers = v.datasize.toNat)
    (hdot : 46 ∉ sec) (hne : sec ≠ [])
    (hfind : tpbRafKernelFindHeader v.headers sec = some A.length)
    (hsplit : v.headers = A ++ h :: B)
    (hnul : 0 ∈ (v.data.drop (claimed A)).take h.dataSize.toNat)
    (hold : cstr ((v.data.drop (claimed A)).take h.dataSize.toNat) = old)
    (hfits : UpdateFits v A.length sec (sub.take 255) old value) :
    MetaKeyUpdated ws kernelId (sec ++ 46 :: sub) value v A.length
        (kvSetText old (sub.take 255) value) ↔
      (∀ h ∈ v.headers, h.blockSize = hdrFixedSize) ∧
        LaterKept v A.length ((kvSetText old (sub.take 255) value).length + 1) := by
  obtain ⟨hsec, hmem, hsize⟩ := hfits
  obtain ⟨-, hcount, hlen, hnorm⟩ := norm_of_recordRead hread
  have hrun : tpbRafKernelUpdateMetaKey kernelId (sec ++ 46 :: sub) value ws =
      writeSection v A.length (kvSetText old (sub.take 255) value) ws := by
    rw [tpbRafKernelUpdateMetaKey_run hread hsum hdot hne hsec hfind hsplit hnul, hold]
    refine bind_then (propagate_eq_ok.mpr ?_) rfl
    rw [tpbRafKernelMetaKvSet, if_neg (by omega)]
    rfl
  have htext := length_kvSetText_le old (sub.take 255) value
  rw [metaKeyUpdated_of_run hrun]
  set text := kvSetText old (sub.take 255) value
  have hbound : text.length + 1 < 2 ^ 64 := by omega
  have hdata : claimed v.headers = v.data.length := hsum.trans hlen.symm
  have hmodify : claimed (A ++ h.withText text :: B) < 2 ^ 63 := by
    rwa [hsplit, modify_length_append] at hsize
  rw [laterKept_iff hsplit hdata]
  by_cases hin : claimed B = 0 ∨ claimed A + (text.length + 1) + claimed B ≤ v.data.length
  · obtain ⟨v', ws', hwrite, hback, hattr, hheaders, hdata'⟩ :=
      writeSection_ok hsplit hcount (fun x hx => (hnorm x hx).1) hdata hbound hmodify hin
    have hA : claimed A ≤ v.data.length := by
      rw [← hdata, hsplit, claimed_append]
      omega
    have hlt : A.length < v.headers.length := by
      rw [hsplit, List.length_append, List.length_cons]
      omega
    rw [hwrite]
    dsimp only
    rw [hid] at hback
    have hsection : (∃ v'', tpbRafRecordReadKernel kernelId true ws' = .ok v'' ws' ∧
        SectionUpdated v v'' A.length text) ↔ SectionUpdated v v' A.length text := by
      constructor
      · rintro ⟨v'', hagain, hupdated⟩
        obtain ⟨rfl, -⟩ := EStateM.Result.ok.inj (hback.symm.trans hagain)
        exact hupdated
      · exact fun hupdated => ⟨v', hback, hupdated⟩
    have hblocks := @blocks_updated_iff v A B h text hA hbound
    rw [← hdata', ← hsplit] at hblocks
    rw [hsection, SectionUpdated, hheaders,
      headers_updated_iff hlt (fun x hx => (hnorm x hx).2), blocksOf_map_norm, hsplit,
      modify_length_append, ← hsplit, hblocks]
    simp only [hattr, hin, true_and]
  · rw [writeSection_undefined hsplit hdata hbound hmodify hin]
    simp [hin]

/-- An update that has no room fails. -/
theorem metaKeyUpdated_of_not_fits (hread : tpbRafRecordReadKernel kernelId true ws = .ok v ws)
    (hsum : claimed v.headers = v.datasize.toNat) (hdot : 46 ∉ sec) (hne : sec ≠ [])
    (hfind : tpbRafKernelFindHeader v.headers sec = some A.length)
    (hsplit : v.headers = A ++ h :: B)
    (hnul : 0 ∈ (v.data.drop (claimed A)).take h.dataSize.toNat)
    (hold : cstr ((v.data.drop (claimed A)).take h.dataSize.toNat) = old)
    (hfits : ¬UpdateFits v A.length sec (sub.take 255) old value) :
    MetaKeyUpdated ws kernelId (sec ++ 46 :: sub) value v A.length
      (kvSetText old (sub.take 255) value) := by
  by_cases hsec : sec.length < 64
  · by_cases hmem : old.length + (sub.take 255).length + value.length + 32 < 2 ^ 63
    · have hset : propagate .rafL3Kernel (tpbRafKernelMetaKvSet old (sub.take 255) value) ws =
          .ok (kvSetText old (sub.take 255) value) ws := by
        rw [propagate_eq_ok, tpbRafKernelMetaKvSet, if_neg (by omega)]
        rfl
      have hrun : tpbRafKernelUpdateMetaKey kernelId (sec ++ 46 :: sub) value ws =
          writeSection v A.length (kvSetText old (sub.take 255) value) ws := by
        rw [tpbRafKernelUpdateMetaKey_run hread hsum hdot hne hsec hfind hsplit hnul, hold]
        exact bind_then hset rfl
      have hsize : 2 ^ 63 ≤ claimed (v.headers.modify A.length
          (·.withText (kvSetText old (sub.take 255) value))) := by
        by_contra hlt
        exact hfits ⟨hsec, hmem, by omega⟩
      rw [metaKeyUpdated_of_run hrun, writeSection, if_pos hsize]
      exact trivial
    · have hset : tpbRafKernelMetaKvSet old (sub.take 255) value =
          tpbFail .rafL3Kernel .mallocFail := if_pos (by omega)
      rw [MetaKeyUpdated,
        tpbRafKernelUpdateMetaKey_run hread hsum hdot hne hsec hfind hsplit hnul, hold, hset]
      exact trivial
  · have hsplitKey : propagate .rafL3Kernel (sfSplitMetaKey (sec ++ 46 :: sub)) ws =
        .error (.code .rafL3Kernel .kernArgFail) ws := by
      rw [propagate, sfSplitMetaKey_long hdot (by omega)]
    rw [MetaKeyUpdated, tpbRafKernelUpdateMetaKey, bind_error hsplitKey]
    exact trivial

end Updated

/-- **When the update of a key is right**: all headers have the block size that the writer
writes, and the later blocks lie where the new size says, if there are any. -/
theorem update_meta_key_iff (ws : Workspace) (kernelId : Id20) (v : RecordView KernelAttr)
    (sec sub value : Bytes) (idx : ℕ) (block : Bytes)
    (hread : tpbRafRecordReadKernel kernelId true ws = .ok v ws)
    (hid : v.attr.kernelId = kernelId) (hsum : claimed v.headers = v.datasize.toNat)
    (hdot : 46 ∉ sec) (hne : sec ≠ [])
    (hfind : tpbRafKernelFindHeader v.headers sec = some idx)
    (hblock : (blocksOf v.headers v.data)[idx]? = some block) (hnul : 0 ∈ block) :
    MetaKeyUpdated ws kernelId (sec ++ 46 :: sub) value v idx
        (kvSetText (cstr block) (sub.take 255) value) ↔
      (UpdateFits v idx sec (sub.take 255) (cstr block) value →
        (∀ h ∈ v.headers, h.blockSize = hdrFixedSize) ∧
          LaterKept v idx ((kvSetText (cstr block) (sub.take 255) value).length + 1)) := by
  have hlt : idx < v.headers.length := by
    rw [← length_blocksOf v.headers v.data]
    exact (List.getElem?_eq_some_iff.mp hblock).1
  have hsplit : v.headers = v.headers.take idx ++ v.headers[idx] :: v.headers.drop (idx + 1) := by
    rw [← List.drop_eq_getElem_cons hlt, List.take_append_drop]
  have hlen : (v.headers.take idx).length = idx := List.length_take_of_le hlt.le
  have hown : (v.data.drop (claimed (v.headers.take idx))).take v.headers[idx].dataSize.toNat =
      block := by
    rw [hsplit, blocksOf_append, List.getElem?_append_right (by rw [length_blocksOf, hlen]),
      length_blocksOf, hlen, Nat.sub_self] at hblock
    exact Option.some.inj hblock
  rw [← hown] at hnul ⊢
  obtain ⟨A, hA⟩ : ∃ A, A = v.headers.take idx := ⟨_, rfl⟩
  rw [← hA] at hsplit hlen hnul ⊢
  subst hlen
  by_cases hfits : UpdateFits v A.length sec (sub.take 255)
      (cstr ((v.data.drop (claimed A)).take v.headers[A.length].dataSize.toNat)) value
  · rw [metaKeyUpdated_iff_of_fits hread hid hsum hdot hne hfind hsplit hnul rfl hfits]
    simp only [hfits, true_imp_iff]
  · have hdone := metaKeyUpdated_of_not_fits hread hsum hdot hne hfind hsplit hnul rfl hfits
    simp only [hdone, hfits, false_imp_iff]

/-! ### A record with two texts -/

/-- The attributes of a kernel whose record has two headers. -/
def twoTextAttr : KernelAttr :=
  ⟨zeroArr 20, zeroArr 20, zeroArr 20, zeroArr 256, zeroArr 64, zeroArr 2048, 0, 0, 0, 2, 1, 0⟩

/-- The header of a text. -/
def textHeader (name text : Bytes) : MetaHeader :=
  { MetaHeader.zero with
    blockSize := hdrFixedSize
    ndim := 1
    name := snprintfS 256 name }.withText text

/-- `"variation"`. -/
def variationName : Bytes := ascii "variation".toList

/-- `"compilation"`. -/
def compilationName : Bytes := ascii "compilation".toList

/-- The record of a kernel with the texts `k=10` and `cc`, each with its newline. -/
def twoTexts : Record kernelFormat where
  attr := twoTextAttr
  headers := [textHeader variationName [107, 61, 49, 48, 10],
    textHeader compilationName [99, 99, 10]]
  buf := some [107, 61, 49, 48, 10, 0, 99, 99, 10, 0]
  nheader_eq := rfl
  ndim_le := by
    rintro h (_ | ⟨_, _ | ⟨_, ⟨⟩⟩⟩)
    · exact (by decide : 1 ≤ 7)
    · exact (by decide : 1 ≤ 7)
  data_lt := (by decide : 10 < 2 ^ 64)

/-- A workspace that holds this record. -/
def twoTextsSpace : Workspace :=
  Workspace.empty.set (.record .kernel (zeroArr 20)) twoTexts.bytes

theorem read_twoTexts :
    tpbRafRecordReadKernel (zeroArr 20) true twoTextsSpace = .ok twoTexts.view twoTextsSpace :=
  recordRead_of_bytes (r := twoTexts) (Workspace.set_files_same _ _ _)

theorem find_variation : tpbRafKernelFindHeader twoTexts.view.headers variationName = some 0 := by
  have hname : cstr (textHeader variationName [107, 61, 49, 48, 10]).norm.name.toList =
      variationName := @cstr_snprintfS 256 variationName (by decide) (by decide)
  change List.findIdx? _ [MetaHeader.norm (textHeader variationName _), _] = some 0
  rw [List.findIdx?_cons, if_pos (decide_eq_true hname)]

theorem claimed_twoTexts : claimed twoTexts.view.headers = twoTexts.view.datasize.toNat := rfl

theorem blockSize_twoTexts : ∀ h ∈ twoTexts.view.headers, h.blockSize = hdrFixedSize := by
  rintro h (_ | ⟨_, _ | ⟨_, ⟨⟩⟩⟩)
  · rfl
  · rfl

theorem old_twoTexts : cstr [107, 61, 49, 48, 10, 0] = [107, 61, 49, 48, 10] := rfl

/-- The text with the new line. -/
theorem kvSetText_twoTexts (value : Bytes) :
    kvSetText [107, 61, 49, 48, 10] [107] value = [107, 61] ++ value ++ [10] := rfl

/-- The key `variation.k` is set to `1`. The text gets shorter by one byte, and the function
takes the block of the other header from one byte too far in front. -/
theorem later_header_is_shifted :
    ¬MetaKeyUpdated twoTextsSpace (zeroArr 20) (variationName ++ 46 :: [107]) [49]
      twoTexts.view 0 (kvSetText [107, 61, 49, 48, 10] [107] [49]) := by
  have hfits : UpdateFits twoTexts.view 0 variationName [107] [107, 61, 49, 48, 10] [49] := by
    rw [UpdateFits, kvSetText_twoTexts]
    exact ⟨by decide, by decide, by decide⟩
  have hiff := @metaKeyUpdated_iff_of_fits twoTextsSpace (zeroArr 20) twoTexts.view []
    [(textHeader compilationName [99, 99, 10]).norm]
    (textHeader variationName [107, 61, 49, 48, 10]).norm
    variationName [107] [49] [107, 61, 49, 48, 10] read_twoTexts rfl claimed_twoTexts
    (by decide) (by decide) find_variation rfl (by decide) rfl hfits
  rw [List.take_of_length_le (by decide), List.length_nil] at hiff
  rw [hiff]
  rintro ⟨-, hlater⟩
  rw [kvSetText_twoTexts] at hlater
  rcases hlater with hzero | ⟨-, heq⟩
  · exact absurd hzero (by decide)
  · exact absurd heq (by decide)

/-- The key `variation.k` is set to `11`, which does not change the size of the text. -/
theorem same_size_is_updated :
    MetaKeyUpdated twoTextsSpace (zeroArr 20) (variationName ++ 46 :: [107]) [49, 49]
      twoTexts.view 0 (kvSetText [107, 61, 49, 48, 10] [107] [49, 49]) := by
  have hblock : (blocksOf twoTexts.view.headers twoTexts.view.data)[0]? =
      some [107, 61, 49, 48, 10, 0] := rfl
  have hiff := update_meta_key_iff twoTextsSpace (zeroArr 20) twoTexts.view variationName [107]
    [49, 49] 0 [107, 61, 49, 48, 10, 0] read_twoTexts rfl claimed_twoTexts (by decide)
    (by decide) find_variation hblock (by decide)
  rw [old_twoTexts, List.take_of_length_le (by decide)] at hiff
  rw [hiff]
  refine fun _ => ⟨blockSize_twoTexts, .inr ?_⟩
  rw [kvSetText_twoTexts]
  exact ⟨by decide, rfl⟩

end TPBench
