import TPBench.CFile.Text
import TPBench.Raf.Domains

/-!
# Link Headers

A link header is a one-dimensional header whose payload is a sequence of 20-byte IDs. Two
functions of the store append IDs to records with such headers, editing the file in
place. This module collects what both rely on: which field of a header stands at which
offset of its bytes, the check of a header's name, and the arithmetic of the sizes, which
the source does in `uint64_t` and `long`.

The offsets matter. `dimsizes[0]` stands at offset 2592 of a header
(`MetaHeader.pwrite_dim0`), behind the scalars, the name, the tag and the note. Offset
2336, where it stood before headers had a tag, is a place inside the note
(`MetaHeader.pwrite_note`).
-/

open CFile

namespace TPBench

/-! ### The fields of a header -/

section Header

variable (h : MetaHeader)

theorem MetaHeader.pread_ndim : pread h.encode 4 4 = u32 h.ndim := by
  simp (disch := simp) only [MetaHeader.encode, MetaHeader.fixed, List.flatten_cons,
    List.append_assoc, pread_append_right, pread_append_self, length_u32, Nat.reduceSub]

theorem MetaHeader.pread_dataSize : pread h.encode 8 8 = u64 h.dataSize := by
  simp (disch := simp) only [MetaHeader.encode, MetaHeader.fixed, List.flatten_cons,
    List.append_assoc, pread_append_right, pread_append_self, length_u32, Nat.reduceSub]

theorem MetaHeader.pread_name : pread h.encode 32 256 = h.name.toList := by
  simp (disch := simp) only [MetaHeader.encode, MetaHeader.fixed, List.flatten_cons,
    List.append_assoc, pread_append_right, pread_append_self, length_u32, length_u64,
    Nat.reduceSub]

theorem MetaHeader.pwrite_dataSize (v : UInt64) :
    pwrite h.encode 8 (u64 v) = MetaHeader.encode { h with dataSize := v } := by
  simp (disch := simp) only [MetaHeader.encode, MetaHeader.fixed, MetaHeader.dims,
    List.flatten_cons, List.append_assoc, pwrite_append_right, pwrite_append_self,
    length_u32, Nat.reduceSub]

/-- The note with the eight bytes from offset 1792 on replaced by a word. -/
def MetaHeader.scribble (h : MetaHeader) (v : UInt64) : MetaHeader :=
  { h with note := toArr 2048 (pwrite h.note.toList 1792 (u64 v)) }

theorem MetaHeader.toList_note_scribble (v : UInt64) :
    (h.scribble v).note.toList = pwrite h.note.toList 1792 (u64 v) := by
  refine toList_toArr ?_
  rw [length_pwrite (by simp), h.note.toList_length]

/-- Offset 2336 of a header is inside its note. -/
theorem MetaHeader.pwrite_note (v : UInt64) :
    pwrite h.encode 2336 (u64 v) = (h.scribble v).encode := by
  have hdims : (h.scribble v).dims = h.dims := rfl
  have hfixed : (h.scribble v).fixed = [u32 hdrFixedSize, u32 h.ndim, u64 h.dataSize,
      u32 h.typeBits, u32 h.reserve, u64 h.uattrBits, h.name.toList, h.tag.toList,
      pwrite h.note.toList 1792 (u64 v)].flatten := by
    rw [← h.toList_note_scribble v]
    rfl
  rw [MetaHeader.encode, MetaHeader.encode, hdims, hfixed]
  simp (disch := simp) only [MetaHeader.fixed, List.flatten_cons, List.flatten_nil,
    List.append_nil, List.append_assoc, pwrite_append_right, pwrite_append_left,
    List.Vector.toList_length, length_u32, length_u64, Nat.reduceSub]

/-- Offset 2592 of a header with dimensions is `dimsizes[0]`. -/
theorem MetaHeader.pwrite_dim0 (hn : 0 < h.ndim.toNat) (v : UInt64) :
    pwrite h.encode 2592 (u64 v) = (h.setDim0 v).encode := by
  obtain ⟨d, rest, hd⟩ : ∃ d rest, h.dimsizes.toList = d :: rest := by
    refine List.exists_cons_of_length_pos ?_
    rw [h.dimsizes.toList_length]
    decide
  have hset : (h.dimsizes.set 0 v).toList = v :: rest := by
    rw [List.Vector.toList_set, hd]
    rfl
  obtain ⟨n, hn'⟩ : ∃ n, h.ndim.toNat = n + 1 := ⟨h.ndim.toNat - 1, by omega⟩
  have hfixed : (h.setDim0 v).fixed = h.fixed := rfl
  have hnames : (h.setDim0 v).dimnames = h.dimnames := rfl
  have hndim : (h.setDim0 v).ndim = h.ndim := rfl
  have hsizes : (h.setDim0 v).dimsizes.toList = v :: rest := hset
  rw [MetaHeader.encode, MetaHeader.encode, hfixed, pwrite_append_right (by simp),
    h.length_fixed, Nat.sub_self, MetaHeader.dims, MetaHeader.dims, hnames, hndim, hsizes, hd,
    hn', List.take_succ_cons, List.take_succ_cons, List.flatMap_cons, List.flatMap_cons,
    List.append_assoc, List.append_assoc, pwrite_append_self (by simp)]

/-- The serialized length of a one-dimensional header. -/
theorem MetaHeader.length_encode_one {h : MetaHeader} (hn : h.ndim = 1) :
    h.encode.length = 2664 := by
  rw [MetaHeader.length_encode (by rw [hn]; decide), hn]
  rfl

end Header

/-! ### Names and sizes -/

/-- `"TaskID"`. -/
def taskIdName : Bytes := ascii "TaskID".toList

/-- `"KernelID"`. -/
def kernelIdName : Bytes := ascii "KernelID".toList

/-- `TPB_TAG_LINK`. -/
def tagLink : Bytes := ascii "TPBLINK".toList

/-- A link header of byte IDs without any ID in it: zeroed, with one dimension, the type
`TPB_UNSIGNED_CHAR_T`, its name and the link tag. -/
def linkHeader (name : Bytes) : MetaHeader :=
  { MetaHeader.zero with
    blockSize := hdrFixedSize
    ndim := 1
    typeBits := 0x0102
    name := snprintfS 256 name
    tag := snprintfS 256 tagLink }

/-- The name check of the link functions: `strncmp` over the length of the expected name,
and a terminator behind it. -/
def nameIs (namechk name : Bytes) : Bool := namechk.take (name.length + 1) == name ++ [0]

/-- A buffer that holds the string passes the name check. -/
theorem nameIs_of_cstr {bs name : Bytes} (h : cstr bs = name) (hlen : name.length < bs.length) :
    nameIs bs name = true := by
  have hsplit : bs = name ++ bs.dropWhile (· ≠ 0) := by
    conv_lhs => rw [← List.takeWhile_append_dropWhile (p := (· ≠ 0)) (l := bs)]
    rw [← h, cstr]
  cases hrest : bs.dropWhile (· ≠ 0) with
  | nil =>
      rw [hrest, List.append_nil] at hsplit
      rw [← hsplit] at hlen
      omega
  | cons b rest =>
      have hb : b = 0 := by
        have hnot := List.head_dropWhile_not (· ≠ (0 : UInt8)) (l := bs)
          (by rw [hrest]; exact List.cons_ne_nil b rest)
        simp only [hrest, List.head_cons] at hnot
        simpa using hnot
      rw [hrest, hb, List.append_cons] at hsplit
      rw [nameIs, hsplit, List.take_left' (by simp)]
      exact beq_self_eq_true _

/-- A payload of whole IDs. -/
def idBytes (ids : List Id20) : Bytes := ids.flatMap List.Vector.toList

@[simp] theorem length_idBytes (ids : List Id20) : (idBytes ids).length = 20 * ids.length := by
  rw [idBytes, length_rows, Nat.mul_comm]

/-- A size below `2 ^ 63` survives the conversions to `uint64_t` and `long`. -/
theorem longOfU64_ofNat {n : ℕ} (h : n < 2 ^ 63) : longOfU64 (UInt64.ofNat n) = n := by
  have hn : (BitVec.ofNat 64 n).toNat = n := by
    rw [BitVec.toNat_ofNat]
    omega
  rw [longOfU64, UInt64.toBitVec_ofNat', BitVec.toInt_eq_toNat_of_lt (by omega), hn]

theorem toNat_ofNat_of_lt {n : ℕ} (h : n < 2 ^ 63) : (UInt64.ofNat n).toNat = n := by
  rw [UInt64.toNat_ofNat']
  omega

/-- Twenty more bytes, in 64-bit arithmetic. -/
theorem ofNat_add_twenty (n : ℕ) :
    UInt64.ofNat (20 * n) + 20 = UInt64.ofNat (20 * (n + 1)) := by
  rw [Nat.mul_succ, UInt64.ofNat_add]
  rfl

/-- The number of IDs in a payload, in 64-bit arithmetic. -/
theorem ofNat_div_twenty {n : ℕ} (h : 20 * n < 2 ^ 63) :
    UInt64.ofNat (20 * n) / 20 = UInt64.ofNat n := by
  apply UInt64.toNat_inj.mp
  rw [UInt64.toNat_div, toNat_ofNat_of_lt h, toNat_ofNat_of_lt (by omega)]
  exact Nat.mul_div_cancel_left n (by decide)

/-- A payload of whole IDs passes the divisibility check. -/
theorem ofNat_mod_twenty {n : ℕ} (h : 20 * n < 2 ^ 63) :
    UInt64.ofNat (20 * n) % 20 = 0 := by
  apply UInt64.toNat_inj.mp
  rw [UInt64.toNat_mod, toNat_ofNat_of_lt h]
  exact Nat.mul_mod_right 20 n

/-- The length of the header at `base`, as the append computes it. -/
theorem tpbRafL1HdrSerializedLenAt_run {c : Bytes} {p : ℕ} (base : ℕ)
    (h : pread c (base + 4) 4 = u32 1) :
    tpbRafL1HdrSerializedLenAt base ⟨c, p⟩ = .ok 2664 ⟨c, base + 4 + 4⟩ := by
  refine bind_then (fseek_run rfl) ?_
  exact bind_then (readU32_run h) rfl

end TPBench
