import Mathlib.Data.List.Forall2
import TPBench.Task.Select

/-!
# Records Made of Blocks

The payload of a record is a sequence of blocks, one for each header. The reader is handed
the payload as a whole, and `tpb_raf_header_data_ptr` finds the block of a header by adding
up the sizes in front of it. `PointsTo` says what a caller relies on, and
`pointsTo_of_blocks` that a record whose headers have the sizes of its blocks provides it.
-/

open CFile

namespace TPBench

/-- The headers have the sizes of the blocks. -/
def SizesOf (hs : List MetaHeader) (bs : List Bytes) : Prop :=
  hs.map (fun h => h.dataSize.toNat) = bs.map List.length

/-- The pointer for header `i` leads to a block, and the size that comes with it is that of the
block. -/
def PointsTo {α : Type} (v : RecordView α) (i : ℕ) (b : Bytes) : Prop :=
  ∃ ptr n, tpbRafHeaderDataPtr v.headers (if v.datasize = 0 then none else some v.data) v.datasize
      i = .ok (some ptr, n) ∧ n.toNat = b.length ∧ ptr.take b.length = b

section Blocks

variable {α : Type} {v : RecordView α} {hs : List MetaHeader} {bs : List Bytes} {i : ℕ} {b : Bytes}

/-- Headers and blocks behind others. -/
theorem SizesOf.append {hs' : List MetaHeader} {bs' : List Bytes} (h : SizesOf hs bs)
    (h' : SizesOf hs' bs') : SizesOf (hs ++ hs') (bs ++ bs') := by
  rw [SizesOf, List.map_append, List.map_append, h, h']

/-- The headers claim the bytes of the blocks. -/
theorem SizesOf.claimed_eq (h : SizesOf hs bs) : claimed hs = bs.flatten.length := by
  rw [claimed, h, List.length_flatten]

/-- So do those in front of a header. -/
theorem SizesOf.claimed_take (h : SizesOf hs bs) (i : ℕ) :
    claimed (hs.take i) = (bs.take i).flatten.length := by
  refine SizesOf.claimed_eq ?_
  rw [SizesOf, List.map_take, List.map_take, h]

/-- Each header has a block. -/
theorem SizesOf.length_eq (h : SizesOf hs bs) : hs.length = bs.length := by
  have hlen := congrArg List.length h
  rwa [List.length_map, List.length_map] at hlen

/-- A block lies behind those in front of it. -/
theorem drop_flatten_take (bs : List Bytes) (i : ℕ) :
    bs.flatten.drop (bs.take i).flatten.length = (bs.drop i).flatten := by
  have hsplit : bs.flatten = (bs.take i).flatten ++ (bs.drop i).flatten := by
    rw [← List.flatten_append, List.take_append_drop]
  rw [hsplit, List.drop_left]

/-- **The blocks are found.** -/
theorem pointsTo_of_blocks (hsizes : SizesOf v.headers bs) (hdata : v.data = bs.flatten)
    (hlen : v.datasize.toNat = v.data.length) (hne : v.data ≠ []) (hb : bs[i]? = some b) :
    PointsTo v i b := by
  obtain ⟨hi, rfl⟩ := List.getElem?_eq_some_iff.mp hb
  have hi' : i < v.headers.length := by rwa [hsizes.length_eq]
  have hget : v.headers[i]? = some v.headers[i] := List.getElem?_eq_getElem hi'
  have hsize : v.headers[i].dataSize.toNat = bs[i].length := by
    have hmap := congrArg (·[i]?) hsizes
    simpa [hi, hi'] using hmap
  have hlt := v.datasize.toNat_lt
  -- the blocks in front of this one, this one, and those behind it
  have hsplit : bs.flatten.length = (bs.take i).flatten.length + (bs[i].length +
      (bs.drop (i + 1)).flatten.length) := by
    conv_lhs => rw [← List.take_append_drop i bs, List.drop_eq_getElem_cons hi]
    simp only [List.flatten_append, List.flatten_cons, List.length_append]
  rw [hdata] at hlen
  have hoff : ((v.headers.take i).map MetaHeader.dataSize).sum.toNat =
      (bs.take i).flatten.length := by
    rw [toNat_sum_dataSize (by rw [hsizes.claimed_take]; omega), hsizes.claimed_take]
  have hpos : v.datasize ≠ 0 := by
    rintro hzero
    rw [hzero, UInt64.toNat_zero] at hlen
    exact hne (hdata.trans (List.length_eq_zero_iff.mp hlen.symm))
  refine ⟨bs.flatten.drop (bs.take i).flatten.length, v.headers[i].dataSize, ?_, hsize, ?_⟩
  · rw [tpbRafHeaderDataPtr, hget, if_neg hpos]
    have hle : ¬(((v.headers.take i).map MetaHeader.dataSize).sum > v.datasize ∨
        v.headers[i].dataSize >
          v.datasize - ((v.headers.take i).map MetaHeader.dataSize).sum) := by
      rw [not_or, gt_iff_lt, gt_iff_lt, UInt64.not_lt, UInt64.not_lt, UInt64.le_iff_toNat_le,
        hoff, hlen]
      refine ⟨by omega, ?_⟩
      rw [UInt64.le_iff_toNat_le, UInt64.toNat_sub_of_le _ _ (by
        rw [UInt64.le_iff_toNat_le, hoff, hlen]; omega), hoff, hlen, hsize]
      omega
    simp only [if_neg hle, reduceCtorEq, false_and, if_false, Option.map_some, hoff, hdata]
  · rw [drop_flatten_take, List.drop_eq_getElem_cons hi, List.flatten_cons, List.take_left]

end Blocks

end TPBench
