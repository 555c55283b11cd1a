import Mathlib.Data.List.Dedup
import TPBench.Raf.RtenvDerive

/-!
# The Children of an Environment, One Call After the Other

`tpb_raf_record_append_rtenv_derive` is called once for each child. This module follows a
sequence of calls on one parent: the list in the `DeriveTo` header grows by the children
that are new, in the order in which they first appear, and everything else of the record
stays where it was, whatever stands in front of the list or behind it.

`DeriveList hs data ids` says where the list lies. It asks less than `DeriveHolds`: headers
behind the list may claim what they like. Only a record without the list has to be filled
by its headers, since the new list is found behind everything they claim.

## Main results

* `rtenv_children_appended`: the list, the attributes and the other headers after any
  sequence of calls.
* `rtenv_children_misplaced`: without the condition on a record that has no list yet, the
  child is written where no reader looks for it.
-/

open CFile

namespace TPBench

/-! ### What a header holds -/

/-- The payload bytes of a header: they begin behind everything the headers in front of it
claim. -/
def headerPayload (hs : List MetaHeader) (data : Bytes) (i : ℕ) : Bytes :=
  pread data (claimed (hs.take i)) ((hs[i]?.map fun h => h.dataSize.toNat).getD 0)

/-- The `DeriveTo` header, if there is one, has one dimension and a size that fits it, and
lies in the payload; without one, the headers claim the whole payload. Its index, or the
index of one that is added, can be returned as an `int`. -/
def DerivePlaced (hs : List MetaHeader) (data : Bytes) : Prop :=
  match hs.findIdx? isDerive with
  | none => hs.length ≤ intMax ∧ claimed hs = data.length
  | some i => i ≤ intMax ∧ ∀ h, hs[i]? = some h → h.ndim = 1 ∧
      h.dataSize.toNat = 4 * h.dim0.toNat ∧ claimed (hs.take i) + h.dataSize.toNat ≤ data.length

/-- Headers and payload in which a reader finds the list `ids`, a missing header holding
none. -/
inductive DeriveList : List MetaHeader → Bytes → List Int32 → Prop
  | none {hs : List MetaHeader} {data : Bytes} : (∀ h ∈ hs, isDerive h = false) →
      hs.length ≤ intMax → claimed hs = data.length → DeriveList hs data []
  | some {pre post : List MetaHeader} {h : MetaHeader} {a b : Bytes} {ids : List Int32} :
      (∀ g ∈ pre, isDerive g = false) → isDerive h = true → pre.length ≤ intMax →
      h.ndim = 1 → h.dim0.toNat = ids.length → h.dataSize.toNat = 4 * ids.length →
      claimed pre = a.length → DeriveList (pre ++ h :: post) (a ++ i32s ids ++ b) ids

/-- Two headers that differ in their sizes only. -/
def SameTexts (h h' : MetaHeader) : Prop :=
  h' = { h with dataSize := h'.dataSize, dimsizes := h'.dimsizes }

/-- What a call keeps of headers and payload: every header but the list, with its payload;
the place and the texts of the list; and the number of headers, unless the list is new and
the last one. -/
structure Kept (hs : List MetaHeader) (data : Bytes) (hs' : List MetaHeader) (data' : Bytes) :
    Prop where
  others : ∀ i h, hs[i]? = some h → sfFindDeriveHeader hs ≠ some i →
    hs'[i]? = some h ∧ headerPayload hs' data' i = headerPayload hs data i
  found : ∀ i, sfFindDeriveHeader hs = some i → sfFindDeriveHeader hs' = some i ∧
    hs'.length = hs.length ∧ ∃ h h', hs[i]? = some h ∧ hs'[i]? = some h' ∧ SameTexts h h'
  created : sfFindDeriveHeader hs = none → hs' = hs ∨
    hs'.length = hs.length + 1 ∧ sfFindDeriveHeader hs' = some hs.length

theorem SameTexts.trans {h h' h'' : MetaHeader} (h₁ : SameTexts h h') (h₂ : SameTexts h' h'') :
    SameTexts h h'' := by
  unfold SameTexts at *
  rw [h₂, h₁]

theorem lt_length_of_getElem?_eq_some {α : Type} {l : List α} {i : ℕ} {a : α}
    (h : l[i]? = some a) : i < l.length :=
  (List.getElem?_eq_some_iff.mp h).1

namespace Kept

variable {hs hs' hs'' : List MetaHeader} {data data' data'' : Bytes}

theorem refl (hs : List MetaHeader) (data : Bytes) : Kept hs data hs data where
  others _ _ hi _ := ⟨hi, rfl⟩
  found i hi := by
    refine ⟨hi, rfl, ?_⟩
    obtain ⟨hfind, -⟩ := Option.filter_eq_some_iff.mp hi
    obtain ⟨hlt, -⟩ := List.findIdx?_eq_some_iff_getElem.mp hfind
    exact ⟨hs[i], hs[i], List.getElem?_eq_getElem hlt, List.getElem?_eq_getElem hlt, rfl⟩
  created _ := .inl rfl

/-- A header that is not the list is not the list after the call either. -/
theorem not_found (h : Kept hs data hs' data') {i : ℕ} (hlt : i < hs.length)
    (hi : sfFindDeriveHeader hs ≠ some i) : sfFindDeriveHeader hs' ≠ some i := by
  rcases hfind : sfFindDeriveHeader hs with - | j
  · rcases h.created hfind with heq | ⟨-, hnew⟩
    · rw [heq, hfind]
      simp
    · rw [hnew]
      intro heq
      cases heq
      omega
  · obtain ⟨hfind', -⟩ := h.found j hfind
    rw [hfind', ← hfind]
    exact hi

theorem trans (h₁ : Kept hs data hs' data') (h₂ : Kept hs' data' hs'' data'') :
    Kept hs data hs'' data'' where
  others i h hi hne := by
    obtain ⟨hi', hpay⟩ := h₁.others i h hi hne
    have hne' := h₁.not_found (lt_length_of_getElem?_eq_some hi) hne
    obtain ⟨hi'', hpay'⟩ := h₂.others i h hi' hne'
    exact ⟨hi'', hpay'.trans hpay⟩
  found i hi := by
    obtain ⟨hi', hlen, h, h', hget, hget', hsame⟩ := h₁.found i hi
    obtain ⟨hi'', hlen', g, g', hgetg, hgetg', hsame'⟩ := h₂.found i hi'
    obtain rfl : h' = g := Option.some.inj (hget'.symm.trans hgetg)
    exact ⟨hi'', hlen'.trans hlen, h, g', hget, hgetg', hsame.trans hsame'⟩
  created hnone := by
    rcases h₁.created hnone with rfl | ⟨hlen, hnew⟩
    · exact h₂.created hnone
    · obtain ⟨hnew', hlen', -⟩ := h₂.found _ hnew
      exact .inr ⟨hlen'.trans hlen, hnew'⟩

end Kept

/-! ### The parts of a payload -/

section Parts

variable {hs pre post : List MetaHeader} {h h' : MetaHeader} {data a b x y : Bytes} {i : ℕ}

/-- A header ends within what the headers claim. -/
theorem claimed_take_add_le (hi : hs[i]? = some h) :
    claimed (hs.take i) + h.dataSize.toNat ≤ claimed hs := by
  have hlt := lt_length_of_getElem?_eq_some hi
  have hget : hs[i] = h := by
    rw [List.getElem?_eq_getElem hlt] at hi
    exact Option.some.inj hi
  have hsplit : claimed hs = claimed (hs.take i) + claimed (hs.drop i) := by
    rw [← claimed_append, List.take_append_drop]
  rw [hsplit, List.drop_eq_getElem_cons hlt, claimed_cons, hget]
  omega

/-- The payload of a header in front of which nothing changes. -/
theorem headerPayload_front (hi : pre[i]? = some h) (hpre : claimed pre = a.length) :
    headerPayload (pre ++ post) (a ++ x) i = pread a (claimed (pre.take i)) h.dataSize.toNat := by
  have hlt := lt_length_of_getElem?_eq_some hi
  have hfits := claimed_take_add_le hi
  rw [headerPayload, List.take_append_of_le_length hlt.le, List.getElem?_append_left hlt, hi,
    Option.map_some, Option.getD_some]
  exact pread_append_left (by omega)

/-- The payload of a header behind one whose bytes are `x`. -/
theorem headerPayload_behind (k : ℕ) (hpre : claimed pre = a.length)
    (hsize : h.dataSize.toNat = x.length) :
    headerPayload (pre ++ h :: post) (a ++ x ++ b) (pre.length + 1 + k) =
      pread b (claimed (post.take k)) ((post[k]?.map fun g => g.dataSize.toNat).getD 0) := by
  have hsub : pre.length + 1 + k - pre.length = k + 1 := by omega
  have htake : (pre ++ h :: post).take (pre.length + 1 + k) = pre ++ h :: post.take k := by
    rw [List.take_append, List.take_of_length_le (by omega), hsub, List.take_succ_cons]
  have hget : (pre ++ h :: post)[pre.length + 1 + k]? = post[k]? := by
    rw [List.getElem?_append_right (by omega), hsub, List.getElem?_cons_succ]
  have hoff : claimed (pre ++ h :: post.take k) = (a ++ x).length + claimed (post.take k) := by
    rw [claimed_append, claimed_cons, hpre, hsize, List.length_append, Nat.add_assoc]
  rw [headerPayload, htake, hget, hoff, pread_append_right (Nat.le_add_right _ _),
    Nat.add_sub_cancel_left]

/-- A block in the middle of the payload is replaced together with the size of its header:
every other header keeps its payload. -/
theorem headerPayload_replaced (hpre : claimed pre = a.length)
    (hx : h.dataSize.toNat = x.length) (hy : h'.dataSize.toNat = y.length) {g : MetaHeader}
    (hi : (pre ++ h :: post)[i]? = some g) (hne : i ≠ pre.length) :
    (pre ++ h' :: post)[i]? = some g ∧
      headerPayload (pre ++ h' :: post) (a ++ y ++ b) i =
        headerPayload (pre ++ h :: post) (a ++ x ++ b) i := by
  rcases Nat.lt_or_ge i pre.length with hlt | hge
  · rw [List.getElem?_append_left hlt] at hi
    refine ⟨by rw [List.getElem?_append_left hlt, hi], ?_⟩
    rw [List.append_assoc, List.append_assoc, headerPayload_front hi hpre,
      headerPayload_front hi hpre]
  · obtain ⟨k, rfl⟩ : ∃ k, i = pre.length + 1 + k := ⟨i - pre.length - 1, by omega⟩
    have hsub : pre.length + 1 + k - pre.length = k + 1 := by omega
    rw [List.getElem?_append_right (by omega), hsub, List.getElem?_cons_succ] at hi
    refine ⟨?_, ?_⟩
    · rw [List.getElem?_append_right (by omega), hsub, List.getElem?_cons_succ, hi]
    · rw [headerPayload_behind k hpre hy, headerPayload_behind k hpre hx]

end Parts

/-! ### Normal headers -/

/-- A header as a reader stores it. -/
def Normal (h : MetaHeader) : Prop := h.norm = h

/-- Filling the slots again with what was filled into them changes nothing. -/
theorem fillVec_take_fillVec {α : Type} (d : α) (n k : ℕ) (v : List.Vector α n) :
    fillVec d n ((fillVec d n (v.toList.take k)).toList.take k) =
      fillVec d n (v.toList.take k) := by
  have hlen : (v.toList.take k).length = min k n := by
    rw [List.length_take, v.toList_length]
  have hwhole : (v.toList.take k).take n = v.toList.take k :=
    List.take_of_length_le (hlen.le.trans (min_le_right k n))
  have htake : ((v.toList.take k).take n ++ List.replicate (n - (v.toList.take k).length) d).take k
      = v.toList.take k := by
    rw [hwhole]
    rcases Nat.le_total k n with hk | hk
    · have hfull : (v.toList.take k).length = k := hlen.trans (min_eq_left hk)
      exact List.take_left' hfull
    · have hfull : v.toList.take k = v.toList :=
        List.take_of_length_le (by rw [v.toList_length]; exact hk)
      rw [hfull, v.toList_length, Nat.sub_self, List.replicate_zero, List.append_nil, hfull]
  rw [toList_fillVec, htake]

theorem MetaHeader.normal_norm (h : MetaHeader) : Normal h.norm := by
  simp only [Normal, MetaHeader.norm, fillVec_take_fillVec]

/-- Setting a size that is in use keeps a header normal. -/
theorem Normal.setDim0 {h : MetaHeader} (hn : Normal h) (hndim : h.ndim = 1) (v : UInt64) :
    Normal (h.setDim0 v) := by
  have hone : h.ndim.toNat = 1 := by rw [hndim]; rfl
  have hdims : h.dimsizes = fillVec 0 ndimMax (h.dimsizes.toList.take 1) := by
    have heq := congrArg MetaHeader.dimsizes hn
    simp only [MetaHeader.norm, hone] at heq
    exact heq.symm
  have hset : fillVec 0 ndimMax ((h.dimsizes.set 0 v).toList.take 1) = h.dimsizes.set 0 v := by
    apply List.Vector.toList_injective
    rw [toList_fillVec, List.Vector.toList_set]
    conv_rhs => rw [hdims]
    rcases hl : h.dimsizes.toList with - | ⟨d, ds⟩
    · have hzero := congrArg List.length hl
      simp at hzero
    · simp [toList_fillVec]
  unfold Normal at hn ⊢
  have hb := congrArg MetaHeader.blockSize hn
  have hd := congrArg MetaHeader.dimnames hn
  simp only [MetaHeader.norm, MetaHeader.setDim0, hone] at hb hd ⊢
  rw [hset, hd, ← hb]

/-- A header with one more ID stays normal. -/
theorem Normal.oneMore {h : MetaHeader} (hn : Normal h) (hndim : h.ndim = 1) :
    Normal h.oneMore := by
  have hsized : Normal { h with dataSize := (h.dim0 + 1) * 4 } := by
    unfold Normal at hn ⊢
    have hb := congrArg MetaHeader.blockSize hn
    have hd := congrArg MetaHeader.dimsizes hn
    have hm := congrArg MetaHeader.dimnames hn
    simp only [MetaHeader.norm] at hb hd hm ⊢
    rw [hd, hm, hb]
  exact hsized.setDim0 hndim _

theorem fillVec_take_replicate {α : Type} (d : α) (n k : ℕ) :
    fillVec d n ((List.Vector.replicate n d).toList.take k) = List.Vector.replicate n d := by
  apply List.Vector.toList_injective
  have hreplicate : (List.Vector.replicate n d).toList = List.replicate n d := rfl
  rw [toList_fillVec, hreplicate, List.take_replicate, List.take_replicate, List.length_replicate,
    ← List.replicate_add]
  congr 1
  omega

theorem normal_deriveHeader : Normal deriveHeader := by
  refine Normal.setDim0 ?_ rfl 1
  simp only [Normal, MetaHeader.norm, linkHeader, MetaHeader.zero, fillVec_take_replicate]

/-! ### One call, in memory -/

section Update

variable {v : RecordView RtenvAttr} {ids : List Int32} {childId : Int32}
  {hs pre post : List MetaHeader} {h : MetaHeader} {data a b : Bytes}

/-- The IDs at a position are as many as asked for. -/
theorem length_idsAt (data : Bytes) (pos n : ℕ) : (idsAt data pos n).length = n := by
  induction n generalizing pos with
  | zero => rfl
  | succ n ih => simp [idsAt, ih]

/-- A block of four bytes for each ID is the block of the IDs that are read from it. -/
theorem i32s_idsAt {n : ℕ} : ∀ {pos : ℕ}, pos + 4 * n ≤ data.length →
    i32s (idsAt data pos n) = pread data pos (4 * n) := by
  induction n with
  | zero => simp [idsAt, i32s, pread]
  | succ n ih =>
      intro pos hfits
      have hfour : (pread data pos 4).length = 4 := by
        simp only [pread, List.length_take, List.length_drop]
        omega
      have hsplit : pread data pos (4 * (n + 1)) =
          pread data pos 4 ++ pread data (pos + 4) (4 * n) := by
        simp only [pread]
        rw [show 4 * (n + 1) = 4 + 4 * n by ring, List.take_add, List.drop_drop]
      have hhead : i32 (getI32 (pread data pos 4)) = pread data pos 4 := i32_getI32 hfour
      rw [idsAt, hsplit, ← ih (by omega)]
      simp only [i32s, List.flatMap_cons, hhead]

/-- A list lies where the place of its header says. -/
theorem DerivePlaced.deriveList (hplaced : DerivePlaced hs data) (hdata : data.length < 2 ^ 64) :
    DeriveList hs data (deriveIds hs data) := by
  unfold DerivePlaced at hplaced
  rcases hfind : hs.findIdx? isDerive with - | i
  · rw [hfind] at hplaced
    have hnone : ∀ h ∈ hs, isDerive h = false := List.findIdx?_eq_none_iff.mp hfind
    rw [deriveIds, sfFindDeriveHeader_none hnone]
    exact .none hnone hplaced.1 hplaced.2
  · rw [hfind] at hplaced
    obtain ⟨hmax, hplaced⟩ := hplaced
    obtain ⟨hlt, hderive, hpre⟩ := List.findIdx?_eq_some_iff_getElem.mp hfind
    obtain ⟨hndim, hsize, hfits⟩ := hplaced hs[i] (List.getElem?_eq_getElem hlt)
    set h := hs[i] with hh
    set off := claimed (hs.take i) with hoff
    have hsplit : hs = hs.take i ++ h :: hs.drop (i + 1) := by
      rw [hh, ← List.drop_eq_getElem_cons hlt, List.take_append_drop]
    have hlen : (hs.take i).length = i := by
      rw [List.length_take]
      omega
    have hnone : ∀ g ∈ hs.take i, isDerive g = false := by
      intro g hg
      obtain ⟨j, hj, rfl⟩ := List.mem_iff_getElem.mp hg
      rw [List.getElem_take]
      exact Bool.eq_false_iff.mpr (hpre j (by omega))
    have hdataSplit : data = data.take off ++ i32s (idsAt data off h.dim0.toNat) ++
        data.drop (off + h.dataSize.toNat) := by
      rw [i32s_idsAt (by omega), ← hsize, pread, List.append_assoc, ← List.drop_drop,
        List.take_append_drop, List.take_append_drop]
    have hlist : DeriveList (hs.take i ++ h :: hs.drop (i + 1)) (data.take off ++
        i32s (idsAt data off h.dim0.toNat) ++ data.drop (off + h.dataSize.toNat))
        (idsAt data off h.dim0.toNat) := by
      refine .some hnone hderive (by omega) hndim (length_idsAt _ _ _).symm ?_ ?_
      · rw [length_idsAt, hsize]
      · rw [List.length_take]
        omega
    rw [← hsplit, ← hdataSplit] at hlist
    have hids : deriveIds hs data = idsAt data off h.dim0.toNat := by
      have hfound : sfFindDeriveHeader (hs.take i ++ h :: hs.drop (i + 1)) =
          some (hs.take i).length := sfFindDeriveHeader_append hnone hderive (by omega)
      have hpos : (sfHeaderDataOffset (hs.take i ++ h :: hs.drop (i + 1))
          (hs.take i).length).toNat = claimed (hs.take i) :=
        sfHeaderDataOffset_append (by omega)
      rw [← hsplit, hlen] at hfound hpos
      simp only [deriveIds, hfound, hpos, List.getElem?_eq_getElem hlt, Option.map_some,
        Option.getD_some]
      rfl
    rw [hids]
    exact hlist

/-- The list a reader finds. -/
theorem DeriveList.deriveIds_eq (hlist : DeriveList hs data ids) (hdata : data.length < 2 ^ 64) :
    deriveIds hs data = ids := by
  cases hlist with
  | none hnone => rw [deriveIds, sfFindDeriveHeader_none hnone]
  | some hpre hh hlen _ hdim _ hclaimed => exact deriveIds_append hpre hh hlen hdim hclaimed hdata

/-- A child that is listed needs no writing. -/
theorem DeriveList.update_listed (hlist : DeriveList v.headers v.data ids)
    (hdata : v.data.length < 2 ^ 64) (hchild : childId ∈ ids) :
    deriveUpdate v childId = .patchOnly := by
  obtain ⟨attr, headers, datasize, data⟩ := v
  dsimp only at hlist hdata
  cases hlist with
  | none => cases hchild
  | some hpre hh hlen _ hdim _ hclaimed =>
      exact deriveUpdate_append hpre hh hlen hdim hclaimed hdata hchild

/-- The new list in place of the old one. -/
theorem Kept.replaced {h' : MetaHeader} {x y : Bytes} (hpre : ∀ g ∈ pre, isDerive g = false)
    (hh : isDerive h = true) (hh' : isDerive h' = true) (hlen : pre.length ≤ intMax)
    (hclaimed : claimed pre = a.length) (hx : h.dataSize.toNat = x.length)
    (hy : h'.dataSize.toNat = y.length) (hsame : SameTexts h h') :
    Kept (pre ++ h :: post) (a ++ x ++ b) (pre ++ h' :: post) (a ++ y ++ b) where
  others i g hi hne := by
    rw [sfFindDeriveHeader_append hpre hh hlen] at hne
    exact headerPayload_replaced hclaimed hx hy hi fun heq => hne (by rw [heq])
  found i hi := by
    rw [sfFindDeriveHeader_append hpre hh hlen] at hi
    cases hi
    refine ⟨sfFindDeriveHeader_append hpre hh' hlen, by simp, h, h', ?_, ?_, hsame⟩
    · simp
    · simp
  created hnone := by
    rw [sfFindDeriveHeader_append hpre hh hlen] at hnone
    cases hnone

/-- A new list behind everything the headers claim. -/
theorem Kept.added {y : Bytes} (hnone : ∀ g ∈ hs, isDerive g = false) (hh : isDerive h = true)
    (hlen : hs.length ≤ intMax) (hclaimed : claimed hs = data.length) :
    Kept hs data (hs ++ [h]) (data ++ y) where
  others i g hi _ := by
    have hlt := lt_length_of_getElem?_eq_some hi
    have hfits := claimed_take_add_le hi
    refine ⟨by rw [List.getElem?_append_left hlt, hi], ?_⟩
    rw [headerPayload_front hi hclaimed, headerPayload, hi, Option.map_some, Option.getD_some]
  found i hi := by
    rw [sfFindDeriveHeader_none hnone] at hi
    cases hi
  created _ := .inr ⟨by simp, sfFindDeriveHeader_append hnone hh hlen⟩

/-- The payload of a list is filled with its children. -/
theorem payloadFilled_of_list {pre post : List MetaHeader} {h : MetaHeader} {a b : Bytes}
    {ids : List Int32} (hsize : h.dataSize.toNat = 4 * ids.length)
    (hclaimed : claimed pre = a.length) (hdata : (a ++ i32s ids ++ b).length < 2 ^ 64) :
    PayloadFilled (a ++ i32s ids ++ b) (sfHeaderDataOffset (pre ++ h :: post) pre.length)
      h.dataSize ids.length := by
  simp only [List.length_append, length_i32s] at hdata
  have hpos : (sfHeaderDataOffset (pre ++ h :: post) pre.length).toNat = claimed pre :=
    sfHeaderDataOffset_append (by omega)
  have hsum : (sfHeaderDataOffset (pre ++ h :: post) pre.length + h.dataSize).toNat =
      a.length + 4 * ids.length := by
    rw [UInt64.toNat_add, hpos, hclaimed, hsize]
    omega
  have hall : (UInt64.ofNat (a ++ i32s ids ++ b).length).toNat =
      a.length + 4 * ids.length + b.length := by
    rw [UInt64.toNat_ofNat', List.length_append, List.length_append, length_i32s]
    omega
  unfold PayloadFilled
  split
  · refine ⟨?_, hsize⟩
    rw [hpos]
    omega
  · rename_i hend
    rw [UInt64.lt_iff_toNat_lt, hsum, hall] at hend
    rw [hpos, List.length_append, List.length_append, length_i32s]
    omega

/-- A child that is not listed is added to the end of the list, where the new sizes have a
number. -/
theorem DeriveList.update_fresh (hlist : DeriveList v.headers v.data ids)
    (hdata : v.data.length < 2 ^ 64) (hnormal : ∀ g ∈ v.headers, Normal g)
    (hchild : childId ∉ ids) :
    (deriveUpdate v childId = .undefined ∧
      ((sfFindDeriveHeader v.headers = Option.none → v.attr.nheader.toNat + 1 < 2 ^ 32) →
        ¬v.data.length + 4 < 2 ^ 64)) ∨
    ∃ n hs data, deriveUpdate v childId = .rewrite (v.attr.withChild childId n) hs data ∧
      DeriveList hs data (ids ++ [childId]) ∧ Kept v.headers v.data hs data ∧
      (∀ g ∈ hs, Normal g) ∧ data.length = v.data.length + 4 ∧
      (n = v.attr.nheader ∨ sfFindDeriveHeader v.headers = Option.none) := by
  obtain ⟨attr, headers, datasize, data⟩ := v
  dsimp only at hlist hdata hnormal ⊢
  cases hlist with
  | none hnone hlen hclaimed =>
      simp only [deriveUpdate, sfFindDeriveHeader_none hnone]
      split
      · have hsplit : data ++ i32 childId = data ++ i32s [childId] ++ [] := by simp [i32s]
        refine .inr ⟨_, _, _, rfl, ?_, ?_, ?_, ?_, .inr trivial⟩
        · rw [hsplit]
          exact .some hnone (by decide) hlen rfl rfl rfl hclaimed
        · exact .added hnone (by decide) hlen hclaimed
        · intro g hg
          rcases List.mem_append.mp hg with hg | hg
          · exact hnormal g hg
          · rw [List.mem_singleton.mp hg]
            exact normal_deriveHeader
        · simp
      · rename_i hroom
        exact .inl ⟨rfl, fun hheader hdata' => hroom ⟨hheader trivial, hdata'⟩⟩
  | @some pre post h a b ids hpre hh hlen hndim hdim hsize hclaimed =>
      have hoff := claimed_lt hclaimed hdata
      have hfilled : PayloadFilled (a ++ i32s ids ++ b) (sfHeaderDataOffset (pre ++ h :: post)
          pre.length) h.dataSize ids.length := payloadFilled_of_list hsize hclaimed hdata
      have hdimNat : h.dim0.toNat = ids.length := hdim
      simp only [deriveUpdate, sfFindDeriveHeader_append hpre hh hlen,
        List.getElem?_append_right le_rfl, Nat.sub_self, List.getElem?_cons_zero, hdim]
      rw [sfHeaderDataOffset_append hoff, hclaimed, childListed_i32s]
      simp only [hchild, decide_false, hfilled, true_and]
      split
      · rename_i hfits
        have hroom : (i32s ids).length + 4 < 2 ^ 64 := by
          simp only [List.length_append] at hfits
          omega
        obtain ⟨hdim', hsize'⟩ := @oneMore_sizes h ids childId hdim hroom
        have hsplit : (a ++ i32s ids ++ b).take (a.length + 4 * ids.length) ++ i32 childId ++
            (a ++ i32s ids ++ b).drop (a.length + 4 * ids.length) =
            a ++ i32s (ids ++ [childId]) ++ b := by
          have hlen' : (a ++ i32s ids).length = a.length + 4 * ids.length := by simp
          rw [List.take_left' hlen', List.drop_left' hlen']
          simp [i32s]
        rw [hsplit, List.set_append_right _ _ le_rfl, Nat.sub_self, List.set_cons_zero]
        refine .inr ⟨_, _, _, rfl, ?_, ?_, ?_, ?_, .inl rfl⟩
        · exact .some hpre hh hlen hndim hdim' hsize' hclaimed
        · refine .replaced hpre hh hh hlen hclaimed ?_ ?_ rfl
          · rw [hsize, length_i32s]
          · rw [length_i32s]
            exact hsize'
        · intro g hg
          rcases List.mem_append.mp hg with hg | hg
          · exact hnormal g (List.mem_append_left _ hg)
          · rcases List.mem_cons.mp hg with rfl | hg
            · exact (hnormal h (by simp)).oneMore hndim
            · exact hnormal g (List.mem_append_right _ (List.mem_cons_of_mem _ hg))
        · simp only [List.length_append, length_i32s, List.length_singleton]
          omega
      · rename_i hroom
        exact .inl ⟨rfl, fun _ => hroom⟩

end Update

/-! ### One call -/

section Call

variable {ws ws' : Workspace} {r : Record rtenvFormat} {ids : List Int32} {childId : Int32}

/-- The record of a parent with a list of children. -/
structure Parent (ws : Workspace) (r : Record rtenvFormat) (ids : List Int32) : Prop where
  file : ws.files (.rtenv r.attr.id) = some r.bytes
  list : DeriveList r.view.headers r.view.data ids

/-- The headers of a record are in the form in which a reader stores them. -/
theorem Record.normal_headers (r : Record rtenvFormat) : ∀ g ∈ r.view.headers, Normal g := by
  intro g hg
  obtain ⟨g₀, -, rfl⟩ := List.mem_map.mp hg
  exact g₀.normal_norm

theorem map_norm_of_normal {hs : List MetaHeader} (h : ∀ g ∈ hs, Normal g) :
    hs.map MetaHeader.norm = hs := by
  conv_rhs => rw [← List.map_id hs]
  exact List.map_congr_left h

/-- What one call leaves in the record of the parent. -/
structure Registered (r : Record rtenvFormat) (childId : Int32) (ids : List Int32)
    (r' : Record rtenvFormat) : Prop where
  attr : r'.attr = r.attr.withChild childId r'.attr.nheader
  list : DeriveList r'.view.headers r'.view.data (if childId ∈ ids then ids else ids ++ [childId])
  size : r'.data.length ≤ r.data.length + 4
  kept : Kept r.view.headers r.view.data r'.view.headers r'.view.data

/-- The two patches behind the writing make the child the latest one. -/
theorem patches_derive {r₁ : Record rtenvFormat}
    (hfile : ws.files (.rtenv r₁.attr.id) = some r₁.bytes)
    (hok : (do
      propagate .rafL3Rtenv (sfPatchTpbeDeriveTo r₁.attr.id childId)
      propagate .rafL3Rtenv (sfPatchTpbrDeriveTo r₁.attr.id childId) : WsM Unit) ws = .ok () ws') :
    ws'.files (.rtenv r₁.attr.id) =
      some (r₁.withAttr (r₁.attr.withDeriveTo childId) rfl).bytes := by
  obtain ⟨⟨⟩, ws₂, htpbe, htpbr⟩ := bind_eq_ok.mp hok
  rw [propagate_eq_ok] at htpbe htpbr
  obtain ⟨f, s, -, -, rfl⟩ := fopenUpdate_eq_ok htpbe
  have hfile' : (ws.set (.entry .rtenv) s.content).files (.rtenv r₁.attr.id) = some r₁.bytes := by
    rw [Workspace.set_files_of_ne _ _ (by simp), hfile]
  rw [sfPatchTpbrDeriveTo_run hfile'] at htpbr
  cases htpbr
  exact Workspace.set_files_same _ _ _

/-- **One call that succeeds.** -/
theorem Parent.call (hparent : Parent ws r ids)
    (hok : tpbRafRecordAppendRtenvDerive r.attr.id childId ws = .ok () ws') :
    ∃ r', Registered r childId ids r' ∧
      Parent ws' r' (if childId ∈ ids then ids else ids ++ [childId]) ∧ r'.attr.id = r.attr.id := by
  obtain ⟨v, ws₁, hread, hok⟩ := bind_eq_ok.mp hok
  rw [propagate_eq_ok, tpbRafRecordReadRtenv, recordRead_of_bytes hparent.file] at hread
  cases hread
  obtain ⟨⟨⟩, ws₂, hwrite, hok⟩ := bind_eq_ok.mp hok
  by_cases hchild : childId ∈ ids
  · -- the record is not written, only patched
    rw [hparent.list.update_listed r.data_lt hchild] at hwrite
    cases hwrite
    have hfile := patches_derive hparent.file hok
    rw [if_pos hchild]
    exact ⟨r.withAttr (r.attr.withDeriveTo childId) rfl,
      ⟨rfl, by rw [if_pos hchild]; exact hparent.list, Nat.le_add_right _ _, Kept.refl _ _⟩,
      ⟨hfile, hparent.list⟩, rfl⟩
  · rcases hparent.list.update_fresh r.data_lt r.normal_headers hchild with
      ⟨hundef, -⟩ | ⟨n, hs, data, hup, hlist, hkept, hnormal, hsize, -⟩
    · rw [hundef] at hwrite
      cases hwrite
    · obtain ⟨r₁, hattr, rfl, hbuf, -⟩ := deriveUpdate_record hup
      have hid : r₁.attr.id = r.attr.id := by
        rw [hattr]
        rfl
      have hdata : r₁.data = data := by rw [Record.data, hbuf, Option.getD_some]
      rw [hup, ← hattr, deriveWrite_run hbuf, hid] at hwrite
      cases hwrite
      have hview : r₁.view.headers = r₁.headers := map_norm_of_normal hnormal
      have hviewData : r₁.view.data = data := hdata
      rw [← hid] at hok
      have hfile := patches_derive (Workspace.set_files_same _ _ _) hok
      rw [if_neg hchild]
      refine ⟨r₁.withAttr (r₁.attr.withDeriveTo childId) rfl, ⟨?_, ?_, ?_, ?_⟩, ⟨hfile, ?_⟩, hid⟩
      · change r₁.attr.withDeriveTo childId = r.attr.withChild childId r₁.attr.nheader
        rw [hattr]
        rfl
      · rw [if_neg hchild]
        change DeriveList r₁.view.headers r₁.view.data _
        rw [hview, hviewData]
        exact hlist
      · change r₁.data.length ≤ r.data.length + 4
        rw [hdata]
        exact hsize.le
      · change Kept _ _ r₁.view.headers r₁.view.data
        rw [hview, hviewData]
        exact hkept
      · change DeriveList r₁.view.headers r₁.view.data _
        rw [hview, hviewData]
        exact hlist

end Call

/-! ### A sequence of calls -/

/-- The calls for a list of children, one after the other. -/
def appendChildren (parentId : Int32) : List Int32 → WsM Unit
  | [] => pure ()
  | c :: cs => do
      tpbRafRecordAppendRtenvDerive parentId c
      appendChildren parentId cs

/-- The children that are new to a list, in the order in which they first appear. -/
def newChildren (ids cs : List Int32) : List Int32 := (cs.filter fun c => c ∉ ids).eraseDups

/-- What a reader finds after the calls for the children `cs`, compared with what was there
before them. -/
structure Appended (v : RecordView RtenvAttr) (cs : List Int32) (v' : RecordView RtenvAttr) :
    Prop where
  list : deriveIds v'.headers v'.data =
    deriveIds v.headers v.data ++ newChildren (deriveIds v.headers v.data) cs
  latest : v'.attr = v.attr.withChild (cs.getLastD v.attr.deriveTo) v'.attr.nheader
  kept : Kept v.headers v.data v'.headers v'.data

section Sequence

variable {ws ws' : Workspace} {r : Record rtenvFormat} {ids cs : List Int32} {c : Int32}

/-- A first child that is listed already is not new. -/
theorem newChildren_cons_of_mem (h : c ∈ ids) : newChildren ids (c :: cs) = newChildren ids cs := by
  rw [newChildren, List.filter_cons_of_neg (by simpa using h)]
  rfl

/-- A first child that is new. -/
theorem newChildren_cons_of_not_mem (h : c ∉ ids) :
    newChildren ids (c :: cs) = c :: newChildren (ids ++ [c]) cs := by
  rw [newChildren, List.filter_cons_of_pos (by simpa using h), List.eraseDups_cons,
    List.filter_filter, newChildren]
  congr 2
  apply List.filter_congr
  intro d _
  by_cases hd : d = c <;> simp [hd]

/-- **A sequence of calls that succeed**, by induction on the children: the list of the
record is what the induction carries. -/
theorem Parent.calls (hparent : Parent ws r ids)
    (hok : appendChildren r.attr.id cs ws = .ok () ws') :
    ∃ r' : Record rtenvFormat, ws'.files (.rtenv r.attr.id) = some r'.bytes ∧
      DeriveList r'.view.headers r'.view.data (ids ++ newChildren ids cs) ∧
      r'.attr = r.attr.withChild (cs.getLastD r.attr.deriveTo) r'.attr.nheader ∧
      Kept r.view.headers r.view.data r'.view.headers r'.view.data := by
  induction cs generalizing ws r ids with
  | nil =>
      cases hok
      refine ⟨r, hparent.file, ?_, rfl, Kept.refl _ _⟩
      simpa [newChildren] using hparent.list
  | cons c cs ih =>
      obtain ⟨⟨⟩, ws₁, hcall, hrest⟩ := bind_eq_ok.mp hok
      obtain ⟨r₁, hreg, hparent₁, hid⟩ := hparent.call hcall
      rw [← hid] at hrest
      obtain ⟨r', hfile, hlist, hattr, hkept⟩ := ih hparent₁ hrest
      rw [hid] at hfile
      refine ⟨r', hfile, ?_, ?_, hreg.kept.trans hkept⟩
      · by_cases hc : c ∈ ids
        · rw [if_pos hc] at hlist
          rwa [newChildren_cons_of_mem hc]
        · rw [if_neg hc, List.append_assoc, List.singleton_append] at hlist
          rwa [newChildren_cons_of_not_mem hc]
      · rw [hattr, hreg.attr, List.getLastD_cons]
        rfl

/-- A list with a child has a header. -/
theorem DeriveList.found_of_mem {hs : List MetaHeader} {data : Bytes}
    (hlist : DeriveList hs data ids) (hc : c ∈ ids) :
    sfFindDeriveHeader hs ≠ Option.none := by
  cases hlist with
  | none => cases hc
  | some hpre hh hlen =>
      rw [sfFindDeriveHeader_append hpre hh hlen]
      simp

/-- A call on a parent that has a row, where the new sizes have a number, succeeds. -/
theorem Parent.call_succeeds (hparent : Parent ws r ids) {rows : List RtenvEntry}
    (htable : ws.files (.entry .rtenv) = some (rtenvRow.table rows))
    (hrow : ∃ e ∈ rows, e.id = r.attr.id) (hroom : r.data.length + 4 < 2 ^ 64)
    (hheader : sfFindDeriveHeader r.view.headers = none → r.attr.nheader.toNat + 1 < 2 ^ 32) :
    ∃ ws', tpbRafRecordAppendRtenvDerive r.attr.id c ws = .ok () ws' := by
  have hwrite : ∃ r₁ : Record rtenvFormat, r₁.attr.id = r.attr.id ∧
      deriveWrite (deriveUpdate r.view c) ws = .ok () (ws.set (.rtenv r.attr.id) r₁.bytes) := by
    by_cases hc : c ∈ ids
    · refine ⟨r, rfl, ?_⟩
      rw [hparent.list.update_listed r.data_lt hc, Workspace.set_self hparent.file]
      rfl
    · rcases hparent.list.update_fresh r.data_lt r.normal_headers hc with
        ⟨-, hno⟩ | ⟨n, hs, data, hup, -, -, -, -, -⟩
      · exact absurd hroom (hno hheader)
      · obtain ⟨r₁, hattr, rfl, hbuf, -⟩ := deriveUpdate_record hup
        have hid : r₁.attr.id = r.attr.id := by
          rw [hattr]
          rfl
        refine ⟨r₁, hid, ?_⟩
        rw [hup, ← hattr, deriveWrite_run hbuf, hid]
  obtain ⟨r₁, hid, hwrite⟩ := hwrite
  have hread : propagate .rafL3Rtenv (tpbRafRecordReadRtenv r.attr.id) ws = .ok r.view ws := by
    rw [propagate_eq_ok, tpbRafRecordReadRtenv, recordRead_of_bytes hparent.file]
  have htable₁ : (ws.set (.rtenv r.attr.id) r₁.bytes).files (.entry .rtenv) =
      some (rtenvRow.table rows) := by
    rw [Workspace.set_files_of_ne _ _ (by simp), htable]
  have hfile₁ : ((ws.set (.rtenv r.attr.id) r₁.bytes).set (.entry .rtenv) (rtenvRow.table
      (modifyFirst (·.id = r.attr.id) (RtenvEntry.withDeriveTo c) rows))).files
      (.rtenv r.attr.id) = some r₁.bytes := by
    rw [Workspace.set_files_of_ne _ _ (by simp), Workspace.set_files_same]
  have htpbe : propagate .rafL3Rtenv (sfPatchTpbeDeriveTo r.attr.id c)
      (ws.set (.rtenv r.attr.id) r₁.bytes) = .ok () _ :=
    propagate_eq_ok.mpr (sfPatchTpbeDeriveTo_found htable₁ hrow)
  have htpbr : propagate .rafL3Rtenv (sfPatchTpbrDeriveTo r.attr.id c) _ = .ok () _ :=
    propagate_eq_ok.mpr (sfPatchTpbrDeriveTo_run hfile₁)
  exact ⟨_, bind_then hread (bind_then hwrite (bind_then htpbe htpbr))⟩

/-- **A sequence of calls on a parent with a row succeeds**, where all the new sizes have a
number. After the first call there is a list, so that no header is added any more. -/
theorem Parent.calls_succeed (hparent : Parent ws r ids) {rows : List RtenvEntry}
    (htable : ws.files (.entry .rtenv) = some (rtenvRow.table rows))
    (hrow : ∃ e ∈ rows, e.id = r.attr.id) (hroom : r.data.length + 4 * cs.length < 2 ^ 64)
    (hheader : sfFindDeriveHeader r.view.headers = none → r.attr.nheader.toNat + 1 < 2 ^ 32) :
    ∃ ws', appendChildren r.attr.id cs ws = .ok () ws' := by
  induction cs generalizing ws r ids rows with
  | nil => exact ⟨ws, rfl⟩
  | cons c cs ih =>
      rw [List.length_cons] at hroom
      obtain ⟨ws₁, hcall⟩ := hparent.call_succeeds (c := c) htable hrow (by omega) hheader
      obtain ⟨r₁, hreg, hparent₁, hid⟩ := hparent.call hcall
      obtain ⟨-, r₂, -, hws₁⟩ :=
        tpbRafRecordAppendRtenvDerive_ok hparent.file htable hcall
      have htable₁ : ws₁.files (.entry .rtenv) = some (rtenvRow.table
          (modifyFirst (·.id = r.attr.id) (RtenvEntry.withDeriveTo c) rows)) := by
        rw [hws₁, Workspace.set_files_same]
      have hlisted : c ∈ if c ∈ ids then ids else ids ++ [c] := by
        split
        · assumption
        · simp
      have hfound : sfFindDeriveHeader r₁.view.headers ≠ Option.none :=
        hparent₁.list.found_of_mem hlisted
      have hsize := hreg.size
      rw [← hid] at htable₁ hrow
      obtain ⟨ws', hrest⟩ := ih hparent₁ htable₁
        (exists_row_modifyFirst (f := RtenvEntry.withDeriveTo c) (fun _ hid => hid) hrow) (by omega)
        fun hnone => absurd hnone hfound
      rw [hid] at hrest
      exact ⟨ws', bind_then hcall hrest⟩

end Sequence

/-- **The children of a record, after any sequence of calls.** When the calls succeed, the
record holds the old list and behind it the children that are new; the latest child is the
last one passed; every other header, its payload and every other attribute is what it was.
They do succeed on a parent with a row, where all the new sizes have a number. -/
theorem rtenv_children_appended (r : Record rtenvFormat) (cs : List Int32) (ws : Workspace)
    (hfile : ws.files (.rtenv r.attr.id) = some r.bytes)
    (hplaced : DerivePlaced r.view.headers r.view.data) :
    (∀ ws', appendChildren r.attr.id cs ws = .ok () ws' →
      ∃ v', tpbRafRecordReadRtenv r.attr.id ws' = .ok v' ws' ∧ Appended r.view cs v') ∧
    ∀ rows, ws.files (.entry .rtenv) = some (rtenvRow.table rows) →
      (∃ e ∈ rows, e.id = r.attr.id) → r.data.length + 4 * cs.length < 2 ^ 64 →
      (sfFindDeriveHeader r.view.headers = none → r.attr.nheader.toNat + 1 < 2 ^ 32) →
      ∃ ws', appendChildren r.attr.id cs ws = .ok () ws' := by
  have hparent : Parent ws r (deriveIds r.view.headers r.view.data) :=
    ⟨hfile, hplaced.deriveList r.data_lt⟩
  constructor
  · intro ws' hok
    obtain ⟨r', hfile', hlist, hattr, hkept⟩ := hparent.calls hok
    refine ⟨r'.view, ?_, ⟨hlist.deriveIds_eq r'.data_lt, hattr, hkept⟩⟩
    rw [tpbRafRecordReadRtenv, recordRead_of_bytes hfile']
  · intro rows htable hrow hroom hheader
    exact hparent.calls_succeed htable hrow hroom hheader

/-! ### A record without the condition -/

/-- A record with a payload that no header claims. -/
def strayRecord : Record rtenvFormat where
  attr := { RtenvAttr.zero with id := 1 }
  headers := []
  buf := some (i32 9)
  nheader_eq := nheader_nil
  ndim_le := ndim_le_nil
  data_lt := by decide

/-- A workspace with this record. -/
def strayWorkspace : Workspace := bareWorkspace strayRecord bareEntry

/-- The record that registering the child 5 writes: the list is behind the stray payload,
but a reader looks for it at the beginning. -/
def strayRegistered : Record rtenvFormat where
  attr := { RtenvAttr.zero with id := 1, nheader := 1, deriveTo := 5 }
  headers := [deriveHeader]
  buf := some (i32 9 ++ i32 5)
  nheader_eq := nheader_deriveHeader
  ndim_le := ndim_le_deriveHeader
  data_lt := by decide

theorem stray_call : ∃ ws', appendChildren 1 [5] strayWorkspace = .ok () ws' ∧
    ws'.files (.rtenv 1) = some strayRegistered.bytes := by
  have hread : propagate .rafL3Rtenv (tpbRafRecordReadRtenv 1) strayWorkspace =
      .ok strayRecord.view strayWorkspace :=
    propagate_eq_ok.mpr (recordRead_of_bytes (bareWorkspace_record _ _))
  have hbuf : strayRegistered.buf = some (i32 9 ++ i32 5) := rfl
  have hwrite : deriveWrite (deriveUpdate strayRecord.view 5) strayWorkspace =
      .ok () (strayWorkspace.set (.rtenv 1) strayRegistered.bytes) :=
    deriveWrite_run hbuf
  have htable : (strayWorkspace.set (.rtenv 1) strayRegistered.bytes).files
      (.entry .rtenv) = some (rtenvRow.table [bareEntry]) := by
    rw [Workspace.set_files_of_ne _ _ (by simp), strayWorkspace, bareWorkspace_table]
  have htpbe : propagate .rafL3Rtenv (sfPatchTpbeDeriveTo 1 5) _ = .ok () _ :=
    propagate_eq_ok.mpr (sfPatchTpbeDeriveTo_found htable ⟨_, List.mem_singleton_self _, rfl⟩)
  have hfile : ((strayWorkspace.set (.rtenv 1) strayRegistered.bytes).set
      (.entry .rtenv) (rtenvRow.table (modifyFirst (·.id = 1) (RtenvEntry.withDeriveTo 5)
        [bareEntry]))).files (.rtenv 1) = some strayRegistered.bytes := by
    rw [Workspace.set_files_of_ne _ _ (by simp), Workspace.set_files_same]
  have htpbr : propagate .rafL3Rtenv (sfPatchTpbrDeriveTo 1 5) _ = .ok () _ :=
    propagate_eq_ok.mpr (sfPatchTpbrDeriveTo_run hfile)
  refine ⟨_, bind_then (bind_then hread (bind_then hwrite (bind_then htpbe htpbr))) rfl, ?_⟩
  exact Workspace.set_files_same _ _ _

/-- **A child that no reader finds.** The record has no list, and a payload that no header
claims: the child is appended behind it, and the new header finds the stray bytes. -/
theorem rtenv_children_misplaced :
    (∀ h ∈ strayRecord.view.headers, isDerive h → h.ndim = 1 ∧
      h.dataSize.toNat = 4 * h.dim0.toNat) ∧
    ∃ ws ws' v, ws.files (.rtenv strayRecord.attr.id) = some strayRecord.bytes ∧
      appendChildren strayRecord.attr.id [5] ws = .ok () ws' ∧
      tpbRafRecordReadRtenv strayRecord.attr.id ws' = .ok v ws' ∧
      deriveIds v.headers v.data = [9] ∧
      deriveIds strayRecord.view.headers strayRecord.view.data ++
        newChildren (deriveIds strayRecord.view.headers strayRecord.view.data) [5] = [5] := by
  obtain ⟨ws', hok, hfile⟩ := stray_call
  refine ⟨by simp [strayRecord, Record.view], strayWorkspace, ws',
    strayRegistered.view, bareWorkspace_record _ _, hok, ?_, by decide, by decide⟩
  exact recordRead_of_bytes hfile

/-- Two children, the first of them twice. -/
theorem rtenv_children_appended_two : ∃ ws' v,
    appendChildren 1 [5, 7, 5] (bareWorkspace bareRecord bareEntry) = .ok () ws' ∧
      tpbRafRecordReadRtenv 1 ws' = .ok v ws' ∧ deriveIds v.headers v.data = [5, 7] ∧
      v.attr.deriveTo = 5 := by
  obtain ⟨hreads, hruns⟩ := rtenv_children_appended bareRecord [5, 7, 5]
    (bareWorkspace bareRecord bareEntry) (bareWorkspace_record _ _) ⟨by decide, rfl⟩
  obtain ⟨ws', hok⟩ := hruns _ (bareWorkspace_table _ _) ⟨_, List.mem_singleton_self _, rfl⟩
    (by decide) (by decide)
  obtain ⟨v, hread, happended⟩ := hreads ws' hok
  refine ⟨ws', v, hok, hread, happended.list.trans (by decide), ?_⟩
  rw [happended.latest]
  rfl

end TPBench
