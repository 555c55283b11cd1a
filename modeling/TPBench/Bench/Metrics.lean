import TPBench.Task.Reads

/-!
# The Metrics of a Batch

A benchmark takes the metrics of a batch from the records of its tasks: the first output with the
name of a metric is reduced to one number (`load_metrics_from_rafdb`). How many elements there are
is read off the dimensions of the header (`headerNarr`), and nothing compares it with the size of
the data.

With the writer of the data file and the collector of samples, the loader is the third consumer of
the payload of a task record. This module puts the three together.

## Main results

* `metricReads_inside_iff`: the loader stays inside if and only if the elements that the dimensions
  announce fit the data.
* `readsInside_iff`: for every task record that is read, all that the three consumers read is inside
  of the payload and of the headers it is read for if and only if the headers have room.
* `short_number_overread`: a `double` of four bytes.
-/

open CFile

namespace TPBench

/-! ### The loader -/

/-- `header_narr`, where `none` is -1. -/
def headerNarr (h : MetaHeader) (esz : ℕ) : Option ℕ :=
  if esz = 0 then none
  else if h.ndim = 0 then some (h.dataSize.toNat / esz)
  else match nelemLoop (h.dimsizes.toList.take h.ndim.toNat) 1 with
    | .error _ => none
    | .ok total => some (if total = 0 then h.dataSize.toNat / esz else total.toNat)

/-- `_sf_check_dtype_support`; the types are those of `_sf_dtype_statable`. -/
def sfCheckDtypeSupport (dtype : UInt32) : Bool := sfDtypeStatable dtype

/-- Whether `apply_reducer` goes through the elements: a reducer that begins as a quantile has to go
on with a number, and any other name is that of the mean. `strtodEnd` is the text behind the number
that `strtod` reads. -/
def reducerApplies (strtodEnd : Bytes → Bytes) (reducer : Bytes) : Bool :=
  if reducer = [] ∨ reducer = ascii "mean".toList then true
  else if reducer = ascii ['m', 'i', 'n'] then true
  else if reducer = ascii ['m', 'a', 'x'] then true
  else if reducer = ascii "median".toList ∨ reducer = ascii ['p', '5', '0'] then true
  else match reducer with
    | p :: c :: rest =>
        if (p = 112 ∨ p = 80) ∧ isdigit c then strtodEnd (c :: rest) ≠ c :: rest
        else if (p = 81 ∨ p = 113) ∧ c = 61 then strtodEnd rest ≠ rest
        else true
    | _ => true

/-- What `apply_reducer` reads of `narr` elements at `pos` of the payload. The functions behind it
refuse a type that they do not know. -/
def applyReducerReads (strtodEnd : Bytes → Bytes) (hi pos narr : ℕ) (dtype : UInt32)
    (reducer : Bytes) : List Access :=
  if narr = 0 then []
  else if !reducerApplies strtodEnd reducer then []
  else if !sfCheckDtypeSupport dtype then []
  else (List.range narr).map fun k =>
    ⟨hi, pos + k * (castSize (dtype &&& tpbParmTypeMask)).getD 0,
      (castSize (dtype &&& tpbParmTypeMask)).getD 0⟩

/-- The first output with a name, as `load_metrics_from_rafdb` looks for it. -/
def firstOutput (v : RecordView TaskAttr) (name : Bytes) : Option (MetaHeader × ℕ) :=
  ((v.headers.zipIdx.take (v.attr.ninput + v.attr.noutput).toNat).drop
    v.attr.ninput.toNat).find? fun p => cstr p.1.name.toList = name

/-- What `load_metrics_from_rafdb` reads of a task record for a metric. A task that was derived is
passed over. -/
def metricReads (strtodEnd : Bytes → Bytes) (v : RecordView TaskAttr) (name reducer : Bytes) :
    List Access :=
  if v.attr.deriveTo ≠ zeroArr 20 then []
  else match firstOutput v name with
    | none => []
    | some (h, hi) =>
        match tpbRafHeaderDataPtr v.headers v.dataPtr v.datasize hi with
        | .error _ => []
        | .ok (none, _) => []
        | .ok (some _, nbytes) =>
            if nbytes = 0 then []
            else match tpbDtypeElemSize h.typeBits with
              | none => []
              | some esz =>
                  applyReducerReads strtodEnd hi (positionOf v hi).toNat
                    (match headerNarr h esz with
                      | some (n + 1) => n + 1
                      | _ => nbytes.toNat / esz)
                    h.typeBits reducer

/-! ### What there is room for -/

/-- The elements that the loader takes from a header: those that its dimensions announce, if their
product is a positive number of 64 bits, and otherwise as many as its data has. -/
def metricElems (h : MetaHeader) : ℕ :=
  if h.ndim ≠ 0 ∧ 0 < nelemOf h ∧ nelemOf h < 2 ^ 64 then nelemOf h
  else h.dataSize.toNat / elemSizeOf h

/-- For each name, unless the task was derived: if the first output with this name is of a known
type and its data seems to lie in the payload, there is room for the elements of it. -/
def LoadFits (v : RecordView TaskAttr) : Prop :=
  v.attr.deriveTo = zeroArr 20 → ∀ name h i, firstOutput v name = some (h, i) →
    sfCheckDtypeSupport h.typeBits → 0 < h.dataSize.toNat →
      (positionOf v i).toNat + h.dataSize.toNat ≤ v.data.length →
        metricElems h * elemSizeOf h ≤ room v i

section Load

variable {v : RecordView TaskAttr} {h : MetaHeader} {i : ℕ} {strtodEnd : Bytes → Bytes}
  {name reducer : Bytes}

/-- The number of elements that the loader takes. -/
theorem narr_eq (hesz : 0 < elemSizeOf h) :
    (match headerNarr h (elemSizeOf h) with
      | some (n + 1) => n + 1
      | _ => h.dataSize.toNat / elemSizeOf h) = metricElems h := by
  rw [headerNarr, if_neg hesz.ne', metricElems]
  by_cases hzero : h.ndim = 0
  · rw [if_pos hzero, if_neg fun hall => hall.1 hzero]
    rcases h.dataSize.toNat / elemSizeOf h with _ | n
    · rfl
    · rfl
  rw [if_neg hzero]
  -- a product of 64 bits is what the loop ends with
  have hloop_eq : ∀ total : UInt64, 0 < total.toNat →
      (nelemLoop (h.dimsizes.toList.take h.ndim.toNat) 1 = .ok total ↔
        total.toNat = nelemOf h) := by
    intro total htotal
    have hone : 0 < (1 : UInt64).toNat := Nat.one_pos
    rw [nelemLoop_eq hone htotal, UInt64.toNat_one, Nat.one_mul, nelemOf]
  have hfound : 0 < nelemOf h → nelemOf h < 2 ^ 64 →
      nelemLoop (h.dimsizes.toList.take h.ndim.toNat) 1 = .ok (UInt64.ofNat (nelemOf h)) := by
    intro hpos hlt
    have hnat := UInt64.toNat_ofNat_of_lt' hlt
    exact (hloop_eq _ (by rwa [hnat])).mpr hnat
  rcases hloop : nelemLoop (h.dimsizes.toList.take h.ndim.toNat) 1 with e | total
  · rw [if_neg]
    rintro ⟨-, hpos, hlt⟩
    have hok := hfound hpos hlt
    rw [hloop] at hok
    cases hok
  dsimp only
  rcases Nat.eq_zero_or_pos total.toNat with hz | hpos
  · obtain rfl : total = 0 := UInt64.toNat_inj.mp hz
    rw [if_pos rfl, if_neg]
    · rcases h.dataSize.toNat / elemSizeOf h with _ | n
      · rfl
      · rfl
    · rintro ⟨-, hpos, hlt⟩
      have hok := hfound hpos hlt
      rw [hloop] at hok
      have hsame := congrArg UInt64.toNat (Except.ok.inj hok)
      rw [UInt64.toNat_ofNat_of_lt' hlt, UInt64.toNat_zero] at hsame
      omega
  · have htotal := (hloop_eq total hpos).mp hloop
    have hne : total ≠ 0 := by
      rintro rfl
      exact absurd hpos (lt_irrefl 0)
    have hlt := total.toNat_lt
    rw [if_neg hne, if_pos ⟨hzero, by omega, by omega⟩, ← htotal]
    obtain ⟨n, hn⟩ := Nat.exists_eq_succ_of_ne_zero hpos.ne'
    rw [hn]

theorem getElem?_of_firstOutput (hfirst : firstOutput v name = some (h, i)) :
    v.headers[i]? = some h := by
  have hin := List.mem_of_mem_take (List.mem_of_mem_drop (List.mem_of_find?_eq_some hfirst))
  exact List.mk_mem_zipIdx_iff_getElem?.mp hin

theorem tpbDtypeElemSize_of_supported (hsup : sfCheckDtypeSupport h.typeBits = true) :
    tpbDtypeElemSize h.typeBits = some (elemSizeOf h) := by
  have hpos := (castSize_of_statable hsup).2
  rw [elemSizeOf] at hpos ⊢
  rcases hsize : tpbDtypeElemSize h.typeBits with _ | esz
  · rw [hsize] at hpos
    exact absurd hpos (lt_irrefl 0)
  · rfl

/-- The reads of the reducer are inside if and only if there is room for the elements. -/
theorem applyReducerReads_inside_iff (hsup : sfCheckDtypeSupport h.typeBits = true) {narr : ℕ}
    (happly : reducerApplies strtodEnd reducer = true) :
    (∀ a ∈ applyReducerReads strtodEnd i (positionOf v i).toNat narr h.typeBits reducer,
        a.Inside v) ↔ narr * elemSizeOf h ≤ room v i := by
  obtain ⟨hcast, hpos⟩ := castSize_of_statable hsup
  rw [applyReducerReads, happly, hsup]
  rcases Nat.eq_zero_or_pos narr with rfl | hnarr
  · simp
  rw [if_neg hnarr.ne', if_neg (by simp), if_neg (by simp), hcast, Option.getD_some]
  constructor
  · intro hall
    have hlast := hall ⟨i, (positionOf v i).toNat + (narr - 1) * elemSizeOf h, elemSizeOf h⟩
      (List.mem_map.mpr ⟨narr - 1, List.mem_range.mpr (by omega), rfl⟩)
    rw [inside_iff_room hpos, ← Nat.succ_mul] at hlast
    rwa [show (narr - 1).succ = narr by omega] at hlast
  · intro hroom a ha
    obtain ⟨k, hk, rfl⟩ := List.mem_map.mp ha
    rw [List.mem_range] at hk
    rw [inside_iff_room hpos, ← Nat.succ_mul]
    exact (Nat.mul_le_mul_right _ hk).trans hroom

/-- **The loader of metrics** stays inside, for every name and every reducer, if and only if there
is room for the elements that the dimensions announce. -/
theorem metricReads_inside_iff (hv : Shaped v) :
    (∀ name reducer, ∀ a ∈ metricReads strtodEnd v name reducer, a.Inside v) ↔ LoadFits v := by
  constructor
  · intro hall hder name h i hfirst hsup hsize hfit
    have hread := hall name []
    have hget := getElem?_of_firstOutput hfirst
    have hne : h.dataSize ≠ 0 := by
      intro hzero
      rw [hzero, UInt64.toNat_zero] at hsize
      exact absurd hsize (lt_irrefl 0)
    rw [metricReads, if_neg (not_not.mpr hder), hfirst] at hread
    simp only [headerDataPtr_eq hv hget hsize, if_pos hfit, if_neg hne,
      tpbDtypeElemSize_of_supported hsup, narr_eq (castSize_of_statable hsup).2] at hread
    exact (applyReducerReads_inside_iff hsup rfl).mp hread
  · intro hfits name reducer a ha
    rw [metricReads] at ha
    split_ifs at ha with hder
    · cases ha
    rcases hfirst : firstOutput v name with _ | ⟨h, i⟩
    · rw [hfirst] at ha
      cases ha
    rw [hfirst] at ha
    dsimp only at ha
    have hget := getElem?_of_firstOutput hfirst
    rcases hptr : tpbRafHeaderDataPtr v.headers v.dataPtr v.datasize i with e | ⟨_ | p, nbytes⟩
    · rw [hptr] at ha
      cases ha
    · rw [hptr] at ha
      cases ha
    rw [hptr] at ha
    dsimp only at ha
    obtain rfl := headerDataPtr_size hget hptr
    split_ifs at ha with hzero
    · cases ha
    have hsize : 0 < h.dataSize.toNat := by
      rw [Nat.pos_iff_ne_zero]
      exact fun hz => hzero (UInt64.toNat_inj.mp hz)
    rw [headerDataPtr_eq hv hget hsize] at hptr
    split_ifs at hptr with hfit
    rcases hesz : tpbDtypeElemSize h.typeBits with _ | esz
    · rw [hesz] at ha
      cases ha
    have hesz_eq : esz = elemSizeOf h := by
      rw [elemSizeOf, hesz]
      rfl
    rw [hesz] at ha
    dsimp only at ha
    rw [hesz_eq] at ha
    by_cases happly : reducerApplies strtodEnd reducer = true
    · by_cases hsup : sfCheckDtypeSupport h.typeBits = true
      · have hroom := hfits (not_not.mp hder) name h i hfirst hsup hsize hfit
        rw [narr_eq (castSize_of_statable hsup).2] at ha
        exact (applyReducerReads_inside_iff hsup happly).mpr hroom a ha
      · rw [applyReducerReads] at ha
        split_ifs at ha with h1 h2 h3
        · cases ha
        · cases ha
        · cases ha
        · exact absurd (by simpa using h3) hsup
    · rw [applyReducerReads] at ha
      split_ifs at ha with h1 h2 h3
      · cases ha
      · cases ha
      · cases ha
      · exact absurd (by simpa using h2) happly

end Load

/-! ### The three consumers -/

/-- All that is read of a record lies in the payload and in the data of the header it is read for:
by the writer of the data file, by the collector of samples for every name and whatever it has
collected before, and by the loader of metrics for every name and every reducer. -/
structure ReadsInside (strtodEnd : Bytes → Bytes) (v : RecordView TaskAttr) : Prop where
  exported : ∀ a ∈ exportReads v, a.Inside v
  collected : ∀ m : MemberRec, m.record = some v → ∀ dname s, ∀ a ∈ collectReads v m dname s,
    a.Inside v
  loaded : ∀ name reducer, ∀ a ∈ metricReads strtodEnd v name reducer, a.Inside v

/-- **The reads of a task record.** For every task record that is read, with whatever dimensions,
types, sizes and payload: the three consumers read inside of the payload and of the headers if and
only if the headers have room for what each of them takes its elements to be. -/
theorem readsInside_iff (strtodEnd : Bytes → Bytes) {id : Id20} {ws ws' : Workspace}
    {v : RecordView TaskAttr} (hread : tpbRafRecordReadTask id true ws = .ok v ws') :
    ReadsInside strtodEnd v ↔ ExportFits v ∧ CollectFits v ∧ LoadFits v := by
  have hv := shaped_of_read hread
  have hload := @metricReads_inside_iff v strtodEnd hv
  have hone := @collectReads_inside_iff v hv ⟨zeroArr 20, 0, some v⟩ rfl
  rw [← exportReads_inside_iff hv, ← hload, ← hone]
  constructor
  · rintro ⟨hexport, hcollect, hload⟩
    exact ⟨hexport, hcollect _ rfl, hload⟩
  · rintro ⟨hexport, hcollect, hload⟩
    refine ⟨hexport, fun m hm => ?_, hload⟩
    exact (collectReads_inside_iff hv hm).mpr (hone.mp hcollect)

/-! ### Two records -/

/-- A record with one header and a number of outputs. -/
def oneHeader (noutput : UInt32) (h : MetaHeader) (data : Bytes) (hndim : h.ndim.toNat ≤ ndimMax)
    (hlt : data.length < 2 ^ 64) : Record taskFormat where
  attr := { TaskAttr.zero with noutput := noutput, nheader := 1 }
  headers := [h]
  buf := some data
  nheader_eq := rfl
  ndim_le := by
    intro h' hmem
    rwa [List.mem_singleton.mp hmem]
  data_lt := hlt

/-- A record is read from the workspace that has its file. -/
theorem read_oneHeader (r : Record taskFormat) :
    tpbRafRecordReadTask r.attr.taskRecordId true
        (Workspace.empty.set (.record .task r.attr.taskRecordId) r.bytes) =
      .ok r.view (Workspace.empty.set (.record .task r.attr.taskRecordId) r.bytes) :=
  recordRead_of_bytes (Workspace.set_files_same _ _ _)

/-- Three numbers of eight bytes. -/
def timesHeader : MetaHeader :=
  { MetaHeader.zero with
    ndim := 1, dataSize := 24, typeBits := tpbDoubleT, name := snprintfS 256 (ascii ['t'])
    dimsizes := MetaHeader.zero.dimsizes.set 0 3 }

/-- The three numbers, as an output. -/
def timesRecord : Record taskFormat :=
  oneHeader 1 timesHeader (List.replicate 24 0) (by decide) (by simp)

/-- All three consumers read the three numbers. -/
theorem times_read_inside : ReadsInside (fun s => s) timesRecord.view := by
  have houtputs : (timesRecord.view.headers.zipIdx.take 1).drop 0 = [(timesHeader.norm, 0)] := rfl
  refine (readsInside_iff _ (read_oneHeader timesRecord)).mpr ⟨?_, ?_, ?_⟩
  · refine (exportReads_inside_iff (shaped_of_read (read_oneHeader timesRecord))).mp ?_
    have hreads : exportReads timesRecord.view = [⟨0, 0, 8⟩, ⟨0, 8, 8⟩, ⟨0, 16, 8⟩] := rfl
    have hsize : timesRecord.view.datasize.toNat = 24 := rfl
    have hspan : claimed (timesRecord.view.headers.take 1) = 24 := rfl
    rw [hreads]
    intro a ha p hp hp'
    simp only [List.mem_cons, List.not_mem_nil, or_false] at ha
    rcases ha with rfl | rfl | rfl
    all_goals
      dsimp only at hp hp' ⊢
      rw [hsize, hspan, List.take_zero]
      exact ⟨by omega, Nat.zero_le _, by omega⟩
  · intro dname t hspec
    have hmem : (t.header, t.index) ∈ outputsNamed timesRecord.view dname := by
      rw [hspec.only]
      exact List.mem_singleton_self _
    have hin : (t.header, t.index) ∈ [(timesHeader.norm, 0)] :=
      houtputs ▸ List.mem_of_mem_filter hmem
    obtain ⟨hheader, hindex⟩ := Prod.mk.inj (List.mem_singleton.mp hin)
    have hsize := hspec.size
    rw [hheader] at hsize ⊢
    have helems : nelemOf timesHeader.norm = 3 := rfl
    have hbytes : timesHeader.norm.dataSize.toNat = 24 := rfl
    have hesz : elemSizeOf timesHeader.norm = 8 := rfl
    rw [helems, hbytes] at hsize
    rw [hesz, hindex]
    exact ⟨by omega, by decide⟩
  · intro _ name h i hfirst _ _ _
    have hin : (h, i) ∈ [(timesHeader.norm, 0)] :=
      houtputs ▸ List.mem_of_find?_eq_some hfirst
    obtain ⟨rfl, rfl⟩ := Prod.mk.inj (List.mem_singleton.mp hin)
    decide

/-- A `double` of four bytes. -/
def shortHeader : MetaHeader := { MetaHeader.zero with dataSize := 4, typeBits := tpbDoubleT }

/-- The `double` of four bytes, as a record. -/
def shortRecord : Record taskFormat :=
  oneHeader 0 shortHeader [0, 0, 0, 0] (Nat.zero_le _) (by simp)

theorem exportReads_shortRecord : exportReads shortRecord.view = [⟨0, 0, 8⟩] := rfl

/-- A `double` of four bytes is read behind the payload. -/
theorem short_number_overread : ∃ (id : Id20) (ws ws' : Workspace) (v : RecordView TaskAttr),
    tpbRafRecordReadTask id true ws = .ok v ws' ∧ ∀ strtodEnd, ¬ReadsInside strtodEnd v := by
  refine ⟨_, _, _, _, read_oneHeader shortRecord, fun strtodEnd hreads => ?_⟩
  have hin := hreads.exported ⟨0, 0, 8⟩ (by rw [exportReads_shortRecord]; simp)
  obtain ⟨hlt, -⟩ := hin 7 (Nat.zero_le _) (by simp)
  have hsize : shortRecord.view.datasize.toNat = 4 := rfl
  omega

end TPBench
