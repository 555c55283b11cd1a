import TPBench.Raf.RtenvDerive
import TPBench.Task.ExportEnv
import TPBench.Task.Select

/-!
# The Samples of a Logical Task

`task get-result` computes its statistics on the samples that the members of a logical task
recorded under one name. The members are visited in the order of their subranks; the first
one with samples fixes the schema (`_sf_collect_samples_member`), and a later one is taken
when its shape and unit agree with it.

The check of the unit is too weak: `TPB_UNIT_MASK` is named after the unit, but holds only the
bits of its value. Nanoseconds and bytes are both a base unit with the value 0, and their
samples are merged. The check of the size is too weak as well: `data_size` has to be a
multiple of the number of elements, but not of the size of the type.

The conversion to `double` is left uninterpreted: a sample is the element it was converted
from, with the member and the place it came from.

## Main definitions

* `aggregateMembers`: the loop over the members.
* `memberOutput`, `fittingSamples`: what a member has to contribute.

## Main results

* `samples_aggregated_iff`: the samples are those of the members that fit the first one,
  exactly when what the code takes has the size and the unit it should have.
* `samples_of_different_units`: a member that recorded bytes is merged with one that recorded
  nanoseconds.
-/

open CFile

namespace TPBench

/-! ### Headers -/

/-- The loop of `_sf_header_nelem` over the dimensions. -/
def nelemLoop : List UInt64 → UInt64 → Except Err UInt64
  | [], prod => .ok prod
  | d :: ds, prod =>
      if d = 0 then .ok 0
      else if prod > 0xFFFFFFFFFFFFFFFF / d then .error (.code .none .cliFail)
      else nelemLoop ds (prod * d)

/-- `_sf_header_nelem`: the number of elements of a header. -/
def sfHeaderNelem (h : MetaHeader) : Except Err UInt64 :=
  if h.ndim = 0 then .ok 1 else nelemLoop (h.dimsizes.toList.take h.ndim.toNat) 1

/-- The size of the elements that the cast of `_sf_append_elem_as_double` reads, for the
types it knows. -/
def castSize (dt : UInt32) : Option ℕ :=
  if dt = 0x0137 ∨ dt = 0x013b then some 1
  else if dt = 0x0238 ∨ dt = 0x023c then some 2
  else if dt = tpbInt32T ∨ dt = tpbIntT ∨ dt = tpbUint32T ∨ dt = tpbFloatT then some 4
  else if dt = tpbInt64T ∨ dt = tpbUint64T ∨ dt = tpbDoubleT then some 8
  else none

/-- `_sf_dtype_statable`. -/
def sfDtypeStatable (typeBits : UInt32) : Bool :=
  typeBits &&& tpbParmTypeMask ∈ [tpbIntT, 0x0137, 0x0238, tpbInt32T, tpbInt64T, 0x013b, 0x023c,
    tpbUint32T, tpbUint64T, tpbFloatT, tpbDoubleT]

/-- `TPB_UATTR_SHAPE_MASK`. -/
def tpbUattrShapeMask : UInt64 := 0x000E000000000000

/-- `TPB_UNIT_MASK`. -/
def tpbUnitMask : UInt64 := 0x00000000FFFFFFFF

/-- `_sf_uattr_schema_match`. -/
def sfUattrSchemaMatch (a b : UInt64) : Bool :=
  let mask := tpbUattrShapeMask ||| tpbUnitMask
  a &&& mask = b &&& mask

/-- One round of `_sf_find_output_by_name`: the index that was found last, as an `int`, and
whether there was one before it. -/
def findOutputStep (name : Bytes) (r : Int32 × Bool) (p : MetaHeader × ℕ) : Int32 × Bool :=
  if cstr p.1.name.toList = name then (Int32.ofNat p.2, r.2 || 0 ≤ r.1) else r

/-- `_sf_find_output_by_name`. -/
def sfFindOutputByName (v : RecordView TaskAttr) (name : Bytes) : Int32 × Bool :=
  ((v.headers.zipIdx.take (v.attr.ninput + v.attr.noutput).toNat).drop
    v.attr.ninput.toNat).foldl (findOutputStep name) (-1, false)

/-! ### Collecting -/

/-- An element that was converted to a sample: of which member, which element of its
output, and what the conversion is given. -/
structure Sample where
  member : ℕ
  elem : ℕ
  dtype : UInt32
  bytes : Bytes
  deriving DecidableEq, Repr

/-- A warning about a name in one member. -/
inductive SampleWarning
  | duplicate (name : Bytes)
  | mismatch (name : Bytes)
  deriving DecidableEq, Repr

/-- What `_sf_collect_samples_member` works on: the samples with the schema of the first
ones, the marks of the caller, and its buffer for a warning. -/
structure SampleAccum where
  samples : List Sample
  tb : UInt32
  ua : UInt64
  mixedDtype : Bool
  flattened : Bool
  warn : Option SampleWarning

/-- What `_sf_collect_samples_member` takes from a member: the header with its index, the
pointer to its data, the number of elements and the distance between them. -/
structure Taken where
  header : MetaHeader
  index : ℕ
  ptr : Bytes
  nelem : UInt64
  esz : UInt64

/-- A failure of the collection, with the warning that goes with it. -/
abbrev TakeError := Err × Option SampleWarning

/-- The elements of a header, from the pointer and the size that were found for it. -/
def takeElems (h : MetaHeader) (idx : ℕ) (ptr : Bytes) (nbytes : UInt64) :
    Except TakeError Taken :=
  match sfHeaderNelem h with
  | .error _ => .error (.code .none .cliFail, none)
  | .ok nelem =>
      if nelem = 0 then .error (.code .none .cliFail, none)
      else if nbytes / nelem = 0 ∨ nbytes / nelem * nelem ≠ nbytes then
        .error (.code .none .cliFail, none)
      else .ok ⟨h, idx, ptr, nelem, nbytes / nelem⟩

/-- The header that was found, when its type is known and its data is there. -/
def takeHeader (v : RecordView TaskAttr) (idx : ℕ) : Except TakeError Taken :=
  match v.headers[idx]? with
  | none => .error (.undefined, none)
  | some h =>
      if !sfDtypeStatable h.typeBits then .error (.code .none .cliFail, none)
      else match tpbRafHeaderDataPtr v.headers v.dataPtr v.datasize idx with
        | .error e => .error (e, none)
        | .ok (ptr, nbytes) => takeElems h idx (ptr.getD []) nbytes

/-- The checks of `_sf_collect_samples_member` in front of the schema check. -/
def takeOutput (m : MemberRec) (dname : Bytes) : Except TakeError Taken :=
  match m.record with
  | none => .error (.code .none .listNotFound, none)
  | some v =>
      match sfFindOutputByName v dname with
      | (idx, dup) =>
          if idx < 0 then .error (.code .none .listNotFound, none)
          else if dup then .error (.code .none .cliFail, some (.duplicate dname))
          else takeHeader v idx.toInt.toNat

/-- `_sf_append_elem_as_double` for the element `k` of a member, at `pos` behind the pointer
`ptr`. Reading behind the end of the buffer is undefined. -/
def sfAppendElemAsDouble (i k pos : ℕ) (ptr : Bytes) (dt : UInt32) :
    EStateM Err SampleAccum Unit := fun s =>
  match castSize dt with
  | none => .error (.code .none .cliFail) s
  | some size =>
      if pos + size ≤ ptr.length then
        .ok () { s with samples := s.samples ++ [⟨i, k, dt, pread ptr pos size⟩] }
      else .error .undefined s

/-- The loop of `_sf_collect_samples_member` over `n` elements, from element `k` on. -/
def appendElems (i : ℕ) (ptr : Bytes) (dt : UInt32) (esz : ℕ) :
    ℕ → ℕ → EStateM Err SampleAccum Unit
  | _, 0 => pure ()
  | k, n + 1 => do
      sfAppendElemAsDouble i k (k * esz) ptr dt
      appendElems i ptr dt esz (k + 1) n

/-- The schema check of `_sf_collect_samples_member`: the first samples fix the schema. -/
def checkSchema (dname : Bytes) (h : MetaHeader) : EStateM Err SampleAccum Unit := fun s =>
  if s.samples = [] then
    .ok () { s with tb := h.typeBits, ua := h.uattrBits, flattened := s.flattened || h.ndim > 1 }
  else if sfUattrSchemaMatch s.ua h.uattrBits then
    .ok () { s with mixedDtype := s.mixedDtype || s.tb ≠ h.typeBits,
                    flattened := s.flattened || h.ndim > 1 }
  else .error (.code .none .cliFail) { s with warn := some (.mismatch dname) }

/-- `_sf_collect_samples_member` for the member at subrank `i`. -/
def sfCollectSamplesMember (i : ℕ) (m : MemberRec) (dname : Bytes) :
    EStateM Err SampleAccum Unit := fun s =>
  match takeOutput m dname with
  | .error (e, w) => .error e { s with warn := w.or s.warn }
  | .ok t =>
      (do checkSchema dname t.header
          appendElems i t.ptr (t.header.typeBits &&& tpbParmTypeMask) t.esz.toNat 0
            t.nelem.toNat) s

/-- A row of the table of data: the samples with the marks, and the numbers of members that
could be read and were used. -/
structure SampleRow where
  acc : SampleAccum
  used : ℕ
  nReadable : ℕ
  flattened : Bool
  warns : List SampleWarning

/-- An empty row. -/
def SampleRow.empty : SampleRow := ⟨⟨[], 0, 0, false, false, none⟩, 0, 0, false, []⟩

/-- `_sf_gr_append_warn_unique` with what a member left in the buffer. -/
def SampleRow.noteWarning (warns : List SampleWarning) : Option SampleWarning → List SampleWarning
  | none => warns
  | some w => if w ∈ warns then warns else warns ++ [w]

/-- The loop of `tpbcli_task_get_result` over the members of a logical task, from subrank `i`
on. A member that cannot be used is passed over. -/
def aggregateMembers (dname : Bytes) : ℕ → List MemberRec → SampleRow → Except Err SampleRow
  | _, [], row => .ok row
  | i, m :: ms, row =>
      if m.record.isNone then aggregateMembers dname (i + 1) ms row
      else match sfCollectSamplesMember i m dname
          { row.acc with flattened := false, warn := none } with
        | .ok () acc =>
            aggregateMembers dname (i + 1) ms
              { row with acc := acc, used := row.used + 1, nReadable := row.nReadable + 1,
                          flattened := row.flattened || acc.flattened }
        | .error (.code _ _) acc =>
            aggregateMembers dname (i + 1) ms
              { row with acc := acc, nReadable := row.nReadable + 1,
                          warns := SampleRow.noteWarning row.warns acc.warn }
        | .error .undefined _ => .error .undefined

/-! ### What a member has to contribute -/

/-- The number of elements that the dimensions of a header announce. -/
def nelemOf (h : MetaHeader) : ℕ :=
  ((h.dimsizes.toList.take h.ndim.toNat).map UInt64.toNat).prod

/-- The element size of the type of a header. -/
def elemSizeOf (h : MetaHeader) : ℕ := (tpbDtypeElemSize h.typeBits).getD 0

/-- An output of a member: its header with the index, and its part of the payload. -/
structure Output where
  header : MetaHeader
  index : ℕ
  data : Bytes

/-- The output headers of a record that have a name, with their indices. -/
def outputsNamed (v : RecordView TaskAttr) (dname : Bytes) : List (MetaHeader × ℕ) :=
  ((v.headers.zipIdx.take (v.attr.ninput.toNat + v.attr.noutput.toNat)).drop
    v.attr.ninput.toNat).filter fun p => cstr p.1.name.toList = dname

/-- The header `i` of a record is of a statable type, not empty, and its size is that of its
elements, which are there. -/
def SoundOutput (v : RecordView TaskAttr) (h : MetaHeader) (i : ℕ) : Prop :=
  sfDtypeStatable h.typeBits ∧ 0 < nelemOf h ∧ nelemOf h * elemSizeOf h = h.dataSize.toNat ∧
    claimed (v.headers.take i) + h.dataSize.toNat ≤ v.data.length

instance (v : RecordView TaskAttr) (h : MetaHeader) (i : ℕ) : Decidable (SoundOutput v h i) :=
  inferInstanceAs (Decidable (_ ∧ _))

/-- The output of a record: the one header of the name, when it is sound. -/
def recordOutput (v : RecordView TaskAttr) (dname : Bytes) : Option Output :=
  match outputsNamed v dname with
  | [(h, i)] =>
      if SoundOutput v h i then
        some ⟨h, i, pread v.data (claimed (v.headers.take i)) h.dataSize.toNat⟩
      else none
  | _ => none

/-- What a member has to contribute under a name, as long as it fits the others. -/
def memberOutput (dname : Bytes) (m : MemberRec) : Option Output :=
  m.record.bind fun v => recordOutput v dname

/-- The bits of the complete unit: kind, name, base and value. -/
def wholeUnitMask : UInt64 := 0x0000FFFFFFFFFFFF

/-- Shape and complete unit agree. -/
def SameUnit (a b : UInt64) : Prop :=
  a &&& (tpbUattrShapeMask ||| wholeUnitMask) = b &&& (tpbUattrShapeMask ||| wholeUnitMask)

instance (a b : UInt64) : Decidable (SameUnit a b) := inferInstanceAs (Decidable (_ = _))

/-- The elements of an output in storage order. -/
def Output.elems (i : ℕ) (o : Output) : List Sample :=
  (List.range (nelemOf o.header)).map fun k =>
    ⟨i, k, o.header.typeBits &&& tpbParmTypeMask,
      pread o.data (k * elemSizeOf o.header) (elemSizeOf o.header)⟩

/-- What the member at subrank `i` contributes, when the first output is `first`. -/
def fittingOf (first : Output) (dname : Bytes) (m : MemberRec) (i : ℕ) : List Sample :=
  match memberOutput dname m with
  | some o => if SameUnit first.header.uattrBits o.header.uattrBits then o.elems i else []
  | none => []

/-- The samples of a logical task under a name: those of all members with an output that
fits the first one. -/
def fittingSamples (dname : Bytes) (ms : List MemberRec) : List Sample :=
  match ms.findSome? (memberOutput dname) with
  | some first => ms.zipIdx.flatMap fun p => fittingOf first dname p.1 p.2
  | none => []

/-! ### The search for the output -/

/-- A record as the reader returns it: the header array and the payload have the sizes that
the record says. -/
structure Shaped (v : RecordView TaskAttr) : Prop where
  headers : v.headers.length = v.attr.nheader.toNat
  data : v.data.length = v.datasize.toNat

/-- A record that is read is in shape. -/
theorem shaped_of_read {id : Id20} {ws ws' : Workspace} {v : RecordView TaskAttr}
    (h : tpbRafRecordReadTask id true ws = .ok v ws') : Shaped v := by
  obtain ⟨-, f, s, -, hread⟩ := fopenRead_eq_ok h
  obtain ⟨hheaders, hdata⟩ := shape_of_readRecord _ hread
  exact ⟨hheaders, hdata⟩

/-- The records of the members of a logical task are in shape. -/
theorem shaped_of_sfLogicalFromRoot {root : Id20} {ref : Bytes} {order : ℤ} {ws ws' : Workspace}
    {t : Logical} (h : sfLogicalFromRoot root ref order ws = .ok t ws') :
    ∀ m ∈ t.members, ∀ v, m.record = some v → Shaped v := by
  have hload : ∀ {ids : List Id20} {i : ℕ} {ws ws' : Workspace} {ms : List MemberRec},
      loadMembers i ids ws = .ok ms ws' → ∀ m ∈ ms, ∀ v, m.record = some v → Shaped v := by
    intro ids
    induction ids with
    | nil =>
        intro i ws ws' ms hok
        cases hok
        simp
    | cons id ids ih =>
        intro i ws ws' ms hok
        obtain ⟨m, ws₁, hm, hrest⟩ := bind_eq_ok.mp hok
        obtain ⟨ms', ws₂, hms, hend⟩ := bind_eq_ok.mp hrest
        cases hend
        obtain ⟨r, ws₃, hattempt, hpure⟩ := bind_eq_ok.mp hm
        cases hpure
        intro n hn v hv
        rcases List.mem_cons.mp hn with rfl | hn
        · obtain rfl : r = some v := hv
          unfold attemptRead at hattempt
          split at hattempt
          · rename_i hread
            cases hattempt
            exact shaped_of_read hread
          · cases hattempt
          · cases hattempt
        · exact ih hms n hn v hv
  obtain ⟨v, ws₁, hread, h⟩ := bind_eq_ok.mp h
  rw [propagate_eq_ok] at hread
  split at h
  · obtain ⟨ids, ws₂, -, h⟩ := bind_eq_ok.mp h
    obtain ⟨ms, ws₃, hms, h⟩ := bind_eq_ok.mp h
    cases h
    exact hload hms
  · cases h
    intro m hm w hw
    obtain rfl := List.mem_singleton.mp hm
    cases hw
    exact shaped_of_read hread

section Search

variable {v : RecordView TaskAttr} {name : Bytes} {l : List (MetaHeader × ℕ)} {r : Int32 × Bool}
  {h : MetaHeader} {i : ℕ}

/-- An index as an `int`: itself up to `INT_MAX`, and negative from there on. -/
theorem toInt_ofNat_index (hi : i < 2 ^ 32) :
    (Int32.ofNat i).toInt = if i ≤ intMax then (i : ℤ) else (i : ℤ) - 2 ^ 32 := by
  have hmod : (i : ℤ) % 2 ^ 32 = i := Int.emod_eq_of_lt (by omega) (by omega)
  have hbmod : (Int32.ofNat i).toInt =
      if (i : ℤ) % 2 ^ 32 < (2 ^ 32 + 1) / 2 then (i : ℤ) % 2 ^ 32 else (i : ℤ) % 2 ^ 32 - 2 ^ 32 :=
    Int32.toInt_ofNat'
  rw [hbmod, hmod]
  by_cases hle : i ≤ intMax
  · have hle' : i ≤ 2147483647 := hle
    rw [if_pos hle, if_pos (by omega)]
  · have hgt : ¬i ≤ 2147483647 := hle
    rw [if_neg hle, if_neg (by omega)]

theorem ofNat_nonneg_iff (hi : i < 2 ^ 32) : 0 ≤ Int32.ofNat i ↔ i ≤ intMax := by
  rw [Int32.le_iff_toInt_le, Int32.toInt_zero, toInt_ofNat_index hi]
  split_ifs <;> omega

/-- Once a header was found twice, that stays. -/
theorem foldl_findOutputStep_dup (hdup : r.2 = true) :
    (l.foldl (findOutputStep name) r).2 = true := by
  induction l generalizing r with
  | nil => exact hdup
  | cons p l ih =>
      rw [List.foldl_cons]
      apply ih
      unfold findOutputStep
      split
      · simp [hdup]
      · exact hdup

/-- After a header was found, the search finds another one or keeps it. -/
theorem foldl_findOutputStep_found (hfound : 0 ≤ r.1) :
    ((l.filter fun p => cstr p.1.name.toList = name) ≠ [] ∧
      (l.foldl (findOutputStep name) r).2 = true) ∨
    (l.filter fun p => cstr p.1.name.toList = name) = [] ∧
      l.foldl (findOutputStep name) r = r := by
  induction l generalizing r with
  | nil => exact .inr ⟨rfl, rfl⟩
  | cons p l ih =>
      rw [List.foldl_cons]
      by_cases hp : cstr p.1.name.toList = name
      · left
        rw [List.filter_cons_of_pos (by simpa using hp)]
        refine ⟨List.cons_ne_nil _ _, foldl_findOutputStep_dup ?_⟩
        simp [findOutputStep, hp, hfound]
      · have hstep : findOutputStep name r p = r := if_neg hp
        rw [hstep, List.filter_cons_of_neg (by simpa using hp)]
        exact ih hfound

/-- Indices that are too large for an `int` are not found. -/
theorem foldl_findOutputStep_large (hneg : r.1 < 0)
    (hl : ∀ p ∈ l, intMax < p.2 ∧ p.2 < 2 ^ 32) : (l.foldl (findOutputStep name) r).1 < 0 := by
  induction l generalizing r with
  | nil => exact hneg
  | cons p l ih =>
      rw [List.foldl_cons]
      refine ih ?_ fun q hq => hl q (List.mem_cons_of_mem _ hq)
      obtain ⟨hlarge, hlt⟩ := hl p List.mem_cons_self
      unfold findOutputStep
      split
      · rw [← Int32.not_le, ofNat_nonneg_iff hlt]
        omega
      · exact hneg

/-- **The search finds a header that is the only one of its name**, and nothing else. -/
theorem foldl_findOutputStep {idx : Int32} (hsorted : l.Pairwise fun p q => p.2 < q.2)
    (hl : ∀ p ∈ l, p.2 < 2 ^ 32) :
    l.foldl (findOutputStep name) (-1, false) = (idx, false) ∧ 0 ≤ idx ↔
      ∃ h i, (l.filter fun p => cstr p.1.name.toList = name) = [(h, i)] ∧ i ≤ intMax ∧
        idx = Int32.ofNat i := by
  induction l with
  | nil =>
      constructor
      · rintro ⟨heq, hpos⟩
        cases heq
        exact absurd hpos (by decide)
      · rintro ⟨h, i, hnil, -⟩
        cases hnil
  | cons p l ih =>
      obtain ⟨hfirst, hrest⟩ := List.pairwise_cons.mp hsorted
      have hlt := hl p List.mem_cons_self
      have hl' : ∀ q ∈ l, q.2 < 2 ^ 32 := fun q hq => hl q (List.mem_cons_of_mem _ hq)
      rw [List.foldl_cons]
      by_cases hp : cstr p.1.name.toList = name
      · have hstep : findOutputStep name (-1, false) p = (Int32.ofNat p.2, false) := by
          simp only [findOutputStep, hp, if_true]
          rfl
        rw [hstep, List.filter_cons_of_pos (by simpa using hp)]
        by_cases hmax : p.2 ≤ intMax
        · have hfound : 0 ≤ ((Int32.ofNat p.2, false) : Int32 × Bool).1 :=
            (ofNat_nonneg_iff hlt).mpr hmax
          rcases foldl_findOutputStep_found hfound with ⟨hmore, hdup⟩ | ⟨hnil, heq⟩
          · constructor
            · rintro ⟨heq, -⟩
              rw [heq] at hdup
              cases hdup
            · rintro ⟨h, i, hone, -⟩
              exact absurd (List.cons.inj hone).2 hmore
          · rw [heq, hnil]
            constructor
            · rintro ⟨heq, -⟩
              cases heq
              exact ⟨p.1, p.2, rfl, hmax, rfl⟩
            · rintro ⟨h, i, hone, hi, rfl⟩
              cases hone
              exact ⟨rfl, hfound⟩
        · have hlarge : ∀ q ∈ l, intMax < q.2 ∧ q.2 < 2 ^ 32 := by
            intro q hq
            have := hfirst q hq
            exact ⟨by omega, hl' q hq⟩
          have hneg : ((Int32.ofNat p.2, false) : Int32 × Bool).1 < 0 := by
            rw [← Int32.not_le, ofNat_nonneg_iff hlt]
            exact hmax
          constructor
          · rintro ⟨heq, hpos⟩
            have hend : (l.foldl (findOutputStep name) (Int32.ofNat p.2, false)).1 < 0 :=
              foldl_findOutputStep_large hneg hlarge
            rw [heq] at hend
            exact absurd hpos (Int32.not_le.mpr hend)
          · rintro ⟨h, i, hone, hi, -⟩
            obtain ⟨rfl, -⟩ := List.cons.inj hone
            exact absurd hi hmax
      · have hstep : findOutputStep name (-1, false) p = (-1, false) := if_neg hp
        rw [hstep, List.filter_cons_of_neg (by simpa using hp)]
        exact ih hrest hl'

/-- The place in the list is the index, so the indices of a part of it are increasing. -/
theorem pairwise_zipIdx {α : Type} (hs : List α) (n : ℕ) :
    (hs.zipIdx n).Pairwise fun p q => p.2 < q.2 := by
  induction hs generalizing n with
  | nil => exact List.Pairwise.nil
  | cons h hs ih =>
      rw [List.zipIdx_cons]
      refine List.pairwise_cons.mpr ⟨?_, ih (n + 1)⟩
      rintro ⟨g, i⟩ hg
      have hle := (List.mk_mem_zipIdx_iff_le_and_getElem?_sub.mp hg).1
      exact hle

/-- **What the search finds**: the only output header of the name, where the numbers of
headers have a sum and the index is an `int`. -/
theorem sfFindOutputByName_iff (hv : Shaped v) {idx : Int32} :
    sfFindOutputByName v name = (idx, false) ∧ 0 ≤ idx ↔
      v.attr.ninput.toNat + v.attr.noutput.toNat < 2 ^ 32 ∧ ∃ h i,
        outputsNamed v name = [(h, i)] ∧ i ≤ intMax ∧ idx = Int32.ofNat i := by
  have hlen : v.headers.length < 2 ^ 32 := by
    rw [hv.headers]
    exact v.attr.nheader.toNat_lt
  have hsum : (v.attr.ninput + v.attr.noutput).toNat =
      (v.attr.ninput.toNat + v.attr.noutput.toNat) % 2 ^ 32 := UInt32.toNat_add _ _
  have hin := v.attr.ninput.toNat_lt
  have hout := v.attr.noutput.toNat_lt
  rw [sfFindOutputByName, hsum]
  by_cases hfit : v.attr.ninput.toNat + v.attr.noutput.toNat < 2 ^ 32
  · rw [Nat.mod_eq_of_lt hfit, foldl_findOutputStep]
    · exact ⟨fun h => ⟨hfit, h⟩, fun h => h.2⟩
    · exact ((pairwise_zipIdx _ 0).take).drop
    · rintro ⟨h, i⟩ hp
      have hmem := List.mem_of_mem_take (List.mem_of_mem_drop hp)
      obtain ⟨hlt, -⟩ := List.getElem?_eq_some_iff.mp (List.mk_mem_zipIdx_iff_getElem?.mp hmem)
      exact hlt.trans hlen
  · -- the sum is less than the number of inputs, and the range is empty
    have hnil : (v.headers.zipIdx.take ((v.attr.ninput.toNat + v.attr.noutput.toNat) %
        2 ^ 32)).drop v.attr.ninput.toNat = [] := by
      rw [List.drop_eq_nil_iff, List.length_take]
      omega
    rw [hnil]
    constructor
    · rintro ⟨heq, hpos⟩
      cases heq
      exact absurd hpos (by decide)
    · rintro ⟨hlt, -⟩
      exact absurd hlt hfit

end Search

/-! ### What is taken from a member -/

section Take

variable {v : RecordView TaskAttr} {name : Bytes} {m : MemberRec} {h : MetaHeader} {i : ℕ}
  {t : Taken}

/-- The loop over the dimensions computes their product, when it is not too large. -/
theorem nelemLoop_eq {ds : List UInt64} {prod : UInt64} (hprod : 0 < prod.toNat) {n : UInt64}
    (hpos : 0 < n.toNat) :
    nelemLoop ds prod = .ok n ↔ n.toNat = prod.toNat * (ds.map UInt64.toNat).prod := by
  induction ds generalizing prod with
  | nil =>
      simp only [nelemLoop, List.map_nil, List.prod_nil, Nat.mul_one]
      constructor
      · intro heq
        cases heq
        rfl
      · intro heq
        rw [UInt64.toNat_inj.mp heq]
  | cons d ds ih =>
      rw [nelemLoop, List.map_cons, List.prod_cons]
      by_cases hd : d = 0
      · rw [if_pos hd, hd, UInt64.toNat_zero, Nat.zero_mul, Nat.mul_zero]
        constructor
        · intro heq
          cases heq
          exact absurd hpos (lt_irrefl _)
        · omega
      · have hdpos : 0 < d.toNat := by
          rcases Nat.eq_zero_or_pos d.toNat with hz | hz
          · exact absurd (UInt64.toNat_inj.mp hz) hd
          · exact hz
        have hmax : (0xFFFFFFFFFFFFFFFF / d).toNat = (2 ^ 64 - 1) / d.toNat := UInt64.toNat_div _ _
        rw [if_neg hd]
        by_cases hbig : prod > 0xFFFFFFFFFFFFFFFF / d
        · rw [if_pos hbig]
          have hover : (2 ^ 64 - 1) < prod.toNat * d.toNat := by
            rw [gt_iff_lt, UInt64.lt_iff_toNat_lt, hmax, Nat.div_lt_iff_lt_mul hdpos] at hbig
            exact hbig
          constructor
          · intro heq
            cases heq
          · intro heq
            rcases Nat.eq_zero_or_pos (ds.map UInt64.toNat).prod with hz | hz
            · rw [hz] at heq
              omega
            · have hlt := n.toNat_lt
              have hle := Nat.le_mul_of_pos_right (prod.toNat * d.toNat) hz
              rw [← Nat.mul_assoc] at heq
              omega
        · have hfit : prod.toNat * d.toNat < 2 ^ 64 := by
            rw [gt_iff_lt, UInt64.lt_iff_toNat_lt, hmax, Nat.div_lt_iff_lt_mul hdpos] at hbig
            omega
          have hmul : (prod * d).toNat = prod.toNat * d.toNat := by
            rw [UInt64.toNat_mul, Nat.mod_eq_of_lt hfit]
          rw [if_neg hbig, ih (by rw [hmul]; exact Nat.mul_pos hprod hdpos), hmul, Nat.mul_assoc]

/-- **The number of elements is the product of the dimensions**, when it is not too large. -/
theorem sfHeaderNelem_eq {n : UInt64} (hpos : 0 < n.toNat) :
    sfHeaderNelem h = .ok n ↔ n.toNat = nelemOf h := by
  rw [sfHeaderNelem, nelemOf]
  by_cases hndim : h.ndim = 0
  · rw [if_pos hndim, hndim, UInt32.toNat_zero, List.take_zero, List.map_nil, List.prod_nil]
    constructor
    · intro heq
      cases heq
      rfl
    · intro heq
      have hone : n = 1 := UInt64.toNat_inj.mp heq
      rw [hone]
  · rw [if_neg hndim, nelemLoop_eq (by decide) hpos, UInt64.toNat_one, Nat.one_mul]

/-- The cast reads as many bytes as an element of the type has. -/
theorem castSize_of_statable (hstat : sfDtypeStatable h.typeBits = true) :
    castSize (h.typeBits &&& tpbParmTypeMask) = some (elemSizeOf h) ∧ 0 < elemSizeOf h := by
  unfold sfDtypeStatable at hstat
  rw [decide_eq_true_eq] at hstat
  unfold elemSizeOf tpbDtypeElemSize
  generalize h.typeBits &&& tpbParmTypeMask = dt at hstat ⊢
  simp only [List.mem_cons, List.not_mem_nil, or_false] at hstat
  rcases hstat with rfl | rfl | rfl | rfl | rfl | rfl | rfl | rfl | rfl | rfl | rfl <;> decide

/-- The division of a size by the number of elements, when it leaves no remainder. -/
theorem takeElems_iff {ptr : Bytes} {nbytes : UInt64} :
    takeElems h i ptr nbytes = .ok t ↔ t.header = h ∧ t.index = i ∧ t.ptr = ptr ∧
      t.nelem.toNat = nelemOf h ∧ 0 < nelemOf h ∧ 0 < t.esz.toNat ∧
      t.esz.toNat * nelemOf h = nbytes.toNat := by
  unfold takeElems
  constructor
  · intro hok
    split at hok
    · cases hok
    · rename_i n hn
      split_ifs at hok with hzero hdiv
      cases hok
      have hpos : 0 < n.toNat := by
        rcases Nat.eq_zero_or_pos n.toNat with hz | hz
        · exact absurd (UInt64.toNat_inj.mp hz) hzero
        · exact hz
      have hnelem := (sfHeaderNelem_eq hpos).mp hn
      push Not at hdiv
      obtain ⟨hesz, hmul⟩ := hdiv
      have hle : (nbytes / n).toNat * n.toNat ≤ nbytes.toNat := by
        rw [UInt64.toNat_div]
        exact Nat.div_mul_le_self _ _
      have hnbytes := nbytes.toNat_lt
      have hexact : (nbytes / n).toNat * n.toNat = nbytes.toNat := by
        have heq := congrArg UInt64.toNat hmul
        rwa [UInt64.toNat_mul, Nat.mod_eq_of_lt (by omega)] at heq
      refine ⟨rfl, rfl, rfl, hnelem, hnelem ▸ hpos, ?_, hnelem ▸ hexact⟩
      rcases Nat.eq_zero_or_pos (nbytes / n).toNat with hz | hz
      · exact absurd (UInt64.toNat_inj.mp hz) hesz
      · exact hz
  · obtain ⟨header, index, ptr', n, esz⟩ := t
    rintro ⟨rfl, rfl, rfl, hn, hpos, hesz, hmul⟩
    dsimp only at hn hesz hmul
    rw [← hn] at hpos hmul
    rw [(sfHeaderNelem_eq hpos).mpr hn]
    have hzero : n ≠ 0 := by
      rintro rfl
      exact absurd hpos (lt_irrefl _)
    have hdiv : nbytes / n = esz := by
      apply UInt64.toNat_inj.mp
      rw [UInt64.toNat_div, ← hmul, Nat.mul_div_cancel _ hpos]
    have hexact : esz * n = nbytes := by
      apply UInt64.toNat_inj.mp
      have hlt := nbytes.toNat_lt
      rw [UInt64.toNat_mul, hmul, Nat.mod_eq_of_lt hlt]
    have hne : esz ≠ 0 := by
      rintro rfl
      exact absurd hesz (lt_irrefl _)
    simp only [hzero, hdiv, hexact, hne, ne_eq, not_true_eq_false, or_self, if_false]

/-- The position that is computed for a header. -/
def positionOf (v : RecordView TaskAttr) (i : ℕ) : UInt64 :=
  ((v.headers.take i).map MetaHeader.dataSize).sum

/-- The pointer to data that is there. -/
theorem headerDataPtr_eq (hv : Shaped v) (hget : v.headers[i]? = some h)
    (hpos : 0 < h.dataSize.toNat) :
    tpbRafHeaderDataPtr v.headers v.dataPtr v.datasize i =
      if (positionOf v i).toNat + h.dataSize.toNat ≤ v.data.length then
        .ok (some (v.data.drop (positionOf v i).toNat), h.dataSize)
      else .error (.code .rafMisc .fileIoFail) := by
  have hdata := hv.data
  have hlt := v.datasize.toNat_lt
  unfold tpbRafHeaderDataPtr
  rw [hget]
  simp only
  change (if positionOf v i > v.datasize ∨ h.dataSize > v.datasize - positionOf v i then _ else
    _) = _
  have hcond : (positionOf v i > v.datasize ∨ h.dataSize > v.datasize - positionOf v i) ↔
      ¬(positionOf v i).toNat + h.dataSize.toNat ≤ v.data.length := by
    rw [gt_iff_lt, gt_iff_lt, UInt64.lt_iff_toNat_lt, UInt64.lt_iff_toNat_lt, hdata]
    by_cases hle : positionOf v i ≤ v.datasize
    · rw [UInt64.toNat_sub_of_le _ _ hle]
      rw [UInt64.le_iff_toNat_le] at hle
      omega
    · rw [UInt64.le_iff_toNat_le] at hle
      omega
  by_cases hfit : (positionOf v i).toNat + h.dataSize.toNat ≤ v.data.length
  · have hsome : v.dataPtr = some v.data := by
      refine if_neg ?_
      intro hzero
      rw [hzero, UInt64.toNat_zero] at hdata
      omega
    rw [if_neg (by rw [hcond]; exact not_not.mpr hfit), if_pos hfit, hsome]
    simp only [reduceCtorEq, false_and, if_false, Option.map_some]
    rfl
  · rw [if_pos (hcond.mpr hfit), if_neg hfit]

/-- The size that comes with a pointer is that of the header. -/
theorem headerDataPtr_size {ptr : Option Bytes} {nbytes : UInt64} (hget : v.headers[i]? = some h)
    (hok : tpbRafHeaderDataPtr v.headers v.dataPtr v.datasize i = .ok (ptr, nbytes)) :
    nbytes = h.dataSize := by
  unfold tpbRafHeaderDataPtr at hok
  rw [hget] at hok
  simp only at hok
  split_ifs at hok
  exact (Prod.mk.inj (Except.ok.inj hok)).2.symm

/-- What is taken from a record, in terms of the record. -/
structure TakeSpec (v : RecordView TaskAttr) (name : Bytes) (t : Taken) : Prop where
  counts : v.attr.ninput.toNat + v.attr.noutput.toNat < 2 ^ 32
  only : outputsNamed v name = [(t.header, t.index)]
  index : t.index ≤ intMax
  statable : sfDtypeStatable t.header.typeBits = true
  nelem : t.nelem.toNat = nelemOf t.header
  nonempty : 0 < nelemOf t.header
  esz : 0 < t.esz.toNat
  size : t.esz.toNat * nelemOf t.header = t.header.dataSize.toNat
  fits : (positionOf v t.index).toNat + t.header.dataSize.toNat ≤ v.data.length
  ptr : t.ptr = v.data.drop (positionOf v t.index).toNat

/-- What `_sf_collect_samples_member` takes from a member, if it takes anything. -/
def taken (dname : Bytes) (m : MemberRec) : Option Taken := (takeOutput m dname).toOption

theorem taken_eq_some : taken name m = some t ↔ takeOutput m name = .ok t := by
  unfold taken
  rcases takeOutput m name with e | t'
  · simp [Except.toOption]
  · simp [Except.toOption]

/-- An output header is the header at its index. -/
theorem getElem?_of_outputsNamed (hmem : (h, i) ∈ outputsNamed v name) :
    v.headers[i]? = some h := by
  have hin := List.mem_of_mem_take (List.mem_of_mem_drop (List.mem_of_mem_filter hmem))
  exact List.mk_mem_zipIdx_iff_getElem?.mp hin

/-- **What the code takes from a member.** -/
theorem taken_iff (hv : Shaped v) (hm : m.record = some v) :
    taken name m = some t ↔ TakeSpec v name t := by
  rw [taken_eq_some, takeOutput, hm]
  simp only
  constructor
  · intro hok
    rcases hfind : sfFindOutputByName v name with ⟨idx, dup⟩
    rw [hfind] at hok
    simp only at hok
    split_ifs at hok with hneg hdup
    have hpos : 0 ≤ idx := Int32.not_lt.mp hneg
    obtain rfl : dup = false := Bool.eq_false_iff.mpr hdup
    obtain ⟨hcounts, h, i, honly, hmax, rfl⟩ := (sfFindOutputByName_iff hv).mp ⟨hfind, hpos⟩
    have hidx : (Int32.ofNat i).toInt.toNat = i := by
      have hmax' : i ≤ 2147483647 := hmax
      rw [toInt_ofNat_index (by omega), if_pos hmax, Int.toNat_natCast]
    have hget : v.headers[i]? = some h :=
      getElem?_of_outputsNamed (by rw [honly]; exact List.mem_singleton_self _)
    rw [hidx, takeHeader, hget] at hok
    simp only at hok
    split at hok
    · cases hok
    · rename_i hstat
      split at hok
      · cases hok
      · rename_i ptr nbytes hptr
        obtain ⟨rfl, rfl, hptr', hnelem, hnonempty, hesz, hsize⟩ := takeElems_iff.mp hok
        rw [headerDataPtr_size hget hptr] at hsize
        have hdata : 0 < t.header.dataSize.toNat := by
          rw [← hsize]
          exact Nat.mul_pos hesz hnonempty
        rw [headerDataPtr_eq hv hget hdata] at hptr
        split_ifs at hptr with hfits
        obtain ⟨rfl, -⟩ := Prod.mk.inj (Except.ok.inj hptr)
        have hstat' : sfDtypeStatable t.header.typeBits = true := by simpa using hstat
        exact ⟨hcounts, honly, hmax, hstat', hnelem, hnonempty, hesz, hsize, hfits, hptr'⟩
  · rintro ⟨hcounts, honly, hmax, hstat, hnelem, hnonempty, hesz, hsize, hfits, hptr⟩
    obtain ⟨hfind, hpos⟩ := (sfFindOutputByName_iff hv).mpr ⟨hcounts, _, _, honly, hmax, rfl⟩
    have hidx : (Int32.ofNat t.index).toInt.toNat = t.index := by
      have hmax' : t.index ≤ 2147483647 := hmax
      rw [toInt_ofNat_index (by omega), if_pos hmax, Int.toNat_natCast]
    have hget : v.headers[t.index]? = some t.header :=
      getElem?_of_outputsNamed (by rw [honly]; exact List.mem_singleton_self _)
    have hdata : 0 < t.header.dataSize.toNat := by
      rw [← hsize]
      exact Nat.mul_pos hesz hnonempty
    rw [hfind]
    simp only [Int32.not_lt.mpr hpos, if_false, Bool.false_eq_true, hidx]
    rw [takeHeader, hget]
    simp only [hstat, Bool.not_true, Bool.false_eq_true, if_false, headerDataPtr_eq hv hget hdata,
      if_pos hfits, Option.getD_some]
    exact takeElems_iff.mpr ⟨rfl, rfl, hptr, hnelem, hnonempty, hesz, hsize⟩

end Take

/-! ### The loop over the members -/

/-- The elements `ks` of a member, with the distance `esz` between them. -/
def readElems (i : ℕ) (ptr : Bytes) (dt : UInt32) (esz size : ℕ) (ks : List ℕ) : List Sample :=
  ks.map fun k => ⟨i, k, dt, pread ptr (k * esz) size⟩

/-- The elements that are read from what was taken. -/
def Taken.elems (i : ℕ) (t : Taken) : List Sample :=
  readElems i t.ptr (t.header.typeBits &&& tpbParmTypeMask) t.esz.toNat (elemSizeOf t.header)
    (List.range t.nelem.toNat)

/-- Every element is read within the buffer. -/
def Taken.InBounds (t : Taken) : Prop :=
  ∀ k < t.nelem.toNat, k * t.esz.toNat + elemSizeOf t.header ≤ t.ptr.length

section Loop

variable {name : Bytes} {m : MemberRec} {ms : List MemberRec} {i : ℕ} {t : Taken}
  {s : SampleAccum}

/-- The loop over the elements appends all of them, or reads behind the buffer. -/
theorem appendElems_cases {ptr : Bytes} {dt : UInt32} {esz size : ℕ}
    (hcast : castSize dt = some size) (k n : ℕ) :
    appendElems i ptr dt esz k n s = .ok ()
        { s with samples := s.samples ++ readElems i ptr dt esz size (List.range' k n) } ∨
      (∃ j < n, ¬(k + j) * esz + size ≤ ptr.length) ∧
        ∃ s', appendElems i ptr dt esz k n s = .error .undefined s' := by
  induction n generalizing k s with
  | zero =>
      left
      simp only [appendElems, readElems, List.range'_zero, List.map_nil, List.append_nil]
      rfl
  | succ n ih =>
      by_cases hfit : k * esz + size ≤ ptr.length
      · have hstep : sfAppendElemAsDouble i k (k * esz) ptr dt s = .ok ()
            { s with samples := s.samples ++ [⟨i, k, dt, pread ptr (k * esz) size⟩] } := by
          simp only [sfAppendElemAsDouble, hcast, if_pos hfit]
        rcases @ih { s with samples := s.samples ++ [⟨i, k, dt, pread ptr (k * esz) size⟩] }
          (k + 1) with hok | ⟨⟨j, hj, hout⟩, s', herr⟩
        · left
          rw [appendElems, bind_ok hstep, hok]
          simp only [readElems, List.range'_succ, List.map_cons, List.append_assoc,
            List.singleton_append]
        · right
          refine ⟨⟨j + 1, by omega, ?_⟩, s', ?_⟩
          · rwa [Nat.add_comm j 1, ← Nat.add_assoc]
          · rw [appendElems, bind_ok hstep, herr]
      · right
        refine ⟨⟨0, by omega, by simpa using hfit⟩, s, ?_⟩
        rw [appendElems]
        refine bind_error ?_
        simp only [sfAppendElemAsDouble, hcast, if_neg hfit]

/-- A header of a record that is found is there. -/
theorem takeOutput_defined {v : RecordView TaskAttr} (hv : Shaped v) (hm : m.record = some v)
    {e : Err} {w : Option SampleWarning} (herr : takeOutput m name = .error (e, w)) :
    ∃ mod cause, e = .code mod cause := by
  rw [takeOutput, hm] at herr
  simp only at herr
  rcases hfind : sfFindOutputByName v name with ⟨idx, dup⟩
  rw [hfind] at herr
  simp only at herr
  split_ifs at herr with hneg hdup
  · cases herr
    exact ⟨_, _, rfl⟩
  · cases herr
    exact ⟨_, _, rfl⟩
  · obtain rfl : dup = false := Bool.eq_false_iff.mpr hdup
    obtain ⟨-, h, j, honly, hmax, rfl⟩ :=
      (sfFindOutputByName_iff hv).mp ⟨hfind, Int32.not_lt.mp hneg⟩
    have hidx : (Int32.ofNat j).toInt.toNat = j := by
      have hmax' : j ≤ 2147483647 := hmax
      rw [toInt_ofNat_index (by omega), if_pos hmax, Int.toNat_natCast]
    have hget : v.headers[j]? = some h :=
      getElem?_of_outputsNamed (by rw [honly]; exact List.mem_singleton_self _)
    rw [hidx, takeHeader, hget] at herr
    simp only at herr
    split at herr
    · cases herr
      exact ⟨_, _, rfl⟩
    · split at herr
      · rename_i e' hptr
        cases herr
        unfold tpbRafHeaderDataPtr at hptr
        rw [hget] at hptr
        simp only at hptr
        split_ifs at hptr
        · cases hptr
          exact ⟨_, _, rfl⟩
        · cases hptr
          exact ⟨_, _, rfl⟩
      · unfold takeElems at herr
        split at herr
        · cases herr
          exact ⟨_, _, rfl⟩
        · split_ifs at herr <;> (cases herr; exact ⟨_, _, rfl⟩)

/-- A member that gives nothing, or does not fit, leaves the samples and their schema as
they are. -/
theorem sfCollectSamplesMember_rejects {v : RecordView TaskAttr} (hv : Shaped v)
    (hm : m.record = some v) (hnot : ∀ t, taken name m = some t →
      s.samples ≠ [] ∧ sfUattrSchemaMatch s.ua t.header.uattrBits = false) :
    ∃ mod cause s', sfCollectSamplesMember i m name s = .error (.code mod cause) s' ∧
      s'.samples = s.samples ∧ s'.ua = s.ua := by
  rw [sfCollectSamplesMember]
  rcases htake : takeOutput m name with ⟨e, w⟩ | t
  · obtain ⟨mod, cause, rfl⟩ := takeOutput_defined hv hm htake
    exact ⟨mod, cause, _, rfl, rfl, rfl⟩
  · obtain ⟨hne, hmatch⟩ := hnot t (taken_eq_some.mpr htake)
    have hcheck : checkSchema name t.header s =
        .error (.code .none .cliFail) { s with warn := some (.mismatch name) } := by
      rw [checkSchema, if_neg hne, if_neg (by rw [hmatch]; exact Bool.false_ne_true)]
    exact ⟨.none, .cliFail, _, bind_error hcheck, rfl, rfl⟩

/-- A member that fits is appended, if it is read within the buffer. -/
theorem sfCollectSamplesMember_accepts {v : RecordView TaskAttr} (hv : Shaped v)
    (hm : m.record = some v) (htake : taken name m = some t)
    (hfit : s.samples = [] ∨ sfUattrSchemaMatch s.ua t.header.uattrBits = true) :
    (∃ s', sfCollectSamplesMember i m name s = .ok () s' ∧ s'.samples = s.samples ++ t.elems i ∧
      s'.ua = if s.samples = [] then t.header.uattrBits else s.ua) ∨
    ¬t.InBounds ∧ ∃ s', sfCollectSamplesMember i m name s = .error .undefined s' := by
  have hspec := (taken_iff hv hm).mp htake
  have hcast := (castSize_of_statable hspec.statable).1
  rw [taken_eq_some] at htake
  obtain ⟨s₁, hcheck, hsamples, hua⟩ : ∃ s₁, checkSchema name t.header s = .ok () s₁ ∧
      s₁.samples = s.samples ∧ s₁.ua = if s.samples = [] then t.header.uattrBits else s.ua := by
    rw [checkSchema]
    by_cases hnil : s.samples = []
    · rw [if_pos hnil, if_pos hnil]
      exact ⟨_, rfl, rfl, rfl⟩
    · rw [if_neg hnil, if_neg hnil, if_pos (hfit.resolve_left hnil)]
      exact ⟨_, rfl, rfl, rfl⟩
  have hrun : sfCollectSamplesMember i m name s = appendElems i t.ptr
      (t.header.typeBits &&& tpbParmTypeMask) t.esz.toNat 0 t.nelem.toNat s₁ := by
    rw [sfCollectSamplesMember, htake]
    exact bind_ok hcheck
  rw [hrun]
  rcases @appendElems_cases i s₁ t.ptr _ t.esz.toNat _ hcast 0 t.nelem.toNat with
    hok | ⟨⟨k, hk, hout⟩, s', herr⟩
  · left
    refine ⟨_, hok, ?_, hua⟩
    simp only [hsamples, Taken.elems, List.range_eq_range']
  · right
    refine ⟨fun hin => hout ?_, s', herr⟩
    rw [Nat.zero_add]
    exact hin k hk

/-- What the code takes from the member at subrank `i`, under the schema `ua`. -/
def takenOf (ua : UInt64) (dname : Bytes) (m : MemberRec) (i : ℕ) : List Sample :=
  match taken dname m with
  | some t => if sfUattrSchemaMatch ua t.header.uattrBits then t.elems i else []
  | none => []

/-- The schema of the samples: the one that is fixed, or that of the first member that
gives anything. -/
def schemaFrom (s : SampleAccum) (dname : Bytes) (ms : List MemberRec) : Option UInt64 :=
  if s.samples = [] then (ms.findSome? (taken dname)).map (·.header.uattrBits) else some s.ua

/-- The samples of all members under a schema. -/
def takenSamples (dname : Bytes) (i : ℕ) (ms : List MemberRec) : Option UInt64 → List Sample
  | some ua => (ms.zipIdx i).flatMap fun p => takenOf ua dname p.1 p.2
  | none => []

theorem takenSamples_cons {ua : Option UInt64} :
    takenSamples name i (m :: ms) ua =
      (ua.elim [] fun u => takenOf u name m i) ++ takenSamples name (i + 1) ms ua := by
  rcases ua with - | u
  · rfl
  · simp only [takenSamples, List.zipIdx_cons, List.flatMap_cons, Option.elim_some]

theorem takenSamples_nil {ua : Option UInt64} : takenSamples name i [] ua = [] := by
  cases ua <;> rfl

/-- A member that gives nothing plays no part in the schema. -/
theorem schemaFrom_cons_none (hnone : taken name m = none) :
    schemaFrom s name (m :: ms) = schemaFrom s name ms := by
  unfold schemaFrom
  rw [List.findSome?_cons, hnone]

theorem takenOf_none {ua : UInt64} (hnone : taken name m = none) : takenOf ua name m i = [] := by
  rw [takenOf, hnone]

/-- The state after a round has the same samples and schema as far as the schema goes. -/
theorem schemaFrom_congr {s' : SampleAccum} (hsamples : s'.samples = s.samples)
    (hua : s'.ua = s.ua) : schemaFrom s' name ms = schemaFrom s name ms := by
  rw [schemaFrom, schemaFrom, hsamples, hua]

/-- An element that is read makes a sample. -/
theorem Taken.elems_ne_nil (hpos : 0 < t.nelem.toNat) : t.elems i ≠ [] := by
  unfold Taken.elems readElems
  rw [ne_eq, List.map_eq_nil_iff, List.range_eq_nil]
  omega

theorem sfUattrSchemaMatch_self (a : UInt64) : sfUattrSchemaMatch a a = true :=
  decide_eq_true rfl

/-- What a round does to the samples, when it has a result. -/
theorem round_samples {v : RecordView TaskAttr} (hv : Shaped v) (hm : m.record = some v) :
    (∃ s', (sfCollectSamplesMember i m name s = .ok () s' ∨
        ∃ mod cause, sfCollectSamplesMember i m name s = .error (.code mod cause) s') ∧
      schemaFrom s' name ms = schemaFrom s name (m :: ms) ∧
      s'.samples = s.samples ++
        (schemaFrom s name (m :: ms)).elim [] fun ua => takenOf ua name m i) ∨
    (∃ t ua, taken name m = some t ∧ schemaFrom s name (m :: ms) = some ua ∧
        sfUattrSchemaMatch ua t.header.uattrBits = true ∧ ¬t.InBounds) ∧
      ∃ s', sfCollectSamplesMember i m name s = .error .undefined s' := by
  rcases htake : taken name m with - | t
  · obtain ⟨mod, cause, s', herr, hsamples, hua⟩ := sfCollectSamplesMember_rejects (i := i) (s := s)
      hv hm fun t ht => absurd (htake.symm.trans ht) (by simp)
    refine .inl ⟨s', .inr ⟨mod, cause, herr⟩, ?_, ?_⟩
    · rw [schemaFrom_congr hsamples hua, schemaFrom_cons_none htake]
    · rw [hsamples]
      rcases schemaFrom s name (m :: ms) with - | u
      · simp
      · simp [takenOf_none htake]
  · by_cases hfit : s.samples = [] ∨ sfUattrSchemaMatch s.ua t.header.uattrBits = true
    · obtain ⟨ua, hschema, hmatch, hua⟩ : ∃ ua, schemaFrom s name (m :: ms) = some ua ∧
          sfUattrSchemaMatch ua t.header.uattrBits = true ∧
          ua = if s.samples = [] then t.header.uattrBits else s.ua := by
        refine ⟨_, ?_, ?_, rfl⟩
        · unfold schemaFrom
          split_ifs with hnil
          · rw [List.findSome?_cons, htake]
            rfl
          · rfl
        · split_ifs with hnil
          · exact sfUattrSchemaMatch_self _
          · exact hfit.resolve_left hnil
      rcases sfCollectSamplesMember_accepts (i := i) hv hm htake hfit with
        ⟨s', hok, hsamples, hua'⟩ | ⟨hout, hundef⟩
      · have hpos : 0 < t.nelem.toNat := by
          have hspec := (taken_iff hv hm).mp htake
          rw [hspec.nelem]
          exact hspec.nonempty
        have hne : s'.samples ≠ [] := by
          rw [hsamples]
          exact List.append_ne_nil_of_right_ne_nil _ (t.elems_ne_nil hpos)
        refine .inl ⟨s', .inl hok, ?_, ?_⟩
        · rw [schemaFrom, if_neg hne, hua', ← hua, hschema]
        · rw [hsamples, hschema, Option.elim_some, takenOf, htake]
          simp only [hmatch, if_true]
      · exact .inr ⟨⟨t, ua, rfl, hschema, hmatch, hout⟩, hundef⟩
    · push Not at hfit
      obtain ⟨hne, hmatch⟩ := hfit
      have hmatch' : sfUattrSchemaMatch s.ua t.header.uattrBits = false := by simpa using hmatch
      obtain ⟨mod, cause, s', herr, hsamples, hua⟩ := sfCollectSamplesMember_rejects (i := i)
        (s := s) hv hm fun t' ht' => by
          rw [htake] at ht'
          cases ht'
          exact ⟨hne, hmatch'⟩
      have hschema : ∀ ms, schemaFrom s name ms = some s.ua := fun ms => if_neg hne
      refine .inl ⟨s', .inr ⟨mod, cause, herr⟩, ?_, ?_⟩
      · rw [schemaFrom_congr hsamples hua, hschema, hschema]
      · rw [hsamples, hschema, Option.elim_some, takenOf, htake]
        simp [hmatch']

/-- **The samples of the loop**, by induction on the members: the schema is fixed from the
first samples on. The loop ends when what it takes under the schema is read within the
buffers. -/
theorem aggregateMembers_samples {row : SampleRow}
    (hshape : ∀ m ∈ ms, ∀ v, m.record = some v → Shaped v) :
    (∀ row', aggregateMembers name i ms row = .ok row' → row'.acc.samples =
      row.acc.samples ++ takenSamples name i ms (schemaFrom row.acc name ms)) ∧
    ((∀ m ∈ ms, ∀ t, taken name m = some t → ∀ ua, schemaFrom row.acc name ms = some ua →
        sfUattrSchemaMatch ua t.header.uattrBits = true → t.InBounds) →
      ∃ row', aggregateMembers name i ms row = .ok row') := by
  induction ms generalizing i row with
  | nil =>
      refine ⟨fun row' hok => ?_, fun _ => ⟨row, rfl⟩⟩
      cases hok
      rw [takenSamples_nil, List.append_nil]
  | cons m ms ih =>
      have hshape' : ∀ m ∈ ms, ∀ v, m.record = some v → Shaped v := fun m' hm' =>
        hshape m' (List.mem_cons_of_mem _ hm')
      rw [aggregateMembers]
      rcases hm : m.record with - | v
      · have hnone : taken name m = none := by
          rw [taken, takeOutput, hm]
          rfl
        obtain ⟨ihsamples, ihruns⟩ := @ih (i + 1) row hshape'
        simp only [Option.isNone_none, if_true]
        rw [schemaFrom_cons_none hnone, takenSamples_cons]
        refine ⟨fun row' hok => ?_, fun hin => ihruns fun m' hm' => hin m' (.tail _ hm')⟩
        rw [ihsamples row' hok]
        congr 1
        rcases schemaFrom row.acc name ms with - | u
        · rfl
        · rw [Option.elim_some, takenOf_none hnone, List.nil_append]
      · have hv := hshape m List.mem_cons_self v hm
        simp only [Option.isNone_some, Bool.false_eq_true, if_false]
        -- the marks that are reset in front of a round play no part in the schema
        have hsame : ∀ ms, schemaFrom { row.acc with flattened := false, warn := none } name ms =
            schemaFrom row.acc name ms := fun ms => schemaFrom_congr rfl rfl
        rcases @round_samples name m ms i { row.acc with flattened := false, warn := none } v hv hm
          with ⟨s', hround, hschema, hsamples⟩ | ⟨⟨t, ua, htake, hschema, hmatch, hout⟩, s', hundef⟩
        · rw [hsame] at hschema hsamples
          have hnext : ∀ row' : SampleRow, row'.acc = s' →
              (∀ row'', aggregateMembers name (i + 1) ms row' = .ok row'' →
                row''.acc.samples = row.acc.samples ++
                  takenSamples name i (m :: ms) (schemaFrom row.acc name (m :: ms))) ∧
              ((∀ m' ∈ m :: ms, ∀ t, taken name m' = some t → ∀ ua,
                  schemaFrom row.acc name (m :: ms) = some ua →
                  sfUattrSchemaMatch ua t.header.uattrBits = true → t.InBounds) →
                ∃ row'', aggregateMembers name (i + 1) ms row' = .ok row'') := by
            rintro row' rfl
            obtain ⟨ihsamples, ihruns⟩ := @ih (i + 1) row' hshape'
            rw [hschema] at ihsamples ihruns
            refine ⟨fun row'' hok => ?_, fun hin => ihruns fun m' hm' => hin m' (.tail _ hm')⟩
            rw [ihsamples row'' hok, hsamples, takenSamples_cons, List.append_assoc]
          rcases hround with hok | ⟨mod, cause, herr⟩
          · rw [hok]
            exact hnext _ rfl
          · rw [herr]
            exact hnext _ rfl
        · rw [hsame] at hschema
          rw [hundef]
          refine ⟨fun row' hok => (nomatch hok), fun hin => ?_⟩
          exact absurd (hin m List.mem_cons_self t htake ua hschema hmatch) hout

end Loop

/-! ### What is taken and what is due -/

/-- Lists whose entries carry the place they come from are equal when they are equal at
each place. -/
theorem flatMap_zipIdx_inj {α β : Type} {tag : β → ℕ} {f g : α × ℕ → List β}
    (hf : ∀ p, ∀ b ∈ f p, tag b = p.2) (hg : ∀ p, ∀ b ∈ g p, tag b = p.2) (l : List α) (n : ℕ) :
    (l.zipIdx n).flatMap f = (l.zipIdx n).flatMap g ↔ ∀ p ∈ l.zipIdx n, f p = g p := by
  constructor
  · intro heq
    induction l generalizing n with
    | nil => intro p hp; cases hp
    | cons a l ih =>
        have hfilter : ∀ (k : α × ℕ → List β), (∀ p, ∀ b ∈ k p, tag b = p.2) →
            (((a :: l).zipIdx n).flatMap k).filter (tag · = n) = k (a, n) := by
          intro k hk
          rw [List.zipIdx_cons, List.flatMap_cons, List.filter_append]
          have hhead : (k (a, n)).filter (tag · = n) = k (a, n) :=
            List.filter_eq_self.mpr fun b hb => decide_eq_true (hk _ b hb)
          have htail : ((l.zipIdx (n + 1)).flatMap k).filter (tag · = n) = [] := by
            refine List.filter_eq_nil_iff.mpr fun b hb => ?_
            obtain ⟨⟨c, j⟩, hc, hb⟩ := List.mem_flatMap.mp hb
            have hle := (List.mk_mem_zipIdx_iff_le_and_getElem?_sub.mp hc).1
            rw [hk _ b hb, decide_eq_true_eq]
            omega
          rw [hhead, htail, List.append_nil]
        have hhead : f (a, n) = g (a, n) := by
          rw [← hfilter f hf, heq, hfilter g hg]
        rw [List.zipIdx_cons, List.flatMap_cons, List.flatMap_cons, hhead,
          List.append_cancel_left_eq] at heq
        intro p hp
        rw [List.zipIdx_cons] at hp
        rcases List.mem_cons.mp hp with rfl | hp
        · exact hhead
        · exact ih (n + 1) heq p hp
  · intro h
    exact List.flatMap_congr h

section Due

variable {name : Bytes} {m : MemberRec} {ms : List MemberRec} {v : RecordView TaskAttr} {t : Taken}
  {o : Output}

theorem recordOutput_eq_some : recordOutput v name = some o ↔
    outputsNamed v name = [(o.header, o.index)] ∧ SoundOutput v o.header o.index ∧
      o.data = pread v.data (claimed (v.headers.take o.index)) o.header.dataSize.toNat := by
  unfold recordOutput
  split
  · rename_i h i honly
    split_ifs with hsound
    · constructor
      · intro heq
        cases heq
        exact ⟨honly, hsound, rfl⟩
      · obtain ⟨header, index, data⟩ := o
        rintro ⟨heq, -, hdata⟩
        dsimp only at heq hdata
        subst hdata
        rw [honly] at heq
        cases heq
        rfl
    · refine ⟨fun heq => (nomatch heq), ?_⟩
      rintro ⟨heq, hsound', -⟩
      rw [honly] at heq
      obtain ⟨hh, hi⟩ := Prod.mk.inj (List.cons.inj heq).1
      rw [← hh, ← hi] at hsound'
      exact absurd hsound' hsound
  · rename_i hnot
    refine ⟨fun heq => (nomatch heq), ?_⟩
    rintro ⟨heq, -⟩
    exact absurd heq (hnot _ _)

theorem memberOutput_eq_some (hm : m.record = some v) :
    memberOutput name m = some o ↔ recordOutput v name = some o := by
  rw [memberOutput, hm, Option.bind_some]

/-- The position that is computed is the position, when the sizes have a sum. -/
theorem toNat_positionOf {i : ℕ} (h : claimed (v.headers.take i) < 2 ^ 64) :
    (positionOf v i).toNat = claimed (v.headers.take i) :=
  toNat_sum_dataSize h

/-- The elements of an output, read from the payload as a whole. -/
theorem Output.elems_eq {pos i : ℕ} {data : Bytes}
    (hsize : nelemOf o.header * elemSizeOf o.header = o.header.dataSize.toNat)
    (hdata : o.data = pread data pos o.header.dataSize.toNat) :
    o.elems i = readElems i (data.drop pos) (o.header.typeBits &&& tpbParmTypeMask)
      (elemSizeOf o.header) (elemSizeOf o.header) (List.range (nelemOf o.header)) := by
  unfold Output.elems readElems
  refine List.map_congr_left fun k hk => ?_
  have hle : (k + 1) * elemSizeOf o.header ≤ o.header.dataSize.toNat := by
    rw [← hsize]
    exact Nat.mul_le_mul_right _ (List.mem_range.mp hk)
  rw [Nat.add_mul, Nat.one_mul] at hle
  have hread : pread o.data (k * elemSizeOf o.header) (elemSizeOf o.header) =
      pread (data.drop pos) (k * elemSizeOf o.header) (elemSizeOf o.header) := by
    rw [hdata, pread, pread, pread, List.drop_take, List.take_take, min_eq_left (by omega)]
  rw [hread]

/-- What is taken with the right size from the right place is the output of the member. -/
theorem TakeSpec.output (h : TakeSpec v name t) (hm : m.record = some v)
    (hesz : t.esz.toNat = elemSizeOf t.header)
    (hplace : claimed (v.headers.take t.index) < 2 ^ 64) :
    ∃ o, memberOutput name m = some o ∧ o.header = t.header ∧ ∀ i, o.elems i = t.elems i := by
  have hpos := toNat_positionOf hplace
  have hsize : nelemOf t.header * elemSizeOf t.header = t.header.dataSize.toNat := by
    rw [← h.size, hesz, Nat.mul_comm]
  have hfits := h.fits
  rw [hpos] at hfits
  have hout : recordOutput v name = some ⟨t.header, t.index,
      pread v.data (claimed (v.headers.take t.index)) t.header.dataSize.toNat⟩ :=
    recordOutput_eq_some.mpr ⟨h.only, ⟨h.statable, h.nonempty, hsize, hfits⟩, rfl⟩
  refine ⟨_, (memberOutput_eq_some hm).mpr hout, rfl, fun i => ?_⟩
  rw [Output.elems_eq hsize rfl, Taken.elems, h.ptr, hpos, hesz, h.nelem]

/-- An output whose index is an `int` is taken. -/
theorem take_of_output (hv : Shaped v) (hm : m.record = some v)
    (ho : memberOutput name m = some o) (hindex : o.index ≤ intMax)
    (hcounts : v.attr.ninput.toNat + v.attr.noutput.toNat < 2 ^ 32) :
    ∃ t, taken name m = some t ∧ t.header = o.header := by
  obtain ⟨honly, ⟨hstat, hpos, hsize, hfits⟩, -⟩ :=
    recordOutput_eq_some.mp ((memberOutput_eq_some hm).mp ho)
  have hesz := (castSize_of_statable hstat).2
  have hlt := v.datasize.toNat_lt
  have hdata := o.header.dataSize.toNat_lt
  rw [hv.data] at hfits
  have hplace := toNat_positionOf (v := v) (i := o.index) (by omega)
  have hnelem : (UInt64.ofNat (nelemOf o.header)).toNat = nelemOf o.header := by
    have hle : nelemOf o.header ≤ o.header.dataSize.toNat := by
      rw [← hsize]
      exact Nat.le_mul_of_pos_right _ hesz
    rw [UInt64.toNat_ofNat', Nat.mod_eq_of_lt (by omega)]
  have helem : (UInt64.ofNat (elemSizeOf o.header)).toNat = elemSizeOf o.header := by
    have hle : elemSizeOf o.header ≤ o.header.dataSize.toNat := by
      rw [← hsize]
      exact Nat.le_mul_of_pos_left _ hpos
    rw [UInt64.toNat_ofNat', Nat.mod_eq_of_lt (by omega)]
  refine ⟨⟨o.header, o.index, v.data.drop (positionOf v o.index).toNat,
    UInt64.ofNat (nelemOf o.header), UInt64.ofNat (elemSizeOf o.header)⟩,
    (taken_iff hv hm).mpr ⟨hcounts, honly, hindex, hstat, hnelem, hpos, ?_, ?_, ?_, rfl⟩, rfl⟩
  · rw [helem]
    exact hesz
  · rw [helem, Nat.mul_comm, hsize]
  · rw [hplace, hv.data]
    exact hfits

/-- What is taken and what is due come from the same header, and from the same place when
there is an output. -/
theorem TakeSpec.of_output (h : TakeSpec v name t) (hm : m.record = some v)
    (ho : memberOutput name m = some o) : o.header = t.header ∧ o.index = t.index ∧
      t.esz.toNat = elemSizeOf t.header ∧
      claimed (v.headers.take t.index) + t.header.dataSize.toNat ≤ v.data.length := by
  obtain ⟨honly, ⟨-, -, hsize, hfits⟩, -⟩ :=
    recordOutput_eq_some.mp ((memberOutput_eq_some hm).mp ho)
  rw [h.only] at honly
  obtain ⟨hh, hi⟩ := Prod.mk.inj (List.cons.inj honly).1
  rw [← hh, ← hi] at hfits
  rw [← hh, ← h.size, Nat.mul_comm] at hsize
  exact ⟨hh.symm, hi.symm, (Nat.eq_of_mul_eq_mul_right h.nonempty hsize).symm, hfits⟩

/-- Elements that are read within the buffer. -/
theorem TakeSpec.inBounds (h : TakeSpec v name t) (hesz : t.esz.toNat = elemSizeOf t.header) :
    t.InBounds := by
  intro k hk
  have hfits := h.fits
  have hle : (k + 1) * t.esz.toNat ≤ t.nelem.toNat * t.esz.toNat := Nat.mul_le_mul_right _ hk
  rw [Nat.add_mul, Nat.one_mul, h.nelem, Nat.mul_comm (nelemOf t.header), h.size] at hle
  rw [h.ptr, List.length_drop, ← hesz]
  omega

end Due

/-! ### The samples of a logical task -/

/-- What is taken has the size of its type, the complete unit of what was taken first, and
lies where the sizes of the headers in front of it put it. -/
structure SoundTake (first t : Taken) (m : MemberRec) : Prop where
  size : t.esz.toNat = elemSizeOf t.header
  unit : SameUnit first.header.uattrBits t.header.uattrBits
  place : ∀ v, m.record = some v → claimed (v.headers.take t.index) < 2 ^ 64

/-- The condition on the members of a task: what the code takes under the schema of the first
member is sound, and the header of an output that is due has an index that is an `int`. -/
structure SchemaKept (dname : Bytes) (ms : List MemberRec) : Prop where
  sound : ∀ first, ms.findSome? (taken dname) = some first → ∀ m ∈ ms, ∀ t,
    taken dname m = some t → sfUattrSchemaMatch first.header.uattrBits t.header.uattrBits →
      SoundTake first t m
  indexed : ∀ first, ms.findSome? (memberOutput dname) = some first → ∀ m ∈ ms, ∀ o,
    memberOutput dname m = some o → SameUnit first.header.uattrBits o.header.uattrBits →
      o.index ≤ intMax ∧ ∀ v, m.record = some v →
        v.attr.ninput.toNat + v.attr.noutput.toNat < 2 ^ 32

/-- Equal bits under the masks of the complete unit are equal under those of its value. -/
theorem SameUnit.schemaMatch {a b : UInt64} (h : SameUnit a b) : sfUattrSchemaMatch a b = true := by
  have hmask : ∀ x : UInt64, x &&& (tpbUattrShapeMask ||| tpbUnitMask) =
      x &&& (tpbUattrShapeMask ||| wholeUnitMask) &&& (tpbUattrShapeMask ||| tpbUnitMask) := by
    intro x
    rw [UInt64.and_assoc]
    rfl
  refine decide_eq_true ?_
  rw [hmask a, hmask b, h]

section Iff

variable {name : Bytes} {ms : List MemberRec} {m : MemberRec} {i : ℕ}

/-- What the member at subrank `i` gives, when `first` was taken first. -/
def givenOf (first : Option Taken) (dname : Bytes) (m : MemberRec) (i : ℕ) : List Sample :=
  first.elim [] fun f => takenOf f.header.uattrBits dname m i

/-- What is due of the member at subrank `i`, when `first` is the first output. -/
def dueOf (first : Option Output) (dname : Bytes) (m : MemberRec) (i : ℕ) : List Sample :=
  first.elim [] fun f => fittingOf f dname m i

/-- Something is given of a member exactly when something is taken that matches the first. -/
theorem givenOf_ne_nil (hshape : ∀ v, m.record = some v → Shaped v) {first : Option Taken} :
    givenOf first name m i ≠ [] ↔ ∃ f t, first = some f ∧ taken name m = some t ∧
      sfUattrSchemaMatch f.header.uattrBits t.header.uattrBits = true := by
  rcases first with - | f
  · simp [givenOf]
  · rcases htake : taken name m with - | t
    · simp [givenOf, takenOf, htake]
    · rcases hm : m.record with - | v
      · rw [taken, takeOutput, hm] at htake
        cases htake
      · have hspec := (taken_iff (hshape v hm) hm).mp htake
        have hne : t.elems i ≠ [] := t.elems_ne_nil (by rw [hspec.nelem]; exact hspec.nonempty)
        by_cases hmatch : sfUattrSchemaMatch f.header.uattrBits t.header.uattrBits = true
        · simp [givenOf, takenOf, htake, hmatch, hne]
        · simp [givenOf, takenOf, htake, hmatch]

/-- Something is due of a member exactly when it has an output that fits the first. -/
theorem dueOf_ne_nil {first : Option Output} :
    dueOf first name m i ≠ [] ↔ ∃ f o, first = some f ∧ memberOutput name m = some o ∧
      SameUnit f.header.uattrBits o.header.uattrBits := by
  rcases first with - | f
  · simp [dueOf]
  · rcases ho : memberOutput name m with - | o
    · simp [dueOf, fittingOf, ho]
    · rcases hm : m.record with - | v
      · rw [memberOutput, hm] at ho
        cases ho
      · obtain ⟨-, ⟨-, hpos, -⟩, -⟩ := recordOutput_eq_some.mp ((memberOutput_eq_some hm).mp ho)
        have hne : o.elems i ≠ [] := by
          unfold Output.elems
          rw [ne_eq, List.map_eq_nil_iff, List.range_eq_nil]
          omega
        by_cases hunit : SameUnit f.header.uattrBits o.header.uattrBits
        · simp [dueOf, fittingOf, ho, hunit, hne]
        · simp [dueOf, fittingOf, ho, hunit]

theorem member_of_givenOf {first : Option Taken} {s : Sample}
    (hs : s ∈ givenOf first name m i) : s.member = i := by
  rcases first with - | f
  · cases hs
  · simp only [givenOf, Option.elim_some, takenOf] at hs
    split at hs
    · split at hs
      · obtain ⟨k, -, rfl⟩ := List.mem_map.mp hs
        rfl
      · cases hs
    · cases hs

theorem member_of_dueOf {first : Option Output} {s : Sample}
    (hs : s ∈ dueOf first name m i) : s.member = i := by
  rcases first with - | f
  · cases hs
  · simp only [dueOf, Option.elim_some, fittingOf] at hs
    split at hs
    · split at hs
      · obtain ⟨k, -, rfl⟩ := List.mem_map.mp hs
        rfl
      · cases hs
    · cases hs

theorem takenSamples_eq : takenSamples name 0 ms ((ms.findSome? (taken name)).map
      (·.header.uattrBits)) =
    (ms.zipIdx).flatMap fun p => givenOf (ms.findSome? (taken name)) name p.1 p.2 := by
  rcases ms.findSome? (taken name) with - | f
  · simp [takenSamples, givenOf]
  · rfl

theorem fittingSamples_eq : fittingSamples name ms =
    (ms.zipIdx).flatMap fun p => dueOf (ms.findSome? (memberOutput name)) name p.1 p.2 := by
  unfold fittingSamples
  rcases ms.findSome? (memberOutput name) with - | f
  · simp [dueOf]
  · rfl

/-- Of a member without a record nothing is taken. -/
theorem record_of_taken {t : Taken} (ht : taken name m = some t) : ∃ v, m.record = some v := by
  rcases hm : m.record with - | v
  · rw [taken, takeOutput, hm] at ht
    cases ht
  · exact ⟨v, rfl⟩

/-- Where what is given is due, a member of which something is taken has an output whose unit is
that of the first one. -/
theorem output_of_given (hshape : ∀ v, m.record = some v → Shaped v)
    (heq : givenOf (ms.findSome? (taken name)) name m i =
      dueOf (ms.findSome? (memberOutput name)) name m i) {f t : Taken}
    (hf : ms.findSome? (taken name) = some f) (ht : taken name m = some t)
    (hmatch : sfUattrSchemaMatch f.header.uattrBits t.header.uattrBits = true) :
    ∃ g o, ms.findSome? (memberOutput name) = some g ∧ memberOutput name m = some o ∧
      SameUnit g.header.uattrBits o.header.uattrBits := by
  have hne : givenOf (ms.findSome? (taken name)) name m i ≠ [] :=
    (givenOf_ne_nil hshape).mpr ⟨f, t, hf, ht, hmatch⟩
  rw [heq] at hne
  exact dueOf_ne_nil.mp hne

/-- The schema is kept where what is given is due. -/
theorem schemaKept_of_eq (hshape : ∀ m ∈ ms, ∀ v, m.record = some v → Shaped v)
    (heq : ∀ m ∈ ms, ∃ i, givenOf (ms.findSome? (taken name)) name m i =
      dueOf (ms.findSome? (memberOutput name)) name m i) : SchemaKept name ms := by
  refine ⟨?_, ?_⟩
  · intro f hf m hm t ht hmatch
    obtain ⟨i, hi⟩ := heq m hm
    obtain ⟨v, hv⟩ := record_of_taken ht
    have hspec := (taken_iff (hshape m hm v hv) hv).mp ht
    obtain ⟨g, o, hg, ho, hunit⟩ := output_of_given (hshape m hm) hi hf ht hmatch
    obtain ⟨hheader, -, hesz, hfits⟩ := hspec.of_output hv ho
    -- the first that is taken has the unit of the first output too
    obtain ⟨mf, hmf, htf⟩ := List.exists_of_findSome?_eq_some hf
    obtain ⟨j, hj⟩ := heq mf hmf
    obtain ⟨vf, hvf⟩ := record_of_taken htf
    obtain ⟨g', o', hg', ho', hunit'⟩ :=
      output_of_given (hshape mf hmf) hj hf htf (sfUattrSchemaMatch_self _)
    obtain ⟨hheader', -⟩ := ((taken_iff (hshape mf hmf vf hvf) hvf).mp htf).of_output hvf ho'
    obtain rfl : g = g' := Option.some.inj (hg.symm.trans hg')
    refine ⟨hesz, ?_, ?_⟩
    · rw [← hheader, ← hheader']
      exact hunit'.symm.trans hunit
    · intro w hw
      obtain rfl : v = w := Option.some.inj (hv.symm.trans hw)
      have hdata := (hshape m hm v hv).data
      have hlt := v.datasize.toNat_lt
      omega
  · intro g hg m hm o ho hunit
    obtain ⟨i, hi⟩ := heq m hm
    have hne : dueOf (ms.findSome? (memberOutput name)) name m i ≠ [] :=
      dueOf_ne_nil.mpr ⟨g, o, hg, ho, hunit⟩
    rw [← hi] at hne
    obtain ⟨f, t, -, ht, -⟩ := (givenOf_ne_nil (hshape m hm)).mp hne
    obtain ⟨v, hv⟩ := record_of_taken ht
    have hspec := (taken_iff (hshape m hm v hv) hv).mp ht
    obtain ⟨-, hindex, -⟩ := hspec.of_output hv ho
    refine ⟨hindex ▸ hspec.index, fun w hw => ?_⟩
    obtain rfl : v = w := Option.some.inj (hv.symm.trans hw)
    exact hspec.counts

/-- Under a schema that is kept an output that fits the first one is taken, with the same header. -/
theorem SchemaKept.taken_of_output (h : SchemaKept name ms)
    (hshape : ∀ m ∈ ms, ∀ v, m.record = some v → Shaped v) {g o : Output}
    (hg : ms.findSome? (memberOutput name) = some g) (hm : m ∈ ms)
    (ho : memberOutput name m = some o) (hunit : SameUnit g.header.uattrBits o.header.uattrBits) :
    ∃ t, taken name m = some t ∧ t.header = o.header := by
  obtain ⟨hindex, hcounts⟩ := h.indexed g hg m hm o ho hunit
  rcases hv : m.record with - | v
  · rw [memberOutput, hv] at ho
    cases ho
  · exact take_of_output (hshape m hm v hv) hv ho hindex (hcounts v hv)

/-- Under a schema that is kept what is taken is an output with the complete unit of the first. -/
theorem SchemaKept.output_of_taken (h : SchemaKept name ms)
    (hshape : ∀ m ∈ ms, ∀ v, m.record = some v → Shaped v) {f t : Taken}
    (hf : ms.findSome? (taken name) = some f) (hm : m ∈ ms) (ht : taken name m = some t)
    (hmatch : sfUattrSchemaMatch f.header.uattrBits t.header.uattrBits = true) :
    SameUnit f.header.uattrBits t.header.uattrBits ∧
      ∃ o, memberOutput name m = some o ∧ o.header = t.header ∧ ∀ i, o.elems i = t.elems i := by
  obtain ⟨v, hv⟩ := record_of_taken ht
  obtain ⟨hesz, hunit, hat⟩ := h.sound f hf m hm t ht hmatch
  exact ⟨hunit, ((taken_iff (hshape m hm v hv) hv).mp ht).output hv hesz (hat v hv)⟩

/-- Under a schema that is kept the member of which something is taken first has the first
output. -/
theorem SchemaKept.first_output (h : SchemaKept name ms)
    (hshape : ∀ m ∈ ms, ∀ v, m.record = some v → Shaped v) {f : Taken}
    (hf : ms.findSome? (taken name) = some f) :
    ∃ g, ms.findSome? (memberOutput name) = some g ∧ g.header = f.header := by
  obtain ⟨pre, m, post, rfl, ht, hnone⟩ := List.findSome?_eq_some_iff.mp hf
  have hm : m ∈ pre ++ m :: post := List.mem_append_right _ List.mem_cons_self
  obtain ⟨-, o, ho, hheader, -⟩ :=
    h.output_of_taken hshape hf hm ht (sfUattrSchemaMatch_self _)
  have hpre : pre.findSome? (memberOutput name) = none := by
    by_contra hsome
    obtain ⟨g, hg⟩ := Option.ne_none_iff_exists'.mp hsome
    have hall : (pre ++ m :: post).findSome? (memberOutput name) = some g := by
      rw [List.findSome?_append, hg, Option.some_or]
    obtain ⟨n, hn, hgn⟩ := List.exists_of_findSome?_eq_some hg
    obtain ⟨t, htn, -⟩ := h.taken_of_output hshape hall (List.mem_append_left _ hn) hgn rfl
    rw [hnone n hn] at htn
    cases htn
  refine ⟨o, ?_, hheader⟩
  rw [List.findSome?_append, hpre, Option.none_or, List.findSome?_cons, ho]

/-- Under a schema that is kept a member gives what is due. -/
theorem SchemaKept.given_eq_due (h : SchemaKept name ms)
    (hshape : ∀ m ∈ ms, ∀ v, m.record = some v → Shaped v) (hm : m ∈ ms) (i : ℕ) :
    givenOf (ms.findSome? (taken name)) name m i =
      dueOf (ms.findSome? (memberOutput name)) name m i := by
  by_cases hgiven : givenOf (ms.findSome? (taken name)) name m i = []
  · rw [hgiven]
    by_contra hne
    obtain ⟨g, o, hg, ho, hunit⟩ := dueOf_ne_nil.mp fun hnil => hne hnil.symm
    obtain ⟨t, ht, hheader⟩ := h.taken_of_output hshape hg hm ho hunit
    rcases hf : ms.findSome? (taken name) with - | f
    · exact absurd ht (by rw [List.findSome?_eq_none_iff.mp hf m hm]; simp)
    · obtain ⟨g', hg', hheader'⟩ := h.first_output hshape hf
      obtain rfl : g = g' := Option.some.inj (hg.symm.trans hg')
      refine (givenOf_ne_nil (hshape m hm)).mpr ⟨f, t, hf, ht, ?_⟩ hgiven
      rw [← hheader', hheader]
      exact hunit.schemaMatch
  · obtain ⟨f, t, hf, ht, hmatch⟩ := (givenOf_ne_nil (hshape m hm)).mp hgiven
    obtain ⟨hunit, o, ho, hheader, helems⟩ := h.output_of_taken hshape hf hm ht hmatch
    obtain ⟨g, hg, hheader'⟩ := h.first_output hshape hf
    have hunit' : SameUnit g.header.uattrBits o.header.uattrBits := by
      rw [hheader', hheader]
      exact hunit
    simp only [givenOf, dueOf, hf, hg, Option.elim_some, takenOf, fittingOf, ht, ho, hmatch,
      hunit', if_true, helems]

/-- **What is given is due, member by member**, exactly when the schema is kept. -/
theorem given_eq_due_iff (hshape : ∀ m ∈ ms, ∀ v, m.record = some v → Shaped v) :
    (∀ p ∈ ms.zipIdx, givenOf (ms.findSome? (taken name)) name p.1 p.2 =
      dueOf (ms.findSome? (memberOutput name)) name p.1 p.2) ↔ SchemaKept name ms := by
  constructor
  · intro heq
    refine schemaKept_of_eq hshape fun m hm => ?_
    obtain ⟨i, hi⟩ := List.mem_iff_getElem?.mp hm
    exact ⟨i, heq (m, i) (List.mk_mem_zipIdx_iff_getElem?.mpr hi)⟩
  · rintro h ⟨m, i⟩ hp
    exact h.given_eq_due hshape ((List.mem_zipIdx' hp).2 ▸ List.getElem_mem _) i

end Iff

/-- **The samples the statistics are computed on** are those of the members whose output
fits the first one, exactly when the schema is kept. The records of a task are in shape
(`shaped_of_sfLogicalFromRoot`). -/
theorem samples_aggregated_iff (t : Logical) (dname : Bytes)
    (hshape : ∀ m ∈ t.members, ∀ v, m.record = some v → Shaped v) :
    (∃ row, aggregateMembers dname 0 t.members SampleRow.empty = .ok row ∧
      row.acc.samples = fittingSamples dname t.members) ↔ SchemaKept dname t.members := by
  obtain ⟨hsamples, hruns⟩ := @aggregateMembers_samples dname t.members 0 SampleRow.empty hshape
  have hschema : schemaFrom SampleRow.empty.acc dname t.members =
      (t.members.findSome? (taken dname)).map (·.header.uattrBits) := if_pos rfl
  rw [hschema] at hsamples hruns
  have hiff : takenSamples dname 0 t.members ((t.members.findSome? (taken dname)).map
      (·.header.uattrBits)) = fittingSamples dname t.members ↔ SchemaKept dname t.members := by
    rw [takenSamples_eq, fittingSamples_eq, ← given_eq_due_iff hshape]
    exact flatMap_zipIdx_inj (fun p b hb => member_of_givenOf hb)
      (fun p b hb => member_of_dueOf hb) t.members 0
  constructor
  · rintro ⟨row, hok, heq⟩
    refine hiff.mp ?_
    rw [← heq, hsamples row hok]
    rfl
  · intro hkept
    obtain ⟨row, hok⟩ := hruns fun m hm tk htk ua hua hmatch => by
      obtain ⟨f, hf, rfl⟩ := Option.map_eq_some_iff.mp hua
      rcases hv : m.record with - | v
      · rw [taken, takeOutput, hv] at htk
        cases htk
      · exact ((taken_iff (hshape m hm v hv) hv).mp htk).inBounds
          (hkept.sound f hf m hm tk htk hmatch).size
    refine ⟨row, hok, ?_⟩
    rw [hsamples row hok, hiff.mpr hkept]
    rfl

/-! ### Nanoseconds and bytes -/

/-- `TPB_UNIT_NS`. -/
def tpbUnitNs : UInt64 := 0x0000101100000000

/-- `TPB_UNIT_B`. -/
def tpbUnitB : UInt64 := 0x0000201100000000

/-- A header for one number of type `double`, under the name `t`. -/
def pointHeader (unit : UInt64) : MetaHeader :=
  { MetaHeader.zero with
    dataSize := 8, typeBits := tpbDoubleT, uattrBits := unit, name := snprintfS 256 (ascii ['t']) }

/-- The record of a member with one number. -/
def pointRecord (unit : UInt64) : RecordView TaskAttr where
  attr := { TaskAttr.zero with noutput := 1, nheader := 1 }
  headers := [pointHeader unit]
  datasize := 8
  data := u64 1

/-- A task with two members, of which each recorded one number. -/
def pairTask (unit unit' : UInt64) : Logical where
  rootId := zeroArr 20
  ref := zeroArr 16
  isCapsule := true
  members := [⟨zeroArr 20, 0, some (pointRecord unit)⟩, ⟨zeroArr 20, 1, some (pointRecord unit')⟩]
  inputOrder := 0
  rootUtcBits := 0
  rootBtime := 0

theorem shaped_pointRecord (unit : UInt64) : Shaped (pointRecord unit) := ⟨rfl, rfl⟩

theorem shaped_pairTask (unit unit' : UInt64) :
    ∀ m ∈ (pairTask unit unit').members, ∀ v, m.record = some v → Shaped v := by
  intro m hm v hv
  simp only [pairTask, List.mem_cons, List.not_mem_nil, or_false] at hm
  rcases hm with rfl | rfl
  · cases hv
    exact shaped_pointRecord unit
  · cases hv
    exact shaped_pointRecord unit'

/-- The samples of the two members are merged, although only the first one fits itself. -/
theorem pairTask_samples :
    ((aggregateMembers (ascii ['t']) 0 (pairTask tpbUnitNs tpbUnitB).members
      SampleRow.empty).toOption.map fun row => row.acc.samples.length) = some 2 ∧
    (fittingSamples (ascii ['t']) (pairTask tpbUnitNs tpbUnitB).members).length = 1 := by
  constructor
  · decide +kernel
  · decide +kernel

/-- **Nanoseconds and bytes are merged.** -/
theorem samples_of_different_units :
    ¬∃ row, aggregateMembers (ascii ['t']) 0 (pairTask tpbUnitNs tpbUnitB).members
        SampleRow.empty = .ok row ∧
      row.acc.samples = fittingSamples (ascii ['t']) (pairTask tpbUnitNs tpbUnitB).members := by
  rintro ⟨row, hok, heq⟩
  obtain ⟨htwo, hone⟩ := pairTask_samples
  rw [hok] at htwo
  have hlen : row.acc.samples.length = 2 := Option.some.inj htwo
  rw [heq, hone] at hlen
  cases hlen

/-- Two members that both recorded nanoseconds. -/
theorem samples_aggregated_iff_same :
    SchemaKept (ascii ['t']) (pairTask tpbUnitNs tpbUnitNs).members := by
  have hmerged : ((aggregateMembers (ascii ['t']) 0 (pairTask tpbUnitNs tpbUnitNs).members
      SampleRow.empty).toOption.map fun row => row.acc.samples) =
        some (fittingSamples (ascii ['t']) (pairTask tpbUnitNs tpbUnitNs).members) := by
    decide +kernel
  refine (samples_aggregated_iff (pairTask tpbUnitNs tpbUnitNs) (ascii ['t'])
    (shaped_pairTask _ _)).mp ?_
  rcases hok : aggregateMembers (ascii ['t']) 0 (pairTask tpbUnitNs tpbUnitNs).members
    SampleRow.empty with e | row
  · rw [hok] at hmerged
    cases hmerged
  · rw [hok] at hmerged
    exact ⟨row, rfl, Option.some.inj hmerged⟩

end TPBench
