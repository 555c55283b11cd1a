import TPBench.Task.DataTable
import TPBench.Task.Samples

/-!
# What the Consumers of a Record Read

`task export` and `task get-result` read the elements of a record out of its payload, at places
that they compute from the sizes and the dimensions of its headers. This module lists the bytes
that they read (`exportReads`, `collectReads`), clause for clause beside the functions themselves,
and says when all of them lie in the payload and in the data of the header they are read for.

The bytes of a header that are really there are its room (`room`): those of its data, counted
without overflow, that are in front of the end of the payload. The writer of the data file has room
for its elements unless a number is smaller than its type, a string is not closed in its own data,
an array of `unsigned` is read byte by byte with four bytes each, or the sizes overflow. The
collector divides the size of the data by the number of elements, and reads an element of the type
at each of the places.

## Main results

* `exportReads_inside_iff`: the writer of the data file stays inside.
* `collectReads_inside_iff`: the collector of samples stays inside.
-/

open CFile

namespace TPBench

/-! ### Reads -/

/-- Bytes that are read for a header: its index, the first byte, and how many there are. -/
structure Access where
  header : ℕ
  pos : ℕ
  len : ℕ
  deriving DecidableEq

/-- Each byte lies in the payload and in the data of the header. -/
def Access.Inside (v : RecordView TaskAttr) (a : Access) : Prop :=
  ∀ p, a.pos ≤ p → p < a.pos + a.len → p < v.datasize.toNat ∧
    claimed (v.headers.take a.header) ≤ p ∧ p < claimed (v.headers.take (a.header + 1))

/-- The bytes of a header that are in the payload. -/
def room (v : RecordView TaskAttr) (i : ℕ) : ℕ :=
  min (claimed (v.headers.take (i + 1))) v.datasize.toNat - claimed (v.headers.take i)

/-- The bytes that a walk through the string at `pos` reads: up to its terminator, or up to the
first byte behind the payload. -/
def textReads (data : Bytes) (pos : ℕ) : ℕ := (cstr (data.drop pos)).length + 1

/-- The bytes of an element that is not a string, as `_sf_format_elem` reads it. -/
def formatSize (h : MetaHeader) (esz : ℕ) : ℕ :=
  let dt := sfHdrDtype h
  if sfIsTaskidLink h then 20
  else if dt = tpbCharT ∧ esz = 1 then 1
  else if dt = tpbFloatT ∨ dt = tpbUint32T ∨ dt = tpbUnsignedT ∨
      dt = tpbInt32T ∨ dt = tpbIntT then 4
  else if dt = tpbDoubleT ∨ dt = tpbUint64T ∨ dt = tpbInt64T then 8
  else min esz 2046

/-- The bytes that `_sf_format_elem` reads from `pos` on. -/
def formatReads (h : MetaHeader) (data : Bytes) (pos esz : ℕ) : ℕ :=
  if sfIsTaskidLink h = false ∧ sfHdrDtype h = tpbStringT then textReads data pos
  else formatSize h esz

/-- What the readers of a variable may look at: they walk through the three blocks of the snapshot,
no further than the ends that the checks came to. -/
def blockReads (data : Bytes) (b : EnvBlock) : List Access :=
  [⟨b.keyHi, b.kb, textReads data b.kb⟩, ⟨b.keyHi + 1, b.counts, 4 * b.nkeys⟩,
    ⟨b.keyHi + 2, b.vb, textReads data b.vb⟩]

/-- What is read for the columns of a header in a row. -/
def columnReads (env : Option EnvBlock) (data : Bytes) (row off : ℕ) (h : MetaHeader) (hi : ℕ) :
    List Access :=
  match envAt env hi with
  | some b =>
      if row < b.nkeys then blockReads data b else []
  | none =>
      match sfColumnRows h (sfElemSize h) with
      | .error _ => []
      | .ok nr =>
          if row < nr then
            [⟨hi, off + row * sfElemSize h,
              formatReads h data (off + row * sfElemSize h) (sfElemSize h)⟩]
          else []

/-- What is read for a row. The row ends at the first failure. -/
def rowReads (v : RecordView TaskAttr) (env : Option EnvBlock) (row : ℕ) :
    List (MetaHeader × ℕ) → UInt64 → List Access
  | [], _ => []
  | (h, hi) :: hs, off =>
      if h.dataSize = 0 then rowReads v env row hs off
      else if sfEnvSkipCol env hi then rowReads v env row hs (off + h.dataSize)
      else if off + h.dataSize > v.datasize then []
      else
        columnReads env v.data row off.toNat h hi ++
          match columnCells env v.data row off.toNat h hi with
          | .error _ => []
          | .ok _ => rowReads v env row hs (off + h.dataSize)

/-- What is read for `n` rows, from row `row` on. -/
def rowsReads (v : RecordView TaskAttr) (env : Option EnvBlock) : ℕ → ℕ → List Access
  | _, 0 => []
  | row, n + 1 =>
      rowReads v env row v.headers.zipIdx 0 ++
        match rowCells v env row v.headers.zipIdx 0 with
        | .error _ => []
        | .ok _ => rowsReads v env (row + 1) n

/-- What is read for the table. -/
def tableReads (v : RecordView TaskAttr) (env : Option EnvBlock) : List Access :=
  match countRows env v.headers.zipIdx 0 with
  | .error _ => []
  | .ok nrows => rowsReads v env 0 nrows

/-- The counts that are read until one is negative. -/
def countsRead : List Int32 → ℕ
  | [] => 0
  | c :: cs => if c < 0 then 1 else countsRead cs + 1

/-- What `_sf_env_validate` reads. -/
def validateReads (v : RecordView TaskAttr) (keyHi : ℕ) : List Access :=
  match v.headers.drop keyHi with
  | hk :: hc :: hv :: _ =>
      let off := ((v.headers.take keyHi).map MetaHeader.dataSize).sum
      let b : EnvBlock := ⟨keyHi, off.toNat, (off + hk.dataSize).toNat,
        (off + hk.dataSize + hc.dataSize).toNat, hc.dim0.toNat⟩
      if off + hk.dataSize + hc.dataSize + hv.dataSize > v.datasize then []
      else if hc.dataSize ≠ (if hc.dim0 > 0 then hc.dim0 else 1) * 4 then []
      else ⟨keyHi, b.kb, textReads v.data b.kb⟩ ::
        match strAt v.data b.kb with
        | none => []
        | some kb =>
            if sfEnvBlobNkeys kb ≠ b.nkeys then []
            else ⟨keyHi + 1, b.counts, 4 * countsRead (b.countsOf v.data)⟩ ::
              match countsSum (b.countsOf v.data) with
              | .error _ => []
              | .ok _ => [⟨keyHi + 2, b.vb, textReads v.data b.vb⟩]
  | _ => []

/-- What `_sf_write_data` reads. -/
def exportReads (v : RecordView TaskAttr) : List Access :=
  match sfEnvDetectTriple v.headers with
  | none => tableReads v none
  | some keyHi => validateReads v keyHi ++
      match sfEnvValidate v keyHi with
      | .error _ => []
      | .ok b => tableReads v (some b)

/-- What `_sf_collect_samples_member` reads of a member with the record `v`. -/
def collectReads (v : RecordView TaskAttr) (m : MemberRec) (dname : Bytes) (s : SampleAccum) :
    List Access :=
  match takeOutput m dname with
  | .error _ => []
  | .ok t =>
      match checkSchema dname t.header s with
      | .error _ _ => []
      | .ok _ _ =>
          (List.range t.nelem.toNat).map fun k =>
            ⟨t.index, (positionOf v t.index).toNat + k * t.esz.toNat,
              (castSize (t.header.typeBits &&& tpbParmTypeMask)).getD 0⟩

/-! ### Room -/

section Room

variable {v : RecordView TaskAttr}

theorem claimed_take_le_succ (hs : List MetaHeader) (i : ℕ) :
    claimed (hs.take i) ≤ claimed (hs.take (i + 1)) := by
  rw [List.take_add_one, claimed_append]
  exact Nat.le_add_right _ _

/-- A position is the sum of the sizes, taken modulo 2⁶⁴. -/
theorem toNat_positionOf_mod (v : RecordView TaskAttr) (i : ℕ) :
    (positionOf v i).toNat = claimed (v.headers.take i) % 2 ^ 64 :=
  toNat_sum_dataSize_mod _

/-- **Reads at the place of a header** are inside if and only if the header has room for them. -/
theorem inside_iff_room {i k len : ℕ} (hlen : 0 < len) :
    Access.Inside v ⟨i, (positionOf v i).toNat + k, len⟩ ↔ k + len ≤ room v i := by
  have hpos := toNat_positionOf_mod v i
  have hle := claimed_take_le_succ v.headers i
  have hsize := v.datasize.toNat_lt
  rw [room]
  constructor
  · intro h
    obtain ⟨-, hfirst, -⟩ := h _ le_rfl (Nat.lt_add_of_pos_right hlen)
    obtain ⟨hdata, -, hspan⟩ := h ((positionOf v i).toNat + k + len - 1) (by dsimp only; omega)
      (by dsimp only; omega)
    dsimp only at hfirst hspan
    have hmod : claimed (v.headers.take i) % 2 ^ 64 = claimed (v.headers.take i) :=
      Nat.mod_eq_of_lt (by omega)
    omega
  · intro h p hp hp'
    dsimp only at hp hp' ⊢
    have hmod : claimed (v.headers.take i) % 2 ^ 64 = claimed (v.headers.take i) :=
      Nat.mod_eq_of_lt (by omega)
    omega

/-- A string is closed in the room of its header. -/
theorem textReads_le_iff {data : Bytes} {pos m : ℕ} (hm : pos + m ≤ data.length) :
    textReads data pos ≤ m ↔ 0 ∈ pread data pos m := by
  rw [textReads, pread]
  have hlen : m ≤ (data.drop pos).length := by
    rw [List.length_drop]
    omega
  generalize data.drop pos = s at hlen
  clear hm
  induction s generalizing m with
  | nil =>
      obtain rfl : m = 0 := by simpa using hlen
      simp [cstr]
  | cons b s ih =>
      rcases Nat.eq_zero_or_pos m with rfl | hpos
      · simp
      obtain ⟨m, rfl⟩ := Nat.exists_eq_succ_of_ne_zero hpos.ne'
      rw [List.take_succ_cons, List.mem_cons]
      by_cases hb : b = 0
      · rw [hb]
        refine iff_of_true ?_ (.inl rfl)
        simp [cstr]
      · have hcons : cstr (b :: s) = b :: cstr s := List.takeWhile_cons_of_pos (by simpa using hb)
        have htail : (cstr s).length + 1 ≤ m ↔ 0 ∈ s.take m := ih (by simpa using hlen)
        rw [hcons, List.length_cons, Nat.add_le_add_iff_right, htail]
        exact (or_iff_right fun h => hb h.symm).symm

end Room

/-! ### The rows of the data file -/

/-- A header has a column, or is the first one of the snapshot. -/
def HasColumn (v : RecordView TaskAttr) (env : Option EnvBlock) (i : ℕ) (h : MetaHeader) : Prop :=
  v.headers[i]? = some h ∧ h.dataSize ≠ 0 ∧ sfEnvSkipCol env i = false

/-- The check of the size in front of the cells of a header. -/
def Passes (v : RecordView TaskAttr) (i : ℕ) (h : MetaHeader) : Prop :=
  ¬ positionOf v i + h.dataSize > v.datasize

/-- The variable of a row, if the header is that of the snapshot, can be shown. -/
def VarPasses (v : RecordView TaskAttr) (env : Option EnvBlock) (r i : ℕ) : Prop :=
  ∀ b, envAt env i = some b → r < b.nkeys → VarShown v.data b r

/-- The writer comes to header `i` in row `r`: nothing in front of it makes it fail. -/
def Reached (v : RecordView TaskAttr) (env : Option EnvBlock) (r i : ℕ) : Prop :=
  (∀ r' < r, ∀ j h, HasColumn v env j h → Passes v j h ∧ VarPasses v env r' j) ∧
    ∀ j < i, ∀ h, HasColumn v env j h → Passes v j h ∧ VarPasses v env r j

/-- A header has room for its element in row `r`. -/
def ElemFits (v : RecordView TaskAttr) (i : ℕ) (h : MetaHeader) (r : ℕ) : Prop :=
  if sfIsTaskidLink h = false ∧ sfHdrDtype h = tpbStringT then
    0 ∈ pread v.data ((positionOf v i).toNat + r * sfElemSize h) (room v i - r * sfElemSize h)
  else r * sfElemSize h + formatSize h (sfElemSize h) ≤ room v i

/-- Each header that the writer comes to has room for the elements it shows. -/
def TableFits (v : RecordView TaskAttr) (env : Option EnvBlock) : Prop :=
  ∀ n, countRows env v.headers.zipIdx 0 = .ok n → ∀ r < n, ∀ i h, HasColumn v env i h →
    envAt env i = none → Reached v env r i → Passes v i h →
      ∀ nr, sfColumnRows h (sfElemSize h) = .ok nr → r < nr → ElemFits v i h r

section Table

variable {v : RecordView TaskAttr} {env : Option EnvBlock} {r i : ℕ} {h : MetaHeader} {a : Access}

theorem sfElemSize_pos_of_ne (hd : h.dataSize ≠ 0) : 0 < sfElemSize h := by
  rw [sfElemSize]
  split
  · exact Nat.succ_pos _
  · split
    · rename_i esz hsome
      exact tpbDtypeElemSize_pos hsome
    · split_ifs
      · rw [Nat.pos_iff_ne_zero]
        exact fun hzero => hd (UInt64.toNat_inj.mp hzero)
      · exact Nat.one_pos

theorem formatSize_pos {esz : ℕ} (hesz : 0 < esz) : 0 < formatSize h esz := by
  rw [formatSize]
  split_ifs <;> omega

theorem formatReads_pos {data : Bytes} {pos esz : ℕ} (hesz : 0 < esz) :
    0 < formatReads h data pos esz := by
  rw [formatReads]
  split_ifs
  · exact Nat.succ_pos _
  · exact formatSize_pos hesz

/-- An element that is read inside of the payload is shown. -/
theorem sfFormatElem_of_reads {data : Bytes} {pos esz : ℕ}
    (hfit : pos + formatReads h data pos esz ≤ data.length) :
    ∃ c, sfFormatElem h data pos esz = .ok c := by
  have hread : ∀ (n : ℕ) (f : Bytes → CsvCell), pos + n ≤ data.length →
      ∃ c, (bytesAt data pos n).map f = .ok c := by
    intro n f hle
    rw [bytesAt_ok hle]
    exact ⟨_, rfl⟩
  rw [formatReads] at hfit
  cases hl : sfIsTaskidLink h with
  | true =>
      rw [if_neg (by simp [hl]), formatSize, if_pos hl] at hfit
      rw [sfFormatElem_link hl]
      exact hread 20 _ hfit
  | false =>
      by_cases hstring : sfHdrDtype h = tpbStringT
      · rw [if_pos ⟨hl, hstring⟩] at hfit
        have hmem : 0 ∈ data.drop pos := by
          have hle : textReads data pos ≤ data.length - pos := by omega
          have := (textReads_le_iff (by omega)).mp hle
          exact List.mem_of_mem_take this
        rw [sfFormatElem_string hl hstring, strAt, if_pos hmem]
        exact ⟨_, rfl⟩
      · rw [if_neg fun hboth => hstring hboth.2, formatSize, if_neg (by simp [hl])] at hfit
        unfold sfFormatElem
        dsimp only at hfit ⊢
        rw [if_neg (by simp [hl])]
        split_ifs with hcomma hfl hdb hu hi hu64 hi64
        · exact ⟨_, rfl⟩
        · exact hread 4 _ (by simpa [hfl, tpbFloatT, tpbCharT] using hfit)
        · refine hread 8 _ (by simpa [hdb, tpbDoubleT, tpbCharT, tpbFloatT, tpbUint32T,
            tpbUnsignedT, tpbInt32T, tpbIntT] using hfit)
        · refine hread 4 _ ?_
          rcases hu with hu | hu <;> simpa [hu, tpbCharT, tpbUint32T, tpbUnsignedT] using hfit
        · refine hread 4 _ ?_
          rcases hi with hi | hi <;> simpa [hi, tpbCharT, tpbInt32T, tpbIntT] using hfit
        · refine hread 8 _ (by simpa [hu64, tpbUint64T, tpbCharT, tpbFloatT, tpbUint32T,
            tpbUnsignedT, tpbInt32T, tpbIntT] using hfit)
        · refine hread 8 _ (by simpa [hi64, tpbInt64T, tpbCharT, tpbFloatT, tpbUint32T,
            tpbUnsignedT, tpbInt32T, tpbIntT] using hfit)
        · refine hread _ _ ?_
          have h4 : ¬(sfHdrDtype h = tpbFloatT ∨ sfHdrDtype h = tpbUint32T ∨
              sfHdrDtype h = tpbUnsignedT ∨ sfHdrDtype h = tpbInt32T ∨ sfHdrDtype h = tpbIntT) := by
            rintro (heq | heq | heq | heq | heq)
            exacts [hfl heq, hu (.inl heq), hu (.inr heq), hi (.inl heq), hi (.inr heq)]
          have h8 : ¬(sfHdrDtype h = tpbDoubleT ∨ sfHdrDtype h = tpbUint64T ∨
              sfHdrDtype h = tpbInt64T) := by
            rintro (heq | heq | heq)
            exacts [hdb heq, hu64 heq, hi64 heq]
          rw [if_neg h4, if_neg h8] at hfit
          split_ifs at hfit <;> omega

/-- An element is read inside if and only if its header has room for it. -/
theorem elem_inside_iff (hv : Shaped v) (hd : h.dataSize ≠ 0) :
    Access.Inside v ⟨i, (positionOf v i).toNat + r * sfElemSize h,
        formatReads h v.data ((positionOf v i).toNat + r * sfElemSize h) (sfElemSize h)⟩ ↔
      ElemFits v i h r := by
  rw [inside_iff_room (formatReads_pos (sfElemSize_pos_of_ne hd)), ElemFits, formatReads]
  split_ifs with hstring
  · have hpos := toNat_positionOf_mod v i
    have hdata := hv.data
    rcases Nat.eq_zero_or_pos (room v i - r * sfElemSize h) with hzero | hroom
    · rw [hzero]
      refine iff_of_false ?_ (by simp [pread])
      have : 0 < textReads v.data ((positionOf v i).toNat + r * sfElemSize h) := Nat.succ_pos _
      omega
    · have hlt := v.datasize.toNat_lt
      have hbound : (positionOf v i).toNat + room v i ≤ v.data.length := by
        rw [room] at hroom ⊢
        have hmod : claimed (v.headers.take i) % 2 ^ 64 = claimed (v.headers.take i) :=
          Nat.mod_eq_of_lt (by omega)
        omega
      rw [← textReads_le_iff (by omega)]
      omega
  · rfl

end Table

/-! ### Rows -/

/-- The writer goes on behind a header. -/
def Goes (v : RecordView TaskAttr) (env : Option EnvBlock) (r i : ℕ) (h : MetaHeader) : Prop :=
  Passes v i h ∧ ∃ cs, columnCells env v.data r (positionOf v i).toNat h i = .ok cs

section Rows

variable {v : RecordView TaskAttr} {env : Option EnvBlock} {r i k : ℕ} {h : MetaHeader}
  {hs : List MetaHeader} {a : Access}

theorem getElem?_of_drop_cons (hdrop : v.headers.drop k = h :: hs) : v.headers[k]? = some h := by
  have := congrArg (·[0]?) hdrop
  simpa [List.getElem?_drop] using this

theorem drop_succ_of_drop_cons (hdrop : v.headers.drop k = h :: hs) :
    v.headers.drop (k + 1) = hs := by
  rw [List.drop_add_one_eq_tail_drop, hdrop, List.tail_cons]

theorem positionOf_succ (hget : v.headers[k]? = some h) :
    positionOf v (k + 1) = positionOf v k + h.dataSize := by
  rw [positionOf, positionOf, List.take_add_one, hget, List.map_append, List.sum_append]
  simp

theorem HasColumn.eq {h' : MetaHeader} (hc : HasColumn v env k h') (hget : v.headers[k]? = some h) :
    h' = h := Option.some.inj (hc.1.symm.trans hget)

/-- **What a row reads**: the columns of the headers that it comes to. -/
theorem mem_rowReads (hdrop : v.headers.drop k = hs) :
    a ∈ rowReads v env r (hs.zipIdx k) (positionOf v k) ↔
      ∃ i h, k ≤ i ∧ HasColumn v env i h ∧
        (∀ j, k ≤ j → j < i → ∀ h', HasColumn v env j h' → Goes v env r j h') ∧ Passes v i h ∧
          a ∈ columnReads env v.data r (positionOf v i).toNat h i := by
  induction hs generalizing k with
  | nil =>
      simp only [List.zipIdx_nil, rowReads, List.not_mem_nil, false_iff]
      rintro ⟨i, h, hki, ⟨hget, -⟩, -⟩
      have hlen := List.drop_eq_nil_iff.mp hdrop
      rw [List.getElem?_eq_none (by omega)] at hget
      cases hget
  | cons h hs ih =>
      have hget := getElem?_of_drop_cons hdrop
      have htail := drop_succ_of_drop_cons hdrop
      have hstep := ih htail
      rw [positionOf_succ hget] at hstep
      -- without a column, the row goes on with the next header
      have hnext : (∀ h', ¬HasColumn v env k h') →
          ((∃ i h, k + 1 ≤ i ∧ HasColumn v env i h ∧
              (∀ j, k + 1 ≤ j → j < i → ∀ h', HasColumn v env j h' → Goes v env r j h') ∧
              Passes v i h ∧ a ∈ columnReads env v.data r (positionOf v i).toNat h i) ↔
            ∃ i h, k ≤ i ∧ HasColumn v env i h ∧
              (∀ j, k ≤ j → j < i → ∀ h', HasColumn v env j h' → Goes v env r j h') ∧
              Passes v i h ∧ a ∈ columnReads env v.data r (positionOf v i).toNat h i) := by
        intro hnone
        constructor
        · rintro ⟨i, h, hki, hc, hall, hrest⟩
          refine ⟨i, h, by omega, hc, fun j hj hji h' hj' => ?_, hrest⟩
          rcases Nat.eq_or_lt_of_le hj with rfl | hlt
          · exact absurd hj' (hnone h')
          · exact hall j hlt hji h' hj'
        · rintro ⟨i, h, hki, hc, hall, hrest⟩
          rcases Nat.eq_or_lt_of_le hki with rfl | hlt
          · exact absurd hc (hnone h)
          · exact ⟨i, h, hlt, hc, fun j hj => hall j (by omega), hrest⟩
      rw [List.zipIdx_cons, rowReads]
      by_cases hzero : h.dataSize = 0
      · rw [if_pos hzero, ← hnext fun h' hc => hc.2.1 (by rw [hc.eq hget, hzero]), ← hstep]
        rw [hzero, UInt64.add_zero]
      rw [if_neg hzero]
      by_cases hskip : sfEnvSkipCol env k = true
      · have hnone : ∀ h', ¬HasColumn v env k h' := fun h' hc =>
          Bool.noConfusion (hskip.symm.trans hc.2.2)
        rw [if_pos hskip, ← hnext hnone, ← hstep]
      have hcol : HasColumn v env k h := ⟨hget, hzero, Bool.eq_false_iff.mpr hskip⟩
      rw [if_neg hskip]
      by_cases hpass : Passes v k h
      · rw [if_neg hpass, List.mem_append]
        constructor
        · rintro (hmem | hmem)
          · exact ⟨k, h, le_rfl, hcol, fun j hj hjk => by omega, hpass, hmem⟩
          · rcases hcells : columnCells env v.data r (positionOf v k).toNat h k with e | cs
            · rw [hcells] at hmem
              cases hmem
            · rw [hcells] at hmem
              obtain ⟨i, hi, hki, hc, hall, hrest⟩ := hstep.mp hmem
              refine ⟨i, hi, by omega, hc, fun j hj hji h' hj' => ?_, hrest⟩
              rcases Nat.eq_or_lt_of_le hj with rfl | hlt
              · rw [hj'.eq hget]
                exact ⟨hpass, cs, hcells⟩
              · exact hall j hlt hji h' hj'
        · rintro ⟨i, hi, hki, hc, hall, hpassi, hmem⟩
          rcases Nat.eq_or_lt_of_le hki with rfl | hlt
          · rw [hc.eq hget] at hmem
            exact .inl hmem
          · obtain ⟨-, cs, hcells⟩ := hall k le_rfl hlt h hcol
            right
            rw [hcells]
            exact hstep.mpr ⟨i, hi, hlt, hc, fun j hj => hall j (by omega), hpassi, hmem⟩
      · rw [if_pos (not_not.mp hpass)]
        refine iff_of_false (List.not_mem_nil) ?_
        rintro ⟨i, hi, hki, hc, hall, hpassi, -⟩
        rcases Nat.eq_or_lt_of_le hki with rfl | hlt
        · rw [hc.eq hget] at hpassi
          exact hpass hpassi
        · exact hpass (hall k le_rfl hlt h hcol).1

/-- A row can be computed if and only if the writer goes on behind each column. -/
theorem rowCells_ok_iff (hdrop : v.headers.drop k = hs) :
    (∃ cells, rowCells v env r (hs.zipIdx k) (positionOf v k) = .ok cells) ↔
      ∀ i h, k ≤ i → HasColumn v env i h → Goes v env r i h := by
  induction hs generalizing k with
  | nil =>
      refine iff_of_true ⟨[], rfl⟩ ?_
      rintro i h hki ⟨hget, -⟩
      have hlen := List.drop_eq_nil_iff.mp hdrop
      rw [List.getElem?_eq_none (by omega)] at hget
      cases hget
  | cons h hs ih =>
      have hget := getElem?_of_drop_cons hdrop
      have htail := drop_succ_of_drop_cons hdrop
      have hstep := ih htail
      rw [positionOf_succ hget] at hstep
      have hnext : (∀ h', HasColumn v env k h' → Goes v env r k h') →
          ((∀ i h, k + 1 ≤ i → HasColumn v env i h → Goes v env r i h) ↔
            ∀ i h, k ≤ i → HasColumn v env i h → Goes v env r i h) := by
        intro hk
        constructor
        · intro hall i h' hki hc
          rcases Nat.eq_or_lt_of_le hki with rfl | hlt
          · exact hk h' hc
          · exact hall i h' hlt hc
        · exact fun hall i h' hki => hall i h' (by omega)
      rw [List.zipIdx_cons, rowCells]
      by_cases hzero : h.dataSize = 0
      · rw [if_pos hzero, ← hnext fun h' hc => absurd (by rw [hc.eq hget, hzero]) hc.2.1, ← hstep,
          hzero, UInt64.add_zero]
      rw [if_neg hzero]
      by_cases hskip : sfEnvSkipCol env k = true
      · have hnone : ∀ h', ¬HasColumn v env k h' := fun h' hc =>
          Bool.noConfusion (hskip.symm.trans hc.2.2)
        rw [if_pos hskip, ← hnext fun h' hc => absurd hc (hnone h'), ← hstep]
      have hcol : HasColumn v env k h := ⟨hget, hzero, Bool.eq_false_iff.mpr hskip⟩
      rw [if_neg hskip]
      by_cases hpass : Passes v k h
      · rw [if_neg hpass]
        rcases hcells : columnCells env v.data r (positionOf v k).toNat h k with e | cs
        · refine iff_of_false ?_ fun hall => ?_
          · rintro ⟨_, hok⟩
            cases hok
          obtain ⟨-, cs, hok⟩ := hall k h le_rfl hcol
          rw [hcells] at hok
          cases hok
        · rw [← hnext fun h' hc => by rw [hc.eq hget]; exact ⟨hpass, cs, hcells⟩, ← hstep]
          dsimp only
          rcases rowCells v env r (hs.zipIdx (k + 1)) (positionOf v k + h.dataSize) with e | cs'
          · refine iff_of_false ?_ ?_
            · rintro ⟨_, hok⟩
              cases hok
            · rintro ⟨_, hok⟩
              cases hok
          · exact iff_of_true ⟨_, rfl⟩ ⟨_, rfl⟩
      · rw [if_pos (not_not.mp hpass)]
        refine iff_of_false ?_ fun hall => hpass (hall k h le_rfl hcol).1
        rintro ⟨_, hok⟩
        cases hok

/-- What the rows read: those that come behind rows that can be computed. -/
theorem mem_rowsReads {row n : ℕ} : a ∈ rowsReads v env row n ↔ ∃ r, row ≤ r ∧ r < row + n ∧
    (∀ r', row ≤ r' → r' < r → ∃ cells, rowCells v env r' v.headers.zipIdx 0 = .ok cells) ∧
      a ∈ rowReads v env r v.headers.zipIdx 0 := by
  induction n generalizing row with
  | zero =>
      refine iff_of_false (List.not_mem_nil) ?_
      rintro ⟨r, hle, hlt, -⟩
      omega
  | succ n ih =>
      rw [rowsReads, List.mem_append]
      constructor
      · rintro (hmem | hmem)
        · exact ⟨row, le_rfl, by omega, fun r' h h' => by omega, hmem⟩
        · rcases hcells : rowCells v env row v.headers.zipIdx 0 with e | cells
          · rw [hcells] at hmem
            cases hmem
          · rw [hcells] at hmem
            obtain ⟨r, hle, hlt, hall, hr⟩ := ih.mp hmem
            refine ⟨r, by omega, by omega, fun r' h h' => ?_, hr⟩
            rcases Nat.eq_or_lt_of_le h with rfl | hlt'
            · exact ⟨cells, hcells⟩
            · exact hall r' hlt' h'
      · rintro ⟨r, hle, hlt, hall, hmem⟩
        rcases Nat.eq_or_lt_of_le hle with rfl | hlt'
        · exact .inl hmem
        · obtain ⟨cells, hcells⟩ := hall row le_rfl hlt'
          right
          rw [hcells]
          exact ih.mpr ⟨r, hlt', by omega, fun r' h => hall r' (by omega), hmem⟩

end Rows

/-! ### The table -/

section Inside

variable {v : RecordView TaskAttr} {env : Option EnvBlock} {r i k n : ℕ} {h : MetaHeader}
  {hs : List MetaHeader} {a : Access}

/-- When the rows are counted, each column of a header has a number of rows. -/
theorem rows_of_countRows {m : ℕ} (hdrop : v.headers.drop k = hs)
    (hcount : countRows env (hs.zipIdx k) m = .ok n) (hki : k ≤ i) (hc : HasColumn v env i h)
    (hat : envAt env i = none) : ∃ nr, sfColumnRows h (sfElemSize h) = .ok nr := by
  induction hs generalizing k m with
  | nil =>
      have hlen := List.drop_eq_nil_iff.mp hdrop
      have hget := hc.1
      rw [List.getElem?_eq_none (by omega)] at hget
      cases hget
  | cons hd hs ih =>
      have hget := getElem?_of_drop_cons hdrop
      have htail := drop_succ_of_drop_cons hdrop
      rw [List.zipIdx_cons, countRows] at hcount
      rcases Nat.eq_or_lt_of_le hki with rfl | hlt
      · have heq := hc.eq hget
        subst heq
        rw [if_neg fun h => h.elim hc.2.1 fun hskip => Bool.noConfusion (hskip.symm.trans hc.2.2),
          hat] at hcount
        dsimp only at hcount
        rcases hrows : sfColumnRows h (sfElemSize h) with e | nr
        · rw [hrows] at hcount
          cases hcount
        · exact ⟨nr, rfl⟩
      · split_ifs at hcount with hskip
        · exact ih htail hcount hlt
        · rcases hk : envAt env k with _ | b
          · rw [hk] at hcount
            dsimp only at hcount
            rcases hrows : sfColumnRows hd (sfElemSize hd) with e | nr
            · rw [hrows] at hcount
              cases hcount
            · rw [hrows] at hcount
              exact ih htail hcount hlt
          · rw [hk] at hcount
            exact ih htail hcount hlt

/-- Behind the header of the snapshot, its variable was shown. -/
theorem Goes.shows (hg : Goes v env r i h) : VarPasses v env r i := by
  obtain ⟨-, cs, hok⟩ := hg
  intro b hat hr
  rw [columnCells, hat] at hok
  dsimp only at hok
  rw [if_pos hr] at hok
  split at hok
  · rename_i kb vb hkb hvb
    split at hok
    · rename_i key val hkey hval
      exact ⟨kb, vb, key, val, hkb, hvb, hkey, hval⟩
    · cases hok
  · cases hok

/-- Bytes that are read inside are in the payload. -/
theorem Access.Inside.le_length (hv : Shaped v) (ha : a.Inside v) (hlen : 0 < a.len) :
    a.pos + a.len ≤ v.data.length := by
  obtain ⟨hlt, -⟩ := ha (a.pos + a.len - 1) (by omega) (by omega)
  rw [hv.data]
  omega

/-- The writer goes on behind a column that it reads inside. -/
theorem goes_of_inside (hv : Shaped v) (hc : HasColumn v env i h) (hpass : Passes v i h)
    (hshow : VarPasses v env r i)
    (hrows : envAt env i = none → ∃ nr, sfColumnRows h (sfElemSize h) = .ok nr)
    (hin : ∀ a ∈ columnReads env v.data r (positionOf v i).toNat h i, a.Inside v) :
    Goes v env r i h := by
  refine ⟨hpass, ?_⟩
  rw [columnReads] at hin
  rw [columnCells]
  rcases hat : envAt env i with _ | b
  · obtain ⟨nr, hnr⟩ := hrows hat
    simp only [hat, hnr] at hin ⊢
    by_cases hr : r < nr
    · rw [if_pos hr] at hin ⊢
      have hpos := @formatReads_pos h v.data ((positionOf v i).toNat + r * sfElemSize h) _
        (sfElemSize_pos_of_ne hc.2.1)
      have hle := (hin _ (List.mem_singleton_self _)).le_length hv hpos
      obtain ⟨c, hok⟩ := sfFormatElem_of_reads hle
      rw [hok]
      exact ⟨_, rfl⟩
    · rw [if_neg hr]
      exact ⟨_, rfl⟩
  · dsimp only
    by_cases hr : r < b.nkeys
    · obtain ⟨kb, vb, key, val, hkb, hvb, hkey, hval⟩ := hshow b hat hr
      rw [if_pos hr, hkb, hvb]
      dsimp only
      rw [hkey, hval]
      exact ⟨_, rfl⟩
    · rw [if_neg hr]
      exact ⟨_, rfl⟩

/-- As far as the checks let it, the writer goes on in a row whose reads are inside. -/
theorem goes_of_rowReads (hv : Shaped v)
    (hrows : ∀ i h, HasColumn v env i h → envAt env i = none →
      ∃ nr, sfColumnRows h (sfElemSize h) = .ok nr)
    (hin : ∀ a ∈ rowReads v env r v.headers.zipIdx 0, a.Inside v)
    (hshow : ∀ j < i, ∀ h, HasColumn v env j h → Passes v j h ∧ VarPasses v env r j) :
    ∀ j < i, ∀ h, HasColumn v env j h → Goes v env r j h := by
  intro j
  induction j using Nat.strong_induction_on with
  | h j ih =>
      intro hj h hc
      obtain ⟨hpass, hsh⟩ := hshow j hj h hc
      refine goes_of_inside hv hc hpass hsh (hrows j h hc) fun a ha => hin a ?_
      exact (mem_rowReads (k := 0) rfl).mpr ⟨j, h, Nat.zero_le j, hc,
        fun j' _ hlt h' hc' => ih j' hlt (hlt.trans hj) h' hc', hpass, ha⟩

/-- **The reads of a table** are inside if and only if each header that the writer comes to has
room for its elements. -/
theorem tableReads_inside_iff (hv : Shaped v)
    (henv : ∀ b, env = some b → ∀ a ∈ blockReads v.data b, a.Inside v) :
    (∀ a ∈ tableReads v env, a.Inside v) ↔ TableFits v env := by
  constructor
  · intro hall n hn r hr i h hc hat hreach hpass nr hnr hlt
    rw [tableReads, hn] at hall
    dsimp only at hall
    have hrows : ∀ i h, HasColumn v env i h → envAt env i = none →
        ∃ nr, sfColumnRows h (sfElemSize h) = .ok nr := fun i h hc hat =>
      rows_of_countRows (k := 0) rfl hn (Nat.zero_le i) hc hat
    -- the rows in front are computed, one after the other
    have hbefore : ∀ r' ≤ r, ∀ r'' < r', ∃ cells,
        rowCells v env r'' v.headers.zipIdx 0 = .ok cells := by
      intro r'
      induction r' with
      | zero =>
          intro _ r'' h0
          omega
      | succ r' ih =>
          intro hle r'' hlt'
          rcases Nat.lt_or_eq_of_le (Nat.lt_succ_iff.mp hlt') with hlt'' | rfl
          · exact ih (by omega) r'' hlt''
          · refine (rowCells_ok_iff (k := 0) rfl).mpr fun i h _ hc => ?_
            refine goes_of_rowReads (i := i + 1) hv hrows (fun a ha => hall a ?_)
              (fun j _ h hc => hreach.1 r'' (by omega) j h hc) i (Nat.lt_succ_self i) h hc
            exact mem_rowsReads.mpr ⟨r'', Nat.zero_le _, by omega,
              fun q _ hq => ih (by omega) q hq, ha⟩
    have hrow : ∀ a ∈ rowReads v env r v.headers.zipIdx 0, a.Inside v := fun a ha =>
      hall a (mem_rowsReads.mpr ⟨r, Nat.zero_le r, by omega,
        fun r' _ hlt' => hbefore r le_rfl r' hlt', ha⟩)
    have hgoes := goes_of_rowReads hv hrows hrow hreach.2
    refine (elem_inside_iff hv hc.2.1).mp (hrow _ ?_)
    refine (mem_rowReads (k := 0) rfl).mpr ⟨i, h, Nat.zero_le i, hc,
      fun j _ hji h' hj => hgoes j hji h' hj, hpass, ?_⟩
    rw [columnReads, hat]
    simp only [hnr]
    rw [if_pos hlt]
    exact List.mem_singleton_self _
  · intro hfits a ha
    rw [tableReads] at ha
    rcases hn : countRows env v.headers.zipIdx 0 with e | n
    · rw [hn] at ha
      cases ha
    rw [hn] at ha
    obtain ⟨r, -, hr, hbefore, ha⟩ := mem_rowsReads.mp ha
    obtain ⟨i, h, -, hc, hgoes, hpass, ha⟩ := (mem_rowReads (k := 0) rfl).mp ha
    have hreach : Reached v env r i := by
      refine ⟨fun r' hr' j h' hj => ?_, fun j hj h' hc' => ?_⟩
      · have hg := (rowCells_ok_iff (k := 0) rfl).mp (hbefore r' (Nat.zero_le r') hr') j h'
          (Nat.zero_le j) hj
        exact ⟨hg.1, hg.shows⟩
      · have hg := hgoes j (Nat.zero_le j) hj h' hc'
        exact ⟨hg.1, hg.shows⟩
    rw [columnReads] at ha
    rcases hat : envAt env i with _ | b
    · simp only [hat] at ha
      rcases hnr : sfColumnRows h (sfElemSize h) with e | nr
      · rw [hnr] at ha
        cases ha
      · rw [hnr] at ha
        dsimp only at ha
        split_ifs at ha with hlt
        · obtain rfl := List.mem_singleton.mp ha
          exact (elem_inside_iff hv hc.2.1).mpr
            (hfits n hn r (by omega) i h hc hat hreach hpass nr hnr hlt)
        · cases ha
    · simp only [hat] at ha
      split_ifs at ha with hlt
      · refine henv b ?_ a ha
        rw [envAt, Option.filter_eq_some_iff] at hat
        exact hat.1
      · cases ha

end Inside

/-! ### The snapshot -/

/-- A string is closed in the room of its header. -/
def TextFits (v : RecordView TaskAttr) (i : ℕ) : Prop :=
  0 ∈ pread v.data (positionOf v i).toNat (room v i)

/-- The counts of the snapshot whose count header is `i`. -/
def countsAt (v : RecordView TaskAttr) (i n : ℕ) : List Int32 :=
  (List.range n).map fun k => getI32 (pread v.data ((positionOf v i).toNat + 4 * k) 4)

/-- The headers of the snapshot have room for what the checks read: for the keys when the sizes
agree, for the counts when there are as many as keys, and for the values when no count is
negative. -/
def EnvFits (v : RecordView TaskAttr) (keyHi : ℕ) : Prop :=
  ∀ hk hc hv hs, v.headers.drop keyHi = hk :: hc :: hv :: hs →
    ¬ positionOf v keyHi + hk.dataSize + hc.dataSize + hv.dataSize > v.datasize →
    hc.dataSize = (if hc.dim0 > 0 then hc.dim0 else 1) * 4 →
    TextFits v keyHi ∧
      (sfEnvBlobNkeys (cstr (v.data.drop (positionOf v keyHi).toNat)) = hc.dim0.toNat →
        4 * countsRead (countsAt v (keyHi + 1) hc.dim0.toNat) ≤ room v (keyHi + 1) ∧
          ((∃ sum, countsSum (countsAt v (keyHi + 1) hc.dim0.toNat) = .ok sum) →
            TextFits v (keyHi + 2)))

/-- The headers of the snapshot, if there is one, and the columns have room for what the writer of
the data file reads. -/
def ExportFits (v : RecordView TaskAttr) : Prop :=
  match sfEnvDetectTriple v.headers with
  | none => TableFits v none
  | some keyHi => EnvFits v keyHi ∧ ∀ b, sfEnvValidate v keyHi = .ok b → TableFits v (some b)

section Snapshot

variable {v : RecordView TaskAttr} {keyHi i : ℕ} {a : Access}

theorem text_inside_iff (hv : Shaped v) :
    Access.Inside v ⟨i, (positionOf v i).toNat, textReads v.data (positionOf v i).toNat⟩ ↔
      TextFits v i := by
  have hiff := @inside_iff_room v i 0 (textReads v.data (positionOf v i).toNat) (Nat.succ_pos _)
  rw [Nat.add_zero, Nat.zero_add] at hiff
  have hpos := toNat_positionOf_mod v i
  have hdata := hv.data
  rw [hiff, TextFits]
  rcases Nat.eq_zero_or_pos (room v i) with hzero | hroom
  · rw [hzero]
    refine iff_of_false (Nat.not_le.mpr (Nat.succ_pos _)) (by simp [pread])
  · refine textReads_le_iff ?_
    have hlt := v.datasize.toNat_lt
    rw [room] at hroom ⊢
    have hmod : claimed (v.headers.take i) % 2 ^ 64 = claimed (v.headers.take i) :=
      Nat.mod_eq_of_lt (by omega)
    omega

theorem counts_inside_iff {n : ℕ} :
    Access.Inside v ⟨i, (positionOf v i).toNat, n⟩ ↔ n ≤ room v i := by
  rcases Nat.eq_zero_or_pos n with rfl | hn
  · refine iff_of_true ?_ (Nat.zero_le _)
    intro p hp hp'
    dsimp only at hp hp'
    omega
  · have hiff := @inside_iff_room v i 0 n hn
    rwa [Nat.add_zero, Nat.zero_add] at hiff

/-- The places of the three blocks. -/
theorem positionOf_blocks {hk hc hv : MetaHeader} {hs : List MetaHeader}
    (hdrop : v.headers.drop keyHi = hk :: hc :: hv :: hs) :
    positionOf v (keyHi + 1) = positionOf v keyHi + hk.dataSize ∧
      positionOf v (keyHi + 2) = positionOf v (keyHi + 1) + hc.dataSize := by
  have hget := getElem?_of_drop_cons hdrop
  have htail := drop_succ_of_drop_cons hdrop
  exact ⟨positionOf_succ hget, positionOf_succ (getElem?_of_drop_cons htail)⟩

theorem strAt_of_textFits (h : TextFits v i) :
    strAt v.data (positionOf v i).toNat = some (cstr (v.data.drop (positionOf v i).toNat)) :=
  if_pos (List.mem_of_mem_take h)

/-- **The checks of a snapshot** read inside if and only if its headers have room. -/
theorem validateReads_inside_iff (hv : Shaped v) :
    (∀ a ∈ validateReads v keyHi, a.Inside v) ↔ EnvFits v keyHi := by
  rw [validateReads, EnvFits]
  split
  swap
  · rename_i hnone
    refine iff_of_true (by simp) ?_
    intro hk hc hv hs hdrop
    exact absurd hdrop (hnone hk hc hv hs)
  rename_i hk hc hval hs hdrop
  obtain ⟨hplace, hplace2⟩ := positionOf_blocks hdrop
  have hoff : ((v.headers.take keyHi).map MetaHeader.dataSize).sum = positionOf v keyHi := rfl
  have hcounts : (EnvBlock.mk keyHi (positionOf v keyHi).toNat (positionOf v (keyHi + 1)).toNat
      (positionOf v (keyHi + 2)).toNat hc.dim0.toNat).countsOf v.data =
      countsAt v (keyHi + 1) hc.dim0.toNat := rfl
  simp only [hoff, ← hplace, ← hplace2, hcounts]
  constructor
  · intro hall hk' hc' hv' hs' heq hfit hsize
    rw [hdrop] at heq
    cases heq
    rw [← hplace, ← hplace2] at hfit
    rw [if_neg hfit, if_neg (not_not.mpr hsize)] at hall
    have htext := (text_inside_iff hv).mp (hall _ List.mem_cons_self)
    refine ⟨htext, fun hkeys => ?_⟩
    simp only [strAt_of_textFits htext, hkeys, ne_eq, not_true_eq_false, if_false] at hall
    refine ⟨counts_inside_iff.mp (hall _ (by simp)), ?_⟩
    rintro ⟨sum, hsum⟩
    simp only [hsum] at hall
    exact (text_inside_iff hv).mp (hall _ (by simp))
  · intro hfits a ha
    by_cases hfit : positionOf v (keyHi + 2) + hval.dataSize > v.datasize
    · rw [if_pos hfit] at ha
      cases ha
    by_cases hsize : hc.dataSize ≠ (if hc.dim0 > 0 then hc.dim0 else 1) * 4
    · rw [if_neg hfit, if_pos hsize] at ha
      cases ha
    rw [if_neg hfit, if_neg hsize] at ha
    obtain ⟨htext, hrest⟩ := hfits hk hc hval hs hdrop (by rwa [← hplace, ← hplace2])
      (not_not.mp hsize)
    rcases List.mem_cons.mp ha with rfl | ha
    · exact (text_inside_iff hv).mpr htext
    simp only [strAt_of_textFits htext] at ha
    split_ifs at ha with hkeys
    · cases ha
    obtain ⟨hcount, hvalues⟩ := hrest (not_not.mp hkeys)
    rcases List.mem_cons.mp ha with rfl | ha
    · exact counts_inside_iff.mpr hcount
    rcases hsum : countsSum (countsAt v (keyHi + 1) hc.dim0.toNat) with e | sum
    · rw [hsum] at ha
      cases ha
    · rw [hsum] at ha
      obtain rfl := List.mem_singleton.mp ha
      exact (text_inside_iff hv).mpr (hvalues ⟨sum, hsum⟩)

/-- When no count is negative, all of them are read. -/
theorem countsRead_eq {cs : List Int32} {sum : ℕ} (h : countsSum cs = .ok sum) :
    countsRead cs = cs.length := by
  have hall : ∀ c ∈ cs, ¬ c < 0 := by
    rw [countsSum] at h
    split_ifs at h with hany
    intro c hc hneg
    exact hany (List.any_eq_true.mpr ⟨c, hc, by simpa using hneg⟩)
  clear h
  induction cs with
  | nil => rfl
  | cons c cs ih =>
      rw [countsRead, if_neg (hall c List.mem_cons_self), List.length_cons,
        ih fun x hx => hall x (List.mem_cons_of_mem _ hx)]

/-- The blocks of a snapshot that was checked are read inside. -/
theorem blockReads_inside (hv : Shaped v) (hfits : EnvFits v keyHi) {b : EnvBlock}
    (hok : sfEnvValidate v keyHi = .ok b) : ∀ a ∈ blockReads v.data b, a.Inside v := by
  rw [sfEnvValidate] at hok
  split at hok
  swap
  · cases hok
  rename_i hk hc hval hs hdrop
  obtain ⟨hplace, hplace2⟩ := positionOf_blocks hdrop
  have hoff : ((v.headers.take keyHi).map MetaHeader.dataSize).sum = positionOf v keyHi := rfl
  have hcounts : (EnvBlock.mk keyHi (positionOf v keyHi).toNat (positionOf v (keyHi + 1)).toNat
      (positionOf v (keyHi + 2)).toNat hc.dim0.toNat).countsOf v.data =
      countsAt v (keyHi + 1) hc.dim0.toNat := rfl
  simp only [hoff, ← hplace, ← hplace2, hcounts] at hok
  by_cases hfit : positionOf v (keyHi + 2) + hval.dataSize > v.datasize
  · rw [if_pos hfit] at hok
    cases hok
  by_cases hsize : hc.dataSize ≠ (if hc.dim0 > 0 then hc.dim0 else 1) * 4
  · rw [if_neg hfit, if_pos hsize] at hok
    cases hok
  rw [if_neg hfit, if_neg hsize] at hok
  obtain ⟨htext, hrest⟩ := hfits hk hc hval hs hdrop (by rwa [← hplace, ← hplace2])
    (not_not.mp hsize)
  simp only [strAt_of_textFits htext] at hok
  by_cases hkeys : sfEnvBlobNkeys (cstr (v.data.drop (positionOf v keyHi).toNat)) ≠ hc.dim0.toNat
  · rw [if_pos hkeys] at hok
    cases hok
  rw [if_neg hkeys] at hok
  obtain ⟨hcount, hvalues⟩ := hrest (not_not.mp hkeys)
  rcases hsum : countsSum (countsAt v (keyHi + 1) hc.dim0.toNat) with e | sum
  · rw [hsum] at hok
    cases hok
  have htext2 := hvalues ⟨sum, hsum⟩
  simp only [hsum, strAt_of_textFits htext2] at hok
  split_ifs at hok
  cases hok
  rw [countsRead_eq hsum, countsAt, List.length_map, List.length_range] at hcount
  intro a ha
  simp only [blockReads, List.mem_cons, List.not_mem_nil, or_false] at ha
  rcases ha with rfl | rfl | rfl
  · exact (text_inside_iff hv).mpr htext
  · exact counts_inside_iff.mpr hcount
  · exact (text_inside_iff hv).mpr htext2

/-- **The writer of the data file** stays inside of the payload and of each header if and only if
the headers it comes to have room for what it reads. -/
theorem exportReads_inside_iff (hv : Shaped v) :
    (∀ a ∈ exportReads v, a.Inside v) ↔ ExportFits v := by
  rw [exportReads, ExportFits]
  rcases sfEnvDetectTriple v.headers with _ | keyHi
  · exact tableReads_inside_iff hv (by simp)
  dsimp only
  rw [← validateReads_inside_iff hv]
  simp only [List.mem_append, or_imp, forall_and]
  refine and_congr_right fun hcheck => ?_
  have hfits := (validateReads_inside_iff hv).mp hcheck
  rcases hok : sfEnvValidate v keyHi with e | b
  · simp
  · have htable := @tableReads_inside_iff v (some b) hv fun b' hb' => by
      obtain rfl := Option.some.inj hb'
      exact blockReads_inside hv hfits hok
    simp only [Except.ok.injEq, forall_eq']
    exact htable

end Snapshot

/-! ### The collector of samples -/

/-- For each name, an element of what is taken is not smaller than its type, and the sizes in front
of it have a sum. -/
def CollectFits (v : RecordView TaskAttr) : Prop :=
  ∀ dname t, TakeSpec v dname t →
    elemSizeOf t.header ≤ t.esz.toNat ∧ claimed (v.headers.take t.index) < 2 ^ 64

/-- **The collector of samples** stays inside, for every name and whatever was collected before,
if and only if the elements are as large as their types and the sizes have a sum. -/
theorem collectReads_inside_iff {v : RecordView TaskAttr} (hv : Shaped v) {m : MemberRec}
    (hm : m.record = some v) :
    (∀ dname s, ∀ a ∈ collectReads v m dname s, a.Inside v) ↔ CollectFits v := by
  constructor
  · intro hall dname t hspec
    have htake := taken_eq_some.mp ((taken_iff hv hm).mpr hspec)
    have hcast := (castSize_of_statable hspec.statable).1
    have hpos := (castSize_of_statable hspec.statable).2
    -- nothing was collected before, and the last element is read
    have hlast := hall dname ⟨[], 0, 0, false, false, none⟩
      ⟨t.index, (positionOf v t.index).toNat + (t.nelem.toNat - 1) * t.esz.toNat,
        elemSizeOf t.header⟩ (by
        rw [collectReads, htake]
        dsimp only
        rw [checkSchema, if_pos rfl]
        dsimp only
        rw [hcast, List.mem_map]
        refine ⟨t.nelem.toNat - 1, ?_, rfl⟩
        have := hspec.nonempty
        have := hspec.nelem
        rw [List.mem_range]
        omega)
    have hmem : (t.header, t.index) ∈ outputsNamed v dname := by
      rw [hspec.only]
      exact List.mem_singleton_self _
    have hget := getElem?_of_outputsNamed hmem
    rw [inside_iff_room hpos, room, claimed_take_succ hget] at hlast
    have hsize := hspec.size
    have hlt := v.datasize.toNat_lt
    rw [← hspec.nelem] at hsize
    have hne : 0 < t.nelem.toNat := by
      rw [hspec.nelem]
      exact hspec.nonempty
    have hmul : (t.nelem.toNat - 1) * t.esz.toNat + t.esz.toNat = t.header.dataSize.toNat := by
      rw [← hsize, ← Nat.succ_mul, Nat.mul_comm]
      congr 1
      omega
    omega
  · intro hfits dname s a ha
    rw [collectReads] at ha
    rcases htake : takeOutput m dname with e | t
    · rw [htake] at ha
      cases ha
    rw [htake] at ha
    dsimp only at ha
    rcases hcheck : checkSchema dname t.header s with ⟨u, s'⟩ | ⟨e, s'⟩
    swap
    · rw [hcheck] at ha
      cases ha
    rw [hcheck] at ha
    obtain ⟨k, hk, rfl⟩ := List.mem_map.mp ha
    rw [List.mem_range] at hk
    have hspec := (taken_iff hv hm).mp (taken_eq_some.mpr htake)
    obtain ⟨hesz, hplace⟩ := hfits dname t hspec
    obtain ⟨hcast, hpos⟩ := castSize_of_statable hspec.statable
    have hmem : (t.header, t.index) ∈ outputsNamed v dname := by
      rw [hspec.only]
      exact List.mem_singleton_self _
    have hget := getElem?_of_outputsNamed hmem
    rw [hcast, Option.getD_some, inside_iff_room hpos, room, claimed_take_succ hget]
    have hfit := hspec.fits
    rw [toNat_positionOf hplace, hv.data] at hfit
    have hle : (k + 1) * t.esz.toNat ≤ t.header.dataSize.toNat := by
      rw [← hspec.size, ← hspec.nelem, Nat.mul_comm]
      exact Nat.mul_le_mul_left _ hk
    rw [Nat.succ_mul] at hle
    omega

end TPBench
