import TPBench.Raf.Rtenv

/-!
# Registering a Child Environment

`tpb_raf_record_append_rtenv_derive` reads the record of the parent, computes new headers
and a new payload in memory, and writes the record back. `deriveUpdate` is the computation:
the positions and counts come from the headers that were read, and where they lead outside
a buffer, or leave bytes of the new payload unset, the result is `undefined`.

`DeriveHolds hs data ids` says that headers and payload fit together and that the IDs in
the `DeriveTo` header are `ids`, a missing header holding none. It is what one registration
hands to the next: `deriveUpdate_listed` and `deriveUpdate_fresh` compute the update from
it, and show that the new record satisfies it with one more ID.
-/

open CFile

namespace TPBench

/-! ### The update in memory -/

/-- `TPB_RAF_RTENV_HDR_DERIVE_TO`. -/
def deriveToName : Bytes := ascii "DeriveTo".toList

/-- Whether a header is named `DeriveTo`. The comparison stops behind the ninth byte. -/
def isDerive (h : MetaHeader) : Bool := nameIs h.name.toList deriveToName

/-- `_sf_find_derive_header`: the index is returned as an `int`, and one that is negative
then counts as not found. -/
def sfFindDeriveHeader (hdrs : List MetaHeader) : Option ℕ :=
  (hdrs.findIdx? isDerive).filter (· ≤ intMax)

/-- `_sf_header_data_offset`. -/
def sfHeaderDataOffset (hdrs : List MetaHeader) (idx : ℕ) : UInt64 :=
  (hdrs.take idx).foldl (fun off h => off + h.dataSize) 0

/-- The loop over the old IDs, from position `pos` on: whether it finds the child, `none`
being a read behind the payload. -/
def childListed (data : Bytes) (childId : Int32) : ℕ → ℕ → Option Bool
  | _, 0 => some false
  | pos, n + 1 =>
      if pos + 4 ≤ data.length then
        if getI32 (pread data pos 4) = childId then some true
        else childListed data childId (pos + 4) n
      else none

/-- The copies into the new payload stay inside the buffers and set all of it. -/
def PayloadFilled (data : Bytes) (off dataSize : UInt64) (n : ℕ) : Prop :=
  if off + dataSize < UInt64.ofNat data.length then
    off.toNat + dataSize.toNat < 2 ^ 64 ∧ dataSize.toNat = 4 * n
  else off.toNat + 4 * n = data.length

instance (data : Bytes) (off dataSize : UInt64) (n : ℕ) :
    Decidable (PayloadFilled data off dataSize n) := by
  unfold PayloadFilled
  infer_instance

/-- The header of a first child. -/
def deriveHeader : MetaHeader :=
  MetaHeader.setDim0 { linkHeader deriveToName with typeBits := 0x043d, dataSize := 4 } 1

theorem nheader_deriveHeader : [deriveHeader].length = (1 : UInt32).toNat := rfl

theorem ndim_le_deriveHeader : ∀ h ∈ [deriveHeader], h.ndim.toNat ≤ ndimMax := by
  intro h hh
  rw [List.mem_singleton.mp hh]
  decide

/-- A `DeriveTo` header with one more ID. -/
def MetaHeader.oneMore (h : MetaHeader) : MetaHeader :=
  MetaHeader.setDim0 { h with dataSize := (h.dim0 + 1) * 4 } (h.dim0 + 1)

/-- What the function does with the record that was read. -/
inductive DeriveUpdate
  | undefined
  | patchOnly
  | rewrite (attr : RtenvAttr) (headers : List MetaHeader) (data : Bytes)

/-- The computation of `tpb_raf_record_append_rtenv_derive`, between the reading and the
writing of the record. -/
def deriveUpdate (v : RecordView RtenvAttr) (childId : Int32) : DeriveUpdate :=
  match sfFindDeriveHeader v.headers with
  | some idx =>
      match v.headers[idx]? with
      | none => .undefined
      | some h =>
          let off := sfHeaderDataOffset v.headers idx
          let n := h.dim0.toNat
          match childListed v.data childId off.toNat n with
          | none => .undefined
          | some true => .patchOnly
          | some false =>
              if PayloadFilled v.data off h.dataSize n ∧ v.data.length + 4 < 2 ^ 64 then
                .rewrite { v.attr with deriveTo := childId } (v.headers.set idx h.oneMore)
                  (v.data.take (off.toNat + 4 * n) ++ i32 childId ++
                    v.data.drop (off.toNat + 4 * n))
              else .undefined
  | none =>
      if v.attr.nheader.toNat + 1 < 2 ^ 32 ∧ v.data.length + 4 < 2 ^ 64 then
        .rewrite { v.attr with nheader := v.attr.nheader + 1, deriveTo := childId }
          (v.headers ++ [deriveHeader]) (v.data ++ i32 childId)
      else .undefined

/-! ### The function -/

/-- `_sf_patch_tpbe_derive_to`. -/
def sfPatchTpbeDeriveTo (id deriveTo : Int32) : WsM Unit :=
  fopenUpdate .none (.entry .rtenv) (patchTpbe id fun pos _ => do
    fseek (pos + 528 : ℕ)
    fwrite (i32 deriveTo))

/-- `_sf_patch_tpbr_derive_to`. Nothing of the file is checked. -/
def sfPatchTpbrDeriveTo (id deriveTo : Int32) : WsM Unit :=
  fopenUpdate .none (.rtenv id) do
    fseek (24 + 528)
    fwrite (i32 deriveTo)

/-- The writing of the record, if there is anything to write. -/
def deriveWrite : DeriveUpdate → WsM Unit
  | .undefined => undefinedCall
  | .patchOnly => pure ()
  | .rewrite attr headers data => propagate .rafL3Rtenv
      (tpbRafRecordWriteRtenv attr headers (some data) (UInt64.ofNat data.length))

/-- `tpb_raf_record_append_rtenv_derive`. -/
def tpbRafRecordAppendRtenvDerive (parentId childId : Int32) : WsM Unit := do
  let v ← propagate .rafL3Rtenv (tpbRafRecordReadRtenv parentId)
  deriveWrite (deriveUpdate v childId)
  propagate .rafL3Rtenv (sfPatchTpbeDeriveTo parentId childId)
  propagate .rafL3Rtenv (sfPatchTpbrDeriveTo parentId childId)

/-! ### The two patches -/

/-- The attributes with the latest child replaced. -/
def RtenvAttr.withDeriveTo (a : RtenvAttr) (deriveTo : Int32) : RtenvAttr :=
  { a with deriveTo }

/-- The attributes a registration writes: only the latest child and the number of headers
can differ. -/
def RtenvAttr.withChild (a : RtenvAttr) (deriveTo : Int32) (nheader : UInt32) : RtenvAttr :=
  { a with deriveTo, nheader }

/-- The row with the latest child replaced. -/
def RtenvEntry.withDeriveTo (deriveTo : Int32) (e : RtenvEntry) : RtenvEntry :=
  { e with deriveTo }

theorem RtenvAttr.pwrite_deriveTo (a : RtenvAttr) (d : Int32) :
    pwrite a.encode 528 (i32 d) = (a.withDeriveTo d).encode := by
  simp (disch := simp) only [RtenvAttr.encode, RtenvAttr.withDeriveTo, List.flatten_cons,
    pwrite_append_right, pwrite_append_self, List.Vector.toList_length, length_u64,
    length_i32, Nat.reduceSub]

theorem RtenvEntry.pwrite_deriveTo (e : RtenvEntry) (d : Int32) :
    pwrite e.encode.toList 528 (i32 d) = (e.withDeriveTo d).encode.toList := by
  simp (disch := simp) only [RtenvEntry.toList_encode, RtenvEntry.withDeriveTo,
    List.flatten_cons, pwrite_append_right, pwrite_append_self, List.Vector.toList_length,
    length_u64, length_i32, Nat.reduceSub]

section Patches

variable {ws ws' : Workspace} {rows : List RtenvEntry} {id d : Int32}

/-- The patch of the record replaces its latest child. -/
theorem sfPatchTpbrDeriveTo_run {r : Record rtenvFormat}
    (h : ws.files (.rtenv id) = some r.bytes) :
    sfPatchTpbrDeriveTo id d ws =
      .ok () (ws.set (.rtenv id) (r.withAttr (r.attr.withDeriveTo d) rfl).bytes) := by
  have hlen : (rtenvFormat.encode r.attr).length = 1832 := r.attr.length_encode
  have hpatch : pwrite r.bytes (24 + 528) (i32 d) =
      (r.withAttr (r.attr.withDeriveTo d) rfl).bytes := by
    refine r.pwrite_attr 528 (r.attr.withDeriveTo d) rfl rfl ?_ (r.attr.pwrite_deriveTo d)
    rw [hlen, length_i32]
    decide
  rw [← hpatch]
  refine fopenUpdate_ok h (s := ⟨_, 24 + 528 + 4⟩) ?_
  exact bind_then (fseek_run rfl) rfl

/-- The patch of the table replaces the latest child of the first row with the ID. -/
theorem sfPatchTpbeDeriveTo_found (h : ws.files (.entry .rtenv) = some (rtenvRow.table rows))
    (hex : ∃ e ∈ rows, e.id = id) :
    sfPatchTpbeDeriveTo id d ws = .ok () (ws.set (.entry .rtenv)
      (rtenvRow.table (modifyFirst (·.id = id) (RtenvEntry.withDeriveTo d) rows))) := by
  obtain ⟨i, hi⟩ : ∃ i, rows.findIdx? (·.id = id) = some i := by
    apply Option.isSome_iff_exists.mp
    simpa using hex
  obtain ⟨hidx, e, he, -, -⟩ := exists_row_of_findIdx? hi
  have hpatch : pwrite (rtenvRow.table rows) (8 + i * 1828 + 528) (i32 d) =
      rtenvRow.table (modifyFirst (·.id = id) (RtenvEntry.withDeriveTo d) rows) := by
    rw [modifyFirst, hidx]
    exact rtenvRow.pwrite_table he (by rw [length_i32]; decide) (e.pwrite_deriveTo d)
  rw [← hpatch]
  refine fopenUpdate_ok h (s := ⟨_, 8 + i * 1828 + 528 + 4⟩) ?_
  rw [patchTpbe_found hi he]
  exact bind_then (fseek_run rfl) rfl

/-- The patch of the table fails when no row has the ID, and changes nothing. -/
theorem sfPatchTpbeDeriveTo_none (h : ws.files (.entry .rtenv) = some (rtenvRow.table rows))
    (hnone : ∀ e ∈ rows, e.id ≠ id) :
    sfPatchTpbeDeriveTo id d ws = .error (.code .none .fileIoFail) ws := by
  obtain ⟨q, hq⟩ := patchTpbe_none (fun pos _ => do
    fseek (pos + 528 : ℕ)
    fwrite (i32 d)) hnone
  simp only [sfPatchTpbeDeriveTo, fopenUpdate, h, hq, Workspace.set_self h]
  rfl

/-- A patch of the table that succeeds found a row with the ID. -/
theorem sfPatchTpbeDeriveTo_eq_ok
    (h : ws.files (.entry .rtenv) = some (rtenvRow.table rows))
    (hok : sfPatchTpbeDeriveTo id d ws = .ok () ws') :
    (∃ e ∈ rows, e.id = id) ∧ ws' = ws.set (.entry .rtenv)
      (rtenvRow.table (modifyFirst (·.id = id) (RtenvEntry.withDeriveTo d) rows)) := by
  by_cases hex : ∃ e ∈ rows, e.id = id
  · rw [sfPatchTpbeDeriveTo_found h hex] at hok
    cases hok
    exact ⟨hex, rfl⟩
  · rw [sfPatchTpbeDeriveTo_none h fun e he heq => hex ⟨e, he, heq⟩] at hok
    cases hok

end Patches

/-! ### The record after a registration -/

section Registered

variable {ws ws' : Workspace} {rows : List RtenvEntry} {parentId childId : Int32}
  {r : Record rtenvFormat}

/-- What is written back is a record again, and its attributes are the old ones with the
latest child and possibly the number of headers replaced. -/
theorem deriveUpdate_record {a : RtenvAttr} {hs : List MetaHeader} {data : Bytes}
    (h : deriveUpdate r.view childId = .rewrite a hs data) :
    ∃ r' : Record rtenvFormat, r'.attr = a ∧ r'.headers = hs ∧ r'.buf = some data ∧
      a = r.attr.withChild childId a.nheader := by
  have hlen : r.view.headers.length = r.attr.nheader.toNat := by
    rw [Record.view, List.length_map]
    exact r.nheader_eq
  have hndim : ∀ g ∈ r.view.headers, g.ndim.toNat ≤ ndimMax := by
    intro g hg
    obtain ⟨g₀, hg₀, rfl⟩ := List.mem_map.mp hg
    exact r.ndim_le g₀ hg₀
  have hdata : r.view.data.length < 2 ^ 64 := r.data_lt
  simp only [deriveUpdate] at h
  split at h
  · rename_i idx _
    split at h
    · cases h
    · rename_i g hg
      split at h
      · cases h
      · cases h
      · split at h
        · rename_i hfits
          cases h
          refine ⟨⟨_, _, some _, ?_, ?_, ?_⟩, rfl, rfl, rfl, rfl⟩
          · rw [List.length_set]
            exact hlen
          · intro x hx
            rcases List.mem_or_eq_of_mem_set hx with hx | rfl
            · exact hndim x hx
            · exact hndim g (List.mem_of_getElem? hg)
          · have hsplit : ((r.view.data.take ((sfHeaderDataOffset r.view.headers idx).toNat +
                4 * g.dim0.toNat)).length + (r.view.data.drop
                ((sfHeaderDataOffset r.view.headers idx).toNat + 4 * g.dim0.toNat)).length) =
                r.view.data.length := by
              rw [← List.length_append, List.take_append_drop]
            simp only [Option.getD_some, List.length_append, length_i32]
            omega
        · cases h
  · split at h
    · rename_i hfits
      cases h
      refine ⟨⟨_, _, some _, ?_, ?_, ?_⟩, rfl, rfl, rfl, rfl⟩
      · change (r.view.headers ++ [deriveHeader]).length = (r.attr.nheader + 1).toNat
        have hfit : r.attr.nheader.toNat + 1 < 2 ^ 32 := hfits.1
        have hone : (1 : UInt32).toNat = 1 := rfl
        rw [List.length_append, hlen, List.length_singleton, UInt32.toNat_add, hone]
        omega
      · intro x hx
        rcases List.mem_append.mp hx with hx | hx
        · exact hndim x hx
        · rw [List.mem_singleton.mp hx]
          decide
      · simp only [Option.getD_some, List.length_append, length_i32]
        exact hfits.2
    · cases h

/-- The writing replaces the file of the record. -/
theorem deriveWrite_run {r' : Record rtenvFormat} {data : Bytes} (hbuf : r'.buf = some data) :
    deriveWrite (.rewrite r'.attr r'.headers data) ws =
      .ok () (ws.set (.rtenv r'.attr.id) r'.bytes) := by
  have hdata : r'.datasize = UInt64.ofNat data.length := by
    rw [Record.datasize, Record.data, hbuf, Option.getD_some]
  rw [deriveWrite, propagate_eq_ok, ← hbuf, ← hdata]
  rfl

/-- The writing leaves the file of a record with the attributes of the old one, up to the
latest child and the number of headers. -/
theorem deriveWrite_ok (hr : ws.files (.rtenv r.attr.id) = some r.bytes)
    (h : deriveWrite (deriveUpdate r.view childId) ws = .ok () ws') :
    ∃ r' : Record rtenvFormat, ws' = ws.set (.rtenv r.attr.id) r'.bytes ∧
      r'.attr = r.attr.withChild r'.attr.deriveTo r'.attr.nheader := by
  rcases hup : deriveUpdate r.view childId with - | - | ⟨a, hs, data⟩
  · rw [hup] at h
    cases h
  · rw [hup] at h
    cases h
    exact ⟨r, (Workspace.set_self hr).symm, rfl⟩
  · obtain ⟨r', rfl, rfl, hbuf, hattr⟩ := deriveUpdate_record hup
    have hid : r'.attr.id = r.attr.id := by
      rw [hattr]
      rfl
    rw [hup, deriveWrite_run hbuf, hid] at h
    cases h
    refine ⟨r', rfl, ?_⟩
    rw [hattr]
    rfl

/-- **A registration that succeeds** found a row of the parent, and made the child the
latest one in this row and in the record, whose other shared attributes stay. -/
theorem tpbRafRecordAppendRtenvDerive_ok (hr : ws.files (.rtenv r.attr.id) = some r.bytes)
    (htable : ws.files (.entry .rtenv) = some (rtenvRow.table rows))
    (hok : tpbRafRecordAppendRtenvDerive r.attr.id childId ws = .ok () ws') :
    (∃ e ∈ rows, e.id = r.attr.id) ∧ ∃ r' : Record rtenvFormat,
      r'.attr = r.attr.withChild childId r'.attr.nheader ∧
      ws' = (ws.set (.rtenv r.attr.id) r'.bytes).set (.entry .rtenv) (rtenvRow.table
        (modifyFirst (·.id = r.attr.id) (RtenvEntry.withDeriveTo childId) rows)) := by
  obtain ⟨v, ws₁, hread, hok⟩ := bind_eq_ok.mp hok
  rw [propagate_eq_ok, tpbRafRecordReadRtenv, recordRead_of_bytes hr] at hread
  cases hread
  obtain ⟨⟨⟩, ws₂, hwrite, hok⟩ := bind_eq_ok.mp hok
  obtain ⟨r₁, rfl, hattr⟩ := deriveWrite_ok hr hwrite
  obtain ⟨⟨⟩, ws₃, htpbe, htpbr⟩ := bind_eq_ok.mp hok
  rw [propagate_eq_ok] at htpbe htpbr
  have htable' : (ws.set (.rtenv r.attr.id) r₁.bytes).files (.entry .rtenv) =
      some (rtenvRow.table rows) := by
    rw [Workspace.set_files_of_ne _ _ (by simp), htable]
  obtain ⟨hex, rfl⟩ := sfPatchTpbeDeriveTo_eq_ok htable' htpbe
  have hr₁ : ((ws.set (.rtenv r.attr.id) r₁.bytes).set (.entry .rtenv) (rtenvRow.table
      (modifyFirst (·.id = r.attr.id) (RtenvEntry.withDeriveTo childId) rows))).files
      (.rtenv r.attr.id) = some r₁.bytes := by
    rw [Workspace.set_files_of_ne _ _ (by simp), Workspace.set_files_same]
  rw [sfPatchTpbrDeriveTo_run hr₁] at htpbr
  cases htpbr
  refine ⟨hex, r₁.withAttr (r₁.attr.withDeriveTo childId) rfl, ?_, ?_⟩
  · change r₁.attr.withDeriveTo childId = r.attr.withChild childId r₁.attr.nheader
    rw [hattr]
    rfl
  · rw [Workspace.set_comm _ (by simp), Workspace.set_set]

/-- **A registration succeeds** for a parent with a row and a record that has room for one more
child. -/
theorem tpbRafRecordAppendRtenvDerive_run (hr : ws.files (.rtenv r.attr.id) = some r.bytes)
    (htable : ws.files (.entry .rtenv) = some (rtenvRow.table rows))
    (hex : ∃ e ∈ rows, e.id = r.attr.id) (hroom : deriveUpdate r.view childId ≠ .undefined) :
    ∃ ws', tpbRafRecordAppendRtenvDerive r.attr.id childId ws = .ok () ws' := by
  obtain ⟨ws₁, r₁, hwrite, hr₁, htable₁⟩ : ∃ (ws₁ : Workspace) (r₁ : Record rtenvFormat),
      deriveWrite (deriveUpdate r.view childId) ws = .ok () ws₁ ∧
      ws₁.files (.rtenv r.attr.id) = some r₁.bytes ∧
      ws₁.files (.entry .rtenv) = some (rtenvRow.table rows) := by
    rcases hup : deriveUpdate r.view childId with - | - | ⟨a, hs, data⟩
    · exact absurd hup hroom
    · exact ⟨ws, r, rfl, hr, htable⟩
    · obtain ⟨r₁, rfl, rfl, hbuf, hattr⟩ := deriveUpdate_record hup
      have hid₁ : r₁.attr.id = r.attr.id := by
        rw [hattr]
        rfl
      refine ⟨_, r₁, deriveWrite_run hbuf, ?_, ?_⟩
      · rw [hid₁]
        exact ws.set_files_same _ _
      · rw [ws.set_files_of_ne _ (by simp)]
        exact htable
  have hread : propagate .rafL3Rtenv (tpbRafRecordReadRtenv r.attr.id) ws = .ok r.view ws :=
    propagate_eq_ok.mpr (recordRead_of_bytes hr)
  have hrow := sfPatchTpbeDeriveTo_found htable₁ hex (d := childId)
  have hr₂ : (ws₁.set (.entry .rtenv) (rtenvRow.table
      (modifyFirst (·.id = r.attr.id) (RtenvEntry.withDeriveTo childId) rows))).files
      (.rtenv r.attr.id) = some r₁.bytes := by
    rw [ws₁.set_files_of_ne _ (by simp)]
    exact hr₁
  have hrecord := sfPatchTpbrDeriveTo_run hr₂ (d := childId)
  exact ⟨_, bind_then hread (bind_then hwrite (bind_then (propagate_eq_ok.mpr hrow)
    (propagate_eq_ok.mpr hrecord)))⟩

/-- A registration that succeeds found a row of the parent, whatever the record was. -/
theorem tpbRafRecordAppendRtenvDerive_row (htable : rtenvRow.Holds ws rows)
    (hok : tpbRafRecordAppendRtenvDerive parentId childId ws = .ok () ws') :
    ∃ e ∈ rows, e.id = parentId := by
  obtain ⟨v, ws₁, hread, hok₁⟩ := bind_eq_ok.mp hok
  rw [propagate_eq_ok] at hread
  obtain ⟨rfl, -⟩ := fopenRead_eq_ok hread
  obtain ⟨⟨⟩, ws₂, hwrite, hok₂⟩ := bind_eq_ok.mp hok₁
  obtain ⟨⟨⟩, ws₃, htpbe, -⟩ := bind_eq_ok.mp hok₂
  rw [propagate_eq_ok] at htpbe
  have hfile : ws₂.files (.entry .rtenv) = ws₁.files (.entry .rtenv) := by
    rcases hup : deriveUpdate v childId with - | - | ⟨a, hs, data⟩
    · rw [hup] at hwrite
      cases hwrite
    · rw [hup] at hwrite
      cases hwrite
      rfl
    · rw [hup, deriveWrite, propagate_eq_ok] at hwrite
      cases hwrite
      exact Workspace.set_files_of_ne _ _ (by simp [rtenvFormat])
  rcases htable with htable | ⟨hnone, rfl⟩
  · exact (sfPatchTpbeDeriveTo_eq_ok (hfile.trans htable) htpbe).1
  · obtain ⟨f, s, hf, -⟩ := fopenUpdate_eq_ok htpbe
    rw [hfile] at hf
    cases hnone.symm.trans hf

end Registered

/-! ### The list of children -/

/-- The `n` IDs from position `pos` on. -/
def idsAt (data : Bytes) : ℕ → ℕ → List Int32
  | _, 0 => []
  | pos, n + 1 => getI32 (pread data pos 4) :: idsAt data (pos + 4) n

/-- The IDs a reader finds in the `DeriveTo` header. -/
def deriveIds (hdrs : List MetaHeader) (data : Bytes) : List Int32 :=
  match sfFindDeriveHeader hdrs with
  | none => []
  | some idx => idsAt data (sfHeaderDataOffset hdrs idx).toNat
      ((hdrs[idx]?.map fun h => h.dim0.toNat).getD 0)

/-- The bytes of a list of IDs. -/
def i32s (ids : List Int32) : Bytes := ids.flatMap i32

/-- The payload is made of the parts the headers claim, and the `DeriveTo` header, if there
is one, holds the IDs `ids`. Its index can be returned as an `int`. -/
inductive DeriveHolds : List MetaHeader → Bytes → List Int32 → Prop
  | none {hs : List MetaHeader} {data : Bytes} : (∀ h ∈ hs, isDerive h = false) →
      hs.length ≤ intMax → claimed hs = data.length → DeriveHolds hs data []
  | some {pre post : List MetaHeader} {h : MetaHeader} {a b : Bytes} {ids : List Int32} :
      (∀ g ∈ pre, isDerive g = false) → isDerive h = true → pre.length ≤ intMax →
      1 ≤ h.ndim.toNat → h.dim0.toNat = ids.length → h.dataSize.toNat = 4 * ids.length →
      claimed pre = a.length → claimed post = b.length →
      DeriveHolds (pre ++ h :: post) (a ++ i32s ids ++ b) ids

section DeriveHolds

variable {hs pre post : List MetaHeader} {h : MetaHeader} {data a b : Bytes}
  {ids : List Int32} {v : RecordView RtenvAttr} {childId : Int32}

@[simp] theorem length_i32s (ids : List Int32) : (i32s ids).length = 4 * ids.length := by
  simp [i32s, List.length_flatMap, Nat.mul_comm]

/-- The sum of the sizes does not overflow when it is the length of a payload. -/
theorem sfHeaderDataOffset_append (hlen : claimed pre < 2 ^ 64) :
    (sfHeaderDataOffset (pre ++ hs) pre.length).toNat = claimed pre := by
  have hfold : ∀ (gs : List MetaHeader) (off : UInt64), off.toNat + claimed gs < 2 ^ 64 →
      (gs.foldl (fun off h => off + h.dataSize) off).toNat = off.toNat + claimed gs := by
    intro gs
    induction gs with
    | nil => simp [claimed]
    | cons g gs ih =>
        intro off hoff
        have hclaimed : claimed (g :: gs) = g.dataSize.toNat + claimed gs := rfl
        have hadd : (off + g.dataSize).toNat = off.toNat + g.dataSize.toNat := by
          rw [UInt64.toNat_add]
          omega
        rw [List.foldl_cons, ih _ (by omega), hadd, hclaimed, Nat.add_assoc]
  rw [sfHeaderDataOffset, List.take_left]
  simpa using hfold pre 0 (by simpa using hlen)

theorem claimed_lt (hclaimed : claimed pre = a.length)
    (hdata : (a ++ i32s ids ++ b).length < 2 ^ 64) : claimed pre < 2 ^ 64 := by
  simp only [List.length_append] at hdata
  omega

/-- The first header with the name is found. -/
theorem sfFindDeriveHeader_append (hpre : ∀ g ∈ pre, isDerive g = false)
    (hh : isDerive h = true) (hlen : pre.length ≤ intMax) :
    sfFindDeriveHeader (pre ++ h :: post) = some pre.length := by
  have hfind : (pre ++ h :: post).findIdx? isDerive = some pre.length := by
    rw [List.findIdx?_append, List.findIdx?_eq_none_iff.mpr hpre, List.findIdx?_cons, if_pos hh]
    simp
  simp [sfFindDeriveHeader, hfind, hlen]

/-- Without such a header, none is found. -/
theorem sfFindDeriveHeader_none (hnone : ∀ g ∈ hs, isDerive g = false) :
    sfFindDeriveHeader hs = none := by
  rw [sfFindDeriveHeader, List.findIdx?_eq_none_iff.mpr hnone]
  rfl

/-- The next ID of a list in front of its bytes. -/
theorem pread_i32s (a b : Bytes) (c : Int32) (ids : List Int32) :
    pread (a ++ i32s (c :: ids) ++ b) a.length 4 = i32 c := by
  have hsplit : a ++ i32s (c :: ids) ++ b = a ++ (i32 c ++ (i32s ids ++ b)) := by simp [i32s]
  rw [hsplit, pread_append_right le_rfl, Nat.sub_self, pread_append_self (length_i32 c)]

/-- One ID further in the same bytes. -/
theorem append_i32s_cons (a b : Bytes) (c : Int32) (ids : List Int32) :
    a ++ i32s (c :: ids) ++ b = (a ++ i32 c) ++ i32s ids ++ b := by simp [i32s]

theorem idsAt_i32s (a b : Bytes) (ids : List Int32) :
    idsAt (a ++ i32s ids ++ b) a.length ids.length = ids := by
  induction ids generalizing a with
  | nil => rfl
  | cons c ids ih =>
      have htail := ih (a ++ i32 c)
      rw [List.length_append, length_i32, ← append_i32s_cons] at htail
      rw [List.length_cons, idsAt, pread_i32s, getI32_i32, htail]

/-- The loop over the old IDs decides membership. -/
theorem childListed_i32s (a b : Bytes) (ids : List Int32) (childId : Int32) :
    childListed (a ++ i32s ids ++ b) childId a.length ids.length =
      some (decide (childId ∈ ids)) := by
  induction ids generalizing a with
  | nil => simp [childListed]
  | cons c ids ih =>
      have hfits : a.length + 4 ≤ (a ++ i32s (c :: ids) ++ b).length := by
        simp only [List.length_append, length_i32s, List.length_cons]
        omega
      rw [List.length_cons, childListed, if_pos hfits, pread_i32s, getI32_i32]
      by_cases hc : c = childId
      · simp [hc]
      · have htail := ih (a ++ i32 c)
        rw [List.length_append, length_i32, ← append_i32s_cons] at htail
        rw [if_neg hc, htail]
        simp [Ne.symm hc]

/-- A reader finds the IDs that stand where the headers say. -/
theorem deriveIds_append (hpre : ∀ g ∈ pre, isDerive g = false) (hh : isDerive h = true)
    (hlen : pre.length ≤ intMax) (hdim : h.dim0.toNat = ids.length)
    (hclaimed : claimed pre = a.length)
    (hdata : (a ++ i32s ids ++ b).length < 2 ^ 64) :
    deriveIds (pre ++ h :: post) (a ++ i32s ids ++ b) = ids := by
  have hoff := claimed_lt hclaimed hdata
  simp only [deriveIds, sfFindDeriveHeader_append hpre hh hlen,
    sfHeaderDataOffset_append hoff, List.getElem?_append_right le_rfl, Nat.sub_self,
    List.getElem?_cons_zero, Option.map_some, Option.getD_some, hdim, hclaimed]
  exact idsAt_i32s a b ids

/-- A child that stands there needs no writing. -/
theorem deriveUpdate_append (hpre : ∀ g ∈ pre, isDerive g = false) (hh : isDerive h = true)
    (hlen : pre.length ≤ intMax) (hdim : h.dim0.toNat = ids.length)
    (hclaimed : claimed pre = a.length)
    (hdata : (a ++ i32s ids ++ b).length < 2 ^ 64) (hchild : childId ∈ ids) {attr : RtenvAttr}
    {datasize : UInt64} :
    deriveUpdate ⟨attr, pre ++ h :: post, datasize, a ++ i32s ids ++ b⟩ childId = .patchOnly := by
  have hoff := claimed_lt hclaimed hdata
  simp only [deriveUpdate, sfFindDeriveHeader_append hpre hh hlen,
    sfHeaderDataOffset_append hoff, List.getElem?_append_right le_rfl, Nat.sub_self,
    List.getElem?_cons_zero, hdim, hclaimed, childListed_i32s, hchild, decide_true]

/-- The IDs a reader finds are those the header holds. -/
theorem DeriveHolds.deriveIds_eq (hholds : DeriveHolds hs data ids)
    (hdata : data.length < 2 ^ 64) : deriveIds hs data = ids := by
  cases hholds with
  | none hnone => rw [deriveIds, sfFindDeriveHeader_none hnone]
  | some hpre hh hlen _ hdim _ hclaimed _ => exact deriveIds_append hpre hh hlen hdim hclaimed hdata

theorem claimed_norm (hs : List MetaHeader) : claimed (hs.map MetaHeader.norm) = claimed hs := by
  rw [claimed, claimed, List.map_map]
  rfl

/-- What a reader stores of the headers holds the same IDs. -/
theorem DeriveHolds.norm (hholds : DeriveHolds hs data ids) :
    DeriveHolds (hs.map MetaHeader.norm) data ids := by
  cases hholds with
  | none hnone hlen hclaimed =>
      refine .none ?_ (by rwa [List.length_map]) (by rwa [claimed_norm])
      intro g hg
      obtain ⟨g₀, hg₀, rfl⟩ := List.mem_map.mp hg
      exact hnone g₀ hg₀
  | @some pre post h a b ids hpre hh hlen hndim hdim hsize hclaimed hclaimed' =>
      rw [List.map_append, List.map_cons]
      refine .some ?_ hh (by rwa [List.length_map]) hndim ?_ hsize (by rwa [claimed_norm])
        (by rwa [claimed_norm])
      · intro g hg
        obtain ⟨g₀, hg₀, rfl⟩ := List.mem_map.mp hg
        exact hpre g₀ hg₀
      · rw [MetaHeader.dim0_norm hndim, hdim]

/-- A child that is listed needs no writing. -/
theorem deriveUpdate_listed (hholds : DeriveHolds v.headers v.data ids)
    (hdata : v.data.length < 2 ^ 64) (hchild : childId ∈ ids) :
    deriveUpdate v childId = .patchOnly := by
  obtain ⟨attr, headers, datasize, data⟩ := v
  dsimp only at hholds hdata
  cases hholds with
  | none => cases hchild
  | some hpre hh hlen _ hdim _ hclaimed _ =>
      exact deriveUpdate_append hpre hh hlen hdim hclaimed hdata hchild

/-- The first child, when no header is named `DeriveTo`. -/
theorem deriveUpdate_first (hnone : ∀ g ∈ v.headers, isDerive g = false) :
    deriveUpdate v childId = .undefined ∨ deriveUpdate v childId =
      .rewrite { v.attr with nheader := v.attr.nheader + 1, deriveTo := childId }
        (v.headers ++ [deriveHeader]) (v.data ++ i32s [childId]) := by
  simp only [deriveUpdate, sfFindDeriveHeader_none hnone]
  split
  · refine .inr ?_
    simp [i32s]
  · exact .inl rfl

/-- Another child, behind those the header lists. -/
theorem deriveUpdate_next (hpre : ∀ g ∈ pre, isDerive g = false) (hh : isDerive h = true)
    (hlen : pre.length ≤ intMax) (hdim : h.dim0.toNat = ids.length)
    (hclaimed : claimed pre = a.length) (hheaders : v.headers = pre ++ h :: post)
    (hv : v.data = a ++ i32s ids ++ b) (hdata : v.data.length < 2 ^ 64)
    (hchild : childId ∉ ids) :
    deriveUpdate v childId = .undefined ∨ v.data.length + 4 < 2 ^ 64 ∧ deriveUpdate v childId =
      .rewrite { v.attr with deriveTo := childId } (pre ++ h.oneMore :: post)
        (a ++ i32s (ids ++ [childId]) ++ b) := by
  rw [hv] at hdata
  have hoff := claimed_lt hclaimed hdata
  simp only [deriveUpdate, hheaders, hv, sfFindDeriveHeader_append hpre hh hlen,
    sfHeaderDataOffset_append hoff, List.getElem?_append_right le_rfl, Nat.sub_self,
    List.getElem?_cons_zero, hdim, hclaimed, childListed_i32s, hchild, decide_false]
  split
  · rename_i hfits
    have hsplit : (a ++ i32s ids ++ b).take (a.length + 4 * ids.length) ++ i32 childId ++
        (a ++ i32s ids ++ b).drop (a.length + 4 * ids.length) =
        a ++ i32s (ids ++ [childId]) ++ b := by
      have hlen' : (a ++ i32s ids).length = a.length + 4 * ids.length := by simp
      rw [List.take_left' hlen', List.drop_left' hlen']
      simp [i32s]
    refine .inr ⟨hfits.2, ?_⟩
    rw [hsplit, List.set_append_right _ _ le_rfl, Nat.sub_self, List.set_cons_zero]
  · exact .inl rfl

/-- The header of a list with one more ID. -/
theorem oneMore_sizes (hdim : h.dim0.toNat = ids.length)
    (hlen : (i32s ids).length + 4 < 2 ^ 64) :
    h.oneMore.dim0.toNat = (ids ++ [childId]).length ∧
      h.oneMore.dataSize.toNat = 4 * (ids ++ [childId]).length := by
  rw [length_i32s] at hlen
  have hdim' : (h.dim0 + 1).toNat = ids.length + 1 := by
    rw [UInt64.toNat_add, UInt64.toNat_one, hdim]
    omega
  refine ⟨?_, ?_⟩
  · rw [MetaHeader.oneMore, MetaHeader.dim0_setDim0, hdim', List.length_append]
    rfl
  · have hfour : (4 : UInt64).toNat = 4 := rfl
    rw [List.length_append, List.length_singleton]
    change ((h.dim0 + 1) * 4).toNat = _
    rw [UInt64.toNat_mul, hdim', hfour]
    omega

/-- A child that is not listed is added to the end of the list, if the new payload has a
size. -/
theorem deriveUpdate_fresh (hholds : DeriveHolds v.headers v.data ids)
    (hdata : v.data.length < 2 ^ 64) (hchild : childId ∉ ids) :
    deriveUpdate v childId = .undefined ∨ ∃ attr hs data,
      deriveUpdate v childId = .rewrite attr hs data ∧
      DeriveHolds hs data (ids ++ [childId]) := by
  obtain ⟨attr, headers, datasize, data⟩ := v
  dsimp only at hholds hdata
  cases hholds with
  | none hnone hlen hclaimed =>
      refine (deriveUpdate_first hnone).imp id fun hup => ⟨_, _, _, hup, ?_⟩
      rw [← List.append_nil (data ++ i32s [childId])]
      exact .some hnone (by decide) hlen (by decide) rfl rfl hclaimed rfl
  | @some pre post h a b ids hpre hh hlen hndim hdim hsize hclaimed hclaimed' =>
      refine (deriveUpdate_next hpre hh hlen hdim hclaimed rfl rfl hdata hchild).imp id ?_
      rintro ⟨hfits, hup⟩
      simp only [List.length_append] at hfits
      obtain ⟨hdim', hsize'⟩ := @oneMore_sizes h ids childId hdim (by omega)
      exact ⟨_, _, _, hup, .some hpre hh hlen hndim hdim' hsize' hclaimed hclaimed'⟩

end DeriveHolds

/-! ### An environment without children -/

/-- A record without headers and payload. -/
def bareRecord : Record rtenvFormat where
  attr := { RtenvAttr.zero with id := 1 }
  headers := []
  buf := none
  nheader_eq := nheader_nil
  ndim_le := ndim_le_nil
  data_lt := data_lt_none

/-- Its row. -/
def bareEntry : RtenvEntry := { RtenvEntry.zero with id := 1 }

/-- A workspace with a record and a row of the environment 1. -/
def bareWorkspace (r : Record rtenvFormat) (e : RtenvEntry) : Workspace :=
  (Workspace.empty.set (.rtenv 1) r.bytes).set (.entry .rtenv) (rtenvRow.table [e])

theorem bareWorkspace_record (r : Record rtenvFormat) (e : RtenvEntry) :
    (bareWorkspace r e).files (.rtenv 1) = some r.bytes := by
  rw [bareWorkspace, Workspace.set_files_of_ne _ _ (by simp), Workspace.set_files_same]

theorem bareWorkspace_table (r : Record rtenvFormat) (e : RtenvEntry) :
    (bareWorkspace r e).files (.entry .rtenv) = some (rtenvRow.table [e]) :=
  Workspace.set_files_same _ _ _

end TPBench
