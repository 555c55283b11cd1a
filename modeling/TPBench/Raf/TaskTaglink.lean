import TPBench.Raf.Link

/-!
# Task Capsules

A task capsule is a task record with one `TaskID` link header whose payload collects the
IDs of related tasks. `tpb_raf_record_create_task_capsule` writes it with a first ID, and
any number of processes append to it with `tpb_raf_record_append_task_capsule`, which
holds a lock on the whole file from its first read to its last write.

An append recomputes everything it needs from the file: it takes the number of dimensions
of the header to find the SPLIT magic, the payload size to find the END magic, and writes
the ID, the magic and three counts. `Capsule` is the invariant that ties these regions
together, and `appendTaskCapsule_run` shows that an append turns the file of a capsule
into the file of the capsule with one more ID. Since an append is one atomic step,
`taskCapsule_interleaved` follows for every interleaving by the invariant rule of
`TPBench.Conc.Runs`.
-/

open CFile Conc

namespace TPBench

/-! ### The functions -/

/-- `tpb_raf_record_create_task_capsule`. -/
def tpbRafRecordCreateTaskCapsule (attr : TaskAttr) (headers : List MetaHeader)
    (firstTaskId : Id20) : WsM Unit :=
  if attr.nheader ≠ 1 ∨ attr.ninput ≠ 0 ∨ attr.noutput ≠ 0 then
    tpbFail .rafL2Task .cliFail
  else
    propagate .rafL2Task (tpbRafRecordWriteTask attr headers (some firstTaskId.toList) 20)

/-- `tpb_raf_record_append_task_capsule`, on the open and locked record. -/
def appendTaskCapsule (taskId : Id20) : FileM Unit := do
  let magic ← fread 8
  check (tpbRafValidateMagic magic .record .task .posStart)
  let _metasize ← readU64
  let datasize ← readU64
  fseek 172
  let nheader ← readU32
  check (nheader = 1)
  fseek 340
  let namechk ← fread 256
  check (nameIs namechk taskIdName)
  check (datasize % 20 = 0)
  fseek (308 + 4)
  let hdr0Ndim ← readU32
  let splitOff : ℤ := 308 + 32 + 256 + 256 + 2048 + hdr0Ndim.toNat * 8 + hdr0Ndim.toNat * 64
  let endMagicOff := splitOff + 8 + longOfU64 datasize
  let newDs := datasize + 20
  let newDim0 := newDs / 20
  let newHdrDs := newDs
  fseek endMagicOff
  let magic ← fread 8
  check (tpbRafValidateMagic magic .record .task .posEnd)
  fseek endMagicOff
  fwrite taskId.toList
  fwrite (tpbRafBuildMagic .record .task .posEnd)
  fseek 16
  fwrite (u64 newDs)
  fseek 316
  fwrite (u64 newHdrDs)
  fseek 2900
  fwrite (u64 newDim0)

/-- `tpb_raf_record_append_task_capsule`. -/
def tpbRafRecordAppendTaskCapsule (capsuleId taskId : Id20) : WsM Unit :=
  fopenUpdate .rafL3Task (.record .task capsuleId) (appendTaskCapsule taskId)

/-- The header with the size and the first dimension of `n` IDs. -/
def MetaHeader.counted (h : MetaHeader) (n : ℕ) : MetaHeader :=
  MetaHeader.setDim0 { h with dataSize := UInt64.ofNat (20 * n) } (UInt64.ofNat n)

/-- Only the last count stands in the header. -/
theorem MetaHeader.counted_counted (h : MetaHeader) (m n : ℕ) :
    (h.counted m).counted n = h.counted n := by
  have hset : (h.dimsizes.set 0 (UInt64.ofNat m)).set 0 (UInt64.ofNat n) =
      h.dimsizes.set 0 (UInt64.ofNat n) := by
    apply List.Vector.toList_injective
    simp [List.Vector.toList_set]
  simp [MetaHeader.counted, MetaHeader.setDim0, hset]

/-- A task capsule: the attributes of a record with one header, that header with one
dimension and the name the appends look for, and the IDs in the payload. -/
structure Capsule where
  attr : TaskAttr
  header : MetaHeader
  ids : List Id20
  nheader_eq : attr.nheader = 1
  ndim_eq : header.ndim = 1
  name_eq : cstr header.name.toList = taskIdName
  ids_lt : 20 * ids.length < 2 ^ 63

/-- The record of a task capsule. -/
def Capsule.record (c : Capsule) : Record taskFormat where
  attr := c.attr
  headers := [c.header]
  buf := some (idBytes c.ids)
  nheader_eq := by
    change 1 = c.attr.nheader.toNat
    rw [c.nheader_eq]
    rfl
  ndim_le := by
    intro h hh
    obtain rfl := List.mem_singleton.mp hh
    rw [c.ndim_eq]
    decide
  data_lt := by
    have := c.ids_lt
    simp only [Option.getD_some, length_idBytes]
    omega

/-- The capsule after one more ID was appended. -/
def Capsule.append (c : Capsule) (id : Id20) (h : 20 * (c.ids.length + 1) < 2 ^ 63) :
    Capsule where
  attr := c.attr
  header := c.header.counted (c.ids.length + 1)
  ids := c.ids ++ [id]
  nheader_eq := c.nheader_eq
  ndim_eq := c.ndim_eq
  name_eq := c.name_eq
  ids_lt := by simpa using h

/-- The file of a capsule. -/
theorem Capsule.bytes_eq (c : Capsule) :
    c.record.bytes = layout taskFormat c.attr (UInt64.ofNat (20 * c.ids.length))
      c.header.encode (idBytes c.ids) := by
  have hsize : c.record.datasize = UInt64.ofNat (20 * c.ids.length) :=
    congrArg UInt64.ofNat (length_idBytes c.ids)
  rw [Record.bytes_layout, hsize]
  change layout taskFormat c.attr _ ([c.header].flatMap MetaHeader.encode) _ = _
  rw [List.flatMap_singleton]
  rfl

theorem TaskAttr.pread_nheader (a : TaskAttr) : pread a.encode 148 4 = u32 a.nheader := by
  simp (disch := simp) only [TaskAttr.encode, List.flatten_cons, pread_append_right,
    pread_append_self, List.Vector.toList_length, length_u64, length_u32, Nat.reduceSub]

section OneAppend

variable (c : Capsule)

/-- The headers of a capsule start at offset 308. -/
theorem Capsule.base_eq : 24 + (taskFormat.encode c.attr).length = 308 :=
  congrArg (24 + ·) c.attr.length_encode

theorem Capsule.toNat_ndim : c.header.ndim.toNat = 1 := by
  rw [c.ndim_eq]
  rfl

theorem Capsule.length_header : c.header.encode.length = 2664 :=
  MetaHeader.length_encode_one c.ndim_eq

theorem Capsule.pread_nheader : pread c.record.bytes (24 + 148) 4 = u32 1 := by
  have hlen : (taskFormat.encode c.attr).length = 284 := c.attr.length_encode
  rw [c.bytes_eq, pread_layout_attr (by rw [hlen]; decide), ← c.nheader_eq]
  exact c.attr.pread_nheader

theorem Capsule.pread_name : pread c.record.bytes (308 + 32) 256 = c.header.name.toList := by
  rw [c.bytes_eq, pread_layout_hdrs c.base_eq (by rw [c.length_header]; decide),
    c.header.pread_name]

theorem Capsule.pread_ndim : pread c.record.bytes (308 + 4) 4 = u32 1 := by
  rw [c.bytes_eq, pread_layout_hdrs c.base_eq (by rw [c.length_header]; decide),
    c.header.pread_ndim, c.ndim_eq]

/-- The END magic stands where the append looks for it. -/
theorem Capsule.pread_end : pread c.record.bytes (2980 + 20 * c.ids.length) 8 =
    tpbRafBuildMagic .record .task .posEnd := by
  have hend := pread_layout_end (UInt64.ofNat (20 * c.ids.length)) c.header.encode
    (idBytes c.ids) c.base_eq
  rwa [c.length_header, length_idBytes, ← c.bytes_eq] at hend

/-- The position the append computes for the END magic. -/
theorem Capsule.seek_end : (308 + 32 + 256 + 256 + 2048 + ((1 : UInt32).toNat : ℤ) * 8 +
    ((1 : UInt32).toNat : ℤ) * 64 + 8 + longOfU64 (UInt64.ofNat (20 * c.ids.length)) : ℤ) =
    (2980 + 20 * c.ids.length : ℕ) := by
  have hone : (1 : UInt32).toNat = 1 := rfl
  rw [longOfU64_ofNat c.ids_lt, hone]
  omega

/-- Writing the ID over the END magic, and the magic again, extends the payload. -/
theorem Capsule.pwrite_id (id : Id20) :
    pwrite (pwrite c.record.bytes (2980 + 20 * c.ids.length) id.toList)
        (2980 + 20 * c.ids.length + 20) (tpbRafBuildMagic .record .task .posEnd) =
      layout taskFormat c.attr (UInt64.ofNat (20 * c.ids.length)) c.header.encode
        (idBytes (c.ids ++ [id])) := by
  have hins := pwrite_layout_insert (UInt64.ofNat (20 * c.ids.length)) c.header.encode
    c.base_eq (le_refl (idBytes c.ids).length) id.toList
  rw [List.drop_length, List.take_length, List.nil_append, List.append_nil, c.length_header,
    length_idBytes, id.toList_length, ← c.bytes_eq] at hins
  refine hins.trans ?_
  rw [idBytes, idBytes, List.flatMap_append, List.flatMap_singleton]

/-- The three counts at the offsets 16, 316 and 2900. -/
theorem Capsule.pwrite_counts (id : Id20) (h : 20 * (c.ids.length + 1) < 2 ^ 63) :
    pwrite (pwrite (pwrite (layout taskFormat c.attr (UInt64.ofNat (20 * c.ids.length))
        c.header.encode (idBytes (c.ids ++ [id])))
        16 (u64 (UInt64.ofNat (20 * (c.ids.length + 1)))))
        (308 + 8) (u64 (UInt64.ofNat (20 * (c.ids.length + 1)))))
        (308 + 2592) (u64 (UInt64.ofNat (c.ids.length + 1))) =
      (c.append id h).record.bytes := by
  set h₁ : MetaHeader := { c.header with dataSize := UInt64.ofNat (20 * (c.ids.length + 1)) }
    with hh₁
  have hndim : h₁.ndim.toNat = 1 := c.toNat_ndim
  have hlen : h₁.encode.length = 2664 := MetaHeader.length_encode_one c.ndim_eq
  have hids : (c.append id h).ids.length = c.ids.length + 1 := by simp [Capsule.append]
  rw [pwrite_layout_datasize,
    pwrite_layout_hdrs c.base_eq (by rw [c.length_header, length_u64]; decide),
    c.header.pwrite_dataSize, ← hh₁,
    pwrite_layout_hdrs c.base_eq (by rw [hlen, length_u64]; decide),
    h₁.pwrite_dim0 (by rw [hndim]; decide), Capsule.bytes_eq, hids]
  rfl

/-- **One append to a capsule**: it succeeds, adds its ID behind the others, and adapts the
three counts of the file. -/
theorem appendTaskCapsule_run (id : Id20) (h : 20 * (c.ids.length + 1) < 2 ^ 63) :
    appendTaskCapsule id ⟨c.record.bytes, 0⟩ =
      .ok () ⟨(c.append id h).record.bytes, 2908⟩ := by
  have hname : nameIs c.header.name.toList taskIdName = true := by
    refine nameIs_of_cstr c.name_eq ?_
    rw [c.header.name.toList_length]
    decide
  have hmeta : pread c.record.bytes 8 8 = u64 (taskFormat.metasize c.attr) := by
    rw [c.bytes_eq, pread_layout_metasize]
  have hsize : pread c.record.bytes 16 8 = u64 (UInt64.ofNat (20 * c.ids.length)) := by
    rw [c.bytes_eq, pread_layout_datasize]
  rw [← c.pwrite_counts id h, ← c.pwrite_id id, ← ofNat_div_twenty h, ← ofNat_add_twenty]
  refine bind_then (fread_run c.record.pread_magic rfl) ?_
  refine bind_then (check_run (tpbRafValidateMagic_self _ _ _) _) ?_
  refine bind_then (readU64_run hmeta) ?_
  refine bind_then (readU64_run hsize) ?_
  refine bind_then (fseek_run rfl) ?_
  refine bind_then (readU32_run c.pread_nheader) ?_
  refine bind_then (check_run rfl _) ?_
  refine bind_then (fseek_run rfl) ?_
  refine bind_then (fread_run c.pread_name (List.Vector.toList_length _)) ?_
  refine bind_then (check_run hname _) ?_
  refine bind_then (check_run (ofNat_mod_twenty c.ids_lt) _) ?_
  refine bind_then (fseek_run rfl) ?_
  refine bind_then (readU32_run c.pread_ndim) ?_
  refine bind_then (fseek_run c.seek_end) ?_
  refine bind_then (fread_run c.pread_end rfl) ?_
  refine bind_then (check_run (tpbRafValidateMagic_self _ _ _) _) ?_
  refine bind_then (fseek_run c.seek_end) ?_
  refine bind_then (fwrite_run _ _ _) ?_
  rw [id.toList_length]
  refine bind_then (fwrite_run _ _ _) ?_
  refine bind_then (fseek_run rfl) ?_
  refine bind_then (fwrite_run _ _ _) ?_
  refine bind_then (fseek_run rfl) ?_
  refine bind_then (fwrite_run _ _ _) ?_
  exact bind_then (fseek_run rfl) rfl

end OneAppend

/-! ### Any interleaving of appends to a capsule -/

/-- The capsule after a sequence of appends. Without appends the counts in the header stay
as they were created. -/
def Capsule.after (c : Capsule) (as : List Id20)
    (h : 20 * (c.ids.length + as.length) < 2 ^ 63) : Capsule where
  attr := c.attr
  header := if as = [] then c.header else c.header.counted (c.ids.length + as.length)
  ids := c.ids ++ as
  nheader_eq := c.nheader_eq
  ndim_eq := by
    split
    · exact c.ndim_eq
    · exact c.ndim_eq
  name_eq := by
    split
    · exact c.name_eq
    · exact c.name_eq
  ids_lt := by rwa [List.length_append]

/-- One more append. -/
theorem Capsule.after_append (c : Capsule) (as : List Id20) (a : Id20)
    (h : 20 * (c.ids.length + as.length) < 2 ^ 63)
    (h' : 20 * ((c.after as h).ids.length + 1) < 2 ^ 63)
    (h'' : 20 * (c.ids.length + (as ++ [a]).length) < 2 ^ 63) :
    (c.after as h).append a h' = c.after (as ++ [a]) h'' := by
  have hids : (c.after as h).ids.length + 1 = c.ids.length + (as ++ [a]).length := by
    simp [Capsule.after, Nat.add_assoc]
  have hheader : (c.after as h).header.counted (c.ids.length + (as ++ [a]).length) =
      c.header.counted (c.ids.length + (as ++ [a]).length) := by
    by_cases has : as = []
    · simp [Capsule.after, has]
    · simp [Capsule.after, has, MetaHeader.counted_counted]
  simp only [Capsule.append, hids, hheader]
  simp [Capsule.after]

/-- The file after the appends `as`, and nothing else, was changed. -/
def CapsuleOf (c : Capsule) (ws₁ : Workspace) (as : List Id20) (ws : Workspace) : Prop :=
  ∃ h, ws = ws₁.set (.record .task c.attr.taskRecordId) (c.after as h).record.bytes

/-- The next append succeeds and adds its ID. -/
theorem CapsuleOf.append {c : Capsule} {ws₁ ws : Workspace} {as : List Id20}
    (hP : CapsuleOf c ws₁ as ws) (a : Id20)
    (hlen : 20 * (c.ids.length + (as ++ [a]).length) < 2 ^ 63) :
    ∃ u ws', tpbRafRecordAppendTaskCapsule c.attr.taskRecordId a ws = .ok u ws' ∧
      CapsuleOf c ws₁ (as ++ [a]) ws' := by
  obtain ⟨h, rfl⟩ := hP
  have h' : 20 * ((c.after as h).ids.length + 1) < 2 ^ 63 := by
    simpa [Capsule.after, Nat.add_assoc] using hlen
  refine ⟨(), _, fopenUpdate_ok (ws₁.set_files_same _ _)
    (appendTaskCapsule_run (c.after as h) a h'), hlen, ?_⟩
  rw [Workspace.set_set, c.after_append as a h h' hlen]

/-- The reader's form of a header with counts. -/
theorem MetaHeader.norm_counted {h : MetaHeader} (hdim : h.ndim = 1) (n : ℕ) :
    (h.counted n).norm = h.norm.counted n := by
  obtain ⟨d, rest, hd⟩ : ∃ d rest, h.dimsizes.toList = d :: rest := by
    refine List.exists_cons_of_length_pos ?_
    rw [h.dimsizes.toList_length]
    decide
  have hone : h.ndim.toNat = 1 := by rw [hdim]; rfl
  have hsizes : fillVec 0 ndimMax ((h.dimsizes.set 0 (UInt64.ofNat n)).toList.take 1) =
      (fillVec 0 ndimMax (h.dimsizes.toList.take 1)).set 0 (UInt64.ofNat n) := by
    apply List.Vector.toList_injective
    rw [List.Vector.toList_set, toList_fillVec, List.Vector.toList_set, toList_fillVec, hd]
    rfl
  simp only [MetaHeader.counted, MetaHeader.setDim0, MetaHeader.norm, hone, hsizes]

/-- A header that counts one ID. -/
theorem MetaHeader.counted_one {h : MetaHeader} (hds : h.dataSize = 20) (hd0 : h.dim0 = 1) :
    h.counted 1 = h := by
  have hset : h.dimsizes.set 0 1 = h.dimsizes := by
    apply List.Vector.ext
    intro i
    rw [List.Vector.get_set_eq_if, ← hd0]
    by_cases hi : 0 = i
    · rw [if_pos hi, ← hi]
      rfl
    · rw [if_neg hi]
  simp [MetaHeader.counted, MetaHeader.setDim0, hset, ← hds]

/-- The capsule with its first ID. -/
def Capsule.created (attr : TaskAttr) (h : MetaHeader) (first : Id20)
    (hn : attr.nheader = 1) (hdim : h.ndim = 1) (hname : cstr h.name.toList = taskIdName) :
    Capsule where
  attr := attr
  header := h
  ids := [first]
  nheader_eq := hn
  ndim_eq := hdim
  name_eq := hname
  ids_lt := by
    rw [List.length_singleton]
    decide

/-- A successful creation announced one header, and wrote the capsule with its first ID. -/
theorem tpbRafRecordCreateTaskCapsule_eq_ok {attr : TaskAttr} {h : MetaHeader} {first : Id20}
    {ws ws' : Workspace} (hdim : h.ndim = 1) (hname : cstr h.name.toList = taskIdName)
    (hok : tpbRafRecordCreateTaskCapsule attr [h] first ws = .ok () ws') :
    ∃ hn : attr.nheader = 1, ws' = ws.set (.record .task attr.taskRecordId)
      (Capsule.created attr h first hn hdim hname).record.bytes := by
  rw [tpbRafRecordCreateTaskCapsule] at hok
  split at hok
  · cases hok
  · rename_i hchecks
    have hn : attr.nheader = 1 := by
      by_contra hne
      exact hchecks (.inl hne)
    rw [propagate_eq_ok] at hok
    injection hok with _ hws
    have hbuf : idBytes [first] = first.toList := by simp [idBytes]
    have hds : (Capsule.created attr h first hn hdim hname).record.datasize = 20 := by
      change UInt64.ofNat (idBytes [first]).length = 20
      rw [length_idBytes]
      rfl
    refine ⟨hn, ?_⟩
    rw [← hws, Record.bytes, hds, ← hbuf]
    rfl

/-- **Task capsules under concurrent appends.** A capsule is created with one
one-dimensional `TaskID` header, and processes append task IDs to it in any interleaving
of their atomic calls. Every append succeeds, no call of a process is lost, repeated or
overtaken, and the reader returns the capsule with exactly these changes: the payload is
the first ID followed by the appended IDs in the order of the appends, and the payload
size, the size in the header and its first dimension count them. The counts of a capsule
without appends are those it was created with. -/
theorem taskCapsule_interleaved {ι : Type} [DecidableEq ι] (attr : TaskAttr)
    (h : MetaHeader) (first : Id20) (ws₀ : Workspace) (s₀ s : Calls ι Id20 Workspace)
    (t : List (Done ι Id20 Err Unit)) (hdim : h.ndim = 1)
    (hname : cstr h.name.toList = taskIdName)
    (hcreate : tpbRafRecordCreateTaskCapsule attr [h] first ws₀ = .ok () s₀.shared)
    (hrun : Run (CallStep (tpbRafRecordAppendTaskCapsule attr.taskRecordId)) s₀ t s)
    (hsize : 20 * (1 + t.length) < 2 ^ 63)
    (hfirst : t = [] → h.dataSize = 20 ∧ h.dim0 = 1) :
    (∀ c ∈ t, c.result = .ok ()) ∧
      (∀ i, (t.filter (·.proc = i)).map Done.call ++ s.pending i = s₀.pending i) ∧
      tpbRafRecordReadTask attr.taskRecordId true s.shared =
        .ok { attr, headers := [h.norm.counted (1 + t.length)]
              datasize := UInt64.ofNat (20 * (1 + t.length))
              data := first.toList ++ idBytes (t.map Done.call) } s.shared := by
  obtain ⟨hn, hshared₀⟩ := tpbRafRecordCreateTaskCapsule_eq_ok hdim hname hcreate
  set c := Capsule.created attr h first hn hdim hname with hc
  have hinit : CapsuleOf c s₀.shared [] s₀.shared := by
    refine ⟨c.ids_lt, (Workspace.set_self ?_).symm⟩
    rw [hshared₀]
    exact Workspace.set_files_same _ _ _
  obtain ⟨hok, hbound, hshared⟩ := calls_invariant hrun hinit fun as a sh hpre hP => by
    refine hP.append a ?_
    have hle := hpre.length_le
    rw [List.length_map] at hle
    exact lt_of_le_of_lt (Nat.mul_le_mul_left 20 (Nat.add_le_add_left hle 1)) hsize
  refine ⟨fun d hd => ?_, calls_order hrun, ?_⟩
  · obtain ⟨⟨⟩, hb⟩ := hok d hd
    exact hb
  · have hread : tpbRafRecordReadTask attr.taskRecordId true s.shared =
        .ok (c.after (t.map Done.call) hbound).record.view s.shared := by
      refine recordRead_of_bytes ?_
      rw [hshared]
      exact Workspace.set_files_same _ _ _
    have hheader : (c.after (t.map Done.call) hbound).header.norm =
        h.norm.counted (1 + t.length) := by
      by_cases ht : t = []
      · obtain ⟨hds, hd0⟩ := hfirst ht
        subst ht
        calc h.norm = (h.counted 1).norm := by rw [MetaHeader.counted_one hds hd0]
          _ = h.norm.counted 1 := MetaHeader.norm_counted hdim 1
      · have hne : t.map Done.call ≠ [] := by simpa using ht
        simp only [Capsule.after, if_neg hne, List.length_map]
        exact MetaHeader.norm_counted hdim _
    have hlen : (c.after (t.map Done.call) hbound).record.datasize =
        UInt64.ofNat (20 * (1 + t.length)) := by
      refine congrArg UInt64.ofNat ?_
      change (idBytes (first :: t.map Done.call)).length = _
      rw [length_idBytes, List.length_cons, List.length_map, Nat.add_comm]
    rw [hread]
    congr 1
    simp only [Record.view, hlen]
    refine congrArg (fun hs => RecordView.mk attr hs _ _) ?_
    exact congrArg (fun x => [x]) hheader

/-- The header `tpb_k_create_capsule_task` creates. -/
def capsuleHeader : MetaHeader :=
  MetaHeader.setDim0 { linkHeader taskIdName with dataSize := 20 } 1

/-- The attributes of a capsule with one header. -/
def sampleAttr : TaskAttr := { TaskAttr.zero with taskRecordId := idOf 1, nheader := 1 }

/-- The capsule `idOf 1`, created with the task `idOf 2`; one process appends `idOf 3`, and
another one `idOf 4`. -/
def sampleCalls : Calls Bool Id20 Workspace :=
  ⟨Workspace.empty.set (.record .task (idOf 1))
      (recordBytes taskFormat sampleAttr [capsuleHeader] (some (idOf 2).toList) 20),
    fun i => [if i then idOf 4 else idOf 3]⟩

/-- The second process is the first to append. -/
theorem taskCapsule_two_appends : ∃ t s,
    Run (CallStep (tpbRafRecordAppendTaskCapsule (idOf 1))) sampleCalls t s ∧
      t.map Done.proc = [true, false] ∧
      tpbRafRecordReadTask (idOf 1) true s.shared =
        .ok { attr := sampleAttr, headers := [capsuleHeader.norm.counted 3], datasize := 60
              data := (idOf 2).toList ++ idBytes [idOf 4, idOf 3] } s.shared := by
  have hdim : capsuleHeader.ndim = 1 := rfl
  have hname : cstr capsuleHeader.name.toList = taskIdName := by decide +kernel
  set c := Capsule.created sampleAttr capsuleHeader (idOf 2) rfl hdim hname
  have hcreate : tpbRafRecordCreateTaskCapsule sampleAttr [capsuleHeader] (idOf 2)
      Workspace.empty = .ok () sampleCalls.shared := rfl
  obtain ⟨hn, hws⟩ := tpbRafRecordCreateTaskCapsule_eq_ok hdim hname hcreate
  have hbound : 20 * (c.ids.length + 1) < 2 ^ 63 := by
    change 20 * (1 + 1) < 2 ^ 63
    decide
  have hbound' : 20 * ((c.append (idOf 4) hbound).ids.length + 1) < 2 ^ 63 := by
    change 20 * (2 + 1) < 2 ^ 63
    decide
  have hcall : tpbRafRecordAppendTaskCapsule (idOf 1) (idOf 4) sampleCalls.shared = .ok () _ :=
    fopenUpdate_ok (by rw [hws]; exact Workspace.set_files_same _ _ _)
      (appendTaskCapsule_run c (idOf 4) hbound)
  have hcall' : tpbRafRecordAppendTaskCapsule (idOf 1) (idOf 3)
      (sampleCalls.shared.set (.record .task (idOf 1)) (c.append (idOf 4) hbound).record.bytes) =
        .ok () _ :=
    fopenUpdate_ok (Workspace.set_files_same _ _ _)
      (appendTaskCapsule_run (c.append (idOf 4) hbound) (idOf 3) hbound')
  have hrun : Run (CallStep (tpbRafRecordAppendTaskCapsule (idOf 1))) sampleCalls
      [⟨true, idOf 4, .ok ()⟩, ⟨false, idOf 3, .ok ()⟩] _ :=
    (Run.snoc Run.nil (CallStep.ok rfl hcall)).snoc (CallStep.ok rfl hcall')
  have hspec := taskCapsule_interleaved sampleAttr capsuleHeader (idOf 2) Workspace.empty
    sampleCalls _ _ hdim hname hcreate hrun (by decide) (fun h => absurd h (by simp))
  exact ⟨_, _, hrun, rfl, hspec.2.2⟩

end TPBench
