import TPBench.CFile.Segments
import TPBench.CFile.Text
import TPBench.Raf.RecordIO

/-!
# The Environment Snapshot

A task record ends with a snapshot of the environment it ran in. The snapshot is collected
key by key (`sfSnapshotAppendKey`) into three running buffers: the keys joined by colons, for
each key the number of segments of its value, and the segments of all values joined by
colons. A segment is what stands between two colons, and empty segments are dropped. The
three buffers become three headers at the end of the record
(`tpbRtenvAppendEnvSnapshotHeaders`).

`recordPairs_eq_ok` says what the buffers hold after a list of variables. The growth of the
buffers is left out; the number of keys is an `int`, and counting past it is undefined.
-/

open CFile

namespace TPBench

/-! ### The snapshot -/

/-- `tpb_rtenv_env_snapshot_t`: the joined keys, the number of segments of each key, and the
joined segments. The strings stand without their terminators. -/
structure EnvSnapshot where
  keyBlob : Bytes
  counts : List Int32
  valueBlob : Bytes

/-- `tpb_rtenv_clear_environ_snapshot`. -/
def EnvSnapshot.clear : EnvSnapshot := ⟨[], [], []⟩

/-- Programs over the snapshot. -/
abbrev SnapM := EStateM Err EnvSnapshot

/-- The loop of `_sf_count_colon_segments`. -/
def countSegments : Bytes → ℕ → Bool → ℕ
  | [], nseg, inSeg => if inSeg then nseg + 1 else nseg
  | b :: bs, nseg, inSeg =>
      if b = 58 then
        if inSeg then countSegments bs (nseg + 1) false else countSegments bs nseg inSeg
      else countSegments bs nseg true

/-- `_sf_count_colon_segments`. -/
def sfCountColonSegments (val : Bytes) : ℕ := if val = [] then 0 else countSegments val 0 false

/-- A string behind what a buffer holds, with a colon between the two. -/
def appendColon (blob seg : Bytes) : Bytes :=
  if blob.length > 0 then blob ++ [58] ++ seg else blob ++ seg

/-- `_sf_append_segment_to_blob` on the buffer of the values. -/
def sfAppendSegmentToBlob (seg : Bytes) : SnapM Unit := fun s =>
  if 58 ∈ seg then .error (.code .misc .cliFail) s
  else .ok () { s with valueBlob := appendColon s.valueBlob seg }

/-- A segment that the loop of `_sf_snapshot_append_key` has passed, when it is not empty. -/
def appendPassed (seg : Bytes) : SnapM Unit :=
  if seg.length > 0 then sfAppendSegmentToBlob seg else pure ()

/-- The loop of `_sf_snapshot_append_key` over the value: `seg` is what was passed since the
last colon. -/
def appendSegments : Bytes → Bytes → SnapM Unit
  | seg, [] => appendPassed seg
  | seg, b :: bs =>
      if b = 58 then do
        appendPassed seg
        appendSegments [] bs
      else appendSegments (seg ++ [b]) bs

/-- `_sf_snapshot_append_key`. -/
def sfSnapshotAppendKey (key val : Bytes) : SnapM Unit := fun s =>
  if 58 ∈ key then .error (.code .misc .cliFail) s
  else
    let s := { s with keyBlob := appendColon s.keyBlob key }
    if s.counts.length + 1 < 2 ^ 31 then
      let s := { s with counts := s.counts ++ [Int32.ofNat (sfCountColonSegments val)] }
      if val = [] then .ok () s else appendSegments [] val s
    else .error .undefined s

/-! ### The headers -/

/-- `TPB_STRING_T`. -/
def tpbStringT : UInt32 := 0x1000

/-- `TPB_INT32_T`. -/
def tpbInt32T : UInt32 := 0x0439

/-- `TPB_TAG_ENVVAR`. -/
def tagEnvvar : Bytes := ascii "TPBENVVAR".toList

/-- `"environment_variable_"`, which the three names share. -/
def envHdrStem : Bytes :=
  ascii "environment_variable_".toList

/-- `TPB_TASK_HDR_ENV_KEY`. -/
def hdrEnvKey : Bytes := envHdrStem ++ ascii ['k', 'e', 'y']

/-- `TPB_TASK_HDR_ENV_COUNT`. -/
def hdrEnvCount : Bytes := envHdrStem ++ ascii "count".toList

/-- `TPB_TASK_HDR_ENV_VALUE`. -/
def hdrEnvValue : Bytes := envHdrStem ++ ascii "value".toList

/-- One of the three snapshot headers. -/
def envHeader (name : Bytes) (typeBits : UInt32) (dim0 dataSize : UInt64) : MetaHeader :=
  MetaHeader.setDim0
    { MetaHeader.zero with
      blockSize := hdrFixedSize
      ndim := 1
      dataSize
      typeBits
      name := snprintfS 256 name
      tag := snprintfS 256 tagEnvvar }
    dim0

/-- The bytes of the keys, with their terminator. -/
def EnvSnapshot.keyBytes (s : EnvSnapshot) : Bytes := cstr s.keyBlob ++ [0]

/-- The bytes of the counts. Without any key there is one zero in their place. -/
def EnvSnapshot.countBytes (s : EnvSnapshot) : Bytes :=
  if s.counts.length > 0 then s.counts.flatMap i32 else i32 0

/-- The bytes of the values, with their terminator. -/
def EnvSnapshot.valueBytes (s : EnvSnapshot) : Bytes := cstr s.valueBlob ++ [0]

/-- The three headers of a snapshot. -/
def EnvSnapshot.headers (s : EnvSnapshot) : List MetaHeader :=
  let kbLen := UInt64.ofNat s.keyBytes.length
  let vbLen := UInt64.ofNat s.valueBytes.length
  let cbLen := UInt64.ofNat (4 * max s.counts.length 1)
  [envHeader hdrEnvKey tpbStringT kbLen kbLen,
    envHeader hdrEnvCount tpbInt32T (UInt64.ofNat s.counts.length) cbLen,
    envHeader hdrEnvValue tpbStringT vbLen vbLen]

/-- `tpb_rtenv_append_env_snapshot_headers`: the headers and the payload of a record with
those of the snapshot behind them. -/
def tpbRtenvAppendEnvSnapshotHeaders (s : EnvSnapshot) (headers : List MetaHeader)
    (data : Bytes) : List MetaHeader × Bytes :=
  (headers ++ s.headers, data ++ s.keyBytes ++ s.countBytes ++ s.valueBytes)

/-! ### What is recorded of a list of variables -/

/-- A variable with a key that is not empty and has no colon. -/
structure SnapPair where
  key : Bytes
  val : Bytes
  key_ne_nil : key ≠ []
  colon_not_mem_key : 58 ∉ key

/-- Record variables one after the other. -/
def recordPairs : List SnapPair → SnapM Unit
  | [] => pure ()
  | e :: es => do
      sfSnapshotAppendKey e.key e.val
      recordPairs es

/-- The segments of the value. -/
def SnapPair.segs (e : SnapPair) : List Bytes := segments 58 e.val

/-- The snapshot of a list of variables. -/
def pairsSnapshot (kvs : List SnapPair) : EnvSnapshot where
  keyBlob := joinSep 58 (kvs.map SnapPair.key)
  counts := kvs.map fun e => Int32.ofNat e.segs.length
  valueBlob := joinSep 58 (kvs.flatMap SnapPair.segs)

theorem segs_pairKeys (kvs : List SnapPair) : Segs 58 (kvs.map SnapPair.key) := by
  intro k hk
  obtain ⟨e, -, rfl⟩ := List.mem_map.mp hk
  exact ⟨e.key_ne_nil, e.colon_not_mem_key⟩

theorem segs_pairValues (kvs : List SnapPair) : Segs 58 (kvs.flatMap SnapPair.segs) := by
  intro seg hseg
  obtain ⟨e, -, hmem⟩ := List.mem_flatMap.mp hseg
  exact segs_segments e.val seg hmem

/-- The loop counts the segments of what it has passed since the last colon and of what is
to come. -/
theorem countSegments_eq (bs : Bytes) {seg : Bytes} (hseg : 58 ∉ seg) (n : ℕ) :
    countSegments bs n (seg ≠ []) = n + (segments 58 (seg ++ bs)).length := by
  induction bs generalizing seg n with
  | nil =>
      rw [countSegments, List.append_nil, segments_of_not_mem hseg]
      by_cases hnil : seg = []
      · simp [hnil]
      · simp [hnil]
  | cons b bs ih =>
      rw [countSegments]
      by_cases hb : b = 58
      · subst hb
        rw [if_pos rfl, segments_append hseg]
        have hrest := @ih [] (by simp)
        by_cases hnil : seg = []
        · simpa [hnil] using hrest n
        · rw [if_pos (by simpa using hnil), if_neg hnil, List.length_append]
          have hstep := hrest (n + 1)
          simp only [ne_eq, not_true_eq_false, decide_false, List.nil_append] at hstep
          rw [hstep, List.length_singleton, Nat.add_assoc]
      · have hseg' : 58 ∉ seg ++ [b] := by
          simp [hseg, Ne.symm hb]
        have hrest := @ih (seg ++ [b]) hseg' n
        rw [if_neg hb]
        simpa using hrest

theorem sfCountColonSegments_eq (val : Bytes) :
    sfCountColonSegments val = (segments 58 val).length := by
  have hloop := @countSegments_eq val [] (by simp) 0
  rw [sfCountColonSegments]
  by_cases hnil : val = []
  · simp [hnil, segments]
  · rw [if_neg hnil]
    simpa using hloop

theorem appendPassed_run {seg : Bytes} (hseg : 58 ∉ seg) (s : EnvSnapshot) :
    appendPassed seg s = .ok () { s with
      valueBlob := (if seg = [] then [] else [seg]).foldl appendColon s.valueBlob } := by
  by_cases hnil : seg = []
  · subst hnil
    rfl
  · rw [appendPassed, if_pos (List.length_pos_iff.mpr hnil), if_neg hnil,
      sfAppendSegmentToBlob, if_neg hseg]
    rfl

/-- The loop appends the segments of what it has passed since the last colon and of what is
to come. -/
theorem appendSegments_run (bs : Bytes) {seg : Bytes} (hseg : 58 ∉ seg) (s : EnvSnapshot) :
    appendSegments seg bs s =
      .ok () { s with valueBlob := (segments 58 (seg ++ bs)).foldl appendColon s.valueBlob } := by
  induction bs generalizing seg s with
  | nil =>
      rw [appendSegments, List.append_nil, segments_of_not_mem hseg]
      exact appendPassed_run hseg s
  | cons b bs ih =>
      rw [appendSegments]
      by_cases hb : b = 58
      · subst hb
        rw [if_pos rfl, segments_append hseg, List.foldl_append]
        refine bind_then (appendPassed_run hseg s) ?_
        exact ih List.not_mem_nil _
      · have hseg' : 58 ∉ seg ++ [b] := by
          simp [hseg, Ne.symm hb]
        rw [if_neg hb, ih hseg']
        simp

/-- The segments of a value, which may be empty. -/
theorem appendValue_run (val : Bytes) (s : EnvSnapshot) :
    (if val = [] then .ok () s else appendSegments [] val s) =
      .ok () { s with valueBlob := (segments 58 val).foldl appendColon s.valueBlob } := by
  by_cases hnil : val = []
  · rw [if_pos hnil, hnil]
    rfl
  · rw [if_neg hnil, appendSegments_run val List.not_mem_nil, List.nil_append]

/-- Segments behind joined segments. -/
theorem foldl_appendColon {es es' : List Bytes} (h : Segs 58 (es ++ es')) :
    es'.foldl appendColon (joinSep 58 es) = joinSep 58 (es ++ es') := by
  induction es' generalizing es with
  | nil => simp
  | cons e es' ih =>
      have hes : Segs 58 es := fun x hx => h x (by simp [hx])
      have hstep : appendColon (joinSep 58 es) e = joinSep 58 (es ++ [e]) := by
        rw [joinSep_concat hes, appendColon]
      have hsplit : es ++ e :: es' = (es ++ [e]) ++ es' := by simp
      rw [hsplit] at h ⊢
      rw [List.foldl_cons, hstep, ih h]

/-- One more variable. -/
theorem sfSnapshotAppendKey_run (kvs : List SnapPair) (e : SnapPair) :
    sfSnapshotAppendKey e.key e.val (pairsSnapshot kvs) =
      if kvs.length + 1 < 2 ^ 31 then .ok () (pairsSnapshot (kvs ++ [e]))
      else .error .undefined { pairsSnapshot kvs with
        keyBlob := appendColon (pairsSnapshot kvs).keyBlob e.key } := by
  have hkey : appendColon (pairsSnapshot kvs).keyBlob e.key =
      (pairsSnapshot (kvs ++ [e])).keyBlob := by
    rw [pairsSnapshot, pairsSnapshot, List.map_append, List.map_singleton,
      joinSep_concat (segs_pairKeys kvs)]
    rfl
  have hcounts : (pairsSnapshot kvs).counts ++ [Int32.ofNat (sfCountColonSegments e.val)] =
      (pairsSnapshot (kvs ++ [e])).counts := by
    rw [sfCountColonSegments_eq]
    simp [pairsSnapshot, SnapPair.segs]
  have hvalue : (segments 58 e.val).foldl appendColon (pairsSnapshot kvs).valueBlob =
      (pairsSnapshot (kvs ++ [e])).valueBlob := by
    have hsegs := segs_pairValues (kvs ++ [e])
    rw [List.flatMap_append, List.flatMap_singleton] at hsegs
    rw [pairsSnapshot, pairsSnapshot, List.flatMap_append, List.flatMap_singleton,
      ← foldl_appendColon hsegs]
    rfl
  have hlen : (pairsSnapshot kvs).counts.length = kvs.length := by simp [pairsSnapshot]
  rw [sfSnapshotAppendKey, if_neg e.colon_not_mem_key]
  by_cases hlt : kvs.length + 1 < 2 ^ 31
  · simp only [hlen, if_pos hlt, hkey, hcounts]
    rw [appendValue_run, hvalue]
  · simp only [hlen, if_neg hlt]

theorem recordPairs_run {done kvs : List SnapPair} {s : EnvSnapshot}
    (hdone : done.length < 2 ^ 31) :
    recordPairs kvs (pairsSnapshot done) = .ok () s ↔
      (done ++ kvs).length < 2 ^ 31 ∧ s = pairsSnapshot (done ++ kvs) := by
  induction kvs generalizing done with
  | nil =>
      rw [List.append_nil]
      constructor
      · intro h
        cases h
        exact ⟨hdone, rfl⟩
      · rintro ⟨-, rfl⟩
        rfl
  | cons e kvs ih =>
      have hsplit : done ++ e :: kvs = (done ++ [e]) ++ kvs := by simp
      have hstep := sfSnapshotAppendKey_run done e
      by_cases hlt : done.length + 1 < 2 ^ 31
      · rw [if_pos hlt] at hstep
        have hlen : (done ++ [e]).length < 2 ^ 31 := by simpa using hlt
        rw [hsplit, ← ih hlen]
        constructor
        · intro h
          obtain ⟨_, s₁, h₁, hrest⟩ := bind_eq_ok.mp h
          rw [hstep] at h₁
          cases h₁
          exact hrest
        · intro h
          exact bind_then hstep h
      · rw [if_neg hlt] at hstep
        constructor
        · intro h
          obtain ⟨_, s₁, h₁, -⟩ := bind_eq_ok.mp h
          rw [hstep] at h₁
          cases h₁
        · rintro ⟨hlen, -⟩
          rw [List.length_append, List.length_cons] at hlen
          omega

/-- Recording succeeds exactly when the number of variables is an `int`, and then the snapshot
is the one of the list. -/
theorem recordPairs_eq_ok {kvs : List SnapPair} {s : EnvSnapshot} :
    recordPairs kvs EnvSnapshot.clear = .ok () s ↔
      kvs.length < 2 ^ 31 ∧ s = pairsSnapshot kvs :=
  @recordPairs_run [] kvs s (by decide)

/-! ### Variables as they are captured -/

/-- A variable that `_sf_snapshot_append_key` is given. -/
structure StringPair extends SnapPair where
  nul_not_mem_key : 0 ∉ key
  nul_not_mem_val : 0 ∉ val

/-- A variable as it is captured: a key in a buffer of 256 bytes, a value in a buffer of 65536
bytes. -/
structure CapturedVar extends StringPair where
  key_lt : key.length < 256
  val_lt : val.length < 65536

/-- A captured variable, whatever its size. -/
def CapturedVar.pair (e : CapturedVar) : SnapPair := e.toSnapPair

/-- Record variables one after the other. -/
def recordVars (vars : List CapturedVar) : SnapM Unit := recordPairs (vars.map CapturedVar.pair)

/-- The value without its empty segments. -/
def CapturedVar.joined (e : CapturedVar) : Bytes := joinSep 58 e.segs

/-- The snapshot of a list of variables. -/
def snapshotOf (vars : List CapturedVar) : EnvSnapshot := pairsSnapshot (vars.map CapturedVar.pair)

theorem snapshotOf_eq (vars : List CapturedVar) :
    snapshotOf vars = ⟨joinSep 58 (vars.map fun e => e.key),
      vars.map fun e => Int32.ofNat e.segs.length,
      joinSep 58 (vars.flatMap fun e => e.segs)⟩ := by
  rw [snapshotOf, pairsSnapshot, List.map_map, List.map_map, List.flatMap_map]
  rfl

theorem segs_keys (vars : List CapturedVar) : Segs 58 (vars.map fun e => e.key) := by
  have hkeys := segs_pairKeys (vars.map CapturedVar.pair)
  rwa [List.map_map] at hkeys

theorem segs_values (vars : List CapturedVar) : Segs 58 (vars.flatMap fun e => e.segs) := by
  have hvalues := segs_pairValues (vars.map CapturedVar.pair)
  rwa [List.flatMap_map] at hvalues

/-- What is recorded of captured variables. -/
theorem recordVars_eq_ok {vars : List CapturedVar} {s : EnvSnapshot} :
    recordVars vars EnvSnapshot.clear = .ok () s ↔
      vars.length < 2 ^ 31 ∧ s = snapshotOf vars := by
  rw [recordVars, recordPairs_eq_ok, List.length_map, snapshotOf]

end TPBench
