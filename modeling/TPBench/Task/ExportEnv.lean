import TPBench.Task.Columns

/-!
# The Snapshot in the Data File

A snapshot that was recorded into a task record comes back as rows of the data file. The
proof follows the two programs: `TPBench.Rtenv.Snapshot` gives the three buffers, the record
is written and read back, and the reader of `TPBench.Task.ExportData` finds the triple at the
end of the headers, accepts it, and takes it apart again, row by row.

The result is exact. The reader has a buffer of 4096 bytes for a value, so the rows come out
exactly when every value, joined again from its segments, is shorter than that
(`envRows_exported`), and a value that was captured in a buffer of 65536 bytes need not be.
-/

open CFile

namespace TPBench

/-! ### Reading the buffers back -/

/-- The counted number of keys or segments. -/
theorem sfEnvBlobNkeys_joinSep {es : List Bytes} (h : Segs 58 es) :
    sfEnvBlobNkeys (joinSep 58 es) = es.length := by
  rw [sfEnvBlobNkeys]
  by_cases hnil : es = []
  · simp [hnil]
  · rw [if_neg (by rwa [joinSep_eq_nil h]), count_joinSep h hnil]

/-- The key at an index, where it fits the buffer. -/
theorem sfEnvKeyToBuf_joinSep {buflen : ℕ} {es : List Bytes} (h : Segs 58 es) {i : ℕ}
    {e : Bytes} (he : es[i]? = some e) (hlen : e.length + 1 ≤ buflen) :
    sfEnvKeyToBuf buflen (joinSep 58 es) i = .ok e := by
  induction es generalizing i with
  | nil => simp at he
  | cons e' es ih =>
      obtain ⟨-, hmem, hes⟩ := h.cons
      cases i with
      | zero =>
          obtain rfl : e' = e := by simpa using he
          rw [sfEnvKeyToBuf, takeWhile_joinSep hmem]
          exact if_neg (by omega)
      | succ i =>
          have he' : es[i]? = some e := by simpa using he
          have hnil : es ≠ [] := by
            rintro rfl
            simp at he'
          rw [sfEnvKeyToBuf, dropWhile_joinSep hmem, if_neg hnil]
          exact ih hes he'

/-- Entries are skipped. -/
theorem skipSegs_joinSep {es : List Bytes} (h : Segs 58 es) (n : ℕ) :
    skipSegs n (joinSep 58 es) = joinSep 58 (es.drop n) := by
  induction n generalizing es with
  | zero => rfl
  | succ n ih =>
      cases es with
      | nil => rfl
      | cons e es =>
          obtain ⟨-, hmem, hes⟩ := h.cons
          obtain ⟨b, bs, hbs⟩ := List.exists_cons_of_ne_nil
            (mt (joinSep_eq_nil h).mp (List.cons_ne_nil e es))
          have hstep : skipSegs (n + 1) (b :: bs) =
              skipSegs n (((b :: bs).dropWhile (· ≠ 58)).drop 1) := rfl
          rw [hbs, hstep, ← hbs, drop_dropWhile_joinSep hmem, ih hes, List.drop_succ_cons]

/-- The segments `es` are collected behind the segments `pre`. Collecting fails exactly when
the buffer is too small for all of them. -/
theorem takeSegs_joinSep {outlen : ℕ} {pre es rest : List Bytes}
    (h : Segs 58 (pre ++ es ++ rest)) (hpre : (joinSep 58 pre).length < outlen) :
    takeSegs outlen es.length (joinSep 58 (es ++ rest)) (joinSep 58 pre) =
      if (joinSep 58 (pre ++ es)).length < outlen then .ok (joinSep 58 (pre ++ es))
      else .error (.code .cliMisc .cliFail) := by
  induction es generalizing pre with
  | nil => rw [List.append_nil, if_pos hpre, List.length_nil, takeSegs]
  | cons e es ih =>
      have hsegs : Segs 58 (e :: (es ++ rest)) := fun x hx => h x (by simp_all)
      have hpresegs : Segs 58 pre := fun x hx => h x (by simp [hx])
      obtain ⟨hne, hmem, -⟩ := hsegs.cons
      -- `out` is the buffer with the colon that separates the next segment
      set out : Bytes := if (joinSep 58 pre).length > 0 then joinSep 58 pre ++ [58]
        else joinSep 58 pre with hout
      have hconcat : joinSep 58 (pre ++ [e]) = out ++ e := by
        rw [joinSep_concat hpresegs e, hout]
        split
        · rfl
        · rfl
      have hle : out.length + e.length ≤ (joinSep 58 (pre ++ e :: es)).length := by
        have hlen := length_joinSep_le (c := 58) (pre ++ [e]) es
        rwa [List.append_assoc, List.singleton_append, hconcat, List.length_append] at hlen
      have hfront : joinSep 58 (e :: es ++ rest) ≠ [] :=
        mt (joinSep_eq_nil hsegs).mp (List.cons_ne_nil _ _)
      have hpos : 0 < e.length := List.length_pos_iff.mpr hne
      rw [List.length_cons, takeSegs, if_neg hfront, List.cons_append, takeWhile_joinSep hmem,
        drop_dropWhile_joinSep hmem]
      simp only [← hout]
      by_cases hcolon : (joinSep 58 pre).length > 0 ∧ (joinSep 58 pre).length + 1 ≥ outlen
      · have hlen : out.length = (joinSep 58 pre).length + 1 := by
          rw [hout, if_pos hcolon.1, List.length_append, List.length_singleton]
        rw [if_pos hcolon, if_neg (by omega)]
      · rw [if_neg hcolon]
        by_cases hroom : e.length ≥ outlen - out.length
        · rw [if_pos hroom, if_neg (by omega)]
        · have hpre' : (joinSep 58 (pre ++ [e])).length < outlen := by
            rw [hconcat, List.length_append]
            omega
          have hstep := @ih (pre ++ [e]) (by simpa using h) hpre'
          rw [List.append_assoc, List.singleton_append] at hstep
          rw [if_neg hroom, ← hconcat, hstep]

/-! ### The counts -/

/-- An array of `int32_t` is read back element by element. -/
theorem map_range_getI32 (a b : Bytes) (xs : List Int32) :
    ((List.range xs.length).map fun i =>
      getI32 (pread (a ++ (xs.flatMap i32 ++ b)) (a.length + 4 * i) 4)) = xs := by
  induction xs generalizing a with
  | nil => rfl
  | cons x xs ih =>
      have hhead : getI32 (pread (a ++ ((x :: xs).flatMap i32 ++ b)) (a.length + 4 * 0) 4) = x := by
        rw [List.flatMap_cons, List.append_assoc, pread_append_right (by omega), Nat.mul_zero,
          Nat.add_zero, Nat.sub_self, pread_append_self (length_i32 x), getI32_i32]
      have htail := ih (a ++ i32 x)
      rw [List.length_cons, List.range_succ_eq_map, List.map_cons, List.map_map, hhead]
      refine congrArg (x :: ·) (Eq.trans ?_ htail)
      refine List.map_congr_left fun i _ => ?_
      rw [List.flatMap_cons, List.length_append, length_i32]
      simp only [Function.comp_apply, Nat.succ_eq_add_one, List.append_assoc]
      congr 2
      omega

/-- The number of segments of a value is not negative as an `int32_t`. -/
theorem CapturedVar.toInt_count (e : CapturedVar) :
    (Int32.ofNat e.segs.length).toInt = e.segs.length := by
  have hsum := sum_length_segments_le (c := 58) e.val
  have hlen : e.segs.length ≤ (e.segs.map fun s => s.length + 1).sum := by
    have := List.length_le_sum_of_one_le (e.segs.map fun s => s.length + 1) (by simp)
    rwa [List.length_map] at this
  have hle : e.segs.length ≤ e.val.length + 1 := hlen.trans hsum
  have hval := e.val_lt
  rw [Int32.toInt_ofNat_of_lt (by omega)]

/-- The sum of the counts of some variables. -/
theorem countsSum_snapshot (vars : List CapturedVar) :
    countsSum (snapshotOf vars).counts = .ok (vars.flatMap fun e => e.segs).length := by
  have hany : (snapshotOf vars).counts.any (· < 0) = false := by
    rw [snapshotOf_eq, List.any_eq_false]
    intro c hc
    obtain ⟨e, -, rfl⟩ := List.mem_map.mp hc
    rw [decide_eq_true_eq, Int32.lt_iff_toInt_lt, e.toInt_count]
    simp
  have hsum : ((snapshotOf vars).counts.map fun c => c.toInt.toNat) =
      vars.map fun e => e.segs.length := by
    rw [snapshotOf_eq, List.map_map]
    refine List.map_congr_left fun e _ => ?_
    rw [Function.comp_apply, e.toInt_count, Int.toNat_natCast]
  rw [countsSum, hany, hsum, List.length_flatMap]
  rfl

/-- A count as a size. -/
theorem CapturedVar.toNat_count (e : CapturedVar) : (Int32.ofNat e.segs.length).toUInt32.toNat +
    (if Int32.ofNat e.segs.length < 0 then 2 ^ 64 - 2 ^ 32 else 0) = e.segs.length := by
  have hcount := e.toInt_count
  have hneg : ¬ Int32.ofNat e.segs.length < 0 := by
    rw [Int32.lt_iff_toInt_lt, hcount]
    simp
  rw [if_neg hneg, Nat.add_zero, Int32.toNat_toUInt32_of_le (Int32.not_lt.mp hneg),
    ← Int32.toNat_toInt, hcount, Int.toNat_natCast]

/-- The value of a variable. -/
theorem sfEnvValueToBuf_snapshot {vars : List CapturedVar} {i : ℕ} {e : CapturedVar}
    (he : vars[i]? = some e) {outlen : ℕ} (hpos : 0 < outlen) :
    sfEnvValueToBuf outlen (snapshotOf vars).counts (snapshotOf vars).valueBlob i =
      if e.joined.length < outlen then .ok e.joined else .error (.code .cliMisc .cliFail) := by
  have hcount : (snapshotOf vars).counts[i]? = some (Int32.ofNat e.segs.length) := by
    simp [snapshotOf_eq, he]
  have htake : (snapshotOf vars).counts.take i = (snapshotOf (vars.take i)).counts := by
    simp [snapshotOf_eq]
  have hsplit : vars = vars.take i ++ e :: vars.drop (i + 1) := by
    obtain ⟨hi, rfl⟩ := List.getElem?_eq_some_iff.mp he
    rw [List.getElem_cons_drop, List.take_append_drop]
  have hsegs : (vars.flatMap fun e => e.segs) =
      ((vars.take i).flatMap fun e => e.segs) ++
      (e.segs ++ ((vars.drop (i + 1)).flatMap fun e => e.segs)) := by
    conv_lhs => rw [hsplit]
    simp
  rw [sfEnvValueToBuf, hcount]
  simp only [htake, countsSum_snapshot, e.toNat_count]
  change (if e.segs.length = 0 then Except.ok [] else _) = _
  by_cases hzero : e.segs.length = 0
  · have hjoined : e.joined = [] := by
      rw [CapturedVar.joined, List.length_eq_zero_iff.mp hzero]
      rfl
    rw [if_pos hzero, hjoined, List.length_nil, if_pos hpos]
  · have hvalues := segs_values vars
    rw [if_neg hzero, snapshotOf_eq, skipSegs_joinSep hvalues, hsegs, List.drop_left]
    rw [hsegs] at hvalues
    have htail : Segs 58 ([] ++ e.segs ++ ((vars.drop (i + 1)).flatMap fun e => e.segs)) :=
      fun x hx => hvalues x (List.mem_append_right _ hx)
    exact takeSegs_joinSep htail hpos

/-! ### Sizes -/

theorem sum_le_mul {vars : List CapturedVar} {f : CapturedVar → ℕ} {k : ℕ} (h : ∀ e, f e ≤ k) :
    (vars.map f).sum ≤ k * vars.length := by
  induction vars with
  | nil => simp
  | cons e vars ih =>
      have he := h e
      rw [List.map_cons, List.sum_cons, List.length_cons, Nat.mul_add]
      omega

/-- The size of the names. -/
theorem length_keyBlob_le (vars : List CapturedVar) :
    (snapshotOf vars).keyBlob.length ≤ 256 * vars.length := by
  rw [snapshotOf_eq]
  refine (length_joinSep_le_sum _).trans ?_
  rw [List.map_map]
  exact sum_le_mul fun e => e.key_lt

/-- The size of the values. -/
theorem length_valueBlob_le (vars : List CapturedVar) :
    (snapshotOf vars).valueBlob.length ≤ 65536 * vars.length := by
  rw [snapshotOf_eq]
  refine (length_joinSep_le_sum _).trans ?_
  rw [List.map_flatMap, List.flatMap, List.sum_flatten, List.map_map]
  refine sum_le_mul fun e => ?_
  have hsum := sum_length_segments_le (c := 58) e.val
  have hval := e.val_lt
  exact hsum.trans (by omega)

/-- There is no NUL in what is joined. -/
theorem nul_not_mem_joinSep {es : List Bytes} (h : ∀ e ∈ es, 0 ∉ e) : 0 ∉ joinSep 58 es := by
  intro hmem
  rcases mem_joinSep hmem with h0 | ⟨e, he, h0⟩
  · cases h0
  · exact h e he h0

/-- Nor in the entries of a value. -/
theorem CapturedVar.nul_not_mem_segs (e : CapturedVar) : ∀ s ∈ e.segs, 0 ∉ s := by
  intro s hs h0
  exact e.nul_not_mem_val (mem_of_mem_segments hs h0)

/-- The names are one text. -/
theorem cstr_keyBlob (vars : List CapturedVar) :
    cstr (snapshotOf vars).keyBlob = (snapshotOf vars).keyBlob := by
  rw [snapshotOf_eq]
  refine cstr_of_not_mem (nul_not_mem_joinSep ?_)
  intro k hk
  obtain ⟨e, -, rfl⟩ := List.mem_map.mp hk
  exact e.nul_not_mem_key

/-- The values are one text. -/
theorem cstr_valueBlob (vars : List CapturedVar) :
    cstr (snapshotOf vars).valueBlob = (snapshotOf vars).valueBlob := by
  rw [snapshotOf_eq]
  refine cstr_of_not_mem (nul_not_mem_joinSep ?_)
  intro s hs
  obtain ⟨e, -, hmem⟩ := List.mem_flatMap.mp hs
  exact e.nul_not_mem_segs s hmem

/-- No variable takes the room of one count. -/
theorem length_countBytes (vars : List CapturedVar) :
    (snapshotOf vars).countBytes.length = 4 * max vars.length 1 := by
  have hlen : (snapshotOf vars).counts.length = vars.length := by simp [snapshotOf_eq]
  rw [EnvSnapshot.countBytes, hlen]
  split
  · rw [List.length_flatMap]
    simp [hlen]
    omega
  · rw [length_i32]
    omega

/-! ### The record -/

/-- What a task record holds in front of the snapshot, as `tpb_record_write_task` builds it:
a header of one dimension for each argument and each output, none of them with a name of the
snapshot, and the payload of all of them. A link to task IDs is an array of bytes. -/
structure TaskColumns where
  attr : TaskAttr
  headers : List MetaHeader
  data : Bytes
  ndim_eq : ∀ h ∈ headers, h.ndim = 1
  name_ne : ∀ h ∈ headers, cstr h.name.toList ≠ hdrEnvKey ∧ cstr h.name.toList ≠ hdrEnvCount ∧
    cstr h.name.toList ≠ hdrEnvValue
  link_ne : ∀ h ∈ headers, sfIsTaskidLink h = true → sfHdrDtype h ≠ tpbStringT
  size_eq : (headers.map fun h => h.dataSize.toNat).sum = data.length
  data_lt : data.length < 2 ^ 63
  headers_lt : headers.length + 3 < 2 ^ 32

namespace TaskColumns

variable (t : TaskColumns) (vars : List CapturedVar)

/-- The attributes with the number of headers. -/
def attrWith : TaskAttr := { t.attr with nheader := UInt32.ofNat (t.headers.length + 3) }

/-- The headers with those of the snapshot. -/
def headersWith : List MetaHeader :=
  (tpbRtenvAppendEnvSnapshotHeaders (snapshotOf vars) t.headers t.data).1

/-- The payload with that of the snapshot. -/
def dataWith : Bytes := (tpbRtenvAppendEnvSnapshotHeaders (snapshotOf vars) t.headers t.data).2

/-- The payload of the snapshot. -/
def tail : Bytes :=
  (snapshotOf vars).keyBytes ++ (snapshotOf vars).countBytes ++ (snapshotOf vars).valueBytes

/-- The snapshot stands behind the other data. -/
theorem dataWith_eq : t.dataWith vars = t.data ++ tail vars := by
  simp [dataWith, tpbRtenvAppendEnvSnapshotHeaders, tail]

/-- Names, counts and values. -/
theorem tail_eq : tail vars = (snapshotOf vars).keyBlob ++ 0 ::
    ((snapshotOf vars).countBytes ++ ((snapshotOf vars).valueBlob ++ [0])) := by
  simp [tail, EnvSnapshot.keyBytes, EnvSnapshot.valueBytes, cstr_keyBlob, cstr_valueBlob]

theorem length_keyBytes :
    (snapshotOf vars).keyBytes.length = (snapshotOf vars).keyBlob.length + 1 := by
  rw [EnvSnapshot.keyBytes, cstr_keyBlob, List.length_append, List.length_singleton]

theorem length_valueBytes :
    (snapshotOf vars).valueBytes.length = (snapshotOf vars).valueBlob.length + 1 := by
  rw [EnvSnapshot.valueBytes, cstr_valueBlob, List.length_append, List.length_singleton]

/-- The payload of the snapshot has at least a terminator, a count and a terminator. -/
theorem six_le_length_tail : 6 ≤ (tail vars).length := by
  have hcount := length_countBytes vars
  rw [tail, List.length_append, List.length_append, length_keyBytes, length_valueBytes]
  omega

/-- A text in front of the snapshot ends. -/
theorem nul_mem_tail : 0 ∈ tail vars := by
  rw [tail_eq]
  simp

section Bounded

variable {vars} (hlt : vars.length < 2 ^ 31)
include hlt

/-- Less than 2³¹ variables make a payload that is far from 2⁶⁴. -/
theorem length_tail_lt : (tail vars).length < 2 ^ 63 := by
  have hkey := length_keyBlob_le vars
  have hvalue := length_valueBlob_le vars
  have hcount := length_countBytes vars
  rw [tail, List.length_append, List.length_append, length_keyBytes, length_valueBytes]
  omega

/-- The payload has a size. -/
theorem length_dataWith_lt : (t.dataWith vars).length < 2 ^ 64 := by
  have hdata := t.data_lt
  have htail := length_tail_lt hlt
  rw [dataWith_eq, List.length_append]
  omega

/-- The record that is written. -/
def record : Record taskFormat where
  attr := t.attrWith
  headers := t.headersWith vars
  buf := some (t.dataWith vars)
  nheader_eq := by
    have hlen : (t.headersWith vars).length = t.headers.length + 3 := by
      simp [headersWith, tpbRtenvAppendEnvSnapshotHeaders, EnvSnapshot.headers]
    rw [hlen]
    exact (UInt32.toNat_ofNat_of_lt' t.headers_lt).symm
  ndim_le := by
    intro h hh
    rcases List.mem_append.mp hh with hh | hh
    · rw [t.ndim_eq h hh]
      decide
    · have hone : ∀ n ty d z, (envHeader n ty d z).ndim = 1 := fun _ _ _ _ => rfl
      simp only [EnvSnapshot.headers, List.mem_cons, List.not_mem_nil, or_false] at hh
      rcases hh with rfl | rfl | rfl
      · rw [hone]
        decide
      · rw [hone]
        decide
      · rw [hone]
        decide
  data_lt := t.length_dataWith_lt hlt

end Bounded

/-- A snapshot header is read back as it was written. -/
theorem envHeader_norm (name : Bytes) (ty : UInt32) (d z : UInt64) :
    (envHeader name ty d z).norm = envHeader name ty d z := by
  rfl

/-- The headers in front of the snapshot, as they are read back. -/
def others : List MetaHeader := t.headers.map MetaHeader.norm

/-- What is read back. -/
def view : RecordView TaskAttr where
  attr := t.attrWith
  headers := t.others ++ (snapshotOf vars).headers
  datasize := UInt64.ofNat (t.dataWith vars).length
  data := t.dataWith vars

/-- The view of the record. -/
theorem record_view (hlt : vars.length < 2 ^ 31) : (t.record hlt).view = t.view vars := by
  have hsnap : (snapshotOf vars).headers.map MetaHeader.norm = (snapshotOf vars).headers := by
    simp [EnvSnapshot.headers, envHeader_norm]
  have hheaders : (t.record hlt).headers.map MetaHeader.norm =
      t.others ++ (snapshotOf vars).headers := by
    change (t.headers ++ (snapshotOf vars).headers).map MetaHeader.norm = _
    rw [List.map_append, hsnap, others]
  rw [Record.view, view, hheaders]
  rfl

/-- Its size is that of the payload. -/
theorem toNat_datasize (hlt : vars.length < 2 ^ 31) :
    (t.view vars).datasize.toNat = (t.dataWith vars).length := by
  rw [view]
  exact UInt64.toNat_ofNat_of_lt' (t.length_dataWith_lt hlt)

/-! ### The block is found and accepted -/

/-- Headers without the name of the keys are passed over. -/
theorem detectTriple_append {hs : List MetaHeader} {k c v : MetaHeader}
    (hs_ne : ∀ h ∈ hs, cstr h.name.toList ≠ hdrEnvKey) (i : ℕ)
    (hfound : ∀ j, detectTriple j [k, c, v] = some j) :
    detectTriple i (hs ++ [k, c, v]) = some (i + hs.length) := by
  induction hs generalizing i with
  | nil => exact hfound i
  | cons h hs ih =>
      have hname := hs_ne h (by simp)
      have hrest := ih (fun x hx => hs_ne x (by simp [hx])) (i + 1)
      have hlen : i + (h :: hs).length = i + 1 + hs.length := by
        rw [List.length_cons]
        omega
      rw [hlen, ← hrest]
      obtain ⟨a, b, l, hl⟩ : ∃ a b l, hs ++ [k, c, v] = a :: b :: l := by
        rcases hs with - | ⟨a, - | ⟨b, hs⟩⟩
        · exact ⟨k, c, [v], rfl⟩
        · exact ⟨a, k, [c, v], rfl⟩
        · exact ⟨a, b, hs ++ [k, c, v], rfl⟩
      rw [List.cons_append, hl, detectTriple, if_pos (.inl hname)]

/-- The three headers, with their sizes as numbers. -/
theorem headers_snapshot {vars : List CapturedVar} (hlt : vars.length < 2 ^ 31) :
    ∃ K N C V : UInt64,
      (snapshotOf vars).headers = [envHeader hdrEnvKey tpbStringT K K,
        envHeader hdrEnvCount tpbInt32T N C, envHeader hdrEnvValue tpbStringT V V] ∧
      K.toNat = (snapshotOf vars).keyBytes.length ∧ N.toNat = vars.length ∧
      C.toNat = (snapshotOf vars).countBytes.length ∧
      V.toNat = (snapshotOf vars).valueBytes.length := by
  have hkey := length_keyBlob_le vars
  have hvalue := length_valueBlob_le vars
  have hlen : (snapshotOf vars).counts.length = vars.length := by simp [snapshotOf_eq]
  refine ⟨_, _, _, _, rfl, ?_, ?_, ?_, ?_⟩
  · refine Nat.mod_eq_of_lt ?_
    rw [length_keyBytes]
    omega
  · rw [hlen]
    exact Nat.mod_eq_of_lt (by omega)
  · rw [hlen, length_countBytes]
    exact Nat.mod_eq_of_lt (by omega)
  · refine Nat.mod_eq_of_lt ?_
    rw [length_valueBytes]
    omega

theorem envHeader_dataSize (name : Bytes) (ty : UInt32) (d z : UInt64) :
    (envHeader name ty d z).dataSize = z := rfl

theorem ne_zero_of_toNat {n : UInt64} {k : ℕ} (h : n.toNat = k) (hk : 0 < k) : n ≠ 0 := by
  rintro rfl
  rw [UInt64.toNat_zero] at h
  omega

theorem cstr_envHeader_name {name : Bytes} (h0 : 0 ∉ name) (hlen : name.length < 256)
    (ty : UInt32) (d z : UInt64) : cstr (envHeader name ty d z).name.toList = name :=
  cstr_snprintfS h0 hlen

/-- The triple of the snapshot. -/
theorem detectTriple_snapshot {vars : List CapturedVar} (hlt : vars.length < 2 ^ 31) (j : ℕ) :
    detectTriple j (snapshotOf vars).headers = some j := by
  obtain ⟨K, N, C, V, hheaders, hK, -, hC, hV⟩ := headers_snapshot hlt
  have hK0 : K ≠ 0 := ne_zero_of_toNat hK (by rw [length_keyBytes]; omega)
  have hC0 : C ≠ 0 := ne_zero_of_toNat hC (by rw [length_countBytes]; omega)
  have hV0 : V ≠ 0 := ne_zero_of_toNat hV (by rw [length_valueBytes]; omega)
  have hk : cstr (envHeader hdrEnvKey tpbStringT K K).name.toList = hdrEnvKey :=
    cstr_envHeader_name (by decide) (by decide) _ _ _
  have hc : cstr (envHeader hdrEnvCount tpbInt32T N C).name.toList = hdrEnvCount :=
    cstr_envHeader_name (by decide) (by decide) _ _ _
  have hv : cstr (envHeader hdrEnvValue tpbStringT V V).name.toList = hdrEnvValue :=
    cstr_envHeader_name (by decide) (by decide) _ _ _
  rw [hheaders, detectTriple, if_neg (by simp [hk, hc, hv])]
  have hstring : tpbStringT &&& tpbParmTypeMask = tpbStringT := by decide
  have hint : tpbInt32T &&& tpbParmTypeMask = tpbInt32T := by decide
  have htypes : ¬ (sfHdrDtype (envHeader hdrEnvKey tpbStringT K K) ≠ tpbStringT ∨
      sfHdrDtype (envHeader hdrEnvCount tpbInt32T N C) ≠ tpbInt32T ∨
      sfHdrDtype (envHeader hdrEnvValue tpbStringT V V) ≠ tpbStringT) := by
    simp only [not_or, not_not]
    exact ⟨hstring, hint, hstring⟩
  rw [if_neg htypes]
  refine if_neg ?_
  rintro (h | h | h)
  · exact hK0 h
  · exact hC0 h
  · exact hV0 h

/-- The snapshot is found. -/
theorem detect_view (hlt : vars.length < 2 ^ 31) :
    sfEnvDetectTriple (t.view vars).headers = some t.headers.length := by
  have hne : ∀ h ∈ t.others, cstr h.name.toList ≠ hdrEnvKey := by
    intro h hh
    obtain ⟨h', hmem, rfl⟩ := List.mem_map.mp hh
    exact (t.name_ne h' hmem).1
  have hdetect := detectTriple_append hne 0 (detectTriple_snapshot hlt)
  rw [Nat.zero_add, others, List.length_map] at hdetect
  exact hdetect

/-- The block of the snapshot in the payload. -/
def block (vars : List CapturedVar) : EnvBlock where
  keyHi := t.headers.length
  kb := t.data.length
  counts := t.data.length + (snapshotOf vars).keyBytes.length
  vb := t.data.length + (snapshotOf vars).keyBytes.length + (snapshotOf vars).countBytes.length
  nkeys := vars.length

/-- Its names are read. -/
theorem strAt_kb :
    strAt (t.dataWith vars) (t.block vars).kb = some (snapshotOf vars).keyBlob := by
  rw [dataWith_eq, tail_eq]
  refine strAt_append ?_ _ _
  rw [← cstr_keyBlob]
  exact fun h => by simpa using List.mem_takeWhile_imp h

/-- Its values are read. -/
theorem strAt_vb :
    strAt (t.dataWith vars) (t.block vars).vb = some (snapshotOf vars).valueBlob := by
  have hsplit : t.dataWith vars = (t.data ++ (snapshotOf vars).keyBytes ++
      (snapshotOf vars).countBytes) ++ ((snapshotOf vars).valueBlob ++ 0 :: []) := by
    simp [dataWith_eq, tail, EnvSnapshot.valueBytes, cstr_valueBlob]
  have hlen : (t.block vars).vb = (t.data ++ (snapshotOf vars).keyBytes ++
      (snapshotOf vars).countBytes).length := by
    rw [List.length_append, List.length_append]
    rfl
  rw [hsplit, hlen]
  refine strAt_append ?_ _ _
  rw [← cstr_valueBlob]
  exact fun h => by simpa using List.mem_takeWhile_imp h

/-- Its counts are read. -/
theorem countsOf_block : (t.block vars).countsOf (t.dataWith vars) = (snapshotOf vars).counts := by
  have hlen : (snapshotOf vars).counts.length = vars.length := by simp [snapshotOf_eq]
  by_cases hnil : vars = []
  · subst hnil
    rfl
  · have hpos : vars.length > 0 := List.length_pos_iff.mpr hnil
    have hcount : (snapshotOf vars).countBytes = (snapshotOf vars).counts.flatMap i32 := by
      rw [EnvSnapshot.countBytes, if_pos (by omega)]
    have hread := map_range_getI32 (t.data ++ (snapshotOf vars).keyBytes)
      (snapshotOf vars).valueBytes (snapshotOf vars).counts
    rw [hlen, ← hcount, List.length_append] at hread
    rw [EnvBlock.countsOf, dataWith_eq, tail]
    simpa [block] using hread

theorem toNat_add_of_lt {a b : UInt64} {m n : ℕ} (ha : a.toNat = m) (hb : b.toNat = n)
    (h : m + n < 2 ^ 64) : (a + b).toNat = m + n := by
  rw [UInt64.toNat_add, ha, hb, Nat.mod_eq_of_lt h]

/-- The other headers claim the other data. -/
theorem sum_others : claimed t.others = t.data.length := by
  rw [claimed, others, List.map_map, ← t.size_eq]
  rfl

theorem toNat_sum_others : (t.others.map MetaHeader.dataSize).sum.toNat = t.data.length := by
  have hdata := t.data_lt
  rw [toNat_sum_dataSize (by rw [sum_others]; omega), sum_others]

/-- The payload and its parts. -/
theorem length_dataWith : (t.dataWith vars).length =
    t.data.length + (snapshotOf vars).keyBytes.length + (snapshotOf vars).countBytes.length +
      (snapshotOf vars).valueBytes.length := by
  rw [dataWith_eq, tail]
  simp only [List.length_append, Nat.add_assoc]

/-- The snapshot is accepted. -/
theorem validate_view (hlt : vars.length < 2 ^ 31) :
    sfEnvValidate (t.view vars) t.headers.length = .ok (t.block vars) := by
  obtain ⟨K, N, C, V, hheaders, hK, hN, hC, hV⟩ := headers_snapshot hlt
  have htotal := t.length_dataWith_lt hlt
  have hdatasize := t.toNat_datasize vars hlt
  rw [length_dataWith] at htotal hdatasize
  have hothers : t.others.length = t.headers.length := List.length_map _
  have hview : (t.view vars).headers = t.others ++ [envHeader hdrEnvKey tpbStringT K K,
      envHeader hdrEnvCount tpbInt32T N C, envHeader hdrEnvValue tpbStringT V V] := by
    rw [view, hheaders]
  have h₁ := toNat_add_of_lt t.toNat_sum_others hK (by omega)
  have h₂ := toNat_add_of_lt h₁ hC (by omega)
  have h₃ := toNat_add_of_lt h₂ hV (by omega)
  have hdrop : (t.view vars).headers.drop t.headers.length =
      [envHeader hdrEnvKey tpbStringT K K, envHeader hdrEnvCount tpbInt32T N C,
        envHeader hdrEnvValue tpbStringT V V] := by
    rw [hview, ← hothers, List.drop_left]
  have htake : (t.view vars).headers.take t.headers.length = t.others := by
    rw [hview, ← hothers, List.take_left]
  have hdim : (envHeader hdrEnvCount tpbInt32T N C).dim0 = N := rfl
  have hblock : (⟨t.headers.length, (t.others.map MetaHeader.dataSize).sum.toNat,
      ((t.others.map MetaHeader.dataSize).sum + K).toNat,
      ((t.others.map MetaHeader.dataSize).sum + K + C).toNat, N.toNat⟩ : EnvBlock) =
      t.block vars := by
    rw [t.toNat_sum_others, h₁, h₂, hN]
    rfl
  have hfit : ¬ (t.others.map MetaHeader.dataSize).sum + K + C + V > (t.view vars).datasize := by
    rw [gt_iff_lt, UInt64.lt_iff_toNat_lt, h₃, hdatasize]
    omega
  have hcbytes : C = (if N > 0 then N else 1) * 4 := by
    rw [length_countBytes] at hC
    refine UInt64.toNat_inj.mp ?_
    rw [UInt64.toNat_mul]
    split
    · rename_i hpos
      rw [gt_iff_lt, UInt64.lt_iff_toNat_lt, UInt64.toNat_zero] at hpos
      simp only [UInt64.reduceToNat]
      omega
    · rename_i hpos
      rw [gt_iff_lt, UInt64.lt_iff_toNat_lt, UInt64.toNat_zero] at hpos
      simp only [UInt64.reduceToNat]
      omega
  rw [sfEnvValidate, hdrop]
  simp only [htake, hdim, envHeader_dataSize, hblock]
  rw [if_neg hfit, if_neg (not_not.mpr hcbytes)]
  have hdata : (t.view vars).data = t.dataWith vars := rfl
  have hkb : strAt (t.dataWith vars) (t.others.map MetaHeader.dataSize).sum.toNat =
      some (snapshotOf vars).keyBlob := by
    rw [t.toNat_sum_others]
    exact t.strAt_kb vars
  have hvb : strAt (t.dataWith vars) ((t.others.map MetaHeader.dataSize).sum + K + C).toNat =
      some (snapshotOf vars).valueBlob := by
    rw [h₂]
    exact t.strAt_vb vars
  have hnkeys : sfEnvBlobNkeys (snapshotOf vars).keyBlob = N.toNat := by
    rw [hN, snapshotOf_eq]
    exact (sfEnvBlobNkeys_joinSep (segs_keys vars)).trans (List.length_map _)
  simp only [hdata, hkb, hvb, countsOf_block, countsSum_snapshot]
  rw [if_neg (not_not.mpr hnkeys), snapshotOf_eq, if_neg]
  exact not_not.mpr (sfEnvBlobNkeys_joinSep (segs_values vars))

/-! ### The rows -/

/-- The other columns are plain. -/
theorem plainColumns : PlainColumns (some (t.block vars)) t.others 0 where
  free := by
    intro j _ hj
    have hlen : t.others.length = t.headers.length := List.length_map _
    have hlt : j < (t.block vars).keyHi := by
      change j < t.headers.length
      omega
    constructor
    · simp [envAt, Option.filter, Nat.ne_of_lt hlt]
    · have h₁ : j ≠ (t.block vars).keyHi + 1 := by omega
      have h₂ : j ≠ (t.block vars).keyHi + 2 := by omega
      simp [sfEnvSkipCol, h₁, h₂]
  ndim_eq := by
    intro h hh
    obtain ⟨h', hmem, rfl⟩ := List.mem_map.mp hh
    exact t.ndim_eq h' hmem
  link_ne := by
    intro h hh
    obtain ⟨h', hmem, rfl⟩ := List.mem_map.mp hh
    exact t.link_ne h' hmem

end TaskColumns

/-- The two cells of a row that show a variable. -/
def envCells (vars : List CapturedVar) (i : ℕ) : List CsvCell :=
  match vars[i]? with
  | some e => [.ofBuf e.key, .ofBuf e.joined]
  | none => [.ofBuf [], .ofBuf []]

namespace TaskColumns

variable (t : TaskColumns) (vars : List CapturedVar)

/-- The columns of the two other headers of the snapshot are passed over. -/
theorem skipCol_block : sfEnvSkipCol (some (t.block vars)) t.headers.length = false ∧
    sfEnvSkipCol (some (t.block vars)) (t.headers.length + 1) = true ∧
    sfEnvSkipCol (some (t.block vars)) (t.headers.length + 2) = true := by
  simp [sfEnvSkipCol, block]

/-- The last columns are those of the snapshot. -/
theorem envAt_block : envAt (some (t.block vars)) t.headers.length = some (t.block vars) := by
  simp [envAt, Option.filter, block]

/-- What the two columns of the snapshot have in a row. -/
theorem columnCells_block (row off : ℕ) (h : MetaHeader) :
    columnCells (some (t.block vars)) (t.dataWith vars) row off h t.headers.length =
      if ∀ e, vars[row]? = some e → e.joined.length < cellBuf then .ok (envCells vars row)
      else .error (.code .none .cliFail) := by
  have hnkeys : (t.block vars).nkeys = vars.length := rfl
  rw [columnCells, envAt_block]
  simp only [hnkeys, strAt_kb, strAt_vb, countsOf_block]
  rcases he : vars[row]? with - | e
  · have hlen := List.getElem?_eq_none_iff.mp he
    rw [if_neg (by omega), if_pos (by simp), envCells, he]
  · obtain ⟨hlen, -⟩ := List.getElem?_eq_some_iff.mp he
    have hkey : sfEnvKeyToBuf cellBuf (snapshotOf vars).keyBlob row = .ok e.key := by
      rw [snapshotOf_eq]
      refine sfEnvKeyToBuf_joinSep (segs_keys vars) (by simp [he]) ?_
      have := e.key_lt
      rw [cellBuf]
      omega
    rw [if_pos hlen, hkey, sfEnvValueToBuf_snapshot he (by decide), envCells, he]
    by_cases hfits : e.joined.length < cellBuf
    · rw [if_pos hfits, if_pos (by simpa using hfits)]
    · rw [if_neg hfits, if_neg (by simpa using hfits)]

/-- The headers with their indices. -/
theorem zipIdx_view {K N C V : UInt64}
    (hheaders : (snapshotOf vars).headers = [envHeader hdrEnvKey tpbStringT K K,
      envHeader hdrEnvCount tpbInt32T N C, envHeader hdrEnvValue tpbStringT V V]) :
    (t.view vars).headers.zipIdx = t.others.zipIdx 0 ++
      [(envHeader hdrEnvKey tpbStringT K K, t.headers.length),
        (envHeader hdrEnvCount tpbInt32T N C, t.headers.length + 1),
        (envHeader hdrEnvValue tpbStringT V V, t.headers.length + 2)] := by
  have hlen : t.others.length = t.headers.length := List.length_map _
  rw [view, hheaders, List.zipIdx_append, hlen]
  simp

/-- The end of a row, behind the other columns. -/
theorem rowCells_triple {K N C V : UInt64} (hK0 : K ≠ 0) (hC0 : C ≠ 0) (hV0 : V ≠ 0)
    {off : UInt64} (hfits : ¬ off + K > (t.view vars).datasize) (row : ℕ) :
    rowCells (t.view vars) (some (t.block vars)) row
        [(envHeader hdrEnvKey tpbStringT K K, t.headers.length),
          (envHeader hdrEnvCount tpbInt32T N C, t.headers.length + 1),
          (envHeader hdrEnvValue tpbStringT V V, t.headers.length + 2)] off =
      if ∀ e, vars[row]? = some e → e.joined.length < cellBuf then .ok (envCells vars row)
      else .error (.code .none .cliFail) := by
  obtain ⟨hskip, hskip₁, hskip₂⟩ := t.skipCol_block vars
  have hrest : ∀ off', rowCells (t.view vars) (some (t.block vars)) row
      [(envHeader hdrEnvCount tpbInt32T N C, t.headers.length + 1),
        (envHeader hdrEnvValue tpbStringT V V, t.headers.length + 2)] off' = .ok [] := by
    intro off'
    rw [rowCells, envHeader_dataSize, if_neg hC0, if_pos hskip₁, rowCells, envHeader_dataSize,
      if_neg hV0, if_pos hskip₂, rowCells]
  have hdata : (t.view vars).data = t.dataWith vars := rfl
  rw [rowCells, envHeader_dataSize, if_neg hK0, if_neg (by simp [hskip]), if_neg hfits, hdata,
    columnCells_block, hrest]
  split_ifs with hcond
  · simp [Except.map]
  · rfl

/-- A row of the table. -/
theorem rowCells_view (hlt : vars.length < 2 ^ 31) (row : ℕ) :
    ∃ cells, cells.length = ncolumns t.others ∧
      rowCells (t.view vars) (some (t.block vars)) row (t.view vars).headers.zipIdx 0 =
        if ∀ e, vars[row]? = some e → e.joined.length < cellBuf then
          .ok (cells ++ envCells vars row)
        else .error (.code .none .cliFail) := by
  obtain ⟨K, N, C, V, hheaders, hK, -, hC, hV⟩ := headers_snapshot hlt
  have hK0 : K ≠ 0 := ne_zero_of_toNat hK (by rw [length_keyBytes]; omega)
  have hC0 : C ≠ 0 := ne_zero_of_toNat hC (by rw [length_countBytes]; omega)
  have hV0 : V ≠ 0 := ne_zero_of_toNat hV (by rw [length_valueBytes]; omega)
  have hsize : (t.view vars).datasize.toNat = t.data.length + (tail vars).length := by
    rw [t.toNat_datasize vars hlt, dataWith_eq, List.length_append]
  have hlast := t.length_dataWith_lt hlt
  have hlength := t.length_dataWith vars
  rw [dataWith_eq, List.length_append] at hlast hlength
  obtain ⟨cells, hlen, hcells⟩ := @rowCells_plain _ _ row _ _ (t.dataWith_eq vars) hsize
    (six_le_length_tail vars) (nul_mem_tail vars) _ _ (t.plainColumns vars) 0
    (by rw [← claimed, sum_others, UInt64.toNat_zero]; omega)
  refine ⟨cells, hlen, ?_⟩
  have hfits : ¬ 0 + (t.others.map MetaHeader.dataSize).sum + K > (t.view vars).datasize := by
    rw [UInt64.zero_add, gt_iff_lt, UInt64.lt_iff_toNat_lt,
      toNat_add_of_lt t.toNat_sum_others hK (by omega), hsize]
    omega
  rw [t.zipIdx_view vars hheaders, hcells, t.rowCells_triple vars hK0 hC0 hV0 hfits]
  split_ifs
  · rfl
  · rfl

/-- The first row of the table. -/
theorem nameCells_view (hlt : vars.length < 2 ^ 31) :
    ∃ cells, cells.length = ncolumns t.others ∧
      nameCells (some (t.block vars)) (t.view vars).headers.zipIdx =
        cells ++ [.ofBuf hdrEnvKey, .ofBuf hdrEnvValue] := by
  obtain ⟨K, N, C, V, hheaders, hK, -, hC, hV⟩ := headers_snapshot hlt
  have hK0 : K ≠ 0 := ne_zero_of_toNat hK (by rw [length_keyBytes]; omega)
  obtain ⟨hskip, hskip₁, hskip₂⟩ := t.skipCol_block vars
  obtain ⟨cells, hlen, hcells⟩ := nameCells_plain (t.plainColumns vars)
  refine ⟨cells, hlen, ?_⟩
  rw [t.zipIdx_view vars hheaders, hcells, nameCells,
    if_neg (by simp [envHeader_dataSize, hK0, hskip]), envAt_block, nameCells,
    if_pos (.inr hskip₁), nameCells, if_pos (.inr hskip₂), nameCells]

/-- The table has a row for each variable. -/
theorem countRows_view (hlt : vars.length < 2 ^ 31) :
    ∃ nrows, vars.length ≤ nrows ∧
      countRows (some (t.block vars)) (t.view vars).headers.zipIdx 0 = .ok nrows := by
  obtain ⟨K, N, C, V, hheaders, hK, -, hC, hV⟩ := headers_snapshot hlt
  have hK0 : K ≠ 0 := ne_zero_of_toNat hK (by rw [length_keyBytes]; omega)
  obtain ⟨hskip, hskip₁, hskip₂⟩ := t.skipCol_block vars
  obtain ⟨m, hm⟩ := countRows_plain (t.plainColumns vars) 0
  refine ⟨if vars.length > m then vars.length else m, ?_, ?_⟩
  · split
    · exact le_rfl
    · omega
  · rw [t.zipIdx_view vars hheaders, hm, countRows,
      if_neg (by simp [envHeader_dataSize, hK0, hskip]), envAt_block]
    simp only [countRows]
    rw [if_pos (.inr hskip₁), if_pos (.inr hskip₂)]
    rfl

end TaskColumns

/-! ### The exported rows -/

/-- A table whose last two columns show the variables, one in each row, in their order. In
front of them there are `ncols` other columns. -/
def EnvTable (ncols : ℕ) (vars : List CapturedVar) (content : Bytes) : Prop :=
  ∃ (names : List CsvCell) (others : ℕ → List CsvCell) (nrows : ℕ),
    vars.length ≤ nrows ∧ names.length = ncols ∧ (∀ i, (others i).length = ncols) ∧
      content = csvText ((names ++ [.ofBuf hdrEnvKey, .ofBuf hdrEnvValue]) ::
        (List.range nrows).map fun i => others i ++ envCells vars i)

/-- The variables are recorded into the task record, the record is written and read back, the
triple is found and accepted, and the data file shows the variables. -/
def EnvExported (t : TaskColumns) (vars : List CapturedVar) (ws : Workspace) : Prop :=
  ∃ s ws' v b w', recordVars vars EnvSnapshot.clear = .ok () s ∧
    (let r := tpbRtenvAppendEnvSnapshotHeaders s t.headers t.data
     tpbRafRecordWriteTask t.attrWith r.1 (some r.2) (UInt64.ofNat r.2.length) ws) =
      .ok () ws' ∧
    tpbRafRecordReadTask t.attr.taskRecordId true ws' = .ok v ws' ∧
    sfEnvDetectTriple v.headers = some t.headers.length ∧
    sfEnvValidate v t.headers.length = .ok b ∧
    sfWriteData v (tpbcliTaskCsvWriterInit fun _ => false) = .ok () w' ∧
    EnvTable (ncolumns t.others) vars w'.content

/-- The record with the snapshot is written and read back. -/
theorem TaskColumns.written_read (t : TaskColumns) {vars : List CapturedVar}
    (hlt : vars.length < 2 ^ 31) (ws : Workspace) :
    ∃ ws', tpbRafRecordWriteTask t.attrWith (t.headersWith vars) (some (t.dataWith vars))
        (UInt64.ofNat (t.dataWith vars).length) ws = .ok () ws' ∧
      tpbRafRecordReadTask t.attr.taskRecordId true ws' = .ok (t.view vars) ws' := by
  refine ⟨ws.set (.record .task t.attr.taskRecordId) (t.record hlt).bytes, rfl, ?_⟩
  rw [← t.record_view vars hlt]
  exact recordRead_of_bytes (Workspace.set_files_same _ _ _)

/-- The data writer goes on to the table with the block of the snapshot. -/
theorem TaskColumns.sfWriteData_view (t : TaskColumns) {vars : List CapturedVar}
    (hlt : vars.length < 2 ^ 31) {w w' : CsvWriter} :
    sfWriteData (t.view vars) w = .ok () w' ↔
      writeTable (t.view vars) (some (t.block vars)) w = .ok () w' := by
  have hvalidate : liftCsv (sfEnvValidate (t.view vars) t.headers.length) w =
      .ok (t.block vars) w :=
    liftCsv_eq_ok.mpr ⟨t.validate_view vars hlt, rfl⟩
  rw [sfWriteData, t.detect_view vars hlt]
  constructor
  · intro h
    obtain ⟨b, w₁, hb, hrest⟩ := bind_eq_ok.mp h
    rw [hvalidate] at hb
    cases hb
    exact hrest
  · intro h
    exact bind_then hvalidate h

/-- Variables that are exported fit the buffer of the reader. -/
theorem EnvExported.fits {t : TaskColumns} {vars : List CapturedVar} {ws : Workspace}
    (h : EnvExported t vars ws) :
    vars.length < 2 ^ 31 ∧ ∀ e ∈ vars, e.joined.length < cellBuf := by
  obtain ⟨s, ws', v, b, w', hrec, hwrite, hread, -, -, hdata, -⟩ := h
  obtain ⟨hlt, rfl⟩ := recordVars_eq_ok.mp hrec
  refine ⟨hlt, fun e he => ?_⟩
  obtain ⟨ws₁, hwrite₁, hread₁⟩ := t.written_read hlt ws
  obtain rfl : ws₁ = ws' := (EStateM.Result.ok.inj (hwrite₁.symm.trans hwrite)).2
  obtain rfl : t.view vars = v := (EStateM.Result.ok.inj (hread₁.symm.trans hread)).1
  obtain ⟨n, hcount, hrows⟩ := writeTable_eq_ok rfl ((t.sfWriteData_view hlt).mp hdata)
  obtain ⟨nrows, hle, hcount'⟩ := t.countRows_view vars hlt
  obtain rfl : nrows = n := Except.ok.inj (hcount'.symm.trans hcount)
  obtain ⟨i, hi⟩ := List.mem_iff_getElem?.mp he
  obtain ⟨hlen, -⟩ := List.getElem?_eq_some_iff.mp hi
  obtain ⟨cells, hcells⟩ := hrows i (by omega)
  obtain ⟨others, -, hrow⟩ := t.rowCells_view vars hlt i
  rw [hrow] at hcells
  split at hcells
  · rename_i hall
    exact hall e hi
  · cases hcells

/-- Variables that fit the buffer of the reader are exported. -/
theorem envExported_of_fits {t : TaskColumns} {vars : List CapturedVar} {ws : Workspace}
    (hlt : vars.length < 2 ^ 31) (hfits : ∀ e ∈ vars, e.joined.length < cellBuf) :
    EnvExported t vars ws := by
  obtain ⟨ws₁, hwrite, hread⟩ := t.written_read hlt ws
  obtain ⟨nrows, hle, hcount⟩ := t.countRows_view vars hlt
  obtain ⟨names, hnames, hfirst⟩ := t.nameCells_view vars hlt
  choose others hothers hrow using t.rowCells_view vars hlt
  have hcells : ∀ i < nrows, rowCells (t.view vars) (some (t.block vars)) i
      (t.view vars).headers.zipIdx 0 = .ok (others i ++ envCells vars i) := by
    intro i _
    rw [hrow i, if_pos]
    intro e he
    exact hfits e (List.mem_of_getElem? he)
  obtain ⟨w', htable, hcontent⟩ := writeTable_ok (w := tpbcliTaskCsvWriterInit fun _ => false)
    (fun _ => rfl) rfl hcount hcells
  refine ⟨_, ws₁, _, _, w', recordVars_eq_ok.mpr ⟨hlt, rfl⟩, hwrite, hread,
    t.detect_view vars hlt, t.validate_view vars hlt, (t.sfWriteData_view hlt).mpr htable,
    names, others, nrows, hle, hnames, hothers, ?_⟩
  rw [hcontent, hfirst]
  rfl

/-- **The snapshot in the data file.** For every task record and every list of captured
variables: recording the variables and exporting the record succeeds and shows each variable
with the non-empty segments of its value, in order, exactly when the number of variables is
an `int` and every value, joined again from its segments, has fewer than 4096 bytes. -/
theorem envRows_exported (t : TaskColumns) (vars : List CapturedVar) (ws : Workspace) :
    EnvExported t vars ws ↔
      vars.length < 2 ^ 31 ∧ ∀ e ∈ vars, e.joined.length < cellBuf := by
  constructor
  · exact EnvExported.fits
  · rintro ⟨hlt, hfits⟩
    exact envExported_of_fits hlt hfits

/-- A task record without arguments and outputs. -/
def TaskColumns.none : TaskColumns where
  attr := TaskAttr.zero
  headers := []
  data := []
  ndim_eq := by simp
  name_ne := by simp
  link_ne := by simp
  size_eq := rfl
  data_lt := by decide
  headers_lt := by decide

/-- A variable with a value of 4096 letters. -/
def longVar : CapturedVar where
  key := [76]
  val := List.replicate 4096 97
  key_ne_nil := by simp
  colon_not_mem_key := by simp
  nul_not_mem_key := by simp
  key_lt := by decide
  nul_not_mem_val := fun h => absurd (List.eq_of_mem_replicate h) (by decide)
  val_lt := by
    rw [List.length_replicate]
    decide

/-- A value of 4096 letters is captured, but it does not fit the buffer of the reader. -/
theorem envRow_of_long_value : ¬ EnvExported TaskColumns.none [longVar] Workspace.empty := by
  intro h
  have hjoined : longVar.joined = List.replicate 4096 97 := by
    have hcolon : 58 ∉ List.replicate 4096 (97 : UInt8) :=
      fun h => absurd (List.eq_of_mem_replicate h) (by decide)
    have hne : List.replicate 4096 (97 : UInt8) ≠ [] :=
      List.ne_nil_of_length_pos (by rw [List.length_replicate]; decide)
    rw [CapturedVar.joined, SnapPair.segs, longVar, segments_of_not_mem hcolon, if_neg hne,
      joinSep_singleton]
  have hlt := h.fits.2 longVar (by simp)
  rw [hjoined, List.length_replicate, cellBuf] at hlt
  exact absurd hlt (by decide)

end TPBench
