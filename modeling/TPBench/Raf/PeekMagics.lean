import TPBench.CFile.Marks
import TPBench.Raf.Domains

/-!
# The Signatures of a Record File, Found by Scanning

`tpb_raf_record_peek_magics` shows the three signatures of a record without decoding it: the
SPLIT signature is the first place behind the sizes that looks like one, and the END signature is
expected where the payload, by its size, ends.

The readers walk over the attributes and headers instead (`readToSplit`, `readToEnd`). Every
field of these may hold any bytes, the signature among them. The two agree on the file of a
record exactly when the attributes and headers do not hold the eight bytes of the SPLIT signature
(`peekMagics_iff`), which cannot overlap with themselves.
-/

open CFile

namespace TPBench

/-! ### The scanner -/

/-- `LONG_MAX`. -/
def longMax : ℤ := 2 ^ 63 - 1

/-- `_sf_file_size`: the size is returned as a `long`, and the position is as before. -/
def sfFileSize : FileM ℤ := do
  let size ← fstatSize
  check ((size : ℤ) ≤ longMax)
  return size

/-- `_sf_read_magic_at`. -/
def sfReadMagicAt (pos : ℤ) : FileM Bytes := do
  fseek pos
  fread 8

/-- The loop of `_sf_find_split_pos`: the number of positions that are left, and the first one. -/
def sfFindSplitPos (domain : Domain) : ℕ → ℕ → FileM ℕ
  | 0, _ => fun s => .error .fail s
  | n + 1, pos => do
      let magic ← sfReadMagicAt pos
      if tpbRafValidateMagic magic .record domain .posSplit then return pos
      else sfFindSplitPos domain n (pos + 1)

/-- `search_hi`, the last position that is looked at. -/
def searchHi (fsize : ℤ) (datasize : UInt64) : ℤ :=
  if datasize.toNat ≤ fsize - 24 then min (fsize - 8) (fsize - 8 - longOfU64 datasize - 8)
  else fsize - 8

/-- The signatures that are put out, and the positions they were found at. -/
structure PeekedMagics where
  startMagic : Bytes
  splitMagic : Bytes
  endMagic : Bytes
  splitPos : ℤ
  endPos : ℤ

/-- A sum that leaves the range of `long`. -/
def longOverflow {α : Type} : FileM α := fun s => .error .undefined s

/-- The end of `tpb_raf_record_peek_magics`, once the SPLIT signature was found. -/
def peekEnd (domain : Domain) (startMagic : Bytes) (datasize : UInt64) (fsize : ℤ)
    (splitPos : ℕ) : FileM PeekedMagics := do
  let splitMagic ← sfReadMagicAt splitPos
  let endPos : ℤ := splitPos + 8 + longOfU64 datasize
  if longMax < endPos + 8 then longOverflow
  else do
    check (endPos + 8 ≤ fsize)
    let endMagic ← sfReadMagicAt endPos
    check (tpbRafValidateMagic endMagic .record domain .posEnd)
    return ⟨startMagic, splitMagic, endMagic, splitPos, endPos⟩

/-- What `tpb_raf_record_peek_magics` does with the open file. -/
def peekMagics (domain : Domain) : FileM PeekedMagics := do
  let startMagic ← fread 8
  check (tpbRafValidateMagic startMagic .record domain .posStart)
  let _metasize ← readU64
  let datasize ← readU64
  let fsize ← sfFileSize
  check (24 ≤ searchHi fsize datasize)
  let splitPos ← sfFindSplitPos domain (searchHi fsize datasize - 24 + 1).toNat 24
  peekEnd domain startMagic datasize fsize splitPos

/-- The path of the record: a runtime environment is named by its number, everything else by
its ID. -/
def peekPath (domain : Domain) (id : Id20) (rtenvId : Int32) : Path :=
  match domain with
  | .rtenv => .rtenv rtenvId
  | _ => .record domain id

/-- `tpb_raf_record_peek_magics`. -/
def tpbRafRecordPeekMagics (domain : Domain) (id : Id20) (rtenvId : Int32) : WsM PeekedMagics :=
  fopenRead .rafMisc (peekPath domain id rtenvId) (peekMagics domain)

/-! ### The places the readers use -/

section Reader

variable {α : Type} (F : RecordFormat α)

/-- A reader up to the SPLIT signature. -/
def readToSplit : FileM (UInt64 × α × List MetaHeader) := do
  let magic ← fread 8
  check (tpbRafValidateMagic magic .record F.domain .posStart)
  let _metasize ← readU64
  let ds ← readU64
  let attr ← F.decode
  let headers ← tpbRafL1ReadHeaders (F.nheader attr)
  return (ds, attr, headers)

/-- A reader up to the END signature. -/
def readToEnd (wantData : Bool) : FileM ((UInt64 × α × List MetaHeader) × Bytes) := do
  let x ← readToSplit F
  let magic ← fread 8
  check (tpbRafValidateMagic magic .record F.domain .posSplit)
  let data ← readPayload wantData x.1
  return (x, data)

/-- The readers go on from there. -/
theorem readRecord_eq_readToEnd (wantData : Bool) :
    readRecord F wantData = (do
      let (x, data) ← readToEnd F wantData
      let magic ← fread 8
      check (tpbRafValidateMagic magic .record F.domain .posEnd)
      return ⟨x.2.1, x.2.2, if wantData then x.1 else 0, data⟩) := by
  simp only [readToEnd, readToSplit, bind_assoc, pure_bind]
  rfl

/-- The peeked signatures stand where a reader of the file finds its SPLIT and END signature. -/
structure PeekedMagics.Agree (m : PeekedMagics) (c : Bytes) : Prop where
  atSplit : ∃ x s, readToSplit F ⟨c, 0⟩ = .ok x s ∧ (s.pos : ℤ) = m.splitPos
  atEnd : ∀ wantData, ∃ y s, readToEnd F wantData ⟨c, 0⟩ = .ok y s ∧ (s.pos : ℤ) = m.endPos
  startMagic : m.startMagic = tpbRafBuildMagic .record F.domain .posStart
  splitMagic : m.splitMagic = tpbRafBuildMagic .record F.domain .posSplit
  endMagic : m.endMagic = tpbRafBuildMagic .record F.domain .posEnd

variable {F} (r : Record F)

/-- The attributes and headers of a record. -/
def Record.metadata : Bytes := F.encode r.attr ++ tpbRafL1WriteHeaders r.headers

/-- Where the SPLIT signature of a record stands. -/
def Record.splitPos : ℕ := 24 + r.metadata.length

/-- The reader walks up to the SPLIT signature. -/
theorem reads_readToSplit :
    Reads (readToSplit F) (F.front r.attr r.datasize ++ tpbRafL1WriteHeaders r.headers)
      (r.datasize, r.attr, r.headers.map MetaHeader.norm) := by
  rw [RecordFormat.front]
  simp only [List.append_assoc]
  refine reads_magic _ _ _ ?_
  refine (reads_readU64 _).bind ?_
  refine (reads_readU64 _).bind ?_
  refine (F.reads_decode _).bind ?_
  exact (reads_tpbRafL1ReadHeaders r.nheader_eq r.ndim_le).map _

/-- The length of a record file. -/
theorem Record.length_bytes : r.bytes.length = r.splitPos + 8 + r.data.length + 8 := by
  rw [r.bytes_eq, Record.splitPos, Record.metadata]
  simp only [List.length_append, F.length_front, length_tpbRafBuildMagic]
  omega

/-- The signatures stand at their places. -/
theorem Record.pread_split :
    pread r.bytes r.splitPos 8 = tpbRafBuildMagic .record F.domain .posSplit := by
  rw [r.bytes_eq, ← List.append_assoc, pread_append_right, Record.splitPos, Record.metadata]
  · simp only [List.length_append, F.length_front]
    rw [show 24 + ((F.encode r.attr).length + (tpbRafL1WriteHeaders r.headers).length) -
      (24 + (F.encode r.attr).length + (tpbRafL1WriteHeaders r.headers).length) = 0 by omega]
    exact pread_append_self rfl
  · rw [Record.splitPos, Record.metadata]
    simp only [List.length_append, F.length_front]
    omega

theorem Record.pread_end :
    pread r.bytes (r.splitPos + 8 + r.data.length) 8 =
      tpbRafBuildMagic .record F.domain .posEnd := by
  have h := pread_layout_end (F := F) (a := r.attr) r.datasize
    (tpbRafL1WriteHeaders r.headers) r.data rfl
  rw [r.bytes_layout, Record.splitPos, Record.metadata, List.length_append, ← Nat.add_assoc]
  exact h

/-- Where the reader is at the SPLIT signature. -/
theorem Record.run_readToSplit :
    readToSplit F ⟨r.bytes, 0⟩ =
      .ok (r.datasize, r.attr, r.headers.map MetaHeader.norm) ⟨r.bytes, r.splitPos⟩ := by
  have h := reads_readToSplit r [] (tpbRafBuildMagic .record F.domain .posSplit ++
    (r.data ++ tpbRafBuildMagic .record F.domain .posEnd))
  have hpos : (F.front r.attr r.datasize ++ tpbRafL1WriteHeaders r.headers).length =
      r.splitPos := by
    rw [Record.splitPos, Record.metadata]
    simp only [List.length_append, F.length_front]
    omega
  rw [List.nil_append, List.append_assoc, ← r.bytes_eq, hpos, List.length_nil,
    Nat.zero_add] at h
  exact h

/-- A size that is a `long` is itself as a `long`. -/
theorem longOfU64_eq {v : UInt64} (h : (v.toNat : ℤ) ≤ longMax) : longOfU64 v = v.toNat := by
  have hbits : v.toBitVec.toNat = v.toNat := UInt64.toNat_toBitVec v
  rw [longMax] at h
  rw [longOfU64, BitVec.toInt_eq_toNat_of_lt (by omega), hbits]

/-- The size of the payload is a `long` if that of the file is. -/
theorem Record.longOfU64_datasize (hlen : (r.bytes.length : ℤ) ≤ longMax) :
    longOfU64 r.datasize = r.data.length := by
  rw [longOfU64_eq, r.toNat_datasize]
  rw [r.toNat_datasize]
  rw [r.length_bytes] at hlen
  omega

/-- Where it is at the END signature, if the payload can be passed over. -/
theorem Record.run_readToEnd (hlen : (r.bytes.length : ℤ) ≤ longMax) (wantData : Bool) :
    ∃ y, readToEnd F wantData ⟨r.bytes, 0⟩ =
      .ok y ⟨r.bytes, r.splitPos + 8 + r.data.length⟩ := by
  have hsplit : fread 8 ⟨r.bytes, r.splitPos⟩ =
      .ok (tpbRafBuildMagic .record F.domain .posSplit) ⟨r.bytes, r.splitPos + 8⟩ :=
    fread_run r.pread_split rfl
  have hpayload : ∃ data, readPayload wantData r.datasize ⟨r.bytes, r.splitPos + 8⟩ =
      .ok data ⟨r.bytes, r.splitPos + 8 + r.data.length⟩ := by
    rw [readPayload, r.toNat_datasize]
    split_ifs
    · have hfit : r.splitPos + 8 + r.data.length ≤ r.bytes.length := by
        rw [r.length_bytes]
        omega
      refine ⟨pread r.bytes (r.splitPos + 8) r.data.length, fread_run rfl ?_⟩
      rw [pread, List.length_take, List.length_drop]
      omega
    · refine ⟨[], bind_then (a := ()) (fseek_run ?_) rfl⟩
      rw [r.longOfU64_datasize hlen]
      push_cast
      rfl
  obtain ⟨data, hdata⟩ := hpayload
  refine ⟨((r.datasize, r.attr, r.headers.map MetaHeader.norm), data), ?_⟩
  rw [readToEnd, bind_ok r.run_readToSplit, bind_ok hsplit,
    bind_ok (check_run (tpbRafValidateMagic_self _ _ _) _), bind_ok hdata]
  rfl

end Reader

/-! ### The scan -/

section Scan

variable {d : Domain} {c : Bytes} {n lo p x : ℕ}

theorem sfReadMagicAt_run (h : p + 8 ≤ c.length) :
    sfReadMagicAt p ⟨c, x⟩ = .ok (pread c p 8) ⟨c, p + 8⟩ := by
  have hlen : (pread c p 8).length = 8 := by
    rw [pread, List.length_take, List.length_drop]
    omega
  rw [sfReadMagicAt, bind_ok (fseek_run rfl)]
  exact fread_run rfl hlen

/-- A signature that was read stands at the position. -/
theorem sfReadMagicAt_eq_ok {m : Bytes} {s : Stream} (h : sfReadMagicAt p ⟨c, x⟩ = .ok m s) :
    m = pread c p 8 ∧ s.content = c := by
  rw [sfReadMagicAt, bind_ok (fseek_run rfl)] at h
  by_cases hlen : (pread c p 8).length = 8
  · rw [fread_run rfl hlen] at h
    cases h
    exact ⟨rfl, rfl⟩
  · have hnone : freadTry 8 ⟨c, p⟩ = .ok none ⟨c, max p c.length⟩ := by
      rw [freadTry, if_neg hlen]
    simp only [fread, hnone] at h
    cases h

/-- The first place that looks like a SPLIT signature is found. -/
theorem sfFindSplitPos_run
    (hbefore : ∀ q, lo ≤ q → q < p → pread c q 8 ≠ tpbRafBuildMagic .record d .posSplit)
    (hp : pread c p 8 = tpbRafBuildMagic .record d .posSplit) (hlo : lo ≤ p) (hn : p < lo + n)
    (hlen : p + 8 ≤ c.length) : sfFindSplitPos d n lo ⟨c, x⟩ = .ok p ⟨c, p + 8⟩ := by
  induction n generalizing lo x with
  | zero => exact absurd hn (Nat.not_lt.mpr hlo)
  | succ n ih =>
      rw [sfFindSplitPos, bind_ok (sfReadMagicAt_run (by omega))]
      rcases Nat.eq_or_lt_of_le hlo with rfl | hlt
      · rw [if_pos (tpbRafValidateMagic_iff.mpr hp)]
        rfl
      · rw [if_neg fun h => hbefore lo le_rfl hlt (tpbRafValidateMagic_iff.mp h)]
        exact ih (fun q hq => hbefore q (by omega)) hlt (by omega)

/-- Nothing in front of the place that is found looks like one. -/
theorem pread_ne_of_sfFindSplitPos {s : Stream} (h : sfFindSplitPos d n lo ⟨c, x⟩ = .ok p s) :
    ∀ q, lo ≤ q → q < p → pread c q 8 ≠ tpbRafBuildMagic .record d .posSplit := by
  induction n generalizing lo x with
  | zero => cases h
  | succ n ih =>
      rw [sfFindSplitPos] at h
      obtain ⟨magic, s₁, hmagic, hrest⟩ := bind_eq_ok.mp h
      obtain ⟨rfl, hc⟩ := sfReadMagicAt_eq_ok hmagic
      split_ifs at hrest with hvalid
      · cases hrest
        intro q hle hlt
        exact absurd hle (Nat.not_le.mpr hlt)
      · obtain ⟨content, pos⟩ := s₁
        obtain rfl : content = c := hc
        intro q hle hlt
        rcases Nat.eq_or_lt_of_le hle with rfl | hlt'
        · exact fun heq => hvalid (tpbRafValidateMagic_iff.mpr heq)
        · exact ih hrest q hlt' hlt

end Scan

/-! ### Agreement -/

/-- The SPLIT signature does not overlap with itself. -/
theorem borderless_split (d : Domain) :
    Marks.Borderless (tpbRafBuildMagic .record d .posSplit) := by
  intro k hpos hlt
  rw [length_tpbRafBuildMagic] at hlt
  intro h
  have hhead := congrArg List.head? h
  rw [List.head?_drop, List.head?_take, if_neg (by rw [length_tpbRafBuildMagic]; omega)] at hhead
  have hne : ∀ i < 8, 0 < i → (tpbRafBuildMagic .record d .posSplit)[i]? ≠ some 0xE1 := by
    cases d <;> decide
  exact hne k hlt hpos hhead

section Agreement

variable {α : Type} {F : RecordFormat α} (r : Record F)

/-- The attributes and headers hold no SPLIT signature of the domain, and the size of the file is
a `long`. -/
def Record.Unmarked : Prop :=
  ¬ tpbRafBuildMagic .record F.domain .posSplit <:+: r.metadata ∧
    (r.bytes.length : ℤ) ≤ longMax

/-- The bytes of a record behind the sizes. -/
theorem Record.drop_bytes (k : ℕ) :
    r.bytes.drop (24 + k) = (r.metadata ++ (tpbRafBuildMagic .record F.domain .posSplit ++
      (r.data ++ tpbRafBuildMagic .record F.domain .posEnd))).drop k := by
  have hparts : r.bytes = (tpbRafBuildMagic .record F.domain .posStart ++
      (u64 (F.metasize r.attr) ++ u64 r.datasize)) ++ (r.metadata ++
        (tpbRafBuildMagic .record F.domain .posSplit ++
          (r.data ++ tpbRafBuildMagic .record F.domain .posEnd))) := by
    rw [r.bytes_eq, RecordFormat.front, Record.metadata]
    simp only [List.append_assoc]
  rw [hparts, ← List.drop_drop]
  rfl

/-- Nothing in front of the SPLIT signature looks like one exactly when the attributes and
headers do not hold it. -/
theorem Record.split_first_iff :
    (∀ q, 24 ≤ q → q < r.splitPos →
        pread r.bytes q 8 ≠ tpbRafBuildMagic .record F.domain .posSplit) ↔
      ¬ tpbRafBuildMagic .record F.domain .posSplit <:+: r.metadata := by
  constructor
  · intro h hinfix
    obtain ⟨q, hq, hplace⟩ := Marks.exists_take_drop hinfix
      (tpbRafBuildMagic .record F.domain .posSplit ++
        (r.data ++ tpbRafBuildMagic .record F.domain .posEnd))
    rw [length_tpbRafBuildMagic] at hq hplace
    refine h (24 + q) (by omega) (by rw [Record.splitPos]; omega) ?_
    rw [pread, r.drop_bytes, hplace]
  · intro h q hle hlt hplace
    obtain ⟨k, rfl⟩ : ∃ k, q = 24 + k := ⟨q - 24, by omega⟩
    rw [Record.splitPos] at hlt
    rw [pread, r.drop_bytes] at hplace
    exact h (Marks.infix_of_take_drop (borderless_split F.domain) (by omega) hplace)

/-- The last position that is looked at is that of the SPLIT signature. -/
theorem Record.searchHi_eq (hlen : (r.bytes.length : ℤ) ≤ longMax) :
    searchHi r.bytes.length r.datasize = r.splitPos := by
  have hbytes := r.length_bytes
  have hbase : 24 ≤ r.splitPos := by
    rw [Record.splitPos]
    omega
  rw [searchHi, r.longOfU64_datasize hlen, r.toNat_datasize, if_pos (by omega),
    min_eq_right (by omega)]
  omega

/-- The scan up to the sizes. -/
theorem Record.run_peekSizes :
    peekMagics F.domain ⟨r.bytes, 0⟩ = (do
      let fsize ← sfFileSize
      check (24 ≤ searchHi fsize r.datasize)
      let splitPos ← sfFindSplitPos F.domain (searchHi fsize r.datasize - 24 + 1).toNat 24
      peekEnd F.domain (tpbRafBuildMagic .record F.domain .posStart) r.datasize fsize splitPos)
        ⟨r.bytes, 24⟩ := by
  have hstart : fread 8 ⟨r.bytes, 0⟩ =
      .ok (tpbRafBuildMagic .record F.domain .posStart) ⟨r.bytes, 8⟩ := by
    refine fread_run ?_ rfl
    rw [r.bytes_layout]
    exact pread_layout_magic
  have hmeta : readU64 ⟨r.bytes, 8⟩ = .ok (F.metasize r.attr) ⟨r.bytes, 16⟩ := by
    refine readU64_run ?_
    rw [r.bytes_layout]
    exact pread_layout_metasize
  have hdata : readU64 ⟨r.bytes, 16⟩ = .ok r.datasize ⟨r.bytes, 24⟩ := by
    refine readU64_run ?_
    rw [r.bytes_layout]
    exact pread_layout_datasize
  rw [peekMagics, bind_ok hstart, bind_ok (check_run (tpbRafValidateMagic_self _ _ _) _),
    bind_ok hmeta, bind_ok hdata]

/-- The scan up to the search. -/
theorem Record.run_peekMagics (hlen : (r.bytes.length : ℤ) ≤ longMax) :
    peekMagics F.domain ⟨r.bytes, 0⟩ = (do
      let splitPos ← sfFindSplitPos F.domain (r.splitPos - 23) 24
      peekEnd F.domain (tpbRafBuildMagic .record F.domain .posStart) r.datasize r.bytes.length
        splitPos) ⟨r.bytes, 24⟩ := by
  have hbase : 24 ≤ r.splitPos := by
    rw [Record.splitPos]
    omega
  have hsize : sfFileSize ⟨r.bytes, 24⟩ = .ok (r.bytes.length : ℤ) ⟨r.bytes, 24⟩ := by
    rw [sfFileSize, bind_ok (fstatSize_run _ _), bind_ok (check_run hlen _)]
    rfl
  have hcount : ((r.splitPos : ℤ) - 24 + 1).toNat = r.splitPos - 23 := by omega
  rw [r.run_peekSizes, bind_ok hsize, r.searchHi_eq hlen, bind_ok (check_run (by omega) _),
    hcount]

/-- A file whose size is no `long` cannot be scanned. -/
theorem Record.length_le_of_peekMagics {m : PeekedMagics} {s : Stream}
    (h : peekMagics F.domain ⟨r.bytes, 0⟩ = .ok m s) : (r.bytes.length : ℤ) ≤ longMax := by
  by_contra hlen
  have hsize : sfFileSize ⟨r.bytes, 24⟩ = .error .fail ⟨r.bytes, 24⟩ := by
    rw [sfFileSize, bind_ok (fstatSize_run _ _), bind_error (check_fail hlen _)]
  rw [r.run_peekSizes, bind_error hsize] at h
  cases h

/-- The position that is put out is the one that was found. -/
theorem splitPos_of_peekEnd {d : Domain} {startMagic : Bytes} {ds : UInt64} {fsize : ℤ} {p : ℕ}
    {m : PeekedMagics} {s s' : Stream} (h : peekEnd d startMagic ds fsize p s = .ok m s') :
    m.splitPos = p := by
  obtain ⟨_, s₁, -, h⟩ := bind_eq_ok.mp h
  split_ifs at h
  · cases h
  · obtain ⟨_, _, -, h⟩ := bind_eq_ok.mp h
    obtain ⟨_, _, -, h⟩ := bind_eq_ok.mp h
    obtain ⟨_, _, -, h⟩ := bind_eq_ok.mp h
    cases h
    rfl

/-- The rest of the scan, when it found the SPLIT signature of the record. -/
theorem Record.run_peekEnd (hlen : (r.bytes.length : ℤ) ≤ longMax) (startMagic : Bytes)
    (x : ℕ) :
    ∃ s, peekEnd F.domain startMagic r.datasize r.bytes.length r.splitPos ⟨r.bytes, x⟩ =
      .ok ⟨startMagic, tpbRafBuildMagic .record F.domain .posSplit,
        tpbRafBuildMagic .record F.domain .posEnd, r.splitPos,
        (r.splitPos + 8 + r.data.length : ℕ)⟩ s := by
  have hbytes := r.length_bytes
  have hsplit : sfReadMagicAt r.splitPos ⟨r.bytes, x⟩ =
      .ok (tpbRafBuildMagic .record F.domain .posSplit) ⟨r.bytes, r.splitPos + 8⟩ := by
    rw [sfReadMagicAt_run (by omega), r.pread_split]
  have hend : sfReadMagicAt (r.splitPos + 8 + r.data.length : ℕ) ⟨r.bytes, r.splitPos + 8⟩ =
      .ok (tpbRafBuildMagic .record F.domain .posEnd)
        ⟨r.bytes, r.splitPos + 8 + r.data.length + 8⟩ := by
    rw [sfReadMagicAt_run (by omega), r.pread_end]
  have hpos : (r.splitPos : ℤ) + 8 + r.data.length =
      (r.splitPos + 8 + r.data.length : ℕ) := by
    push_cast
    rfl
  refine ⟨⟨r.bytes, r.splitPos + 8 + r.data.length + 8⟩, ?_⟩
  rw [peekEnd, bind_ok hsplit, r.longOfU64_datasize hlen, hpos]
  rw [if_neg (by omega), bind_ok (check_run (by omega) _), bind_ok hend,
    bind_ok (check_run (tpbRafValidateMagic_self _ _ _) _)]
  rfl

/-- **The scan agrees with the readers** exactly on the files whose attributes and headers hold
no SPLIT signature. -/
theorem Record.peekMagics_agree_iff :
    (∃ m s, peekMagics F.domain ⟨r.bytes, 0⟩ = .ok m s ∧ m.Agree F r.bytes) ↔ r.Unmarked := by
  constructor
  · rintro ⟨m, s, hpeek, hagree⟩
    have hlen := r.length_le_of_peekMagics hpeek
    rw [r.run_peekMagics hlen] at hpeek
    obtain ⟨p, s₁, hfind, hend⟩ := bind_eq_ok.mp hpeek
    obtain ⟨x, s₂, hsplit, hpos⟩ := hagree.atSplit
    rw [r.run_readToSplit] at hsplit
    cases hsplit
    rw [splitPos_of_peekEnd hend] at hpos
    obtain rfl : r.splitPos = p := Int.ofNat.inj hpos
    exact ⟨r.split_first_iff.mp (pread_ne_of_sfFindSplitPos hfind), hlen⟩
  · rintro ⟨hmark, hlen⟩
    obtain ⟨s, hs⟩ := r.run_peekEnd hlen (tpbRafBuildMagic .record F.domain .posStart)
      (r.splitPos + 8)
    have hfind := sfFindSplitPos_run (n := r.splitPos - 23) (x := 24)
      (r.split_first_iff.mpr hmark) r.pread_split (by rw [Record.splitPos]; omega)
      (by omega) (by rw [r.length_bytes]; omega)
    refine ⟨_, s, (r.run_peekMagics hlen).trans (bind_then hfind hs), ?_⟩
    constructor
    · exact ⟨_, _, r.run_readToSplit, rfl⟩
    · intro wantData
      obtain ⟨y, hy⟩ := r.run_readToEnd hlen wantData
      exact ⟨y, _, hy, rfl⟩
    · rfl
    · rfl
    · rfl

/-- A peek that succeeds, and agrees with the readers of the file. -/
def PeekAgrees (F : RecordFormat α) (c : Bytes)
    (result : EStateM.Result Err Workspace PeekedMagics) : Prop :=
  ∃ m ws, result = .ok m ws ∧ m.Agree F c

/-- A record that was written is peeked at where it was written. -/
theorem Record.peekAgrees_iff (ws : Workspace) :
    PeekAgrees F r.bytes ((do
      recordWrite F r.attr r.headers r.buf r.datasize
      fopenRead .rafMisc (F.path r.attr) (peekMagics F.domain)) ws) ↔ r.Unmarked := by
  have hwrite : recordWrite F r.attr r.headers r.buf r.datasize ws =
      .ok () (ws.set (F.path r.attr) r.bytes) := rfl
  rw [bind_ok hwrite, ← r.peekMagics_agree_iff]
  constructor
  · rintro ⟨m, ws', hpeek, hagree⟩
    obtain ⟨-, f, s, hf, hm⟩ := fopenRead_eq_ok hpeek
    rw [Workspace.set_files_same] at hf
    obtain rfl : r.bytes = f := Option.some.inj hf
    exact ⟨m, s, hm, hagree⟩
  · rintro ⟨m, s, hpeek, hagree⟩
    exact ⟨m, _, fopenRead_ok (ws.set_files_same _ _) hpeek, hagree⟩

end Agreement

/-- Whatever a record holds that was written, the peek succeeds and finds the signatures where the
readers do, exactly if the attributes and headers hold no SPLIT signature and the size of the
file is a `long`. -/
theorem peekMagics_iff (ws : Workspace) (id : Id20) (n : Int32) :
    (∀ r : Record tbatchFormat, PeekAgrees tbatchFormat r.bytes ((do
        tpbRafRecordWriteTbatch r.attr r.headers r.buf r.datasize
        tpbRafRecordPeekMagics .tbatch r.attr.tbatchId n) ws) ↔ r.Unmarked) ∧
    (∀ r : Record kernelFormat, PeekAgrees kernelFormat r.bytes ((do
        tpbRafRecordWriteKernel r.attr r.headers r.buf r.datasize
        tpbRafRecordPeekMagics .kernel r.attr.kernelId n) ws) ↔ r.Unmarked) ∧
    (∀ r : Record taskFormat, PeekAgrees taskFormat r.bytes ((do
        tpbRafRecordWriteTask r.attr r.headers r.buf r.datasize
        tpbRafRecordPeekMagics .task r.attr.taskRecordId n) ws) ↔ r.Unmarked) ∧
    (∀ r : Record rtenvFormat, PeekAgrees rtenvFormat r.bytes ((do
        tpbRafRecordWriteRtenv r.attr r.headers r.buf r.datasize
        tpbRafRecordPeekMagics .rtenv id r.attr.id) ws) ↔ r.Unmarked) := by
  refine ⟨?_, ?_, ?_, ?_⟩
  · exact fun r => r.peekAgrees_iff ws
  · exact fun r => r.peekAgrees_iff ws
  · exact fun r => r.peekAgrees_iff ws
  · exact fun r => r.peekAgrees_iff ws

/-- An environment whose note is a SPLIT signature. -/
def markedRecord : Record rtenvFormat where
  attr := { RtenvAttr.zero with
    note := snprintfS 256 (tpbRafBuildMagic .record .rtenv .posSplit) }
  headers := []
  buf := none
  nheader_eq := nheader_nil
  ndim_le := ndim_le_nil
  data_lt := data_lt_none

/-- The note is part of the attributes. -/
theorem markedRecord_marked :
    tpbRafBuildMagic .record .rtenv .posSplit <:+: markedRecord.metadata := by
  decide +kernel

/-- It cannot be peeked at. -/
theorem peekMagics_markedRecord :
    ¬ ∀ r : Record rtenvFormat, PeekAgrees rtenvFormat r.bytes ((do
      tpbRafRecordWriteRtenv r.attr r.headers r.buf r.datasize
      tpbRafRecordPeekMagics .rtenv (zeroArr 20) r.attr.id) Workspace.empty) := by
  intro h
  have hiff := markedRecord.peekAgrees_iff Workspace.empty
  exact (hiff.mp (h markedRecord)).1 markedRecord_marked

end TPBench
