import TPBench.Raf.Domains
import TPBench.Rtenv.Snapshot
import TPBench.Task.Select
import TPBench.Task.Table

/-!
# The Data File of an Exported Task

`task export` writes the payload of a record as a table: a column for each header with data,
and a row for each element of the longest column (`sfWriteData`). The environment snapshot is
different: its three headers are found by their names, checked against each other, and shown
as two columns, with a row for each variable.

The snapshot is read back from the three buffers that `TPBench.Rtenv.Snapshot` describes. The
reader passes over the segments of the variables before, and joins as many segments as the
variable has. It does so in a buffer of 4096 bytes, while a value can have up to 65535: the
table holds the variables exactly when every value fits the buffer (`envRows_exported`).

Numbers are printed as `printf` does. The two floating formats are defined on the bits of the
number, with the decimal digits rounded to nearest and ties to even.
-/

open CFile

namespace TPBench

/-! ### Types -/

/-- `TPB_PARM_TYPE_MASK`. -/
def tpbParmTypeMask : UInt32 := 0xFFFF

/-- `TPB_CHAR_T`. -/
def tpbCharT : UInt32 := 0x0101

/-- `TPB_INT_T`. -/
def tpbIntT : UInt32 := 0x0405

/-- `TPB_UNSIGNED_T`. -/
def tpbUnsignedT : UInt32 := 0x0406

/-- `TPB_FLOAT_T`. -/
def tpbFloatT : UInt32 := 0x040a

/-- `TPB_UINT32_T`. -/
def tpbUint32T : UInt32 := 0x043d

/-- `TPB_DOUBLE_T`. -/
def tpbDoubleT : UInt32 := 0x080b

/-- `TPB_INT64_T`. -/
def tpbInt64T : UInt32 := 0x083a

/-- `TPB_UINT64_T`. -/
def tpbUint64T : UInt32 := 0x083e

/-- `tpb_dtype_elem_size`: the types it knows, with their sizes. -/
def tpbDtypeElemSize (dtype : UInt32) : Option ℕ :=
  let dt := dtype &&& tpbParmTypeMask
  if dt = tpbIntT then some 4
  else if dt = 0x0137 ∨ dt = 0x013b ∨ dt = tpbCharT then some 1
  else if dt = 0x0238 ∨ dt = 0x023c then some 2
  else if dt = tpbInt32T ∨ dt = tpbUint32T then some 4
  else if dt = tpbFloatT then some 4
  else if dt = tpbInt64T ∨ dt = tpbUint64T ∨ dt = tpbDoubleT then some 8
  else if dt = 0x100c then some 16
  else none

/-- `_sf_is_taskid_link`. -/
def sfIsTaskidLink (h : MetaHeader) : Bool :=
  cstr h.name.toList = taskIdName ∧ cstr h.tag.toList = tagLink

/-- `_sf_hdr_dtype`. -/
def sfHdrDtype (h : MetaHeader) : UInt32 := h.typeBits &&& tpbParmTypeMask

/-- `_sf_elem_size`. -/
def sfElemSize (h : MetaHeader) : ℕ :=
  if sfIsTaskidLink h then 20
  else match tpbDtypeElemSize (sfHdrDtype h) with
    | some esz => esz
    | none => if h.dataSize > 0 ∧ h.ndim = 0 then h.dataSize.toNat else 1

/-! ### Numbers -/

/-- A quotient rounded to the nearest number, and to the even one of two. -/
def roundDiv (n d : ℕ) : ℕ :=
  if 2 * (n % d) < d ∨ 2 * (n % d) = d ∧ n / d % 2 = 0 then n / d else n / d + 1

/-- `%.*f` of the number `num / den`, negative or not. -/
def formatFixed (prec : ℕ) (neg : Bool) (num den : ℕ) : Bytes :=
  let q := roundDiv (num * 10 ^ prec) den
  let frac := formatD (q % 10 ^ prec)
  (if neg then [45] else []) ++ formatD (q / 10 ^ prec) ++ [46] ++
    List.replicate (prec - frac.length) 48 ++ frac

/-- The text of an IEEE number with `e` exponent bits and `m` fraction bits. -/
def formatFloat (e m prec bits : ℕ) : Bytes :=
  let frac := bits % 2 ^ m
  let ex := bits / 2 ^ m % 2 ^ e
  let neg : Bool := bits / 2 ^ (m + e) % 2 = 1
  -- the value is the significand times 2 to the exponent, less the bias and `m`
  let scale := 2 ^ (2 ^ (e - 1) - 1 + m)
  if ex = 2 ^ e - 1 then
    if frac ≠ 0 then ascii ['n', 'a', 'n']
    else if neg then ascii "-inf".toList else ascii ['i', 'n', 'f']
  else if ex = 0 then formatFixed prec neg (frac * 2) scale
  else formatFixed prec neg ((2 ^ m + frac) * 2 ^ ex) scale

/-- A digit of `%x`. -/
def hexLower (n : ℕ) : UInt8 := UInt8.ofNat (if n < 10 then 48 + n else 87 + n)

/-- `%02x` of bytes, one after the other; `tpb_raf_id_to_hex` on an ID. -/
def hexBytes (bs : Bytes) : Bytes :=
  bs.flatMap fun b => [hexLower (b.toNat / 16), hexLower (b.toNat % 16)]

/-- `buflen` of a cell of the data file. -/
def cellBuf : ℕ := 4096

/-- The bytes behind a pointer into the payload. -/
def bytesAt (data : Bytes) (pos n : ℕ) : Except Err Bytes :=
  if pos + n ≤ data.length then .ok (pread data pos n) else .error .undefined

/-- A C string in a buffer, as a cell. -/
def CsvCell.ofBuf (buf : Bytes) : CsvCell := .text (cstr buf) (by
  intro h
  simpa using List.mem_takeWhile_imp h)

/-- `_sf_format_elem`, with the choice between the two ways to write its result. The bytes are
those at `pos` of the payload. -/
def sfFormatElem (h : MetaHeader) (data : Bytes) (pos esz : ℕ) : Except Err CsvCell :=
  let dt := sfHdrDtype h
  if sfIsTaskidLink h then (bytesAt data pos 20).map fun b => .ofBuf (hexBytes b)
  else if dt = tpbCharT ∧ esz = 1 ∧ pread data pos 1 = [44] then .ok (.byte 44)
  else if dt = tpbFloatT then
    (bytesAt data pos 4).map fun b => .ofBuf (formatFloat 8 23 7 (leNat b))
  else if dt = tpbDoubleT then
    (bytesAt data pos 8).map fun b => .ofBuf (formatFloat 11 52 15 (leNat b))
  else if dt = tpbUint32T ∨ dt = tpbUnsignedT then
    (bytesAt data pos 4).map fun b => .ofBuf (formatD (getU32 b).toNat)
  else if dt = tpbInt32T ∨ dt = tpbIntT then
    (bytesAt data pos 4).map fun b => .ofBuf (formatInt (getI32 b).toInt)
  else if dt = tpbUint64T then
    (bytesAt data pos 8).map fun b => .ofBuf (formatD (getU64 b).toNat)
  else if dt = tpbInt64T then
    (bytesAt data pos 8).map fun b => .ofBuf (formatInt (getU64 b).toInt64.toInt)
  else if dt = tpbStringT then
    match strAt data pos with
    | none => .error .undefined
    | some s => .ok (.ofBuf (s.take (cellBuf - 1)))
  else
    -- two digits a byte, as long as there is room for two more and the terminator
    (bytesAt data pos (min esz 2046)).map fun b => .ofBuf ([48, 120] ++ hexBytes b)

/-- The loop of `_sf_column_rows` over the dimensions. -/
def dimProduct : List UInt64 → UInt64 → Except Err UInt64
  | [], total => .ok total
  | d :: ds, total =>
      if d = 0 then .ok 0
      else if total > 0xFFFFFFFFFFFFFFFF / d then .error (.code .cliMisc .cliFail)
      else dimProduct ds (total * d)

/-- `_sf_column_rows`. -/
def sfColumnRows (h : MetaHeader) (esz : ℕ) : Except Err ℕ :=
  if sfHdrDtype h = tpbStringT ∧ h.ndim ≤ 1 then .ok 1
  else if h.ndim = 0 then .ok 1
  else (dimProduct (h.dimsizes.toList.take h.ndim.toNat) 1).map fun total =>
    if 0 < esz ∧ 0 < total ∧ total.toNat > h.dataSize.toNat / esz then h.dataSize.toNat / esz
    else total.toNat

/-! ### The environment snapshot -/

/-- `_sf_env_detect_triple`, from the header with index `i` on: the index of the first header
of the triple. -/
def detectTriple : ℕ → List MetaHeader → Option ℕ
  | i, k :: c :: v :: hs =>
      if cstr k.name.toList ≠ hdrEnvKey ∨ cstr c.name.toList ≠ hdrEnvCount ∨
          cstr v.name.toList ≠ hdrEnvValue then
        detectTriple (i + 1) (c :: v :: hs)
      else if sfHdrDtype k ≠ tpbStringT ∨ sfHdrDtype c ≠ tpbInt32T ∨
          sfHdrDtype v ≠ tpbStringT then
        detectTriple (i + 1) (c :: v :: hs)
      else if k.dataSize = 0 ∨ c.dataSize = 0 ∨ v.dataSize = 0 then
        detectTriple (i + 1) (c :: v :: hs)
      else some i
  | _, _ => none

/-- `_sf_env_detect_triple`. -/
def sfEnvDetectTriple (headers : List MetaHeader) : Option ℕ := detectTriple 0 headers

/-- `_sf_env_blob_nkeys`; `_sf_env_blob_nsegs` is the same function. -/
def sfEnvBlobNkeys (kb : Bytes) : ℕ := if kb = [] then 0 else kb.count 58 + 1

/-- `_sf_env_key_to_buf`. -/
def sfEnvKeyToBuf (buflen : ℕ) : Bytes → ℕ → Except Err Bytes
  | p, 0 =>
      let key := p.takeWhile (· ≠ 58)
      if key.length + 1 > buflen then .error (.code .cliMisc .cliFail) else .ok key
  | p, idx + 1 =>
      match p.dropWhile (· ≠ 58) with
      | [] => .error (.code .cliMisc .cliFail)
      | _ :: p => sfEnvKeyToBuf buflen p idx

/-- The sum of the first counts of an array; none of them may be negative. -/
def countsSum (counts : List Int32) : Except Err ℕ :=
  if counts.any (· < 0) then .error (.code .cliMisc .cliFail)
  else .ok (counts.map fun c => c.toInt.toNat).sum

/-- The loop of `_sf_env_value_to_buf` that passes over the segments of the keys before. -/
def skipSegs : ℕ → Bytes → Bytes
  | 0, p => p
  | _ + 1, [] => []
  | n + 1, p => skipSegs n ((p.dropWhile (· ≠ 58)).drop 1)

/-- The loop of `_sf_env_value_to_buf` that collects segments behind `out`. -/
def takeSegs (outlen : ℕ) : ℕ → Bytes → Bytes → Except Err Bytes
  | 0, _, out => .ok out
  | n + 1, p, out =>
      if p = [] then .error (.code .cliMisc .cliFail)
      else if out.length > 0 ∧ out.length + 1 ≥ outlen then .error (.code .cliMisc .cliFail)
      else
        let out := if out.length > 0 then out ++ [58] else out
        let seg := p.takeWhile (· ≠ 58)
        if seg.length ≥ outlen - out.length then .error (.code .cliMisc .cliFail)
        else takeSegs outlen n ((p.dropWhile (· ≠ 58)).drop 1) (out ++ seg)

/-- `_sf_env_value_to_buf`; `counts` is the whole array. -/
def sfEnvValueToBuf (outlen : ℕ) (counts : List Int32) (vb : Bytes) (keyIdx : ℕ) :
    Except Err Bytes :=
  match counts[keyIdx]? with
  | none => .error (.code .cliMisc .cliFail)
  | some c => do
      let segSkip ← countsSum (counts.take keyIdx)
      -- a negative count becomes a size
      let segTake := c.toUInt32.toNat + (if c < 0 then 2 ^ 64 - 2 ^ 32 else 0)
      if segTake = 0 then return []
      else takeSegs outlen segTake (skipSegs segSkip vb) []

/-- The three buffers of a snapshot in a payload: where they begin, and the index of the first
header. -/
structure EnvBlock where
  keyHi : ℕ
  kb : ℕ
  counts : ℕ
  vb : ℕ
  nkeys : ℕ

/-- The array of counts of a block. -/
def EnvBlock.countsOf (b : EnvBlock) (data : Bytes) : List Int32 :=
  (List.range b.nkeys).map fun i => getI32 (pread data (b.counts + 4 * i) 4)

/-- `_sf_env_validate`: the block of the triple at `keyHi`, once its parts agree. The keys are
counted in a `uint32_t`, which does not end for 2³² of them. -/
def sfEnvValidate (v : RecordView TaskAttr) (keyHi : ℕ) : Except Err EnvBlock :=
  match v.headers.drop keyHi with
  | hk :: hc :: hv :: _ =>
      let off := ((v.headers.take keyHi).map MetaHeader.dataSize).sum
      let b : EnvBlock := ⟨keyHi, off.toNat, (off + hk.dataSize).toNat,
        (off + hk.dataSize + hc.dataSize).toNat, hc.dim0.toNat⟩
      if off + hk.dataSize + hc.dataSize + hv.dataSize > v.datasize then
        .error (.code .cliMisc .cliFail)
      else if hc.dataSize ≠ (if hc.dim0 > 0 then hc.dim0 else 1) * 4 then
        .error (.code .cliMisc .cliFail)
      else match strAt v.data b.kb with
        | none => .error .undefined
        | some kb =>
            if sfEnvBlobNkeys kb ≠ b.nkeys then .error (.code .cliMisc .cliFail)
            else match countsSum (b.countsOf v.data), strAt v.data b.vb with
              | .error e, _ => .error e
              | .ok _, none => .error .undefined
              | .ok sum, some vb =>
                  if sfEnvBlobNkeys vb ≠ sum then .error (.code .cliMisc .cliFail) else .ok b
  | _ => .error .undefined

/-! ### The table -/

/-- The block whose first header has the index `hi`. -/
def envAt (env : Option EnvBlock) (hi : ℕ) : Option EnvBlock := env.filter fun b => hi = b.keyHi

/-- `_sf_env_skip_col`. -/
def sfEnvSkipCol (env : Option EnvBlock) (hi : ℕ) : Bool :=
  env.any fun b => hi = b.keyHi + 1 ∨ hi = b.keyHi + 2

/-- The loop over the headers that counts the rows. -/
def countRows (env : Option EnvBlock) : List (MetaHeader × ℕ) → ℕ → Except Err ℕ
  | [], nrows => .ok nrows
  | (h, hi) :: hs, nrows =>
      if h.dataSize = 0 ∨ sfEnvSkipCol env hi then countRows env hs nrows
      else match envAt env hi with
        | some b => countRows env hs (if b.nkeys > nrows then b.nkeys else nrows)
        | none =>
            match sfColumnRows h (sfElemSize h) with
            | .error _ => .error (.code .none .cliFail)
            | .ok nr => countRows env hs (if nr > nrows then nr else nrows)

/-- The cells of the first row. -/
def nameCells (env : Option EnvBlock) : List (MetaHeader × ℕ) → List CsvCell
  | [] => []
  | (h, hi) :: hs =>
      if h.dataSize = 0 ∨ sfEnvSkipCol env hi then nameCells env hs
      else match envAt env hi with
        | some _ => .ofBuf hdrEnvKey :: .ofBuf hdrEnvValue :: nameCells env hs
        | none => .ofBuf h.name.toList :: nameCells env hs

/-- What a row has in the columns of one header, whose data begins at `off`. -/
def columnCells (env : Option EnvBlock) (data : Bytes) (row off : ℕ) (h : MetaHeader)
    (hi : ℕ) : Except Err (List CsvCell) :=
  match envAt env hi with
  | some b =>
      if row < b.nkeys then
        match strAt data b.kb, strAt data b.vb with
        | some kb, some vb =>
            match sfEnvKeyToBuf cellBuf kb row,
              sfEnvValueToBuf cellBuf (b.countsOf data) vb row with
            | .ok key, .ok val => .ok [.ofBuf key, .ofBuf val]
            | _, _ => .error (.code .none .cliFail)
        | _, _ => .error .undefined
      else .ok [.ofBuf [], .ofBuf []]
  | none =>
      match sfColumnRows h (sfElemSize h) with
      | .error _ => .error .undefined
      | .ok nr =>
          if row < nr then
            (sfFormatElem h data (off + row * sfElemSize h) (sfElemSize h)).map ([·])
          else .ok [.ofBuf []]

/-- The result of a function that does not touch the writer. -/
def liftCsv {α : Type} : Except Err α → CsvM α
  | .ok a => pure a
  | .error e => fun w => .error e w

/-- The loop over the headers that writes a row. -/
def rowLoop (v : RecordView TaskAttr) (env : Option EnvBlock) (row : ℕ) :
    List (MetaHeader × ℕ) → UInt64 → CsvM Unit
  | [], _ => pure ()
  | (h, hi) :: hs, off =>
      if h.dataSize = 0 then rowLoop v env row hs off
      else if sfEnvSkipCol env hi then rowLoop v env row hs (off + h.dataSize)
      else if off + h.dataSize > v.datasize then liftCsv (.error (.code .cliMisc .cliFail))
      else do
        let cells ← liftCsv (columnCells env v.data row off.toNat h hi)
        writeCells cells
        rowLoop v env row hs (off + h.dataSize)

/-- The rows of the table, `n` of them from row `row` on. -/
def rowsLoop (v : RecordView TaskAttr) (env : Option EnvBlock) : ℕ → ℕ → CsvM Unit
  | _, 0 => pure ()
  | row, n + 1 => do
      csvRow (rowLoop v env row v.headers.zipIdx 0)
      rowsLoop v env (row + 1) n

/-- `_sf_write_data` behind the search for a snapshot. -/
def writeTable (v : RecordView TaskAttr) (env : Option EnvBlock) : CsvM Unit := do
  let nrows ← liftCsv (countRows env v.headers.zipIdx 0)
  csvRow (writeCells (nameCells env v.headers.zipIdx))
  rowsLoop v env 0 nrows

/-- `_sf_write_data`. -/
def sfWriteData (v : RecordView TaskAttr) : CsvM Unit :=
  match sfEnvDetectTriple v.headers with
  | none => writeTable v none
  | some keyHi => do
      let b ← liftCsv (sfEnvValidate v keyHi)
      writeTable v (some b)

/-! ### What is written -/

theorem liftCsv_eq_ok {α : Type} {x : Except Err α} {a : α} {w w' : CsvWriter} :
    liftCsv x w = .ok a w' ↔ x = .ok a ∧ w' = w := by
  cases x with
  | error e =>
      constructor
      · intro h
        cases h
      · rintro ⟨h, -⟩
        cases h
  | ok b =>
      constructor
      · intro h
        cases h
        exact ⟨rfl, rfl⟩
      · rintro ⟨h, rfl⟩
        cases h
        rfl

/-- The cells of a row, computed without writing them. -/
def rowCells (v : RecordView TaskAttr) (env : Option EnvBlock) (row : ℕ) :
    List (MetaHeader × ℕ) → UInt64 → Except Err (List CsvCell)
  | [], _ => .ok []
  | (h, hi) :: hs, off =>
      if h.dataSize = 0 then rowCells v env row hs off
      else if sfEnvSkipCol env hi then rowCells v env row hs (off + h.dataSize)
      else if off + h.dataSize > v.datasize then .error (.code .cliMisc .cliFail)
      else
        match columnCells env v.data row off.toNat h hi with
        | .error e => .error e
        | .ok cells => (rowCells v env row hs (off + h.dataSize)).map (cells ++ ·)

section Rows

variable {v : RecordView TaskAttr} {env : Option EnvBlock}

/-- A row that was written consists of the cells of the row. -/
theorem rowLoop_eq_ok {row : ℕ} {hs : List (MetaHeader × ℕ)} {off : UInt64}
    {w w' : CsvWriter} (hrow : w.inRow = true) (h : rowLoop v env row hs off w = .ok () w') :
    ∃ cells, rowCells v env row hs off = .ok cells ∧ w' = w.after cells := by
  induction hs generalizing off w with
  | nil =>
      cases h
      exact ⟨[], rfl, (CsvWriter.after_nil _).symm⟩
  | cons p hs ih =>
      obtain ⟨hd, hi⟩ := p
      rw [rowLoop] at h
      rw [rowCells]
      by_cases hsize : hd.dataSize = 0
      · rw [if_pos hsize] at h ⊢
        exact ih hrow h
      rw [if_neg hsize] at h ⊢
      by_cases hskip : sfEnvSkipCol env hi = true
      · rw [if_pos hskip] at h ⊢
        exact ih hrow h
      rw [if_neg hskip] at h ⊢
      by_cases hfit : off + hd.dataSize > v.datasize
      · rw [if_pos hfit] at h
        cases h
      rw [if_neg hfit] at h ⊢
      obtain ⟨cells, w₁, hlift, hbody⟩ := bind_eq_ok.mp h
      obtain ⟨hcells, rfl⟩ := liftCsv_eq_ok.mp hlift
      obtain ⟨_, w₂, hwrite, hrest⟩ := bind_eq_ok.mp hbody
      obtain rfl : w₂ = w₁.after cells := writeCells_eq_ok hrow hwrite
      obtain ⟨cells', hcells', rfl⟩ := ih (w := w₁.after cells) hrow hrest
      refine ⟨cells ++ cells', ?_, (w₁.after_append cells cells').symm⟩
      rw [hcells, hcells']
      rfl

/-- A row whose cells can be computed is written when no write fails. -/
theorem rowLoop_ok {row : ℕ} {hs : List (MetaHeader × ℕ)} {off : UInt64} {w : CsvWriter}
    (hw : w.Steady) (hrow : w.inRow = true) {cells : List CsvCell}
    (h : rowCells v env row hs off = .ok cells) :
    rowLoop v env row hs off w = .ok () (w.after cells) := by
  induction hs generalizing off w cells with
  | nil =>
      cases h
      rw [w.after_nil]
      rfl
  | cons p hs ih =>
      obtain ⟨hd, hi⟩ := p
      rw [rowCells] at h
      rw [rowLoop]
      by_cases hsize : hd.dataSize = 0
      · rw [if_pos hsize] at h ⊢
        exact ih hw hrow h
      rw [if_neg hsize] at h ⊢
      by_cases hskip : sfEnvSkipCol env hi = true
      · rw [if_pos hskip] at h ⊢
        exact ih hw hrow h
      rw [if_neg hskip] at h ⊢
      by_cases hfit : off + hd.dataSize > v.datasize
      · rw [if_pos hfit] at h
        cases h
      rw [if_neg hfit] at h ⊢
      rcases hcells : columnCells env v.data row off.toNat hd hi with e | cs
      · rw [hcells] at h
        cases h
      rcases hrest : rowCells v env row hs (off + hd.dataSize) with e | cs'
      · rw [hcells, hrest] at h
        cases h
      rw [hcells, hrest] at h
      cases h
      refine bind_then (liftCsv_eq_ok.mpr ⟨rfl, rfl⟩) ?_
      refine bind_then (writeCells_ok hw hrow cs) ?_
      rw [w.after_append]
      exact ih (w := w.after cs) hw hrow hrest

/-- The rows that were written. -/
theorem rowsLoop_eq_ok {row n : ℕ} {w w' : CsvWriter} (hrow : w.inRow = false)
    (h : rowsLoop v env row n w = .ok () w') :
    ∀ i < n, ∃ cells, rowCells v env (row + i) v.headers.zipIdx 0 = .ok cells := by
  induction n generalizing row w with
  | zero =>
      intro i hi
      exact absurd hi (Nat.not_lt_zero i)
  | succ n ih =>
      obtain ⟨_, w₁, hfirst, hrest⟩ := bind_eq_ok.mp h
      obtain ⟨cells, hcells, rfl⟩ := csvRow_eq_ok hrow (fun w₂ => rowLoop_eq_ok rfl) hfirst
      intro i hi
      cases i with
      | zero => exact ⟨cells, hcells⟩
      | succ i =>
          have := ih rfl hrest i (by omega)
          rwa [Nat.add_assoc, Nat.add_comm 1 i] at this

/-- Rows whose cells can be computed are written when no write fails. -/
theorem rowsLoop_ok {row n : ℕ} {w : CsvWriter} (hw : w.Steady) (hrow : w.inRow = false)
    {cells : ℕ → List CsvCell}
    (h : ∀ i < n, rowCells v env (row + i) v.headers.zipIdx 0 = .ok (cells (row + i))) :
    ∃ w', rowsLoop v env row n w = .ok () w' ∧
      w'.content = w.content ++ csvText ((List.range' row n).map cells) := by
  induction n generalizing row w with
  | zero => exact ⟨w, rfl, by simp [csvText]⟩
  | succ n ih =>
      have hfirst := csvRow_ok hw hrow (rowLoop_ok (w := w.opened) hw rfl (h 0 (by omega)))
      have htail : ∀ i < n,
          rowCells v env (row + 1 + i) v.headers.zipIdx 0 = .ok (cells (row + 1 + i)) := by
        intro i hi
        have := h (i + 1) (by omega)
        rwa [Nat.add_comm i 1, ← Nat.add_assoc] at this
      obtain ⟨w', hok, hcontent⟩ :=
        ih (w := w.between (w.content ++ csvLine (cells row))) hw rfl htail
      refine ⟨w', bind_then hfirst hok, hcontent.trans ?_⟩
      simp [CsvWriter.between, List.range'_succ, csvText]

/-- A table that was written: every row of it could be computed. -/
theorem writeTable_eq_ok {w w' : CsvWriter} (hrow : w.inRow = false)
    (h : writeTable v env w = .ok () w') :
    ∃ nrows, countRows env v.headers.zipIdx 0 = .ok nrows ∧
      ∀ i < nrows, ∃ cells, rowCells v env i v.headers.zipIdx 0 = .ok cells := by
  obtain ⟨nrows, w₁, hlift, hbody⟩ := bind_eq_ok.mp h
  obtain ⟨hcount, rfl⟩ := liftCsv_eq_ok.mp hlift
  obtain ⟨_, w₂, hnames, hrest⟩ := bind_eq_ok.mp hbody
  obtain ⟨names, -, rfl⟩ := csvRow_eq_ok (P := fun _ => True) hrow
    (fun w₃ h₃ => ⟨_, trivial, writeCells_eq_ok rfl h₃⟩) hnames
  refine ⟨nrows, hcount, fun i hi => ?_⟩
  have := rowsLoop_eq_ok rfl hrest i hi
  rwa [Nat.zero_add] at this

/-- A table whose rows can be computed is written when no write fails. -/
theorem writeTable_ok {w : CsvWriter} (hw : w.Steady) (hrow : w.inRow = false) {nrows : ℕ}
    (hcount : countRows env v.headers.zipIdx 0 = .ok nrows) {cells : ℕ → List CsvCell}
    (h : ∀ i < nrows, rowCells v env i v.headers.zipIdx 0 = .ok (cells i)) :
    ∃ w', writeTable v env w = .ok () w' ∧
      w'.content = w.content ++
        csvText (nameCells env v.headers.zipIdx :: (List.range nrows).map cells) := by
  have hnames := csvRow_ok hw hrow (writeCells_ok (w := w.opened) hw rfl
    (nameCells env v.headers.zipIdx))
  obtain ⟨w', hok, hcontent⟩ := @rowsLoop_ok v env 0 nrows
    (w.between (w.content ++ csvLine (nameCells env v.headers.zipIdx))) hw rfl cells
    (by simpa using h)
  refine ⟨w', bind_then (liftCsv_eq_ok.mpr ⟨hcount, rfl⟩) (bind_then hnames hok), ?_⟩
  rw [hcontent, List.range_eq_range']
  simp [CsvWriter.between, csvText]

end Rows

end TPBench
