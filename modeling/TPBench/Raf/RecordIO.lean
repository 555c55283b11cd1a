import TPBench.Raf.Types

/-!
# Record Files

A `.tpbr` record file consists of a START magic, the sizes of its two parts, the fixed
attributes of the object, a list of meta headers, a SPLIT magic, the payload and an
END magic. The four domains differ in the attributes only, so the file is described
once, over a `RecordFormat`: the attribute type with its encoder, its decoder, and the
proof that the decoder reads back what the encoder wrote. A format without that proof
cannot be built, and each domain supplies its own.

`Record F` bundles what a caller hands to the writer of a format: the attributes, as
many headers as they announce, each with at most `TPBM_DATA_NDIM_MAX` dimensions, and
the payload buffer. `Record.view` is what comes back: the same value with the headers
in the form the reader stores them (`MetaHeader.norm`).

The round trip `reads_readRecord` follows the reader through the file: the header list
has no delimiter, and each header is as long as its own `ndim` says, so the positions
of everything behind it depend on the headers before.
-/

open CFile

namespace TPBench

/-! ### Meta headers -/

/-- `TPB_RAF_HDR_FIXED_SIZE`. -/
def hdrFixedSize : UInt32 := 3096

/-- `TPBM_DATA_NDIM_MAX`, the number of slots of `dimsizes` and `dimnames`. -/
abbrev ndimMax : ℕ := 7

instance neZeroNdimMax : NeZero ndimMax := ⟨Nat.succ_ne_zero 6⟩

/-- The metadata header of one block of record data, `tpb_meta_header_t`. -/
structure MetaHeader where
  blockSize : UInt32
  ndim : UInt32
  dataSize : UInt64
  typeBits : UInt32
  reserve : UInt32
  uattrBits : UInt64
  name : CArr 256
  tag : CArr 256
  note : CArr 2048
  dimsizes : List.Vector UInt64 ndimMax
  dimnames : List.Vector (CArr 64) ndimMax
  deriving DecidableEq

/-- A header with every byte zero, as `memset` leaves it. -/
def MetaHeader.zero : MetaHeader where
  blockSize := 0
  ndim := 0
  dataSize := 0
  typeBits := 0
  reserve := 0
  uattrBits := 0
  name := zeroArr 256
  tag := zeroArr 256
  note := zeroArr 2048
  dimsizes := List.Vector.replicate ndimMax 0
  dimnames := List.Vector.replicate ndimMax (zeroArr 64)

/-- `dimsizes[0]`. -/
def MetaHeader.dim0 (h : MetaHeader) : UInt64 := h.dimsizes.get 0

/-- The header with `dimsizes[0]` replaced. -/
def MetaHeader.setDim0 (h : MetaHeader) (v : UInt64) : MetaHeader :=
  { h with dimsizes := h.dimsizes.set 0 v }

/-- The blocks the writer emits for the scalars and texts of one header, in order.
`block_size` is not taken from the header. -/
def MetaHeader.fixed (h : MetaHeader) : Bytes :=
  [u32 hdrFixedSize, u32 h.ndim, u64 h.dataSize, u32 h.typeBits, u32 h.reserve,
    u64 h.uattrBits, h.name.toList, h.tag.toList, h.note.toList].flatten

/-- The two loops over the dimensions of one header. -/
def MetaHeader.dims (h : MetaHeader) : Bytes :=
  (h.dimsizes.toList.take h.ndim.toNat).flatMap u64 ++
    (h.dimnames.toList.take h.ndim.toNat).flatMap List.Vector.toList

/-- The bytes of one header. -/
def MetaHeader.encode (h : MetaHeader) : Bytes := h.fixed ++ h.dims

/-- `_tpb_raf_l1_write_headers`. -/
def tpbRafL1WriteHeaders (hdrs : List MetaHeader) : Bytes := hdrs.flatMap MetaHeader.encode

/-- The body of the loop of `_tpb_raf_l1_read_headers`, on a zeroed header. The number
of dimensions is not compared with the number of slots. -/
def readHeader : FileM MetaHeader := do
  let blockSize ← readU32
  let ndim ← readU32
  let dataSize ← readU64
  let typeBits ← readU32
  let reserve ← readU32
  let uattrBits ← readU64
  let name ← readArr 256
  let tag ← readArr 256
  let note ← readArr 2048
  let dimsizes ← readInto readU64 ndimMax ndim.toNat
  let dimnames ← readInto (readArr 64) ndimMax ndim.toNat
  return {
    blockSize, ndim, dataSize, typeBits, reserve, uattrBits, name, tag, note
    dimsizes := fillVec 0 ndimMax dimsizes
    dimnames := fillVec (zeroArr 64) ndimMax dimnames }

/-- `_tpb_raf_l1_read_headers`. -/
def tpbRafL1ReadHeaders (n : UInt32) : FileM (List MetaHeader) := readN n.toNat readHeader

/-- `_tpb_raf_l1_hdr_serialized_len_at`: the length of the header at `hdrBase`, from
its stored number of dimensions. -/
def tpbRafL1HdrSerializedLenAt (hdrBase : ℤ) : FileM ℤ := do
  fseek (hdrBase + 4)
  let ndim ← readU32
  return 32 + 256 + 256 + 2048 + ndim.toNat * 8 + ndim.toNat * 64

/-- The header as the reader stores it: the fixed block size, and zero in the slots the
header does not use. -/
def MetaHeader.norm (h : MetaHeader) : MetaHeader :=
  { h with
    blockSize := hdrFixedSize
    dimsizes := fillVec 0 ndimMax (h.dimsizes.toList.take h.ndim.toNat)
    dimnames := fillVec (zeroArr 64) ndimMax (h.dimnames.toList.take h.ndim.toNat) }

@[simp] theorem MetaHeader.length_fixed (h : MetaHeader) : h.fixed.length = 2592 := by
  simp [MetaHeader.fixed]

/-- The length of the dimension part. -/
theorem MetaHeader.length_dims {h : MetaHeader} (hn : h.ndim.toNat ≤ ndimMax) :
    h.dims.length = h.ndim.toNat * 8 + h.ndim.toNat * 64 := by
  have hlen : min h.ndim.toNat ndimMax = h.ndim.toNat := min_eq_left hn
  simp [MetaHeader.dims, List.length_flatMap, hlen]

/-- The length the source computes for a header is the length of its bytes. -/
theorem MetaHeader.length_encode {h : MetaHeader} (hn : h.ndim.toNat ≤ ndimMax) :
    h.encode.length = 32 + 256 + 256 + 2048 + h.ndim.toNat * 8 + h.ndim.toNat * 64 := by
  rw [MetaHeader.encode, List.length_append, h.length_fixed, MetaHeader.length_dims hn]
  ring

/-- A loop that stores the used slots of an array reads back exactly these. -/
theorem reads_slots {α : Type} {m : FileM α} {enc : α → Bytes} (hm : ∀ a, Reads m (enc a) a)
    (v : List.Vector α ndimMax) {n : ℕ} (hn : n ≤ ndimMax) :
    Reads (readInto m ndimMax n) ((v.toList.take n).flatMap enc) (v.toList.take n) := by
  have hlen : (v.toList.take n).length = n := by
    rw [List.length_take, v.toList_length]
    exact min_eq_left hn
  have h : Reads (readN (v.toList.take n).length m) ((v.toList.take n).flatMap enc)
      ((v.toList.take n).map id) := reads_readN (v.toList.take n) fun a _ => hm a
  rw [hlen, List.map_id] at h
  rwa [readInto_eq_readN m hn]

/-- The reader of one header reads what the writer of one header wrote. -/
theorem reads_readHeader {h : MetaHeader} (hn : h.ndim.toNat ≤ ndimMax) :
    Reads readHeader h.encode h.norm := by
  simp only [MetaHeader.encode, MetaHeader.fixed, MetaHeader.dims, List.flatten_cons,
    List.flatten_nil, List.append_nil, List.append_assoc]
  refine (reads_readU32 _).bind ?_
  refine (reads_readU32 _).bind ?_
  refine (reads_readU64 _).bind ?_
  refine (reads_readU32 _).bind ?_
  refine (reads_readU32 _).bind ?_
  refine (reads_readU64 _).bind ?_
  refine (reads_readArr _).bind ?_
  refine (reads_readArr _).bind ?_
  refine (reads_readArr _).bind ?_
  refine (reads_slots reads_readU64 h.dimsizes hn).bind ?_
  exact (reads_slots reads_readArr h.dimnames hn).map _

/-- The header list is read back header by header. -/
theorem reads_tpbRafL1ReadHeaders {hs : List MetaHeader} {n : UInt32} (hl : hs.length = n.toNat)
    (hn : ∀ h ∈ hs, h.ndim.toNat ≤ ndimMax) :
    Reads (tpbRafL1ReadHeaders n) (tpbRafL1WriteHeaders hs) (hs.map MetaHeader.norm) := by
  rw [tpbRafL1ReadHeaders, ← hl]
  exact reads_readN hs fun h hh => reads_readHeader (hn h hh)

/-! ### The sizes of the payload -/

/-- The number of payload bytes the headers claim. -/
def claimed (hdrs : List MetaHeader) : ℕ := (hdrs.map fun h => h.dataSize.toNat).sum

theorem claimed_nil : claimed [] = 0 := rfl

theorem claimed_cons (h : MetaHeader) (hs : List MetaHeader) :
    claimed (h :: hs) = h.dataSize.toNat + claimed hs := rfl

theorem claimed_append (hs hs' : List MetaHeader) :
    claimed (hs ++ hs') = claimed hs + claimed hs' := by
  simp [claimed]

/-- The sum of the sizes is what the headers claim, unless it overflows. -/
theorem toNat_sum_dataSize {hs : List MetaHeader} (h : claimed hs < 2 ^ 64) :
    (hs.map MetaHeader.dataSize).sum.toNat = claimed hs := by
  induction hs with
  | nil => rfl
  | cons x hs ih =>
      rw [claimed_cons] at h ⊢
      rw [List.map_cons, List.sum_cons, UInt64.toNat_add, ih (by omega), Nat.mod_eq_of_lt h]

/-! ### Formats -/

/-- The description of the record files of one domain: where a record is stored, and
the encoder and decoder of its fixed attributes, which invert each other. -/
structure RecordFormat (α : Type) where
  domain : Domain
  mod : Module
  path : α → Path
  metasize : α → UInt64
  nheader : α → UInt32
  encode : α → Bytes
  decode : FileM α
  reads_decode : ∀ a, Reads decode (encode a) a

section Format

variable {α : Type} (F : RecordFormat α)

/-- The payload block of `_tpb_raf_l1_write_magic_and_data`, `none` being the null
pointer. -/
def payload (data : Option Bytes) (datasize : UInt64) : Bytes :=
  match data with
  | some d => if 0 < datasize then d.take datasize.toNat else []
  | none => []

/-- `_tpb_raf_l1_write_magic_and_data`. -/
def tpbRafL1WriteMagicAndData (domain : Domain) (data : Option Bytes) (datasize : UInt64) :
    Bytes :=
  tpbRafBuildMagic .record domain .posSplit ++
    (payload data datasize ++ tpbRafBuildMagic .record domain .posEnd)

/-- The bytes in front of the headers. -/
def RecordFormat.front (a : α) (datasize : UInt64) : Bytes :=
  tpbRafBuildMagic .record F.domain .posStart ++
    (u64 (F.metasize a) ++ (u64 datasize ++ F.encode a))

/-- The file a `tpb_raf_record_write_*` function writes: the common body of the four
writers. -/
def recordBytes (a : α) (headers : List MetaHeader) (data : Option Bytes)
    (datasize : UInt64) : Bytes :=
  F.front a datasize ++ (tpbRafL1WriteHeaders (headers.take (F.nheader a).toNat) ++
    tpbRafL1WriteMagicAndData F.domain data datasize)

/-- The common body of the four `tpb_raf_record_write_*` functions. -/
def recordWrite (a : α) (headers : List MetaHeader) (data : Option Bytes)
    (datasize : UInt64) : WsM Unit :=
  fopenWrite (F.path a) (recordBytes F a headers data datasize)

/-- What a `tpb_raf_record_read_*` function returns. The payload is empty and its size
zero when the caller passed no buffer for it. -/
structure RecordView (α : Type) where
  attr : α
  headers : List MetaHeader
  datasize : UInt64
  data : Bytes
  deriving DecidableEq

/-- The conversion of a `uint64_t` to `long`. -/
def longOfU64 (v : UInt64) : ℤ := v.toBitVec.toInt

/-- `fseek(fp, off, SEEK_CUR)`. -/
def fseekCur (off : ℤ) : FileM Unit := fun s => fseek (s.pos + off) s

/-- The payload part of the readers: read it, or pass over it when the caller did not
ask for it. -/
def readPayload (wantData : Bool) (ds : UInt64) : FileM Bytes :=
  if wantData then fread ds.toNat else do
    fseekCur (longOfU64 ds)
    return []

/-- The common body of the four `tpb_raf_record_read_*` functions; `wantData` says that
the caller asked for the payload. -/
def readRecord (wantData : Bool) : FileM (RecordView α) := do
  let magic ← fread 8
  check (tpbRafValidateMagic magic .record F.domain .posStart)
  let _metasize ← readU64
  let ds ← readU64
  let attr ← F.decode
  let headers ← tpbRafL1ReadHeaders (F.nheader attr)
  let magic ← fread 8
  check (tpbRafValidateMagic magic .record F.domain .posSplit)
  let data ← readPayload wantData ds
  let magic ← fread 8
  check (tpbRafValidateMagic magic .record F.domain .posEnd)
  return ⟨attr, headers, if wantData then ds else 0, data⟩

/-- Open the record at `p` and read it. -/
def recordRead (p : Path) (wantData : Bool) : WsM (RecordView α) :=
  fopenRead F.mod p (readRecord F wantData)

/-- A block that was read has the length that was asked for. -/
theorem length_of_fread {k : ℕ} {bs : Bytes} {s s' : Stream} (h : fread k s = .ok bs s') :
    bs.length = k := by
  unfold fread freadTry at h
  split_ifs at h with hlen
  cases h
  exact hlen

/-- **The shape of what is read**: the header array and the payload have the sizes that the
file says. -/
theorem shape_of_readRecord {v : RecordView α} {s s' : Stream}
    (h : readRecord F true s = .ok v s') :
    v.headers.length = (F.nheader v.attr).toNat ∧ v.data.length = v.datasize.toNat := by
  unfold readRecord at h
  obtain ⟨_, _, -, h⟩ := bind_eq_ok.mp h
  obtain ⟨_, _, -, h⟩ := bind_eq_ok.mp h
  obtain ⟨_, _, -, h⟩ := bind_eq_ok.mp h
  obtain ⟨ds, _, -, h⟩ := bind_eq_ok.mp h
  obtain ⟨attr, _, -, h⟩ := bind_eq_ok.mp h
  obtain ⟨headers, _, hheaders, h⟩ := bind_eq_ok.mp h
  obtain ⟨_, _, -, h⟩ := bind_eq_ok.mp h
  obtain ⟨_, _, -, h⟩ := bind_eq_ok.mp h
  obtain ⟨data, _, hdata, h⟩ := bind_eq_ok.mp h
  obtain ⟨_, _, -, h⟩ := bind_eq_ok.mp h
  obtain ⟨_, _, -, h⟩ := bind_eq_ok.mp h
  cases h
  exact ⟨length_readN hheaders, length_of_fread hdata⟩

/-! ### Records -/

/-- What a caller hands to the writer of a format: as many headers as the attributes
announce, each with at most `ndimMax` dimensions, and a payload buffer that may be null
when there is no payload. -/
structure Record where
  attr : α
  headers : List MetaHeader
  buf : Option Bytes
  nheader_eq : headers.length = (F.nheader attr).toNat
  ndim_le : ∀ h ∈ headers, h.ndim.toNat ≤ ndimMax
  data_lt : (buf.getD []).length < 2 ^ 64

theorem nheader_nil : ([] : List MetaHeader).length = (0 : UInt32).toNat := rfl

theorem ndim_le_nil : ∀ h ∈ ([] : List MetaHeader), h.ndim.toNat ≤ ndimMax := by
  intro h hh
  cases hh

theorem data_lt_none : ((none : Option Bytes).getD []).length < 2 ^ 64 := Nat.two_pow_pos 64

variable {F}

/-- The payload. -/
def Record.data (r : Record F) : Bytes := r.buf.getD []

/-- The payload size the caller passes. -/
def Record.datasize (r : Record F) : UInt64 := UInt64.ofNat r.data.length

/-- The file of a record. -/
def Record.bytes (r : Record F) : Bytes := recordBytes F r.attr r.headers r.buf r.datasize

/-- The value of a record as the reader returns it. -/
def Record.view (r : Record F) : RecordView α where
  attr := r.attr
  headers := r.headers.map MetaHeader.norm
  datasize := r.datasize
  data := r.data

theorem Record.toNat_datasize (r : Record F) : r.datasize.toNat = r.data.length := by
  rw [Record.datasize, UInt64.toNat_ofNat']
  exact Nat.mod_eq_of_lt r.data_lt

/-- The payload block of a record is its payload. -/
theorem Record.payload_eq (r : Record F) : payload r.buf r.datasize = r.data := by
  have hsize := r.toNat_datasize
  rcases hb : r.buf with - | d
  · simp [payload, Record.data, hb]
  · have hd : r.data = d := by simp [Record.data, hb]
    rw [hd] at hsize ⊢
    by_cases hpos : 0 < r.datasize
    · simp [payload, hpos, hsize]
    · have hzero : d.length = 0 := by
        rw [UInt64.lt_iff_toNat_lt, UInt64.toNat_zero] at hpos
        omega
      rw [List.length_eq_zero_iff.mp hzero]
      simp [payload]

/-- The file of a record, block by block. -/
theorem Record.bytes_eq (r : Record F) :
    r.bytes = F.front r.attr r.datasize ++ (tpbRafL1WriteHeaders r.headers ++
      (tpbRafBuildMagic .record F.domain .posSplit ++
        (r.data ++ tpbRafBuildMagic .record F.domain .posEnd))) := by
  rw [Record.bytes, recordBytes, tpbRafL1WriteMagicAndData, r.payload_eq, ← r.nheader_eq,
    List.take_length]

/-- The reader of a format on the file of a record, whatever it does with the payload. -/
theorem reads_readRecord_of (r : Record F) {wantData : Bool} {data : Bytes}
    (hdata : Reads (readPayload wantData r.datasize) r.data data) :
    Reads (readRecord F wantData) r.bytes
      ⟨r.attr, r.headers.map MetaHeader.norm, if wantData then r.datasize else 0, data⟩ := by
  rw [r.bytes_eq, RecordFormat.front]
  simp only [List.append_assoc]
  refine reads_magic _ _ _ ?_
  refine (reads_readU64 _).bind ?_
  refine (reads_readU64 _).bind ?_
  refine (F.reads_decode _).bind ?_
  refine (reads_tpbRafL1ReadHeaders r.nheader_eq r.ndim_le).bind ?_
  refine reads_magic _ _ _ ?_
  refine hdata.bind ?_
  rw [← List.append_nil (tpbRafBuildMagic .record F.domain .posEnd)]
  exact reads_magic _ _ _ (Reads.pure _)

/-- **The round trip of record files**: the reader of a format returns the view of the
record whose file it reads. -/
theorem reads_readRecord (r : Record F) : Reads (readRecord F true) r.bytes r.view :=
  @reads_readRecord_of _ _ r true _ (reads_fread r.toNat_datasize.symm)

/-- A workspace that holds the file of a record at a path reads it back there. -/
theorem recordRead_of_bytes {r : Record F} {ws : Workspace} {p : Path}
    (h : ws.files p = some r.bytes) : recordRead F p true ws = .ok r.view ws :=
  fopenRead_ok h (reads_readRecord r).run

/-- Writing a record and reading it where it was written returns its view. -/
theorem recordRead_recordWrite (r : Record F) (ws : Workspace) :
    (do recordWrite F r.attr r.headers r.buf r.datasize
        recordRead F (F.path r.attr) true) ws =
      .ok r.view (ws.set (F.path r.attr) r.bytes) := by
  have hw : recordWrite F r.attr r.headers r.buf r.datasize ws =
      .ok () (ws.set (F.path r.attr) r.bytes) := rfl
  rw [bind_ok hw]
  exact recordRead_of_bytes (ws.set_files_same _ _)

end Format

/-! ### The parts of a record file

`layout` is the record file as four independent parts: the sizes and attributes, the bytes
of the headers, the payload and the magics. The lemmas say which part an access at a
computed position reaches. -/

section Layout

variable {α : Type} {F : RecordFormat α}

/-- A record file with the given attributes, payload size, header bytes and payload. -/
def layout (F : RecordFormat α) (a : α) (ds : UInt64) (hdrs data : Bytes) : Bytes :=
  F.front a ds ++ (hdrs ++ (tpbRafBuildMagic .record F.domain .posSplit ++
    (data ++ tpbRafBuildMagic .record F.domain .posEnd)))

theorem Record.bytes_layout (r : Record F) :
    r.bytes = layout F r.attr r.datasize (tpbRafL1WriteHeaders r.headers) r.data :=
  r.bytes_eq

/-- Three words stand in front of the attributes. -/
theorem RecordFormat.length_front (F : RecordFormat α) (a : α) (ds : UInt64) :
    (F.front a ds).length = 24 + (F.encode a).length := by
  simp only [RecordFormat.front, List.length_append, length_tpbRafBuildMagic, length_u64]
  omega

variable {a : α} {ds : UInt64} {hdrs data bs : Bytes} {base off k : ℕ}

theorem pread_layout_magic :
    pread (layout F a ds hdrs data) 0 8 = tpbRafBuildMagic .record F.domain .posStart := by
  rw [layout, RecordFormat.front]
  simp only [List.append_assoc]
  exact pread_append_self rfl

theorem pread_layout_metasize :
    pread (layout F a ds hdrs data) 8 8 = u64 (F.metasize a) := by
  rw [layout, RecordFormat.front]
  simp only [List.append_assoc]
  rw [pread_append_right (by simp)]
  exact pread_append_self (length_u64 _)

theorem pread_layout_datasize : pread (layout F a ds hdrs data) 16 8 = u64 ds := by
  rw [layout, RecordFormat.front]
  simp only [List.append_assoc]
  rw [pread_append_right (by simp), pread_append_right (by simp)]
  exact pread_append_self (length_u64 _)

/-- The payload size stands at offset 16. -/
theorem pwrite_layout_datasize (ds' : UInt64) :
    pwrite (layout F a ds hdrs data) 16 (u64 ds') = layout F a ds' hdrs data := by
  rw [layout, layout, RecordFormat.front, RecordFormat.front]
  simp only [List.append_assoc]
  rw [pwrite_append_right (by simp), pwrite_append_right (by simp)]
  simp only [length_tpbRafBuildMagic, length_u64, Nat.reduceSub]
  rw [pwrite_append_self (by simp)]

theorem pread_layout_attr (h : off + k ≤ (F.encode a).length) :
    pread (layout F a ds hdrs data) (24 + off) k = pread (F.encode a) off k := by
  rw [layout, RecordFormat.front]
  simp only [List.append_assoc]
  rw [pread_append_right (by simp; omega), pread_append_right (by simp; omega),
    pread_append_right (by simp; omega)]
  simp only [length_tpbRafBuildMagic, length_u64]
  rw [show 24 + off - 8 - 8 - 8 = off by omega, pread_append_left h]

/-- Overwriting a block of the attributes with the block other attributes have there. -/
theorem pwrite_layout_attr {a' : α} (hm : F.metasize a' = F.metasize a)
    (hlen : off + bs.length ≤ (F.encode a).length)
    (h : pwrite (F.encode a) off bs = F.encode a') :
    pwrite (layout F a ds hdrs data) (24 + off) bs = layout F a' ds hdrs data := by
  rw [layout, layout, RecordFormat.front, RecordFormat.front, hm]
  simp only [List.append_assoc]
  rw [pwrite_append_right (by simp; omega), pwrite_append_right (by simp; omega),
    pwrite_append_right (by simp; omega)]
  simp only [length_tpbRafBuildMagic, length_u64]
  rw [show 24 + off - 8 - 8 - 8 = off by omega, pwrite_append_left hlen, h]

/-- A block of the headers. -/
theorem pread_layout_hdrs (hbase : 24 + (F.encode a).length = base)
    (h : off + k ≤ hdrs.length) :
    pread (layout F a ds hdrs data) (base + off) k = pread hdrs off k := by
  have hfront := F.length_front a ds
  rw [layout, pread_append_right (by omega), pread_append_left (by omega),
    show base + off - (F.front a ds).length = off by omega]

/-- Overwriting a block of the headers changes the headers only. -/
theorem pwrite_layout_hdrs (hbase : 24 + (F.encode a).length = base)
    (h : off + bs.length ≤ hdrs.length) :
    pwrite (layout F a ds hdrs data) (base + off) bs =
      layout F a ds (pwrite hdrs off bs) data := by
  have hfront := F.length_front a ds
  rw [layout, layout, pwrite_append_right (by omega),
    show base + off - (F.front a ds).length = off by omega, pwrite_append_left h]

/-- The file cut in front of byte `k` of the payload. -/
theorem layout_split (F : RecordFormat α) (a : α) (ds : UInt64) (hdrs data : Bytes) (k : ℕ) :
    layout F a ds hdrs data = (F.front a ds ++ (hdrs ++
      (tpbRafBuildMagic .record F.domain .posSplit ++ data.take k))) ++
        (data.drop k ++ tpbRafBuildMagic .record F.domain .posEnd) := by
  simp only [layout, List.append_assoc]
  rw [← List.append_assoc (data.take k), List.take_append_drop]

/-- The length of the part in front of the cut. -/
theorem length_layout_split (ds : UInt64) {hdrs data : Bytes}
    (hbase : 24 + (F.encode a).length = base)
    (hk : k ≤ data.length) :
    (F.front a ds ++ (hdrs ++ (tpbRafBuildMagic .record F.domain .posSplit ++
      data.take k))).length = base + hdrs.length + 8 + k := by
  simp only [List.length_append, F.length_front, length_tpbRafBuildMagic,
    List.length_take_of_le hk]
  omega

/-- The payload from byte `k` on, with the END magic. -/
theorem pread_layout_tail (ds : UInt64) (hdrs : Bytes) {data : Bytes}
    (hbase : 24 + (F.encode a).length = base) (hk : k ≤ data.length) :
    pread (layout F a ds hdrs data) (base + hdrs.length + 8 + k) (data.length - k + 8) =
      data.drop k ++ tpbRafBuildMagic .record F.domain .posEnd := by
  rw [layout_split F a ds hdrs data k, ← length_layout_split ds hbase hk,
    pread_append_right le_rfl, Nat.sub_self]
  exact pread_self (by simp)

/-- The END magic behind the payload. -/
theorem pread_layout_end (ds : UInt64) (hdrs data : Bytes)
    (hbase : 24 + (F.encode a).length = base) :
    pread (layout F a ds hdrs data) (base + hdrs.length + 8 + data.length) 8 =
      tpbRafBuildMagic .record F.domain .posEnd := by
  have htail := pread_layout_tail ds hdrs hbase (le_refl data.length)
  rwa [Nat.sub_self, Nat.zero_add, List.drop_length, List.nil_append] at htail

/-- Writing `x` in front of byte `k` of the payload, and the old tail behind it, inserts
`x` into the payload. -/
theorem pwrite_layout_insert (ds : UInt64) (hdrs : Bytes) {data : Bytes}
    (hbase : 24 + (F.encode a).length = base) (hk : k ≤ data.length) (x : Bytes) :
    pwrite (pwrite (layout F a ds hdrs data) (base + hdrs.length + 8 + k) x)
        (base + hdrs.length + 8 + k + x.length)
        (data.drop k ++ tpbRafBuildMagic .record F.domain .posEnd) =
      layout F a ds hdrs (data.take k ++ x ++ data.drop k) := by
  rw [layout_split F a ds hdrs data k, ← length_layout_split ds hbase hk,
    pwrite_insert]
  simp only [layout, List.append_assoc]


/-! ### Records with other attributes -/

/-- The record with its attributes replaced by others that announce as many headers. -/
def Record.withAttr (r : Record F) (a : α) (h : F.nheader a = F.nheader r.attr) :
    Record F where
  attr := a
  headers := r.headers
  buf := r.buf
  nheader_eq := by rw [h, r.nheader_eq]
  ndim_le := r.ndim_le
  data_lt := r.data_lt

/-- A record file starts with its START magic. -/
theorem Record.pread_magic (r : Record F) :
    pread r.bytes 0 8 = tpbRafBuildMagic .record F.domain .posStart := by
  rw [r.bytes_layout, pread_layout_magic]

/-- The attributes of a record file start at offset 24. -/
theorem Record.pread_attr (r : Record F) (h : off + k ≤ (F.encode r.attr).length) :
    pread r.bytes (24 + off) k = pread (F.encode r.attr) off k := by
  rw [r.bytes_layout, pread_layout_attr h]

/-- Overwriting a block of the attributes of a record file with the block other
attributes have there gives the file of the record with these attributes. -/
theorem Record.pwrite_attr (r : Record F) (off : ℕ) (a : α)
    (hn : F.nheader a = F.nheader r.attr) (hm : F.metasize a = F.metasize r.attr)
    (hlen : off + bs.length ≤ (F.encode r.attr).length)
    (h : pwrite (F.encode r.attr) off bs = F.encode a) :
    pwrite r.bytes (24 + off) bs = (r.withAttr a hn).bytes := by
  rw [r.bytes_layout, (r.withAttr a hn).bytes_layout, pwrite_layout_attr hm hlen h]
  rfl

end Layout

end TPBench
