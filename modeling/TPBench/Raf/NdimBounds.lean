import TPBench.CFile.Sized
import TPBench.Raf.Domains

/-!
# How Many Dimensions a Record File Declares

A header has room for seven dimensions, and its number of dimensions comes from the file. The
readers store as many sizes and names as it says.

`DeclaresMore` says of a file that some header of it declares more than seven: the chain of
headers is walked over the bytes, each one `2592 + 72 · ndim` bytes long. A reader should reject
such a file (`NdimChecked`). It does when the file ends with the seventh dimension size, since
the next read then fails; with one more byte that byte is stored behind the array (`Overruns`).
So the readers keep to the bounds exactly of the files that do not overrun (`ndimChecked_iff`).
-/

open CFile

namespace TPBench

/-! ### The chain of headers -/

/-- `ndim` of the header at position `p` of a file. -/
def ndimAt (c : Bytes) (p : ℕ) : ℕ := (getU32 (pread c (p + 4) 4)).toNat

/-- One of `n` headers from position `p` on declares more dimensions than there are slots. -/
def DeclaresFrom (c : Bytes) : ℕ → ℕ → Prop
  | 0, _ => False
  | n + 1, p => p + 8 ≤ c.length ∧
      (ndimMax < ndimAt c p ∨ DeclaresFrom c n (p + 2592 + 72 * ndimAt c p))

/-- The first of `n` headers from position `p` on that declares more dimensions than there are
slots has at least one byte behind the sizes that fit. -/
def OverrunsFrom (c : Bytes) : ℕ → ℕ → Prop
  | 0, _ => False
  | n + 1, p =>
      if ndimAt c p ≤ ndimMax then OverrunsFrom c n (p + 2592 + 72 * ndimAt c p)
      else p + 2592 + 56 < c.length

instance (c : Bytes) : ∀ n p, Decidable (OverrunsFrom c n p)
  | 0, _ => isFalse id
  | n + 1, p =>
      have := instDecidableOverrunsFrom c n (p + 2592 + 72 * ndimAt c p)
      inferInstanceAs (Decidable (if ndimAt c p ≤ ndimMax then
        OverrunsFrom c n (p + 2592 + 72 * ndimAt c p) else p + 2592 + 56 < c.length))

/-- A file without the header it would be in does not overrun. -/
theorem not_overrunsFrom {c : Bytes} {n p : ℕ} (h : c.length < p + 2592) :
    ¬ OverrunsFrom c n p := by
  induction n generalizing p with
  | zero => exact id
  | succ n ih =>
      rw [OverrunsFrom]
      split_ifs
      · exact ih (by omega)
      · omega

/-! ### One header -/

/-- The scalars and texts of a header. -/
def readScalars : FileM MetaHeader := do
  let blockSize ← readU32
  let ndim ← readU32
  let dataSize ← readU64
  let typeBits ← readU32
  let reserve ← readU32
  let uattrBits ← readU64
  let name ← readArr 256
  let tag ← readArr 256
  let note ← readArr 2048
  return { MetaHeader.zero with
    blockSize, ndim, dataSize, typeBits, reserve, uattrBits, name, tag, note }

/-- The two loops over the dimensions. -/
def readDims (h : MetaHeader) : FileM MetaHeader := do
  let dimsizes ← readInto readU64 ndimMax h.ndim.toNat
  let dimnames ← readInto (readArr 64) ndimMax h.ndim.toNat
  return { h with
    dimsizes := fillVec 0 ndimMax dimsizes
    dimnames := fillVec (zeroArr 64) ndimMax dimnames }

/-- A header is read in these two parts. -/
theorem readHeader_eq : readHeader = readScalars >>= readDims := by
  simp only [readScalars, bind_assoc, pure_bind]
  rfl

/-- The scalars and texts have a fixed size. -/
theorem ends_readScalars (c : Bytes) (p : ℕ) :
    Ends c readScalars p 2592 fun h => h.ndim.toNat = ndimAt c p := by
  have hsize : 2592 = 4 + (4 + (8 + (4 + (4 + (8 + (256 + (256 + 2048))))))) := rfl
  rw [readScalars, hsize]
  refine (ends_readU32 c p).bind fun _ _ => ?_
  refine (ends_readU32 c (p + 4)).bind fun ndim hndim => ?_
  refine (ends_readU64 c _).bind fun _ _ => ?_
  refine (ends_readU32 c _).bind fun _ _ => ?_
  refine (ends_readU32 c _).bind fun _ _ => ?_
  refine (ends_readU64 c _).bind fun _ _ => ?_
  refine (ends_readArr c _ _).bind fun _ _ => ?_
  refine (ends_readArr c _ _).bind fun _ _ => ?_
  exact (ends_readArr c _ _).map fun _ _ => congrArg UInt32.toNat hndim

/-- So have the dimensions, if there are slots for them. -/
theorem ends_readDims {c : Bytes} {p : ℕ} {h : MetaHeader} (hn : h.ndim.toNat ≤ ndimMax) :
    Ends c (readDims h) p (72 * h.ndim.toNat) fun _ => True := by
  have hsize : 72 * h.ndim.toNat = h.ndim.toNat * 8 + h.ndim.toNat * 64 := by ring
  rw [readDims, readInto_eq_readN _ hn, readInto_eq_readN _ hn, hsize]
  refine (ends_readN (ends_readU64 c) _).bind fun _ _ => ?_
  exact (ends_readN (fun q => ends_readArr c q 64) _).map fun _ _ => trivial

/-- Behind the slots, a byte is stored outside the array, or there is none. -/
theorem readInto_outside {α : Type} {c : Bytes} {m : FileM α} {k : ℕ}
    (hm : ∀ q, Ends c m q k fun _ => True) {cap n p : ℕ} (hn : cap < n) (hp : p ≤ c.length) :
    ∃ s, readInto m cap n ⟨c, p⟩ =
      .error (if p + cap * k < c.length then .undefined else .fail) s := by
  induction cap generalizing n p with
  | zero =>
      obtain ⟨n, rfl⟩ : ∃ n', n = n' + 1 := ⟨n - 1, by omega⟩
      refine ⟨⟨c, p⟩, ?_⟩
      rw [readInto, storeOutside, Nat.zero_mul, Nat.add_zero]
      split_ifs with hlt
      · rfl
      · rfl
  | succ cap ih =>
      obtain ⟨n, rfl⟩ : ∃ n', n = n' + 1 := ⟨n - 1, by omega⟩
      have hsize : (cap + 1) * k = k + cap * k := by ring
      rw [readInto]
      by_cases hle : p + k ≤ c.length
      · obtain ⟨a, ha, -⟩ := (hm p).ok hle
        obtain ⟨s, hs⟩ := ih (n := n) (by omega) hle
        rw [hsize, ← Nat.add_assoc]
        exact ⟨s, by rw [bind_ok ha, bind_error hs]⟩
      · obtain ⟨s, hs⟩ := (hm p).short hp (Nat.lt_of_not_le hle)
        exact ⟨s, by rw [bind_error hs, if_neg (by omega)]⟩

/-- A header whose dimensions have slots is passed over. -/
theorem ends_readHeader {c : Bytes} {p : ℕ} (hn : ndimAt c p ≤ ndimMax) :
    Ends c readHeader p (2592 + 72 * ndimAt c p) fun _ => True := by
  rw [readHeader_eq]
  refine (ends_readScalars c p).bind fun h hndim => ?_
  rw [← hndim] at hn ⊢
  exact ends_readDims hn

/-- A header with too many dimensions ends the reader, one way or the other. -/
theorem readHeader_outside {c : Bytes} {p : ℕ} (hn : ndimMax < ndimAt c p) (hp : p ≤ c.length) :
    ∃ s, readHeader ⟨c, p⟩ =
      .error (if p + 2592 + 56 < c.length then .undefined else .fail) s := by
  rw [readHeader_eq]
  by_cases hle : p + 2592 ≤ c.length
  · obtain ⟨h, hread, hndim⟩ := (ends_readScalars c p).ok hle
    obtain ⟨s, hs⟩ := readInto_outside (ends_readU64 c) (hndim ▸ hn) hle
    refine ⟨s, ?_⟩
    rw [bind_ok hread, readDims, bind_error hs]
    rfl
  · obtain ⟨s, hs⟩ := (ends_readScalars c p).short hp (Nat.lt_of_not_le hle)
    exact ⟨s, by rw [bind_error hs, if_neg (by omega)]⟩

/-! ### All headers -/

/-- A file that overruns has a byte stored outside an object. -/
theorem readHeaders_of_overruns {c : Bytes} {n p : ℕ} (h : OverrunsFrom c n p) :
    ∃ s, readN n readHeader ⟨c, p⟩ = .error .undefined s := by
  induction n generalizing p with
  | zero => exact absurd h id
  | succ n ih =>
      have hp : p + 2592 ≤ c.length := by
        by_contra hlt
        exact not_overrunsFrom (Nat.lt_of_not_le hlt) h
      rw [OverrunsFrom] at h
      split_ifs at h with hn
      · obtain ⟨s, hs⟩ := ih h
        have hfit : p + (2592 + 72 * ndimAt c p) ≤ c.length := by
          by_contra hlt
          exact not_overrunsFrom (by omega) h
        obtain ⟨a, ha, -⟩ := (ends_readHeader hn).ok hfit
        rw [← Nat.add_assoc] at ha
        exact ⟨s, by rw [readN, bind_ok ha, bind_error hs]⟩
      · obtain ⟨s, hs⟩ := readHeader_outside (Nat.lt_of_not_le hn) (p := p) (by omega)
        rw [if_pos h] at hs
        exact ⟨s, by rw [readN, bind_error hs]⟩

/-- A file that does not overrun has its headers read, or the reader fails; it fails if the file
declares more. -/
theorem readHeaders_of_not_overruns {c : Bytes} {n p : ℕ} (h : ¬ OverrunsFrom c n p)
    (hp : p ≤ c.length) :
    (¬ DeclaresFrom c n p ∧ ∃ hs s, readN n readHeader ⟨c, p⟩ = .ok hs s) ∨
      ∃ s, readN n readHeader ⟨c, p⟩ = .error .fail s := by
  induction n generalizing p with
  | zero => exact Or.inl ⟨id, [], ⟨c, p⟩, rfl⟩
  | succ n ih =>
      rw [OverrunsFrom] at h
      split_ifs at h with hn
      · by_cases hfit : p + (2592 + 72 * ndimAt c p) ≤ c.length
        · obtain ⟨a, ha, -⟩ := (ends_readHeader hn).ok hfit
          rw [← Nat.add_assoc] at ha hfit
          rcases ih h hfit with ⟨hdecl, hs, s, hread⟩ | ⟨s, hread⟩
          · refine Or.inl ⟨?_, a :: hs, s, ?_⟩
            · rintro ⟨-, hmore | hrest⟩
              · exact absurd hmore (Nat.not_lt.mpr hn)
              · exact hdecl hrest
            · rw [readN, bind_ok ha, bind_ok hread]
              rfl
          · exact Or.inr ⟨s, by rw [readN, bind_ok ha, bind_error hread]⟩
        · obtain ⟨s, hs⟩ := (ends_readHeader hn).short hp (Nat.lt_of_not_le hfit)
          exact Or.inr ⟨s, by rw [readN, bind_error hs]⟩
      · obtain ⟨s, hs⟩ := readHeader_outside (Nat.lt_of_not_le hn) hp
        rw [if_neg h] at hs
        exact Or.inr ⟨s, by rw [readN, bind_error hs]⟩

/-! ### Record files -/

/-- Where the files of a domain have the number of headers, and where the headers start. -/
structure HeaderArea where
  nheaderAt : ℕ
  base : ℕ

/-- The headers of a task batch record. -/
def tbatchArea : HeaderArea := ⟨256, 388⟩

/-- The headers of a kernel record. -/
def kernelArea : HeaderArea := ⟨2464, 2660⟩

/-- The headers of a task record. -/
def taskArea : HeaderArea := ⟨172, 308⟩

/-- The headers of a runtime environment record. -/
def rtenvArea : HeaderArea := ⟨828, 1856⟩

/-- The number of headers of a file. -/
def HeaderArea.nheader (area : HeaderArea) (c : Bytes) : UInt32 :=
  getU32 (pread c area.nheaderAt 4)

/-- The file declares more dimensions for a header than there are slots. -/
def DeclaresMore (area : HeaderArea) (c : Bytes) : Prop :=
  DeclaresFrom c (area.nheader c).toNat area.base

/-- The file starts with the signature of its domain, and the first header that declares more
dimensions than there are slots has at least one byte behind the sizes that fit. -/
def Overruns (domain : Domain) (area : HeaderArea) (c : Bytes) : Prop :=
  pread c 0 8 = tpbRafBuildMagic .record domain .posStart ∧
    OverrunsFrom c (area.nheader c).toNat area.base

/-- What a reader should do about the number of dimensions: it makes no access outside an
object, it returns headers with at most as many dimensions as there are slots, and it rejects a
file that `declares` more. -/
structure NdimChecked {α : Type} (declares : Prop)
    (r : EStateM.Result Err Workspace (RecordView α)) : Prop where
  inBounds : ∀ ws, r ≠ .error .undefined ws
  stored : ∀ v ws, r = .ok v ws → ∀ h ∈ v.headers, h.ndim.toNat ≤ ndimMax
  rejected : declares → ∃ mod cause ws, r = .error (.code mod cause) ws

section Read

variable {α : Type} (F : RecordFormat α)

/-- The part of a reader between the signature and the headers. -/
def readAttr : FileM (UInt64 × α) := do
  let _metasize ← readU64
  let ds ← readU64
  let attr ← F.decode
  return (ds, attr)

/-- The part of a reader behind the headers. -/
def readTail (wantData : Bool) (x : UInt64 × α) (headers : List MetaHeader) :
    FileM (RecordView α) := do
  let magic ← fread 8
  check (tpbRafValidateMagic magic .record F.domain .posSplit)
  let data ← readPayload wantData x.1
  let magic ← fread 8
  check (tpbRafValidateMagic magic .record F.domain .posEnd)
  return ⟨x.2, headers, if wantData then x.1 else 0, data⟩

/-- The reader in parts. -/
theorem readRecord_eq (wantData : Bool) :
    readRecord F wantData = (do
      let magic ← fread 8
      check (tpbRafValidateMagic magic .record F.domain .posStart)
      let x ← readAttr F
      let headers ← tpbRafL1ReadHeaders (F.nheader x.2)
      readTail F wantData x headers) := by
  simp only [readAttr, bind_assoc, pure_bind]
  rfl

/-- Behind the headers, nothing is stored outside an object. -/
theorem defined_readTail (wantData : Bool) (x : UInt64 × α) (headers : List MetaHeader) :
    Defined (readTail F wantData x headers) := by
  have hpayload : Defined (readPayload wantData x.1) := by
    rw [readPayload]
    split_ifs
    · exact defined_fread _
    · exact Defined.bind (fun s => defined_fseek _ s) fun _ => defined_pure _
  refine (defined_fread 8).bind fun _ => ?_
  refine defined_check.bind fun _ => ?_
  refine hpayload.bind fun _ => ?_
  refine (defined_fread 8).bind fun _ => ?_
  exact defined_check.bind fun _ => defined_pure _

variable {F} {area : HeaderArea} {c : Bytes} {wantData : Bool}

/-- What the reader of a format gets at before the headers. -/
def ReadsAttr (F : RecordFormat α) (area : HeaderArea) : Prop :=
  ∀ c, Ends c F.decode 24 (area.base - 24) fun a => F.nheader a = area.nheader c

/-- A reader fails before the headers, or it comes to them. -/
theorem readRecord_cases (c : Bytes) (wantData : Bool) (hattr : ReadsAttr F area)
    (hbase : 24 ≤ area.base) :
    (∃ s, readRecord F wantData ⟨c, 0⟩ = .error .fail s ∧ ¬ Overruns F.domain area c) ∨
      pread c 0 8 = tpbRafBuildMagic .record F.domain .posStart ∧ area.base ≤ c.length ∧
        ∃ x, readRecord F wantData ⟨c, 0⟩ =
          (readN (area.nheader c).toNat readHeader >>= readTail F wantData x)
            ⟨c, area.base⟩ := by
  have hends : Ends c (readAttr F) 8 (8 + (8 + (area.base - 24)))
      fun x => F.nheader x.2 = area.nheader c := by
    refine (ends_readU64 c 8).bind fun _ _ => ?_
    refine (ends_readU64 c _).bind fun _ _ => ?_
    exact (hattr c).map fun _ h => h
  have hsize : 8 + (8 + (8 + (area.base - 24))) = area.base := by omega
  rw [readRecord_eq]
  by_cases hmagic : pread c 0 8 = tpbRafBuildMagic .record F.domain .posStart
  · have hstart : fread 8 ⟨c, 0⟩ = .ok (tpbRafBuildMagic .record F.domain .posStart) ⟨c, 8⟩ :=
      fread_run hmagic rfl
    have hlen : 8 ≤ c.length := by
      have h := congrArg List.length hmagic
      rw [pread, List.length_take, length_tpbRafBuildMagic] at h
      rw [List.drop_zero] at h
      omega
    rw [bind_ok hstart, bind_ok (check_run (tpbRafValidateMagic_self _ _ _) _)]
    by_cases hle : area.base ≤ c.length
    · obtain ⟨x, hx, hn⟩ := hends.ok (by omega)
      rw [hsize] at hx
      refine Or.inr ⟨hmagic, hle, x, ?_⟩
      rw [bind_ok hx, hn]
      rfl
    · obtain ⟨s, hs⟩ := hends.short hlen (by omega)
      refine Or.inl ⟨s, bind_error hs, ?_⟩
      rintro ⟨-, hover⟩
      exact not_overrunsFrom (by omega) hover
  · have hnot : ¬ Overruns F.domain area c := fun h => hmagic h.1
    by_cases hlen : 8 ≤ c.length
    · obtain ⟨m, hm, rfl⟩ := (ends_fread c 0 8).ok (by omega)
      refine Or.inl ⟨⟨c, 0 + 8⟩, ?_, hnot⟩
      rw [bind_ok hm]
      exact bind_error (check_fail (fun h => hmagic (tpbRafValidateMagic_iff.mp h)) _)
    · obtain ⟨s, hs⟩ := (ends_fread c 0 8).short (Nat.zero_le _) (by omega)
      exact Or.inl ⟨s, bind_error hs, hnot⟩

/-- A header that was read has slots for its dimensions. -/
theorem ndim_le_of_readHeader {h : MetaHeader} {s s' : Stream} (hread : readHeader s = .ok h s') :
    h.ndim.toNat ≤ ndimMax := by
  rw [readHeader_eq] at hread
  obtain ⟨h', s₁, -, hread⟩ := bind_eq_ok.mp hread
  obtain ⟨sizes, s₂, hsizes, hread⟩ := bind_eq_ok.mp hread
  obtain ⟨names, s₃, -, hread⟩ := bind_eq_ok.mp hread
  cases hread
  exact (length_of_readInto hsizes).1

/-- The headers that a reader returns are those that were read. -/
theorem headers_of_readTail {x : UInt64 × α} {headers : List MetaHeader} {v : RecordView α}
    {s s' : Stream} (h : readTail F wantData x headers s = .ok v s') : v.headers = headers := by
  obtain ⟨_, _, -, h⟩ := bind_eq_ok.mp h
  obtain ⟨_, _, -, h⟩ := bind_eq_ok.mp h
  obtain ⟨_, _, -, h⟩ := bind_eq_ok.mp h
  obtain ⟨_, _, -, h⟩ := bind_eq_ok.mp h
  obtain ⟨_, _, -, h⟩ := bind_eq_ok.mp h
  cases h
  rfl

/-- What a reader that reaches the headers does with a file that does not overrun. -/
theorem readRecord_of_not_overruns {n p : ℕ} {x : UInt64 × α} (hover : ¬ OverrunsFrom c n p)
    (hp : p ≤ c.length) :
    (∃ e s, (readN n readHeader >>= readTail F wantData x) ⟨c, p⟩ = .error e s ∧
        e ≠ .undefined) ∨
      ¬ DeclaresFrom c n p ∧
        ∃ v s, (readN n readHeader >>= readTail F wantData x) ⟨c, p⟩ = .ok v s ∧
          ∀ h ∈ v.headers, h.ndim.toNat ≤ ndimMax := by
  rcases readHeaders_of_not_overruns hover hp with ⟨hdecl, hs, s, hread⟩ | ⟨s, hread⟩
  · rw [bind_ok hread]
    rcases htail : readTail F wantData x hs s with ⟨v, s'⟩ | ⟨e, s'⟩
    · refine Or.inr ⟨hdecl, v, s', rfl, ?_⟩
      rw [headers_of_readTail htail]
      exact forall_of_readN (fun _ _ _ => ndim_le_of_readHeader) hread
    · refine Or.inl ⟨e, s', rfl, ?_⟩
      rintro rfl
      exact defined_readTail F wantData x hs s s' htail
  · exact Or.inl ⟨.fail, s, bind_error hread, (by intro h; cases h)⟩

/-- An error exit of the reader. -/
theorem ndimChecked_of_error {declares : Prop} {mod : Module} {e : Stop} {ws : Workspace}
    (he : e ≠ .undefined) :
    NdimChecked declares (.error (Stop.toErr mod e) ws : EStateM.Result Err _ (RecordView α)) := by
  cases e with
  | undefined => exact absurd rfl he
  | fail | noMemory =>
      exact ⟨fun _ h => (by cases h), fun _ _ h => (by cases h), fun _ => ⟨_, _, _, rfl⟩⟩

/-- **The readers keep to the bounds** exactly of the files that do not overrun. -/
theorem recordRead_ndimChecked (hattr : ReadsAttr F area) (hbase : 24 ≤ area.base)
    (ws : Workspace) (p : Path) (c : Bytes) (wantData : Bool) :
    NdimChecked (DeclaresMore area c) (recordRead F p wantData (ws.set p c)) ↔
      ¬ Overruns F.domain area c := by
  have hok {v : RecordView α} {s : Stream} (h : readRecord F wantData ⟨c, 0⟩ = .ok v s) :
      recordRead F p wantData (ws.set p c) = .ok v (ws.set p c) :=
    fopenRead_ok (Workspace.set_files_same ws p c) h
  have herr {e : Stop} {s : Stream} (h : readRecord F wantData ⟨c, 0⟩ = .error e s) :
      recordRead F p wantData (ws.set p c) = .error (Stop.toErr F.mod e) (ws.set p c) := by
    simp only [recordRead, fopenRead, Workspace.set_files_same, h]
  rcases readRecord_cases c wantData hattr hbase with
    ⟨s, hfail, hnot⟩ | ⟨hmagic, hle, x, hread⟩
  · rw [herr hfail]
    exact iff_of_true (ndimChecked_of_error (by intro h; cases h)) hnot
  · by_cases hover : OverrunsFrom c (area.nheader c).toNat area.base
    · obtain ⟨s, hs⟩ := readHeaders_of_overruns hover
      rw [bind_error hs] at hread
      rw [herr hread]
      constructor
      · intro h
        exact absurd rfl (h.inBounds _)
      · intro h
        exact absurd ⟨hmagic, hover⟩ h
    · have hnot : ¬ Overruns F.domain area c := fun h => hover h.2
      refine iff_of_true ?_ hnot
      rcases readRecord_of_not_overruns (x := x) hover hle with
        ⟨e, s, hs, he⟩ | ⟨hdecl, v, s, hs, hndim⟩
      · rw [herr (hread.trans hs)]
        exact ndimChecked_of_error he
      · rw [hok (hread.trans hs)]
        constructor
        · intro _ h
          cases h
        · intro _ _ h
          cases h
          exact hndim
        · intro h
          exact absurd h hdecl

end Read

/-! ### The four readers -/

/-- The attributes of a task batch. -/
theorem readsAttr_tbatch : ReadsAttr tbatchFormat tbatchArea := by
  intro c
  have hsize : tbatchArea.base - 24 = 20 + (20 + (20 + (8 + (8 + (8 + (64 + (64 + (4 + (4 +
    (4 + (4 + (4 + (4 + 128))))))))))))) := rfl
  rw [hsize]
  refine (ends_readArr c _ _).bind fun _ _ => ?_
  refine (ends_readArr c _ _).bind fun _ _ => ?_
  refine (ends_readArr c _ _).bind fun _ _ => ?_
  refine (ends_readU64 c _).bind fun _ _ => ?_
  refine (ends_readU64 c _).bind fun _ _ => ?_
  refine (ends_readU64 c _).bind fun _ _ => ?_
  refine (ends_readArr c _ _).bind fun _ _ => ?_
  refine (ends_readArr c _ _).bind fun _ _ => ?_
  refine (ends_readU32 c _).bind fun _ _ => ?_
  refine (ends_readU32 c _).bind fun _ _ => ?_
  refine (ends_readU32 c _).bind fun _ _ => ?_
  refine (ends_readU32 c _).bind fun _ _ => ?_
  refine (ends_readU32 c _).bind fun _ _ => ?_
  refine (ends_readU32 c _).bind fun _ hnheader => ?_
  exact (ends_fread c _ _).map fun _ _ => hnheader

/-- The attributes of a kernel. -/
theorem readsAttr_kernel : ReadsAttr kernelFormat kernelArea := by
  intro c
  have hsize : kernelArea.base - 24 = 20 + (20 + (20 + (256 + (64 + (2048 + (4 + (4 + (4 + (4 +
    (4 + (8 + 180))))))))))) := rfl
  rw [hsize]
  refine (ends_readArr c _ _).bind fun _ _ => ?_
  refine (ends_readArr c _ _).bind fun _ _ => ?_
  refine (ends_readArr c _ _).bind fun _ _ => ?_
  refine (ends_readArr c _ _).bind fun _ _ => ?_
  refine (ends_readArr c _ _).bind fun _ _ => ?_
  refine (ends_readArr c _ _).bind fun _ _ => ?_
  refine (ends_readU32 c _).bind fun _ _ => ?_
  refine (ends_readU32 c _).bind fun _ _ => ?_
  refine (ends_readU32 c _).bind fun _ _ => ?_
  refine (ends_readU32 c _).bind fun _ hnheader => ?_
  refine (ends_readU32 c _).bind fun _ _ => ?_
  refine (ends_readU64 c _).bind fun _ _ => ?_
  exact (ends_fread c _ _).map fun _ _ => hnheader

/-- The attributes of a task. -/
theorem readsAttr_task : ReadsAttr taskFormat taskArea := by
  intro c
  have hsize : taskArea.base - 24 = 20 + (20 + (20 + (20 + (20 + (8 + (8 + (8 + (4 + (4 + (4 +
    (4 + (4 + (4 + (4 + (4 + 128))))))))))))))) := rfl
  rw [hsize]
  refine (ends_readArr c _ _).bind fun _ _ => ?_
  refine (ends_readArr c _ _).bind fun _ _ => ?_
  refine (ends_readArr c _ _).bind fun _ _ => ?_
  refine (ends_readArr c _ _).bind fun _ _ => ?_
  refine (ends_readArr c _ _).bind fun _ _ => ?_
  refine (ends_readU64 c _).bind fun _ _ => ?_
  refine (ends_readU64 c _).bind fun _ _ => ?_
  refine (ends_readU64 c _).bind fun _ _ => ?_
  refine (ends_readU32 c _).bind fun _ _ => ?_
  refine (ends_readU32 c _).bind fun _ _ => ?_
  refine (ends_readU32 c _).bind fun _ _ => ?_
  refine (ends_readU32 c _).bind fun _ _ => ?_
  refine (ends_readU32 c _).bind fun _ _ => ?_
  refine (ends_readU32 c _).bind fun _ _ => ?_
  refine (ends_readU32 c _).bind fun _ hnheader => ?_
  refine (ends_readU32 c _).bind fun _ _ => ?_
  exact (ends_fread c _ _).map fun _ _ => hnheader

/-- The attributes of a runtime environment. -/
theorem readsAttr_rtenv : ReadsAttr rtenvFormat rtenvArea := by
  intro c
  have hsize : rtenvArea.base - 24 = 4 + (256 + (256 + (8 + (4 + (4 + (4 + (4 + (256 + (4 + (4 +
    (4 + 1024))))))))))) := rfl
  rw [hsize]
  refine (ends_readI32 c _).bind fun _ _ => ?_
  refine (ends_readArr c _ _).bind fun _ _ => ?_
  refine (ends_readArr c _ _).bind fun _ _ => ?_
  refine (ends_readU64 c _).bind fun _ _ => ?_
  refine (ends_readI32 c _).bind fun _ _ => ?_
  refine (ends_readI32 c _).bind fun _ _ => ?_
  refine (ends_readU32 c _).bind fun _ _ => ?_
  refine (ends_readU32 c _).bind fun _ _ => ?_
  refine (ends_readArr c _ _).bind fun _ _ => ?_
  refine (ends_readU32 c _).bind fun _ _ => ?_
  refine (ends_readU32 c _).bind fun _ _ => ?_
  refine (ends_readU32 c _).bind fun _ hnheader => ?_
  exact (ends_readArr c _ _).map fun _ _ => hnheader

/-- Whatever a record file holds, the four readers keep to the bounds of the dimensions and
reject a file that declares more, exactly if the file does not overrun. -/
theorem ndimChecked_iff (ws : Workspace) (c : Bytes) (wantData : Bool) (id : Id20) (n : Int32) :
    (NdimChecked (DeclaresMore tbatchArea c)
        (tpbRafRecordReadTbatch id wantData (ws.set (.record .tbatch id) c)) ↔
      ¬ Overruns .tbatch tbatchArea c) ∧
    (NdimChecked (DeclaresMore kernelArea c)
        (tpbRafRecordReadKernel id wantData (ws.set (.record .kernel id) c)) ↔
      ¬ Overruns .kernel kernelArea c) ∧
    (NdimChecked (DeclaresMore taskArea c)
        (tpbRafRecordReadTask id wantData (ws.set (.record .task id) c)) ↔
      ¬ Overruns .task taskArea c) ∧
    (NdimChecked (DeclaresMore rtenvArea c)
        (tpbRafRecordReadRtenv n (ws.set (.rtenv n) c)) ↔ ¬ Overruns .rtenv rtenvArea c) := by
  refine ⟨?_, ?_, ?_, ?_⟩
  · exact recordRead_ndimChecked readsAttr_tbatch (by decide) ws _ c wantData
  · exact recordRead_ndimChecked readsAttr_kernel (by decide) ws _ c wantData
  · exact recordRead_ndimChecked readsAttr_task (by decide) ws _ c wantData
  · exact recordRead_ndimChecked readsAttr_rtenv (by decide) ws _ c true

/-- A task record file with one header, which declares eight dimensions. -/
def wideFile : Bytes :=
  tpbRafBuildMagic .record .task .posStart ++ (List.replicate 164 0 ++ (u32 1 ++
    (List.replicate 136 0 ++ (u32 8 ++ List.replicate 3000 0))))

/-- It overruns. -/
theorem wideFile_overruns : Overruns .task taskArea wideFile := by
  constructor
  · rfl
  · decide +kernel

/-- The reader of tasks stores a size of the header behind its array. -/
theorem ndimChecked_wideFile :
    ¬ ∀ c : Bytes, NdimChecked (DeclaresMore taskArea c)
      (tpbRafRecordReadTask (zeroArr 20) true
        (Workspace.empty.set (.record .task (zeroArr 20)) c)) := by
  intro h
  have hiff := recordRead_ndimChecked readsAttr_task (by decide) Workspace.empty
    (.record .task (zeroArr 20)) wideFile true
  exact hiff.mp (h wideFile) wideFile_overruns

end TPBench
