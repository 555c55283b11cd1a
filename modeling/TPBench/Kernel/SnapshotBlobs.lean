import Mathlib.Algebra.BigOperators.Ring.Finset
import Mathlib.Data.List.SplitLengths
import TPBench.Kernel.TaskRecord

/-!
# Decoding a Snapshot

The snapshot of an environment is three blobs: the keys, the numbers of segments of their values,
and all segments one after the other. Empty segments are dropped, and only the numbers tell where
the segments of one value end (`DecodesTo`). Two loops go over a value, one that counts and one
that appends, and they agree wherever its colons stand.

In a record the blobs are the last three blocks of the payload, the texts with their terminators
(`HoldsBlobs`). A snapshot without any key has a number all the same, which is zero.

`snapshot_decodes` says both of every list of variables.
-/

open CFile

namespace TPBench

/-! ### Decoding -/

/-- The blobs of a snapshot are read as the variables, each with the segments of its value. -/
structure DecodesTo (s : EnvSnapshot) (kvs : List StringPair) : Prop where
  keys : segments 58 s.keyBlob = kvs.map fun e => e.key
  splitOn_keys : kvs ≠ [] → s.keyBlob.splitOn 58 = kvs.map fun e => e.key
  counts : (s.counts.map Int32.toInt) = kvs.map fun e => ((segments 58 e.val).length : ℤ)
  total : ((segments 58 s.valueBlob).length : ℤ) = (s.counts.map Int32.toInt).sum
  values : (s.counts.map fun c => c.toInt.toNat).splitLengths (segments 58 s.valueBlob) =
    kvs.map fun e => segments 58 e.val

/-- A record comes with the number of its headers and the size of its payload. -/
structure RecordParts.Counted (p : RecordParts) (nheader : UInt32) : Prop where
  nheader_eq : nheader.toNat = p.headers.length
  datasize_eq : p.datasize.toNat = p.data.length

/-- The record `p'` is `p` with three headers behind, whose sizes are those of the keys, of
`countBlob` and of the values, and whose spans hold them. -/
def HoldsBlobs (s : EnvSnapshot) (countBlob : Bytes) (p p' : RecordParts) : Prop :=
  ∃ k c v : MetaHeader, p'.headers = p.headers ++ [k, c, v] ∧
    p'.datasize.toNat =
      p.datasize.toNat + (k.dataSize.toNat + c.dataSize.toNat + v.dataSize.toNat) ∧
    pread p'.data 0 p.datasize.toNat = p.data ∧
    pread p'.data p.datasize.toNat k.dataSize.toNat = s.keyBlob ++ [0] ∧
    pread p'.data (p.datasize.toNat + k.dataSize.toNat) c.dataSize.toNat = countBlob ∧
    pread p'.data (p.datasize.toNat + k.dataSize.toNat + c.dataSize.toNat) v.dataSize.toNat =
      s.valueBlob ++ [0]

/-- Pieces that are joined are split again by their lengths. -/
theorem splitLengths_flatten {α : Type} (ls : List (List α)) :
    (ls.map List.length).splitLengths ls.flatten = ls := by
  induction ls with
  | nil => rfl
  | cons l ls ih =>
      rw [List.map_cons, List.flatten_cons, List.splitLengths_cons, List.take_left, List.drop_left,
        ih]

section Decode

variable {kvs : List StringPair}

/-- The pairs of a list of variables. -/
def pairsOf (kvs : List StringPair) : List SnapPair := kvs.map StringPair.toSnapPair

/-- **The blobs tell the variables.** -/
theorem decodesTo_pairsSnapshot (hsegs : ∀ e ∈ kvs, e.segs.length < 2 ^ 31) :
    DecodesTo (pairsSnapshot (pairsOf kvs)) kvs := by
  have hkeys := segs_pairKeys (pairsOf kvs)
  have hmap : (pairsOf kvs).map SnapPair.key = kvs.map fun e => e.key := by
    rw [pairsOf, List.map_map]
    rfl
  have hvalues : segments 58 (pairsSnapshot (pairsOf kvs)).valueBlob =
      (kvs.map fun e => segments 58 e.val).flatten := by
    rw [pairsSnapshot, segments_joinSep (segs_pairValues _), pairsOf, List.flatMap_map,
      List.flatMap_def]
    rfl
  have hcount : ∀ e ∈ kvs, (Int32.ofNat e.segs.length).toInt = (segments 58 e.val).length :=
    fun e he => Int32.toInt_ofNat_of_lt (hsegs e he)
  have hcounts : (pairsSnapshot (pairsOf kvs)).counts.map Int32.toInt =
      kvs.map fun e => ((segments 58 e.val).length : ℤ) := by
    rw [pairsSnapshot, pairsOf, List.map_map, List.map_map]
    exact List.map_congr_left hcount
  have hsizes : ((pairsSnapshot (pairsOf kvs)).counts.map fun c => c.toInt.toNat) =
      (kvs.map fun e => segments 58 e.val).map List.length := by
    rw [pairsSnapshot, pairsOf, List.map_map, List.map_map, List.map_map]
    exact List.map_congr_left fun e he => congrArg Int.toNat (hcount e he)
  constructor
  · rw [← hmap]
    exact segments_joinSep hkeys
  · intro hne
    rw [← hmap]
    refine List.splitOn_intercalate 58 (fun k hk => (hkeys k hk).2) ?_
    simpa [pairsOf] using hne
  · exact hcounts
  · rw [hvalues, hcounts, List.length_flatten, List.map_map, Nat.cast_list_sum,
      List.map_map]
    rfl
  · rw [hvalues, hsizes, splitLengths_flatten]

end Decode

/-! ### The blocks -/

section Blocks

variable {s : EnvSnapshot} {p p' : RecordParts} {n : UInt32}

/-- The numbers, or a zero where there are none. -/
def countBlob (s : EnvSnapshot) : Bytes := if s.counts = [] then i32 0 else s.counts.flatMap i32

theorem countBytes_eq (s : EnvSnapshot) : s.countBytes = countBlob s := by
  rw [EnvSnapshot.countBytes, countBlob]
  by_cases hnil : s.counts = []
  · rw [hnil]
    rfl
  · rw [if_pos (List.length_pos_iff.mpr hnil), if_neg hnil]

/-- A block behind others. -/
theorem pread_block {a b : Bytes} (rest : Bytes) {off k : ℕ} (ha : a.length = off)
    (hb : b.length = k) : pread (a ++ (b ++ rest)) off k = b := by
  rw [pread_append_right (by omega), ha, Nat.sub_self, pread_append_self hb]

/-- The three headers have the sizes of the blocks. -/
theorem exists_headers (hsnap : s.size < 2 ^ 64) :
    ∃ k c v : MetaHeader, s.headers = [k, c, v] ∧ k.dataSize.toNat = s.keyBytes.length ∧
      c.dataSize.toNat = s.countBytes.length ∧ v.dataSize.toNat = s.valueBytes.length := by
  have hsizes : [_, _, _] = [_, _, _] := sizesOf_snapshot hsnap
  obtain ⟨hk, hrest⟩ := List.cons.inj hsizes
  obtain ⟨hc, hrest⟩ := List.cons.inj hrest
  exact ⟨_, _, _, rfl, hk, hc, (List.cons.inj hrest).1⟩

/-- **The blocks are the blobs**, whatever is in front of them. -/
theorem holdsBlobs_of_appendSnapshot (hkeys : 0 ∉ s.keyBlob) (hvalues : 0 ∉ s.valueBlob)
    (hp : p.Counted n) (hok : appendSnapshot s n p = .ok p') :
    HoldsBlobs s (countBlob s) p p' := by
  rw [appendSnapshot] at hok
  split_ifs at hok with hlarge
  cases hok
  rw [not_or, not_le, not_le] at hlarge
  have hsnap : s.size < 2 ^ 64 := by omega
  obtain ⟨k, c, v, hheaders, hk, hc, hv⟩ := exists_headers hsnap
  have hkey : s.keyBlob ++ [0] = s.keyBytes := by rw [EnvSnapshot.keyBytes, cstr_of_not_mem hkeys]
  have hvalue : s.valueBlob ++ [0] = s.valueBytes := by
    rw [EnvSnapshot.valueBytes, cstr_of_not_mem hvalues]
  have hsize := hp.datasize_eq
  refine ⟨k, c, v, ?_, ?_, ?_, ?_, ?_, ?_⟩
  · simp only [tpbRtenvAppendEnvSnapshotHeaders, hheaders]
  · simp only
    rw [hk, hc, hv, UInt64.toNat_add, UInt64.toNat_ofNat_of_lt' hsnap,
      Nat.mod_eq_of_lt hlarge.2, EnvSnapshot.size]
  · simp only [tpbRtenvAppendEnvSnapshotHeaders, List.append_assoc]
    exact pread_append_self hsize.symm
  · simp only [tpbRtenvAppendEnvSnapshotHeaders, hkey, List.append_assoc]
    exact pread_block _ hsize.symm hk.symm
  · rw [← countBytes_eq]
    simp only [tpbRtenvAppendEnvSnapshotHeaders]
    rw [List.append_assoc (p.data ++ s.keyBytes)]
    refine pread_block _ ?_ hc.symm
    rw [List.length_append, hk, hsize]
  · simp only [tpbRtenvAppendEnvSnapshotHeaders, hvalue]
    have hfront : (p.data ++ s.keyBytes ++ s.countBytes).length =
        p.datasize.toNat + k.dataSize.toNat + c.dataSize.toNat := by
      rw [List.length_append, List.length_append, hk, hc, hsize]
    have hblock := pread_block [] hfront hv.symm
    rwa [List.append_nil] at hblock

/-- A record that can be counted with three more headers and the payload of the snapshot. -/
theorem appendSnapshot_ok (hp : p.Counted n) (hn : n.toNat + 3 < 2 ^ 32)
    (hsize : p.datasize.toNat + s.size < 2 ^ 64) :
    ∃ p', appendSnapshot s n p = .ok p' ∧ p'.Counted (n + 3) := by
  have hsnap : s.size < 2 ^ 64 := by omega
  obtain ⟨k, c, v, hheaders, -⟩ := exists_headers hsnap
  rw [appendSnapshot, if_neg (by omega)]
  refine ⟨_, rfl, ?_, ?_⟩
  · simp only [tpbRtenvAppendEnvSnapshotHeaders, hheaders, List.length_append]
    rw [toNat_nheader_add hn, hp.nheader_eq]
    rfl
  · simp only [tpbRtenvAppendEnvSnapshotHeaders, List.length_append]
    rw [UInt64.toNat_add, UInt64.toNat_ofNat_of_lt' hsnap, Nat.mod_eq_of_lt hsize,
      hp.datasize_eq, EnvSnapshot.size]
    omega

end Blocks

section Nul

variable {kvs : List StringPair}

/-- There is no terminator in the blobs. -/
theorem nul_not_mem_blobs (kvs : List StringPair) :
    0 ∉ (pairsSnapshot (pairsOf kvs)).keyBlob ∧ 0 ∉ (pairsSnapshot (pairsOf kvs)).valueBlob := by
  constructor
  · intro hmem
    rcases mem_joinSep hmem with hsep | ⟨k, hk, hmem⟩
    · cases hsep
    · simp only [pairsOf, List.map_map, List.mem_map] at hk
      obtain ⟨e, -, rfl⟩ := hk
      exact e.nul_not_mem_key hmem
  · intro hmem
    rcases mem_joinSep hmem with hsep | ⟨seg, hseg, hmem⟩
    · cases hsep
    · simp only [pairsOf, List.mem_flatMap, List.mem_map] at hseg
      obtain ⟨_, ⟨e, -, rfl⟩, hseg⟩ := hseg
      exact e.nul_not_mem_val (mem_of_mem_segments hseg hmem)

end Nul

/-- **The snapshot of any list of variables.** When an `int` counts the variables, and the segments
of each value, all variables are recorded. The blobs are read as the variables, each with the
segments of its value. Behind any record with headers and payload that can be counted the blobs
are the blocks of three headers, with a zero where there are no variables. -/
theorem snapshot_decodes (kvs : List StringPair) (hlen : kvs.length < 2 ^ 31)
    (hsegs : ∀ e ∈ kvs, e.segs.length < 2 ^ 31) :
    ∃ s, recordPairs (pairsOf kvs) .clear = .ok () s ∧ DecodesTo s kvs ∧
      ∀ (n : UInt32) (p : RecordParts), p.Counted n → n.toNat + 3 < 2 ^ 32 →
        p.datasize.toNat + s.size < 2 ^ 64 →
        ∃ p', appendSnapshot s n p = .ok p' ∧ p'.Counted (n + 3) ∧
          HoldsBlobs s (if kvs = [] then i32 0 else s.counts.flatMap i32) p p' := by
  have hrun : recordPairs (pairsOf kvs) .clear = .ok () (pairsSnapshot (pairsOf kvs)) :=
    recordPairs_eq_ok.mpr ⟨by rwa [pairsOf, List.length_map], rfl⟩
  obtain ⟨hkeys, hvalues⟩ := nul_not_mem_blobs kvs
  have hcounts : (pairsSnapshot (pairsOf kvs)).counts = [] ↔ kvs = [] := by
    simp [pairsSnapshot, pairsOf]
  refine ⟨_, hrun, decodesTo_pairsSnapshot hsegs, ?_⟩
  intro n p hp hn hsize
  obtain ⟨p', hok, hp'⟩ := appendSnapshot_ok hp hn hsize
  have hblobs := holdsBlobs_of_appendSnapshot hkeys hvalues hp hok
  refine ⟨p', hok, hp', ?_⟩
  simp only [countBlob, hcounts] at hblobs
  exact hblobs

/-- A variable `A` with the value `:b::c`. -/
def colonsPair : StringPair where
  key := [65]
  val := [58, 98, 58, 58, 99]
  key_ne_nil := List.cons_ne_nil _ _
  colon_not_mem_key := by decide
  nul_not_mem_key := by decide
  nul_not_mem_val := by decide

/-- The variable has two segments. -/
theorem snapshot_decodes_colons :
    ∃ s, recordPairs (pairsOf [colonsPair]) .clear = .ok () s ∧
      s.counts.map Int32.toInt = [2] := by
  obtain ⟨s, hrun, hdecodes, -⟩ := snapshot_decodes [colonsPair] (by decide) (by
    intro e he
    obtain rfl := List.mem_singleton.mp he
    decide)
  refine ⟨s, hrun, hdecodes.counts.trans ?_⟩
  decide

/-- Without a variable the blob of the numbers is empty, and their span has four bytes. -/
theorem empty_snapshot_span :
    recordPairs (pairsOf []) .clear = .ok () .clear ∧
      ∃ p', appendSnapshot .clear 0 ⟨[], [], 0⟩ = .ok p' ∧
        ¬HoldsBlobs .clear (EnvSnapshot.clear.counts.flatMap i32) ⟨[], [], 0⟩ p' := by
  refine ⟨rfl, _, rfl, ?_⟩
  rintro ⟨k, c, v, hheaders, -, -, -, hcount, -⟩
  cases hheaders
  revert hcount
  decide

end TPBench
