import TPBench.Task.Ridmap
import TPBench.Uniq

/-!
# The Scan for Records

A record is in a file that is named by its ID, as 40 digits and `.tpbr`. A user names a record by
the first digits of its ID: `tpbRafScanRecordsByIdPrefix` (`rafdb-l1-scan.c`) goes through the
directories of the domains and returns the IDs with this beginning, sorted. The records of
runtime environments have numbers for names and are passed over.

A directory is listed in any order, and has files that are no records (`DirLists`).

## Main results

* `scan_eq_singleton`: the scan of a domain returns one match if and only if one record of
  the domain has an ID with this beginning.
-/

open CFile

namespace TPBench

/-! ### The scan -/

/-- The names in the directories of the domains, as `readdir` returns them; a directory that
cannot be opened is absent. -/
abbrev RecordDirs := Domain → Option (List Bytes)

/-- `tpb_raf_id_match_t`. -/
structure IdMatch where
  idHex : Bytes
  domain : Domain

/-- `_sf_cmp_id_match`. -/
def sfCmpIdMatch (x y : IdMatch) : Ordering :=
  (compare x.idHex y.idHex).then (compare x.domain.code y.domain.code)

/-- The ending of the names of record files. -/
def tpbrSuffix : Bytes := ascii ".tpbr".toList

/-- The ID in the name of a record file, in lower case. -/
def idPart (name : Bytes) : Option Bytes :=
  if name.length ≠ 45 ∨ name.drop 40 ≠ tpbrSuffix then none
  else if (name.take 40).any (!isxdigit ·) then none
  else some ((name.take 40).map tolower)

/-- A name in the directory of a domain is the name of a record whose ID begins as it should. -/
def matchOf (pre : Bytes) (prefixLen : ℕ) (d : Domain) (name : Bytes) : Option IdMatch :=
  match idPart name with
  | none => none
  | some hex => if hex.take prefixLen = pre.take prefixLen then some ⟨hex, d⟩ else none

/-- One more match in the array. The new capacity is an `int`. -/
def addMatch (a : Uniq.Growing IdMatch) (m : IdMatch) : Except Err (Uniq.Growing IdMatch) :=
  if a.cap ≤ a.elems.length then
    let ncap := if a.cap = 0 then 16 else a.cap * 2
    if intMax < ncap then .error .undefined else .ok ⟨a.elems ++ [m], ncap⟩
  else .ok ⟨a.elems ++ [m], a.cap⟩

/-- The domains in the order of `g_domains` whose records are named by an ID. -/
def idDomains : List Domain := [.tbatch, .kernel, .task]

/-- `tpb_raf_scan_records_by_id_prefix`; without a filter, it is `TPB_RAF_DOM_ALL`. The order of
the sort does not matter: matches that compare as equal are equal. -/
def tpbRafScanRecordsByIdPrefix (dirs : RecordDirs) (pre : Bytes) (prefixLen : ℕ)
    (domainFilter : Option Domain) : Except Err (List IdMatch) :=
  let domains := idDomains.filter fun d => domainFilter = none ∨ domainFilter = some d
  let found := domains.flatMap fun d => ((dirs d).getD []).filterMap (matchOf pre prefixLen d)
  match found.foldlM addMatch .empty with
  | .error e => .error e
  | .ok a => .ok (a.elems.mergeSort fun x y => sfCmpIdMatch x y ≠ .gt)

/-! ### The files of a directory -/

/-- The name of the file of a record. -/
def recordName (id : Id20) : Bytes := hexBytes id.toList ++ tpbrSuffix

/-- The directory of a domain has the records of the workspace in it, and no other file that is
named as a record. It has each name once, and does not exist only if there are no records. -/
structure DirLists (dirs : RecordDirs) (ws : Workspace) (d : Domain) : Prop where
  nodup : ((dirs d).getD []).Nodup
  mem : ∀ id, recordName id ∈ (dirs d).getD [] ↔ ∃ f, ws.files (.record d id) = some f
  named : ∀ name ∈ (dirs d).getD [], (idPart name).isSome → ∃ id, name = recordName id

/-- An ID begins with the digits. -/
def HasPrefix (pre : Bytes) (id : Id20) : Prop := pre <+: hexBytes id.toList

theorem tolower_hexLower {n : ℕ} (hn : n < 16) : tolower (hexLower n) = hexLower n := by
  interval_cases n <;> rfl

/-- The name of a record has its ID in it. -/
theorem idPart_recordName (id : Id20) : idPart (recordName id) = some (hexBytes id.toList) := by
  have hlen := length_hexBytes_id id
  have htake : (recordName id).take 40 = hexBytes id.toList := by
    rw [recordName, List.take_append_of_le_length hlen.ge, List.take_of_length_le hlen.le]
  have hdrop : (recordName id).drop 40 = tpbrSuffix := by
    rw [recordName, ← hlen, List.drop_left]
  have hdigits : (hexBytes id.toList).any (!isxdigit ·) = false := by
    rw [List.any_eq_false]
    intro c hc
    obtain ⟨n, hn, rfl⟩ := exists_of_mem_hexBytes hc
    simp [(hexLower_class hn).1]
  have hlower : (hexBytes id.toList).map tolower = hexBytes id.toList := by
    conv_rhs => rw [← List.map_id (hexBytes id.toList)]
    refine List.map_congr_left fun c hc => ?_
    obtain ⟨n, hn, rfl⟩ := exists_of_mem_hexBytes hc
    exact tolower_hexLower hn
  have hname : (recordName id).length = 45 := by
    rw [recordName, List.length_append, hlen]
    rfl
  rw [idPart, htake, hdrop, hname, if_neg (by simp), hdigits, hlower]
  rfl

theorem hexBytes_injective {x y : Id20} (h : hexBytes x.toList = hexBytes y.toList) : x = y := by
  have hx := tpbRafHexToId_hexBytes x
  rw [h, tpbRafHexToId_hexBytes] at hx
  exact (Except.ok.inj hx).symm

theorem recordName_injective : Function.Injective recordName :=
  fun _ _ h => hexBytes_injective (List.append_cancel_right h)

/-- What was put into the array is in the array. -/
theorem elems_of_foldlM_addMatch {ms : List IdMatch} {a b : Uniq.Growing IdMatch}
    (h : ms.foldlM addMatch a = .ok b) : b.elems = a.elems ++ ms := by
  induction ms generalizing a with
  | nil =>
      obtain rfl := Except.ok.inj h
      exact (List.append_nil _).symm
  | cons m ms ih =>
      rw [List.foldlM_cons] at h
      rcases hm : addMatch a m with e | c
      · rw [hm] at h
        cases h
      · rw [hm] at h
        have helems : c.elems = a.elems ++ [m] := by
          simp only [addMatch] at hm
          split_ifs at hm
          all_goals exact (congrArg Uniq.Growing.elems (Except.ok.inj hm)).symm
        rw [ih h, helems, List.append_assoc, List.singleton_append]

section Scan

variable {dirs : RecordDirs} {ws : Workspace} {d : Domain} {pre : Bytes} {id : Id20}

theorem isSome_idPart {name : Bytes} {m : IdMatch}
    (h : matchOf pre pre.length d name = some m) : (idPart name).isSome := by
  rw [matchOf] at h
  split at h
  · cases h
  · next hpart => rw [hpart]; rfl

/-- The name of a record is a match if and only if its ID begins with the digits. -/
theorem matchOf_recordName :
    matchOf pre pre.length d (recordName id) =
      if pre <+: hexBytes id.toList then some ⟨hexBytes id.toList, d⟩ else none := by
  simp only [matchOf, idPart_recordName, List.take_length, List.prefix_iff_eq_take]
  split_ifs with h₁ h₂ h₂
  · rfl
  · exact absurd h₁.symm h₂
  · exact absurd h₂.symm h₁
  · rfl

/-- A match is a record of the workspace whose ID begins with the digits. -/
theorem DirLists.mem_matches (h : DirLists dirs ws d) {m : IdMatch} :
    m ∈ ((dirs d).getD []).filterMap (matchOf pre pre.length d) ↔
      ∃ id, m = ⟨hexBytes id.toList, d⟩ ∧ HasPrefix pre id ∧
        ∃ f, ws.files (.record d id) = some f := by
  rw [List.mem_filterMap]
  constructor
  · rintro ⟨name, hname, hmatch⟩
    obtain ⟨id, rfl⟩ := h.named name hname (isSome_idPart hmatch)
    rw [matchOf_recordName] at hmatch
    split_ifs at hmatch with hpre
    exact ⟨id, (Option.some.inj hmatch).symm, hpre, (h.mem id).mp hname⟩
  · rintro ⟨id, rfl, hpre, hfile⟩
    exact ⟨recordName id, (h.mem id).mpr hfile, matchOf_recordName.trans (if_pos hpre)⟩

/-- No record is matched twice. -/
theorem DirLists.nodup_matches (h : DirLists dirs ws d) :
    (((dirs d).getD []).filterMap (matchOf pre pre.length d)).Nodup := by
  rw [List.Nodup, List.pairwise_filterMap]
  refine h.nodup.imp_of_mem fun {x y} hx hy hne m hm m' hm' heq => ?_
  obtain ⟨id, rfl⟩ := h.named x hx (isSome_idPart hm)
  obtain ⟨id', rfl⟩ := h.named y hy (isSome_idPart hm')
  rw [matchOf_recordName] at hm hm'
  split_ifs at hm hm'
  obtain rfl := Option.some.inj hm
  obtain rfl := Option.some.inj hm'
  exact hne (congrArg recordName (hexBytes_injective (congrArg IdMatch.idHex heq)))

/-- **The scan of a domain** returns one match if and only if there is one record in it whose ID
begins with the digits. -/
theorem scan_eq_singleton (h : DirLists dirs ws d) (hd : d ∈ idDomains) {m : IdMatch} :
    tpbRafScanRecordsByIdPrefix dirs pre pre.length (some d) = .ok [m] ↔
      ∃ id, m = ⟨hexBytes id.toList, d⟩ ∧ HasPrefix pre id ∧
        (∃ f, ws.files (.record d id) = some f) ∧
        ∀ id', HasPrefix pre id' → (∃ f, ws.files (.record d id') = some f) → id' = id := by
  set ms := ((dirs d).getD []).filterMap (matchOf pre pre.length d) with hms
  have hmem : ∀ {m}, m ∈ ms ↔ _ := h.mem_matches
  have hnodup : ms.Nodup := h.nodup_matches
  have hdomains : (idDomains.filter fun d' => some d = none ∨ some d = some d') = [d] := by
    cases d
    · rfl
    · rfl
    · rfl
    · simp [idDomains] at hd
  have hone : ms = [m] ↔ ∃ id, m = ⟨hexBytes id.toList, d⟩ ∧ HasPrefix pre id ∧
      (∃ f, ws.files (.record d id) = some f) ∧
      ∀ id', HasPrefix pre id' → (∃ f, ws.files (.record d id') = some f) → id' = id := by
    constructor
    · intro hm
      obtain ⟨id, hid, hpre, hfile⟩ := hmem.mp (hm ▸ List.mem_singleton_self m)
      refine ⟨id, hid, hpre, hfile, fun id' hpre' hfile' => ?_⟩
      have hid' : (⟨hexBytes id'.toList, d⟩ : IdMatch) ∈ ms := hmem.mpr ⟨id', rfl, hpre', hfile'⟩
      rw [hm, List.mem_singleton, hid] at hid'
      exact hexBytes_injective (congrArg IdMatch.idHex hid')
    · rintro ⟨id, rfl, hpre, hfile, huniq⟩
      refine List.perm_singleton.mp ((List.perm_ext_iff_of_nodup hnodup (by simp)).mpr fun x => ?_)
      rw [hmem, List.mem_singleton]
      constructor
      · rintro ⟨id', rfl, hpre', hfile'⟩
        rw [huniq id' hpre' hfile']
      · rintro rfl
        exact ⟨id, rfl, hpre, hfile⟩
  rw [← hone, tpbRafScanRecordsByIdPrefix]
  simp only [hdomains, List.flatMap_cons, List.flatMap_nil, List.append_nil, ← hms]
  constructor
  · intro hscan
    split at hscan
    · cases hscan
    · next a hfold =>
        have hperm := (List.mergeSort_perm a.elems fun x y => sfCmpIdMatch x y ≠ .gt).symm
        rw [Except.ok.inj hscan, elems_of_foldlM_addMatch hfold] at hperm
        exact List.perm_singleton.mp hperm
  · intro hm
    have hfold : [m].foldlM addMatch .empty = .ok ⟨[m], 16⟩ := rfl
    rw [hm, hfold]
    simp

end Scan

end TPBench
