import TPBench.Raf.Scan
import TPBench.Task.Export
import TPBench.Task.RidList

/-!
# The Selection of Tasks

`task export` is told which tasks to take: by the short numbers of the last listing, by the first
digits of an ID, as `task get-result` is, or by the listing as a whole (`sfExportResolveInitSels`,
`tpbcli-task-select.c`). It then decides for each selected task whether to take the entry it is
derived to, or its record alone (`sfExportTraceOne`): it is told so, or asks on the terminal, and
keeps the record where there is nobody to ask. What was selected twice is exported once
(`tpbcliTaskExportBuildWorks`).

The arrays of selections and works grow without limit in the model: there are no more selections
than numbers in the RIDMAP, of which there are at most 2³⁰.

## Main results

* `id_prefix_resolved`: digits stand for a task if and only if they are the beginning of the ID
  of one record and of no other.
* `export_works`: what a selection is traced to, each work once, and no two works of one root.
-/

open CFile

namespace TPBench

/-! ### Digits of an ID -/

/-- `_sf_hex_prefix_valid` and `_sf_export_hex_prefix_valid`, up to their bounds. -/
def hexPrefixValid (least most : ℕ) (pre : Bytes) : Except Err Unit :=
  if pre.length < least ∨ pre.length > most then .error (.code .cliMisc .cliFail)
  else if pre.any (!isxdigit ·) then .error (.code .cliMisc .cliFail)
  else .ok ()

/-- `_sf_hex_prefix_valid`. -/
def sfHexPrefixValid : Bytes → Except Err Unit := hexPrefixValid 6 20

/-- `_sf_export_hex_prefix_valid`. -/
def sfExportHexPrefixValid : Bytes → Except Err Unit := hexPrefixValid 4 40

/-- A digit of a prefix in lower case. -/
def lowerHex (c : UInt8) : UInt8 := if 65 ≤ c ∧ c ≤ 70 then c + 32 else c

/-- `tpbcli_task_resolve_id_prefix` and `tpbcli_task_resolve_id_prefix_export`, up to the check
of the prefix and the size of the array for its copy. -/
def resolveIdPrefix (valid : Bytes → Except Err Unit) (room : ℕ) (dirs : RecordDirs)
    (pre : Bytes) : Except Err Id20 :=
  match valid pre with
  | .error e => .error (e.propagated .cliMisc)
  | .ok () =>
      if room ≤ pre.length then .error (.code .cliMisc .cliFail)
      else
        match tpbRafScanRecordsByIdPrefix dirs (pre.map lowerHex) pre.length (some .task) with
        | .error e => .error (e.propagated .cliMisc)
        | .ok [m] =>
            match tpbRafHexToId m.idHex with
            | .error _ => .error (.code .cliMisc .cliFail)
            | .ok id => .ok id
        | .ok _ => .error (.code .cliMisc .cliFail)

/-- `tpbcli_task_resolve_id_prefix`. -/
def tpbcliTaskResolveIdPrefix : RecordDirs → Bytes → Except Err Id20 :=
  resolveIdPrefix sfHexPrefixValid 21

/-- `tpbcli_task_resolve_id_prefix_export`. -/
def tpbcliTaskResolveIdPrefixExport : RecordDirs → Bytes → Except Err Id20 :=
  resolveIdPrefix sfExportHexPrefixValid 41

/-! ### Selections -/

/-- How the tasks are selected, `tpbcli_task_export_sel_mode_t`. -/
inductive TaskSel
  | rid (spec : Bytes)
  | taskId (spec : Bytes)
  | fromLs

/-- The selections by short numbers: `spec` is parsed against the RIDMAP, and each number stands
for the ID on its line. -/
def ridSels (workspace : Bytes) (files : RidmapFiles) (spec : Bytes) : Except Err (List InitSel) :=
  match tpbcliTaskParseRidList workspace files spec with
  | .error e => .error (e.propagated .cliMisc)
  | .ok rids =>
      match tpbcliTaskRidmapRead workspace files with
      | .error e => .error (e.propagated .cliMisc)
      | .ok ids =>
          rids.zipIdx.mapM fun p =>
            match ids[p.1]? with
            | none => .error .undefined
            | some id => .ok ⟨id, 114 :: formatD p.1, p.2⟩

/-- The text up to the next comma that is not at its start, as the first call of `strtok_r`
returns it. -/
def firstToken (spec : Bytes) : Option Bytes :=
  match spec.dropWhile (· = comma) with
  | [] => none
  | rest => some (rest.takeWhile (· ≠ comma))

/-- The selections by the digits of IDs. The loop over the tokens ends after the first one: there
`p` is null. -/
def taskIdSels (resolve : Bytes → Except Err Id20) (spec : Bytes) : Except Err (List InitSel) :=
  match firstToken spec with
  | none => .ok []
  | some tok =>
      match tok.dropWhile isBlank with
      | [] => .ok []
      | tok =>
          match resolve tok with
          | .error e => .error (e.propagated .cliMisc)
          | .ok id => .ok [⟨id, 105 :: formatD 0, 0⟩]

/-- The selection of all lines of the RIDMAP. -/
def lsSels (workspace : Bytes) (files : RidmapFiles) : Except Err (List InitSel) :=
  match tpbcliTaskRidmapRead workspace files with
  | .error e => .error (e.propagated .cliMisc)
  | .ok [] => .error (.code .cliMisc .cliFail)
  | .ok ids => .ok (ids.zipIdx.map fun p => ⟨p.1, 114 :: formatD p.2, p.2⟩)

/-- Without a selection there is nothing to do. -/
def someSels : Except Err (List InitSel) → Except Err (List InitSel)
  | .ok [] => .error (.code .cliMisc .cliFail)
  | r => r

/-- `_sf_export_resolve_init_sels`. -/
def sfExportResolveInitSels (dirs : RecordDirs) (workspace : Bytes) (files : RidmapFiles) :
    TaskSel → Except Err (List InitSel)
  | .rid spec => someSels (ridSels workspace files spec)
  | .taskId spec => someSels (taskIdSels (tpbcliTaskResolveIdPrefixExport dirs) spec)
  | .fromLs => someSels (lsSels workspace files)

/-! ### Works -/

/-- `tpbcli_task_export_trace_t`. -/
inductive ExportTrace
  | unspec
  | toEntry
  | keepCurrent
  deriving DecidableEq

/-- The standard input: whether it is a terminal, and what is left of it, in the pieces that
`fgets` returns to a buffer of 128 bytes. -/
structure Stdin where
  isatty : Bool
  pieces : List Bytes

/-- `_sf_export_ask_trace`. -/
def sfExportAskTrace (stdin : Stdin) : Bool × Stdin :=
  match stdin.pieces with
  | [] => (false, stdin)
  | line :: pieces =>
      (line.head? = some 121 ∨ line.head? = some 89, { stdin with pieces := pieces })

/-- The end of `_sf_export_trace_one` that follows the record to its entry. -/
def traceToEntry (start : Id20) : WsM ExportWork := do
  let root ← propagate .cliMisc (tpbcliTaskFollowDerive start)
  return ⟨root, none⟩

/-- The part of `_sf_export_trace_one` that keeps the record. -/
def traceKeepCurrent (start : Id20) : WsM ExportWork := do
  let v ← propagate .cliMisc (tpbRafRecordReadTask start true)
  return ⟨start, if sfIsZeroId20 v.attr.deriveTo then none else some start⟩

/-- `_sf_export_trace_one`. -/
def sfExportTraceOne (trace : ExportTrace) (start : Id20) (stdin : Stdin) :
    WsM (ExportWork × Stdin) :=
  match trace with
  | .toEntry => do return (← traceToEntry start, stdin)
  | .keepCurrent => do return (← traceKeepCurrent start, stdin)
  | .unspec =>
      if !stdin.isatty then do return (← traceKeepCurrent start, stdin)
      else do
        let v ← propagate .cliMisc (tpbRafRecordReadTask start true)
        if sfIsZeroId20 v.attr.deriveTo then return (⟨start, none⟩, stdin)
        else
          let (yes, stdin) := sfExportAskTrace stdin
          if yes then do return (← traceToEntry start, stdin)
          else return (⟨start, some start⟩, stdin)

deriving instance DecidableEq for ExportWork

/-- `tpbcli_task_export_work_t`, with the name and the place of the selection it comes from. -/
structure SelectedWork where
  work : ExportWork
  ref : Bytes
  order : ℤ

/-- A work is put behind the others, if it is a new one. -/
def addWork (works : List SelectedWork) (sel : InitSel) (w : ExportWork) : List SelectedWork :=
  if works.any (·.work = w) then works else works ++ [⟨w, sel.ref, sel.order⟩]

/-- The loop of `tpbcli_task_export_build_works`. -/
def buildWorks (trace : ExportTrace) :
    List InitSel → Stdin → List SelectedWork → WsM (List SelectedWork)
  | [], _, works => return works
  | sel :: sels, stdin, works => do
      let (w, stdin) ← propagate .cliMisc (sfExportTraceOne trace sel.id stdin)
      buildWorks trace sels stdin (addWork works sel w)

/-- `tpbcli_task_export_build_works`. -/
def tpbcliTaskExportBuildWorks (dirs : RecordDirs) (workspace : Bytes) (files : RidmapFiles)
    (sel : TaskSel) (trace : ExportTrace) (stdin : Stdin) : WsM (List SelectedWork) := do
  let sels ← propagate .cliMisc (liftExcept (sfExportResolveInitSels dirs workspace files sel))
  let works ← buildWorks trace sels stdin []
  if works.isEmpty then tpbFail .cliMisc .cliFail
  else return works

theorem ne_nil_of_someSels {r : Except Err (List InitSel)} {sels : List InitSel}
    (h : someSels r = .ok sels) : sels ≠ [] := by
  rintro rfl
  unfold someSels at h
  split at h
  · cases h
  · next hno => exact hno h

/-- What is resolved is a selection. -/
theorem sfExportResolveInitSels_ne_nil {dirs : RecordDirs} {workspace : Bytes}
    {files : RidmapFiles} {sel : TaskSel} {sels : List InitSel}
    (h : sfExportResolveInitSels dirs workspace files sel = .ok sels) : sels ≠ [] := by
  cases sel with
  | rid spec => exact ne_nil_of_someSels h
  | taskId spec => exact ne_nil_of_someSels h
  | fromLs => exact ne_nil_of_someSels h

/-! ### Digits that stand for a task -/

section Prefix

variable {dirs : RecordDirs} {ws : Workspace} {pre : Bytes} {id : Id20}

/-- The ID of a record of a task begins with the digits, in upper or in lower case. -/
def NamedBy (ws : Workspace) (pre : Bytes) (id : Id20) : Prop :=
  HasPrefix (pre.map lowerHex) id ∧ ∃ f, ws.files (.record .task id) = some f

theorem hexPrefixValid_eq_ok {least most : ℕ} : hexPrefixValid least most pre = .ok () ↔
    least ≤ pre.length ∧ pre.length ≤ most ∧ ∀ c ∈ pre, isxdigit c = true := by
  rw [hexPrefixValid]
  split_ifs with hlen hdigit
  · exact iff_of_false (by simp) fun h => by omega
  · rw [List.any_eq_true] at hdigit
    obtain ⟨c, hc, hno⟩ := hdigit
    refine iff_of_false (by simp) fun h => ?_
    rw [h.2.2 c hc] at hno
    cases hno
  · rw [Bool.not_eq_true, List.any_eq_false] at hdigit
    refine iff_of_true rfl ⟨by omega, by omega, fun c hc => ?_⟩
    simpa using hdigit c hc

/-- Digits are resolved if and only if they are digits, enough and not too many, and the beginning
of the ID of one record and of no other. -/
theorem resolveIdPrefix_eq_ok (h : DirLists dirs ws .task) {least most room : ℕ}
    (hroom : most < room) :
    resolveIdPrefix (hexPrefixValid least most) room dirs pre = .ok id ↔
      (least ≤ pre.length ∧ pre.length ≤ most ∧ ∀ c ∈ pre, isxdigit c = true) ∧
        NamedBy ws pre id ∧ ∀ id', NamedBy ws pre id' → id' = id := by
  rw [resolveIdPrefix, ← hexPrefixValid_eq_ok]
  cases hvalid : hexPrefixValid least most pre with
  | error e => simp
  | ok u =>
      have hlen : ¬ room ≤ pre.length := by
        have := (hexPrefixValid_eq_ok.mp hvalid).2.1
        omega
      have hscan (m : IdMatch) :=
        @scan_eq_singleton dirs ws .task (pre.map lowerHex) h (by simp [idDomains]) m
      rw [List.length_map] at hscan
      simp only [if_neg hlen, true_and]
      constructor
      · intro hres
        split at hres
        · cases hres
        · next m hm =>
            obtain ⟨id', rfl, hpre, hfile, huniq⟩ := (hscan m).mp hm
            simp only [tpbRafHexToId_hexBytes] at hres
            obtain rfl := Except.ok.inj hres
            exact ⟨⟨hpre, hfile⟩, fun x hx => huniq x hx.1 hx.2⟩
        · cases hres
      · rintro ⟨⟨hpre, hfile⟩, huniq⟩
        have hm := (hscan ⟨hexBytes id.toList, .task⟩).mpr
          ⟨id, rfl, hpre, hfile, fun x hx hx' => huniq x ⟨hx, hx'⟩⟩
        simp only [hm, tpbRafHexToId_hexBytes]

/-- **Digits that stand for a task.** Whatever the order of the directory, and whatever else is
in it, `task export` resolves 4 to 40 digits and `task get-result` 6 to 20 digits if and only if
they are the beginning of the ID of one record and of no other, and to the ID of this record. -/
theorem id_prefix_resolved (h : DirLists dirs ws .task) :
    (tpbcliTaskResolveIdPrefixExport dirs pre = .ok id ↔
      (4 ≤ pre.length ∧ pre.length ≤ 40 ∧ ∀ c ∈ pre, isxdigit c = true) ∧
        NamedBy ws pre id ∧ ∀ id', NamedBy ws pre id' → id' = id) ∧
    (tpbcliTaskResolveIdPrefix dirs pre = .ok id ↔
      (6 ≤ pre.length ∧ pre.length ≤ 20 ∧ ∀ c ∈ pre, isxdigit c = true) ∧
        NamedBy ws pre id ∧ ∀ id', NamedBy ws pre id' → id' = id) :=
  ⟨resolveIdPrefix_eq_ok h (Nat.lt_succ_self 40), resolveIdPrefix_eq_ok h (Nat.lt_succ_self 20)⟩

/-- A second record ID. -/
def secondId : Id20 := toArr 20 [1]

/-- A directory with a record and another file. -/
def oneDir : RecordDirs
  | .task => some [ascii ['.'], recordName secondId]
  | _ => none

/-- A workspace with the record. -/
def oneDirWorkspace : Workspace := Workspace.empty.set (.record .task secondId) []

theorem mem_oneDir {x : Id20} : recordName x ∈ (oneDir .task).getD [] ↔ x = secondId := by
  constructor
  · intro hmem
    rcases List.mem_cons.mp hmem with hdot | hmem
    · have hpart := idPart_recordName x
      rw [hdot] at hpart
      cases hpart
    · exact recordName_injective (List.mem_singleton.mp hmem)
  · rintro rfl
    exact List.mem_cons_of_mem _ (List.mem_singleton_self _)

theorem dirLists_oneDir : DirLists oneDir oneDirWorkspace .task := by
  have hfile : ∀ x, (∃ f, oneDirWorkspace.files (.record .task x) = some f) ↔ x = secondId := by
    intro x
    constructor
    · rintro ⟨f, hf⟩
      by_contra hne
      rw [oneDirWorkspace, Workspace.set_files_of_ne _ _ (by simpa using hne)] at hf
      cases hf
    · rintro rfl
      exact ⟨[], Workspace.set_files_same _ _ _⟩
  refine ⟨by decide, fun x => ?_, fun name hname hsome => ?_⟩
  · rw [hfile, mem_oneDir]
  · rcases List.mem_cons.mp hname with rfl | hname
    · cases hsome
    · exact ⟨secondId, List.mem_singleton.mp hname⟩

/-- Four digits of the only record. -/
theorem id_prefix_resolved_four :
    tpbcliTaskResolveIdPrefixExport oneDir [48, 49, 48, 48] = .ok secondId := by
  have huniq : ∀ x, NamedBy oneDirWorkspace [48, 49, 48, 48] x → x = secondId :=
    fun x hx => mem_oneDir.mp ((dirLists_oneDir.mem x).mpr hx.2)
  refine (id_prefix_resolved dirLists_oneDir).1.mpr ⟨⟨le_rfl, by decide, ?_⟩, ⟨?_, ?_⟩, huniq⟩
  · intro c hc
    simp only [List.mem_cons, List.not_mem_nil, or_false] at hc
    rcases hc with rfl | rfl | rfl | rfl <;> rfl
  · exact ⟨(hexBytes secondId.toList).drop 4, rfl⟩
  · exact ⟨[], Workspace.set_files_same _ _ _⟩

end Prefix

/-! ### Works of a selection -/

section Works

variable {ws ws' : Workspace} {trace : ExportTrace} {stdin stdin' : Stdin} {x y : Id20}
  {w w' : ExportWork}

/-- What a selected record is traced to, by an export with this option and this input: the entry
that it is derived to, where this is asked for, or itself, alone if it is derived. -/
inductive TracedTo (ws : Workspace) (trace : ExportTrace) (isatty : Bool) (x : Id20) :
    ExportWork → Prop
  | entry {root : Id20} {ids : List Id20}
      (h : trace = .toEntry ∨ trace = .unspec ∧ isatty = true)
      (hchain : DeriveChain ws x root ids) : TracedTo ws trace isatty x ⟨root, none⟩
  | kept {v : RecordView TaskAttr} (h : trace ≠ .toEntry)
      (hread : tpbRafRecordReadTask x true ws = .ok v ws) :
      TracedTo ws trace isatty x ⟨x, if v.attr.deriveTo = zeroArr 20 then none else some x⟩

theorem traceToEntry_eq_ok : traceToEntry x ws = .ok w ws' ↔
    ws' = ws ∧ ∃ root ids, DeriveChain ws x root ids ∧ w = ⟨root, none⟩ := by
  rw [traceToEntry, bind_eq_ok]
  constructor
  · rintro ⟨root, ws₁, hfollow, hw⟩
    obtain ⟨rfl, ids, hchain⟩ := followDerive_eq_ok.mp (propagate_eq_ok.mp hfollow)
    cases hw
    exact ⟨rfl, root, ids, hchain, rfl⟩
  · rintro ⟨rfl, root, ids, hchain, rfl⟩
    exact ⟨root, ws', propagate_eq_ok.mpr (followDerive_eq_ok.mpr ⟨rfl, ids, hchain⟩), rfl⟩

theorem traceKeepCurrent_eq_ok : traceKeepCurrent x ws = .ok w ws' ↔
    ws' = ws ∧ ∃ v, tpbRafRecordReadTask x true ws = .ok v ws ∧
      w = ⟨x, if v.attr.deriveTo = zeroArr 20 then none else some x⟩ := by
  rw [traceKeepCurrent, bind_eq_ok]
  constructor
  · rintro ⟨v, ws₁, hread, hw⟩
    rw [propagate_eq_ok] at hread
    obtain rfl := tpbRafRecordReadTask_ws hread
    cases hw
    exact ⟨rfl, v, hread, by simp only [sfIsZeroId20_iff]⟩
  · rintro ⟨rfl, v, hread, rfl⟩
    refine ⟨v, ws', propagate_eq_ok.mpr hread, ?_⟩
    simp only [sfIsZeroId20_iff]
    rfl

/-- **One selection**: whatever the answers are, its record is traced to its entry or kept. -/
theorem tracedTo_of_ok (h : sfExportTraceOne trace x stdin ws = .ok (w, stdin') ws') :
    ws' = ws ∧ TracedTo ws trace stdin.isatty x w ∧ stdin'.isatty = stdin.isatty := by
  have hentry (s : Stdin) (hs : s.isatty = stdin.isatty)
      (hto : trace = .toEntry ∨ trace = .unspec ∧ stdin.isatty = true)
      (hrun : (do return (← traceToEntry x, s) : WsM (ExportWork × Stdin)) ws =
        .ok (w, stdin') ws') :
      ws' = ws ∧ TracedTo ws trace stdin.isatty x w ∧ stdin'.isatty = stdin.isatty := by
    obtain ⟨w₁, ws₁, hw, heq⟩ := bind_eq_ok.mp hrun
    obtain ⟨rfl, root, ids, hchain, rfl⟩ := traceToEntry_eq_ok.mp hw
    cases heq
    exact ⟨rfl, .entry hto hchain, hs⟩
  have hkeep (hto : trace ≠ .toEntry)
      (hrun : (do return (← traceKeepCurrent x, stdin) : WsM (ExportWork × Stdin)) ws =
        .ok (w, stdin') ws') :
      ws' = ws ∧ TracedTo ws trace stdin.isatty x w ∧ stdin'.isatty = stdin.isatty := by
    obtain ⟨w₁, ws₁, hw, heq⟩ := bind_eq_ok.mp hrun
    obtain ⟨rfl, v, hread, rfl⟩ := traceKeepCurrent_eq_ok.mp hw
    cases heq
    exact ⟨rfl, .kept hto hread, rfl⟩
  cases trace with
  | toEntry => exact hentry stdin rfl (.inl rfl) h
  | keepCurrent => exact hkeep (by simp) h
  | unspec =>
      rw [sfExportTraceOne] at h
      split at h
      · exact hkeep (by simp) h
      · next htty =>
          obtain ⟨v, ws₁, hread, hrest⟩ := bind_eq_ok.mp h
          rw [propagate_eq_ok] at hread
          obtain rfl := tpbRafRecordReadTask_ws hread
          have hkept : TracedTo ws₁ .unspec stdin.isatty x
              ⟨x, if v.attr.deriveTo = zeroArr 20 then none else some x⟩ := .kept (by simp) hread
          have hask : (sfExportAskTrace stdin).2.isatty = stdin.isatty := by
            unfold sfExportAskTrace
            split <;> rfl
          split at hrest
          · next hzero =>
              rw [if_pos (sfIsZeroId20_iff.mp hzero)] at hkept
              cases hrest
              exact ⟨rfl, hkept, rfl⟩
          · next hzero =>
              rw [if_neg fun h => hzero (sfIsZeroId20_iff.mpr h)] at hkept
              simp only at hrest
              split at hrest
              · exact hentry _ hask (.inr ⟨rfl, by simpa using htty⟩) hrest
              · cases hrest
                exact ⟨rfl, hkept, hask⟩

/-- What is alone is derived, and what is not is an entry. -/
theorem TracedTo.root {isatty : Bool} (h : TracedTo ws trace isatty x w) :
    ∃ v, tpbRafRecordReadTask w.rootId true ws = .ok v ws ∧
      w.single = if v.attr.deriveTo = zeroArr 20 then none else some w.rootId := by
  cases h with
  | entry hto hchain =>
      obtain ⟨v, hread, hzero⟩ := hchain.root
      exact ⟨v, hread, by rw [if_pos hzero]⟩
  | kept hto hread => exact ⟨_, hread, rfl⟩

/-- Works of one root are equal: a record is not both an entry and derived. -/
theorem TracedTo.eq_of_root {isatty : Bool} (h : TracedTo ws trace isatty x w)
    (h' : TracedTo ws trace isatty y w') (hroot : w.rootId = w'.rootId) : w = w' := by
  obtain ⟨v, hread, hsingle⟩ := h.root
  obtain ⟨v', hread', hsingle'⟩ := h'.root
  rw [← hroot, hread] at hread'
  cases hread'
  rw [← hroot, ← hsingle] at hsingle'
  cases w
  cases w'
  simp only at hroot hsingle'
  rw [hroot, hsingle']

/-- The first of the selections with this work. -/
def FirstOf (pairs : List (InitSel × ExportWork)) (w : SelectedWork) : Prop :=
  ∃ before sel after, pairs = before ++ (sel, w.work) :: after ∧
    w.ref = sel.ref ∧ w.order = sel.order ∧ w.work ∉ before.map Prod.snd

/-- The works of traced selections. -/
def worksOf (pairs : List (InitSel × ExportWork)) : List SelectedWork :=
  pairs.foldl (fun works p => addWork works p.1 p.2) []

/-- Each work is there once, with the name and the place of the first selection of it. -/
theorem worksOf_spec (pairs : List (InitSel × ExportWork)) :
    (worksOf pairs).map SelectedWork.work = (pairs.map Prod.snd).eraseDups ∧
      ∀ w ∈ worksOf pairs, FirstOf pairs w := by
  induction pairs using List.reverseRecOn with
  | nil => exact ⟨rfl, by simp [worksOf]⟩
  | append_singleton pairs p ih =>
      obtain ⟨hworks, hfirst⟩ := ih
      have hstep : worksOf (pairs ++ [p]) = addWork (worksOf pairs) p.1 p.2 := by
        rw [worksOf, List.foldl_concat]
        rfl
      have hmore : ∀ w ∈ worksOf pairs, FirstOf (pairs ++ [p]) w := by
        intro w hw
        obtain ⟨before, sel, after, rfl, hrest⟩ := hfirst w hw
        exact ⟨before, sel, after ++ [p], by simp, hrest⟩
      have hany : (worksOf pairs).any (·.work = p.2) = true ↔ p.2 ∈ pairs.map Prod.snd := by
        rw [← List.mem_eraseDups, ← hworks, List.any_eq_true, List.mem_map]
        simp only [decide_eq_true_eq]
      rw [hstep, addWork, List.map_append, List.map_singleton, Uniq.eraseDups_concat]
      by_cases hmem : p.2 ∈ pairs.map Prod.snd
      · rw [if_pos (hany.mpr hmem), if_pos hmem]
        exact ⟨hworks, hmore⟩
      · rw [if_neg fun h => hmem (hany.mp h), if_neg hmem, List.map_append, hworks]
        refine ⟨rfl, fun w hw => ?_⟩
        rcases List.mem_append.mp hw with hw | hw
        · exact hmore w hw
        · obtain rfl := List.mem_singleton.mp hw
          exact ⟨pairs, p.1, [], rfl, rfl, rfl, hmem⟩

/-- The loop traces every selection. -/
theorem buildWorks_eq_ok {sels : List InitSel} {works works' : List SelectedWork}
    (h : buildWorks trace sels stdin works ws = .ok works' ws') :
    ws' = ws ∧ ∃ traced,
      List.Forall₂ (fun sel w => TracedTo ws trace stdin.isatty sel.id w) sels traced ∧
      works' = (sels.zip traced).foldl (fun works p => addWork works p.1 p.2) works := by
  induction sels generalizing stdin works with
  | nil =>
      cases h
      exact ⟨rfl, [], .nil, rfl⟩
  | cons sel sels ih =>
      rw [buildWorks] at h
      obtain ⟨⟨w, stdin₁⟩, ws₁, hone, hrest⟩ := bind_eq_ok.mp h
      obtain ⟨rfl, hw, htty⟩ := tracedTo_of_ok (propagate_eq_ok.mp hone)
      obtain ⟨rfl, traced, htraced, rfl⟩ := ih hrest
      rw [htty] at htraced
      exact ⟨rfl, w :: traced, .cons hw htraced, rfl⟩

/-- The works of selections whose traces do not ask. -/
theorem buildWorks_of_traced {sels : List InitSel} {works : List SelectedWork}
    {traced : Id20 → ExportWork} (h : ∀ sel ∈ sels,
      sfExportTraceOne trace sel.id stdin ws = .ok (traced sel.id, stdin) ws) :
    buildWorks trace sels stdin works ws =
      .ok ((sels.map fun sel => (sel, traced sel.id)).foldl (fun works p => addWork works p.1 p.2)
        works) ws := by
  induction sels generalizing works with
  | nil => rfl
  | cons sel sels ih =>
      refine bind_then (propagate_eq_ok.mpr (h sel List.mem_cons_self)) ?_
      exact ih fun sel' hsel' => h sel' (List.mem_cons_of_mem _ hsel')

theorem exists_of_mem_traced {sels : List InitSel} {traced : List ExportWork}
    (h : List.Forall₂ (fun sel w => TracedTo ws trace stdin.isatty sel.id w) sels traced)
    (hw : w ∈ traced) :
    ∃ sel ∈ sels, TracedTo ws trace stdin.isatty sel.id w := by
  induction h with
  | nil => cases hw
  | cons hsel _ ih =>
      rcases List.mem_cons.mp hw with rfl | hw
      · exact ⟨_, List.mem_cons_self, hsel⟩
      · obtain ⟨sel, hmem, hto⟩ := ih hw
        exact ⟨sel, List.mem_cons_of_mem _ hmem, hto⟩

/-- Works that were traced from selections. -/
structure WorksFrom (ws : Workspace) (trace : ExportTrace) (stdin : Stdin) (sels : List InitSel)
    (works : List SelectedWork) : Prop where
  exists_traced : ∃ traced,
    List.Forall₂ (fun sel w => TracedTo ws trace stdin.isatty sel.id w) sels traced ∧
    works.map SelectedWork.work = traced.eraseDups ∧
    ∀ w ∈ works, FirstOf (sels.zip traced) w
  nodup : (works.map fun w => w.work.rootId).Nodup

/-- The works of traced selections. -/
theorem worksFrom_worksOf {sels : List InitSel} {traced : List ExportWork}
    (h : List.Forall₂ (fun sel w => TracedTo ws trace stdin.isatty sel.id w) sels traced) :
    WorksFrom ws trace stdin sels (worksOf (sels.zip traced)) := by
  obtain ⟨hmap, hfirst⟩ := worksOf_spec (sels.zip traced)
  rw [List.map_snd_zip h.length_eq.ge] at hmap
  refine ⟨⟨traced, h, hmap, hfirst⟩, ?_⟩
  have hroots : (traced.eraseDups.map ExportWork.rootId).Nodup := by
    refine List.Nodup.map_on (fun w hw w' hw' hroot => ?_) (Uniq.nodup_eraseDups traced)
    obtain ⟨s, -, hs⟩ := exists_of_mem_traced h (List.mem_eraseDups.mp hw)
    obtain ⟨s', -, hs'⟩ := exists_of_mem_traced h (List.mem_eraseDups.mp hw')
    exact hs.eq_of_root hs' hroot
  rwa [← hmap, List.map_map] at hroots

/-- Works that are built are those of the selections, which were all traced. -/
theorem exportBuildWorks_eq_ok {dirs : RecordDirs} {workspace : Bytes} {files : RidmapFiles}
    {sel : TaskSel} {works : List SelectedWork}
    (h : tpbcliTaskExportBuildWorks dirs workspace files sel trace stdin ws = .ok works ws') :
    ws' = ws ∧ works ≠ [] ∧ ∃ sels traced,
      sfExportResolveInitSels dirs workspace files sel = .ok sels ∧
      List.Forall₂ (fun sel w => TracedTo ws trace stdin.isatty sel.id w) sels traced ∧
      works = worksOf (sels.zip traced) := by
  obtain ⟨sels, ws₁, hsels, hrest⟩ := bind_eq_ok.mp h
  obtain ⟨works', ws₂, hworks, hend⟩ := bind_eq_ok.mp hrest
  rw [propagate_eq_ok] at hsels
  rcases hres : sfExportResolveInitSels dirs workspace files sel with e | sels'
  · rw [hres] at hsels
    cases hsels
  · rw [hres] at hsels
    cases hsels
    obtain ⟨rfl, traced, htraced, rfl⟩ := buildWorks_eq_ok hworks
    split at hend
    · cases hend
    · next hne =>
        cases hend
        exact ⟨rfl, by simpa using hne, sels, traced, rfl, htraced, rfl⟩

/-- **The works of an export.** However the tasks are selected, and whatever is answered, each
selected record is traced to the entry it is derived to, or kept as the option says; what is
selected more than once becomes one work, at the place of the first of these selections; and no
two works are of the same root. -/
theorem export_works {dirs : RecordDirs} {workspace : Bytes} {files : RidmapFiles} {sel : TaskSel}
    {works : List SelectedWork}
    (h : tpbcliTaskExportBuildWorks dirs workspace files sel trace stdin ws = .ok works ws') :
    ws' = ws ∧ works ≠ [] ∧ ∃ sels, sfExportResolveInitSels dirs workspace files sel = .ok sels ∧
      WorksFrom ws trace stdin sels works := by
  obtain ⟨hws, hne, sels, traced, hsels, htraced, rfl⟩ := exportBuildWorks_eq_ok h
  exact ⟨hws, hne, sels, hsels, worksFrom_worksOf htraced⟩

end Works

/-! ### Selections that nobody is asked about -/

section Traced

variable {ws : Workspace} {trace : ExportTrace} {stdin : Stdin}

/-- The works of selections whose traces do not ask, each once. -/
theorem exportBuildWorks_traced {dirs : RecordDirs} {workspace : Bytes} {files : RidmapFiles}
    {sel : TaskSel} {sels : List InitSel}
    (hsels : sfExportResolveInitSels dirs workspace files sel = .ok sels) (hne : sels ≠ [])
    {traced : Id20 → ExportWork} (h : ∀ x ∈ sels.map InitSel.id,
      sfExportTraceOne trace x stdin ws = .ok (traced x, stdin) ws) :
    ∃ works, tpbcliTaskExportBuildWorks dirs workspace files sel trace stdin ws = .ok works ws ∧
      works.map SelectedWork.work = ((sels.map InitSel.id).map traced).eraseDups := by
  set pairs := sels.map fun sel => (sel, traced sel.id) with hpairs
  have hbuild : buildWorks trace sels stdin [] ws = .ok (worksOf pairs) ws :=
    buildWorks_of_traced fun sel hsel => h sel.id (List.mem_map_of_mem hsel)
  have hworks : (worksOf pairs).map SelectedWork.work =
      ((sels.map InitSel.id).map traced).eraseDups := by
    rw [(worksOf_spec pairs).1, hpairs, List.map_map, List.map_map]
    rfl
  refine ⟨worksOf pairs, ?_, hworks⟩
  have hres : propagate .cliMisc
      (liftExcept (sfExportResolveInitSels dirs workspace files sel)) ws = .ok sels ws := by
    rw [propagate_eq_ok, hsels]
    rfl
  refine bind_then hres (bind_then hbuild ?_)
  have hworks_ne : (worksOf pairs).isEmpty = false := by
    rw [List.isEmpty_eq_false_iff]
    intro hnil
    rw [hnil, List.map_nil] at hworks
    exact Uniq.eraseDups_ne_nil (by simpa using hne) hworks.symm
  rw [hworks_ne]
  rfl

end Traced

/-- A RIDMAP with a task and its capsule. -/
def pairRidmap : RidmapFiles := ⟨some (ridmapText [idOf 1, idOf 2]), none⟩

theorem resolve_pairRidmap :
    sfExportResolveInitSels (fun _ => none) [] pairRidmap .fromLs =
      .ok [⟨idOf 1, 114 :: formatD 0, 0⟩, ⟨idOf 2, 114 :: formatD 1, 1⟩] := by
  have hpath : tpbcliTaskRidmapPath [] = .ok (tmpDir ++ ridmapName) := rfl
  have hmap : tpbcliTaskRidmapRead [] pairRidmap = .ok [idOf 1, idOf 2] :=
    (ridmapRead_ridmapText hpath rfl).mpr (by simp)
  rw [sfExportResolveInitSels, lsSels, hmap]
  rfl

/-- An export to the entry takes the capsule for both. -/
theorem buildWorks_pairRidmap : ∃ works,
    tpbcliTaskExportBuildWorks (fun _ => none) [] pairRidmap .fromLs .toEntry ⟨false, []⟩
      pairWorkspace = .ok works pairWorkspace ∧
    works.map SelectedWork.work = [⟨idOf 2, none⟩] := by
  obtain ⟨hmember, hcapsule⟩ := pairWorkspace_follow
  have htrace : ∀ x ∈ [idOf 1, idOf 2], sfExportTraceOne .toEntry x ⟨false, []⟩ pairWorkspace =
      .ok (⟨idOf 2, none⟩, ⟨false, []⟩) pairWorkspace := by
    rw [List.forall_mem_cons, List.forall_mem_singleton]
    exact ⟨bind_then (bind_then (propagate_eq_ok.mpr hmember) rfl) rfl,
      bind_then (bind_then (propagate_eq_ok.mpr hcapsule) rfl) rfl⟩
  exact exportBuildWorks_traced resolve_pairRidmap (List.cons_ne_nil _ _) htrace

/-- The two selections make one work. -/
theorem export_works_pair : ∃ works,
    tpbcliTaskExportBuildWorks (fun _ => none) [] pairRidmap .fromLs .toEntry ⟨false, []⟩
      pairWorkspace = .ok works pairWorkspace ∧
    works.map SelectedWork.work = [⟨idOf 2, none⟩] ∧
    ∃ sels, sels.map InitSel.id = [idOf 1, idOf 2] ∧
      WorksFrom pairWorkspace .toEntry ⟨false, []⟩ sels works := by
  obtain ⟨works, hbuild, hworks⟩ := buildWorks_pairRidmap
  obtain ⟨-, -, sels, hsels, hfrom⟩ := export_works hbuild
  rw [resolve_pairRidmap] at hsels
  cases hsels
  exact ⟨works, hbuild, hworks, _, rfl, hfrom⟩

end TPBench
