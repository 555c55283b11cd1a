import TPBench.Task.Selection

/-!
# The Files of an Export

An export may fail anywhere (`Export.lean`). This module says what it
leaves when no call fails: the two files of each work that was selected, in the directory of the
work, and with a capsule the files of its members.

## Main results

* `export_writes_works`: the two files of every work are written.
* `tpbcliTaskExport_capsule`: a capsule is written with its members, and the export succeeds.
-/

open CFile

namespace TPBench

/-! ### What an export writes -/

/-- No call of the export fails, and no member is left out. -/
structure ExportInput.Obliging (I : ExportInput) : Prop where
  fault : ∀ call, I.fault call = none
  dirFault : ∀ i, I.dirFault i = none
  filters : I.filters = []

/-- The files a state has are there later. -/
def HasFiles (s s' : ExportState) : Prop :=
  ∀ k, s.ledger.files k = true → s'.ledger.files k = true

/-- Both files of a pair are there. -/
def PairWritten (s : ExportState) (t : ExportTarget) : Prop :=
  ∀ part, s.ledger.files (t, part) = true

/-- The pair of a work in the directory `dir`, where `v` is the record of its root. -/
def ExportWork.target (w : ExportWork) (dir : ℕ) (v : RecordView TaskAttr) : ExportTarget :=
  match w.single with
  | some id => ⟨dir, false, id⟩
  | none => ⟨dir, tpbcliTaskConfirmCapsule v, w.rootId⟩

section Writes

variable {I : ExportInput} {s : ExportState}

theorem HasFiles.refl (s : ExportState) : HasFiles s s := fun _ h => h

theorem HasFiles.trans {s₁ s₂ s₃ : ExportState} (h₁ : HasFiles s₁ s₂) (h₂ : HasFiles s₂ s₃) :
    HasFiles s₁ s₃ :=
  fun k hk => h₂ k (h₁ k hk)

theorem HasFiles.pair {s' : ExportState} (h : HasFiles s s') {t : ExportTarget}
    (ht : PairWritten s t) : PairWritten s' t :=
  fun part => h _ (ht part)

theorem exportRead_eq (hI : I.Obliging) (call : ExportCall) (id : Id20) :
    exportRead I call id =
      match tpbRafRecordReadTask id true I.ws with
      | .ok v _ => .ok v
      | .error e _ => .error e := by
  cases hread : tpbRafRecordReadTask id true I.ws with
  | ok v ws => simp only [exportRead, hI.fault, hread]
  | error e ws => simp only [exportRead, hI.fault, hread]

theorem exportRead_ok (hI : I.Obliging) {id : Id20} {v : RecordView TaskAttr} {ws : Workspace}
    (hread : tpbRafRecordReadTask id true I.ws = .ok v ws) (call : ExportCall) :
    exportRead I call id = .ok v := by
  rw [exportRead_eq hI, hread]

/-- What writing a pair comes to: its files are there, no file is taken away, and no failure is
counted. -/
structure Wrote (t : ExportTarget) (s s' : ExportState) : Prop where
  files : HasFiles s s'
  pair : PairWritten s' t
  fail : s'.ledger.fail = s.ledger.fail

/-- A pair is written. -/
theorem sfExportPair_run (hI : I.Obliging) (work : ℕ) (member : Option ℕ) (t : ExportTarget)
    (s : ExportState) : ∃ s', sfExportPair I work member t s = .ok () s' ∧ Wrote t s s' := by
  simp only [sfExportPair, sfAtomicFile, hI.fault]
  refine ⟨_, rfl, fun k hk => ?_, fun part => ?_, rfl⟩
  · simp only [Function.update_apply]
    split_ifs
    · rfl
    · rfl
    · exact hk
  · simp only [Function.update_apply]
    cases part with
    | metaFile => simp
    | dataFile => simp

/-- The pair of a record is written if the record can be read. -/
theorem sfExportOneId_run (hI : I.Obliging) {t : ExportTarget} {v : RecordView TaskAttr}
    (hread : tpbRafRecordReadTask t.id true I.ws = .ok v I.ws) (work : ℕ) (member : Option ℕ)
    (s : ExportState) : ∃ s', sfExportOneId I work member t s = .ok () s' ∧ Wrote t s s' := by
  obtain ⟨s₁, hpair, hwrote⟩ := sfExportPair_run hI work member t s
  simp only [sfExportOneId, exportRead_ok hI hread, hpair]
  exact ⟨_, rfl, hwrote.files, hwrote.pair, hwrote.fail⟩

/-- The members of a capsule take no file away. -/
theorem hasFiles_memberLoop (hI : I.Obliging) (work i : ℕ) (ids seen : List Id20)
    (s : ExportState) : HasFiles s (memberLoop I work i ids seen s) := by
  induction ids generalizing i seen s with
  | nil => exact .refl s
  | cons id ids ih =>
      rw [memberLoop]
      rcases hread : tpbRafRecordReadTask id true I.ws with ⟨v, ws⟩ | ⟨e, ws⟩
      · obtain rfl := tpbRafRecordReadTask_ws hread
        simp only [exportRead_ok hI hread]
        split
        · exact ih (i + 1) seen s
        · obtain ⟨s₁, hone, hwrote⟩ :=
            @sfExportOneId_run I hI ⟨work, false, id⟩ v hread work (some i) s
          simp only [hone]
          exact hwrote.files.trans (ih (i + 1) _ s₁)
      · have hnote : HasFiles s (s.note ExportLedger.countFail (unreadMember I i id)) := .refl s
        simp only [exportRead_eq hI, hread]
        exact hnote.trans (ih (i + 1) seen _)

/-- The members of a capsule that can all be read are all written, unless they were before. -/
theorem memberLoop_run (hI : I.Obliging) (work i : ℕ) {ids seen : List Id20}
    (hread : ∀ id ∈ ids, ∃ v, tpbRafRecordReadTask id true I.ws = .ok v I.ws) {s : ExportState}
    (hseen : ∀ id ∈ seen, PairWritten s ⟨work, false, id⟩) :
    (∀ id ∈ ids, PairWritten (memberLoop I work i ids seen s) ⟨work, false, id⟩) ∧
      (memberLoop I work i ids seen s).ledger.fail = s.ledger.fail := by
  induction ids generalizing i seen s with
  | nil => exact ⟨by simp, rfl⟩
  | cons id ids ih =>
      obtain ⟨v, hv⟩ := hread id List.mem_cons_self
      have hrest : ∀ id ∈ ids, ∃ v, tpbRafRecordReadTask id true I.ws = .ok v I.ws :=
        fun x hx => hread x (List.mem_cons_of_mem _ hx)
      have hpasses : sfMemberPasses I.filters i v.attr.tid = true := by
        rw [hI.filters]
        rfl
      rw [memberLoop]
      simp only [exportRead_ok hI hv, hpasses, Bool.not_true, Bool.false_or]
      by_cases hmem : id ∈ seen
      · simp only [hmem, decide_true, if_true]
        obtain ⟨hwritten, hfail⟩ := ih (i + 1) hrest hseen
        refine ⟨?_, hfail⟩
        rw [List.forall_mem_cons]
        exact ⟨(hasFiles_memberLoop hI _ _ _ _ _).pair (hseen id hmem), hwritten⟩
      · obtain ⟨s₁, hone, hwrote⟩ :=
          @sfExportOneId_run I hI ⟨work, false, id⟩ v hv work (some i) s
        simp only [hmem, decide_false, Bool.false_eq_true, if_false, hone]
        have hseen' : ∀ x ∈ seenStep seen id, PairWritten s₁ ⟨work, false, x⟩ := by
          intro x hx
          have hx' : x ∈ seen ∨ x = id := by
            rw [seenStep] at hx
            split_ifs at hx
            · simpa using hx
            · exact .inl hx
          rcases hx' with hx' | rfl
          · exact hwrote.files.pair (hseen x hx')
          · exact hwrote.pair
        obtain ⟨hwritten, hfail⟩ := ih (i + 1) hrest hseen'
        refine ⟨?_, hfail.trans hwrote.fail⟩
        rw [List.forall_mem_cons]
        exact ⟨(hasFiles_memberLoop hI _ _ _ _ _).pair hwrote.pair, hwritten⟩

/-- **The step lemma**: a work is written to its directory, and no file is taken away. -/
theorem sfExportWork_run (hI : I.Obliging) {w : ExportWork} {v : RecordView TaskAttr}
    (hread : tpbRafRecordReadTask w.rootId true I.ws = .ok v I.ws)
    (hsingle : w.single = none ∨ w.single = some w.rootId) (dir : ℕ) (s : ExportState) :
    HasFiles s (endState (sfExportWork I dir w s)) ∧
      PairWritten (endState (sfExportWork I dir w s)) (w.target dir v) := by
  have hnofilter : ¬ (I.filters ≠ [] ∧ w.single.isSome = true) := by simp [hI.filters]
  rw [sfExportWork, if_neg hnofilter, hI.dirFault]
  rcases hsingle with hnone | hsome
  · have hnofilter' : ¬ (I.filters ≠ [] ∧ (!tpbcliTaskConfirmCapsule v) = true) := by
      simp [hI.filters]
    obtain ⟨s₁, hone, hwrote⟩ :=
      @sfExportOneId_run I hI ⟨dir, tpbcliTaskConfirmCapsule v, w.rootId⟩ v hread dir none s
    simp only [ExportWork.target, hnone, exportRead_ok hI hread, if_neg hnofilter', hone]
    split_ifs
    · rw [exportMembers]
      split
      · exact ⟨hwrote.files, hwrote.pair⟩
      · next ids _ =>
          have hmembers := hasFiles_memberLoop hI dir 0 ids [] s₁
          exact ⟨HasFiles.trans hwrote.files hmembers, hmembers.pair hwrote.pair⟩
    · exact ⟨hwrote.files, hwrote.pair⟩
  · obtain ⟨s₁, hone, hwrote⟩ :=
      @sfExportOneId_run I hI ⟨dir, false, w.rootId⟩ v hread dir none s
    simp only [ExportWork.target, hsome, hone]
    exact ⟨hwrote.files, hwrote.pair⟩

/-- The works are written to their directories, from the directory `i` on. -/
theorem exportWorks_run (hI : I.Obliging) {works : List ExportWork}
    (hworks : ∀ w ∈ works, ∃ v, tpbRafRecordReadTask w.rootId true I.ws = .ok v I.ws ∧
      (w.single = none ∨ w.single = some w.rootId)) (i : ℕ) (finalErr : Option Err)
    (s : ExportState) :
    HasFiles s (exportWorks I i works finalErr s).2 ∧
      ∀ (j : ℕ) (w : ExportWork) (v : RecordView TaskAttr), works[j]? = some w →
        tpbRafRecordReadTask w.rootId true I.ws = .ok v I.ws →
        PairWritten (exportWorks I i works finalErr s).2 (w.target (i + j) v) := by
  induction works generalizing i finalErr s with
  | nil => exact ⟨.refl s, fun j w v hw => by simp at hw⟩
  | cons w works ih =>
      obtain ⟨v, hread, hsingle⟩ := hworks w List.mem_cons_self
      obtain ⟨hkeep, hwritten⟩ := sfExportWork_run hI hread hsingle i s
      have hstep : ∃ e, exportWorks I i (w :: works) finalErr s =
          exportWorks I (i + 1) works e (endState (sfExportWork I i w s)) := by
        rw [exportWorks]
        rcases sfExportWork I i w s with ⟨u, s₁⟩ | ⟨e, s₁⟩
        · exact ⟨finalErr, rfl⟩
        · exact ⟨some e, rfl⟩
      obtain ⟨e, hstep⟩ := hstep
      obtain ⟨hrest, hall⟩ := ih (fun w hw => hworks w (List.mem_cons_of_mem _ hw)) (i + 1) e
        (endState (sfExportWork I i w s))
      rw [hstep]
      refine ⟨hkeep.trans hrest, fun j x u hj hu => ?_⟩
      cases j with
      | zero =>
          obtain rfl := Option.some.inj hj
          rw [hread] at hu
          cases hu
          exact hrest.pair hwritten
      | succ j =>
          rw [← Nat.add_assoc, Nat.add_right_comm]
          exact hall j x u hj hu

/-- **The works of a selection are written.** However the tasks are selected, when no call fails
and there is no filter, the export writes both files of every work to the directory of the work. -/
theorem export_writes_works {dirs : RecordDirs} {workspace : Bytes} {files : RidmapFiles}
    {sel : TaskSel} {trace : ExportTrace} {stdin : Stdin} {works : List SelectedWork}
    {ws' : Workspace}
    (hbuild : tpbcliTaskExportBuildWorks dirs workspace files sel trace stdin I.ws =
      .ok works ws')
    (hI : I.Obliging) (hsel : I.works = .ok (works.map SelectedWork.work)) :
    ∀ (i : ℕ) (w : SelectedWork), works[i]? = some w →
      ∃ v, tpbRafRecordReadTask w.work.rootId true I.ws = .ok v I.ws ∧
        (w.work.target i v).dir = i ∧ (w.work.target i v).id = w.work.rootId ∧
        PairWritten (endState (tpbcliTaskExport I)) (w.work.target i v) := by
  obtain ⟨-, -, sels, traced, -, htraced, hworks⟩ := exportBuildWorks_eq_ok hbuild
  have hmap : works.map SelectedWork.work = traced.eraseDups := by
    rw [hworks, (worksOf_spec _).1, List.map_snd_zip htraced.length_eq.ge]
  have hread : ∀ w ∈ works.map SelectedWork.work,
      ∃ v, tpbRafRecordReadTask w.rootId true I.ws = .ok v I.ws ∧
        (w.single = none ∨ w.single = some w.rootId) := by
    intro w hw
    rw [hmap, List.mem_eraseDups] at hw
    obtain ⟨sel, -, hto⟩ := exists_of_mem_traced htraced hw
    obtain ⟨v, hv, hsingle⟩ := hto.root
    refine ⟨v, hv, ?_⟩
    rw [hsingle]
    split_ifs
    · exact .inl rfl
    · exact .inr rfl
  obtain ⟨-, hall⟩ := exportWorks_run hI hread 0 none (.start I)
  have hend : endState (tpbcliTaskExport I) =
      (exportWorks I 0 (works.map SelectedWork.work) none (.start I)).2 := by
    rw [tpbcliTaskExport, hsel]
    rcases hrun : exportWorks I 0 (works.map SelectedWork.work) none (.start I) with
      ⟨- | e, s⟩
    · simp only [hrun]
      split_ifs
      · rfl
      · rfl
    · simp only [hrun]
      rfl
  intro i w hi
  have hi' : (works.map SelectedWork.work)[i]? = some w.work := by
    rw [List.getElem?_map, hi, Option.map_some]
  obtain ⟨v, hv, hsingle⟩ := hread _ (List.mem_map_of_mem (List.mem_of_getElem? hi))
  have htarget : (w.work.target i v).dir = i ∧ (w.work.target i v).id = w.work.rootId := by
    rcases hsingle with hnone | hsome
    · simp only [ExportWork.target, hnone, and_self]
    · simp only [ExportWork.target, hsome, and_self]
  refine ⟨v, hv, htarget.1, htarget.2, ?_⟩
  rw [hend]
  have hpair := hall i w.work v hi' hv
  rwa [Nat.zero_add] at hpair

/-- An export of which no call fails, without filters. -/
def plainExport (ws : Workspace) (defined : ∀ id, ReadDefined ws id) (works : List ExportWork) :
    ExportInput where
  ws
  fault _ := none
  dirFault _ := none
  before _ := false
  filters := []
  works := .ok works
  defined

theorem obliging_plainExport (ws : Workspace) (defined : ∀ id, ReadDefined ws id)
    (works : List ExportWork) : (plainExport ws defined works).Obliging :=
  ⟨fun _ => rfl, fun _ => rfl, rfl⟩

/-- A task and its capsule are kept as they are: both pairs are written, each to a directory of
its own. -/
theorem export_writes_works_pair : ∃ works,
    tpbcliTaskExportBuildWorks (fun _ => none) [] pairRidmap .fromLs .keepCurrent ⟨false, []⟩
      pairWorkspace = .ok works pairWorkspace ∧
    ∃ e, endState (tpbcliTaskExport (plainExport pairWorkspace readDefined_pairWorkspace
        (works.map SelectedWork.work))) = e ∧
      PairWritten e ⟨0, false, idOf 1⟩ ∧ PairWritten e ⟨1, true, idOf 2⟩ := by
  obtain ⟨hmember, hcapsule⟩ := pairWorkspace_read
  have htrace : ∀ x ∈ [idOf 1, idOf 2],
      sfExportTraceOne .keepCurrent x ⟨false, []⟩ pairWorkspace =
        .ok (⟨x, if x = idOf 1 then some x else none⟩, ⟨false, []⟩) pairWorkspace := by
    rw [List.forall_mem_cons, List.forall_mem_singleton]
    exact ⟨bind_then (traceKeepCurrent_eq_ok.mpr ⟨rfl, _, hmember, rfl⟩) rfl,
      bind_then (traceKeepCurrent_eq_ok.mpr ⟨rfl, _, hcapsule, rfl⟩) rfl⟩
  obtain ⟨works, hbuild, hworks⟩ :=
    exportBuildWorks_traced resolve_pairRidmap (List.cons_ne_nil _ _) htrace
  have hwritten := @export_writes_works (plainExport pairWorkspace readDefined_pairWorkspace
    (works.map SelectedWork.work)) _ _ _ _ _ _ _ _ hbuild (obliging_plainExport _ _ _) rfl
  have hwork : ∀ i : ℕ, works[i]?.map SelectedWork.work =
      ([⟨idOf 1, some (idOf 1)⟩, ⟨idOf 2, none⟩] : List ExportWork)[i]? := by
    intro i
    rw [← List.getElem?_map, hworks]
    rfl
  refine ⟨works, hbuild, _, rfl, ?_, ?_⟩
  · obtain ⟨w, hw, hwk⟩ := Option.map_eq_some_iff.mp (hwork 0)
    obtain ⟨v, -, -, -, hpair⟩ := hwritten 0 w hw
    rw [hwk] at hpair
    exact hpair
  · obtain ⟨w, hw, hwk⟩ := Option.map_eq_some_iff.mp (hwork 1)
    obtain ⟨v, hv, -, -, hpair⟩ := hwritten 1 w hw
    rw [hwk] at hv hpair
    obtain rfl : pairCapsule.record.view = v :=
      (EStateM.Result.ok.inj (hcapsule.symm.trans hv)).1
    rw [ExportWork.target, pairCapsule_confirmed] at hpair
    exact hpair

/-- **A capsule is written as a whole**, when its members can all be read and no call fails: its
own pair, and one for each member. -/
theorem tpbcliTaskExport_capsule (hI : I.Obliging) {root : Id20} {v : RecordView TaskAttr}
    (hread : tpbRafRecordReadTask root true I.ws = .ok v I.ws)
    (hcap : tpbcliTaskConfirmCapsule v = true) {ids : List Id20}
    (hids : tpbcliTaskReadCapsuleMembers v = .ok ids)
    (hmembers : ∀ id ∈ ids, ∃ u, tpbRafRecordReadTask id true I.ws = .ok u I.ws)
    (hworks : I.works = .ok [⟨root, none⟩]) :
    ∃ s, tpbcliTaskExport I = .ok () s ∧ PairWritten s ⟨0, true, root⟩ ∧
      ∀ id ∈ ids, PairWritten s ⟨0, false, id⟩ := by
  obtain ⟨s₁, hone, hwrote⟩ := @sfExportOneId_run I hI ⟨0, true, root⟩ v hread 0 none (.start I)
  obtain ⟨hwritten, hfail⟩ :=
    @memberLoop_run I hI 0 0 ids [] hmembers s₁ fun _ h => absurd h List.not_mem_nil
  have hwork : sfExportWork I 0 ⟨root, none⟩ (.start I) =
      .ok () (memberLoop I 0 0 ids [] s₁) := by
    have hnofilter : ¬ (I.filters ≠ [] ∧ (none : Option Id20).isSome = true) := by simp
    have hnofilter' : ¬ (I.filters ≠ [] ∧ (!true) = true) := by simp
    rw [sfExportWork, if_neg hnofilter, hI.dirFault]
    simp only [exportRead_ok hI hread, hcap, if_neg hnofilter', hone, if_true, exportMembers, hids]
  have hzero : ¬ (memberLoop I 0 0 ids [] s₁).ledger.fail > 0 := by
    rw [hfail, hwrote.fail]
    exact Nat.lt_irrefl 0
  refine ⟨memberLoop I 0 0 ids [] s₁, ?_, (hasFiles_memberLoop hI _ _ _ _ _).pair hwrote.pair,
    hwritten⟩
  rw [tpbcliTaskExport, hworks]
  simp only [exportWorks, hwork, if_neg hzero]

end Writes

end TPBench
