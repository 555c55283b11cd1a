import TPBench.Mpi.Logical
import TPBench.Task.ExportFiles

/-!
# The Export of an MPI Run

`Logical.lean` follows the records of an MPI run to the one task they make. This module follows
them to the files: whichever of its records are selected, by number, by digits or by the listing,
an export to the entry is of the capsule, and writes the capsule and the records of all ranks.

## Main results

* `mpik_run_exported`: the export of an MPI run writes every record of it.
-/

open CFile Conc

namespace TPBench

section Result

variable {n : ℕ} {W : MpiWorld n} {ws : Workspace} {t : List (Fin (n + 1))} {s : MpikState n}
  {r : Fin (n + 1) → MpikResult} {dirs : RecordDirs} {workspace : Bytes} {files : RidmapFiles}
  {sel : TaskSel} {sels : List InitSel}

/-- Selections of records of the run are one work. -/
theorem OneTask.works {cap : Id20} (h : OneTask W cap ws)
    (hsels : sfExportResolveInitSels dirs workspace files sel = .ok sels)
    (hrec : ∀ x ∈ sels, x.id = cap ∨ ∃ i, x.id = W.taskId i) (stdin : Stdin) :
    ∃ works, tpbcliTaskExportBuildWorks dirs workspace files sel .toEntry stdin ws =
        .ok works ws ∧
      works.map SelectedWork.work = [⟨cap, none⟩] := by
  have hne := sfExportResolveInitSels_ne_nil hsels
  have htrace : ∀ x ∈ sels.map InitSel.id,
      sfExportTraceOne .toEntry x stdin ws = .ok (⟨cap, none⟩, stdin) ws := by
    intro x hx
    obtain ⟨y, hy, rfl⟩ := List.mem_map.mp hx
    have hfollow : tpbcliTaskFollowDerive y.id ws = .ok cap ws := by
      rcases hrec y hy with hcap | ⟨i, hi⟩
      · rw [hcap, h.self]
      · rw [hi, h.follow i]
    exact bind_then (bind_then (propagate_eq_ok.mpr hfollow) rfl) rfl
  obtain ⟨works, hbuild, hworks⟩ := exportBuildWorks_traced hsels hne htrace
  refine ⟨works, hbuild, hworks.trans ?_⟩
  obtain ⟨k, hk⟩ := Nat.exists_eq_succ_of_ne_zero (List.length_pos_iff.mpr hne).ne'
  rw [List.map_const', List.length_map, hk, List.replicate_succ, List.eraseDups_cons]
  simp

/-- **The export of an MPI run.** After any run of the kernel in which the ranks return success
and the IDs were new, any selection of records of ranks and of the capsule is exported to its
entry as one work, that of the capsule; and when no call of it fails, the export succeeds and has
written the files of the capsule and of the record of every rank. -/
theorem mpik_run_exported (hwf : ∀ i x, (W.write i).prepared = .ok x → x.WellFormed)
    (hrun : Run (SpmdStep (mpikWriteTask W)) (Ranks.start ws .write) t s)
    (hret : ∀ i, s.point i = .done (r i)) (h0 : (r 0).err = 0)
    (hnew : ∀ i, ws.files (.record .task (W.taskId i)) = none)
    (hcapNew : ws.files (.record .task (r 0).tcapId) = none)
    (hcapZero : (r 0).tcapId ≠ zeroArr 20) (hother : ∀ i, W.taskId i ≠ (r 0).tcapId)
    (hsels : sfExportResolveInitSels dirs workspace files sel = .ok sels)
    (hrec : ∀ x ∈ sels, x.id = (r 0).tcapId ∨ ∃ i, x.id = W.taskId i) (stdin : Stdin) :
    ∃ works, tpbcliTaskExportBuildWorks dirs workspace files sel .toEntry stdin s.shared =
        .ok works s.shared ∧
      works.map SelectedWork.work = [⟨(r 0).tcapId, none⟩] ∧
      ∀ I : ExportInput, I.ws = s.shared → I.Obliging →
        I.works = .ok (works.map SelectedWork.work) →
        ∃ e, tpbcliTaskExport I = .ok () e ∧ PairWritten e ⟨0, true, (r 0).tcapId⟩ ∧
          ∀ i, PairWritten e ⟨0, false, W.taskId i⟩ := by
  have hone := oneTask_of_run hwf hrun hret h0 hnew hcapNew hcapZero hother
  obtain ⟨works, hbuild, hworks⟩ := hone.works hsels hrec stdin
  refine ⟨works, hbuild, hworks, fun I hws hI hsel => ?_⟩
  obtain ⟨v, hread, hconf, hmembers, -, hsize⟩ := hone.capsule
  have hids : tpbcliTaskReadCapsuleMembers v = .ok ((List.finRange (n + 1)).map W.taskId) := by
    rw [← hmembers]
    refine tpbcliTaskReadCapsuleMembers_eq_ok hconf ?_
    have hn := W.nprocs_le
    rw [intMax] at hn
    omega
  have hranks : ∀ x ∈ (List.finRange (n + 1)).map W.taskId,
      ∃ u, tpbRafRecordReadTask x true I.ws = .ok u I.ws := by
    intro x hx
    obtain ⟨i, -, rfl⟩ := List.mem_map.mp hx
    obtain ⟨u, hu, -⟩ := hone.rank i
    exact ⟨u, hws ▸ hu⟩
  rw [hworks] at hsel
  obtain ⟨e, hok, hroot, hall⟩ :=
    tpbcliTaskExport_capsule hI (hws ▸ hread) hconf hids hranks hsel
  exact ⟨e, hok, hroot, fun i => hall _ (List.mem_map_of_mem (List.mem_finRange i))⟩

/-- The two ranks are in the RIDMAP: the capsule and both records are written. -/
theorem mpik_run_exported_pair : ∃ t s,
    Run (SpmdStep (mpikWriteTask twoWorld)) (Ranks.start patchSample .write) t s ∧
      (∀ i, s.point i = .done (twoResult i)) ∧
      ∃ works, tpbcliTaskExportBuildWorks (fun _ => none) []
          ⟨some (ridmapText [idOf 1, idOf 3]), none⟩ .fromLs .toEntry ⟨false, []⟩ s.shared =
            .ok works s.shared ∧
        ∃ defined e, tpbcliTaskExport (plainExport s.shared defined
            (works.map SelectedWork.work)) = .ok () e ∧
          PairWritten e ⟨0, true, idOf 2⟩ ∧ PairWritten e ⟨0, false, idOf 1⟩ ∧
          PairWritten e ⟨0, false, idOf 3⟩ := by
  obtain ⟨t, s, hrun, hdone⟩ := exists_run_twoWorld
  have hmap : tpbcliTaskRidmapRead [] ⟨some (ridmapText [idOf 1, idOf 3]), none⟩ =
      .ok [idOf 1, idOf 3] := by
    have hpath : tpbcliTaskRidmapPath [] = .ok (tmpDir ++ ridmapName) := rfl
    exact (ridmapRead_ridmapText hpath rfl).mpr (by simp)
  have hsels : sfExportResolveInitSels (fun _ => none) []
      ⟨some (ridmapText [idOf 1, idOf 3]), none⟩ .fromLs =
        .ok [⟨idOf 1, 114 :: formatD 0, 0⟩, ⟨idOf 3, 114 :: formatD 1, 1⟩] := by
    rw [sfExportResolveInitSels, lsSels, hmap]
    rfl
  obtain ⟨works, hbuild, hworks, hexport⟩ := mpik_run_exported
    (fun _ _ => wellFormed_twoWorld) hrun hdone rfl (fun _ => files_patchSample _)
    (files_patchSample _) (by decide) (by decide) hsels (by
      rw [List.forall_mem_cons, List.forall_mem_singleton]
      exact ⟨.inr ⟨0, rfl⟩, .inr ⟨1, rfl⟩⟩) ⟨false, []⟩
  have hdefined : ∀ x, ReadDefined s.shared x :=
    readDefined_of_run (fun _ _ => wellFormed_twoWorld) hrun files_patchSample
  obtain ⟨e, hok, hcapsule, hranks⟩ := hexport
    (plainExport s.shared hdefined (works.map SelectedWork.work)) rfl
    (obliging_plainExport _ _ _) rfl
  exact ⟨t, s, hrun, hdone, works, hbuild, hdefined, e, hok, hcapsule, hranks 0, hranks 1⟩

end Result

end TPBench
