import TPBench.Conc.Keeps
import TPBench.Task.Log

/-!
# A Batch from its Begin to its End

`tpbcli run` begins a batch, starts the kernels, which write their tasks, and ends the batch.
The end of a batch looks at nothing but the table of tasks (`TPBench.Autorecord`), and the table
is the log of the calls of the kernels (`TPBench.Task.Log`). This module puts the two together.

Between the begin and the end, the calls of the kernels leave the record of the batch as it was
begun, and the environment of the batch can still be counted (`Keeps`). So the end of the batch
succeeds, and the record of the batch, its row and the table of tasks tell the same story
(`batch_session`).
-/

open CFile Conc

namespace TPBench

/-! ### Properties that calls keep -/

section Keeps

variable {α : Type} {Q : Workspace → Prop}

theorem Keeps.propagate {m : WsM α} (mod : Module) (hm : Keeps Q m) :
    Keeps Q (propagate mod m) := by
  intro ws hws
  rw [after_propagate]
  exact hm ws hws

theorem Keeps.faulty {m : WsM α} (fault : Option Err) (hm : Keeps Q m) :
    Keeps Q (faulty fault m) := by
  cases fault with
  | none => exact hm
  | some e => exact fun _ h => h

end Keeps

/-! ### Environments that can be counted -/

/-- The environment has a record and a row. -/
def RtenvStored (id : Int32) (ws : Workspace) : Prop :=
  (∃ r : Record rtenvFormat, ws.files (.rtenv id) = some r.bytes) ∧
    ∃ rows, ws.files (.entry .rtenv) = some (rtenvRow.table rows) ∧ ∃ e ∈ rows, e.id = id

section Rtenv

variable {id : Int32} {ws : Workspace}

/-- Counters are no part of what a row is found by. -/
theorem map_id_addCounters (rows : List RtenvEntry) (a : Int32) (k l : UInt32) :
    (modifyFirst (·.id = a) (RtenvEntry.addCounters k l) rows).map RtenvEntry.id =
      rows.map RtenvEntry.id := by
  rw [modifyFirst]
  refine List.ext_getElem? fun j => ?_
  rw [List.getElem?_map, List.getElem?_map, List.getElem?_modify]
  rcases rows[j]? with - | e
  · rfl
  · by_cases hj : rows.findIdx (fun x => decide (x.id = a)) = j
    · simp [hj, RtenvEntry.addCounters]
    · simp [hj]

theorem keeps_patchTpbe (a : Int32) (k l : UInt32) :
    Keeps (RtenvStored id) (sfPatchTpbeCounters a k l) := by
  rintro ws ⟨⟨r, hr⟩, rows, htable, hex⟩
  by_cases ha : ∃ e ∈ rows, e.id = a
  · rw [sfPatchTpbeCounters_found htable ha]
    refine ⟨⟨r, ?_⟩, _, Workspace.set_files_same _ _ _, ?_⟩
    · rwa [after, Workspace.set_files_of_ne _ _ (by simp)]
    · rw [← List.mem_map, map_id_addCounters]
      exact List.mem_map.mpr hex
  · rw [sfPatchTpbeCounters_none htable fun e he heq => ha ⟨e, he, heq⟩]
    exact ⟨⟨r, hr⟩, rows, htable, hex⟩

theorem keeps_patchTpbr (a : Int32) (k l : UInt32) :
    Keeps (RtenvStored id) (fopenUpdate .rafL3Rtenv (.rtenv a) (patchTpbrCounters k l)) := by
  rintro ws ⟨⟨r, hr⟩, rows, htable, hex⟩
  by_cases ha : a = id
  · subst ha
    rw [fopenUpdate_ok hr (patchTpbrCounters_run r k l)]
    refine ⟨⟨_, Workspace.set_files_same _ _ _⟩, rows, ?_, hex⟩
    rwa [after, Workspace.set_files_of_ne _ _ (by simp)]
  · refine ⟨⟨r, ?_⟩, rows, ?_, hex⟩
    · rwa [after_fopenUpdate _ _ _ (by simpa using Ne.symm ha)]
    · rwa [after_fopenUpdate _ _ _ (by simp)]

/-- Counting for any environment keeps it. -/
theorem keeps_counters (a : Int32) (k l : UInt32) :
    Keeps (RtenvStored id) (tpbRafRecordPatchRtenvCounters a k l) := by
  rw [tpbRafRecordPatchRtenvCounters]
  split_ifs
  · exact fun _ h => h
  · refine (keeps_patchTpbr a k l).bind fun _ ws hws => ?_
    rw [after_orFail]
    exact keeps_patchTpbe a k l ws hws

end Rtenv

/-! ### The record of the batch while tasks are written -/

section Begun

variable {s : BatchState} {batches : List TbatchEntry} {ws ws' : Workspace}
  {calls : List TaskDone}

/-- A batch that was begun: its record has no tasks yet, and its environment is there. -/
structure Begun (s : BatchState) (batches : List TbatchEntry) (ws : Workspace) : Prop where
  record : ws.files (.record .tbatch s.tbatchId) = some s.skeleton.bytes
  table : tbatchRow.Holds ws batches
  rtenv : RtenvStored s.rtenvId ws

/-- The files of a batch. -/
def IsBatchPath (s : BatchState) (p : Path) : Prop :=
  p = .record .tbatch s.tbatchId ∨ p = .entry .tbatch ∨ p = .rtenv s.rtenvId ∨ p = .entry .rtenv

/-- A change of other files. -/
theorem Begun.frame (h : Begun s batches ws)
    (hsame : ∀ p, IsBatchPath s p → ws'.files p = ws.files p) : Begun s batches ws' := by
  obtain ⟨⟨r, hr⟩, rows, hrows, hex⟩ := h.rtenv
  refine ⟨(hsame _ (.inl rfl)).trans h.record, ?_, ⟨r, ?_⟩, rows, ?_, hex⟩
  · have htable : ws'.files (.entry tbatchRow.domain) = ws.files (.entry tbatchRow.domain) :=
      hsame _ (.inr (.inl rfl))
    rw [RowFormat.Holds, htable]
    exact h.table
  · exact (hsame _ (.inr (.inr (.inl rfl)))).trans hr
  · exact (hsame _ (.inr (.inr (.inr rfl)))).trans hrows

/-- A program that leaves these files alone. -/
theorem keeps_begun_of_frames {α : Type} {m : WsM α} (hm : Frames (IsBatchPath s) m) :
    Keeps (Begun s batches) m :=
  fun ws h => h.frame fun p hp => hm ws p hp

/-- The counters of an environment leave the batch as it was begun. -/
theorem keeps_begun_counters (a : Int32) (k l : UInt32) :
    Keeps (Begun s batches) (tpbRafRecordPatchRtenvCounters a k l) := by
  intro ws h
  have hsame := @frames_counters (fun p => p = .record .tbatch s.tbatchId ∨ p = .entry .tbatch)
    a (by simp) (by simp) k l ws
  refine ⟨(hsame _ (.inl rfl)).trans h.record, ?_, keeps_counters a k l ws h.rtenv⟩
  have htable : (after (tpbRafRecordPatchRtenvCounters a k l ws)).files
      (.entry tbatchRow.domain) = ws.files (.entry tbatchRow.domain) := hsame _ (.inr rfl)
  rw [RowFormat.Holds, htable]
  exact h.table

theorem frames_appendTask (e : TaskEntry) : Frames (IsBatchPath s) (tpbRafEntryAppendTask e) :=
  frames_entryAppendRow taskRow e (by simp [IsBatchPath, taskRow])

/-- The record of a task is no file of the batch. -/
theorem Begun.set_record (h : Begun s batches ws) (x : Id20) (f : Bytes) :
    Begun s batches (ws.set (.record .task x) f) := by
  refine h.frame fun p hp => ws.set_files_of_ne f ?_
  rcases hp with rfl | rfl | rfl | rfl <;> simp

/-- **The step lemma**: a call on tasks keeps the batch. -/
theorem Begun.step (h : Begun s batches ws) {done : TaskDone} (hstep : TaskStep ws done ws') :
    Begun s batches ws' := by
  obtain ⟨call, row⟩ := done
  obtain ⟨-, -, hws⟩ := hstep
  dsimp only at hws
  subst hws
  cases call with
  | write t =>
      rw [TaskCall.run]
      cases himage : t.image with
      | none =>
          rw [write_of_image_none himage]
          exact h
      | some x =>
          rw [write_of_image_some himage]
          refine Keeps.bind ?_ (fun _ => ?_) _ (h.set_record _ _)
          · exact Keeps.propagate _ (Keeps.faulty _ (keeps_begun_of_frames (frames_appendTask _)))
          · exact Keeps.propagate _ (Keeps.faulty _ (keeps_begun_counters _ _ _))
  | create c first =>
      rw [TaskCall.run]
      cases hsource : c.source first ws with
      | none =>
          rw [create_of_source_none hsource]
          exact h
      | some p =>
          rw [(create_of_source_some hsource).1]
          refine Keeps.bind ?_ (fun _ => ?_) _ (h.set_record _ _)
          · exact Keeps.propagate _ (Keeps.faulty _ (keeps_begun_of_frames (frames_appendTask _)))
          · exact Keeps.faulty _ fun _ h => h
  | unfinished task f => exact h.set_record task f
  | append stop capsule task =>
      cases stop with
      | none => exact keeps_begun_of_frames (frames_fopenUpdate (by simp [IsBatchPath])) ws h
      | some k => exact keeps_begun_of_frames (frames_fopenUpdate (by simp [IsBatchPath])) ws h
  | derive fault task target =>
      rcases fault with - | (- | -)
      · exact keeps_begun_of_frames
          (frames_derivation (by simp [IsBatchPath]) (by simp [IsBatchPath]) target) ws h
      · exact h
      · exact keeps_begun_of_frames (frames_fopenUpdate (by simp [IsBatchPath])) ws h

/-- The batch is as it was begun behind any calls. -/
theorem Begun.of_run (h : Begun s batches ws) (hrun : Run TaskStep ws calls ws') :
    Begun s batches ws' :=
  hrun.invariant (P := fun _ ws => Begun s batches ws) h fun _ _ _ _ ih hstep => ih.step hstep

end Begun

/-! ### The whole batch -/

/-- What the row and the record of a batch have in common. -/
structure BatchAgrees (e : TbatchEntry) (a : TbatchAttr) : Prop where
  tbatchId : e.tbatchId = a.tbatchId
  startUtcBits : e.startUtcBits = a.utcBits
  duration : e.duration = a.duration
  hostname : e.hostname = a.hostname
  nkernel : e.nkernel = a.nkernel
  ntask : e.ntask = a.ntask
  nscore : e.nscore = a.nscore
  batchType : e.batchType = a.batchType

/-- A record is read where its file is. -/
theorem recordRead_congr {α : Type} {F : RecordFormat α} {p : Path} {ws ws' ws₁ : Workspace}
    {v : RecordView α} (h : recordRead F p true ws = .ok v ws₁) (hfile : ws'.files p = ws.files p) :
    recordRead F p true ws' = .ok v ws' := by
  obtain ⟨-, f, s, hf, hrun⟩ := fopenRead_eq_ok h
  exact fopenRead_ok (hfile.trans hf) hrun

section Session

variable {s s' : BatchState} {batches : List TbatchEntry} {ws₀ ws₁ ws₂ ws₃ : Workspace}
  {before during : List TaskDone}

/-- A begin writes the record of the batch. -/
theorem tpbRecordBeginBatch_eq_ok (h : tpbRecordBeginBatch s ws₁ = .ok s' ws₂) :
    s' = { s with active := true } ∧
      ws₂ = ws₁.set (.record .tbatch s.tbatchId) s.skeleton.bytes := by
  obtain ⟨u, ws, hwrite, hret⟩ := bind_eq_ok.mp h
  rw [propagate_eq_ok] at hwrite
  cases hret
  cases hwrite
  exact ⟨rfl, rfl⟩

theorem onWorkspace_ok {α : Type} {m : WsM α} {a : α} (h : m ws₁ = .ok a ws₂) :
    onWorkspace m (s, ws₁) = .ok a (s, ws₂) := by
  rw [onWorkspace, h]

/-- The row is appended, and the batch is closed. -/
theorem closeBatch_ok {e : TbatchEntry} (h : tpbRafEntryAppendTbatch e ws₁ = .ok () ws₂) :
    closeBatch e (s, ws₁) = .ok () ({ s with active := false }, ws₂) := by
  rw [closeBatch]
  simp only [h]

/-- The time a batch took. -/
def BatchState.duration (s : BatchState) (endBtimeNs : UInt64) : UInt64 :=
  if s.btimeNs < endBtimeNs then endBtimeNs - s.btimeNs else 0

/-- The end of an active batch, step by step. -/
theorem tpbRecordEndBatch_run {endBtimeNs : UInt64} {matched nkernel : ℕ}
    {ws wsa wsb wsc wsd : Workspace}
    (hscan : sfScanBatch s.tbatchId s.utcBits ws = .ok (matched, nkernel) wsa)
    (hpatch : tpbRafRecordPatchTbatchCounters s.tbatchId (s.duration endBtimeNs)
      (UInt32.ofNat nkernel) (UInt32.ofNat matched) wsa = .ok () wsb)
    (hcounters : tpbRafRecordPatchRtenvCounters s.rtenvId 0 1 wsb = .ok () wsc)
    (happend : tpbRafEntryAppendTbatch (s.entry (s.duration endBtimeNs) nkernel matched) wsc =
      .ok () wsd) :
    tpbRecordEndBatch endBtimeNs ({ s with active := true }, ws) =
      .ok () ({ s with active := false }, wsd) := by
  have hget : (get : BatchM (BatchState × Workspace)) ({ s with active := true }, ws) =
    .ok ({ s with active := true }, ws) ({ s with active := true }, ws) := rfl
  refine bind_then hget ?_
  dsimp only
  rw [if_neg (by simp)]
  refine bind_then (onWorkspace_ok (propagate_eq_ok.mpr hscan)) ?_
  refine bind_then (onWorkspace_ok (propagate_eq_ok.mpr hpatch)) ?_
  refine bind_then (onWorkspace_ok (propagate_eq_ok.mpr hcounters)) ?_
  have hclose : tpbRafEntryAppendTbatch ({ s with active := true }.entry (s.duration endBtimeNs)
    nkernel matched) wsc = .ok () wsd := happend
  exact closeBatch_ok hclose

/-- The tasks of a batch: those that were written for it since it began, and are derived to
nothing. -/
def tasksOf (s : BatchState) (log : List TaskEntry) : List TaskEntry :=
  log.filter fun e => e.tbatchId = s.tbatchId ∧ s.utcBits ≤ e.utcBits ∧ e.deriveTo = zeroArr 20

theorem batchRows_eq (s : BatchState) (log : List TaskEntry) :
    batchRows s.tbatchId s.utcBits log = tasksOf s log := by
  refine List.filter_congr fun e _ => ?_
  rw [Bool.eq_iff_iff, inBatch_iff, decide_eq_true_iff]

/-- **A batch from its begin to its end.** Kernels may write, derive and collect tasks before a
batch and during it, in any order, and any of these calls may fail. Then the end of the batch
succeeds. The record of the batch lists the tasks that were written for the batch since its begin
and are derived to nothing in their rows, each once and in the order in which they were written;
it counts them, and their kernels; its row is the last one of the table of batches and says the
same; and the tasks are read back as tasks of the batch, unless their records are torn. -/
theorem batch_session (hstart : taskRow.Holds ws₀ []) (hbefore : Run TaskStep ws₀ before ws₁)
    (hbatches : tbatchRow.Holds ws₁ batches) (hrtenv : RtenvStored s.rtenvId ws₁)
    (hbegin : tpbRecordBeginBatch s ws₁ = .ok s' ws₂) (hduring : Run TaskStep ws₂ during ws₃)
    (hlen : before.length + during.length ≤ intMax) (hcount : batches.length < intMax)
    (endBtimeNs : UInt64) :
    ∃ ws₄ v e, tpbRecordEndBatch endBtimeNs (s', ws₃) = .ok () ({ s' with active := false }, ws₄) ∧
      tpbRafRecordReadTbatch s.tbatchId true ws₄ = .ok v ws₄ ∧
      v.data = idBytes ((tasksOf s (rowsOf (before ++ during))).map TaskEntry.taskRecordId) ∧
      ((tasksOf s (rowsOf (before ++ during))).map TaskEntry.taskRecordId).Nodup ∧
      v.attr.ntask.toNat = (tasksOf s (rowsOf (before ++ during))).length ∧
      v.attr.nkernel.toNat =
        ((tasksOf s (rowsOf (before ++ during))).map TaskEntry.kernelId).toFinset.card ∧
      tpbRafEntryListTbatch ws₄ = .ok (batches ++ [e]) ws₄ ∧ BatchAgrees e v.attr ∧
      ∀ l ∈ logOf (before ++ during), l.row ∈ tasksOf s (rowsOf (before ++ during)) →
        l.torn = false → ∃ w, tpbRafRecordReadTask l.id true ws₄ = .ok w ws₄ ∧
          w.attr.tbatchId = s.tbatchId ∧ w.attr.deriveTo = l.target := by
  obtain ⟨rfl, rfl⟩ := tpbRecordBeginBatch_eq_ok hbegin
  set log := logOf (before ++ during) with hlog
  -- the table of tasks is the log
  have h₁ := (taskStore_nil (n := 0) hstart).of_run hbefore (by omega)
  have h₂ : TaskStore (0 + before.length)
      (ws₁.set (.record .tbatch s.tbatchId) s.skeleton.bytes) (before.foldl TaskDone.log []) := by
    refine h₁.frame fun p hp => Workspace.set_files_of_ne _ _ ?_
    rcases hp with rfl | ⟨x, rfl⟩ <;> simp
  have h₃ := h₂.of_run hduring (by omega)
  rw [← List.foldl_append, ← logOf, ← hlog] at h₃
  -- and the batch is as it was begun
  have hbegun : Begun s batches (ws₁.set (.record .tbatch s.tbatchId) s.skeleton.bytes) := by
    obtain ⟨⟨r, hr⟩, rows, hrows, hex⟩ := hrtenv
    refine ⟨Workspace.set_files_same _ _ _, ?_, ⟨r, ?_⟩, rows, ?_, hex⟩
    · rw [RowFormat.Holds, Workspace.set_files_of_ne _ _ (by simp)]
      exact hbatches
    · rwa [Workspace.set_files_of_ne _ _ (by simp)]
    · rwa [Workspace.set_files_of_ne _ _ (by simp)]
  have hb := hbegun.of_run hduring
  set rows := rowsOf (before ++ during) with hrowsdef
  have hlist : tpbRafEntryListTask ws₃ = .ok rows ws₃ := h₃.list (by omega)
  have hlog' : rows.length ≤ intMax := by
    rw [hrowsdef, rowsOf, List.length_map]
    exact h₃.count.trans (by omega)
  have hfound := batchRows_eq s rows
  have hnodup : ((tasksOf s rows).map TaskEntry.taskRecordId).Nodup := by
    have hdistinct : (rows.map TaskEntry.taskRecordId).Nodup := by
      rw [hrowsdef, rowsOf, List.map_map]
      exact h₃.paired.distinct
    exact hdistinct.sublist (List.filter_sublist.map _)
  set found := tasksOf s rows with hfounddef
  have hmatched : found.length ≤ intMax := (List.length_filter_le _ _).trans hlog'
  have hkernels : (found.map TaskEntry.kernelId).toFinset.card ≤ intMax := by
    refine (List.toFinset_card_le _).trans ?_
    rwa [List.length_map]
  -- the scan links the tasks
  have hnone : s.skeleton.data.length < 2 ^ 63 := Nat.two_pow_pos 63
  have hroom : 0 + 20 * (found.map TaskEntry.taskRecordId).length + 0 < 2 ^ 63 := by
    rw [List.length_map]
    rw [intMax] at hmatched
    omega
  have happend := appendAll_run (s.linksTasks.batch hnone) (found.map TaskEntry.taskRecordId) hroom
    (hb.record.trans (congrArg some (s.linksTasks.bytes_batch hnone).symm))
  have hscan := sfScanBatch_ok_iff.mpr ⟨rows, hlist, by rw [hfound]; exact happend, rfl⟩
  rw [batchKernels, hfound] at hscan
  obtain ⟨wsb, v, hpatch, hread, hattr, hdata, -⟩ := s.counters_run hb.record
    (by rwa [List.length_map]) happend (s.duration endBtimeNs)
    (found.map TaskEntry.kernelId).toFinset.card found.length
  have hsame : ∀ p, p ≠ .record .tbatch s.tbatchId → wsb.files p = ws₃.files p := by
    intro p hp
    rw [tpbRafRecordPatchTbatchCounters] at hpatch
    obtain ⟨f, σ, -, -, rfl⟩ := fopenUpdate_eq_ok hpatch
    rw [Workspace.set_files_of_ne _ _ hp, Workspace.set_files_of_ne _ _ hp]
  -- the environment counts the batch
  obtain ⟨⟨r, hr⟩, envs, henvs, hex⟩ := hb.rtenv
  have hcounters := tpbRafRecordPatchRtenvCounters_run ((hsame _ (by simp)).trans hr)
    ((hsame _ (by simp)).trans henvs) hex 0 1
  set wsc := (wsb.set (.rtenv s.rtenvId) (r.withAttr (r.attr.addCounters 0 1) rfl).bytes).set
    (.entry .rtenv)
    (rtenvRow.table (modifyFirst (·.id = s.rtenvId) (RtenvEntry.addCounters 0 1) envs)) with hwsc
  have hsame' : ∀ p, p ≠ .rtenv s.rtenvId → p ≠ .entry .rtenv → wsc.files p = wsb.files p := by
    intro p hp hp'
    rw [hwsc, Workspace.set_files_of_ne _ _ hp', Workspace.set_files_of_ne _ _ hp]
  have htable : tbatchRow.Holds wsc batches := by
    have hfile : wsc.files (.entry tbatchRow.domain) = ws₃.files (.entry tbatchRow.domain) :=
      (hsame' _ (by simp) (by simp [tbatchRow])).trans (hsame _ (by simp))
    rw [RowFormat.Holds, hfile]
    exact hb.table
  -- and the batch gets its row
  set e := s.entry (s.duration endBtimeNs) (found.map TaskEntry.kernelId).toFinset.card
    found.length with he
  have hentry := entryAppendRow_ok htable e
  have hend := tpbRecordEndBatch_run hscan hpatch hcounters hentry
  have htasks : TaskStore (0 + before.length + during.length)
      (wsc.set (.entry .tbatch) (tbatchRow.table (batches ++ [e]))) log := by
    refine h₃.frame fun p hp => ?_
    rcases hp with rfl | ⟨x, rfl⟩
    · rw [Workspace.set_files_of_ne _ _ (by simp), hsame' _ (by simp) (by simp), hsame _ (by simp)]
    · rw [Workspace.set_files_of_ne _ _ (by simp), hsame' _ (by simp) (by simp), hsame _ (by simp)]
  refine ⟨_, v, e, hend, recordRead_congr hread ?_, hdata, hnodup, ?_, ?_, ?_, ?_,
    fun l hl ht htorn => ?_⟩
  · rw [Workspace.set_files_of_ne _ _ (by simp)]
    exact hsame' _ (by simp) (by simp)
  · rw [hattr]
    exact toNat_ofNat_u32 hmatched
  · rw [hattr]
    exact toNat_ofNat_u32 hkernels
  · refine entryListRows_ok (.inl (Workspace.set_files_same _ _ _)) ?_
    rw [List.length_append, List.length_singleton]
    omega
  · rw [hattr]
    exact ⟨rfl, rfl, rfl, rfl, rfl, rfl, rfl, rfl⟩
  · obtain ⟨-, hof⟩ := List.mem_filter.mp ht
    obtain ⟨hid, -, -⟩ := of_decide_eq_true hof
    obtain ⟨w, hw, -, hagree⟩ := htasks.read hl htorn
    exact ⟨w, hw, hagree.tbatchId.symm.trans hid, hagree.deriveTo.symm⟩

/-- A batch during which two tasks are written, and the first of them is derived. -/
theorem batch_session_one : ∃ ws₄ v, tpbRafRecordReadTbatch (zeroArr 20) true ws₄ = .ok v ws₄ ∧
    v.data = idBytes [idOf 3] ∧ v.attr.ntask.toNat = 1 ∧
    ∃ w, tpbRafRecordReadTask (idOf 3) true ws₄ = .ok w ws₄ ∧ w.attr.tbatchId = zeroArr 20 := by
  set s : BatchState := { batchSample with utcBits := 0 } with hs
  have hrtenv : RtenvStored s.rtenvId patchSample := by
    refine ⟨⟨Record.bare (F := rtenvFormat) RtenvAttr.zero rfl, ?_⟩, [RtenvEntry.zero], ?_, _,
      List.mem_singleton.mpr rfl, rfl⟩
    · simp [hs, batchSample, patchSample]
    · simp [patchSample]
  have htasks : taskRow.Holds patchSample [] :=
    .inr ⟨by simp [patchSample, Workspace.empty, taskRow], rfl⟩
  have hbatches : tbatchRow.Holds patchSample [] :=
    .inr ⟨by simp [patchSample, Workspace.empty, tbatchRow], rfl⟩
  have hbegin : tpbRecordBeginBatch s patchSample = .ok { s with active := true }
    (patchSample.set (.record .tbatch s.tbatchId) s.skeleton.bytes) := rfl
  set ws₂ := patchSample.set (.record .tbatch s.tbatchId) s.skeleton.bytes with hws₂
  have hnone : ∀ x, ws₂.files (.record .task x) = none := by
    intro x
    rw [hws₂, Workspace.set_files_of_ne _ _ (by simp)]
    simp [patchSample, Workspace.empty]
  set ws₃ := (bareDone (idOf 1)).1.run ws₂ with hws₃
  have hwrite₁ : TaskStep ws₂ (bareDone (idOf 1)) ws₃ := bareDone_step (hnone _)
  have hnew : ws₃.files (.record .task (idOf 3)) = none := by
    rw [hws₃, bareDone_files, if_neg (by decide), hnone]
  have hwrite₂ := bareDone_step hnew
  have hduring := ((Run.nil.snoc hwrite₁).snoc hwrite₂).snoc
    (derive_step _ none (idOf 1) (idOf 2))
  obtain ⟨ws₄, v, e, -, hread, hdata, -, hntask, -, -, -, hback⟩ := batch_session htasks Run.nil
    hbatches hrtenv hbegin hduring (by decide) (by decide) 0
  set calls : List TaskDone :=
    [bareDone (idOf 1), bareDone (idOf 3), (.derive none (idOf 1) (idOf 2), none)]
  have hfound : tasksOf s (rowsOf calls) = [taskEntryOf (bareAttr (idOf 3))] := by
    decide +kernel
  have hlogged : LoggedTask.new (taskEntryOf (bareAttr (idOf 3))) ∈ logOf calls := by
    decide +kernel
  obtain ⟨w, hw, hof, -⟩ := hback _ hlogged
    (show _ ∈ tasksOf s (rowsOf calls) by rw [hfound]; exact List.mem_singleton_self _) rfl
  change v.data = idBytes ((tasksOf s (rowsOf calls)).map _) at hdata
  change _ = (tasksOf s (rowsOf calls)).length at hntask
  rw [hfound] at hdata hntask
  exact ⟨ws₄, v, hread, hdata, hntask, w, hw, hof⟩

end Session

end TPBench
