import TPBench.Mpi.Invariant

/-!
# The Capsule of an MPI Kernel

The invariant of `TPBench.Mpi.Invariant` gives two results about every run of
`_sf_mpik_write_task`, on any number of ranks and with any pattern of failures:

* `mpik_write_task_agrees` — the ranks enter the same collectives, no rank hangs, all return
  the same error, and when that is success the capsule lists the tasks of all ranks in their
  order and every record is derived to the capsule;
* `mpik_capsule_members` — the members of the capsule are task records that were written
  exactly when every rank the appends of rank 0 reach has written its record. Rank 0 does not
  look at the errors of the others, and appends the zero ID of a rank whose write failed
  (`mpik_capsule_dangling`).
-/

open CFile Conc

namespace TPBench

/-! ### Reading a capsule -/

/-- The reader returns the IDs of a capsule. -/
theorem CapsuleFile.read {ws : Workspace} {c : Id20} {ids : List Id20}
    (h : CapsuleFile ws c ids) :
    ∃ v, tpbRafRecordReadTask c true ws = .ok v ws ∧ v.attr.taskRecordId = c ∧
      v.data = idBytes ids := by
  obtain ⟨cap, hfile, hid, rfl⟩ := h
  exact ⟨_, recordRead_of_bytes hfile, hid, rfl⟩

/-- A file is the file of a capsule with one list of IDs only. -/
theorem CapsuleFile.unique {ws : Workspace} {c : Id20} {ids ids' : List Id20}
    (h : CapsuleFile ws c ids) (h' : CapsuleFile ws c ids') : ids = ids' := by
  obtain ⟨v, hread, -, hdata⟩ := h.read
  obtain ⟨v', hread', -, hdata'⟩ := h'.read
  rw [hread] at hread'
  cases hread'
  rw [hdata] at hdata'
  exact flatMap_toList_injective (by decide) hdata'

/-! ### A task and a capsule that are stored -/

section Sample

/-- The attributes of a task without headers. -/
def bareAttr (id : Id20) : TaskAttr := { TaskAttr.zero with taskRecordId := id }

/-- The write of a task without headers and payload. -/
def bareWrite (id : Id20) : TaskWrite where
  prepared := .ok ⟨bareAttr id, [], none, 0, 0⟩
  recordFault := none
  entryFault := none
  countersFault := none

/-- A write that fails before its record. -/
def failedWrite : TaskWrite := { bareWrite (zeroArr 20) with
  prepared := .error (.code .none .mallocFail) }

/-- The creation of the capsule `id`. -/
def bareCapsule (id : Id20) : CapsuleWrite where
  genId _ := .ok id
  resolveFault := none
  readFault := none
  createFault := none
  entryFault := none
  shmFault := none

/-- The workspace holds the record of a task without headers, and a table of tasks. -/
def HoldsTask (id : Id20) (rows : List TaskEntry) (ws : Workspace) : Prop :=
  ws.files (.record .task id) =
      some (Record.bare (F := taskFormat) (bareAttr id) rfl).bytes ∧
    ws.files (.entry .task) = some (taskRow.table rows)

/-- A record without headers and payload is read when its payload is not asked for. -/
theorem reads_bare (a : TaskAttr) (h : taskFormat.nheader a = 0) :
    Reads (readRecord taskFormat false) (Record.bare a h).bytes ⟨a, [], 0, []⟩ := by
  refine @reads_readRecord_of _ _ (Record.bare a h) false [] ?_
  intro pre post
  rfl

/-- The workspace holds the record and the row of the runtime environment 0. -/
def HoldsEnv (ws : Workspace) : Prop :=
  ∃ (r : Record rtenvFormat) (rows : List RtenvEntry),
    ws.files (.rtenv 0) = some r.bytes ∧
      ws.files (.entry .rtenv) = some (rtenvRow.table rows) ∧ ∃ e ∈ rows, e.id = 0

theorem holds_patchSample : taskRow.Holds patchSample [] := by
  refine .inr ⟨?_, rfl⟩
  change patchSample.files (.entry .task) = none
  simp [patchSample, Workspace.empty]

theorem holdsEnv_patchSample : HoldsEnv patchSample := by
  refine ⟨Record.bare RtenvAttr.zero rfl, [RtenvEntry.zero], ?_, ?_, RtenvEntry.zero,
    List.mem_cons_self, rfl⟩
  · simp [patchSample]
  · simp [patchSample]

/-- A task without headers is written into a workspace with a runtime environment. -/
theorem tpbKWriteTask_bare {ws : Workspace} {rows : List TaskEntry} (henv : HoldsEnv ws)
    (hrows : taskRow.Holds ws rows) (id : Id20) :
    ∃ ws', tpbKWriteTask (bareWrite id) ws = ((0, id), ws') ∧ HoldsEnv ws' ∧
      HoldsTask id (rows ++ [taskEntryOf (bareAttr id)]) ws' ∧
      ∀ x, x ≠ id → ws'.files (.record .task x) = ws.files (.record .task x) := by
  obtain ⟨r, envs, hrtenv, htable, hrow⟩ := henv
  set ws₁ := ws.set (.record .task id)
    (Record.bare (F := taskFormat) (bareAttr id) rfl).bytes with hws₁
  set ws₂ := ws₁.set (.entry .task)
    (taskRow.table (rows ++ [taskEntryOf (bareAttr id)])) with hws₂
  have hrows₁ : taskRow.Holds ws₁ rows := by
    unfold RowFormat.Holds at hrows ⊢
    rwa [hws₁, Workspace.set_files_of_ne _ _ (by simp)]
  have hrecord : propagate .rafMisc (faulty none (tpbRafRecordWriteTask (bareAttr id) [] none
      0)) ws = .ok () ws₁ := propagate_eq_ok.mpr rfl
  have hentry : propagate .rafMisc (faulty none (tpbRafEntryAppendTask
      (taskEntryOf (bareAttr id)))) ws₁ = .ok () ws₂ :=
    propagate_eq_ok.mpr (entryAppendRow_ok hrows₁ _)
  have hrtenv₂ : ws₂.files (.rtenv 0) = some r.bytes := by simpa [hws₂, hws₁] using hrtenv
  have htable₂ : ws₂.files (.entry .rtenv) = some (rtenvRow.table envs) := by
    simpa [hws₂, hws₁] using htable
  have hpatch := tpbRafRecordPatchRtenvCounters_run hrtenv₂ htable₂ hrow 1 0
  have hcounters := (@propagate_eq_ok _ .rafMisc
    (faulty none (tpbRafRecordPatchRtenvCounters 0 1 0)) ws₂ _ ()).mpr hpatch
  refine ⟨after (tpbRafRecordPatchRtenvCounters 0 1 0 ws₂), ?_, ?_, ⟨?_, ?_⟩, fun x hx => ?_⟩
  · rw [tpbKWriteTask]
    simp only [bareWrite, hrecord]
    rw [bind_ok hentry, hcounters, hpatch]
    rfl
  · rw [hpatch]
    exact ⟨r.withAttr (r.attr.addCounters 1 0) rfl, _, by simp [after],
      Workspace.set_files_same _ _ _,
      exists_row_modifyFirst (f := RtenvEntry.addCounters 1 0) (fun _ hid => hid) hrow⟩
  · rw [hpatch]
    simp [after, hws₂, hws₁]
  · rw [hpatch]
    simp [after, hws₂]
  · rw [hpatch]
    simp [after, hws₂, hws₁, hx]

/-- A capsule for a task without headers is created. -/
theorem tpbKCreateCapsuleTask_bare {id cap : Id20} {rows : List TaskEntry} {ws : Workspace}
    (h : HoldsTask id rows ws) (hne : cap ≠ id) :
    ∃ ws', tpbKCreateCapsuleTask (bareCapsule cap) id ws = (⟨0, cap, true⟩, ws') ∧
      HoldsTask id (rows ++ [capsuleEntryOf (bareAttr id) cap]) ws' ∧
      ∀ x, x ≠ cap → ws'.files (.record .task x) = ws.files (.record .task x) := by
  obtain ⟨hrecord, htable⟩ := h
  set a := capsuleAttrOf (bareAttr id) cap with ha
  set ws₁ := ws.set (.record .task cap)
    (recordBytes taskFormat a [capsuleHeader] (some id.toList) 20) with hws₁
  have hread : tpbRafRecordReadTask id false ws = .ok ⟨bareAttr id, [], 0, []⟩ ws :=
    fopenRead_ok hrecord (reads_bare (bareAttr id) rfl).run
  have hcreate : tpbRafRecordCreateTaskCapsule a [capsuleHeader] id ws = .ok () ws₁ := by
    rw [tpbRafRecordCreateTaskCapsule, if_neg (by simp [ha, capsuleAttrOf, TaskAttr.zero])]
    exact propagate_eq_ok.mpr rfl
  have htable₁ : taskRow.Holds ws₁ rows := by
    refine .inl ?_
    change ws₁.files (.entry .task) = _
    rw [hws₁, Workspace.set_files_of_ne _ _ (by simp), htable]
  have hentry := entryAppendRow_ok htable₁ (capsuleEntryOf (bareAttr id) cap)
  refine ⟨ws₁.set (.entry .task)
    (taskRow.table (rows ++ [capsuleEntryOf (bareAttr id) cap])), ?_, ⟨?_, ?_⟩, fun x hx => ?_⟩
  · have hresolve : propagate .rafMisc (faulty none (pure ())) ws = .ok () ws :=
      propagate_eq_ok.mpr rfl
    have hsrc : (do
        propagate .rafMisc (faulty none (pure ()))
        propagate .rafMisc (faulty none (tpbRafRecordReadTask id false))) ws =
        .ok ⟨bareAttr id, [], 0, []⟩ ws :=
      bind_then hresolve (propagate_eq_ok.mpr hread)
    have hstore : propagate .rafMisc (faulty none
        (tpbRafRecordCreateTaskCapsule a [capsuleHeader] id)) ws = .ok () ws₁ :=
      propagate_eq_ok.mpr hcreate
    have hrest : (do
        propagate .rafMisc (faulty none
          (tpbRafEntryAppendTask (capsuleEntryOf (bareAttr id) cap)))
        faulty none (pure ())) ws₁ = .ok () (ws₁.set (.entry .task)
          (taskRow.table (rows ++ [capsuleEntryOf (bareAttr id) cap]))) :=
      bind_then (a := ()) (propagate_eq_ok.mpr hentry) rfl
    rw [tpbKCreateCapsuleTask]
    simp only [bareCapsule, hsrc, ← ha, hstore]
    rw [hrest]
    rfl
  · simp [hws₁, Ne.symm hne, hrecord]
  · simp
  · simp [hws₁, hx]

/-- A task without headers that has a row is derived. -/
theorem tpbKTaskSetDeriveTo_bare {id : Id20} {rows : List TaskEntry} {ws : Workspace}
    (h : HoldsTask id rows ws) (hcount : rows.length ≤ intMax)
    (hrow : ∃ e ∈ rows, e.taskRecordId = id) (d : Id20) :
    ∃ ws' rows', tpbKTaskSetDeriveTo id d ws = .ok () ws' ∧
      ws'.files (.entry .task) = some (taskRow.table rows') ∧ rows'.length = rows.length ∧
      ∀ x, (∃ e ∈ rows, e.taskRecordId = x) → ∃ e ∈ rows', e.taskRecordId = x := by
  obtain ⟨ws', hok⟩ := tpbKTaskSetDeriveTo_ok
    (r := Record.bare (F := taskFormat) (bareAttr id) rfl) (d := d) h.1 h.2 hcount hrow
  obtain ⟨-, rfl⟩ := tpbKTaskSetDeriveTo_eq_ok
    (r := Record.bare (F := taskFormat) (bareAttr id) rfl) h.1 h.2 hok
  exact ⟨_, _, hok, Workspace.set_files_same _ _ _, List.length_modify .., fun x hx =>
    exists_row_modifyFirst (f := ({ · with deriveTo := d })) (fun _ hid => hid) hx⟩

/-- Two ranks, without failures. -/
def twoWorld : MpiWorld 1 where
  write i := bareWrite (if i = 0 then idOf 1 else idOf 3)
  capsule := bareCapsule (idOf 2)
  deriveFault _ := none
  allocOk := true
  appendFault _ := none
  nprocs_le := by decide

/-- Two ranks, of which the second fails to write its task. -/
def pairWorld : MpiWorld 1 where
  write i := if i = 0 then bareWrite (idOf 1) else failedWrite
  capsule := bareCapsule (idOf 2)
  deriveFault _ := none
  allocOk := true
  appendFault _ := none
  nprocs_le := by decide

/-- Where a rank is behind its write. -/
def atBarrier {n : ℕ} (r : (ℤ × Id20) × Workspace) : MpikPoint n × Workspace :=
  (.barrier r.1.1 r.1.2, r.2)

/-- Where rank 0 is behind the creation. -/
def atBcast {n : ℕ} (id : Id20) (r : CapsuleCall × Workspace) : MpikPoint n × Workspace :=
  (.bcastCapsule r.1 id, r.2)

/-- Where a rank is behind its derivation. -/
def atReduce {n : ℕ} (id cap : Id20) (r : EStateM.Result Err Workspace Unit) :
    MpikPoint n × Workspace :=
  (.reduceDerive (returned r) id cap, after r)

/-- Two ranks write their tasks, and rank 0 creates the capsule. -/
theorem exists_run_create {W : MpiWorld 1} {ws ws₁ ws₂ ws₃ : Workspace} {e : ℤ} {x y cap : Id20}
    (hwrite₀ : tpbKWriteTask (W.write 0) ws = ((0, x), ws₁))
    (hwrite₁ : tpbKWriteTask (W.write 1) ws₁ = ((e, y), ws₂))
    (hcreate : tpbKCreateCapsuleTask W.capsule x ws₂ = (⟨0, cap, true⟩, ws₃)) :
    ∃ t s, Run (SpmdStep (mpikWriteTask W)) (Ranks.start ws .write) t s ∧
      createErr s = some 0 := by
  have h₀ : Run (SpmdStep (mpikWriteTask W)) (Ranks.start ws .write) []
    (Ranks.start ws .write) := .nil
  have h₁ := h₀.snoc (SpmdStep.act_eq (i := 0) rfl (congrArg atBarrier hwrite₀))
  have h₂ := h₁.snoc (SpmdStep.act_eq (i := 1) rfl (congrArg atBarrier hwrite₁))
  have h₃ := h₂.snoc (SpmdStep.enter (i := 0) rfl rfl)
  have h₄ := h₃.snoc (SpmdStep.enter (i := 1) rfl rfl)
  have h₅ := h₄.snoc (SpmdStep.leave (i := 0) (o := ()) rfl rfl rfl)
  have h₆ := h₅.snoc (SpmdStep.act_eq (i := 0) rfl (congrArg (atBcast x) hcreate))
  have h₇ := h₆.snoc (SpmdStep.enter (i := 0) rfl rfl)
  have h₈ := h₇.snoc (SpmdStep.leave (i := 0) (o := cap) rfl rfl rfl)
  have h₉ := h₈.snoc (SpmdStep.enter (i := 0) rfl rfl)
  exact ⟨_, _, h₉, rfl⟩

/-- Where rank 0 is behind its last append. -/
def atLast {n : ℕ} (maxErr : ℤ) (id cap : Id20) (r : EStateM.Result Err Workspace Unit) :
    MpikPoint n × Workspace :=
  if returned r = 0 then (.bcastAppend 0 maxErr id cap, after r)
  else (.bcastAppend (returned r) maxErr id cap, after r)

/-- The two ranks run to the end when every call succeeds. -/
theorem exists_run_pair {ws₁ ws₂ ws₃ ws₄ ws₅ ws₆ : Workspace}
    (hwrite₀ : tpbKWriteTask (twoWorld.write 0) patchSample = ((0, idOf 1), ws₁))
    (hwrite₁ : tpbKWriteTask (twoWorld.write 1) ws₁ = ((0, idOf 3), ws₂))
    (hcreate : tpbKCreateCapsuleTask twoWorld.capsule (idOf 1) ws₂ = (⟨0, idOf 2, true⟩, ws₃))
    (hderive₀ : tpbKTaskSetDeriveTo (idOf 1) (idOf 2) ws₃ = .ok () ws₄)
    (hderive₁ : tpbKTaskSetDeriveTo (idOf 3) (idOf 2) ws₄ = .ok () ws₅)
    (happend : tpbRafRecordAppendTaskCapsule (idOf 2) (idOf 3) ws₅ = .ok () ws₆) :
    ∃ t s, Run (SpmdStep (mpikWriteTask twoWorld)) (Ranks.start patchSample .write) t s ∧
      s.point 0 = .done ⟨0, idOf 1, idOf 2, true⟩ ∧
      s.point 1 = .done ⟨0, idOf 3, idOf 2, false⟩ := by
  have h₀ : Run (SpmdStep (mpikWriteTask twoWorld)) (Ranks.start patchSample .write) []
    (Ranks.start patchSample .write) := .nil
  -- the barrier
  have h₁ := h₀.snoc (SpmdStep.act_eq (i := 0) rfl (congrArg atBarrier hwrite₀))
  have h₂ := h₁.snoc (SpmdStep.act_eq (i := 1) rfl (congrArg atBarrier hwrite₁))
  have h₃ := h₂.snoc (SpmdStep.enter (i := 0) rfl rfl)
  have h₄ := h₃.snoc (SpmdStep.enter (i := 1) rfl rfl)
  have h₅ := h₄.snoc (SpmdStep.leave (i := 0) (o := ()) rfl rfl rfl)
  have h₆ := h₅.snoc (SpmdStep.leave (i := 1) (o := ()) rfl rfl rfl)
  -- the capsule and its error
  have h₇ := h₆.snoc (SpmdStep.act_eq (i := 0) rfl (congrArg (atBcast (idOf 1)) hcreate))
  have h₈ := h₇.snoc (SpmdStep.enter (i := 0) rfl rfl)
  have h₉ := h₈.snoc (SpmdStep.enter (i := 1) rfl rfl)
  have h₁₀ := h₉.snoc (SpmdStep.leave (i := 0) (o := idOf 2) rfl rfl rfl)
  have h₁₁ := h₁₀.snoc (SpmdStep.leave (i := 1) (o := idOf 2) rfl rfl rfl)
  have h₁₂ := h₁₁.snoc (SpmdStep.enter (i := 0) rfl rfl)
  have h₁₃ := h₁₂.snoc (SpmdStep.enter (i := 1) rfl rfl)
  have h₁₄ := h₁₃.snoc (SpmdStep.leave (i := 0) (o := (0 : ℤ)) rfl rfl rfl)
  have h₁₅ := h₁₄.snoc (SpmdStep.leave (i := 1) (o := (0 : ℤ)) rfl rfl rfl)
  -- the derivations
  have h₁₆ := h₁₅.snoc
    (SpmdStep.act_eq (i := 0) rfl (congrArg (atReduce (idOf 1) (idOf 2)) hderive₀))
  have h₁₇ := h₁₆.snoc
    (SpmdStep.act_eq (i := 1) rfl (congrArg (atReduce (idOf 3) (idOf 2)) hderive₁))
  have h₁₈ := h₁₇.snoc (SpmdStep.enter (i := 0) rfl rfl)
  have h₁₉ := h₁₈.snoc (SpmdStep.enter (i := 1) rfl rfl)
  have h₂₀ := h₁₉.snoc (SpmdStep.leave (i := 0) (o := (0 : ℤ)) rfl rfl rfl)
  have h₂₁ := h₂₀.snoc (SpmdStep.leave (i := 1) (o := (0 : ℤ)) rfl rfl rfl)
  -- the memory of rank 0
  have h₂₂ := h₂₁.snoc (SpmdStep.enter (i := 0) rfl rfl)
  have h₂₃ := h₂₂.snoc (SpmdStep.enter (i := 1) rfl rfl)
  have h₂₄ := h₂₃.snoc (SpmdStep.leave (i := 0) (o := (1 : ℤ)) rfl rfl rfl)
  have h₂₅ := h₂₄.snoc (SpmdStep.leave (i := 1) (o := (1 : ℤ)) rfl rfl rfl)
  -- the IDs and their append
  have h₂₆ := h₂₅.snoc (SpmdStep.enter (i := 0) rfl rfl)
  have h₂₇ := h₂₆.snoc (SpmdStep.enter (i := 1) rfl rfl)
  have h₂₈ := h₂₇.snoc (SpmdStep.leave (i := 0) rfl rfl rfl)
  have h₂₉ := h₂₈.snoc (SpmdStep.leave (i := 1) (o := none) rfl rfl rfl)
  have h₃₀ := h₂₉.snoc
    (SpmdStep.act_eq (i := 0) rfl (congrArg (atLast 0 (idOf 1) (idOf 2)) happend))
  have h₃₁ := h₃₀.snoc (SpmdStep.enter (i := 0) rfl rfl)
  have h₃₂ := h₃₁.snoc (SpmdStep.enter (i := 1) rfl rfl)
  have h₃₃ := h₃₂.snoc (SpmdStep.leave (i := 0) (o := (0 : ℤ)) rfl rfl rfl)
  have h₃₄ := h₃₃.snoc (SpmdStep.leave (i := 1) (o := (0 : ℤ)) rfl rfl rfl)
  exact ⟨_, _, h₃₄, rfl, rfl⟩

/-- What the two ranks return. -/
def twoResult (i : Fin 2) : MpikResult :=
  if i = 0 then ⟨0, idOf 1, idOf 2, true⟩ else ⟨0, idOf 3, idOf 2, false⟩

/-- The two ranks return success. -/
theorem exists_run_twoWorld :
    ∃ t s, Run (SpmdStep (mpikWriteTask twoWorld)) (Ranks.start patchSample .write) t s ∧
      ∀ i, s.point i = .done (twoResult i) := by
  obtain ⟨ws₁, hwrite₀, henv, ⟨hfile₀, htable₁⟩, -⟩ :=
    tpbKWriteTask_bare holdsEnv_patchSample holds_patchSample (idOf 1)
  obtain ⟨ws₂, hwrite₁, -, ⟨hfile₁, htable₂⟩, hkeep₂⟩ :=
    tpbKWriteTask_bare henv (.inl htable₁) (idOf 3)
  rw [← hkeep₂ (idOf 1) (by decide)] at hfile₀
  obtain ⟨ws₃, hcreate, ⟨hfile₀', htable₃⟩, hkeep₃⟩ :=
    tpbKCreateCapsuleTask_bare ⟨hfile₀, htable₂⟩ (show idOf 2 ≠ idOf 1 by decide)
  rw [← hkeep₃ (idOf 3) (by decide)] at hfile₁
  have hcap₃ : CapsuleFile ws₃ (idOf 2) [idOf 1] := by
    have hspec := (tpbKCreateCapsuleTask_spec (bareCapsule (idOf 2)) (idOf 1) ws₂).2
    rw [hcreate] at hspec
    exact hspec rfl
  obtain ⟨ws₄, rows, hderive₀, htable₄, hlen, hrows⟩ :=
    tpbKTaskSetDeriveTo_bare ⟨hfile₀', htable₃⟩ (by decide)
      ⟨taskEntryOf (bareAttr (idOf 1)), by simp, rfl⟩ (idOf 2)
  have hcap₄ := hcap₃.setDeriveTo (idOf 1) (idOf 2)
  have hfile₄ := frames_setDeriveTo (show idOf 3 ≠ idOf 1 by decide) (d := idOf 2) ws₃ _ rfl
  rw [hderive₀] at hcap₄ hfile₄
  change CapsuleFile ws₄ _ _ at hcap₄
  change ws₄.files _ = _ at hfile₄
  obtain ⟨ws₅, -, hderive₁, -⟩ :=
    tpbKTaskSetDeriveTo_bare ⟨hfile₄.trans hfile₁, htable₄⟩ (by rw [hlen]; decide)
      (hrows (idOf 3) ⟨taskEntryOf (bareAttr (idOf 3)), by simp, rfl⟩) (idOf 2)
  have hcap₅ := hcap₄.setDeriveTo (idOf 3) (idOf 2)
  rw [hderive₁] at hcap₅
  obtain ⟨ws₆, happend, -, -⟩ := hcap₅.append (idOf 3) (by decide)
  obtain ⟨t, s, hrun, hzero, hone⟩ :=
    exists_run_pair hwrite₀ hwrite₁ hcreate hderive₀ hderive₁ happend
  exact ⟨t, s, hrun, Fin.forall_fin_two.mpr ⟨hzero, hone⟩⟩

end Sample

/-! ### The results -/

section Results

variable {n : ℕ} {W : MpiWorld n} {ws : Workspace} {t : List (Fin (n + 1))} {s : MpikState n}

theorem done_of_ret {i : Fin (n + 1)} {p : MpikPoint n} {r : MpikResult}
    (h : mpikWriteTask W i p = .ret r) : p = .done r := by
  cases p <;> cases h
  rfl

/-- The steps of a run are bounded by the number of ranks. -/
theorem length_mpik_run (hrun : Run (SpmdStep (mpikWriteTask W)) (Ranks.start ws .write) t s) :
    t.length ≤ (n + 1) * (2 * n + 21) := by
  have hle := length_run_le (fun h => size_act h) (fun h => size_coll h) hrun
  have htodo : (Ranks.start ws .write : MpikState n).todo MpikPoint.size =
      (n + 1) * (2 * n + 21) := by
    simp [Ranks.todo, Ranks.start, MpikPoint.size]
    ring
  omega

/-- When the ranks return success, the capsule lists all tasks, and all records are derived
to it. -/
theorem MpikInv.success (h : MpikInv W s) {r : Fin (n + 1) → MpikResult}
    (hret : ∀ i, s.point i = .done (r i)) (h0 : (r 0).err = 0) :
    CapsuleFile s.shared (r 0).tcapId ((List.finRange (n + 1)).map W.taskId) ∧
      ∀ i, (r i).taskId = W.taskId i ∧ (r i).tcapId = (r 0).tcapId ∧
        Derived s.shared (W.taskId i) (r 0).tcapId := by
  have hrank : ∀ i, RankOk W s i (.done (r i)) := fun i => hret i ▸ h.rank i
  have hroot : RootOk W s (.done (r 0)) := hret 0 ▸ h.root
  obtain ⟨hzero, hcreated, -, -⟩ := hroot
  obtain ⟨hcreate, hlisted⟩ := hzero h0
  obtain ⟨-, -, hfile⟩ := hcreated hcreate
  rw [hlisted] at hfile
  obtain ⟨-, hcap, herr⟩ := hrank 0
  refine ⟨hfile, fun i => ⟨(hrank i).1, ?_, ?_⟩⟩
  · exact Option.some.inj ((hrank i).2.1.symm.trans hcap)
  · obtain ⟨-, hder⟩ := h.derived i 0 (herr h0 i)
    obtain ⟨cap, hcap', hderived⟩ := hder rfl
    rw [hcap] at hcap'
    cases hcap'
    exact hderived

/-- **The MPI capsule protocol.** In every run of the kernel on any number of ranks, with any
pattern of failures: of the collectives two ranks have entered, one sequence is a prefix of the
other; the run is bounded, and ends only when all ranks have returned; ranks that have
returned have entered the same collectives and return the same error; and when all have
returned success, the capsule is read with the tasks of all ranks in their order, all ranks
return it, and every task record is there and derived to it. -/
theorem mpik_write_task_agrees
    (hrun : Run (SpmdStep (mpikWriteTask W)) (Ranks.start ws .write) t s) :
    (∀ i j, (s.entered i).map Sigma.fst <+: (s.entered j).map Sigma.fst ∨
      (s.entered j).map Sigma.fst <+: (s.entered i).map Sigma.fst) ∧
    t.length ≤ (n + 1) * (2 * n + 21) ∧
    ((∀ i s', ¬ SpmdStep (mpikWriteTask W) s i s') → ∀ i, ∃ r, s.point i = .done r) ∧
    (∀ i j r r', s.point i = .done r → s.point j = .done r' →
      r.err = r'.err ∧ (s.entered i).map Sigma.fst = (s.entered j).map Sigma.fst) ∧
    (∀ r : Fin (n + 1) → MpikResult, (∀ i, s.point i = .done (r i)) → (r 0).err = 0 →
      (∃ v, tpbRafRecordReadTask (r 0).tcapId true s.shared = .ok v s.shared ∧
        v.data = idBytes ((List.finRange (n + 1)).map W.taskId)) ∧
      ∀ i, (r i).taskId = W.taskId i ∧ (r i).tcapId = (r 0).tcapId ∧
        Derived s.shared (W.taskId i) (r 0).tcapId ∧
        ∀ want v, tpbRafRecordReadTask (W.taskId i) want s.shared = .ok v s.shared →
          v.attr.deriveTo = (r 0).tcapId) := by
  refine ⟨(mpikUniform W).comparable hrun, length_mpik_run hrun, fun hstuck i => ?_,
    fun i j r r' hi hj => ?_, fun r hret h0 => ?_⟩
  · obtain ⟨r, hr⟩ := (mpikUniform W).progress hrun hstuck i
    exact ⟨r, done_of_ret hr⟩
  · exact (mpikUniform W).returned hrun (by rw [hi]; rfl) (by rw [hj]; rfl)
  · obtain ⟨hfile, hranks⟩ := (MpikInv.of_run hrun).success hret h0
    obtain ⟨v, hread, -, hdata⟩ := hfile.read
    refine ⟨⟨v, hread, hdata⟩, fun i => ?_⟩
    obtain ⟨hid, hcap, hder⟩ := hranks i
    exact ⟨hid, hcap, hder, fun want v hv => hder.deriveTo hv⟩

/-- Two ranks return success, with their tasks in the capsule. -/
theorem mpik_write_task_pair : ∃ t s,
    Run (SpmdStep (mpikWriteTask twoWorld)) (Ranks.start patchSample .write) t s ∧
      (∀ i, s.point i = .done (twoResult i)) ∧
      (∃ v, tpbRafRecordReadTask (idOf 2) true s.shared = .ok v s.shared ∧
        v.data = idBytes [idOf 1, idOf 3]) ∧
      Derived s.shared (idOf 1) (idOf 2) ∧ Derived s.shared (idOf 3) (idOf 2) := by
  obtain ⟨t, s, hrun, hdone⟩ := exists_run_twoWorld
  obtain ⟨hread, hranks⟩ := (mpik_write_task_agrees hrun).2.2.2.2 twoResult hdone rfl
  exact ⟨t, s, hrun, hdone, hread, (hranks 0).2.2.1, (hranks 1).2.2.1⟩

/-- Every ID in the list of the capsule is the ID of a record that a rank wrote. -/
def MembersWritten (W : MpiWorld n) (ws : Workspace) (r : MpikResult) : Prop :=
  r.stored = true → ∀ ids, CapsuleFile ws r.tcapId ids → ∀ x ∈ ids, ∃ i, W.wrote i = some x

/-- The tasks rank 0 lists, in terms of what the ranks wrote. -/
theorem MpikInv.membersWritten_iff (h : MpikInv W s) {r : MpikResult}
    (hret : s.point 0 = .done r) :
    MembersWritten W s.shared r ↔
      (createErr s = some 0 → ∀ j ∈ W.listed, ∃ i, W.wrote i = some (W.taskId j)) := by
  have hroot : RootOk W s (.done r) := hret ▸ h.root
  obtain ⟨-, hcreated, hfailed, -⟩ := hroot
  constructor
  · intro hmem hcreate j hj
    obtain ⟨hstored, -, hfile⟩ := hcreated hcreate
    exact hmem hstored _ hfile _ (List.mem_map_of_mem hj)
  · intro hwrote hstored ids hids x hx
    by_cases hcreate : createErr s = some 0
    · obtain ⟨-, -, hfile⟩ := hcreated hcreate
      rw [hids.unique hfile] at hx
      obtain ⟨j, hj, rfl⟩ := List.mem_map.mp hx
      exact hwrote hcreate j hj
    · obtain ⟨hzero, hfile⟩ := hfailed hcreate hstored
      rw [hids.unique hfile, List.map_singleton, List.mem_singleton] at hx
      obtain ⟨y, hy⟩ := Option.isSome_iff_exists.mp hzero
      refine ⟨0, ?_⟩
      rw [hx, MpiWorld.taskId, hy]
      rfl

/-- **The members of the capsule.** In every run of the kernel in which rank 0 has returned,
the members of the capsule are records that were written if and only if rank 0 could not
create the capsule, or each rank it lists has written its record or has the ID of a record that
was written. -/
theorem mpik_capsule_members
    (hrun : Run (SpmdStep (mpikWriteTask W)) (Ranks.start ws .write) t s) {r : MpikResult}
    (hret : s.point 0 = .done r) :
    MembersWritten W s.shared r ↔
      (createErr s = some 0 → ∀ j ∈ W.listed, ∃ i, W.wrote i = some (W.taskId j)) :=
  (MpikInv.of_run hrun).membersWritten_iff hret

/-- The condition on the run of two ranks: rank 0 lists both, and both were written. -/
theorem mpik_capsule_members_pair : ∃ t s,
    Run (SpmdStep (mpikWriteTask twoWorld)) (Ranks.start patchSample .write) t s ∧
      s.point 0 = .done (twoResult 0) ∧ (twoResult 0).stored = true ∧ twoWorld.listed = [0, 1] ∧
      MembersWritten twoWorld s.shared (twoResult 0) := by
  obtain ⟨t, s, hrun, hdone⟩ := exists_run_twoWorld
  refine ⟨t, s, hrun, hdone 0, rfl, by decide,
    (mpik_capsule_members hrun (hdone 0)).mpr fun _ j _ => ⟨j, ?_⟩⟩
  revert j
  decide

/-- The members of a capsule need not be records that were written: rank 0 lists the zero ID
of a rank whose write has failed. -/
theorem mpik_capsule_dangling :
    ¬ ∀ (n : ℕ) (W : MpiWorld n) (ws : Workspace) (t : List (Fin (n + 1))) (s : MpikState n)
      (r : MpikResult), Run (SpmdStep (mpikWriteTask W)) (Ranks.start ws .write) t s →
        s.point 0 = .done r → MembersWritten W s.shared r := by
  intro hall
  obtain ⟨ws₁, hwrite, -, hheld, -⟩ :=
    tpbKWriteTask_bare holdsEnv_patchSample holds_patchSample (idOf 1)
  obtain ⟨ws₂, hcreate, -⟩ := tpbKCreateCapsuleTask_bare hheld (show idOf 2 ≠ idOf 1 by decide)
  obtain ⟨t, s, hrun, hzero⟩ := exists_run_create (W := pairWorld) hwrite rfl hcreate
  obtain ⟨t', s', hrun', hret⟩ := (mpikUniform pairWorld).exists_complete
    (fun h => size_act h) (fun h => size_coll h) hrun
  obtain ⟨r, hr⟩ := hret 0
  have hcomplete := hrun.trans hrun'
  have hmem := hall 1 pairWorld patchSample _ s' r hcomplete (done_of_ret hr)
  have hcond := ((MpikInv.of_run hcomplete).membersWritten_iff (done_of_ret hr)).mp hmem
  obtain ⟨i, hi⟩ := hcond (entries_run hrun' hzero) 1 (by decide)
  revert hi
  revert i
  decide

end Results

end TPBench
