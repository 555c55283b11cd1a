import TPBench.Kernel.TaskIds
import TPBench.Mpi.Store

/-!
# What the Calls of a Kernel Write

The calls on tasks go through several files, and each of their steps can fail. This module says
once what a write and a creation leave behind: nothing, when one of the steps in front of the
record fails (`write_of_image_none`, `create_of_source_none`), and otherwise the record and what
the steps behind it do (`write_of_image_some`, `create_of_source_some`).
-/

open CFile Conc

namespace TPBench

/-- An error of the callee, under the module of the caller. -/
theorem propagate_of_error {α : Type} {mod : Module} {m : WsM α} {ws ws' : Workspace} {e : Err}
    (h : m ws = .error e ws') : propagate mod m ws = .error (e.propagated mod) ws' := by
  rw [propagate, h]
  cases e with
  | undefined => rfl
  | code m c => cases c <;> rfl

/-! ### Writes -/

/-- The record a write leaves. -/
def TaskWrite.image (t : TaskWrite) : Option TaskImage :=
  match t.prepared, t.recordFault with
  | .ok x, none => some x
  | _, _ => none

/-- The file of the record. -/
def TaskImage.bytes (x : TaskImage) : Bytes :=
  recordBytes taskFormat x.attr x.headers x.data x.datasize

section Write

variable {t : TaskWrite} {x : TaskImage}

theorem TaskWrite.image_eq_some :
    t.image = some x ↔ t.prepared = .ok x ∧ t.recordFault = none := by
  rw [image]
  constructor
  · intro h
    split at h
    · rename_i hprep hfault
      cases h
      exact ⟨hprep, hfault⟩
    · cases h
  · rintro ⟨hprep, hfault⟩
    rw [hprep, hfault]

/-- A write without an image changes nothing. -/
theorem write_of_image_none (h : t.image = none) (ws : Workspace) :
    (tpbKWriteTask t ws).2 = ws := by
  rw [tpbKWriteTask]
  cases hprep : t.prepared with
  | error e => rfl
  | ok x =>
      cases hfault : t.recordFault with
      | none =>
          rw [TaskWrite.image, hprep, hfault] at h
          cases h
      | some e =>
          have hfail : propagate .rafMisc (faulty (some e) (tpbRafRecordWriteTask x.attr x.headers
              x.data x.datasize)) ws = .error (e.propagated .rafMisc) ws := propagate_of_error rfl
          simp only [hfail]

/-- A write with an image stores it as a record, and goes on with its row and the counters. -/
theorem write_of_image_some (h : t.image = some x) (ws : Workspace) :
    (tpbKWriteTask t ws).2 = after ((do
      propagate .rafMisc (faulty t.entryFault (tpbRafEntryAppendTask (taskEntryOf x.attr)))
      propagate .rafMisc (faulty t.countersFault (tpbRafRecordPatchRtenvCounters x.activeId 1 0)))
        (ws.set (.record .task x.attr.taskRecordId) x.bytes)) := by
  obtain ⟨hprep, hfault⟩ := TaskWrite.image_eq_some.mp h
  have hok : propagate .rafMisc (faulty none (tpbRafRecordWriteTask x.attr x.headers x.data
      x.datasize)) ws = .ok () (ws.set (.record .task x.attr.taskRecordId) x.bytes) :=
    propagate_eq_ok.mpr rfl
  rw [tpbKWriteTask]
  simp only [hprep, hfault, hok]

end Write

/-! ### Creations -/

theorem capsuleHeader_ndim : capsuleHeader.ndim = 1 := rfl

theorem capsuleHeader_name : cstr capsuleHeader.name.toList = taskIdName := by decide +kernel

theorem capsuleHeader_tag : cstr capsuleHeader.tag.toList = tagLink := by decide +kernel

/-- The capsule that is created for the first task. -/
def firstCapsule (src : TaskAttr) (id first : Id20) : Capsule :=
  Capsule.created (capsuleAttrOf src id) capsuleHeader first rfl capsuleHeader_ndim
    capsuleHeader_name

/-- The attributes of the first task and the ID of the capsule that a creation leaves. -/
def CapsuleWrite.source (c : CapsuleWrite) (first : Id20) (ws : Workspace) :
    Option (TaskAttr × Id20) :=
  match c.resolveFault, c.readFault, tpbRafRecordReadTask first false ws with
  | none, none, .ok src _ =>
      match c.genId src.attr, c.createFault with
      | .ok id, none => some (src.attr, id)
      | _, _ => none
  | _, _, _ => none

section Create

variable {c : CapsuleWrite} {first id : Id20} {src : TaskAttr} {ws : Workspace}

theorem createTaskCapsule_run (src : TaskAttr) (id first : Id20) (ws : Workspace) :
    tpbRafRecordCreateTaskCapsule (capsuleAttrOf src id) [capsuleHeader] first ws =
      .ok () (ws.set (.record .task id) (firstCapsule src id first).record.bytes) := by
  obtain ⟨ws', hok⟩ : ∃ ws', tpbRafRecordCreateTaskCapsule (capsuleAttrOf src id) [capsuleHeader]
      first ws = .ok () ws' := by
    rw [tpbRafRecordCreateTaskCapsule, if_neg (by simp [capsuleAttrOf, TaskAttr.zero])]
    exact ⟨_, propagate_eq_ok.mpr rfl⟩
  obtain ⟨hn, hws⟩ := tpbRafRecordCreateTaskCapsule_eq_ok capsuleHeader_ndim capsuleHeader_name hok
  rw [hok, hws]
  rfl

/-- Reading the first task, with what comes in front of it. -/
theorem capsuleSource_cases (c : CapsuleWrite) (first : Id20) (ws : Workspace) :
    (∃ e, (do
      propagate .rafMisc (faulty c.resolveFault (pure ()))
      propagate .rafMisc (faulty c.readFault (tpbRafRecordReadTask first false))) ws =
        .error e ws ∧ c.source first ws = none) ∨
    ∃ v, (do
      propagate .rafMisc (faulty c.resolveFault (pure ()))
      propagate .rafMisc (faulty c.readFault (tpbRafRecordReadTask first false))) ws =
        .ok v ws ∧
      c.source first ws = match c.genId v.attr, c.createFault with
        | .ok id, none => some (v.attr, id)
        | _, _ => none := by
  rw [CapsuleWrite.source]
  cases hresolve : c.resolveFault with
  | some e => exact .inl ⟨_, bind_error (propagate_of_error rfl), rfl⟩
  | none =>
      have hpure : propagate .rafMisc (faulty none (pure ())) ws = .ok () ws :=
        propagate_eq_ok.mpr rfl
      rw [bind_ok hpure]
      cases hread : c.readFault with
      | some e => exact .inl ⟨_, propagate_of_error rfl, rfl⟩
      | none =>
          rcases hv : tpbRafRecordReadTask first false ws with ⟨v, ws'⟩ | ⟨e, ws'⟩
          · obtain rfl := (readsOnly_fopenRead _ _ _).of_ok hv
            exact .inr ⟨v, propagate_eq_ok.mpr hv, rfl⟩
          · obtain rfl := (readsOnly_fopenRead _ _ _).of_error hv
            exact .inl ⟨_, propagate_of_error hv, rfl⟩

/-- A creation without a source changes nothing. -/
theorem create_of_source_none (h : c.source first ws = none) :
    (tpbKCreateCapsuleTask c first ws).2 = ws := by
  rw [tpbKCreateCapsuleTask]
  rcases capsuleSource_cases c first ws with ⟨e, hrun, -⟩ | ⟨v, hrun, hsource⟩
  · simp only [hrun]
  · simp only [hrun]
    cases hgen : c.genId v.attr with
    | error e => rfl
    | ok id =>
        cases hfault : c.createFault with
        | none =>
            rw [hsource, hgen, hfault] at h
            cases h
        | some e =>
            have hfail : propagate .rafMisc (faulty (some e) (tpbRafRecordCreateTaskCapsule
                (capsuleAttrOf v.attr id) [capsuleHeader] first)) ws =
                  .error (e.propagated .rafMisc) ws := propagate_of_error rfl
            simp only [hfail]

/-- A creation with a source stores a capsule with the first task, and goes on with its row and
the shared memory. -/
theorem create_of_source_some (h : c.source first ws = some (src, id)) :
    (tpbKCreateCapsuleTask c first ws).2 = after ((do
      propagate .rafMisc (faulty c.entryFault (tpbRafEntryAppendTask (capsuleEntryOf src id)))
      faulty c.shmFault (pure ()))
        (ws.set (.record .task id) (firstCapsule src id first).record.bytes)) ∧
      c.genId src = .ok id := by
  rw [tpbKCreateCapsuleTask]
  rcases capsuleSource_cases c first ws with ⟨e, -, hsource⟩ | ⟨v, hrun, hsource⟩
  · rw [hsource] at h
    cases h
  · simp only [hrun]
    rw [hsource] at h
    split at h
    · rename_i hgen hfault
      cases h
      have hok : propagate .rafMisc (faulty none (tpbRafRecordCreateTaskCapsule
          (capsuleAttrOf v.attr id) [capsuleHeader] first)) ws = .ok () (ws.set (.record .task id)
            (firstCapsule v.attr id first).record.bytes) :=
        propagate_eq_ok.mpr (createTaskCapsule_run v.attr id first ws)
      simp only [hgen, hfault, hok]
      trivial
    · cases h

end Create

/-! ### Files of the tasks -/

/-- The files the store of tasks consists of. -/
def IsTaskPath (p : Path) : Prop := p = .entry .task ∨ ∃ x, p = .record .task x

theorem frames_counters_tasks (activeId : Int32) (k l : UInt32) :
    Frames IsTaskPath (tpbRafRecordPatchRtenvCounters activeId k l) :=
  frames_counters (by simp [IsTaskPath]) (by simp [IsTaskPath]) k l

/-- The steps behind a record leave the records alone. -/
theorem frames_behindRecord {e : TaskEntry} {rest : WsM Unit} (fault : Option Err)
    (hrest : Frames IsTaskPath rest) (x : Id20) : Frames (· = .record .task x) (do
      propagate .rafMisc (faulty fault (tpbRafEntryAppendTask e))
      rest) := by
  refine Frames.bind (Frames.propagate _ (Frames.faulty _ ?_)) fun _ ws p hp => ?_
  · exact frames_entryAppendRow taskRow _ (by simp [taskRow])
  · exact hrest ws p (.inr ⟨x, hp⟩)

end TPBench
