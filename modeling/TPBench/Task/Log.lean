import TPBench.Mpi.Logical
import TPBench.Paired
import TPBench.Task.Torn

/-!
# The Log of the Tasks

The store keeps a task twice: as a row of the table of tasks, which `task ls` and the end of a
batch go through, and as a record, which the other commands read. A kernel writes both when it
writes its task (`tpbKWriteTask`) and when it creates a capsule (`tpbKCreateCapsuleTask`), and
derives both to the capsule (`tpbKTaskSetDeriveTo`); an append to a capsule changes its record
only.

This module follows the two through any sequence of such calls, each of which may fail for a
reason outside of the model. A write or a creation that fails leaves no record, an unfinished one,
or one without a row. A derivation that fails between its two halves leaves a record and a row
that disagree, and an append that fails between its writes leaves a record that need not be a
capsule any more.

`TaskDone.log` is what a call means, failures included. The log of a task has its row, what its
record is derived to, and whether the record is torn. The table has the rows of the log, and for
every task of it there is a record that fits (`TaskStore.of_run`).

## Main results

* `task_log` — after any calls the listing is the log, and every record that is not torn is read
  back with the data of its row.
-/

open CFile Conc

namespace TPBench

/-! ### The calls -/

/-- Where a derivation fails: before its record, or between the record and the row. -/
inductive DeriveFault
  | record
  | row
  deriving DecidableEq, Repr

/-- A call on tasks, and where it fails for a reason outside of the model. `unfinished` is a write
or a creation that fails within its record and leaves the bytes `f`, and `stop` is the number of
the writes of an append that succeed. -/
inductive TaskCall
  | write (t : TaskWrite)
  | create (c : CapsuleWrite) (first : Id20)
  | unfinished (task : Id20) (f : Bytes)
  | append (stop : Option ℕ) (capsule task : Id20)
  | derive (fault : Option DeriveFault) (task target : Id20)

/-- The workspace behind a call. -/
def TaskCall.run (ws : Workspace) : TaskCall → Workspace
  | .write t => (tpbKWriteTask t ws).2
  | .create c first => (tpbKCreateCapsuleTask c first ws).2
  | .unfinished task f => ws.set (.record .task task) f
  | .append none capsule task => after (tpbRafRecordAppendTaskCapsule capsule task ws)
  | .append (some k) capsule task => after (tpbRafRecordAppendTaskCapsuleFails k capsule task ws)
  | .derive none task target => after (tpbKTaskSetDeriveTo task target ws)
  | .derive (some .record) _ _ => ws
  | .derive (some .row) task target =>
      after (fopenUpdate .rafMisc (.record .task task) (patchTaskDeriveTo task target) ws)

/-- The row a call adds to the table. -/
def TaskCall.row (ws : Workspace) : TaskCall → Option TaskEntry
  | .write t => if t.entryFault.isNone then t.image.map fun x => taskEntryOf x.attr else none
  | .create c first =>
      if c.entryFault.isNone then (c.source first ws).map fun p => capsuleEntryOf p.1 p.2 else none
  | .unfinished _ _ => none
  | .append _ _ _ => none
  | .derive _ _ _ => none

/-- A call that was made, with the row it has added. -/
abbrev TaskDone := TaskCall × Option TaskEntry

/-! ### The log -/

/-- A task in the log: its row, what its record is derived to, and whether an append has left the
record torn. -/
structure LoggedTask where
  row : TaskEntry
  target : Id20
  torn : Bool
  deriving DecidableEq

/-- The ID of a task. -/
def LoggedTask.id (l : LoggedTask) : Id20 := l.row.taskRecordId

/-- A task that was written just now. -/
def LoggedTask.new (e : TaskEntry) : LoggedTask := ⟨e, e.deriveTo, false⟩

/-- The row as the record has it. -/
def LoggedTask.recorded (l : LoggedTask) : TaskEntry := { l.row with deriveTo := l.target }

/-- What a call does to a task of the log. -/
def LoggedTask.change (l : LoggedTask) : TaskCall → LoggedTask
  | .append (some (_ + 1)) capsule _ => if l.id = capsule then { l with torn := true } else l
  | .derive none task target =>
      if l.id = task then { l with row := { l.row with deriveTo := target }, target := target }
      else l
  | .derive (some .row) task target => if l.id = task then { l with target := target } else l
  | _ => l

/-- The log behind a call. -/
def TaskDone.log (log : List LoggedTask) (done : TaskDone) : List LoggedTask :=
  (log.map fun l => l.change done.1) ++ (done.2.map LoggedTask.new).toList

/-- The log of calls. -/
def logOf (calls : List TaskDone) : List LoggedTask := calls.foldl TaskDone.log []

/-- The rows of the log. -/
def rowsOf (calls : List TaskDone) : List TaskEntry := (logOf calls).map LoggedTask.row

/-! ### Rows and records -/

/-- The `inherit_from` of a capsule. -/
def allFf : Id20 := List.Vector.replicate 20 0xFF

/-- What a row and a record have in common. -/
structure RowAgrees (e : TaskEntry) (a : TaskAttr) : Prop where
  inheritFrom : e.inheritFrom = a.inheritFrom
  tbatchId : e.tbatchId = a.tbatchId
  kernelId : e.kernelId = a.kernelId
  utcBits : e.utcBits = a.utcBits
  duration : e.duration = a.duration
  exitCode : e.exitCode = a.exitCode
  handleIndex : e.handleIndex = a.handleIndex
  deriveTo : e.deriveTo = a.deriveTo

/-- A row agrees with a record. The record of a capsule is one, and lists no more tasks than
there were calls. -/
structure TaskAgree (calls : ℕ) (e : TaskEntry) (r : Record taskFormat) : Prop where
  attr : RowAgrees e r.attr
  capsule : e.inheritFrom = allFf → ∃ c : Capsule, r = c.record ∧ c.ids.length ≤ calls

/-- A file fits a task of the log: it is a record that agrees with the task, or a torn one. -/
structure RecordFits (calls : ℕ) (l : LoggedTask) (f : Bytes) : Prop where
  sound : l.torn = false → ∃ r : Record taskFormat, f = r.bytes ∧ r.attr.taskRecordId = l.id ∧
    TaskAgree calls l.recorded r
  torn : l.torn = true → Torn calls l.id f

/-- The file of the record of a task. -/
def HoldsRecord (ws : Workspace) (x : Id20) (f : Bytes) : Prop :=
  ws.files (.record .task x) = some f

/-- The invariant of the store, behind a number of calls: the table consists of the rows of the
log, and the tasks of the log and the records are paired. -/
structure TaskStore (calls : ℕ) (ws : Workspace) (log : List LoggedTask) : Prop where
  table : taskRow.Holds ws (log.map LoggedTask.row)
  count : log.length ≤ calls
  paired : Paired LoggedTask.id (RecordFits calls) log (HoldsRecord ws)

/-- What a kernel writes: a record that is derived from nothing and to nothing, as
`tpb_record_write_task` clears it. -/
structure TaskImage.Plain (x : TaskImage) : Prop where
  wellFormed : x.WellFormed
  deriveTo : x.attr.deriveTo = zeroArr 20
  inheritFrom : x.attr.inheritFrom = zeroArr 20
  duration : x.attr.duration = 0

/-- What the callers of a call see to: the IDs of new records are new, a task is as the kernel
writes it, and IDs are appended to capsules. -/
def TaskCall.Ready (ws : Workspace) : TaskCall → Prop
  | .write t => ∀ x, t.prepared = .ok x →
      x.Plain ∧ ws.files (.record .task x.attr.taskRecordId) = none
  | .create c _ => ∀ a id, c.genId a = .ok id → ws.files (.record .task id) = none
  | .unfinished task _ => ws.files (.record .task task) = none
  | .append _ capsule _ => ∃ rows, tpbRafEntryListTask ws = .ok rows ws ∧
      ∃ e ∈ rows, e.taskRecordId = capsule ∧ e.inheritFrom = allFf
  | .derive _ _ _ => True

/-- A call is made. -/
def TaskStep (ws : Workspace) (done : TaskDone) (ws' : Workspace) : Prop :=
  done.1.Ready ws ∧ done.2 = done.1.row ws ∧ ws' = done.1.run ws

/-! ### Records that are changed -/

section Fits

variable {n : ℕ} {l : LoggedTask} {f : Bytes}

theorem TaskAgree.mono {m : ℕ} {e : TaskEntry} {r : Record taskFormat} (h : TaskAgree n e r)
    (hle : n ≤ m) : TaskAgree m e r where
  attr := h.attr
  capsule := by
    intro hff
    obtain ⟨c, hc, hlen⟩ := h.capsule hff
    exact ⟨c, hc, hlen.trans hle⟩

theorem RecordFits.mono {m : ℕ} (h : RecordFits n l f) (hle : n ≤ m) : RecordFits m l f where
  sound := by
    intro htorn
    obtain ⟨r, hf, hid, hagree⟩ := h.sound htorn
    exact ⟨r, hf, hid, hagree.mono hle⟩
  torn := fun htorn => (h.torn htorn).mono hle

/-- A derivation finds the record of the task, and derives it. -/
theorem RecordFits.derive (h : RecordFits n l f) (d : Id20) :
    ∃ s, patchTaskDeriveTo l.id d ⟨f, 0⟩ = .ok () s ∧
      RecordFits n { l with target := d } s.content := by
  cases htorn : l.torn with
  | true =>
      obtain ⟨s, hpatch, hs⟩ := (h.torn htorn).derive d
      exact ⟨s, hpatch, fun hfalse => (by cases hfalse), fun _ => hs⟩
  | false =>
      obtain ⟨r, rfl, hid, hagree⟩ := h.sound htorn
      refine ⟨_, hid ▸ patchTaskDeriveTo_run r d, fun _ => ?_, fun htrue => (by cases htrue)⟩
      refine ⟨_, rfl, hid, { hagree.attr with deriveTo := rfl }, fun hff => ?_⟩
      obtain ⟨c, rfl, hlen⟩ := hagree.capsule hff
      exact ⟨c.derived d, rfl, hlen⟩

/-- The record of a capsule is one, or torn. -/
theorem RecordFits.capsule (h : RecordFits n l f) (hff : l.row.inheritFrom = allFf) :
    (l.torn = false ∧ ∃ c : Capsule, f = c.record.bytes ∧ c.attr.taskRecordId = l.id ∧
      RowAgrees l.recorded c.attr ∧ c.ids.length ≤ n) ∨ (l.torn = true ∧ Torn n l.id f) := by
  cases htorn : l.torn with
  | true => exact .inr ⟨rfl, h.torn htorn⟩
  | false =>
      obtain ⟨r, rfl, hid, hagree⟩ := h.sound htorn
      obtain ⟨c, rfl, hlen⟩ := hagree.capsule hff
      exact .inl ⟨rfl, c, rfl, hid, hagree.attr, hlen⟩

/-- An append keeps what is known of the record of a capsule. -/
theorem RecordFits.append (h : RecordFits n l f) (hff : l.row.inheritFrom = allFf)
    (hn : 20 * (n + 1) < 2 ^ 63) (y : Id20) :
    RecordFits (n + 1) l (after (appendTaskCapsule y ⟨f, 0⟩)).content := by
  rcases h.capsule hff with ⟨htorn, c, rfl, hid, hagree, hlen⟩ | ⟨htorn, ht⟩
  · rw [appendTaskCapsule_run c y (by omega)]
    refine ⟨fun _ => ⟨_, rfl, hid, hagree, fun _ => ⟨_, rfl, ?_⟩⟩,
      fun htrue => absurd (htorn.symm.trans htrue) (by decide)⟩
    simp only [Capsule.append, List.length_append, List.length_singleton]
    omega
  · exact ⟨fun hfalse => absurd (htorn.symm.trans hfalse) (by decide), fun _ => ht.append hn y⟩

/-- An append that stops behind its first write leaves the record torn. -/
theorem RecordFits.appendFails (h : RecordFits n l f) (hff : l.row.inheritFrom = allFf)
    (hn : 20 * (n + 1) < 2 ^ 63) (k : ℕ) (y : Id20) :
    RecordFits (n + 1) { l with torn := true }
      (after (appendTaskCapsuleFails k y ⟨f, 0⟩)).content := by
  refine ⟨fun hfalse => (by cases hfalse), fun _ => ?_⟩
  rcases h.capsule hff with ⟨-, c, rfl, hid, -, hlen⟩ | ⟨-, ht⟩
  · have htorn := c.torn.mono hlen
    rw [hid] at htorn
    exact htorn.appendFails hn k y
  · exact ht.appendFails hn k y

end Fits

/-! ### What the calls change -/

section Calls

variable {n : ℕ} {ws ws' : Workspace} {log : List LoggedTask}

/-- A call keeps the ID of a task. -/
@[simp] theorem LoggedTask.id_change (l : LoggedTask) (call : TaskCall) :
    (l.change call).id = l.id := by
  unfold LoggedTask.change
  split
  · split <;> rfl
  · split <;> rfl
  · split <;> rfl
  · rfl

/-- The store before the first call. -/
theorem taskStore_nil (h : taskRow.Holds ws []) : TaskStore n ws [] where
  table := h
  count := Nat.zero_le n
  paired := Paired.nil

theorem TaskStore.mono {m : ℕ} (h : TaskStore n ws log) (hle : n ≤ m) : TaskStore m ws log where
  table := h.table
  count := h.count.trans hle
  paired := h.paired.mono fun _ _ f hf hfits => ⟨f, hf, hfits.mono hle⟩

/-- A change of other files. -/
theorem TaskStore.frame (h : TaskStore n ws log)
    (hsame : ∀ p, IsTaskPath p → ws'.files p = ws.files p) : TaskStore n ws' log where
  table := by
    have htable : ws'.files (.entry taskRow.domain) = ws.files (.entry taskRow.domain) :=
      hsame _ (.inl rfl)
    rw [RowFormat.Holds, htable]
    exact h.table
  count := h.count
  paired := h.paired.mono fun _ _ f hf hfits => ⟨f, (hsame _ (.inr ⟨_, rfl⟩)).trans hf, hfits⟩

/-- The listing is complete. -/
theorem TaskStore.list (h : TaskStore n ws log) (hn : n ≤ intMax) :
    tpbRafEntryListTask ws = .ok (log.map LoggedTask.row) ws :=
  entryListRows_ok h.table (by rw [List.length_map]; exact h.count.trans hn)

/-- A record that is not there is about no task of the log. -/
theorem TaskStore.not_mem (h : TaskStore n ws log) {x : Id20}
    (hnone : ws.files (.record .task x) = none) : x ∉ log.map LoggedTask.id := by
  intro hmem
  obtain ⟨l, hl, rfl⟩ := List.mem_map.mp hmem
  obtain ⟨f, hf, -⟩ := h.paired.paired l hl
  rw [HoldsRecord, hnone] at hf
  cases hf

/-- **A record that is changed**, and the task of the log with it. -/
theorem TaskStore.update {m : ℕ} (h : TaskStore n ws log) (hle : n ≤ m) {x : Id20} {f : Bytes}
    {g : LoggedTask → LoggedTask} (hid : ∀ l, (g l).id = l.id) (hrow : ∀ l, (g l).row = l.row)
    (hfits : ∀ l ∈ log, l.id = x → RecordFits m (g l) f) :
    TaskStore m (ws.set (.record .task x) f) (log.map fun l => if l.id = x then g l else l) where
  table := by
    have hrows : (log.map fun l => if l.id = x then g l else l).map LoggedTask.row =
        log.map LoggedTask.row := by
      rw [List.map_map]
      refine List.map_congr_left fun l _ => ?_
      change (if l.id = x then g l else l).row = l.row
      split
      · exact hrow l
      · rfl
    rw [hrows, RowFormat.Holds, Workspace.set_files_of_ne _ _ (by simp)]
    exact h.table
  count := by
    rw [List.length_map]
    exact h.count.trans hle
  paired := by
    refine h.paired.map (fun l => ?_) fun l hl f' hf' hfits' => ?_
    · split
      · exact hid l
      · rfl
    · by_cases hx : l.id = x
      · rw [if_pos hx, hx]
        exact ⟨f, Workspace.set_files_same _ _ _, hfits l hl hx⟩
      · rw [if_neg hx]
        refine ⟨f', ?_, hfits'.mono hle⟩
        rw [HoldsRecord, Workspace.set_files_of_ne _ _ (by simpa using hx)]
        exact hf'

/-- A record that no task of the log is about. -/
theorem TaskStore.record (h : TaskStore n ws log) {x : Id20} (f : Bytes)
    (hnew : x ∉ log.map LoggedTask.id) : TaskStore n (ws.set (.record .task x) f) log := by
  have hupdate := @TaskStore.update n ws log n h (Nat.le_refl n) x f (fun l => l) (fun _ => rfl)
    (fun _ => rfl) fun l hl hx => absurd (List.mem_map_of_mem hl) (hx ▸ hnew)
  have hsame : (log.map fun l => if l.id = x then l else l) = log := by simp
  rwa [hsame] at hupdate

/-- **A new row for a record** that is there, and that no other row is about. -/
theorem TaskStore.row (h : TaskStore n ws log) {e : TaskEntry} {r : Record taskFormat}
    (hnew : e.taskRecordId ∉ log.map LoggedTask.id)
    (hr : HoldsRecord ws e.taskRecordId r.bytes) (hid : r.attr.taskRecordId = e.taskRecordId)
    (hagree : TaskAgree (n + 1) e r) :
    TaskStore (n + 1) (ws.set (.entry .task) (taskRow.table (log.map LoggedTask.row ++ [e])))
      (log ++ [.new e]) where
  table := by
    rw [List.map_append]
    exact .inl (Workspace.set_files_same _ _ _)
  count := by
    have := h.count
    rw [List.length_append, List.length_singleton]
    omega
  paired := by
    have hkeep : ∀ x f, HoldsRecord ws x f → HoldsRecord
        (ws.set (.entry .task) (taskRow.table (log.map LoggedTask.row ++ [e]))) x f := by
      intro x f hx
      rw [HoldsRecord, Workspace.set_files_of_ne _ _ (by simp)]
      exact hx
    exact (h.mono (Nat.le_succ n)).paired.concat (e := LoggedTask.new e) hnew
      (fun l _ f hf => hkeep _ f hf) (hkeep _ r.bytes hr)
      ⟨fun _ => ⟨r, rfl, hid, hagree⟩, fun htrue => (by cases htrue)⟩

/-- The steps behind a record: its row, and what does not touch the tasks. -/
theorem TaskStore.entry (h : TaskStore n ws log) {e : TaskEntry} {r : Record taskFormat}
    {rest : WsM Unit} (fault : Option Err) (hrest : Frames IsTaskPath rest)
    (hnew : e.taskRecordId ∉ log.map LoggedTask.id)
    (hr : HoldsRecord ws e.taskRecordId r.bytes) (hid : r.attr.taskRecordId = e.taskRecordId)
    (hagree : TaskAgree (n + 1) e r) :
    TaskStore (n + 1) (after ((do
      propagate .rafMisc (faulty fault (tpbRafEntryAppendTask e))
      rest) ws)) (log ++ ((if fault.isNone then some e else none).map LoggedTask.new).toList) := by
  cases fault with
  | some err =>
      rw [Option.isNone_some, if_neg Bool.false_ne_true, Option.map_none, Option.toList_none,
        List.append_nil]
      refine (h.mono (Nat.le_succ n)).frame fun p hp => ?_
      refine Frames.bind (P := IsTaskPath) (Frames.propagate _ ?_) (fun _ => hrest) ws p hp
      exact fun _ _ _ => rfl
  | none =>
      have happend : propagate .rafMisc (faulty none (tpbRafEntryAppendTask e)) ws =
          .ok () (ws.set (.entry .task) (taskRow.table (log.map LoggedTask.row ++ [e]))) :=
        propagate_eq_ok.mpr (entryAppendRow_ok h.table e)
      rw [Option.isNone_none, if_pos rfl, Option.map_some, Option.toList_some, bind_ok happend]
      exact (h.row hnew hr hid hagree).frame fun p hp => hrest _ p hp

/-! ### Writes -/

/-- The row of a task agrees with its record. -/
theorem TaskImage.Plain.agrees {x : TaskImage} (h : x.Plain) :
    RowAgrees (taskEntryOf x.attr) x.attr where
  inheritFrom := h.inheritFrom.symm
  tbatchId := rfl
  kernelId := rfl
  utcBits := rfl
  duration := h.duration.symm
  exitCode := rfl
  handleIndex := rfl
  deriveTo := h.deriveTo.symm

/-- The new task of a call in the log, if there is one. -/
def TaskCall.added (call : TaskCall) (ws : Workspace) : List LoggedTask :=
  ((call.row ws).map LoggedTask.new).toList

/-- **A write** adds its row, or nothing. -/
theorem TaskStore.write (h : TaskStore n ws log) {t : TaskWrite}
    (hready : (TaskCall.write t).Ready ws) :
    TaskStore (n + 1) (tpbKWriteTask t ws).2 (log ++ (TaskCall.write t).added ws) := by
  cases himage : t.image with
  | none =>
      rw [write_of_image_none himage, TaskCall.added, TaskCall.row, himage]
      simpa using h.mono (Nat.le_succ n)
  | some x =>
      obtain ⟨hplain, hnone⟩ := hready x (TaskWrite.image_eq_some.mp himage).1
      have hnew := h.not_mem hnone
      have hagrees := hplain.agrees
      obtain ⟨r, hattr, hheaders, hdata, hsize⟩ := hplain.wellFormed
      rw [write_of_image_some himage, TaskCall.added, TaskCall.row, himage, Option.map_some]
      rw [hattr] at hnew hagrees
      rw [TaskImage.bytes, hattr, hheaders, hdata, hsize]
      refine (h.record r.bytes hnew).entry t.entryFault (Frames.propagate _ (Frames.faulty _
        (frames_counters_tasks x.activeId 1 0))) hnew (Workspace.set_files_same _ _ _) rfl
        ⟨hagrees, fun hff => ?_⟩
      exact absurd hff (show zeroArr 20 ≠ allFf by decide)

/-! ### Creations -/

/-- **A creation** adds the row of the capsule, or nothing. -/
theorem TaskStore.create (h : TaskStore n ws log) {c : CapsuleWrite} {first : Id20}
    (hready : (TaskCall.create c first).Ready ws) :
    TaskStore (n + 1) (tpbKCreateCapsuleTask c first ws).2
      (log ++ (TaskCall.create c first).added ws) := by
  cases hsource : c.source first ws with
  | none =>
      rw [create_of_source_none hsource, TaskCall.added, TaskCall.row, hsource]
      simpa using h.mono (Nat.le_succ n)
  | some p =>
      obtain ⟨src, id⟩ := p
      obtain ⟨hrun, hgen⟩ := create_of_source_some hsource
      have hnew := h.not_mem (hready src id hgen)
      rw [hrun, TaskCall.added, TaskCall.row, hsource]
      refine (h.record _ hnew).entry c.entryFault (Frames.faulty _ fun _ _ _ => rfl) hnew
        (r := (firstCapsule src id first).record) (Workspace.set_files_same _ _ _) rfl
        ⟨⟨rfl, rfl, rfl, rfl, rfl, rfl, rfl, rfl⟩, fun _ => ⟨_, rfl, Nat.succ_le_succ n.zero_le⟩⟩

/-! ### Derivations -/

/-- What an update of a file that is there leaves. -/
theorem after_fopenUpdate_file {α : Type} {mod : Module} {p : Path} {f : Bytes} (m : FileM α)
    (hf : ws.files p = some f) :
    after (fopenUpdate mod p m ws) = ws.set p (after (m ⟨f, 0⟩)).content := by
  rw [fopenUpdate, hf]
  rcases hm : m ⟨f, 0⟩ with ⟨a, s⟩ | ⟨e, s⟩
  · simp only [hm, after]
  · simp only [hm, after]

/-- **The first half of a derivation**: the record of the task is derived. -/
theorem TaskStore.deriveRecord (h : TaskStore n ws log) (x d : Id20) :
    TaskStore n (after (fopenUpdate .rafMisc (.record .task x) (patchTaskDeriveTo x d) ws))
      (log.map fun l => if l.id = x then { l with target := d } else l) := by
  by_cases hmem : x ∈ log.map LoggedTask.id
  · obtain ⟨l, hl, rfl⟩ := List.mem_map.mp hmem
    obtain ⟨f, hf, hfits⟩ := h.paired.paired l hl
    obtain ⟨s, hpatch, hs⟩ := hfits.derive d
    rw [fopenUpdate_ok hf hpatch]
    refine h.update (Nat.le_refl n) (g := fun l => { l with target := d }) (fun _ => rfl)
      (fun _ => rfl) fun l' hl' hid => ?_
    rwa [h.paired.eq_of_key hl' hl hid]
  · rw [Paired.map_ite_of_not_mem hmem]
    cases hfile : ws.files (.record .task x) with
    | none =>
        rw [fopenUpdate, hfile]
        exact h
    | some f =>
        rw [after_fopenUpdate_file _ hfile]
        exact h.record _ hmem

/-- The log behind the second half of a derivation. -/
def derivedRows (x d : Id20) (log : List LoggedTask) : List LoggedTask :=
  log.map fun l => if l.id = x then { l with row := { l.row with deriveTo := d } } else l

/-- **The second half**: the row is derived. -/
theorem TaskStore.deriveRow (h : TaskStore n ws log) (x d : Id20) :
    TaskStore n
      (ws.set (.entry .task) (taskRow.table ((derivedRows x d log).map LoggedTask.row)))
      (derivedRows x d log) where
  table := .inl (Workspace.set_files_same _ _ _)
  count := by
    rw [derivedRows, List.length_map]
    exact h.count
  paired := by
    refine h.paired.map (fun l => ?_) fun l _ f hf hfits => ⟨f, ?_, ?_⟩
    · split <;> rfl
    · rw [HoldsRecord, Workspace.set_files_of_ne _ _ (by simp)]
      exact hf
    · split
      · exact ⟨hfits.sound, hfits.torn⟩
      · exact hfits

/-- A derivation of a task without a row leaves the table alone. -/
theorem setDeriveTo_of_not_mem (h : TaskStore n ws log) (hn : n ≤ intMax) {x : Id20}
    (hx : x ∉ log.map LoggedTask.id) (d : Id20) :
    (after (tpbKTaskSetDeriveTo x d ws)).files (.entry .task) = ws.files (.entry .task) := by
  have hrecord := @after_fopenUpdate _ .rafMisc (.record .task x) (.entry .task)
    (patchTaskDeriveTo x d) ws (by simp)
  rcases hopen : fopenUpdate .rafMisc (.record .task x) (patchTaskDeriveTo x d) ws with
    ⟨u, ws₁⟩ | ⟨e, ws₁⟩
  · rw [hopen] at hrecord
    have htable : taskRow.Holds ws₁ (log.map LoggedTask.row) := by
      have hfile : ws₁.files (.entry taskRow.domain) = ws.files (.entry taskRow.domain) := hrecord
      rw [RowFormat.Holds, hfile]
      exact h.table
    have hlist : propagate .rafMisc tpbRafEntryListTask ws₁ = .ok (log.map LoggedTask.row) ws₁ :=
      propagate_eq_ok.mpr
        (entryListRows_ok htable (by rw [List.length_map]; exact h.count.trans hn))
    have hfind : (log.map LoggedTask.row).findIdx? (·.taskRecordId = x) = none := by
      rw [List.findIdx?_eq_none_iff]
      intro e he
      obtain ⟨l, hl, rfl⟩ := List.mem_map.mp he
      refine decide_eq_false ?_
      rintro rfl
      exact hx (List.mem_map_of_mem hl)
    rw [tpbKTaskSetDeriveTo, bind_ok hopen, bind_ok hlist]
    simp only [hfind]
    exact hrecord
  · rw [hopen] at hrecord
    rw [tpbKTaskSetDeriveTo, bind_error hopen]
    exact hrecord

/-- **A derivation** derives the record of its task, and its row. -/
theorem TaskStore.derive (h : TaskStore n ws log) (hn : n ≤ intMax) (x d : Id20) :
    TaskStore n (after (tpbKTaskSetDeriveTo x d ws))
      (log.map fun l => l.change (.derive none x d)) := by
  by_cases hmem : x ∈ log.map LoggedTask.id
  · obtain ⟨l, hl, rfl⟩ := List.mem_map.mp hmem
    obtain ⟨f, hf, hfits⟩ := h.paired.paired l hl
    obtain ⟨s, hpatch, hs⟩ := hfits.derive d
    have h₁ := h.deriveRecord l.id d
    rw [fopenUpdate_ok hf hpatch, after] at h₁
    have hrows₁ : (log.map fun l' => if l'.id = l.id then { l' with target := d } else l').map
        LoggedTask.row = log.map LoggedTask.row := by
      rw [List.map_map]
      refine List.map_congr_left fun l' _ => ?_
      simp only [Function.comp_apply]
      split <;> rfl
    have hlist := h₁.list hn
    rw [hrows₁] at hlist
    obtain ⟨i, hi⟩ : ∃ i, (log.map LoggedTask.row).findIdx? (·.taskRecordId = l.id) = some i := by
      apply Option.isSome_iff_exists.mp
      simpa using ⟨l, hl, rfl⟩
    rw [tpbKTaskSetDeriveTo_of_patch hf hpatch
      (h.table.file_of_mem (List.mem_map_of_mem hl)) hlist hi hi, after]
    have h₂ := h₁.deriveRow l.id d
    -- the two changes of the log are one, and so is its row
    have hlog : derivedRows l.id d
        (log.map fun l' => if l'.id = l.id then { l' with target := d } else l') =
        log.map fun l' => l'.change (.derive none l.id d) := by
      rw [derivedRows, List.map_map]
      refine List.map_congr_left fun l' _ => ?_
      by_cases hid : l'.id = l.id
      · have hid' : ({ l' with target := d } : LoggedTask).id = l.id := hid
        simp only [Function.comp_apply, LoggedTask.change, if_pos hid, if_pos hid']
      · simp only [Function.comp_apply, LoggedTask.change, if_neg hid]
    have hrows₂ : modifyFirst (·.taskRecordId = l.id) ({ · with deriveTo := d })
        (log.map LoggedTask.row) = (log.map fun l' => l'.change (.derive none l.id d)).map
          LoggedTask.row := by
      have hdistinct : ((log.map LoggedTask.row).map TaskEntry.taskRecordId).Nodup := by
        rw [List.map_map]
        exact h.paired.distinct
      rw [modifyFirst, Paired.modify_findIdx_eq_map hdistinct, List.map_map, List.map_map]
      refine List.map_congr_left fun l' _ => ?_
      by_cases hid : l'.id = l.id
      · have hid' : l'.row.taskRecordId = l.id := hid
        simp only [Function.comp_apply, LoggedTask.change, if_pos hid, if_pos hid']
      · have hid' : ¬l'.row.taskRecordId = l.id := hid
        simp only [Function.comp_apply, LoggedTask.change, if_neg hid, if_neg hid']
    rw [hlog] at h₂
    rwa [hrows₂]
  · have hsame : (log.map fun l => l.change (.derive none x d)) = log :=
      Paired.map_ite_of_not_mem hmem
    have hfile := setDeriveTo_of_not_mem h hn hmem d
    rw [hsame]
    refine ⟨?_, h.count, h.paired.mono fun l hl f hf hfits => ⟨f, ?_, hfits⟩⟩
    · have hfile' : (after (tpbKTaskSetDeriveTo x d ws)).files (.entry taskRow.domain) =
          ws.files (.entry taskRow.domain) := hfile
      rw [RowFormat.Holds, hfile']
      exact h.table
    · have hne : l.id ≠ x := fun heq => hmem (heq ▸ List.mem_map_of_mem hl)
      exact (frames_setDeriveTo hne ws _ rfl).trans hf

/-! ### Appends -/

/-- **An append** changes the record of a capsule, and no row; -/
theorem TaskStore.append (h : TaskStore n ws log) (hn : n < intMax) {l : LoggedTask} (hl : l ∈ log)
    (hff : l.row.inheritFrom = allFf) (task : Id20) :
    TaskStore (n + 1) (after (tpbRafRecordAppendTaskCapsule l.id task ws)) log := by
  obtain ⟨f, hf, hfits⟩ := h.paired.paired l hl
  have hlt : 20 * (n + 1) < 2 ^ 63 := by
    rw [intMax] at hn
    omega
  rw [tpbRafRecordAppendTaskCapsule, after_fopenUpdate_file _ hf]
  have hupdate := @TaskStore.update n ws log (n + 1) h (Nat.le_succ n) l.id _ (fun l => l)
    (fun _ => rfl) (fun _ => rfl) fun l' hl' hid =>
      h.paired.eq_of_key hl' hl hid ▸ hfits.append hff hlt task
  have hsame : (log.map fun l' => if l'.id = l.id then l' else l') = log := by simp
  rwa [hsame] at hupdate

/-- and one that stops halfway leaves the record torn. -/
theorem TaskStore.appendFails (h : TaskStore n ws log) (hn : n < intMax) {l : LoggedTask}
    (hl : l ∈ log) (hff : l.row.inheritFrom = allFf) (k : ℕ) (task : Id20) :
    TaskStore (n + 1) (after (tpbRafRecordAppendTaskCapsuleFails k l.id task ws))
      (log.map fun l' => l'.change (.append (some k) l.id task)) := by
  obtain ⟨f, hf, hfits⟩ := h.paired.paired l hl
  have hlt : 20 * (n + 1) < 2 ^ 63 := by
    rw [intMax] at hn
    omega
  rw [tpbRafRecordAppendTaskCapsuleFails, after_fopenUpdate_file _ hf]
  cases k with
  | zero =>
      rw [appendFails_zero, Workspace.set_self hf]
      have hsame : (log.map fun l' => l'.change (.append (some 0) l.id task)) = log :=
        List.map_id _
      rw [hsame]
      exact h.mono (Nat.le_succ n)
  | succ k =>
      exact h.update (Nat.le_succ n) (g := fun l => { l with torn := true }) (fun _ => rfl)
        (fun _ => rfl) fun l' hl' hid =>
          h.paired.eq_of_key hl' hl hid ▸ hfits.appendFails hff hlt (k + 1) task

end Calls

/-! ### Runs -/

section Runs

variable {n : ℕ} {ws₀ ws ws' : Workspace} {log : List LoggedTask} {calls : List TaskDone}

/-- **The step lemma**: the store is that of the log behind a call. -/
theorem TaskStore.step (h : TaskStore n ws log) (hn : n < intMax) {done : TaskDone}
    (hstep : TaskStep ws done ws') : TaskStore (n + 1) ws' (done.log log) := by
  obtain ⟨call, row⟩ := done
  obtain ⟨hready, hrow, hws⟩ := hstep
  dsimp only at hready hrow hws
  subst hrow hws
  have hsame : ∀ log : List LoggedTask, log.map (fun l => l) ++ [] = log := by simp
  cases call with
  | write t =>
      have hwrite := h.write hready
      rwa [← List.map_id log] at hwrite
  | create c first =>
      have hcreate := h.create hready
      rwa [← List.map_id log] at hcreate
  | unfinished task f =>
      have hleft := (h.record f (h.not_mem hready)).mono (Nat.le_succ n)
      rwa [← hsame log] at hleft
  | append stop capsule task =>
      obtain ⟨rows, hlist, e, he, hid, hff⟩ := hready
      rw [h.list hn.le] at hlist
      cases hlist
      obtain ⟨l, hl, rfl⟩ := List.mem_map.mp he
      cases stop with
      | none =>
          have happend := h.append hn hl hff task
          rw [← hsame log] at happend
          exact hid ▸ happend
      | some k =>
          have hfails := h.appendFails hn hl hff k task
          rw [← List.append_nil (log.map _)] at hfails
          exact hid ▸ hfails
  | derive fault task target =>
      rcases fault with - | (- | -)
      · have hderive := (h.derive hn.le task target).mono (Nat.le_succ n)
        rwa [← List.append_nil (log.map _)] at hderive
      · have hleft := h.mono (Nat.le_succ n)
        rwa [← hsame log] at hleft
      · have hderive := (h.deriveRecord task target).mono (Nat.le_succ n)
        rwa [← List.append_nil (log.map _)] at hderive

/-- The store is that of the log behind any calls. -/
theorem TaskStore.of_run (h : TaskStore n ws₀ log) (hrun : Run TaskStep ws₀ calls ws)
    (hlen : n + calls.length ≤ intMax) :
    TaskStore (n + calls.length) ws (calls.foldl TaskDone.log log) := by
  refine hrun.invariant (P := fun calls ws => n + calls.length ≤ intMax →
    TaskStore (n + calls.length) ws (calls.foldl TaskDone.log log)) (fun _ => h) ?_ hlen
  intro calls ws done ws' ih hstep hlen
  rw [List.length_append, List.length_singleton] at hlen ⊢
  rw [List.foldl_append]
  exact (ih (by omega)).step (by omega) hstep

/-- What a record that is not torn says, through the reader. -/
theorem TaskStore.read (h : TaskStore n ws log) {l : LoggedTask} (hl : l ∈ log)
    (htorn : l.torn = false) :
    ∃ v, tpbRafRecordReadTask l.id true ws = .ok v ws ∧ v.attr.taskRecordId = l.id ∧
      RowAgrees l.recorded v.attr := by
  obtain ⟨f, hf, hfits⟩ := h.paired.paired l hl
  obtain ⟨r, rfl, hid, hagree⟩ := hfits.sound htorn
  exact ⟨r.view, recordRead_of_bytes hf, hid, hagree.attr⟩

/-- A task of the log is new, or was there before the last call. -/
theorem mem_log_iff {done : TaskDone} {l : LoggedTask} :
    l ∈ done.log log ↔ (∃ l' ∈ log, l'.change done.1 = l) ∨ done.2.map LoggedTask.new = some l := by
  rw [TaskDone.log, List.mem_append, List.mem_map, Option.mem_toList]

/-- Only an append that stopped behind its first write leaves a record torn. -/
theorem torn_of_mem_logOf {l : LoggedTask} (hl : l ∈ logOf calls) (htorn : l.torn = true) :
    ∃ done ∈ calls, ∃ k y, done.1 = .append (some (k + 1)) l.id y := by
  induction calls using List.reverseRecOn generalizing l with
  | nil => cases hl
  | append_singleton calls done ih =>
      rw [logOf, List.foldl_append] at hl
      rcases mem_log_iff.mp hl with ⟨l', hl', rfl⟩ | hnew
      · by_cases hold : l'.torn = true
        · obtain ⟨done', hmem, hdone⟩ := ih hl' hold
          rw [LoggedTask.id_change]
          exact ⟨done', List.mem_append_left _ hmem, hdone⟩
        · refine ⟨done, List.mem_append_right _ (List.mem_singleton_self _), ?_⟩
          rw [LoggedTask.id_change]
          unfold LoggedTask.change at htorn
          split at htorn
          · next k capsule y heq =>
              split at htorn
              · next hid => exact ⟨k, y, by rw [heq, hid]⟩
              · exact absurd htorn hold
          · split at htorn
            · exact absurd htorn hold
            · exact absurd htorn hold
          · split at htorn
            · exact absurd htorn hold
            · exact absurd htorn hold
          · exact absurd htorn hold
      · obtain ⟨e, -, rfl⟩ := Option.map_eq_some_iff.mp hnew
        cases htorn

/-- A record and its row are derived to different tasks only where a derivation has failed between
the two. -/
theorem derived_of_mem_logOf {l : LoggedTask} (hl : l ∈ logOf calls)
    (hne : l.target ≠ l.row.deriveTo) :
    ∃ done ∈ calls, ∃ d, done.1 = .derive (some .row) l.id d := by
  induction calls using List.reverseRecOn generalizing l with
  | nil => cases hl
  | append_singleton calls done ih =>
      rw [logOf, List.foldl_append] at hl
      rcases mem_log_iff.mp hl with ⟨l', hl', rfl⟩ | hnew
      · by_cases hold : l'.target = l'.row.deriveTo
        · refine ⟨done, List.mem_append_right _ (List.mem_singleton_self _), ?_⟩
          rw [LoggedTask.id_change]
          unfold LoggedTask.change at hne
          split at hne
          · split at hne
            · exact absurd hold hne
            · exact absurd hold hne
          · split at hne
            · exact absurd rfl hne
            · exact absurd hold hne
          · next task d heq =>
              split at hne
              · next hid => exact ⟨d, by rw [heq, hid]⟩
              · exact absurd hold hne
          · exact absurd hold hne
        · obtain ⟨done', hmem, hdone⟩ := ih hl' hold
          rw [LoggedTask.id_change]
          exact ⟨done', List.mem_append_left _ hmem, hdone⟩
      · obtain ⟨e, -, rfl⟩ := Option.map_eq_some_iff.mp hnew
        exact absurd rfl hne

/-- **The table of tasks is the log of the calls.** After any sequence of calls from an empty
table, of which any may have failed, the listing returns the rows of the log: those of the writes
and the creations in their order, each with the target it was derived to last. No two are about
the same task. The record of each is read back with the same data, unless an append to it has
stopped halfway, and with the same target, unless a derivation of it has failed between the record
and the row. -/
theorem task_log (hstart : taskRow.Holds ws₀ []) (hrun : Run TaskStep ws₀ calls ws)
    (hlen : calls.length ≤ intMax) :
    tpbRafEntryListTask ws = .ok (rowsOf calls) ws ∧
      ((logOf calls).map LoggedTask.id).Nodup ∧
      ∀ l ∈ logOf calls,
        (l.torn = false → ∃ v, tpbRafRecordReadTask l.id true ws = .ok v ws ∧
          v.attr.taskRecordId = l.id ∧ RowAgrees l.recorded v.attr) ∧
        (l.torn = true → ∃ done ∈ calls, ∃ k y, done.1 = .append (some (k + 1)) l.id y) ∧
        (l.target ≠ l.row.deriveTo →
          ∃ done ∈ calls, ∃ d, done.1 = .derive (some .row) l.id d) := by
  have hlen' : 0 + calls.length ≤ intMax := by rwa [Nat.zero_add]
  have h := (taskStore_nil hstart).of_run hrun hlen'
  exact ⟨h.list hlen', h.paired.distinct, fun l hl =>
    ⟨fun htorn => h.read hl htorn, torn_of_mem_logOf hl, derived_of_mem_logOf hl⟩⟩

/-! ### A run with failures -/

/-- A write of a task without headers. -/
def bareDone (id : Id20) : TaskDone := (.write (bareWrite id), some (taskEntryOf (bareAttr id)))

theorem bareDone_step {id : Id20} (h : ws.files (.record .task id) = none) :
    TaskStep ws (bareDone id) ((bareDone id).1.run ws) := by
  refine ⟨?_, rfl, rfl⟩
  intro x hx
  cases hx
  exact ⟨⟨⟨Record.bare (bareAttr id) rfl, rfl, rfl, rfl, rfl⟩, rfl, rfl, rfl⟩, h⟩

/-- The records behind such a write. -/
theorem bareDone_files (id x : Id20) (ws : Workspace) :
    ((bareDone id).1.run ws).files (.record .task x) =
      if x = id then some (Record.bare (F := taskFormat) (bareAttr id) rfl).bytes
      else ws.files (.record .task x) := by
  have himage : (bareWrite id).image = some ⟨bareAttr id, [], none, 0, 0⟩ := rfl
  change (tpbKWriteTask (bareWrite id) ws).2.files _ = _
  rw [write_of_image_some himage, frames_behindRecord _
    (Frames.propagate _ (Frames.faulty _ (frames_counters_tasks 0 1 0))) x _ _ rfl]
  by_cases hx : x = id
  · subst hx
    rw [if_pos rfl]
    exact Workspace.set_files_same _ _ _
  · rw [if_neg hx, Workspace.set_files_of_ne _ _ (by simpa [bareAttr] using hx)]

/-- The creation of a capsule for such a task. -/
def capsuleDone (id first : Id20) : TaskDone :=
  (.create (bareCapsule id) first, some (capsuleEntryOf (bareAttr first) id))

theorem capsuleDone_step {id first : Id20} (hnew : ws.files (.record .task id) = none)
    (hfirst : ws.files (.record .task first) =
      some (Record.bare (F := taskFormat) (bareAttr first) rfl).bytes) :
    TaskStep ws (capsuleDone id first) ((capsuleDone id first).1.run ws) := by
  have hread : tpbRafRecordReadTask first false ws = .ok ⟨bareAttr first, [], 0, []⟩ ws :=
    fopenRead_ok hfirst (reads_bare (bareAttr first) rfl).run
  refine ⟨fun a x hx => ?_, ?_, rfl⟩
  · cases hx
    exact hnew
  · have hsource : (bareCapsule id).source first ws = some (bareAttr first, id) := by
      simp only [CapsuleWrite.source, bareCapsule, hread]
    simp only [capsuleDone, TaskCall.row, hsource]
    rfl

theorem derive_step (ws : Workspace) (fault : Option DeriveFault) (x d : Id20) :
    TaskStep ws (.derive fault x d, none) ((TaskCall.derive fault x d).run ws) :=
  ⟨trivial, rfl, rfl⟩

/-- Two tasks and a capsule. The derivation of the second task fails behind its record, and an
append to the capsule fails behind its second write. -/
def tornCalls : List TaskDone :=
  [bareDone (idOf 1), bareDone (idOf 3), capsuleDone (idOf 2) (idOf 1),
   (.derive none (idOf 1) (idOf 2), none), (.derive (some .row) (idOf 3) (idOf 2), none),
   (.append (some 2) (idOf 2) (idOf 3), none)]

/-- The first task is derived, the second one in its record only, and nothing is said about the
record of the capsule. -/
theorem task_log_derived : ∃ ws, Run TaskStep Workspace.empty tornCalls ws ∧
    tpbRafEntryListTask ws = .ok [{ taskEntryOf (bareAttr (idOf 1)) with deriveTo := idOf 2 },
      taskEntryOf (bareAttr (idOf 3)), capsuleEntryOf (bareAttr (idOf 1)) (idOf 2)] ws ∧
    ∀ x ∈ [idOf 1, idOf 3], ∃ v, tpbRafRecordReadTask x true ws = .ok v ws ∧
      v.attr.deriveTo = idOf 2 := by
  have hempty : taskRow.Holds Workspace.empty [] := .inr ⟨rfl, rfl⟩
  set ws₁ := (bareDone (idOf 1)).1.run Workspace.empty with hws₁
  set ws₂ := (bareDone (idOf 3)).1.run ws₁ with hws₂
  have hwrite₁ : TaskStep Workspace.empty (bareDone (idOf 1)) ws₁ := bareDone_step rfl
  have hwrite₂ : TaskStep ws₁ (bareDone (idOf 3)) ws₂ :=
    bareDone_step (by rw [hws₁, bareDone_files, if_neg (by decide)]; rfl)
  have hnew : ws₂.files (.record .task (idOf 2)) = none := by
    rw [hws₂, bareDone_files, if_neg (by decide), hws₁, bareDone_files, if_neg (by decide)]
    rfl
  have hfirst : ws₂.files (.record .task (idOf 1)) =
      some (Record.bare (F := taskFormat) (bareAttr (idOf 1)) rfl).bytes := by
    rw [hws₂, bareDone_files, if_neg (by decide), hws₁, bareDone_files, if_pos rfl]
  have hcreate := capsuleDone_step hnew hfirst
  set ws₃ := (capsuleDone (idOf 2) (idOf 1)).1.run ws₂
  have hderive₁ := derive_step ws₃ none (idOf 1) (idOf 2)
  set ws₄ := (TaskCall.derive none (idOf 1) (idOf 2)).run ws₃
  have hderive₂ := derive_step ws₄ (some .row) (idOf 3) (idOf 2)
  set ws₅ := (TaskCall.derive (some .row) (idOf 3) (idOf 2)).run ws₄
  have hrun₅ := ((((Run.nil.snoc hwrite₁).snoc hwrite₂).snoc hcreate).snoc hderive₁).snoc hderive₂
  obtain ⟨hlist₅, -⟩ := task_log hempty hrun₅ (by decide)
  have hcapsule : capsuleEntryOf (bareAttr (idOf 1)) (idOf 2) ∈ rowsOf (tornCalls.take 5) := by
    decide +kernel
  have happend : TaskStep ws₅ (.append (some 2) (idOf 2) (idOf 3), none) _ :=
    ⟨⟨_, hlist₅, _, hcapsule, rfl, rfl⟩, rfl, rfl⟩
  have hrun := hrun₅.snoc happend
  obtain ⟨hlist, -, hread⟩ := task_log hempty hrun (by decide)
  have hrows : rowsOf tornCalls = [{ taskEntryOf (bareAttr (idOf 1)) with deriveTo := idOf 2 },
      taskEntryOf (bareAttr (idOf 3)), capsuleEntryOf (bareAttr (idOf 1)) (idOf 2)] := by
    decide +kernel
  refine ⟨_, hrun, hlist.trans (by rw [← hrows]; rfl), fun x hx => ?_⟩
  have hmem : ∃ l ∈ logOf tornCalls, l.id = x ∧ l.torn = false ∧ l.target = idOf 2 := by
    rcases List.mem_pair.mp hx with rfl | rfl
    · decide +kernel
    · decide +kernel
  obtain ⟨l, hl, rfl, htorn, htarget⟩ := hmem
  obtain ⟨v, hv, -, hagree⟩ := (hread l hl).1 htorn
  exact ⟨v, hv, hagree.deriveTo.symm.trans htarget⟩

end Runs

end TPBench
