import Mathlib.Order.Interval.Finset.Basic
import Mathlib.Data.Int.Interval
import TPBench.Conc.Runs
import TPBench.Rtenv.Create

/-!
# Rows and Records of Runtime Environments

Every runtime environment is stored twice: as a row of the table and as the attributes of a
record. The two share eleven fields (`Agree`), and four operations write them: the snapshot
of the build environment, the creation by the command line tool, the increase of the
counters, and the registration of a child.

`Consistent ws rows` is the invariant of the workspace: the table consists of `rows`, their
IDs are positive and distinct, and each of them has a record that agrees with it. Positive
distinct IDs also bound the number of rows, so that a listing is always complete. The
snapshot, the counters and the registration keep the invariant, hence so does every run of
them (`rtenv_runs_agree`). The creation by the command line tool breaks it: it leaves the
latest child and the note of the record zero (`writeRecord_disagrees`).
-/

open CFile Conc

namespace TPBench

/-! ### The operations -/

/-- The operations that write rows and records of runtime environments. -/
inductive RtenvOp
  | snapshotBuildEnv (sys : SysEnv) (alwaysNew : Bool)
  | writeRecord (hostname : CArr 256) (utcBits : UInt64) (id : Int32) (name note : Bytes)
      (inheritFrom : Int32) (spec : RtenvSpec)
  | patchCounters (id : Int32) (addNtask addNtbatch : UInt32)
  | appendDerive (parentId childId : Int32)

/-- The function an operation calls. -/
def RtenvOp.run : RtenvOp → WsM Unit
  | .snapshotBuildEnv sys alwaysNew => do
      let _ ← tpbRtenvSnapshotBuildEnv sys alwaysNew
  | .writeRecord hostname utcBits id name note inheritFrom spec =>
      tpbcliRtenvWriteRecord hostname utcBits id name note inheritFrom spec
  | .patchCounters id addNtask addNtbatch =>
      tpbRafRecordPatchRtenvCounters id addNtask addNtbatch
  | .appendDerive parentId childId => tpbRafRecordAppendRtenvDerive parentId childId

/-- One successful operation. -/
def OpStep (ws : Workspace) (op : RtenvOp) (ws' : Workspace) : Prop :=
  op.run ws = .ok () ws'

/-- The operation is a call of `tpbcli_rtenv_write_record`. -/
def RtenvOp.isWriteRecord : RtenvOp → Bool
  | .writeRecord .. => true
  | _ => false

/-! ### Agreement -/

/-- A row and the attributes of a record agree on the fields they share. -/
structure Agree (e : RtenvEntry) (a : RtenvAttr) : Prop where
  id : e.id = a.id
  name : e.name = a.name
  hostname : e.hostname = a.hostname
  utcBits : e.utcBits = a.utcBits
  inheritFrom : e.inheritFrom = a.inheritFrom
  deriveTo : e.deriveTo = a.deriveTo
  ntask : e.ntask = a.ntask
  ntbatch : e.ntbatch = a.ntbatch
  note : e.note = a.note
  napp : e.napp = a.napp
  nenv : e.nenv = a.nenv

/-- Every environment the table lists has a record, and the row agrees with it. -/
def RtenvAgrees (ws : Workspace) : Prop :=
  ∃ entries, tpbRafEntryListRtenv ws = .ok entries ws ∧
    ∀ e ∈ entries, ∃ v, tpbRafRecordReadRtenv e.id ws = .ok v ws ∧ Agree e v.attr

/-- The invariant of the workspace. -/
structure Consistent (ws : Workspace) (rows : List RtenvEntry) : Prop where
  table : rtenvRow.Holds ws rows
  distinct : (rows.map RtenvEntry.id).Nodup
  pos : ∀ e ∈ rows, 0 < e.id
  agree : ∀ e ∈ rows, ∃ r : Record rtenvFormat,
    ws.files (.rtenv e.id) = some r.bytes ∧ Agree e r.attr

/-- There are no more positive distinct IDs than an `int` can count. -/
theorem length_le_intMax {rows : List RtenvEntry} (hdistinct : (rows.map RtenvEntry.id).Nodup)
    (hpos : ∀ e ∈ rows, 0 < e.id) : rows.length ≤ intMax := by
  set ids := (rows.map RtenvEntry.id).map Int32.toInt with hids
  have hnodup : ids.Nodup := hdistinct.map fun a b hab => Int32.toInt_inj.mp hab
  have hsub : ids.toFinset ⊆ Finset.Icc 1 2147483647 := by
    intro i hi
    rw [List.mem_toFinset, hids, List.map_map] at hi
    obtain ⟨e, he, rfl⟩ := List.mem_map.mp hi
    have hlt := Int32.lt_iff_toInt_lt.mp (hpos e he)
    have hle := e.id.toInt_le
    have hzero : (0 : Int32).toInt = 0 := rfl
    have hmax : Int32.maxValue.toInt = 2147483647 := rfl
    rw [Finset.mem_Icc]
    change 1 ≤ e.id.toInt ∧ e.id.toInt ≤ 2147483647
    omega
  calc rows.length = ids.length := by rw [hids, List.length_map, List.length_map]
    _ = ids.toFinset.card := (List.toFinset_card_of_nodup hnodup).symm
    _ ≤ (Finset.Icc (1 : ℤ) 2147483647).card := Finset.card_le_card hsub
    _ = intMax := by
      rw [Int.card_Icc]
      rfl

section Invariant

variable {ws ws' : Workspace} {rows : List RtenvEntry}

/-- The invariant gives the agreement a reader sees. -/
theorem Consistent.agrees (h : Consistent ws rows) : RtenvAgrees ws := by
  refine ⟨rows, entryListRows_ok h.table (length_le_intMax h.distinct h.pos), ?_⟩
  intro e he
  obtain ⟨r, hr, hagree⟩ := h.agree e he
  exact ⟨r.view, recordRead_of_bytes hr, hagree⟩

/-- With distinct IDs, the first row with an ID is the only one. -/
theorem modifyFirst_eq_map (id : Int32) (f : RtenvEntry → RtenvEntry)
    (hdistinct : (rows.map RtenvEntry.id).Nodup) :
    modifyFirst (·.id = id) f rows = rows.map fun e => if e.id = id then f e else e := by
  induction rows with
  | nil => rfl
  | cons e rows ih =>
      rw [List.map_cons, List.nodup_cons] at hdistinct
      by_cases he : e.id = id
      · have hrest : ∀ x ∈ rows, (if x.id = id then f x else x) = x := by
          intro x hx
          rw [if_neg]
          intro hid
          exact hdistinct.1 (List.mem_map.mpr ⟨x, hx, hid.trans he.symm⟩)
        rw [List.map_cons, if_pos he, List.map_congr_left hrest, List.map_id']
        simp [modifyFirst, List.findIdx_cons, he]
      · have ih' := ih hdistinct.2
        rw [List.map_cons, if_neg he, ← ih']
        simp [modifyFirst, List.findIdx_cons, he]

/-- A patch of a row and its record that keeps the agreement of the two keeps the
invariant. -/
theorem Consistent.patch (h : Consistent ws rows) {e : RtenvEntry} (he : e ∈ rows)
    {f : RtenvEntry → RtenvEntry} (hid : ∀ x, (f x).id = x.id) {r : Record rtenvFormat}
    (hagree : Agree (f e) r.attr) :
    Consistent ((ws.set (.rtenv e.id) r.bytes).set (.entry .rtenv)
        (rtenvRow.table (modifyFirst (·.id = e.id) f rows)))
      (modifyFirst (·.id = e.id) f rows) := by
  have hmap := modifyFirst_eq_map e.id f h.distinct
  have hids : (modifyFirst (·.id = e.id) f rows).map RtenvEntry.id =
      rows.map RtenvEntry.id := by
    rw [hmap, List.map_map]
    refine List.map_congr_left ?_
    intro x _
    by_cases hx : x.id = e.id <;> simp [hx, hid]
  refine ⟨.inl (Workspace.set_files_same _ _ _), ?_, ?_, ?_⟩
  · rw [hids]
    exact h.distinct
  · intro x hx
    obtain ⟨y, hy, hxy⟩ : ∃ y ∈ rows, y.id = x.id := by
      have hmem : x.id ∈ rows.map RtenvEntry.id := by
        rw [← hids]
        exact List.mem_map.mpr ⟨x, hx, rfl⟩
      exact List.mem_map.mp hmem
    rw [← hxy]
    exact h.pos y hy
  · intro x hx
    rw [hmap] at hx
    obtain ⟨y, hy, rfl⟩ := List.mem_map.mp hx
    by_cases hye : y.id = e.id
    · -- the only row with this ID is `e` itself
      obtain rfl : y = e := List.inj_on_of_nodup_map h.distinct hy he hye
      rw [if_pos rfl, hid]
      refine ⟨r, ?_, hagree⟩
      rw [Workspace.set_files_of_ne _ _ (by simp), Workspace.set_files_same]
    · rw [if_neg hye]
      obtain ⟨r₀, hr₀, hagree₀⟩ := h.agree y hy
      refine ⟨r₀, ?_, hagree₀⟩
      rw [Workspace.set_files_of_ne _ _ (by simp),
        Workspace.set_files_of_ne _ _ (by simpa using hye), hr₀]

/-- A new row with an unused positive ID and an agreeing record keeps the invariant. -/
theorem Consistent.create (h : Consistent ws rows) {e : RtenvEntry} (hpos : 0 < e.id)
    (hnew : ∀ x ∈ rows, x.id ≠ e.id) {r : Record rtenvFormat} (hagree : Agree e r.attr) :
    Consistent ((ws.set (.entry .rtenv) (rtenvRow.table (rows ++ [e]))).set (.rtenv e.id)
      r.bytes) (rows ++ [e]) := by
  refine ⟨.inl ?_, ?_, ?_, ?_⟩
  · rw [Workspace.set_files_of_ne _ _ (by simp)]
    exact Workspace.set_files_same _ _ _
  · rw [List.map_append, List.map_singleton, List.nodup_append]
    refine ⟨h.distinct, List.nodup_singleton _, ?_⟩
    intro i hi j hj
    obtain ⟨x, hx, rfl⟩ := List.mem_map.mp hi
    rw [List.mem_singleton.mp hj]
    exact hnew x hx
  · intro x hx
    rcases List.mem_append.mp hx with hx | hx
    · exact h.pos x hx
    · rwa [List.mem_singleton.mp hx]
  · intro x hx
    rcases List.mem_append.mp hx with hx | hx
    · obtain ⟨r₀, hr₀, hagree₀⟩ := h.agree x hx
      refine ⟨r₀, ?_, hagree₀⟩
      have hne := hnew x hx
      rw [Workspace.set_files_of_ne _ _ (by simpa using hne),
        Workspace.set_files_of_ne _ _ (by simp), hr₀]
    · rw [List.mem_singleton.mp hx]
      exact ⟨r, Workspace.set_files_same _ _ _, hagree⟩

end Invariant

/-! ### The operations keep the invariant -/

section Steps

variable {ws ws' : Workspace} {rows : List RtenvEntry}

/-- The invariant is about the files only. -/
theorem Consistent.of_files (h : Consistent ws rows) (hfiles : ws'.files = ws.files) :
    Consistent ws' rows := by
  obtain ⟨htable, hdistinct, hpos, hagree⟩ := h
  refine ⟨?_, hdistinct, hpos, ?_⟩
  · rw [RowFormat.Holds, hfiles]
    exact htable
  · rwa [hfiles]

/-- Picking a name reads the workspace only. -/
theorem pickName_ok {k n : ℕ} {name : Bytes} (h : pickName k n ws = .ok name ws') :
    ws' = ws := by
  induction k generalizing n with
  | zero => cases h
  | succ k ih =>
      obtain ⟨found, ws₁, hexists, hrest⟩ := bind_eq_ok.mp h
      obtain ⟨rfl, -⟩ := rowExists_ok hexists
      cases found with
      | true => exact ih hrest
      | false =>
          cases hrest
          rfl

theorem sfPickBuildEnvName_ok {name : Bytes} (h : sfPickBuildEnvName ws = .ok name ws') :
    ws' = ws := by
  obtain ⟨found, ws₁, hexists, hrest⟩ := bind_eq_ok.mp h
  obtain ⟨rfl, -⟩ := rowExists_ok hexists
  cases found with
  | true => exact pickName_ok hrest
  | false =>
      cases hrest
      rfl

/-- Writing the row and the record of a snapshot. -/
theorem sfWriteEnvSnapshotRecord_ok (htable : rtenvRow.Holds ws rows) {sys : SysEnv}
    {id : Int32} {name : Bytes} (hok : sfWriteEnvSnapshotRecord sys id name ws = .ok () ws') :
    ∃ (e : RtenvEntry) (r : Record rtenvFormat), e.id = id ∧ Agree e r.attr ∧
      ws' = (ws.set (.entry .rtenv) (rtenvRow.table (rows ++ [e]))).set (.rtenv e.id)
        r.bytes := by
  simp only [sfWriteEnvSnapshotRecord] at hok
  set vars := sys.environ.filterMap splitVar
  obtain ⟨⟨⟩, ws₁, happend, hok⟩ := bind_eq_ok.mp hok
  rw [propagate_eq_ok] at happend
  obtain ⟨rfl, -⟩ := tpbRafEntryAppendRtenv_ok htable happend
  split at hok
  · cases hok
  · rename_i hcount
    split at hok
    · cases hok
    · rename_i hsize
      set r := snapshotRecord sys id name vars (by omega) (by omega) with hr
      have hdata : r.datasize = UInt64.ofNat (vars.flatMap varPayload).length := by
        rw [Record.datasize, hr, snapshotRecord_data]
      rw [propagate_eq_ok, ← hdata] at hok
      cases hok
      exact ⟨_, r, rfl, ⟨rfl, rfl, rfl, rfl, rfl, rfl, rfl, rfl, rfl, rfl, rfl⟩, rfl⟩

/-- The snapshot keeps the invariant. -/
theorem Consistent.snapshot (h : Consistent ws rows) {sys : SysEnv} {alwaysNew : Bool}
    {id : Int32} (hok : tpbRtenvSnapshotBuildEnv sys alwaysNew ws = .ok id ws') :
    ∃ rows', Consistent ws' rows' := by
  have hlist := entryListRows_ok h.table (length_le_intMax h.distinct h.pos)
  obtain ⟨entries, ws₁, hlist₁, hok₁⟩ := bind_eq_ok.mp hok
  rw [propagate_eq_ok, tpbRafEntryListRtenv, hlist] at hlist₁
  cases hlist₁
  split at hok₁
  · obtain ⟨baseId, ws₂, hbase, hok₂⟩ := bind_eq_ok.mp hok₁
    rw [propagate_eq_ok] at hbase
    cases hbase
    obtain ⟨found, ws₃, hexists, hok₃⟩ := bind_eq_ok.mp hok₂
    obtain ⟨rfl, -⟩ := rowExists_ok hexists
    cases found with
    | true =>
        cases hok₃
        exact ⟨rows, h⟩
    | false => cases hok₃
  · obtain ⟨name, ws₂, hname, hok₂⟩ := bind_eq_ok.mp hok₁
    rw [propagate_eq_ok] at hname
    obtain rfl := sfPickBuildEnvName_ok hname
    obtain ⟨newId, ws₃, halloc, hok₃⟩ := bind_eq_ok.mp hok₂
    rw [propagate_eq_ok] at halloc
    obtain ⟨rfl, hpos, listed, hlist₂, hnew⟩ := tpbRafRtenvAllocNextId_ok halloc
    rw [tpbRafEntryListRtenv, hlist] at hlist₂
    cases hlist₂
    obtain ⟨⟨⟩, ws₄, hwrite, hok₄⟩ := bind_eq_ok.mp hok₃
    rw [propagate_eq_ok] at hwrite
    obtain ⟨e, r, rfl, hagree, rfl⟩ := sfWriteEnvSnapshotRecord_ok h.table hwrite
    obtain ⟨⟨⟩, ws₅, hset, hok₅⟩ := bind_eq_ok.mp hok₄
    rw [propagate_eq_ok] at hset
    cases hset
    cases hok₅
    have hcreate := h.create hpos (fun x hx => Int32.ne_of_lt (hnew x hx)) hagree
    exact ⟨_, hcreate.of_files rfl⟩

/-- A patch of the counters keeps the invariant. -/
theorem Consistent.patchCounters (h : Consistent ws rows) {id : Int32} {m n : UInt32}
    (hok : tpbRafRecordPatchRtenvCounters id m n ws = .ok () ws') :
    ∃ rows', Consistent ws' rows' := by
  rcases tpbRafRecordPatchRtenvCounters_eq_ok h.table hok with rfl | ⟨e, he, rfl⟩
  · exact ⟨rows, h⟩
  · obtain ⟨r, hr, hagree⟩ := h.agree e he
    rw [tpbRafRecordPatchRtenvCounters_run hr (h.table.file_of_mem he) ⟨e, he, rfl⟩] at hok
    cases hok
    refine ⟨_, h.patch he (f := RtenvEntry.addCounters m n) (fun _ => rfl) ?_⟩
    have hntask : e.ntask + m = r.attr.ntask + m := by rw [hagree.ntask]
    have hntbatch : e.ntbatch + n = r.attr.ntbatch + n := by rw [hagree.ntbatch]
    exact { hagree with ntask := hntask, ntbatch := hntbatch }

/-- The registration of a child keeps the invariant. -/
theorem Consistent.appendDerive (h : Consistent ws rows) {parentId childId : Int32}
    (hok : tpbRafRecordAppendRtenvDerive parentId childId ws = .ok () ws') :
    ∃ rows', Consistent ws' rows' := by
  obtain ⟨e, he, rfl⟩ := tpbRafRecordAppendRtenvDerive_row h.table hok
  obtain ⟨r, hr, hagree⟩ := h.agree e he
  rw [hagree.id] at hr hok
  obtain ⟨-, r', hattr, rfl⟩ :=
    tpbRafRecordAppendRtenvDerive_ok hr (h.table.file_of_mem he) hok
  rw [← hagree.id]
  refine ⟨_, h.patch he (f := RtenvEntry.withDeriveTo childId) (fun _ => rfl) ?_⟩
  rw [hattr]
  exact { hagree with deriveTo := rfl }

/-- Every operation but the creation by the command line tool keeps the invariant. -/
theorem Consistent.step (h : Consistent ws rows) {op : RtenvOp} (hop : op.isWriteRecord = false)
    (hok : OpStep ws op ws') : ∃ rows', Consistent ws' rows' := by
  cases op with
  | snapshotBuildEnv sys alwaysNew =>
      obtain ⟨id, ws₁, hrun, hret⟩ := bind_eq_ok.mp hok
      cases hret
      exact h.snapshot hrun
  | writeRecord => cases hop
  | patchCounters id m n => exact h.patchCounters hok
  | appendDerive parentId childId => exact h.appendDerive hok

end Steps

/-- **Rows and records agree along every run** of successful operations on a workspace
without runtime environments, as long as none of them is the creation by the command line
tool. -/
theorem rtenv_runs_agree {ws₀ ws : Workspace} {ops : List RtenvOp}
    (hstart : rtenvRow.Holds ws₀ []) (hrun : Run OpStep ws₀ ops ws)
    (hops : ∀ op ∈ ops, op.isWriteRecord = false) : RtenvAgrees ws := by
  have hinv : (∀ op ∈ ops, op.isWriteRecord = false) → ∃ rows, Consistent ws rows := by
    refine hrun.invariant (P := fun ops ws =>
      (∀ op ∈ ops, op.isWriteRecord = false) → ∃ rows, Consistent ws rows) ?_ ?_
    · intro _
      exact ⟨[], hstart, List.nodup_nil, by simp, by simp⟩
    · intro t s op s' ih hstep hall
      obtain ⟨rows, h⟩ := ih fun x hx => hall x (List.mem_append_left _ hx)
      exact h.step (hall op (by simp)) hstep
  obtain ⟨rows, h⟩ := hinv hops
  exact h.agrees

/-- A snapshot of a process with a variable, a child that is registered with it, and a task that
is counted for it. -/
theorem rtenv_runs_agree_counted : ∃ ws,
    Run OpStep Workspace.empty
      [.snapshotBuildEnv oneVarSys true, .appendDerive 1 2, .patchCounters 1 1 0] ws ∧
    RtenvAgrees ws := by
  obtain ⟨ws₁, r, hsnap, hrows, hr, hid, hroom⟩ := exists_oneVar_snapshot
  have hstep₁ : OpStep Workspace.empty (.snapshotBuildEnv oneVarSys true) ws₁ :=
    bind_then hsnap rfl
  have htable : ws₁.files (.entry .rtenv) =
      some (rtenvRow.table [snapshotEntry oneVarSys 1 baseName 1]) :=
    hrows.file_of_mem (List.mem_singleton.mpr rfl)
  have hex : ∃ e ∈ [snapshotEntry oneVarSys 1 baseName 1], e.id = r.attr.id :=
    ⟨_, List.mem_singleton.mpr rfl, hid.symm⟩
  rw [← hid] at hr
  obtain ⟨ws₂, hderive⟩ := tpbRafRecordAppendRtenvDerive_run hr htable hex hroom
  obtain ⟨-, r', hattr, hws₂⟩ := tpbRafRecordAppendRtenvDerive_ok hr htable hderive
  rw [hid] at hderive hws₂
  obtain ⟨ws₃, hcount⟩ : ∃ ws₃, tpbRafRecordPatchRtenvCounters 1 1 0 ws₂ = .ok () ws₃ := by
    have hr' : ws₂.files (.rtenv 1) = some r'.bytes := by
      rw [hws₂, Workspace.set_files_of_ne _ _ (by simp), Workspace.set_files_same]
    have htable' : ws₂.files (.entry .rtenv) = some (rtenvRow.table (modifyFirst (·.id = 1)
        (RtenvEntry.withDeriveTo 2) [snapshotEntry oneVarSys 1 baseName 1])) := by
      rw [hws₂, Workspace.set_files_same]
    exact ⟨_, tpbRafRecordPatchRtenvCounters_run hr' htable' ⟨_, List.mem_singleton.mpr rfl, rfl⟩
      1 0⟩
  have hstep₂ : OpStep ws₁ (.appendDerive 1 2) ws₂ := hderive
  have hstep₃ : OpStep ws₂ (.patchCounters 1 1 0) ws₃ := hcount
  have hrun := ((Run.nil.snoc hstep₁).snoc hstep₂).snoc hstep₃
  exact ⟨ws₃, hrun, rtenv_runs_agree (.inr ⟨rfl, rfl⟩) hrun (by simp [RtenvOp.isWriteRecord])⟩

/-- A template without applications and variables. -/
def emptySpec : RtenvSpec := ⟨[], [], napp_le_nil, nenv_le_nil⟩

/-- The record the command line tool writes for the empty template. -/
def emptySpecRecord : Record rtenvFormat where
  attr := writeRecordAttr 1 baseName 0 emptySpec
    (writeRecordEntry (zeroArr 256) 0 1 baseName [] 0 emptySpec)
  headers := [applicationHeader 0]
  buf := some []
  nheader_eq := rfl
  ndim_le := by
    intro h hh
    rw [List.mem_singleton.mp hh]
    decide
  data_lt := by decide

/-- One creation by the command line tool, without parent and with an empty note: the row
says that there is no child, the record says that child 0 is the latest one. -/
theorem writeRecord_disagrees :
    ∃ ws, Run OpStep Workspace.empty
      [.writeRecord (zeroArr 256) 0 1 baseName [] 0 emptySpec] ws ∧ ¬RtenvAgrees ws := by
  set e := writeRecordEntry (zeroArr 256) 0 1 baseName [] 0 emptySpec with he
  set ws := (Workspace.empty.set (.entry .rtenv) (rtenvRow.table [e])).set (.rtenv 1)
    emptySpecRecord.bytes with hws
  have hempty : rtenvRow.Holds Workspace.empty [] := .inr ⟨rfl, rfl⟩
  have happend : tpbRafEntryAppendRtenv e Workspace.empty =
      .ok () (Workspace.empty.set (.entry .rtenv) (rtenvRow.table [e])) :=
    bind_then rfl (entryAppendRow_ok hempty e)
  have hstep : OpStep Workspace.empty
      (.writeRecord (zeroArr 256) 0 1 baseName [] 0 emptySpec) ws := bind_then happend rfl
  refine ⟨ws, Run.nil.snoc hstep, ?_⟩
  rintro ⟨entries, hlist, hagree⟩
  have htable : rtenvRow.Holds ws [e] := by
    refine .inl ?_
    rw [hws, Workspace.set_files_of_ne _ _ (by simp)]
    exact Workspace.set_files_same _ _ _
  rw [tpbRafEntryListRtenv, entryListRows_ok htable (by decide)] at hlist
  cases hlist
  obtain ⟨v, hread, hv⟩ := hagree e (List.mem_singleton.mpr rfl)
  have hfile : ws.files (.rtenv e.id) = some emptySpecRecord.bytes :=
    Workspace.set_files_same _ _ _
  rw [tpbRafRecordReadRtenv, recordRead_of_bytes hfile] at hread
  cases hread
  have hdiffer : e.deriveTo ≠ emptySpecRecord.attr.deriveTo := by decide
  exact hdiffer hv.deriveTo

end TPBench
