import TPBench.Raf.Frames
import TPBench.Rtenv.Create

/-!
# Runtime Environment Functions as Programs of Atomic Actions

The functions that create, count on and register runtime environments take locks for parts
of their work only. Here each of them is a program whose actions are the parts that are
atomic: a listing of the table, a locked append or patch, the reading of a record, the
writing of a record. A theorem for each says that the program, run alone, is the sequential
function (`exec_sfCommitNewP` and its siblings), so what is proved about interleavings of
the programs is about the same code.
-/

open CFile Conc

namespace TPBench

/-- The atomic actions. An append carries the number of rows that the listing of its ID
allocation returned, a writing the record that the call had read. -/
inductive RtenvAct
  | list
  | append (count : ℕ)
  | counters (addNtask addNtbatch : UInt32)
  | rewrite (v : RecordView RtenvAttr)
  | other

/-- Programs of these actions. -/
abbrev RtenvP := Prog RtenvAct Workspace Err

/-! ### Errors -/

/-- `TPB_PROPAGATE` on a program. -/
def propagateP {α : Type} (mod : Module) (p : RtenvP α) : RtenvP α :=
  p.handle fun r => .ret (r.mapError (Err.propagated mod))

/-- A program whose error the caller drops. -/
def ignoringP (p : RtenvP Unit) : RtenvP Unit :=
  p.handle fun r => match r with
    | .error .undefined => .ret (.error .undefined)
    | _ => .ret (.ok ())

theorem exec_propagateP {α : Type} (mod : Module) (p : RtenvP α) :
    (propagateP mod p).exec = propagate mod p.exec := by
  funext ws
  rw [propagateP, Prog.exec_handle, propagate]
  rcases p.exec ws with ⟨a, ws'⟩ | ⟨⟨m, c⟩ | -, ws'⟩
  · rfl
  · cases c <;> rfl
  · rfl

theorem exec_ignoringP (p : RtenvP Unit) : (ignoringP p).exec = ignoring p.exec := by
  funext ws
  rw [ignoringP, Prog.exec_handle, ignoring]
  rcases p.exec ws with ⟨a, ws'⟩ | ⟨⟨m, c⟩ | -, ws'⟩
  · rfl
  · rfl
  · rfl

/-! ### The table -/

/-- `_sf_name_exists` and `_sf_rtenv_id_exists`. -/
def rowExistsP (p : RtenvEntry → Bool) : RtenvP Bool :=
  (Prog.call .list tpbRafEntryListRtenv).handle fun r => match r with
    | .ok entries => .ret (.ok (entries.any p))
    | .error (.code _ _) => .ret (.ok false)
    | .error .undefined => .ret (.error .undefined)

/-- `tpb_raf_rtenv_alloc_next_id`, with the number of rows it listed. -/
def tpbRafRtenvAllocNextIdP : RtenvP (Int32 × ℕ) := do
  let entries ← Prog.call .list (propagate .rafL2Rtenv tpbRafEntryListRtenv)
  if maxId entries = Int32.maxValue then Prog.fail .undefined
  else return (maxId entries + 1, entries.length)

/-- `tpb_raf_entry_append_rtenv`. -/
def tpbRafEntryAppendRtenvP (count : ℕ) (entry : RtenvEntry) : RtenvP Unit := do
  let found ← rowExistsP fun e => cstr e.name.toList == cstr entry.name.toList
  if found = true then Prog.fail (.code .rafL2Rtenv .listDup)
  else Prog.call (.append count) (entryAppendRow rtenvRow entry)

theorem exec_rowExistsP (p : RtenvEntry → Bool) : (rowExistsP p).exec = rowExists p := by
  funext ws
  rw [rowExistsP, Prog.exec_handle, Prog.exec_call, rowExists]
  rcases tpbRafEntryListRtenv ws with ⟨es, ws'⟩ | ⟨⟨m, c⟩ | -, ws'⟩
  · rfl
  · rfl
  · rfl

theorem exec_tpbRafRtenvAllocNextIdP :
    tpbRafRtenvAllocNextId = (do let r ← tpbRafRtenvAllocNextIdP.exec; return r.1) := by
  rw [tpbRafRtenvAllocNextIdP, Prog.exec_bind, Prog.exec_call, bind_assoc]
  refine bind_congr fun entries => ?_
  rw [Prog.exec_ite]
  split
  · rfl
  · rfl

/-- Propagation commutes with post-processing the result. -/
theorem propagate_map {α β : Type} (mod : Module) (m : WsM α) (g : α → β) :
    propagate mod (do let a ← m; return g a) = (do let a ← propagate mod m; return g a) := by
  funext ws
  change propagate mod (EStateM.bind m fun a => EStateM.pure (g a)) ws =
    EStateM.bind (propagate mod m) (fun a => EStateM.pure (g a)) ws
  simp only [propagate, EStateM.bind, EStateM.pure]
  rcases m ws with ⟨a, ws'⟩ | ⟨⟨mod', c⟩ | -, ws'⟩
  · rfl
  · cases c <;> rfl
  · rfl

/-- A caller that uses the allocated ID only. -/
theorem exec_alloc_bind {β : Type} (mod : Module) (f : Int32 → WsM β) :
    (do let id ← propagate mod tpbRafRtenvAllocNextId; f id) =
      (do let r ← propagate mod tpbRafRtenvAllocNextIdP.exec; f r.1) := by
  rw [exec_tpbRafRtenvAllocNextIdP, propagate_map, bind_assoc]
  refine bind_congr fun r => ?_
  rw [pure_bind]

theorem exec_tpbRafEntryAppendRtenvP (count : ℕ) (entry : RtenvEntry) :
    (tpbRafEntryAppendRtenvP count entry).exec = tpbRafEntryAppendRtenv entry := by
  rw [tpbRafEntryAppendRtenvP, Prog.exec_bind, exec_rowExistsP, tpbRafEntryAppendRtenv]
  refine bind_congr fun found => ?_
  rw [Prog.exec_ite, Prog.exec_call]
  rfl

/-! ### Counters and children -/

/-- `tpb_raf_record_patch_rtenv_counters`. -/
def tpbRafRecordPatchRtenvCountersP (id : Int32) (addNtask addNtbatch : UInt32) :
    RtenvP Unit :=
  if addNtask = 0 ∧ addNtbatch = 0 then return () else do
    Prog.call (.counters addNtask addNtbatch)
      (fopenUpdate .rafL3Rtenv (.rtenv id) (patchTpbrCounters addNtask addNtbatch))
    Prog.call .other
      (orFail .rafL3Rtenv .fileIoFail (sfPatchTpbeCounters id addNtask addNtbatch))

/-- The writing of the record, if there is anything to write. -/
def deriveWriteP (v : RecordView RtenvAttr) : DeriveUpdate → RtenvP Unit
  | .undefined => Prog.fail .undefined
  | .patchOnly => return ()
  | .rewrite attr headers data =>
      Prog.call (.rewrite v) (deriveWrite (.rewrite attr headers data))

/-- `tpb_raf_record_append_rtenv_derive`. -/
def tpbRafRecordAppendRtenvDeriveP (parentId childId : Int32) : RtenvP Unit := do
  let v ← Prog.call .other (propagate .rafL3Rtenv (tpbRafRecordReadRtenv parentId))
  deriveWriteP v (deriveUpdate v childId)
  Prog.call .other (propagate .rafL3Rtenv (sfPatchTpbeDeriveTo parentId childId))
  Prog.call .other (propagate .rafL3Rtenv (sfPatchTpbrDeriveTo parentId childId))

theorem exec_tpbRafRecordPatchRtenvCountersP (id : Int32) (m n : UInt32) :
    (tpbRafRecordPatchRtenvCountersP id m n).exec =
      tpbRafRecordPatchRtenvCounters id m n := by
  rw [tpbRafRecordPatchRtenvCountersP, Prog.exec_ite, Prog.exec_bind, Prog.exec_call,
    Prog.exec_call]
  rfl

theorem exec_deriveWriteP (v : RecordView RtenvAttr) (u : DeriveUpdate) :
    (deriveWriteP v u).exec = deriveWrite u := by
  cases u with
  | undefined => rfl
  | patchOnly => rfl
  | rewrite attr headers data => exact Prog.exec_call _ _

theorem exec_tpbRafRecordAppendRtenvDeriveP (parentId childId : Int32) :
    (tpbRafRecordAppendRtenvDeriveP parentId childId).exec =
      tpbRafRecordAppendRtenvDerive parentId childId := by
  simp only [tpbRafRecordAppendRtenvDeriveP, Prog.exec_bind, Prog.exec_call,
    exec_deriveWriteP]
  rfl

/-! ### Creating environments -/

section Create

variable (hostname : CArr 256) (utcBits : UInt64) (name note : Bytes) (inheritFrom : Int32)
  (spec : RtenvSpec)

/-- `tpbcli_rtenv_write_record`, under an ID whose allocation listed `count` rows. -/
def tpbcliRtenvWriteRecordP (count : ℕ) (id : Int32) : RtenvP Unit := do
  let ent := writeRecordEntry hostname utcBits id name note inheritFrom spec
  tpbRafEntryAppendRtenvP count ent
  let vars := spec.vars.map RtenvVar.envVar
  let payload := spec.apps.flatMap RtenvApp.payload ++ vars.flatMap varPayload
  if 65536 < payload.length then Prog.fail .undefined else
  Prog.call .other (tpbRafRecordWriteRtenv (writeRecordAttr id name inheritFrom spec ent)
    (applicationHeader spec.apps.length :: varsHeaders vars) (some payload)
    (UInt64.ofNat payload.length))
  if 0 < inheritFrom then ignoringP (tpbRafRecordAppendRtenvDeriveP inheritFrom id)
  else return ()

/-- `_sf_commit_new`. -/
def sfCommitNewP : RtenvP Unit :=
  if cstr name = [] then Prog.fail (.code .cliRtenv .cliFail) else do
    let r ← propagateP .cliRtenv tpbRafRtenvAllocNextIdP
    propagateP .cliRtenv
      (tpbcliRtenvWriteRecordP hostname utcBits name note inheritFrom spec r.2 r.1)

theorem exec_tpbcliRtenvWriteRecordP (count : ℕ) (id : Int32) :
    (tpbcliRtenvWriteRecordP hostname utcBits name note inheritFrom spec count id).exec =
      tpbcliRtenvWriteRecord hostname utcBits id name note inheritFrom spec := by
  rw [tpbcliRtenvWriteRecordP, Prog.exec_bind, exec_tpbRafEntryAppendRtenvP,
    tpbcliRtenvWriteRecord]
  refine bind_congr fun _ => ?_
  rw [Prog.exec_ite, Prog.exec_bind, Prog.exec_call]
  simp only [Prog.exec_ite, exec_ignoringP, exec_tpbRafRecordAppendRtenvDeriveP]
  rfl

theorem exec_sfCommitNewP :
    (sfCommitNewP hostname utcBits name note inheritFrom spec).exec =
      sfCommitNew hostname utcBits name note inheritFrom spec := by
  rw [sfCommitNewP, Prog.exec_ite, Prog.exec_bind, sfCommitNew, exec_alloc_bind]
  simp only [exec_propagateP, exec_tpbcliRtenvWriteRecordP]
  rfl

end Create

/-- `_sf_write_env_snapshot_record`, under an ID whose allocation listed `count` rows. -/
def sfWriteEnvSnapshotRecordP (sys : SysEnv) (count : ℕ) (id : Int32) (name : Bytes) :
    RtenvP Unit := do
  let vars := sys.environ.filterMap splitVar
  propagateP .misc (tpbRafEntryAppendRtenvP count (snapshotEntry sys id name vars.length))
  if intMax < 1 + vars.length * 4 then Prog.fail .undefined else
  let payload := vars.flatMap varPayload
  if 2 ^ 63 ≤ payload.length then Prog.fail (.code .misc .mallocFail) else
  Prog.call .other
    (propagate .misc (tpbRafRecordWriteRtenv (snapshotAttr sys id name vars.length)
      (applicationHeader 0 :: varsHeaders vars)
      (if payload = [] then none else some payload) (UInt64.ofNat payload.length)))

/-- The loop of `_sf_pick_build_env_name`. -/
def pickNameP : ℕ → ℕ → RtenvP Bytes
  | 0, _ => Prog.fail (.code .misc .cliFail)
  | k + 1, n => do
      let candidate := baseName ++ ascii ['_'] ++ formatD n
      let found ← rowExistsP fun e => cstr e.name.toList == candidate
      if found = true then pickNameP k (n + 1) else return candidate

/-- `_sf_pick_build_env_name`. -/
def sfPickBuildEnvNameP : RtenvP Bytes := do
  let found ← rowExistsP fun e => cstr e.name.toList == baseName
  if found = true then pickNameP 99999 1 else return baseName

/-- `tpb_rtenv_snapshot_build_env`. -/
def tpbRtenvSnapshotBuildEnvP (sys : SysEnv) (alwaysNew : Bool) : RtenvP Int32 := do
  let entries ← Prog.call .list (propagate .misc tpbRafEntryListRtenv)
  if alwaysNew = false ∧ 0 < entries.length then
    let baseId ← Prog.call .other (propagate .misc tpbRafConfigGetBaseId)
    let found ← rowExistsP fun e => e.id == baseId
    if found = true then return baseId else Prog.fail (.code .misc .listNotFound)
  else
    let name ← propagateP .misc sfPickBuildEnvNameP
    let r ← propagateP .misc tpbRafRtenvAllocNextIdP
    propagateP .misc (sfWriteEnvSnapshotRecordP sys r.2 r.1 name)
    Prog.call .other (propagate .misc (tpbRafConfigSetBaseId r.1))
    return r.1

theorem exec_sfWriteEnvSnapshotRecordP (sys : SysEnv) (count : ℕ) (id : Int32)
    (name : Bytes) : (sfWriteEnvSnapshotRecordP sys count id name).exec =
      sfWriteEnvSnapshotRecord sys id name := by
  rw [sfWriteEnvSnapshotRecordP, Prog.exec_bind, exec_propagateP,
    exec_tpbRafEntryAppendRtenvP, sfWriteEnvSnapshotRecord]
  refine bind_congr fun _ => ?_
  simp only [Prog.exec_ite, Prog.exec_call]
  rfl

theorem exec_pickNameP (k n : ℕ) : (pickNameP k n).exec = pickName k n := by
  induction k generalizing n with
  | zero => rfl
  | succ k ih =>
      rw [pickNameP, Prog.exec_bind, exec_rowExistsP, pickName]
      refine bind_congr fun found => ?_
      rw [Prog.exec_ite, ih]
      rfl

theorem exec_sfPickBuildEnvNameP : sfPickBuildEnvNameP.exec = sfPickBuildEnvName := by
  rw [sfPickBuildEnvNameP, Prog.exec_bind, exec_rowExistsP, sfPickBuildEnvName]
  refine bind_congr fun found => ?_
  rw [Prog.exec_ite, exec_pickNameP]
  rfl

theorem exec_tpbRtenvSnapshotBuildEnvP (sys : SysEnv) (alwaysNew : Bool) :
    (tpbRtenvSnapshotBuildEnvP sys alwaysNew).exec =
      tpbRtenvSnapshotBuildEnv sys alwaysNew := by
  rw [tpbRtenvSnapshotBuildEnvP, Prog.exec_bind, Prog.exec_call, tpbRtenvSnapshotBuildEnv]
  refine bind_congr fun entries => ?_
  simp only [Prog.exec_ite, Prog.exec_bind, Prog.exec_call, exec_rowExistsP, exec_propagateP,
    exec_sfPickBuildEnvNameP, exec_sfWriteEnvSnapshotRecordP, exec_alloc_bind]
  rfl

end TPBench
