import Mathlib.Data.Finset.Lattice.Fold
import Mathlib.Data.Fintype.Basic
import TPBench.Conc.Progs
import TPBench.Conc.Spmd
import TPBench.Raf.Patch
import TPBench.Raf.TaskTaglink

/-!
# Writing the Records of an MPI Kernel

The MPI kernel runs on a number of ranks, and each of them writes a task record. Then rank 0
creates a capsule with its own task, every rank derives its record to the capsule, and rank 0
appends the tasks of the other ranks (`_sf_mpik_write_task`). The ranks meet in seven
collectives, and each of the calls in between can fail on some ranks and not on others.

This module has the code as a machine over the points between its calls (`mpikWriteTask`), and
the first part of its correctness: the ranks stay together. The points say which data a rank
has, and `Point.agreed` keeps the part of it that all ranks have in common: nothing before the
broadcast of the error of rank 0, then the errors that were reduced. The plan `mpikPlan` needs
no more than this, so that the rules of `TPBench.Conc.Spmd` apply (`mpikUniform`).

A call is taken as one step on the shared store. Any call can fail for a reason outside of the
model (`MpiWorld`), and a call to which the language gives no meaning counts as a failure. MPI
itself does not fail.
-/

open CFile Conc

namespace TPBench

namespace Mpi

/-- There is a rank 0. -/
scoped instance (priority := 1100) neZeroRanks (n : ℕ) : NeZero (n + 1) := ⟨Nat.succ_ne_zero n⟩

end Mpi

open scoped Mpi

/-! ### The collectives -/

/-- The collectives the kernel uses, on `MPI_COMM_WORLD` and with root 0. -/
inductive MpiKind
  | barrier
  | bcastId
  | bcastInt
  | allreduceMax
  | allreduceMin
  | gatherId
  deriving DecidableEq, Repr

/-- The type of a contribution. -/
def MpiKind.In : MpiKind → Type
  | barrier => Unit
  | bcastId => Id20
  | bcastInt => ℤ
  | allreduceMax => ℤ
  | allreduceMin => ℤ
  | gatherId => Id20

/-- The type of a reply. A gather returns its IDs at the root only. -/
def MpiKind.Out (n : ℕ) : MpiKind → Type
  | barrier => Unit
  | bcastId => Id20
  | bcastInt => ℤ
  | allreduceMax => ℤ
  | allreduceMin => ℤ
  | gatherId => Option (Fin (n + 1) → Id20)

/-- The type of the part of a reply that is the same on all ranks. -/
def MpiKind.View : MpiKind → Type
  | barrier => Unit
  | bcastId => Id20
  | bcastInt => ℤ
  | allreduceMax => ℤ
  | allreduceMin => ℤ
  | gatherId => Unit

/-- The part of a reply that is the same on all ranks. -/
def MpiKind.view {n : ℕ} : (k : MpiKind) → k.Out n → k.View
  | barrier, _ => ()
  | bcastId, v => v
  | bcastInt, v => v
  | allreduceMax, v => v
  | allreduceMin, v => v
  | gatherId, _ => ()

section Deliver

variable {n : ℕ} {V : Type}

/-- The contributions of all ranks, when they are there. -/
def allOf (e : Fin (n + 1) → Option V) : Option (Fin (n + 1) → V) :=
  if h : ∀ i, (e i).isSome then some fun i => (e i).get (h i) else none

theorem allOf_eq_some {e : Fin (n + 1) → Option V} {g : Fin (n + 1) → V} :
    allOf e = some g ↔ ∀ i, e i = some (g i) := by
  rw [allOf]
  split
  · rename_i h
    constructor
    · intro heq i
      cases heq
      simp
    · intro heq
      congr 1
      funext i
      simp [heq]
  · rename_i h
    constructor
    · intro heq
      cases heq
    · intro heq
      exact absurd (fun i => by simp [heq]) h

/-- `MPI_MAX`. -/
def maxOf (g : Fin (n + 1) → ℤ) : ℤ := Finset.univ.sup' ⟨0, Finset.mem_univ 0⟩ g

/-- `MPI_MIN`. -/
def minOf (g : Fin (n + 1) → ℤ) : ℤ := Finset.univ.inf' ⟨0, Finset.mem_univ 0⟩ g

/-- What a rank gets of a collective, as soon as the contributions it needs are there. -/
def MpiKind.deliver : (k : MpiKind) → Fin (n + 1) → (Fin (n + 1) → Option k.In) →
    Option (k.Out n)
  | barrier, _, e => (allOf e).map fun _ => ()
  | bcastId, _, e => e 0
  | bcastInt, _, e => e 0
  | allreduceMax, _, e => (allOf (V := ℤ) e).map maxOf
  | allreduceMin, _, e => (allOf (V := ℤ) e).map minOf
  | gatherId, i, e => if i = 0 then (allOf e).map some else some none

theorem allOf_mono {e e' : Fin (n + 1) → Option V} {g : Fin (n + 1) → V} (h : allOf e = some g)
    (hle : ∀ i v, e i = some v → e' i = some v) : allOf e' = some g := by
  rw [allOf_eq_some] at h ⊢
  exact fun i => hle i _ (h i)

theorem allOf_isSome {e : Fin (n + 1) → Option V} (h : ∀ i, (e i).isSome) :
    ∃ g, allOf e = some g :=
  ⟨fun i => (e i).get (h i), allOf_eq_some.mpr fun i => by simp⟩

end Deliver

/-- The communicator of the kernel. -/
def mpiWorldComm (n : ℕ) : Collectives (Fin (n + 1)) where
  Kind := MpiKind
  In := MpiKind.In
  Out := MpiKind.Out n
  View := MpiKind.View
  view := MpiKind.view
  deliver := MpiKind.deliver
  decEq := inferInstance
  stable := by
    intro k i e e' o h hle
    cases k with
    | barrier =>
        obtain ⟨g, hg, hgo⟩ := Option.map_eq_some_iff.mp h
        exact Option.map_eq_some_iff.mpr ⟨g, allOf_mono hg hle, hgo⟩
    | bcastId => exact hle 0 o h
    | bcastInt => exact hle 0 o h
    | allreduceMax | allreduceMin =>
        obtain ⟨g, hg, hgo⟩ := Option.map_eq_some_iff.mp h
        exact Option.map_eq_some_iff.mpr ⟨g, allOf_mono hg hle, hgo⟩
    | gatherId =>
        simp only [MpiKind.deliver] at h ⊢
        split at h
        · rename_i hroot
          obtain ⟨g, hg, hgo⟩ := Option.map_eq_some_iff.mp h
          rw [if_pos hroot]
          exact Option.map_eq_some_iff.mpr ⟨g, allOf_mono hg hle, hgo⟩
        · rename_i hroot
          rwa [if_neg hroot]
  agree := by
    intro k i j e o o' h h'
    cases k with
    | barrier => rfl
    | gatherId => rfl
    | bcastId => exact Option.some.inj (h.symm.trans h')
    | bcastInt => exact Option.some.inj (h.symm.trans h')
    | allreduceMax => exact Option.some.inj (h.symm.trans h')
    | allreduceMin => exact Option.some.inj (h.symm.trans h')
  total := by
    intro k e i h
    obtain ⟨g, hg⟩ := allOf_isSome h
    cases k with
    | bcastId => exact h 0
    | bcastInt => exact h 0
    | barrier => exact Option.isSome_map.trans (congrArg Option.isSome hg)
    | allreduceMax => exact Option.isSome_map.trans (congrArg Option.isSome hg)
    | allreduceMin => exact Option.isSome_map.trans (congrArg Option.isSome hg)
    | gatherId =>
        simp only [MpiKind.deliver]
        split
        · exact Option.isSome_map.trans (congrArg Option.isSome hg)
        · rfl

/-! ### The calls between the collectives -/

/-- `TPBE_MAKE`: what a call that failed returns. `TPBE_SUCCESS` is 0. -/
def Err.toInt : Err → ℤ
  | .code mod cause => 256 * mod.ctorIdx + (cause.ctorIdx + 1)
  | .undefined => 0xFFFF

theorem Err.toInt_pos (e : Err) : 0 < e.toInt := by
  cases e with
  | code mod cause =>
      rw [Err.toInt]
      omega
  | undefined => decide

/-- What a call returns. -/
def returned {α : Type} : EStateM.Result Err Workspace α → ℤ
  | .ok _ _ => 0
  | .error e _ => e.toInt

/-- A call that may fail for a reason outside of the model. -/
def faulty {α : Type} (fault : Option Err) (m : WsM α) : WsM α :=
  match fault with
  | some e => fun ws => .error e ws
  | none => m

/-- What `tpb_record_write_task` writes: the attributes, headers and payload of the record,
and the runtime environment it counts for. -/
structure TaskImage where
  attr : TaskAttr
  headers : List MetaHeader
  data : Option Bytes
  datasize : UInt64
  activeId : Int32

/-- The write of a task: what is to be written, or the error of what comes before, and the
calls that fail for a reason outside of the model. -/
structure TaskWrite where
  prepared : Except Err TaskImage
  recordFault : Option Err
  entryFault : Option Err
  countersFault : Option Err

/-- The row of a task, as `tpb_record_write_task` fills it. -/
def taskEntryOf (a : TaskAttr) : TaskEntry where
  taskRecordId := a.taskRecordId
  inheritFrom := zeroArr 20
  tbatchId := a.tbatchId
  kernelId := a.kernelId
  utcBits := a.utcBits
  duration := 0
  exitCode := a.exitCode
  handleIndex := a.handleIndex
  deriveTo := zeroArr 20
  reserve := zeroArr 108

/-- `tpb_k_write_task` into a zeroed ID: its error, and the ID. The ID is set as soon as the
record is written. -/
def tpbKWriteTask (t : TaskWrite) (ws : Workspace) : (ℤ × Id20) × Workspace :=
  match t.prepared with
  | .error e => (((e.propagated .rafMisc).toInt, zeroArr 20), ws)
  | .ok x =>
      match propagate .rafMisc (faulty t.recordFault
          (tpbRafRecordWriteTask x.attr x.headers x.data x.datasize)) ws with
      | .error e ws => ((e.toInt, zeroArr 20), ws)
      | .ok () ws =>
          let r := (do
            propagate .rafMisc (faulty t.entryFault
              (tpbRafEntryAppendTask (taskEntryOf x.attr)))
            propagate .rafMisc (faulty t.countersFault
              (tpbRafRecordPatchRtenvCounters x.activeId 1 0))) ws
          ((returned r, x.attr.taskRecordId), after r)

/-- What rank 0 needs to create the capsule: the generator of its ID from the record of the
first task, and the calls that fail for a reason outside of the model. -/
structure CapsuleWrite where
  genId : TaskAttr → Except Err Id20
  resolveFault : Option Err
  readFault : Option Err
  createFault : Option Err
  entryFault : Option Err
  shmFault : Option Err

/-- The attributes of the capsule `id` for the first task `src`. -/
def capsuleAttrOf (src : TaskAttr) (id : Id20) : TaskAttr :=
  { TaskAttr.zero with
    taskRecordId := id
    inheritFrom := List.Vector.replicate 20 0xFF
    tbatchId := src.tbatchId
    kernelId := src.kernelId
    utcBits := src.utcBits
    btime := src.btime
    handleIndex := src.handleIndex
    pid := src.pid
    tid := src.tid
    nheader := 1 }

/-- The row of the capsule. -/
def capsuleEntryOf (src : TaskAttr) (id : Id20) : TaskEntry :=
  { taskEntryOf (capsuleAttrOf src id) with inheritFrom := List.Vector.replicate 20 0xFF }

/-- What the creation of a capsule returns, and whether the record was written, which the code
does not return. -/
structure CapsuleCall where
  err : ℤ
  capsuleId : Id20
  stored : Bool

/-- `tpb_k_create_capsule_task` into a zeroed ID. The last call publishes the ID. -/
def tpbKCreateCapsuleTask (c : CapsuleWrite) (first : Id20) (ws : Workspace) :
    CapsuleCall × Workspace :=
  match (do
      propagate .rafMisc (faulty c.resolveFault (pure ()))
      propagate .rafMisc (faulty c.readFault (tpbRafRecordReadTask first false))) ws with
  | .error e ws => (⟨e.toInt, zeroArr 20, false⟩, ws)
  | .ok src ws =>
      match c.genId src.attr with
      | .error e => (⟨(e.propagated .rafMisc).toInt, zeroArr 20, false⟩, ws)
      | .ok id =>
          match propagate .rafMisc (faulty c.createFault
              (tpbRafRecordCreateTaskCapsule (capsuleAttrOf src.attr id) [capsuleHeader]
                first)) ws with
          | .error e ws => (⟨e.toInt, id, false⟩, ws)
          | .ok () ws =>
              let r := (do
                propagate .rafMisc (faulty c.entryFault
                  (tpbRafEntryAppendTask (capsuleEntryOf src.attr id)))
                faulty c.shmFault (pure ())) ws
              (⟨returned r, id, true⟩, after r)

/-! ### The machine -/

/-- What a run of the kernel depends on: the writes of the ranks, the creation of the capsule,
the calls that fail for a reason outside of the model, and whether rank 0 gets its memory. The
number of ranks is an `int`. -/
structure MpiWorld (n : ℕ) where
  write : Fin (n + 1) → TaskWrite
  capsule : CapsuleWrite
  deriveFault : Fin (n + 1) → Option Err
  allocOk : Bool
  appendFault : Fin (n + 1) → Option Err
  nprocs_le : n + 1 ≤ intMax

/-- What `_sf_mpik_write_task` returns, its two out-parameters included, and whether this rank
stored the record of a capsule, which the code does not return. -/
structure MpikResult where
  err : ℤ
  taskId : Id20
  tcapId : Id20
  stored : Bool

/-- The points of `_sf_mpik_write_task` between its calls, with the variables that are still
used. `append` is in the loop of rank 0, with the next rank and those behind it. -/
inductive MpikPoint (n : ℕ)
  | write
  | barrier (werr : ℤ) (id : Id20)
  | create (id : Id20)
  | bcastCapsule (c : CapsuleCall) (id : Id20)
  | bcastErr (c : CapsuleCall) (id : Id20)
  | derive (id cap : Id20)
  | reduceDerive (deriveErr : ℤ) (id cap : Id20)
  | reduceAlloc (maxDeriveErr : ℤ) (id cap : Id20)
  | gather (maxDeriveErr : ℤ) (id cap : Id20)
  | append (maxDeriveErr : ℤ) (id cap : Id20) (all : Fin (n + 1) → Id20) (ar : Fin (n + 1))
      (rest : List (Fin (n + 1)))
  | bcastAppend (appendAgg maxDeriveErr : ℤ) (id cap : Id20)
  | done (r : MpikResult)

/-- `TPBE_MALLOC_FAIL`, bare. -/
def mallocFail : ℤ := (Err.code .none .mallocFail).toInt

/-- The loop of rank 0, with the ranks that are left. -/
def appendLoop {n : ℕ} (maxErr : ℤ) (id cap : Id20) (all : Fin (n + 1) → Id20) :
    List (Fin (n + 1)) → MpikPoint n
  | [] => .bcastAppend 0 maxErr id cap
  | ar :: rest => .append maxErr id cap all ar rest

/-- `rank0_alloc_ok`, which is 1 on the other ranks. -/
def rank0AllocOk {n : ℕ} (W : MpiWorld n) (i : Fin (n + 1)) : ℤ :=
  if i = 0 ∧ W.allocOk = false then 0 else 1

/-- `_sf_mpik_write_task` on rank `i`, at a point. The handle is not null, and the out-parameters
are part of the result. -/
def mpikWriteTask {n : ℕ} (W : MpiWorld n) (i : Fin (n + 1)) :
    MpikPoint n → Cmd (mpiWorldComm n) Workspace (MpikPoint n) MpikResult
  | .write => .act fun ws =>
      let r := tpbKWriteTask (W.write i) ws
      (.barrier r.1.1 r.1.2, r.2)
  | .barrier werr id => .coll MpiKind.barrier () fun _ =>
      if i = 0 then
        if werr = 0 then .create id else .bcastCapsule ⟨werr, zeroArr 20, false⟩ id
      else .bcastCapsule ⟨0, zeroArr 20, false⟩ id
  | .create id => .act fun ws =>
      let r := tpbKCreateCapsuleTask W.capsule id ws
      (.bcastCapsule r.1 id, r.2)
  | .bcastCapsule c id => .coll MpiKind.bcastId c.capsuleId fun cap =>
      .bcastErr { c with capsuleId := cap } id
  | .bcastErr c id => .coll MpiKind.bcastInt c.err fun (capErr : ℤ) =>
      if capErr = 0 then .derive id c.capsuleId
      else .done ⟨capErr, id, c.capsuleId, c.stored⟩
  | .derive id cap => .act fun ws =>
      let r := faulty (W.deriveFault i) (tpbKTaskSetDeriveTo id cap) ws
      (.reduceDerive (returned r) id cap, after r)
  | .reduceDerive deriveErr id cap => .coll MpiKind.allreduceMax deriveErr fun (maxErr : ℤ) =>
      if 2 ≤ n + 1 then .reduceAlloc maxErr id cap
      else .done ⟨maxErr, id, cap, i = 0⟩
  | .reduceAlloc maxErr id cap =>
      .coll MpiKind.allreduceMin (rank0AllocOk W i) fun (ok : ℤ) =>
        if ok = 0 then .done ⟨mallocFail, id, cap, i = 0⟩ else .gather maxErr id cap
  | .gather maxErr id cap => .coll MpiKind.gatherId id fun all =>
      match all with
      | some all => appendLoop maxErr id cap all (List.finRange (n + 1)).tail
      | none => .bcastAppend 0 maxErr id cap
  | .append maxErr id cap all ar rest => .act fun ws =>
      let r := faulty (W.appendFault ar) (tpbRafRecordAppendTaskCapsule cap (all ar)) ws
      if returned r = 0 then (appendLoop maxErr id cap all rest, after r)
      else (.bcastAppend (returned r) maxErr id cap, after r)
  | .bcastAppend appendAgg maxErr id cap => .coll MpiKind.bcastInt appendAgg fun (agg : ℤ) =>
      .done ⟨if agg ≠ 0 then agg else maxErr, id, cap, i = 0⟩
  | .done r => .ret r

/-! ### The ranks stay together -/

/-- What all ranks have in common at a point: the next collective, and the error that was
reduced, as far as the code still looks at it. -/
inductive Agreed
  | barrier
  | capsule
  | capErr
  | derive
  | alloc (maxDeriveErr : ℤ)
  | gather (maxDeriveErr : ℤ)
  | append (maxDeriveErr : ℤ)
  | done (err : ℤ)

/-- The part of a point that all ranks have in common. -/
def MpikPoint.agreed {n : ℕ} : MpikPoint n → Agreed
  | .write => .barrier
  | .barrier _ _ => .barrier
  | .create _ => .capsule
  | .bcastCapsule _ _ => .capsule
  | .bcastErr _ _ => .capErr
  | .derive _ _ => .derive
  | .reduceDerive _ _ _ => .derive
  | .reduceAlloc maxErr _ _ => .alloc maxErr
  | .gather maxErr _ _ => .gather maxErr
  | .append maxErr _ _ _ _ _ => .append maxErr
  | .bcastAppend _ maxErr _ _ => .append maxErr
  | .done r => .done r.err

/-- The collectives in their order, and what the common data decides. -/
def mpikPlan (n : ℕ) : Agreed → Plan (mpiWorldComm n) Agreed ℤ
  | .barrier => .coll MpiKind.barrier fun _ => .capsule
  | .capsule => .coll MpiKind.bcastId fun _ => .capErr
  | .capErr => .coll MpiKind.bcastInt fun (e : ℤ) => if e = 0 then .derive else .done e
  | .derive => .coll MpiKind.allreduceMax fun (m : ℤ) =>
      if 2 ≤ n + 1 then .alloc m else .done m
  | .alloc m => .coll MpiKind.allreduceMin fun (ok : ℤ) =>
      if ok = 0 then .done mallocFail else .gather m
  | .gather m => .coll MpiKind.gatherId fun _ => .append m
  | .append m => .coll MpiKind.bcastInt fun (a : ℤ) => .done (if a ≠ 0 then a else m)
  | .done e => .ret e

@[simp] theorem agreed_appendLoop {n : ℕ} (maxErr : ℤ) (id cap : Id20)
    (all : Fin (n + 1) → Id20) (rest : List (Fin (n + 1))) :
    (appendLoop maxErr id cap all rest).agreed = .append maxErr := by
  cases rest <;> rfl

/-- The code follows the plan. -/
theorem mpikUniform {n : ℕ} (W : MpiWorld n) :
    Uniform (mpikWriteTask W) (mpikPlan n) MpikPoint.agreed MpikResult.err where
  ret {i p a} h := by
    cases p <;> cases h
    rfl
  act {i p m} h s := by
    cases p <;> cases h
    case write => rfl
    case create => rfl
    case derive => rfl
    case append maxErr id cap all ar rest =>
      simp only
      split
      · exact agreed_appendLoop maxErr id cap all rest
      · rfl
  coll {i p k v g} h := by
    cases p <;> cases h
    case barrier werr id =>
      refine ⟨_, rfl, fun _ => ?_⟩
      simp only
      split
      · split
        · rfl
        · rfl
      · rfl
    case bcastCapsule c id => exact ⟨_, rfl, fun _ => rfl⟩
    case bcastErr c id =>
      refine ⟨_, rfl, fun (capErr : ℤ) => ?_⟩
      change MpikPoint.agreed (if capErr = 0 then _ else _) = if capErr = 0 then _ else _
      split
      · rfl
      · rfl
    case reduceDerive deriveErr id cap =>
      refine ⟨_, rfl, fun (maxErr : ℤ) => ?_⟩
      change MpikPoint.agreed (if 2 ≤ n + 1 then _ else _) = if 2 ≤ n + 1 then _ else _
      split
      · rfl
      · rfl
    case reduceAlloc maxErr id cap =>
      refine ⟨_, rfl, fun (ok : ℤ) => ?_⟩
      change MpikPoint.agreed (if ok = 0 then _ else _) = if ok = 0 then _ else _
      split
      · rfl
      · rfl
    case gather maxErr id cap =>
      refine ⟨_, rfl, fun all => ?_⟩
      cases all with
      | none => rfl
      | some all => exact agreed_appendLoop maxErr id cap all _
    case bcastAppend appendAgg maxErr id cap => exact ⟨_, rfl, fun _ => rfl⟩

/-- The number of calls behind a point. -/
def MpikPoint.size {n : ℕ} : MpikPoint n → ℕ
  | .write => n + 10
  | .barrier _ _ => n + 9
  | .create _ => n + 8
  | .bcastCapsule _ _ => n + 7
  | .bcastErr _ _ => n + 6
  | .derive _ _ => n + 5
  | .reduceDerive _ _ _ => n + 4
  | .reduceAlloc _ _ _ => n + 3
  | .gather _ _ _ => n + 2
  | .append _ _ _ _ _ rest => rest.length + 2
  | .bcastAppend _ _ _ _ => 1
  | .done _ => 0

theorem size_appendLoop {n : ℕ} (maxErr : ℤ) (id cap : Id20) (all : Fin (n + 1) → Id20)
    (rest : List (Fin (n + 1))) :
    (appendLoop maxErr id cap all rest).size = rest.length + 1 := by
  cases rest <;> rfl

theorem size_act {n : ℕ} {W : MpiWorld n} {i : Fin (n + 1)} {p : MpikPoint n}
    {m : Workspace → MpikPoint n × Workspace} (h : mpikWriteTask W i p = .act m)
    (ws : Workspace) : (m ws).1.size < p.size := by
  cases p <;> cases h
  case write => exact Nat.lt_succ_self _
  case create => exact Nat.lt_succ_self _
  case derive => exact Nat.lt_succ_self _
  case append maxErr id cap all ar rest =>
    simp only
    split
    · rw [size_appendLoop]
      exact Nat.lt_succ_self _
    · exact Nat.lt_of_lt_of_le Nat.one_lt_two (Nat.le_add_left 2 _)

theorem size_coll {n : ℕ} {W : MpiWorld n} {i : Fin (n + 1)} {p : MpikPoint n}
    {k : MpiKind} {v : k.In} {g : k.Out n → MpikPoint n}
    (h : mpikWriteTask W i p = .coll (C := mpiWorldComm n) k v g) (o : k.Out n) :
    (g o).size < p.size := by
  cases p <;> cases h
  case barrier werr id =>
    simp only
    split
    · split
      · exact Nat.lt_succ_self _
      · simp [MpikPoint.size]
    · simp [MpikPoint.size]
  case bcastCapsule c id => exact Nat.lt_succ_self _
  case bcastErr c id =>
    simp only
    split
    · exact Nat.lt_succ_self _
    · simp [MpikPoint.size]
  case reduceDerive deriveErr id cap =>
    simp only
    split
    · exact Nat.lt_succ_self _
    · simp [MpikPoint.size]
  case reduceAlloc maxErr id cap =>
    simp only
    split
    · simp [MpikPoint.size]
    · exact Nat.lt_succ_self _
  case gather maxErr id cap =>
    cases o with
    | none => simp [MpikPoint.size]
    | some all =>
        rw [size_appendLoop]
        simp [MpikPoint.size]
  case bcastAppend appendAgg maxErr id cap => exact Nat.lt_succ_self _

end TPBench
