import TPBench.Autorecord
import TPBench.Raf.Patch
import TPBench.Raf.Spans
import TPBench.Raf.TaskTaglink
import TPBench.Uniq

/-!
# Logical Tasks

`task get-result` works on logical tasks. A selected record is followed along `derive_to` to
its root (`tpbcliTaskFollowDerive`), and the root is turned into a logical task: alone when
it is a plain record, with all its members when it is a capsule. Roots that were met before
are passed over (`tpbcliTaskBuildLogicalTasks`).

The walk is a loop over a graph that may have any shape. It keeps the IDs it has met, at
most nine, and stops at a repeated ID or after eight hops; `followDerive_eq_ok` says that it
succeeds exactly on a chain of at most eight hops to a root. What is built from a root does
not look at the selection (`logicalOf`), and the selections that lead to the same root
make one task, at the place of the first of them (`buildLogicalTasks_eq_ok`).

A capsule with 2³¹ members or more is refused, and an empty selection is an error. Reading a
record whose header claims more than seven dimensions is undefined, so the members of the
capsules are assumed to have none.
-/

open CFile

namespace TPBench

/-! ### Capsules -/

/-- The payload pointer of a record: it is null when there is no payload. -/
def RecordView.dataPtr {α : Type} (v : RecordView α) : Option Bytes :=
  if v.datasize = 0 then none else some v.data

/-- `_sf_is_all_ff`. -/
def sfIsAllFf (id : Id20) : Bool := id.toList.all (· = 0xFF)

/-- `tpbcli_task_confirm_capsule`. -/
def tpbcliTaskConfirmCapsule (v : RecordView TaskAttr) : Bool :=
  if !sfIsAllFf v.attr.inheritFrom || !sfIsZeroId20 v.attr.deriveTo then false
  else if v.attr.ninput ≠ 0 ∨ v.attr.noutput ≠ 0 ∨ v.attr.nheader ≠ 1 then false
  else match v.headers with
    | [] => false
    | h :: _ =>
        if cstr h.name.toList ≠ taskIdName ∨ cstr h.tag.toList ≠ tagLink then false
        else if v.datasize % 20 ≠ 0 then false
        else if h.dim0 ≠ v.datasize / 20 then false
        else match tpbRafHeaderDataPtr v.headers v.dataPtr v.datasize 0 with
          | .error _ => false
          | .ok (ptr, nbytes) => ptr.isSome && nbytes = v.datasize

/-- `tpbcli_task_read_capsule_members`. The number of members is an `int`. -/
def tpbcliTaskReadCapsuleMembers (v : RecordView TaskAttr) : Except Err (List Id20) :=
  if !tpbcliTaskConfirmCapsule v then .error (.code .cliMisc .cliFail)
  else match tpbRafHeaderDataPtr v.headers v.dataPtr v.datasize 0 with
    | .error e => .error (e.propagated .cliMisc)
    | .ok (ptr, nbytes) =>
        let n : Int32 := (nbytes / 20).toUInt32.toInt32
        if n < 0 ∨ n.toInt.toNat * 20 ≠ nbytes.toNat then .error (.code .cliMisc .cliFail)
        else .ok ((List.range n.toInt.toNat).map fun i =>
          toArr 20 (pread (ptr.getD []) (20 * i) 20))

/-! ### Following `derive_to` -/

/-- `TPBCLI_TASK_DERIVE_MAX_HOPS`. -/
def tpbcliTaskDeriveMaxHops : ℕ := 8

/-- The loop of `tpbcli_task_follow_derive` with `k` hops left: `chain` holds the IDs before
the current one. -/
def followHops : ℕ → List Id20 → Id20 → WsM Id20
  | k, chain, cur => do
      let v ← propagate .cliMisc (tpbRafRecordReadTask cur true)
      if sfIsZeroId20 v.attr.deriveTo then return cur
      else match k with
        | 0 => tpbFail .cliMisc .cliFail
        | k + 1 =>
            if v.attr.deriveTo ∈ chain ++ [cur] then tpbFail .cliMisc .cliFail
            else followHops k (chain ++ [cur]) v.attr.deriveTo

/-- `tpbcli_task_follow_derive`. -/
def tpbcliTaskFollowDerive (start : Id20) : WsM Id20 :=
  followHops tpbcliTaskDeriveMaxHops [] start

/-! ### Logical tasks -/

/-- A user selection, `tpbcli_task_init_sel_t`. -/
structure InitSel where
  id : Id20
  ref : Bytes
  order : ℤ

/-- A member of a logical task, `tpbcli_task_member_rec_t`; `record` is absent when the
record could not be read. -/
structure MemberRec where
  id : Id20
  subrank : ℕ
  record : Option (RecordView TaskAttr)

/-- A logical task, `tpbcli_task_logical_t`. -/
structure Logical where
  rootId : Id20
  ref : CArr 16
  isCapsule : Bool
  members : List MemberRec
  inputOrder : ℤ
  rootUtcBits : UInt64
  rootBtime : UInt64

/-- A read whose failure the caller notes. -/
def attemptRead (id : Id20) : WsM (Option (RecordView TaskAttr)) := fun ws =>
  match tpbRafRecordReadTask id true ws with
  | .ok v ws' => .ok (some v) ws'
  | .error (.code _ _) ws' => .ok none ws'
  | .error .undefined ws' => .error .undefined ws'

/-- `_sf_load_member`. -/
def sfLoadMember (id : Id20) (subrank : ℕ) : WsM MemberRec := do
  return ⟨id, subrank, ← attemptRead id⟩

/-- The loop over the members of a capsule, from subrank `i` on. -/
def loadMembers : ℕ → List Id20 → WsM (List MemberRec)
  | _, [] => return []
  | i, id :: ids => do
      let m ← sfLoadMember id i
      let ms ← loadMembers (i + 1) ids
      return m :: ms

/-- The result of a function that does not touch the workspace. -/
def liftExcept {α : Type} : Except Err α → WsM α
  | .ok a => pure a
  | .error e => fun ws => .error e ws

/-- `_sf_logical_from_root`. -/
def sfLogicalFromRoot (root : Id20) (ref : Bytes) (order : ℤ) : WsM Logical := do
  let v ← propagate .cliMisc (tpbRafRecordReadTask root true)
  if tpbcliTaskConfirmCapsule v then
    let ids ← propagate .cliMisc (liftExcept (tpbcliTaskReadCapsuleMembers v))
    let members ← loadMembers 0 ids
    return ⟨root, snprintfS 16 ref, true, members, order, v.attr.utcBits, v.attr.btime⟩
  else
    return ⟨root, snprintfS 16 ref, false, [⟨root, 0, some v⟩], order, v.attr.utcBits,
      v.attr.btime⟩

/-- The loop of `tpbcli_task_build_logical_tasks`; `tasks` is the array built so far. -/
def buildTasks : List InitSel → List Logical → WsM (List Logical)
  | [], tasks => return tasks
  | sel :: sels, tasks => do
      let root ← propagate .cliMisc (tpbcliTaskFollowDerive sel.id)
      if tasks.any (·.rootId = root) then buildTasks sels tasks
      else do
        let t ← propagate .cliMisc (sfLogicalFromRoot root sel.ref sel.order)
        buildTasks sels (tasks ++ [t])

/-- `tpbcli_task_build_logical_tasks`. -/
def tpbcliTaskBuildLogicalTasks (sels : List InitSel) : WsM (List Logical) := do
  let tasks ← buildTasks sels []
  if tasks.isEmpty then tpbFail .cliMisc .cliFail
  else return tasks

/-! ### Chains of records -/

/-- The record `a` can be read, and points to `b`. -/
def DeriveLink (ws : Workspace) (a b : Id20) : Prop :=
  b ≠ zeroArr 20 ∧ ∃ v, tpbRafRecordReadTask a true ws = .ok v ws ∧ v.attr.deriveTo = b

/-- The record `r` can be read, and points nowhere. -/
def DeriveRoot (ws : Workspace) (r : Id20) : Prop :=
  ∃ v, tpbRafRecordReadTask r true ws = .ok v ws ∧ v.attr.deriveTo = zeroArr 20

/-- A chain of `derive_to` links from `start` to a root: all records on it can be read, no
ID repeats, and it has at most `TPBCLI_TASK_DERIVE_MAX_HOPS` hops. -/
structure DeriveChain (ws : Workspace) (start root : Id20) (ids : List Id20) : Prop where
  head : ids.head? = some start
  last : ids.getLast? = some root
  links : ids.IsChain (DeriveLink ws)
  root : DeriveRoot ws root
  nodup : ids.Nodup
  hops : ids.length ≤ tpbcliTaskDeriveMaxHops + 1

theorem sfIsZeroId20_iff {id : Id20} : sfIsZeroId20 id = true ↔ id = zeroArr 20 := by
  simp [sfIsZeroId20]

/-- Reading a record leaves the workspace as it is. -/
theorem tpbRafRecordReadTask_ws {id : Id20} {ws ws' : Workspace} {v : RecordView TaskAttr}
    (h : tpbRafRecordReadTask id true ws = .ok v ws') : ws' = ws :=
  (fopenRead_eq_ok h).1

/-- One round of the loop: the current record is a root, or there is a hop left to a record
that was not met. -/
theorem followHops_step {k : ℕ} {chain : List Id20} {cur r : Id20} {ws ws' : Workspace} :
    followHops k chain cur ws = .ok r ws' ↔
      ∃ v, tpbRafRecordReadTask cur true ws = .ok v ws ∧
        ((v.attr.deriveTo = zeroArr 20 ∧ cur = r ∧ ws' = ws) ∨
          (v.attr.deriveTo ≠ zeroArr 20 ∧ ∃ k', k = k' + 1 ∧
            v.attr.deriveTo ∉ chain ++ [cur] ∧
            followHops k' (chain ++ [cur]) v.attr.deriveTo ws = .ok r ws')) := by
  constructor
  · intro h
    rw [followHops] at h
    obtain ⟨v, ws₁, hread, hrest⟩ := bind_eq_ok.mp h
    rw [propagate_eq_ok] at hread
    obtain rfl := tpbRafRecordReadTask_ws hread
    refine ⟨v, hread, ?_⟩
    split at hrest
    · rename_i hzero
      cases hrest
      exact .inl ⟨sfIsZeroId20_iff.mp hzero, rfl, rfl⟩
    · rename_i hzero
      refine .inr ⟨fun h' => hzero (sfIsZeroId20_iff.mpr h'), ?_⟩
      cases k with
      | zero => cases hrest
      | succ k =>
          simp only at hrest
          split at hrest
          · cases hrest
          · rename_i hnew
            exact ⟨k, rfl, hnew, hrest⟩
  · rintro ⟨v, hread, ⟨hzero, rfl, rfl⟩ | ⟨hzero, k, rfl, hnew, hrest⟩⟩
    · rw [followHops]
      refine bind_then (propagate_eq_ok.mpr hread) ?_
      rw [if_pos (sfIsZeroId20_iff.mpr hzero)]
      rfl
    · rw [followHops]
      refine bind_then (propagate_eq_ok.mpr hread) ?_
      rw [if_neg fun h' => hzero (sfIsZeroId20_iff.mp h')]
      simp only
      rwa [if_neg hnew]

/-- The loop reaches a root exactly along a chain that is short enough and does not meet an
earlier ID. -/
theorem followHops_eq_ok {k : ℕ} {chain : List Id20} {cur r : Id20} {ws ws' : Workspace} :
    followHops k chain cur ws = .ok r ws' ↔ ws' = ws ∧ ∃ rest,
      (cur :: rest).IsChain (DeriveLink ws) ∧ (cur :: rest).getLast? = some r ∧
      DeriveRoot ws r ∧ rest.length ≤ k ∧ (∀ x ∈ rest, x ∉ chain ++ [cur]) ∧ rest.Nodup := by
  induction k using Nat.strong_induction_on generalizing chain cur with
  | _ k ih =>
      rw [followHops_step]
      constructor
      · rintro ⟨v, hread, ⟨hzero, rfl, rfl⟩ | ⟨hzero, k, rfl, hnew, hfollow⟩⟩
        · exact ⟨rfl, [], by simp, rfl, ⟨v, hread, hzero⟩, by simp⟩
        · obtain ⟨rfl, rest, hchain, hlast, hroot, hlen, hdisj, hnodup⟩ :=
            (ih k (Nat.lt_succ_self k)).mp hfollow
          refine ⟨rfl, v.attr.deriveTo :: rest, ?_, ?_, hroot, ?_, ?_, ?_⟩
          · exact List.isChain_cons_cons.mpr ⟨⟨hzero, v, hread, rfl⟩, hchain⟩
          · rwa [List.getLast?_cons_cons]
          · rw [List.length_cons]
            omega
          · intro x hx
            rcases List.mem_cons.mp hx with rfl | hx
            · exact hnew
            · exact fun hmem => hdisj x hx (List.mem_append_left _ hmem)
          · exact List.nodup_cons.mpr ⟨fun hmem => hdisj _ hmem (by simp), hnodup⟩
      · rintro ⟨rfl, rest, hchain, hlast, hroot, hlen, hdisj, hnodup⟩
        cases rest with
        | nil =>
            obtain rfl : cur = r := Option.some.inj hlast
            obtain ⟨v, hread, hzero⟩ := hroot
            exact ⟨v, hread, .inl ⟨hzero, rfl, rfl⟩⟩
        | cons d rest =>
            obtain ⟨⟨hne, v, hread, rfl⟩, hchain⟩ := List.isChain_cons_cons.mp hchain
            obtain ⟨hd, hnodup⟩ := List.nodup_cons.mp hnodup
            obtain ⟨k, rfl⟩ : ∃ k', k = k' + 1 := by
              rw [List.length_cons] at hlen
              exact ⟨k - 1, by omega⟩
            refine ⟨v, hread, .inr ⟨hne, k, rfl, hdisj _ (by simp), ?_⟩⟩
            refine (ih k (Nat.lt_succ_self k)).mpr ⟨rfl, rest, hchain, ?_, hroot, ?_, ?_, hnodup⟩
            · rwa [List.getLast?_cons_cons] at hlast
            · rw [List.length_cons] at hlen
              omega
            · intro x hx hmem
              rcases List.mem_append.mp hmem with hmem | hmem
              · exact hdisj x (by simp [hx]) hmem
              · rw [List.mem_singleton.mp hmem] at hx
                exact hd hx

/-- **Following `derive_to`** succeeds exactly on the start of a chain to a root, and then
returns the root. -/
theorem followDerive_eq_ok {start r : Id20} {ws ws' : Workspace} :
    tpbcliTaskFollowDerive start ws = .ok r ws' ↔
      ws' = ws ∧ ∃ ids, DeriveChain ws start r ids := by
  rw [tpbcliTaskFollowDerive, followHops_eq_ok]
  refine and_congr_right fun _ => ⟨?_, ?_⟩
  · rintro ⟨rest, hchain, hlast, hroot, hlen, hdisj, hnodup⟩
    refine ⟨start :: rest, rfl, hlast, hchain, hroot, ?_, ?_⟩
    · exact List.nodup_cons.mpr ⟨fun hmem => hdisj _ hmem (by simp), hnodup⟩
    · rw [List.length_cons]
      omega
  · rintro ⟨ids, hhead, hlast, hlinks, hroot, hnodup, hhops⟩
    obtain ⟨rest, rfl⟩ := List.head?_eq_some_iff.mp hhead
    obtain ⟨hstart, hnodup⟩ := List.nodup_cons.mp hnodup
    refine ⟨rest, hlinks, hlast, hroot, ?_, ?_, hnodup⟩
    · rw [List.length_cons] at hhops
      omega
    · rintro x hx hmem
      rw [List.mem_singleton.mp hmem] at hx
      exact hstart hx

/-! ### What is built from a root -/

/-- The member IDs of a capsule. -/
def capsuleMembers (v : RecordView TaskAttr) : List Id20 :=
  (List.range (v.datasize.toNat / 20)).map fun i => toArr 20 (pread v.data (20 * i) 20)

/-- The pointer to the data of the first header is the pointer to the payload. -/
theorem headerDataPtr_zero {v : RecordView TaskAttr} {p : Bytes} {n : UInt64}
    (h : tpbRafHeaderDataPtr v.headers v.dataPtr v.datasize 0 = .ok (some p, n)) :
    p = v.data := by
  rw [tpbRafHeaderDataPtr] at h
  rcases hdr : v.headers[0]? with - | hd
  · rw [hdr] at h
    cases h
  · rw [hdr] at h
    simp only at h
    split at h
    · cases h
    split at h
    · cases h
    · have hptr : v.dataPtr.map (·.drop 0) = some p := (Prod.mk.inj (Except.ok.inj h)).1
      rw [RecordView.dataPtr] at hptr
      split at hptr
      · cases hptr
      · simpa using hptr.symm

/-- A confirmed capsule has one header for its whole payload, which is a list of IDs. -/
theorem confirmCapsule_ptr {v : RecordView TaskAttr} (h : tpbcliTaskConfirmCapsule v = true) :
    v.datasize % 20 = 0 ∧
      tpbRafHeaderDataPtr v.headers v.dataPtr v.datasize 0 = .ok (some v.data, v.datasize) := by
  rw [tpbcliTaskConfirmCapsule] at h
  split at h
  · cases h
  split at h
  · cases h
  split at h
  · cases h
  rename_i hdr rest hheaders
  split at h
  · cases h
  split at h
  · cases h
  rename_i hmod
  split at h
  · cases h
  refine ⟨by simpa using hmod, ?_⟩
  rcases hptr : tpbRafHeaderDataPtr v.headers v.dataPtr v.datasize 0 with e | ⟨ptr, nbytes⟩
  · rw [hptr] at h
    cases h
  · rw [hptr] at h
    simp only [Bool.and_eq_true, decide_eq_true_eq] at h
    obtain ⟨hsome, rfl⟩ := h
    obtain ⟨p, rfl⟩ := Option.isSome_iff_exists.mp hsome
    rw [headerDataPtr_zero hptr]

/-- The members of a capsule with fewer than 2³¹ of them. -/
theorem tpbcliTaskReadCapsuleMembers_eq_ok {v : RecordView TaskAttr}
    (h : tpbcliTaskConfirmCapsule v = true) (hlt : v.datasize.toNat < 20 * 2 ^ 31) :
    tpbcliTaskReadCapsuleMembers v = .ok (capsuleMembers v) := by
  obtain ⟨hmod, hptr⟩ := confirmCapsule_ptr h
  have hdiv : (v.datasize / 20).toUInt32.toNat = v.datasize.toNat / 20 := by
    simp only [UInt64.toNat_toUInt32, UInt64.toNat_div, UInt64.reduceToNat]
    omega
  have hcount : (v.datasize / 20).toUInt32.toInt32.toInt = (v.datasize.toNat / 20 : ℕ) := by
    rw [← hdiv]
    refine BitVec.toInt_eq_toNat_of_lt ?_
    rw [UInt32.toBitVec_toInt32, UInt32.toNat_toBitVec, hdiv]
    omega
  have hmul : v.datasize.toNat / 20 * 20 = v.datasize.toNat := by
    have hmod' := congrArg UInt64.toNat hmod
    simp only [UInt64.toNat_mod, UInt64.reduceToNat] at hmod'
    omega
  have hfit : ¬ ((v.datasize / 20).toUInt32.toInt32 < 0 ∨
      (v.datasize / 20).toUInt32.toInt32.toInt.toNat * 20 ≠ v.datasize.toNat) := by
    rw [hcount, Int.toNat_natCast, hmul, Int32.lt_iff_toInt_lt, hcount]
    simp only [Int32.toInt_zero, ne_eq, not_true_eq_false, or_false]
    omega
  rw [tpbcliTaskReadCapsuleMembers, h, hptr]
  simp only [Bool.not_true, Bool.false_eq_true, if_false]
  rw [if_neg hfit, hcount, Int.toNat_natCast]
  rfl

/-- What can be read of a record. -/
def viewOf (ws : Workspace) (id : Id20) : Option (RecordView TaskAttr) :=
  match tpbRafRecordReadTask id true ws with
  | .ok v _ => some v
  | .error _ _ => none

/-- The members with their subranks, from subrank `i` on. -/
def memberRecs (ws : Workspace) (i : ℕ) (ids : List Id20) : List MemberRec :=
  (ids.zipIdx i).map fun p => ⟨p.1, p.2, viewOf ws p.1⟩

/-- Reading the record `id` has a meaning, whether it succeeds or not. -/
def ReadDefined (ws : Workspace) (id : Id20) : Prop :=
  ∀ ws', tpbRafRecordReadTask id true ws ≠ .error .undefined ws'

theorem attemptRead_eq_ok {ws : Workspace} {id : Id20} (h : ReadDefined ws id) :
    attemptRead id ws = .ok (viewOf ws id) ws := by
  rw [attemptRead, viewOf]
  rcases hread : tpbRafRecordReadTask id true ws with ⟨v, ws'⟩ | ⟨⟨m, c⟩ | -, ws'⟩
  · rw [tpbRafRecordReadTask_ws hread]
  · rw [fopenRead_eq_error hread]
  · exact absurd hread (h ws')

theorem loadMembers_eq_ok {ws : Workspace} {ids : List Id20}
    (h : ∀ id ∈ ids, ReadDefined ws id) (i : ℕ) :
    loadMembers i ids ws = .ok (memberRecs ws i ids) ws := by
  induction ids generalizing i with
  | nil => rfl
  | cons id ids ih =>
      refine bind_then (bind_then (attemptRead_eq_ok (h id (by simp))) rfl) ?_
      exact bind_then (ih (fun x hx => h x (by simp [hx])) (i + 1)) rfl

/-- The root can be turned into a logical task: when it is a capsule, it has fewer than 2³¹
members, and reading each of them has a meaning. -/
def Loadable (ws : Workspace) (root : Id20) : Prop :=
  ∀ v, tpbRafRecordReadTask root true ws = .ok v ws → tpbcliTaskConfirmCapsule v = true →
    v.datasize.toNat < 20 * 2 ^ 31 ∧ ∀ id ∈ capsuleMembers v, ReadDefined ws id

/-- The logical task of a root with the record `v`, for the selection `ref` at `order`. -/
def logicalOf (ws : Workspace) (root : Id20) (v : RecordView TaskAttr) (ref : Bytes)
    (order : ℤ) : Logical where
  rootId := root
  ref := snprintfS 16 ref
  isCapsule := tpbcliTaskConfirmCapsule v
  members := if tpbcliTaskConfirmCapsule v then memberRecs ws 0 (capsuleMembers v)
    else [⟨root, 0, some v⟩]
  inputOrder := order
  rootUtcBits := v.attr.utcBits
  rootBtime := v.attr.btime

/-- A root that can be loaded makes a logical task that depends on nothing but the root,
apart from the name and the place of the selection. -/
theorem sfLogicalFromRoot_eq_ok {ws : Workspace} {root : Id20} {v : RecordView TaskAttr}
    (hread : tpbRafRecordReadTask root true ws = .ok v ws) (hload : Loadable ws root)
    (ref : Bytes) (order : ℤ) :
    sfLogicalFromRoot root ref order ws = .ok (logicalOf ws root v ref order) ws := by
  refine bind_then (propagate_eq_ok.mpr hread) ?_
  by_cases hcap : tpbcliTaskConfirmCapsule v = true
  · obtain ⟨hlt, hmembers⟩ := hload v hread hcap
    have hids : propagate .cliMisc (liftExcept (tpbcliTaskReadCapsuleMembers v)) ws =
        .ok (capsuleMembers v) ws := by
      rw [propagate_eq_ok, tpbcliTaskReadCapsuleMembers_eq_ok hcap hlt]
      rfl
    rw [if_pos hcap, logicalOf, if_pos hcap, hcap]
    exact bind_then hids (bind_then (loadMembers_eq_ok hmembers 0) rfl)
  · rw [if_neg hcap, logicalOf, if_neg hcap, Bool.eq_false_iff.mpr hcap]
    rfl

/-! ### One logical task for each root -/

/-- The task comes from a selection that leads to its root. -/
def FromSel (ws : Workspace) (sels : List InitSel) (t : Logical) : Prop :=
  ∃ s ∈ sels, ∃ v, tpbcliTaskFollowDerive s.id ws = .ok t.rootId ws ∧
    tpbRafRecordReadTask t.rootId true ws = .ok v ws ∧
    t = logicalOf ws t.rootId v s.ref s.order

/-- The loop over the selections `sels` with the roots `roots`, behind selections with the
roots `done`. -/
theorem buildTasks_eq_ok {ws : Workspace} {all sels : List InitSel} {roots done : List Id20}
    {tasks : List Logical}
    (hfollow : List.Forall₂ (fun s r => tpbcliTaskFollowDerive s.id ws = .ok r ws) sels roots)
    (hload : ∀ r ∈ roots, Loadable ws r) (hall : ∀ s ∈ sels, s ∈ all)
    (hdone : tasks.map Logical.rootId = done.eraseDups) (htasks : ∀ t ∈ tasks, FromSel ws all t) :
    ∃ tasks', buildTasks sels tasks ws = .ok tasks' ws ∧
      tasks'.map Logical.rootId = (done ++ roots).eraseDups ∧ ∀ t ∈ tasks', FromSel ws all t := by
  induction hfollow generalizing done tasks with
  | nil => exact ⟨tasks, rfl, by rw [List.append_nil, hdone], htasks⟩
  | @cons s r sels roots hs _ ih =>
      have hseen : tasks.any (·.rootId = r) = true ↔ r ∈ done := by
        rw [← List.mem_eraseDups, ← hdone, List.any_eq_true, List.mem_map]
        simp
      have hload' : ∀ x ∈ roots, Loadable ws x := fun x hx => hload x (by simp [hx])
      have hall' : ∀ x ∈ sels, x ∈ all := fun x hx => hall x (by simp [hx])
      have hsplit : done ++ r :: roots = (done ++ [r]) ++ roots := by simp
      by_cases hr : r ∈ done
      · have hdone' : tasks.map Logical.rootId = (done ++ [r]).eraseDups := by
          rw [Uniq.eraseDups_concat, if_pos hr, hdone]
        obtain ⟨tasks', hok, hroots, hfrom⟩ := ih hload' hall' hdone' htasks
        refine ⟨tasks', ?_, by rw [hsplit, hroots], hfrom⟩
        refine bind_then (propagate_eq_ok.mpr hs) ?_
        rw [if_pos (hseen.mpr hr)]
        exact hok
      · obtain ⟨-, ids, hchain⟩ := followDerive_eq_ok.mp hs
        obtain ⟨v, hread, -⟩ := hchain.root
        have hbuilt := sfLogicalFromRoot_eq_ok hread (hload r (by simp)) s.ref s.order
        have hdone' : (tasks ++ [logicalOf ws r v s.ref s.order]).map Logical.rootId =
            (done ++ [r]).eraseDups := by
          rw [Uniq.eraseDups_concat, if_neg hr, List.map_append, hdone]
          rfl
        have htasks' : ∀ t ∈ tasks ++ [logicalOf ws r v s.ref s.order], FromSel ws all t := by
          intro t ht
          rcases List.mem_append.mp ht with ht | ht
          · exact htasks t ht
          · obtain rfl := List.mem_singleton.mp ht
            exact ⟨s, hall s (by simp), v, hs, hread, rfl⟩
        obtain ⟨tasks', hok, hroots, hfrom⟩ := ih hload' hall' hdone' htasks'
        refine ⟨tasks', ?_, by rw [hsplit, hroots], hfrom⟩
        refine bind_then (propagate_eq_ok.mpr hs) ?_
        rw [if_neg fun h => hr (hseen.mp h)]
        exact bind_then (propagate_eq_ok.mpr hbuilt) hok

/-- The logical tasks of selections that can all be followed. -/
theorem buildLogicalTasks_eq_ok {ws : Workspace} {sels : List InitSel} {roots : List Id20}
    (hne : sels ≠ [])
    (hfollow : List.Forall₂ (fun s r => tpbcliTaskFollowDerive s.id ws = .ok r ws) sels roots)
    (hload : ∀ r ∈ roots, Loadable ws r) :
    ∃ tasks, tpbcliTaskBuildLogicalTasks sels ws = .ok tasks ws ∧
      tasks.map Logical.rootId = roots.eraseDups ∧ ∀ t ∈ tasks, FromSel ws sels t := by
  obtain ⟨tasks, hok, hroots, hfrom⟩ := @buildTasks_eq_ok ws sels sels roots [] [] hfollow hload
    (fun s hs => hs) rfl (by simp)
  rw [List.nil_append] at hroots
  refine ⟨tasks, ?_, hroots, hfrom⟩
  have hnonempty : tasks.isEmpty = false := by
    cases hfollow with
    | nil => exact absurd rfl hne
    | cons hs _ =>
        cases tasks with
        | nil =>
            rw [List.eraseDups_cons] at hroots
            cases hroots
        | cons t ts => rfl
  refine bind_then hok ?_
  rw [hnonempty]
  rfl

/-- **Following links and building logical tasks.** In every workspace:

* following `derive_to` from a record succeeds exactly when a chain of at most eight hops
  without a repeated ID leads through readable records to a root, and returns that root;
* a selection that is not empty and can be followed, to roots that can be loaded, gives one
  logical task for each distinct root, in the order of first appearance, and each of them is
  the logical task of its root, with the name and the place of a selection that leads there;
* two selections with the same root give the same logical task up to name and place. -/
theorem task_logical_by_root (ws : Workspace) :
    (∀ start r ws', tpbcliTaskFollowDerive start ws = .ok r ws' ↔
      ws' = ws ∧ ∃ ids, DeriveChain ws start r ids) ∧
    (∀ sels roots, sels ≠ [] →
      List.Forall₂ (fun s r => tpbcliTaskFollowDerive s.id ws = .ok r ws) sels roots →
      (∀ r ∈ roots, Loadable ws r) →
      ∃ tasks, tpbcliTaskBuildLogicalTasks sels ws = .ok tasks ws ∧
        tasks.map Logical.rootId = roots.eraseDups ∧ ∀ t ∈ tasks, FromSel ws sels t) ∧
    (∀ s s' root, Loadable ws root → tpbcliTaskFollowDerive s.id ws = .ok root ws →
      tpbcliTaskFollowDerive s'.id ws = .ok root ws →
      ∃ t t', tpbcliTaskBuildLogicalTasks [s] ws = .ok [t] ws ∧
        tpbcliTaskBuildLogicalTasks [s'] ws = .ok [t'] ws ∧
        t' = { t with ref := t'.ref, inputOrder := t'.inputOrder }) := by
  refine ⟨fun start r ws' => followDerive_eq_ok, fun sels roots => buildLogicalTasks_eq_ok, ?_⟩
  intro s s' root hload hs hs'
  obtain ⟨-, ids, hchain⟩ := followDerive_eq_ok.mp hs
  obtain ⟨v, hread, -⟩ := hchain.root
  have hone : ∀ x : InitSel, tpbcliTaskFollowDerive x.id ws = .ok root ws →
      tpbcliTaskBuildLogicalTasks [x] ws = .ok [logicalOf ws root v x.ref x.order] ws := by
    intro x hx
    have hbuilt := sfLogicalFromRoot_eq_ok hread hload x.ref x.order
    have hloop : buildTasks [x] [] ws = .ok [logicalOf ws root v x.ref x.order] ws :=
      bind_then (propagate_eq_ok.mpr hx) (bind_then (propagate_eq_ok.mpr hbuilt) rfl)
    exact bind_then hloop rfl
  exact ⟨_, _, hone s hs, hone s' hs', rfl⟩

/-- The attributes of a capsule record: `inherit_from` is all `0xFF`, there is one header. -/
def capsuleAttr : TaskAttr :=
  { TaskAttr.zero with inheritFrom := toArr 20 (List.replicate 20 0xFF), nheader := 1 }

/-- The capsule `idOf 2`, of the task `idOf 1`. -/
def pairCapsule : Capsule where
  attr := { capsuleAttr with taskRecordId := idOf 2 }
  header := (linkHeader taskIdName).counted 1
  ids := [idOf 1]
  nheader_eq := rfl
  ndim_eq := rfl
  name_eq := by decide +kernel
  ids_lt := by decide

/-- The record of that task, which is derived to the capsule. -/
def pairMember : Record taskFormat :=
  .bare { TaskAttr.zero with taskRecordId := idOf 1, deriveTo := idOf 2 } rfl

/-- A workspace with the two records. -/
def pairWorkspace : Workspace :=
  (Workspace.empty.set (.record .task (idOf 1)) pairMember.bytes).set (.record .task (idOf 2))
    pairCapsule.record.bytes

theorem pairWorkspace_read :
    tpbRafRecordReadTask (idOf 1) true pairWorkspace = .ok pairMember.view pairWorkspace ∧
      tpbRafRecordReadTask (idOf 2) true pairWorkspace =
        .ok pairCapsule.record.view pairWorkspace := by
  refine ⟨recordRead_of_bytes ?_, recordRead_of_bytes (Workspace.set_files_same _ _ _)⟩
  rw [pairWorkspace, Workspace.set_files_of_ne _ _ (by decide), Workspace.set_files_same]

/-- The task and the capsule lead to the capsule. -/
theorem pairWorkspace_follow :
    tpbcliTaskFollowDerive (idOf 1) pairWorkspace = .ok (idOf 2) pairWorkspace ∧
      tpbcliTaskFollowDerive (idOf 2) pairWorkspace = .ok (idOf 2) pairWorkspace := by
  obtain ⟨hmember, hcapsule⟩ := pairWorkspace_read
  have hroot : DeriveRoot pairWorkspace (idOf 2) := ⟨_, hcapsule, rfl⟩
  have hhop : (idOf 2 : Id20) ≠ zeroArr 20 := by decide
  exact ⟨followDerive_eq_ok.mpr ⟨rfl, [idOf 1, idOf 2], rfl, rfl,
      by simpa using ⟨hhop, _, hmember, rfl⟩, hroot, by decide, by decide⟩,
    followDerive_eq_ok.mpr ⟨rfl, [idOf 2], rfl, rfl, by simp, hroot, by simp, by decide⟩⟩

theorem pairCapsule_confirmed : tpbcliTaskConfirmCapsule pairCapsule.record.view = true := by
  decide +kernel

theorem pairCapsule_members : capsuleMembers pairCapsule.record.view = [idOf 1] := by
  decide +kernel

/-- Reading has a meaning for every ID. -/
theorem readDefined_pairWorkspace (x : Id20) : ReadDefined pairWorkspace x := by
  intro ws' h
  by_cases h₁ : x = idOf 1
  · rw [h₁, pairWorkspace_read.1] at h
    cases h
  · by_cases h₂ : x = idOf 2
    · rw [h₂, pairWorkspace_read.2] at h
      cases h
    · have hnone : pairWorkspace.files (.record .task x) = none := by
        rw [pairWorkspace, Workspace.set_files_of_ne _ _ (by simp [h₂]),
          Workspace.set_files_of_ne _ _ (by simp [h₁])]
        rfl
      rw [tpbRafRecordReadTask, recordRead, fopenRead, hnone] at h
      cases h

/-- A member and its capsule are selected: they are one logical task, with the member. -/
theorem task_logical_pair :
    ∃ task, tpbcliTaskBuildLogicalTasks [⟨idOf 1, [], 0⟩, ⟨idOf 2, [], 1⟩] pairWorkspace =
        .ok [task] pairWorkspace ∧
      task.rootId = idOf 2 ∧ task.isCapsule = true ∧
      task.members.map MemberRec.id = [idOf 1] := by
  obtain ⟨-, hbuild, -⟩ := task_logical_by_root pairWorkspace
  obtain ⟨hmember, hcapsule⟩ := pairWorkspace_follow
  have hload : Loadable pairWorkspace (idOf 2) := by
    intro v hv _
    rw [pairWorkspace_read.2] at hv
    cases hv
    exact ⟨by decide +kernel, fun x _ => readDefined_pairWorkspace x⟩
  obtain ⟨tasks, hok, hroots, hfrom⟩ := hbuild [⟨idOf 1, [], 0⟩, ⟨idOf 2, [], 1⟩]
    [idOf 2, idOf 2] (by simp) (.cons hmember (.cons hcapsule .nil)) (by simp [hload])
  obtain ⟨task, rfl, hroot⟩ := List.map_eq_singleton_iff.mp (hroots.trans rfl)
  obtain ⟨sel, -, v, -, hv, heq⟩ := hfrom task (List.mem_singleton.mpr rfl)
  rw [hroot, pairWorkspace_read.2] at hv
  cases hv
  refine ⟨task, hok, hroot, ?_, ?_⟩
  · rw [heq]
    exact pairCapsule_confirmed
  · rw [heq, logicalOf, if_pos pairCapsule_confirmed, pairCapsule_members]
    rfl

/-- The header of a capsule of 2³¹ members. -/
def fullHeader : MetaHeader :=
  MetaHeader.setDim0 { linkHeader taskIdName with dataSize := 20 * 2 ^ 31 } (2 ^ 31)

/-- The record of a capsule of 2³¹ members, `d` being its payload. -/
def fullCapsule (d : Bytes) (hd : d.length = 20 * 2 ^ 31) : Record taskFormat where
  attr := capsuleAttr
  headers := [fullHeader]
  buf := some d
  nheader_eq := rfl
  ndim_le := by
    intro h hh
    obtain rfl := List.mem_singleton.mp hh
    decide
  data_lt := by
    rw [Option.getD_some, hd]
    decide

section FullCapsule

variable {d : Bytes} (hd : d.length = 20 * 2 ^ 31)

/-- What is read back of it. -/
theorem fullCapsule_view :
    (fullCapsule d hd).view = ⟨capsuleAttr, [fullHeader.norm], 20 * 2 ^ 31, d⟩ := by
  have hlen : (fullCapsule d hd).data.length = 20 * 2 ^ 31 := hd
  rw [Record.view, Record.datasize, hlen]
  rfl

/-- It is a capsule by every test that `tpbcli_task_confirm_capsule` makes. -/
theorem fullCapsule_confirmed : tpbcliTaskConfirmCapsule (fullCapsule d hd).view = true := by
  have hname : cstr fullHeader.norm.name.toList = taskIdName := by decide +kernel
  have htag : cstr fullHeader.norm.tag.toList = tagLink := by decide +kernel
  have hdim : fullHeader.norm.dim0 = 20 * 2 ^ 31 / 20 := by decide +kernel
  rw [fullCapsule_view hd]
  simp only [tpbcliTaskConfirmCapsule]
  rw [if_neg (by decide +kernel), if_neg (by decide +kernel), if_neg (by simp [hname, htag]),
    if_neg (by decide +kernel), if_neg (by simp [hdim])]
  rfl

/-- Its members are not returned: their number does not fit an `int`. -/
theorem fullCapsule_members : tpbcliTaskReadCapsuleMembers (fullCapsule d hd).view =
    .error (.code .cliMisc .cliFail) := by
  obtain ⟨-, hptr⟩ := confirmCapsule_ptr (fullCapsule_confirmed hd)
  have hcount : ((20 * 2 ^ 31 : UInt64) / 20).toUInt32.toInt32 < 0 := by decide +kernel
  rw [tpbcliTaskReadCapsuleMembers, fullCapsule_confirmed hd, hptr, fullCapsule_view hd,
    if_neg (by simp)]
  exact if_pos (.inl hcount)

/-- A workspace with the capsule of 2³¹ members. -/
def fullWorkspace (d : Bytes) (hd : d.length = 20 * 2 ^ 31) : Workspace :=
  Workspace.empty.set (.record .task (zeroArr 20)) (fullCapsule d hd).bytes

theorem fullWorkspace_read : tpbRafRecordReadTask (zeroArr 20) true (fullWorkspace d hd) =
    .ok (fullCapsule d hd).view (fullWorkspace d hd) :=
  recordRead_of_bytes (Workspace.set_files_same _ _ _)

/-- The capsule is a root. -/
theorem fullWorkspace_follow : tpbcliTaskFollowDerive (zeroArr 20) (fullWorkspace d hd) =
    .ok (zeroArr 20) (fullWorkspace d hd) :=
  followDerive_eq_ok.mpr ⟨rfl, [zeroArr 20], rfl, rfl, by simp,
    ⟨_, fullWorkspace_read hd, rfl⟩, by simp, by decide⟩

/-- No logical task is built of it. -/
theorem fullWorkspace_build (tasks : List Logical) :
    tpbcliTaskBuildLogicalTasks [⟨zeroArr 20, [], 0⟩] (fullWorkspace d hd) ≠
      .ok tasks (fullWorkspace d hd) := by
  intro hok
  obtain ⟨ts, ws₁, hts, -⟩ := bind_eq_ok.mp hok
  obtain ⟨root, ws₂, hroot, hbuild⟩ := bind_eq_ok.mp hts
  rw [propagate_eq_ok, fullWorkspace_follow] at hroot
  cases hroot
  obtain ⟨t, ws₃, ht, -⟩ := bind_eq_ok.mp hbuild
  obtain ⟨v, ws₄, hv, hmembers⟩ := bind_eq_ok.mp (propagate_eq_ok.mp ht)
  rw [propagate_eq_ok, fullWorkspace_read] at hv
  cases hv
  rw [if_pos (fullCapsule_confirmed hd)] at hmembers
  obtain ⟨ids, ws₅, hids, -⟩ := bind_eq_ok.mp hmembers
  rw [propagate_eq_ok, fullCapsule_members] at hids
  cases hids

end FullCapsule

/-- The two guards of the code: without any selection there is nothing that could not be
followed, and still no result; and a capsule of 2³¹ members is a root that is refused. -/
theorem task_logical_guards :
    (¬ ∀ (ws : Workspace) (sels : List InitSel),
      (∀ s ∈ sels, ∃ r, tpbcliTaskFollowDerive s.id ws = .ok r ws) →
      ∃ tasks, tpbcliTaskBuildLogicalTasks sels ws = .ok tasks ws) ∧
    (¬ ∀ (ws : Workspace) (sels : List InitSel), sels ≠ [] →
      (∀ s ∈ sels, ∃ r, tpbcliTaskFollowDerive s.id ws = .ok r ws) →
      ∃ tasks, tpbcliTaskBuildLogicalTasks sels ws = .ok tasks ws) := by
  constructor
  · intro h
    obtain ⟨tasks, hok⟩ := h Workspace.empty [] (by simp)
    cases hok
  · intro h
    have hlen : (List.replicate (20 * 2 ^ 31) (0 : UInt8)).length = 20 * 2 ^ 31 :=
      List.length_replicate
    generalize List.replicate (20 * 2 ^ 31) (0 : UInt8) = d at hlen
    obtain ⟨tasks, hok⟩ := h (fullWorkspace d hlen) [⟨zeroArr 20, [], 0⟩] (by simp)
      (by simpa using ⟨_, fullWorkspace_follow hlen⟩)
    exact fullWorkspace_build hlen tasks hok

end TPBench
