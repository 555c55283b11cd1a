import TPBench.Mpi.Store

/-!
# The Invariant of the MPI Kernel

This module follows the store through a run of `_sf_mpik_write_task`. The writes of the ranks
come before the barrier, the creation of the capsule comes between the barrier and the first
broadcast, the derivations come before the reduction of their errors, and the appends come
behind the gather. So a call finds the store as the calls in front of its collective have
left it.

The invariant (`MpikInv`) has a part for each point of the code: what a rank knows there about
its own task and the errors of the others (`RankOk`), and what rank 0 knows there about the
list of the capsule (`RootOk`). Other ranks rely on the contributions to the collectives, and
the invariant says what stands behind these. Both parts only grow: they survive a step of
another rank as soon as the step adds contributions and keeps derivations and capsules
(`RankOk.mono`, `RootOk.mono`).

A step is a local action, the entering or the leaving of a collective, and each has its lemma
(`MpikInv.act`, `MpikInv.enter`, `MpikInv.rankOk_leave`, `MpikInv.rootOk_leave`).
-/

open CFile Conc

namespace TPBench

open scoped Mpi

/-! ### What the calls establish -/

section Calls

variable {n : ℕ} (W : MpiWorld n)

/-- The ID of the record a rank writes, when it writes one. -/
def MpiWorld.wrote (i : Fin (n + 1)) : Option Id20 :=
  match (W.write i).prepared, (W.write i).recordFault with
  | .ok x, none => some x.attr.taskRecordId
  | _, _ => none

/-- `my_task_id` of a rank, which is zero when the rank writes no record. -/
def MpiWorld.taskId (i : Fin (n + 1)) : Id20 := (W.wrote i).getD (zeroArr 20)

/-- The ranks whose tasks rank 0 lists in a capsule it has created: itself, and the ranks in
front of the first append that fails, when it gets its memory. -/
def MpiWorld.listed : List (Fin (n + 1)) :=
  0 :: if W.allocOk then
    (List.finRange (n + 1)).tail.takeWhile fun j => (W.appendFault j).isNone
  else []

/-- A write returns the ID of its record, and writes the record when it succeeds. -/
theorem tpbKWriteTask_spec (i : Fin (n + 1)) (ws : Workspace) :
    (tpbKWriteTask (W.write i) ws).1.2 = W.taskId i ∧
      ((tpbKWriteTask (W.write i) ws).1.1 = 0 → (W.wrote i).isSome) := by
  rw [tpbKWriteTask, MpiWorld.taskId, MpiWorld.wrote]
  cases hprep : (W.write i).prepared with
  | error e =>
      refine ⟨rfl, fun h => absurd h ?_⟩
      exact (Err.toInt_pos _).ne'
  | ok x =>
      cases hfault : (W.write i).recordFault with
      | some e =>
          rcases hrun : propagate .rafMisc (faulty (some e) (tpbRafRecordWriteTask x.attr
              x.headers x.data x.datasize)) ws with ⟨⟨⟩, ws'⟩ | ⟨e', ws'⟩
          · cases propagate_eq_ok.mp hrun
          · simp only [hrun]
            refine ⟨rfl, fun h => absurd h ?_⟩
            exact (Err.toInt_pos _).ne'
      | none =>
          have hok : propagate .rafMisc (faulty none (tpbRafRecordWriteTask x.attr
              x.headers x.data x.datasize)) ws = .ok () (ws.set (.record .task
                x.attr.taskRecordId) (recordBytes taskFormat x.attr x.headers x.data
                  x.datasize)) :=
            propagate_eq_ok.mpr rfl
          simp only [hok]
          exact ⟨rfl, fun _ => rfl⟩

/-- A record of a capsule that was created is a capsule with the first task. -/
theorem capsuleFile_create {fault : Option Err} {src : TaskAttr} {id first : Id20}
    {ws ws' : Workspace}
    (h : faulty fault (tpbRafRecordCreateTaskCapsule (capsuleAttrOf src id) [capsuleHeader]
      first) ws = .ok () ws') : CapsuleFile ws' id [first] := by
  have hname : cstr capsuleHeader.name.toList = taskIdName := by decide +kernel
  cases fault with
  | some e => cases h
  | none =>
      obtain ⟨hn, rfl⟩ := tpbRafRecordCreateTaskCapsule_eq_ok rfl hname h
      exact ⟨_, Workspace.set_files_same _ _ _, rfl, rfl⟩

/-- What comes behind the record of a capsule leaves the record alone. -/
theorem frames_capsuleEntry (c : CapsuleWrite) (src : TaskAttr) (id : Id20) :
    Frames (· = .record .task id) (do
      propagate .rafMisc (faulty c.entryFault
        (tpbRafEntryAppendTask (capsuleEntryOf src id)))
      faulty c.shmFault (pure ())) := by
  refine Frames.bind (Frames.propagate _ (Frames.faulty _ ?_)) fun _ => Frames.faulty _ ?_
  · exact frames_entryAppendRow taskRow _ (by simp [taskRow])
  · exact fun _ _ _ => rfl

/-- A creation that succeeds has stored the record of the capsule, with the first task. -/
theorem tpbKCreateCapsuleTask_spec (c : CapsuleWrite) (first : Id20) (ws : Workspace) :
    ((tpbKCreateCapsuleTask c first ws).1.err = 0 →
      (tpbKCreateCapsuleTask c first ws).1.stored = true) ∧
    ((tpbKCreateCapsuleTask c first ws).1.stored = true →
      CapsuleFile (tpbKCreateCapsuleTask c first ws).2
        (tpbKCreateCapsuleTask c first ws).1.capsuleId [first]) := by
  rw [tpbKCreateCapsuleTask]
  split
  · refine ⟨fun h => absurd h ?_, fun h => by cases h⟩
    exact (Err.toInt_pos _).ne'
  · rename_i src ws₁ hsrc
    split
    · refine ⟨fun h => absurd h ?_, fun h => by cases h⟩
      exact (Err.toInt_pos _).ne'
    · rename_i id hid
      split
      · refine ⟨fun h => absurd h ?_, fun h => by cases h⟩
        exact (Err.toInt_pos _).ne'
      · rename_i ws₂ hcreate
        refine ⟨fun _ => rfl, fun _ => ?_⟩
        obtain ⟨cap, hfile, hcap, hids⟩ := capsuleFile_create (propagate_eq_ok.mp hcreate)
        exact ⟨cap, (frames_capsuleEntry c src.attr id ws₂ _ rfl).trans hfile, hcap, hids⟩

theorem returned_eq_zero {α : Type} {r : EStateM.Result Err Workspace α} :
    returned r = 0 ↔ ∃ a ws, r = .ok a ws := by
  cases r with
  | ok a ws => simp [returned]
  | error e ws => simp [returned, (Err.toInt_pos e).ne']

theorem returned_nonneg {α : Type} (r : EStateM.Result Err Workspace α) : 0 ≤ returned r := by
  cases r with
  | ok a ws => exact le_rfl
  | error e ws => exact (Err.toInt_pos e).le

/-- A derivation that returns success derives its record. -/
theorem derived_faulty {fault : Option Err} {x d : Id20} {ws : Workspace}
    (h : returned (faulty fault (tpbKTaskSetDeriveTo x d) ws) = 0) :
    Derived (after (faulty fault (tpbKTaskSetDeriveTo x d) ws)) x d := by
  obtain ⟨⟨⟩, ws', hok⟩ := returned_eq_zero.mp h
  cases fault with
  | none =>
      rw [hok]
      exact derived_setDeriveTo hok
  | some e => cases hok

theorem Derived.faulty {y d : Id20} {ws : Workspace} (h : Derived ws y d) (fault : Option Err)
    (x : Id20) : Derived (after (faulty fault (tpbKTaskSetDeriveTo x d) ws)) y d := by
  cases fault with
  | none => exact h.setDeriveTo x
  | some e => exact h

theorem CapsuleFile.faulty {ws : Workspace} {c : Id20} {ids : List Id20}
    (h : CapsuleFile ws c ids) (fault : Option Err) (x d : Id20) :
    CapsuleFile (after (faulty fault (tpbKTaskSetDeriveTo x d) ws)) c ids := by
  cases fault with
  | none => exact h.setDeriveTo x d
  | some e => exact h

end Calls

/-! ### The invariant -/

/-- The ranks of the kernel. -/
abbrev MpikState (n : ℕ) := Ranks (mpiWorldComm n) Workspace (MpikPoint n)

section Contributions

variable {n : ℕ} (s : MpikState n)

/-- The ID of the capsule, when rank 0 has contributed it. -/
def capsuleId : Option Id20 := s.entries 1 MpiKind.bcastId 0

/-- The error of the creation, when rank 0 has contributed it. -/
def createErr : Option ℤ := s.entries 2 MpiKind.bcastInt 0

/-- The error of the derivation of a rank, when it has contributed it. -/
def deriveErr (j : Fin (n + 1)) : Option ℤ := s.entries 3 MpiKind.allreduceMax j

/-- The flag of a rank about the memory, when it has contributed it. -/
def allocFlag (j : Fin (n + 1)) : Option ℤ := s.entries 4 MpiKind.allreduceMin j

/-- The task of a rank, when it has contributed it. -/
def gatheredId (j : Fin (n + 1)) : Option Id20 := s.entries 5 MpiKind.gatherId j

end Contributions

section Invariant

variable {n : ℕ} (W : MpiWorld n) (s : MpikState n)

/-- No derivation has failed when the reduced error is success. -/
def NoDeriveErr (maxErr : ℤ) : Prop := maxErr = 0 → ∀ j, deriveErr s j = some 0

/-- What a rank knows at a point: its task, the capsule, what it has derived, and what the
reduced error tells it. -/
def RankOk (i : Fin (n + 1)) : MpikPoint n → Prop
  | .write => True
  | .barrier _ id => id = W.taskId i
  | .create id => i = 0 ∧ id = W.taskId i
  | .bcastCapsule _ id => id = W.taskId i
  | .bcastErr c id => id = W.taskId i ∧ capsuleId s = some c.capsuleId
  | .derive id cap => id = W.taskId i ∧ capsuleId s = some cap
  | .reduceDerive err id cap => id = W.taskId i ∧ capsuleId s = some cap ∧ 0 ≤ err ∧
      (err = 0 → Derived s.shared id cap)
  | .reduceAlloc maxErr id cap => id = W.taskId i ∧ capsuleId s = some cap ∧
      NoDeriveErr s maxErr
  | .gather maxErr id cap => id = W.taskId i ∧ capsuleId s = some cap ∧ NoDeriveErr s maxErr
  | .append maxErr id cap _ _ _ => i = 0 ∧ id = W.taskId i ∧ capsuleId s = some cap ∧
      NoDeriveErr s maxErr
  | .bcastAppend _ maxErr id cap => id = W.taskId i ∧ capsuleId s = some cap ∧
      NoDeriveErr s maxErr
  | .done r => r.taskId = W.taskId i ∧ capsuleId s = some r.tcapId ∧ NoDeriveErr s r.err

/-- The capsule lists the tasks of `l`, and rank 0 has written its own. -/
def Lists (cap : Id20) (l : List (Fin (n + 1))) : Prop :=
  (W.wrote 0).isSome ∧ CapsuleFile s.shared cap (l.map W.taskId)

/-- What rank 0 knows about the capsule at a point. -/
def RootOk : MpikPoint n → Prop
  | .write => True
  | .barrier werr _ => werr = 0 → (W.wrote 0).isSome
  | .create _ => (W.wrote 0).isSome
  | .bcastCapsule c _ => (c.err = 0 → c.stored = true) ∧
      (c.stored = true → Lists W s c.capsuleId [0])
  | .bcastErr c _ => (c.err = 0 → c.stored = true) ∧
      (c.stored = true → Lists W s c.capsuleId [0])
  | .derive _ cap => createErr s = some 0 ∧ Lists W s cap [0]
  | .reduceDerive _ _ cap => createErr s = some 0 ∧ Lists W s cap [0]
  | .reduceAlloc _ _ cap => createErr s = some 0 ∧ Lists W s cap [0]
  | .gather _ _ cap => createErr s = some 0 ∧ W.allocOk = true ∧ Lists W s cap [0]
  | .append _ _ cap all ar rest => createErr s = some 0 ∧ W.allocOk = true ∧ all = W.taskId ∧
      ∃ l, l ++ ar :: rest = (List.finRange (n + 1)).tail ∧
        (∀ j ∈ l, W.appendFault j = none) ∧ Lists W s cap (0 :: l)
  | .bcastAppend agg _ _ cap => createErr s = some 0 ∧ Lists W s cap W.listed ∧
      (agg = 0 → W.listed = List.finRange (n + 1))
  | .done r => (r.err = 0 → createErr s = some 0 ∧ W.listed = List.finRange (n + 1)) ∧
      (createErr s = some 0 → r.stored = true ∧ Lists W s r.tcapId W.listed) ∧
      (createErr s ≠ some 0 → r.stored = true → Lists W s r.tcapId [0]) ∧
      (createErr s).isSome

/-- The invariant of the kernel: what the ranks know at their points, and what they have told
the others. -/
structure MpikInv : Prop where
  lock : ∃ us, Lockstep (mpikWriteTask W) (mpikPlan n) MpikPoint.agreed .barrier us s
  rank : ∀ i, RankOk W s i (s.point i)
  root : RootOk W s (s.point 0)
  derived : ∀ j e, deriveErr s j = some e → 0 ≤ e ∧
    (e = 0 → ∃ cap, capsuleId s = some cap ∧ Derived s.shared (W.taskId j) cap)
  alloc : ∀ j v, allocFlag s j = some v → v = rank0AllocOk W j
  gathered : ∀ j v, gatheredId s j = some v → v = W.taskId j

variable {W s} {s' : MpikState n}

/-- What a rank knows stays true when contributions are added and derivations are kept. -/
theorem RankOk.mono
    (hent : ∀ l k j v, s.entries l k j = some v → s'.entries l k j = some v)
    (hder : ∀ x cap, capsuleId s = some cap → Derived s.shared x cap → Derived s'.shared x cap)
    {i : Fin (n + 1)} {p : MpikPoint n} (h : RankOk W s i p) : RankOk W s' i p := by
  have hcap : ∀ {cap}, capsuleId s = some cap → capsuleId s' = some cap :=
    fun h => hent _ _ _ _ h
  have herr : ∀ {maxErr}, NoDeriveErr s maxErr → NoDeriveErr s' maxErr :=
    fun h hmax j => hent _ _ _ _ (h hmax j)
  cases p with
  | write => trivial
  | barrier werr id => exact h
  | create id => exact h
  | bcastCapsule c id => exact h
  | bcastErr c id => exact ⟨h.1, hcap h.2⟩
  | derive id cap => exact ⟨h.1, hcap h.2⟩
  | reduceDerive err id cap =>
      obtain ⟨hid, hpub, hnonneg, hderived⟩ := h
      exact ⟨hid, hcap hpub, hnonneg, fun h0 => hder _ _ hpub (hderived h0)⟩
  | reduceAlloc maxErr id cap => exact ⟨h.1, hcap h.2.1, herr h.2.2⟩
  | gather maxErr id cap => exact ⟨h.1, hcap h.2.1, herr h.2.2⟩
  | append maxErr id cap all ar rest => exact ⟨h.1, h.2.1, hcap h.2.2.1, herr h.2.2.2⟩
  | bcastAppend agg maxErr id cap => exact ⟨h.1, hcap h.2.1, herr h.2.2⟩
  | done r => exact ⟨h.1, hcap h.2.1, herr h.2.2⟩

/-- What rank 0 knows stays true when contributions are added and capsules are kept. -/
theorem RootOk.mono
    (hent : ∀ l k j v, s.entries l k j = some v → s'.entries l k j = some v)
    (hfile : ∀ cap ids, CapsuleFile s.shared cap ids → CapsuleFile s'.shared cap ids)
    {p : MpikPoint n} (h : RootOk W s p) : RootOk W s' p := by
  have hcreate : ∀ {e}, createErr s = some e → createErr s' = some e :=
    fun h => hent _ _ _ _ h
  have hlists : ∀ {cap l}, Lists W s cap l → Lists W s' cap l :=
    fun h => ⟨h.1, hfile _ _ h.2⟩
  cases p with
  | write => trivial
  | barrier werr id => exact h
  | create id => exact h
  | bcastCapsule c id => exact ⟨h.1, fun hs => hlists (h.2 hs)⟩
  | bcastErr c id => exact ⟨h.1, fun hs => hlists (h.2 hs)⟩
  | derive id cap => exact ⟨hcreate h.1, hlists h.2⟩
  | reduceDerive err id cap => exact ⟨hcreate h.1, hlists h.2⟩
  | reduceAlloc maxErr id cap => exact ⟨hcreate h.1, hlists h.2⟩
  | gather maxErr id cap => exact ⟨hcreate h.1, h.2.1, hlists h.2.2⟩
  | append maxErr id cap all ar rest =>
      obtain ⟨hc, halloc, hall, l, hl, hok, hlist⟩ := h
      exact ⟨hcreate hc, halloc, hall, l, hl, hok, hlists hlist⟩
  | bcastAppend agg maxErr id cap => exact ⟨hcreate h.1, hlists h.2.1, h.2.2⟩
  | done r =>
      obtain ⟨hzero, hcreated, hfailed, hsome⟩ := h
      obtain ⟨e, he⟩ := Option.isSome_iff_exists.mp hsome
      have hsame : createErr s' = createErr s := by rw [hcreate he, he]
      refine ⟨fun h0 => ?_, fun hc => ?_, fun hc hs => ?_, ?_⟩
      · rw [hsame]
        exact hzero h0
      · obtain ⟨hstored, hlist⟩ := hcreated (hsame ▸ hc)
        exact ⟨hstored, hlists hlist⟩
      · exact hlists (hfailed (hsame ▸ hc) hs)
      · rwa [hsame]

/-! ### Where the ranks are -/

/-- The number of collectives in front of a place of the plan. -/
def Agreed.stage : Agreed → Option ℕ
  | .barrier => some 0
  | .capsule => some 1
  | .capErr => some 2
  | .derive => some 3
  | .alloc _ => some 4
  | .gather _ => some 5
  | .append _ => some 6
  | .done _ => none

/-- A way through the plan has passed the collectives in front of its end. -/
theorem length_of_walk {us : List (Σ k, (mpiWorldComm n).View k)} {y : Agreed} {k : ℕ}
    (h : Plan.walk (mpikPlan n) .barrier us = some y) (hy : y.stage = some k) :
    us.length = k := by
  induction us using List.reverseRecOn generalizing y k with
  | nil =>
      cases h
      cases hy
      rfl
  | append_singleton us w ih =>
      rw [Plan.walk_snoc] at h
      obtain ⟨z, hz, hnext⟩ := Option.bind_eq_some_iff.mp h
      have hlen : ∀ {m}, z.stage = some m → m + 1 = k → (us ++ [w]).length = k := by
        intro m hm hk
        rw [List.length_append, ih hz hm]
        exact hk
      cases z with
      | done e => cases hnext
      | barrier | capsule =>
          obtain ⟨v, rfl⟩ := Plan.eq_of_next hnext rfl
          exact hlen rfl (Option.some.inj hy)
      | capErr | derive =>
          obtain ⟨v, rfl⟩ := Plan.eq_of_next hnext rfl
          split at hy
          · exact hlen rfl (Option.some.inj hy)
          · cases hy
      | alloc m =>
          obtain ⟨v, rfl⟩ := Plan.eq_of_next hnext rfl
          split at hy
          · cases hy
          · exact hlen rfl (Option.some.inj hy)
      | gather m =>
          obtain ⟨v, rfl⟩ := Plan.eq_of_next hnext rfl
          exact hlen rfl (Option.some.inj hy)
      | append m =>
          obtain ⟨v, rfl⟩ := Plan.eq_of_next hnext rfl
          cases hy

/-- The number of collectives a rank has left, at its point. -/
theorem MpikInv.level (h : MpikInv W s) {i : Fin (n + 1)} {k : ℕ}
    (hk : (s.point i).agreed.stage = some k) : s.level i = k := by
  obtain ⟨us, hlock⟩ := h.lock
  rw [← length_of_walk (hlock.point i) hk, List.length_take, min_eq_left (hlock.level_le i)]

/-- While a rank writes its record, no rank has left the barrier. -/
theorem MpikInv.level_write (h : MpikInv W s) {i : Fin (n + 1)} (hi : s.point i = .write)
    (j : Fin (n + 1)) : s.level j = 0 := by
  obtain ⟨us, hlock⟩ := h.lock
  have hlevel : s.level i = 0 := h.level (by rw [hi]; rfl)
  have hfree : s.waiting i = false :=
    hlock.not_waiting (m := fun ws => _) (by rw [hi]; rfl)
  by_contra hj
  obtain ⟨r, o, hdel⟩ := hlock.answered (Nat.pos_of_ne_zero hj) (y := .barrier)
    (k := MpiKind.barrier) (by rfl) rfl
  obtain ⟨g, hg, -⟩ := Option.map_eq_some_iff.mp hdel
  have hnone := hlock.entries_eq_none (.inr ⟨hlevel, hfree⟩) MpiKind.barrier
  rw [allOf_eq_some.mp hg i] at hnone
  cases hnone

/-- While a rank writes its record, there is no capsule yet. -/
theorem MpikInv.capsuleId_write (h : MpikInv W s) {i : Fin (n + 1)} (hi : s.point i = .write) :
    capsuleId s = none := by
  obtain ⟨us, hlock⟩ := h.lock
  exact hlock.entries_eq_none (.inl (by rw [h.level_write hi]; decide)) _

/-- While rank 0 creates the capsule, its ID is not known yet. -/
theorem MpikInv.capsuleId_create (h : MpikInv W s) {id : Id20} (h0 : s.point 0 = .create id) :
    capsuleId s = none := by
  obtain ⟨us, hlock⟩ := h.lock
  refine hlock.entries_eq_none (.inr ⟨h.level (by rw [h0]; rfl), ?_⟩) _
  exact hlock.not_waiting (m := fun ws => _) (by rw [h0]; rfl)

/-! ### Steps keep the invariant -/

/-- The invariant of a state in which one rank has moved, without a new contribution. -/
theorem MpikInv.moved (h : MpikInv W s) {i : Fin (n + 1)} {p : MpikPoint n}
    (hent : s'.entered = s.entered) (hpoint : s'.point = Function.update s.point i p)
    (hlock : ∃ us, Lockstep (mpikWriteTask W) (mpikPlan n) MpikPoint.agreed .barrier us s')
    (hder : ∀ x cap, capsuleId s = some cap → Derived s.shared x cap → Derived s'.shared x cap)
    (hrank : RankOk W s' i p) (hroot : i ≠ 0 → RootOk W s' (s.point 0))
    (hroot' : i = 0 → RootOk W s' p) : MpikInv W s' := by
  have hentries : ∀ l k j, s'.entries l k j = s.entries l k j := by
    intro l k j
    rw [Ranks.entries, Ranks.entries, hent]
  have hent : ∀ l k j v, s.entries l k j = some v → s'.entries l k j = some v :=
    fun l k j v hv => (hentries l k j).trans hv
  have hback : ∀ l k j v, s'.entries l k j = some v → s.entries l k j = some v :=
    fun l k j v hv => (hentries l k j).symm.trans hv
  refine ⟨hlock, fun j => ?_, ?_, fun j e hj => ?_, fun j v hj => ?_, fun j v hj => ?_⟩
  · rw [hpoint]
    by_cases hj : j = i
    · rw [hj, Function.update_self]
      exact hrank
    · rw [Function.update_of_ne hj]
      exact (h.rank j).mono hent hder
  · rw [hpoint]
    by_cases hi : i = 0
    · rw [← hi, Function.update_self]
      exact hroot' hi
    · rw [Function.update_of_ne (Ne.symm hi)]
      exact hroot hi
  · obtain ⟨hnonneg, hzero⟩ := h.derived j e (hback _ _ _ _ hj)
    refine ⟨hnonneg, fun h0 => ?_⟩
    obtain ⟨cap, hcap, hderived⟩ := hzero h0
    exact ⟨cap, hent _ _ _ _ hcap, hder _ _ hcap hderived⟩
  · exact h.alloc j v (hback _ _ _ _ hj)
  · exact h.gathered j v (hback _ _ _ _ hj)

/-- A rank that has left no call is in front of the barrier. -/
theorem MpikInv.agreed_of_level (h : MpikInv W s) {i : Fin (n + 1)} (hi : s.level i = 0) :
    (s.point i).agreed = .barrier := by
  obtain ⟨us, hlock⟩ := h.lock
  have hpoint := hlock.point i
  rw [hi] at hpoint
  exact (Option.some.inj hpoint).symm

/-- An append extends the list of the capsule and keeps the derivations, or fails for a reason
outside of the model. -/
theorem append_cases {ws : Workspace} {cap x : Id20} {ids : List Id20}
    (h : CapsuleFile ws cap ids) (hlen : 20 * (ids.length + 1) < 2 ^ 63)
    (fault : Option Err) :
    (∀ y d, Derived ws y d →
      Derived (after (faulty fault (tpbRafRecordAppendTaskCapsule cap x) ws)) y d) ∧
    (fault = none ∧ returned (faulty fault (tpbRafRecordAppendTaskCapsule cap x) ws) = 0 ∧
        CapsuleFile (after (faulty fault (tpbRafRecordAppendTaskCapsule cap x) ws)) cap
          (ids ++ [x]) ∨
      fault ≠ none ∧ returned (faulty fault (tpbRafRecordAppendTaskCapsule cap x) ws) ≠ 0 ∧
        after (faulty fault (tpbRafRecordAppendTaskCapsule cap x) ws) = ws) := by
  cases fault with
  | none =>
      obtain ⟨ws', hok, hfile, hder⟩ := h.append x hlen
      have hrun : faulty none (tpbRafRecordAppendTaskCapsule cap x) ws = .ok () ws' := hok
      rw [hrun]
      exact ⟨hder, .inl ⟨rfl, rfl, hfile⟩⟩
  | some e =>
      exact ⟨fun _ _ h => h, .inr ⟨by simp, (Err.toInt_pos e).ne', rfl⟩⟩

/-- The ranks that are listed when the append of rank `ar` is the first one to fail. -/
theorem MpiWorld.listed_of_fault (W : MpiWorld n) (halloc : W.allocOk = true)
    {l rest : List (Fin (n + 1))} {ar : Fin (n + 1)}
    (hl : l ++ ar :: rest = (List.finRange (n + 1)).tail)
    (hok : ∀ j ∈ l, W.appendFault j = none) (hfault : W.appendFault ar ≠ none) :
    W.listed = 0 :: l := by
  have htake : l.takeWhile (fun j => (W.appendFault j).isNone) = l :=
    List.takeWhile_eq_self_iff.mpr fun j hj => by simp [hok j hj]
  have hstop : (W.appendFault ar).isNone = false := by
    rw [Option.isNone_eq_false_iff, Option.isSome_iff_ne_none]
    exact hfault
  rw [MpiWorld.listed, if_pos halloc, ← hl, List.takeWhile_append, htake, if_pos rfl,
    List.takeWhile_cons, hstop]
  simp

/-- The ranks that are listed when no append fails. -/
theorem MpiWorld.listed_of_ok (W : MpiWorld n) (halloc : W.allocOk = true)
    (hok : ∀ j ∈ (List.finRange (n + 1)).tail, W.appendFault j = none) :
    W.listed = List.finRange (n + 1) := by
  have htake : (List.finRange (n + 1)).tail.takeWhile (fun j => (W.appendFault j).isNone) =
      (List.finRange (n + 1)).tail :=
    List.takeWhile_eq_self_iff.mpr fun j hj => by simp [hok j hj]
  rw [MpiWorld.listed, if_pos halloc, htake, List.finRange_succ]
  rfl

/-- A single rank lists its own task. -/
theorem MpiWorld.listed_of_one (W : MpiWorld n) (hn : n = 0) :
    W.listed = [0] ∧ W.listed = List.finRange (n + 1) := by
  subst hn
  have hlisted : W.listed = [0] := by
    rw [MpiWorld.listed]
    split
    · rfl
    · rfl
  exact ⟨hlisted, hlisted⟩

theorem rankOk_appendLoop {maxErr : ℤ} {id cap : Id20} {all : Fin (n + 1) → Id20}
    {rest : List (Fin (n + 1))} (hid : id = W.taskId 0) (hcap : capsuleId s = some cap)
    (herr : NoDeriveErr s maxErr) : RankOk W s 0 (appendLoop maxErr id cap all rest) := by
  cases rest with
  | nil => exact ⟨hid, hcap, herr⟩
  | cons ar rest => exact ⟨rfl, hid, hcap, herr⟩

theorem rootOk_appendLoop {maxErr : ℤ} {id cap : Id20} {l rest : List (Fin (n + 1))}
    (hcreate : createErr s = some 0) (halloc : W.allocOk = true)
    (hl : l ++ rest = (List.finRange (n + 1)).tail)
    (hok : ∀ j ∈ l, W.appendFault j = none) (hlist : Lists W s cap (0 :: l)) :
    RootOk W s (appendLoop maxErr id cap W.taskId rest) := by
  cases rest with
  | nil =>
      rw [List.append_nil] at hl
      have hlisted : W.listed = List.finRange (n + 1) := W.listed_of_ok halloc (hl ▸ hok)
      have hall : 0 :: l = List.finRange (n + 1) := by
        rw [hl, List.finRange_succ]
        rfl
      refine ⟨hcreate, ?_, fun _ => hlisted⟩
      rwa [hlisted, ← hall]
  | cons ar rest => exact ⟨hcreate, halloc, rfl, l, hl, hok, hlist⟩

/-- The list of a capsule is no longer than the number of ranks, which is an `int`. -/
theorem MpiWorld.append_lt (W : MpiWorld n) {l rest : List (Fin (n + 1))} {ar : Fin (n + 1)}
    (hl : l ++ ar :: rest = (List.finRange (n + 1)).tail) :
    20 * (((0 :: l).map W.taskId).length + 1) < 2 ^ 63 := by
  have hlen := congrArg List.length hl
  have hn := W.nprocs_le
  rw [List.length_append, List.length_cons, List.length_tail, List.length_finRange] at hlen
  rw [List.length_map, List.length_cons]
  rw [intMax] at hn
  omega

/-- A local action keeps the invariant. -/
theorem MpikInv.act (h : MpikInv W s) {i : Fin (n + 1)}
    {m : Workspace → MpikPoint n × Workspace}
    (hcmd : mpikWriteTask W i (s.point i) = .act m) :
    MpikInv W { s with
      shared := (m s.shared).2
      point := Function.update s.point i (m s.shared).1 } := by
  have hlock : ∃ us, Lockstep (mpikWriteTask W) (mpikPlan n) MpikPoint.agreed .barrier us
      { s with shared := (m s.shared).2, point := Function.update s.point i (m s.shared).1 } := by
    obtain ⟨us, hlock⟩ := h.lock
    exact ⟨us, hlock.act (mpikUniform W) hcmd⟩
  have hrank := h.rank i
  have hroot := h.root
  cases hp : s.point i with
  | write =>
      rw [hp] at hcmd
      cases hcmd
      obtain ⟨hid, hwrote⟩ := tpbKWriteTask_spec W i s.shared
      refine h.moved rfl rfl hlock (fun x cap hcap _ => ?_) hid (fun _ => ?_) ?_
      · rw [h.capsuleId_write hp] at hcap
        cases hcap
      · have hagreed := h.agreed_of_level (h.level_write hp 0)
        cases hp0 : s.point 0 with
        | write => trivial
        | barrier werr id => rwa [hp0] at hroot
        | _ =>
            rw [hp0] at hagreed
            cases hagreed
      · rintro rfl
        exact hwrote
  | create id =>
      rw [hp] at hcmd hrank
      cases hcmd
      obtain ⟨rfl, rfl⟩ := hrank
      rw [hp] at hroot
      obtain ⟨hstored, hfile⟩ := tpbKCreateCapsuleTask_spec W.capsule (W.taskId 0) s.shared
      refine h.moved rfl rfl hlock (fun x cap hcap _ => ?_) rfl (fun hne => absurd rfl hne) ?_
      · rw [h.capsuleId_create hp] at hcap
        cases hcap
      · exact fun _ => ⟨hstored, fun hs => ⟨hroot, hfile hs⟩⟩
  | derive id cap =>
      rw [hp] at hcmd hrank
      cases hcmd
      obtain ⟨rfl, hcap⟩ := hrank
      refine h.moved rfl rfl hlock (fun x cap' hcap' hx => ?_) ?_ (fun _ => ?_) ?_
      · rw [hcap] at hcap'
        cases hcap'
        exact hx.faulty _ _
      · exact ⟨rfl, hcap, returned_nonneg _, derived_faulty⟩
      · refine hroot.mono ?_ ?_
        · exact fun _ _ _ _ hv => hv
        · exact fun cap ids hfile => hfile.faulty _ _ _
      · rintro rfl
        rw [hp] at hroot
        exact ⟨hroot.1, hroot.2.1, hroot.2.2.faulty _ _ _⟩
  | append maxErr id cap all ar rest =>
      rw [hp] at hcmd hrank
      cases hcmd
      obtain ⟨rfl, rfl, hcap, herr⟩ := hrank
      rw [hp] at hroot
      obtain ⟨hcreate, halloc, rfl, l, hl, hok, hwrote, hfile⟩ := hroot
      have hlen : 20 * (((0 :: l).map W.taskId).length + 1) < 2 ^ 63 := W.append_lt hl
      obtain ⟨hder, ⟨hfault, hret, hfile'⟩ | ⟨hfault, hret, hsame⟩⟩ :=
        append_cases (x := W.taskId ar) hfile hlen (W.appendFault ar)
      · simp only [hret, if_true] at hlock ⊢
        refine h.moved rfl rfl hlock (fun x cap' _ hx => hder x cap' hx) ?_
          (fun hne => absurd rfl hne) fun _ => ?_
        · exact rankOk_appendLoop rfl hcap herr
        · refine rootOk_appendLoop hcreate halloc (l := l ++ [ar]) (by simpa using hl) ?_ ?_
          · intro j hj
            rcases List.mem_append.mp hj with hj | hj
            · exact hok j hj
            · rw [List.mem_singleton.mp hj]
              exact hfault
          · refine ⟨hwrote, ?_⟩
            simpa using hfile'
      · simp only [if_neg hret, hsame] at hlock ⊢
        refine h.moved rfl rfl hlock (fun _ _ _ hx => hx) ⟨rfl, hcap, herr⟩
          (fun hne => absurd rfl hne) fun _ => ⟨hcreate, ⟨hwrote, ?_⟩, fun h0 => absurd h0 hret⟩
        rw [W.listed_of_fault halloc hl hok hfault]
        exact hfile
  | _ =>
      rw [hp] at hcmd
      cases hcmd

/-- Entering a collective keeps the invariant. -/
theorem MpikInv.enter (h : MpikInv W s) {i : Fin (n + 1)} {k : MpiKind} {v : k.In}
    {g : k.Out n → MpikPoint n}
    (hcmd : mpikWriteTask W i (s.point i) = .coll (C := mpiWorldComm n) k v g)
    (hfree : s.waiting i = false) :
    MpikInv W { s with
      entered := Function.update s.entered i (s.entered i ++ [⟨k, v⟩])
      waiting := Function.update s.waiting i true } := by
  have hent := entries_enter s i (⟨k, v⟩ : Σ k, (mpiWorldComm n).In k)
  have hrank := h.rank i
  refine ⟨?_, fun j => ?_, ?_, fun j e hj => ?_, fun j e hj => ?_, fun j e hj => ?_⟩
  · obtain ⟨us, hlock⟩ := h.lock
    exact ⟨us, hlock.enter hcmd hfree⟩
  · exact (h.rank j).mono hent fun _ _ _ hx => hx
  · exact h.root.mono hent fun _ _ hfile => hfile
  · rcases entries_enter_cases hj with hold | ⟨rfl, hnew⟩
    · obtain ⟨hnonneg, hzero⟩ := h.derived j e hold
      refine ⟨hnonneg, fun h0 => ?_⟩
      obtain ⟨cap, hcap, hderived⟩ := hzero h0
      exact ⟨cap, hent _ _ _ _ hcap, hderived⟩
    · cases hnew
      cases hp : s.point j <;> rw [hp] at hcmd hrank <;> cases hcmd
      obtain ⟨rfl, hcap, hnonneg, hderived⟩ := hrank
      exact ⟨hnonneg, fun h0 => ⟨_, hent _ _ _ _ hcap, hderived h0⟩⟩
  · rcases entries_enter_cases hj with hold | ⟨rfl, hnew⟩
    · exact h.alloc j e hold
    · cases hnew
      cases hp : s.point j <;> rw [hp] at hcmd <;> cases hcmd
      rfl
  · rcases entries_enter_cases hj with hold | ⟨rfl, hnew⟩
    · exact h.gathered j e hold
    · cases hnew
      cases hp : s.point j <;> rw [hp] at hcmd hrank <;> cases hcmd
      exact hrank.1

/-- The reduced error of the derivations. -/
theorem MpikInv.noDeriveErr (h : MpikInv W s) {i : Fin (n + 1)} {m : ℤ}
    (hdel : MpiKind.allreduceMax.deliver i (s.entries 3 MpiKind.allreduceMax) = some m) :
    NoDeriveErr s m := by
  obtain ⟨g, hg, rfl⟩ := Option.map_eq_some_iff.mp hdel
  have hall : ∀ j, deriveErr s j = some (g j) := allOf_eq_some.mp hg
  intro hmax j
  have hle : g j ≤ maxOf g := Finset.le_sup' g (Finset.mem_univ j)
  obtain ⟨hnonneg, -⟩ := h.derived j (g j) (hall j)
  rw [hall j, le_antisymm (hle.trans hmax.le) hnonneg]

/-- The reduced flag says whether rank 0 has got its memory. -/
theorem MpikInv.alloc_iff (h : MpikInv W s) {i : Fin (n + 1)} {ok : ℤ}
    (hdel : MpiKind.allreduceMin.deliver i (s.entries 4 MpiKind.allreduceMin) = some ok) :
    ok = 0 ↔ W.allocOk = false := by
  obtain ⟨g, hg, rfl⟩ := Option.map_eq_some_iff.mp hdel
  have hall : ∀ j, g j = rank0AllocOk W j := fun j => h.alloc j (g j) (allOf_eq_some.mp hg j)
  obtain ⟨j, -, hj⟩ := Finset.exists_mem_eq_inf' ⟨0, Finset.mem_univ (0 : Fin (n + 1))⟩ g
  have hle : minOf g ≤ g 0 := Finset.inf'_le g (Finset.mem_univ 0)
  have hmin : minOf g = g j := hj
  rw [hall, rank0AllocOk] at hle hmin
  constructor
  · intro h0
    by_contra halloc
    simp [h0, halloc] at hmin
  · intro halloc
    simp only [halloc, and_true, if_true] at hle hmin
    split at hmin
    · exact hmin
    · omega

/-- The IDs rank 0 gathers. -/
theorem MpikInv.gathered_eq (h : MpikInv W s) {all : Fin (n + 1) → Id20}
    (hdel : MpiKind.gatherId.deliver 0 (s.entries 5 MpiKind.gatherId) = some (some all)) :
    all = W.taskId := by
  obtain ⟨g, hg, hgall⟩ := Option.map_eq_some_iff.mp hdel
  cases hgall
  funext j
  exact h.gathered j (all j) (allOf_eq_some.mp hg j)

/-- The invariant of a state in which one rank has left its call. -/
theorem MpikInv.left (h : MpikInv W s) {i : Fin (n + 1)} {p : MpikPoint n}
    (hlock : ∃ us, Lockstep (mpikWriteTask W) (mpikPlan n) MpikPoint.agreed .barrier us
      (s.left i p)) (hrank : RankOk W s i p) (hroot : i = 0 → RootOk W s p) :
    MpikInv W (s.left i p) := by
  refine h.moved rfl rfl hlock (fun _ _ _ hx => hx) ?_ (fun _ => ?_) fun hi => ?_
  · exact hrank.mono (fun _ _ _ _ hv => hv) fun _ _ _ hx => hx
  · exact h.root.mono (fun _ _ _ _ hv => hv) fun _ _ hfile => hfile
  · exact (hroot hi).mono (fun _ _ _ _ hv => hv) fun _ _ hfile => hfile

theorem mallocFail_ne : mallocFail ≠ 0 := (Err.toInt_pos _).ne'

/-- The final error is success when the appends and the derivations were. -/
theorem zero_of_final {agg maxErr : ℤ} (h : (if agg ≠ 0 then agg else maxErr) = 0) :
    agg = 0 ∧ maxErr = 0 := by
  split at h
  · rename_i hne
    exact absurd h hne
  · rename_i hagg
    exact ⟨not_not.mp hagg, h⟩

/-- What a rank knows when it has left a collective. -/
theorem MpikInv.rankOk_leave (h : MpikInv W s) {i : Fin (n + 1)} {k : MpiKind} {v : k.In}
    {g : k.Out n → MpikPoint n} {o : k.Out n}
    (hcmd : mpikWriteTask W i (s.point i) = .coll (C := mpiWorldComm n) k v g)
    (hdel : k.deliver i (s.entries (s.level i) k) = some o) : RankOk W s i (g o) := by
  have hrank := h.rank i
  cases hp : s.point i <;> rw [hp] at hcmd hrank <;> cases hcmd
  case barrier werr id =>
    simp only
    split
    · rename_i hi
      split
      · exact ⟨hi, hrank⟩
      · exact hrank
    · exact hrank
  case bcastCapsule c id =>
    rw [h.level (by rw [hp]; rfl)] at hdel
    exact ⟨hrank, hdel⟩
  case bcastErr c id =>
    simp only
    split
    · exact hrank
    · rename_i hne
      exact ⟨hrank.1, hrank.2, fun h0 => absurd h0 hne⟩
  case reduceDerive err id cap =>
    rw [h.level (by rw [hp]; rfl)] at hdel
    have herr := h.noDeriveErr hdel
    simp only
    split
    · exact ⟨hrank.1, hrank.2.1, herr⟩
    · exact ⟨hrank.1, hrank.2.1, herr⟩
  case reduceAlloc maxErr id cap =>
    simp only
    split
    · exact ⟨hrank.1, hrank.2.1, fun h0 => absurd h0 mallocFail_ne⟩
    · exact hrank
  case gather maxErr id cap =>
    cases o with
    | none => exact hrank
    | some all =>
        by_cases hi : i = 0
        · subst hi
          exact rankOk_appendLoop hrank.1 hrank.2.1 hrank.2.2
        · simp only [MpiKind.deliver, if_neg hi] at hdel
          cases hdel
  case bcastAppend agg maxErr id cap =>
    exact ⟨hrank.1, hrank.2.1, fun h0 => hrank.2.2 (zero_of_final h0).2⟩

/-- What rank 0 knows about the capsule when it has left a collective. -/
theorem MpikInv.rootOk_leave (h : MpikInv W s) {k : MpiKind} {v : k.In}
    {g : k.Out n → MpikPoint n} {o : k.Out n}
    (hcmd : mpikWriteTask W 0 (s.point 0) = .coll (C := mpiWorldComm n) k v g)
    (hself : s.entries (s.level 0) k 0 = some v)
    (hdel : k.deliver 0 (s.entries (s.level 0) k) = some o) : RootOk W s (g o) := by
  have hroot := h.root
  cases hp : s.point 0 <;> rw [hp] at hcmd hroot <;> cases hcmd
  case barrier werr id =>
    simp only [if_true]
    split
    · rename_i h0
      exact hroot h0
    · rename_i hne
      exact ⟨fun h0 => absurd h0 hne, fun hs => by cases hs⟩
  case bcastCapsule c id =>
    have hsame : o = c.capsuleId := Option.some.inj (hdel.symm.trans hself)
    exact hsame ▸ hroot
  case bcastErr c id =>
    have hsame : o = c.err := Option.some.inj (hdel.symm.trans hself)
    rw [h.level (by rw [hp]; rfl)] at hself
    have hcreate : createErr s = some c.err := hself
    obtain ⟨hzero, hstored⟩ := hroot
    subst hsame
    simp only
    split
    · rename_i h0
      exact ⟨hcreate.trans (congrArg some h0), hstored (hzero h0)⟩
    · rename_i hne
      have hne' : createErr s ≠ some 0 := by simpa [hcreate] using hne
      exact ⟨fun h0 => absurd h0 hne, fun hc => absurd hc hne', fun _ => hstored, by simp [hcreate]⟩
  case reduceDerive err id cap =>
    obtain ⟨hcreate, hlist⟩ := hroot
    simp only
    split
    · exact ⟨hcreate, hlist⟩
    · rename_i hn
      have hlisted := W.listed_of_one (by omega)
      refine ⟨fun _ => ⟨hcreate, hlisted.2⟩, fun _ => ⟨by simp, ?_⟩,
        fun hne => absurd hcreate hne, by simp [hcreate]⟩
      rw [hlisted.1]
      exact hlist
  case reduceAlloc maxErr id cap =>
    rw [h.level (by rw [hp]; rfl)] at hdel
    have halloc := h.alloc_iff hdel
    obtain ⟨hcreate, hlist⟩ := hroot
    simp only
    split
    · rename_i h0
      refine ⟨fun h0 => absurd h0 mallocFail_ne, fun _ => ⟨by simp, ?_⟩,
        fun hne => absurd hcreate hne, by simp [hcreate]⟩
      rw [MpiWorld.listed, halloc.mp h0]
      exact hlist
    · rename_i hne
      exact ⟨hcreate, by simpa [halloc] using hne, hlist⟩
  case gather maxErr id cap =>
    rw [h.level (by rw [hp]; rfl)] at hdel
    obtain ⟨hcreate, halloc, hlist⟩ := hroot
    cases o with
    | none => 
        obtain ⟨g, -, hg⟩ := Option.map_eq_some_iff.mp hdel
        cases hg
    | some all =>
        rw [h.gathered_eq hdel]
        exact rootOk_appendLoop hcreate halloc (l := []) rfl (by simp) hlist
  case bcastAppend agg maxErr id cap =>
    have hsame : o = agg := Option.some.inj (hdel.symm.trans hself)
    subst hsame
    obtain ⟨hcreate, hlist, hagg⟩ := hroot
    exact ⟨fun h0 => ⟨hcreate, hagg (zero_of_final h0).1⟩, fun _ => ⟨by simp, hlist⟩,
      fun hne => absurd hcreate hne, by simp [hcreate]⟩

/-- Every step keeps the invariant. -/
theorem MpikInv.step (h : MpikInv W s) {i : Fin (n + 1)}
    (hstep : SpmdStep (mpikWriteTask W) s i s') : MpikInv W s' := by
  cases hstep with
  | act hcmd => exact h.act hcmd
  | enter hcmd hfree => exact h.enter hcmd hfree
  | leave hcmd hwait hdel =>
      obtain ⟨us, hlock⟩ := h.lock
      refine h.left (hlock.leave (mpikUniform W) hcmd hwait hdel) (h.rankOk_leave hcmd hdel) ?_
      rintro rfl
      exact h.rootOk_leave hcmd (hlock.entries_self hwait hcmd) hdel

/-- The invariant holds in every state of every run. -/
theorem MpikInv.of_run {ws : Workspace} {t : List (Fin (n + 1))}
    (hrun : Run (SpmdStep (mpikWriteTask W)) (Ranks.start ws .write) t s) : MpikInv W s := by
  refine Run.invariant (P := fun _ s => MpikInv W s) ?_ (fun t s i s' ih => ih.step) hrun
  refine ⟨⟨[], lockstep_start rfl⟩, fun _ => trivial, trivial, ?_, ?_, ?_⟩
  · intro j e h
    cases h
  · intro j v h
    cases h
  · intro j v h
    cases h

end Invariant

end TPBench
