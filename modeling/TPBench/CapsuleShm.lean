import TPBench.Conc.Runs
import TPBench.Task.ExportData

/-!
# Publishing a Capsule in Shared Memory

The leader of a run creates a capsule and publishes its ID in a named object of shared memory
(`tpb_k_create_capsule_task`), and the other units of the run wait for it there
(`tpb_k_sync_capsule_task`). The name has the first 8 hex digits of the kernel ID and the
handle index, so two runs of one kernel with the same handle index share it, and an object
stays until somebody unlinks its name.

The leader unlinks the name before it creates the object, but a follower does not wait for
that: it takes the object it finds. And the leader creates the object without `O_EXCL`, so it
may get the object another leader has created since its unlink.

`ShmStep` has every call on the name space as one step, for any number of runs with one leader
and any number of followers each. Followers of different runs get mixed up exactly through the
objects they open, so the invariant (`ShmInv`) is stated over a relation that bounds whose
objects a run opens. Two relations are of interest:

* equality, which gives `shm_sync_own_capsule`: when a run opens its own objects only, every
  sync that succeeds returns the capsule of its own leader;
* equality of names, which needs no condition (`shm_sync_same_name`): a sync that succeeds
  returns the capsule of a leader with the same name.
-/

open CFile Conc

namespace TPBench

/-! ### The name -/

/-- The text of `_sf_capsule_shm_build_name`. -/
def capsuleShmText (kernelId : Id20) (handleIndex : UInt32) : Bytes :=
  ascii "/tpbshm_".toList ++ (hexBytes kernelId.toList).take 8 ++ ascii ['_'] ++
    formatD handleIndex.toNat ++ ascii "_capsule".toList

/-- `_sf_capsule_shm_build_name`, which fails when the buffer is too small. -/
def sfCapsuleShmBuildName (kernelId : Id20) (handleIndex : UInt32) (outlen : ℕ) :
    Option Bytes :=
  if outlen ≤ (capsuleShmText kernelId handleIndex).length then none
  else some (capsuleShmText kernelId handleIndex)

/-- The buffer of 96 bytes is large enough for every name. -/
theorem sfCapsuleShmBuildName_eq (kernelId : Id20) (handleIndex : UInt32) :
    sfCapsuleShmBuildName kernelId handleIndex 96 =
      some (capsuleShmText kernelId handleIndex) := by
  have hdigits : (formatD handleIndex.toNat).length ≤ 10 := by
    have hlt := handleIndex.toNat_lt
    rw [formatD, ascii, List.length_map]
    exact (Nat.length_toDigits_le_iff (by omega) (by omega)).mpr (by omega)
  have hlen : (capsuleShmText kernelId handleIndex).length ≤ 35 := by
    simp only [capsuleShmText, ascii, List.length_append, List.length_map, List.length_take,
      String.length_toList]
    change 8 + min 8 _ + 1 + _ + 8 ≤ 35
    omega
  rw [sfCapsuleShmBuildName, if_neg (by omega)]

/-! ### The name space -/

section Shm

variable {ι : Type}

/-- An object of shared memory: the ready flag and the ID, and the run whose leader created
it, which the object does not hold. -/
structure ShmObject (ι : Type) where
  ready : Bool
  id : Id20
  creator : ι

/-- The name space, and the objects in the order of their creation. An object stays when its
name is unlinked. -/
structure Shm (ι : Type) where
  names : Bytes → Option ℕ
  objects : List (ShmObject ι)

/-- `shm_unlink`. -/
def shmUnlink (name : Bytes) (m : Shm ι) : Shm ι :=
  { m with names := Function.update m.names name none }

/-- `shm_open` with `O_CREAT` and without `O_EXCL`, by the leader of `r`, and the size and the
mapping: the object that has the name, or a new one. -/
def shmCreate (r : ι) (name : Bytes) (m : Shm ι) : ℕ × Shm ι :=
  match m.names name with
  | some o => (o, m)
  | none => (m.objects.length,
      { names := Function.update m.names name (some m.objects.length)
        objects := m.objects ++ [⟨false, zeroArr 20, r⟩] })

/-- The writes to a mapped object: the ID, and then the ready flag. -/
def shmPublish (o : ℕ) (id : Id20) (m : Shm ι) : Shm ι :=
  { m with objects := m.objects.modify o fun x => { x with ready := true, id } }

end Shm

/-! ### The runs -/

section Runs

variable {ι κ : Type}

/-- The runs: the kernel, the handle and the capsule of each. -/
structure ShmRuns (ι : Type) where
  kernelId : ι → Id20
  handleIndex : ι → UInt32
  capsuleId : ι → Id20

/-- The name of a run, which `_sf_capsule_shm_build_name` builds. -/
def ShmRuns.name (c : ShmRuns ι) (r : ι) : Bytes :=
  capsuleShmText (c.kernelId r) (c.handleIndex r)

/-- Where a leader is in `tpb_k_create_capsule_task`, behind the record of the capsule. -/
inductive LeaderPoint
  | unlink
  | create
  | publish (o : ℕ)
  | success
  | failed
  deriving DecidableEq

/-- Where a follower is in `tpb_k_sync_capsule_task`. -/
inductive FollowerPoint
  | shmOpen
  | wait (o : ℕ)
  | success (id : Id20)
  | failed
  deriving DecidableEq

/-- The state of all runs. -/
structure ShmState (ι κ : Type) where
  shm : Shm ι
  leader : ι → LeaderPoint
  follower : ι → κ → FollowerPoint

/-- Nothing is in shared memory, and nobody has begun. -/
def ShmState.start : ShmState ι κ :=
  ⟨⟨fun _ => none, []⟩, fun _ => .unlink, fun _ _ => .shmOpen⟩

/-- Who takes a step: the leader of a run, one of its followers, or a unit that calls
`tpb_k_unlink_capsule_sync_shm`. -/
inductive ShmActor (ι κ : Type)
  | leader (r : ι)
  | follower (r : ι) (j : κ)
  | cleanup (r : ι)

section Steps

variable [DecidableEq ι] [DecidableEq κ]

/-- A follower has moved to `p`. -/
def ShmState.follow (s : ShmState ι κ) (r : ι) (j : κ) (p : FollowerPoint) : ShmState ι κ :=
  { s with follower := Function.update s.follower r (Function.update (s.follower r) j p) }

/-- A leader has moved to `p`, with the shared memory `m`. -/
def ShmState.lead (s : ShmState ι κ) (r : ι) (m : Shm ι) (p : LeaderPoint) : ShmState ι κ :=
  { s with shm := m, leader := Function.update s.leader r p }

/-- One step of one actor. A call of a leader or a follower can fail at any point, and a leader
that fails with its object open unlinks the name again. -/
inductive ShmStep (c : ShmRuns ι) : ShmState ι κ → ShmActor ι κ → ShmState ι κ → Prop
  | unlink {s : ShmState ι κ} {r : ι} : s.leader r = .unlink →
      ShmStep c s (.leader r) (s.lead r (shmUnlink (c.name r) s.shm) .create)
  | create {s : ShmState ι κ} {r : ι} : s.leader r = .create →
      ShmStep c s (.leader r) (s.lead r (shmCreate r (c.name r) s.shm).2
        (.publish (shmCreate r (c.name r) s.shm).1))
  | publish {s : ShmState ι κ} {r : ι} {o : ℕ} : s.leader r = .publish o →
      ShmStep c s (.leader r) (s.lead r (shmPublish o (c.capsuleId r) s.shm) .success)
  | leaderFails {s : ShmState ι κ} {r : ι} : s.leader r = .unlink ∨ s.leader r = .create →
      ShmStep c s (.leader r) (s.lead r s.shm .failed)
  | abort {s : ShmState ι κ} {r : ι} {o : ℕ} : s.leader r = .publish o →
      ShmStep c s (.leader r) (s.lead r (shmUnlink (c.name r) s.shm) .failed)
  | noEntry {s : ShmState ι κ} {r : ι} {j : κ} : s.follower r j = .shmOpen →
      s.shm.names (c.name r) = none → ShmStep c s (.follower r j) s
  | opens {s : ShmState ι κ} {r : ι} {j : κ} {o : ℕ} : s.follower r j = .shmOpen →
      s.shm.names (c.name r) = some o →
      ShmStep c s (.follower r j) (s.follow r j (.wait o))
  | notReady {s : ShmState ι κ} {r : ι} {j : κ} {o : ℕ} {x : ShmObject ι} :
      s.follower r j = .wait o → s.shm.objects[o]? = some x → x.ready = false →
      ShmStep c s (.follower r j) s
  | reads {s : ShmState ι κ} {r : ι} {j : κ} {o : ℕ} {x : ShmObject ι} :
      s.follower r j = .wait o → s.shm.objects[o]? = some x → x.ready = true →
      ShmStep c s (.follower r j) (s.follow r j (.success x.id))
  | followerFails {s : ShmState ι κ} {r : ι} {j : κ} :
      s.follower r j = .shmOpen ∨ (∃ o, s.follower r j = .wait o) →
      ShmStep c s (.follower r j) (s.follow r j .failed)
  | cleanup {s : ShmState ι κ} {r : ι} :
      ShmStep c s (.cleanup r) { s with shm := shmUnlink (c.name r) s.shm }

end Steps

/-! ### Whose objects a run opens -/

/-- The run whose leader created an object. -/
def Shm.creator (m : Shm ι) (o : ℕ) : Option ι := m.objects[o]?.map ShmObject.creator

/-- The object a run would open was created by a related run. -/
def FindsWithin (c : ShmRuns ι) (R : ι → ι → Prop) (s : ShmState ι κ) (r : ι) : Prop :=
  ∀ o q, s.shm.names (c.name r) = some o → s.shm.creator o = some q → R q r

/-- In this step, a leader or a follower that opens its name finds an object of a related
run there, or none. -/
def OpensWithin (c : ShmRuns ι) (R : ι → ι → Prop) (s : ShmState ι κ) : ShmActor ι κ → Prop
  | .leader r => s.leader r = .create → FindsWithin c R s r
  | .follower r j => s.follower r j = .shmOpen → FindsWithin c R s r
  | .cleanup _ => True

/-- What holds when runs open objects of related runs only: the open objects are from related
runs, and an object that is ready has the capsule of a leader that is related to its
creator. -/
structure ShmInv (c : ShmRuns ι) (R : ι → ι → Prop) (s : ShmState ι κ) : Prop where
  named : ∀ name o, s.shm.names name = some o → (s.shm.creator o).isSome
  opened : ∀ r o, s.leader r = .publish o → ∃ q, s.shm.creator o = some q ∧ R q r
  ready : ∀ x ∈ s.shm.objects, x.ready = true →
    ∃ q, R x.creator q ∧ s.leader q = .success ∧ x.id = c.capsuleId q
  waits : ∀ r j o, s.follower r j = .wait o → ∃ q, s.shm.creator o = some q ∧ R q r
  synced : ∀ r j id, s.follower r j = .success id →
    ∃ p q, R p q ∧ R p r ∧ s.leader q = .success ∧ id = c.capsuleId q

variable {c : ShmRuns ι} {R : ι → ι → Prop} {s s' : ShmState ι κ} {r : ι} {m : Shm ι}

/-- Unlinking a name removes it from the name space. -/
theorem named_shmUnlink {name : Bytes}
    (h : ∀ n o, m.names n = some o → (m.creator o).isSome) :
    ∀ n o, (shmUnlink name m).names n = some o → ((shmUnlink name m).creator o).isSome := by
  intro n o hn
  by_cases heq : n = name
  · simp [shmUnlink, heq] at hn
  · simp only [shmUnlink, Function.update_of_ne heq] at hn
    exact h n o hn

/-- A new object is behind the others, and has its creator. -/
theorem creator_append (objects : List (ShmObject ι)) (names : Bytes → Option ℕ) (o : ℕ)
    (x : ShmObject ι) : Shm.creator ⟨names, objects ++ [x]⟩ o =
      if o = objects.length then some x.creator else Shm.creator ⟨names, objects⟩ o := by
  rw [Shm.creator, Shm.creator]
  rcases lt_trichotomy o objects.length with hlt | rfl | hgt
  · rw [List.getElem?_append_left hlt, if_neg hlt.ne]
  · simp
  · rw [if_neg hgt.ne', List.getElem?_eq_none (by simp; omega), List.getElem?_eq_none hgt.le]

theorem shmInv_start : ShmInv c R (ShmState.start : ShmState ι κ) where
  named _ _ h := by cases h
  opened _ _ h := by cases h
  ready _ h := by cases h
  waits _ _ _ h := by cases h
  synced _ _ _ h := by cases h

/-- A name leads to an object that a run of this name has created. -/
def NamesWell (c : ShmRuns ι) (s : ShmState ι κ) : Prop :=
  ∀ name o q, s.shm.names name = some o → s.shm.creator o = some q → c.name q = name

theorem namesWell_start : NamesWell c (ShmState.start : ShmState ι κ) := by
  intro _ _ _ h
  cases h

/-- A publication keeps the creators. -/
theorem creator_shmPublish (o : ℕ) (id : Id20) (m : Shm ι) (o' : ℕ) :
    (shmPublish o id m).creator o' = m.creator o' := by
  rw [Shm.creator, Shm.creator, shmPublish]
  cases hx : m.objects[o']? with
  | none => rw [List.getElem?_modify, hx]; rfl
  | some x =>
      by_cases heq : o = o'
      · simp [heq, hx]
      · simp [heq, hx]

section Leader

variable [DecidableEq ι]

/-- A leader that has succeeded stays where it is. -/
theorem leader_lead {q : ι} {p : LeaderPoint} (hr : s.leader r ≠ .success)
    (hq : s.leader q = .success) : (s.lead r m p).leader q = .success := by
  have hne : q ≠ r := fun heq => hr (heq ▸ hq)
  simp [ShmState.lead, Function.update_of_ne hne, hq]

/-- A step of a leader keeps the invariant when it keeps the objects of the others. -/
theorem ShmInv.lead (h : ShmInv c R s) {p : LeaderPoint} (hleader : s.leader r ≠ .success)
    (hnamed : ∀ name o, m.names name = some o → (m.creator o).isSome)
    (hcreator : ∀ o q, s.shm.creator o = some q → m.creator o = some q)
    (hready : ∀ x ∈ m.objects, x.ready = true →
      ∃ q, R x.creator q ∧ (s.lead r m p).leader q = .success ∧ x.id = c.capsuleId q)
    (hp : ∀ o, p = .publish o → ∃ q, m.creator o = some q ∧ R q r) :
    ShmInv c R (s.lead r m p) := by
  refine ⟨hnamed, fun q o hq => ?_, hready, fun q j o hq => ?_, fun q j id hq => ?_⟩
  · by_cases hqr : q = r
    · subst hqr
      simp only [ShmState.lead, Function.update_self] at hq
      exact hp o hq
    · simp only [ShmState.lead, Function.update_of_ne hqr] at hq
      obtain ⟨p, hcr, hR⟩ := h.opened q o hq
      exact ⟨p, hcreator o p hcr, hR⟩
  · obtain ⟨p, hcr, hR⟩ := h.waits q j o hq
    exact ⟨p, hcreator o p hcr, hR⟩
  · obtain ⟨p, q', hpq, hpr, hlead, hid⟩ := h.synced q j id hq
    exact ⟨p, q', hpq, hpr, leader_lead hleader hlead, hid⟩

/-- The creation of an object keeps the invariant when the object that is there, if any, is of a
related run. -/
theorem ShmInv.create (hR : ∀ r, R r r) (h : ShmInv c R s) (hr : s.leader r = .create)
    (hfinds : FindsWithin c R s r) :
    ShmInv c R (s.lead r (shmCreate r (c.name r) s.shm).2
      (.publish (shmCreate r (c.name r) s.shm).1)) := by
  have hne : s.leader r ≠ .success := by rw [hr]; exact LeaderPoint.noConfusion
  cases hname : s.shm.names (c.name r) with
  | some o =>
      simp only [shmCreate, hname]
      refine h.lead hne h.named (fun _ _ hq => hq) (fun x hx hready => ?_) ?_
      · obtain ⟨q, hRq, hlead, hid⟩ := h.ready x hx hready
        exact ⟨q, hRq, leader_lead hne hlead, hid⟩
      · rintro o' ⟨⟩
        obtain ⟨q, hq⟩ := Option.isSome_iff_exists.mp (h.named _ _ hname)
        exact ⟨q, hq, hfinds o q hname hq⟩
  | none =>
      simp only [shmCreate, hname]
      refine h.lead hne ?_ ?_ ?_ ?_
      · intro name o ho
        rw [creator_append]
        split
        · rfl
        · rename_i hlen
          by_cases heq : name = c.name r
          · simp [heq, Ne.symm hlen] at ho
          · simp only [Function.update_of_ne heq] at ho
            exact h.named name o ho
      · intro o q hq
        have hlt : o ≠ s.shm.objects.length := by
          rintro rfl
          simp [Shm.creator] at hq
        rw [creator_append, if_neg hlt]
        exact hq
      · intro x hx hready
        rcases List.mem_append.mp hx with hx | hx
        · obtain ⟨q, hRq, hlead, hid⟩ := h.ready x hx hready
          exact ⟨q, hRq, leader_lead hne hlead, hid⟩
        · rw [List.mem_singleton.mp hx] at hready
          cases hready
      · rintro o ⟨⟩
        exact ⟨r, by rw [creator_append, if_pos rfl], hR r⟩

/-- The publication of a capsule keeps the invariant. -/
theorem ShmInv.publish (h : ShmInv c R s) {o : ℕ} (hr : s.leader r = .publish o) :
    ShmInv c R (s.lead r (shmPublish o (c.capsuleId r) s.shm) .success) := by
  have hne : s.leader r ≠ .success := by rw [hr]; exact LeaderPoint.noConfusion
  obtain ⟨p, hp, hRp⟩ := h.opened r o hr
  have hcreator : ∀ o' q, s.shm.creator o' = some q →
      (shmPublish o (c.capsuleId r) s.shm).creator o' = some q :=
    fun o' q hq => (creator_shmPublish o _ s.shm o').trans hq
  refine h.lead hne (fun name o' hname => ?_) hcreator (fun x hx hready => ?_)
    (fun _ heq => by cases heq)
  · obtain ⟨q, hq⟩ := Option.isSome_iff_exists.mp (h.named name o' hname)
    rw [hcreator o' q hq]
    rfl
  · obtain ⟨o', ho'⟩ := List.mem_iff_getElem?.mp hx
    simp only [shmPublish, List.getElem?_modify] at ho'
    obtain ⟨y, hy, hyx⟩ := Option.map_eq_some_iff.mp ho'
    by_cases heq : o = o'
    · subst heq
      rw [Shm.creator, hy] at hp
      cases hp
      rw [if_pos rfl] at hyx
      subst hyx
      exact ⟨r, hRp, by simp [ShmState.lead], rfl⟩
    · rw [if_neg heq] at hyx
      subst hyx
      obtain ⟨q, hRq, hlead, hid⟩ := h.ready y (List.mem_of_getElem? hy) hready
      exact ⟨q, hRq, leader_lead hne hlead, hid⟩

/-- A leader that leaves the objects alone keeps the invariant. -/
theorem ShmInv.leadOn (h : ShmInv c R s) {p : LeaderPoint} (hne : s.leader r ≠ .success)
    (hnamed : ∀ name o, m.names name = some o → (m.creator o).isSome)
    (hobj : m.objects = s.shm.objects) (hp : ∀ o, p ≠ .publish o) :
    ShmInv c R (s.lead r m p) := by
  refine h.lead hne hnamed (fun o q hq => ?_) (fun x hx hready => ?_)
    (fun o heq => absurd heq (hp o))
  · rw [Shm.creator, hobj]
    exact hq
  · rw [hobj] at hx
    obtain ⟨q, hRq, hlead, hid⟩ := h.ready x hx hready
    exact ⟨q, hRq, leader_lead hne hlead, hid⟩

end Leader

section Step

variable [DecidableEq ι] [DecidableEq κ]

/-- A step of a follower keeps the invariant. -/
theorem ShmInv.follow (h : ShmInv c R s) {j : κ} {p : FollowerPoint}
    (hwait : ∀ o, p = .wait o → ∃ q, s.shm.creator o = some q ∧ R q r)
    (hsync : ∀ id, p = .success id →
      ∃ p q, R p q ∧ R p r ∧ s.leader q = .success ∧ id = c.capsuleId q) :
    ShmInv c R (s.follow r j p) := by
  have hother : ∀ r' j', (r', j') ≠ (r, j) →
      (s.follow r j p).follower r' j' = s.follower r' j' := by
    intro r' j' hne
    by_cases hr : r' = r
    · subst hr
      have hj : j' ≠ j := fun heq => hne (by rw [heq])
      simp [ShmState.follow, Function.update_of_ne hj]
    · simp [ShmState.follow, Function.update_of_ne hr]
  have hself : (s.follow r j p).follower r j = p := by simp [ShmState.follow]
  refine ⟨h.named, h.opened, h.ready, fun r' j' o hr' => ?_, fun r' j' id hr' => ?_⟩
  · by_cases heq : (r', j') = (r, j)
    · cases heq
      rw [hself] at hr'
      exact hwait o hr'
    · rw [hother r' j' heq] at hr'
      exact h.waits r' j' o hr'
  · by_cases heq : (r', j') = (r, j)
    · cases heq
      rw [hself] at hr'
      exact hsync id hr'
    · rw [hother r' j' heq] at hr'
      exact h.synced r' j' id hr'

/-- Every step in which a run opens objects of related runs only keeps the invariant. -/
theorem ShmInv.step (hR : ∀ r, R r r) (h : ShmInv c R s) {a : ShmActor ι κ}
    (hstep : ShmStep c s a s') (hopens : OpensWithin c R s a) : ShmInv c R s' := by
  cases hstep with
  | unlink hr =>
      exact h.leadOn (by rw [hr]; exact LeaderPoint.noConfusion) (named_shmUnlink h.named) rfl
        (fun _ => LeaderPoint.noConfusion)
  | create hr => exact h.create hR hr (hopens hr)
  | publish hr => exact h.publish hr
  | leaderFails hr =>
      refine h.leadOn ?_ h.named rfl (fun _ => LeaderPoint.noConfusion)
      rcases hr with hr | hr <;> rw [hr] <;> exact LeaderPoint.noConfusion
  | abort hr =>
      exact h.leadOn (by rw [hr]; exact LeaderPoint.noConfusion) (named_shmUnlink h.named) rfl
        (fun _ => LeaderPoint.noConfusion)
  | noEntry hj hnone => exact h
  | opens hj hsome =>
      refine h.follow (fun o heq => ?_) (fun id heq => by cases heq)
      cases heq
      obtain ⟨q, hq⟩ := Option.isSome_iff_exists.mp (h.named _ _ hsome)
      exact ⟨q, hq, hopens hj _ q hsome hq⟩
  | notReady hj hx hready => exact h
  | @reads r j o x hj hx hready =>
      refine h.follow (fun o heq => by cases heq) (fun id heq => ?_)
      cases heq
      obtain ⟨q, hRq, hlead, hid⟩ := h.ready x (List.mem_of_getElem? hx) hready
      obtain ⟨p, hp, hRp⟩ := h.waits r j o hj
      rw [Shm.creator, hx] at hp
      cases hp
      exact ⟨x.creator, q, hRq, hRp, hlead, hid⟩
  | followerFails hj =>
      exact h.follow (fun o heq => by cases heq) (fun id heq => by cases heq)
  | cleanup => exact ⟨named_shmUnlink h.named, h.opened, h.ready, h.waits, h.synced⟩

/-- The invariant holds along every run in which runs open objects of related runs only. -/
theorem ShmInv.of_run (hR : ∀ r, R r r) {t : List (ShmActor ι κ)}
    (hrun : Run (fun s a s' => ShmStep c s a s' ∧ OpensWithin c R s a) ShmState.start t s) :
    ShmInv c R s := by
  refine Run.invariant (P := fun _ s => ShmInv c R s) shmInv_start ?_ hrun
  rintro t s a s' h ⟨hstep, hopens⟩
  exact h.step hR hstep hopens

/-! ### The results -/

/-- **A sync returns the capsule of its own run.** In every run of any number of leaders and
followers in which a leader or follower that opens its name finds no object there, or one that
the leader of its own run has created: a sync that succeeds returns the capsule of the leader
of its run, which has succeeded before. -/
theorem shm_sync_own_capsule {t : List (ShmActor ι κ)}
    (hrun : Run (fun s a s' => ShmStep c s a s' ∧ OpensWithin c Eq s a) ShmState.start t s)
    {j : κ} {id : Id20} (hsync : s.follower r j = .success id) :
    id = c.capsuleId r ∧ s.leader r = .success := by
  obtain ⟨p, q, rfl, rfl, hlead, hid⟩ :=
    (ShmInv.of_run (fun _ => rfl) hrun).synced r j id hsync
  exact ⟨hid, hlead⟩

/-- Every step keeps the names right: a new object gets the name of its creator. -/
theorem NamesWell.step (h : NamesWell c s) {a : ShmActor ι κ} (hstep : ShmStep c s a s')
    (hnamed : ∀ name o, s.shm.names name = some o → (s.shm.creator o).isSome) :
    NamesWell c s' := by
  have hunlink : ∀ n name o q, (shmUnlink n s.shm).names name = some o →
      (shmUnlink n s.shm).creator o = some q → c.name q = name := by
    intro n name o q hname hq
    by_cases heq : name = n
    · simp [shmUnlink, heq] at hname
    · simp only [shmUnlink, Function.update_of_ne heq] at hname
      exact h name o q hname hq
  cases hstep with
  | unlink hr => exact hunlink _
  | abort hr => exact hunlink _
  | cleanup => exact hunlink _
  | leaderFails hr => exact h
  | noEntry hj hnone => exact h
  | opens hj hsome => exact h
  | notReady hj hx hready => exact h
  | reads hj hx hready => exact h
  | followerFails hj => exact h
  | @publish r o hr =>
      intro name o' q hname hq
      refine h name o' q hname ?_
      rw [← creator_shmPublish o (c.capsuleId r) s.shm o']
      exact hq
  | @create r hr =>
      intro name o q hname hq
      simp only [ShmState.lead, shmCreate] at hname hq
      cases hfree : s.shm.names (c.name r) with
      | some o' =>
          rw [hfree] at hname hq
          exact h name o q hname hq
      | none =>
          rw [hfree] at hname hq
          simp only [creator_append] at hq
          by_cases heq : name = c.name r
          · subst heq
            simp only [Function.update_self] at hname
            cases hname
            rw [if_pos rfl] at hq
            cases hq
            rfl
          · simp only [Function.update_of_ne heq] at hname
            split at hq
            · rename_i hlen
              have hsome := hnamed name o hname
              rw [hlen, Shm.creator, List.getElem?_eq_none le_rfl] at hsome
              cases hsome
            · exact h name o q hname hq

/-- Without a condition, a sync that succeeds returns the capsule of a leader whose run has the
same name: the first 8 hex digits of the kernel ID and the handle index agree. -/
theorem shm_sync_same_name {t : List (ShmActor ι κ)}
    (hrun : Run (ShmStep c) ShmState.start t s) {j : κ} {id : Id20}
    (hsync : s.follower r j = .success id) :
    ∃ q, c.name q = c.name r ∧ s.leader q = .success ∧ id = c.capsuleId q := by
  have hinv : NamesWell c s ∧ ShmInv c (fun q r => c.name q = c.name r) s := by
    refine Run.invariant (P := fun _ s => NamesWell c s ∧
      ShmInv c (fun q r => c.name q = c.name r) s)
      ⟨namesWell_start, shmInv_start⟩ ?_ hrun
    rintro t s a s' ⟨hnames, h⟩ hstep
    refine ⟨hnames.step hstep h.named, h.step (fun _ => rfl) hstep ?_⟩
    cases a with
    | leader r => exact fun _ o q => hnames _ o q
    | follower r j => exact fun _ o q => hnames _ o q
    | cleanup r => trivial
  obtain ⟨p, q, hpq, hpr, hlead, hid⟩ := hinv.2.synced r j id hsync
  exact ⟨q, hpq.symm.trans hpr, hlead, hid⟩

end Step

/-- Two runs of one kernel with one handle index, the second of which is `true`. -/
def twoRuns : ShmRuns Bool where
  kernelId _ := zeroArr 20
  handleIndex _ := 0
  capsuleId r := if r then List.Vector.replicate 20 2 else List.Vector.replicate 20 1

/-- The follower of the second run syncs behind its leader, after the first run has ended
with its object linked. -/
theorem shm_sync_second_run : ∃ (t : List (ShmActor Bool Unit)) (s : ShmState Bool Unit),
    Run (fun s a s' => ShmStep twoRuns s a s' ∧ OpensWithin twoRuns Eq s a)
      ShmState.start t s ∧
    s.leader false = .success ∧ ∃ id, s.follower true () = .success id ∧
      id = twoRuns.capsuleId true := by
  have h₀ : Run (fun s a s' => ShmStep twoRuns s a s' ∧ OpensWithin twoRuns Eq s a)
    (ShmState.start : ShmState Bool Unit) [] ShmState.start := .nil
  have h₁ := h₀.snoc ⟨ShmStep.unlink (r := false) rfl, fun h => nomatch h⟩
  have h₂ := h₁.snoc ⟨ShmStep.create (r := false) rfl, fun _ _ _ hname => nomatch hname⟩
  have h₃ := h₂.snoc ⟨ShmStep.publish (r := false) rfl, fun h => nomatch h⟩
  have h₄ := h₃.snoc ⟨ShmStep.unlink (r := true) rfl, fun h => nomatch h⟩
  have h₅ := h₄.snoc ⟨ShmStep.create (r := true) rfl, fun _ _ _ hname => nomatch hname⟩
  have h₆ := h₅.snoc ⟨ShmStep.publish (r := true) rfl, fun h => nomatch h⟩
  have h₇ := h₆.snoc ⟨ShmStep.opens (r := true) (j := ()) (o := 1) rfl rfl, by
    intro _ o q hname hq
    cases hname
    cases hq
    rfl⟩
  have h₈ := h₇.snoc ⟨ShmStep.reads (r := true) (j := ()) rfl rfl rfl, fun h => nomatch h⟩
  exact ⟨_, _, h₈, rfl, _, rfl, (shm_sync_own_capsule (r := true) (j := ()) h₈ rfl).1⟩

/-- A follower that is faster than its leader takes the object of a run that has ended, and
returns the capsule of that run. -/
theorem shm_sync_stale :
    ¬ ∀ (ι κ : Type) [DecidableEq ι] [DecidableEq κ] (c : ShmRuns ι)
      (t : List (ShmActor ι κ)) (s : ShmState ι κ), Run (ShmStep c) ShmState.start t s →
      ∀ r j id, s.follower r j = .success id → id = c.capsuleId r := by
  intro hall
  have h₀ : Run (ShmStep twoRuns) (ShmState.start : ShmState Bool Unit) [] ShmState.start := .nil
  have h₁ := h₀.snoc (ShmStep.unlink (r := false) rfl)
  have h₂ := h₁.snoc (ShmStep.create (r := false) rfl)
  have h₃ := h₂.snoc (ShmStep.publish (r := false) rfl)
  have h₄ := h₃.snoc (ShmStep.opens (r := true) (j := ()) (o := 0) rfl rfl)
  have h₅ := h₄.snoc (ShmStep.reads (r := true) (j := ()) rfl rfl rfl)
  have hbad := hall Bool Unit twoRuns _ _ h₅ true () _ rfl
  revert hbad
  decide

end Runs

end TPBench
