import TPBench.Mpi.Calls
import TPBench.Mpi.Capsule
import TPBench.Raf.Domains
import TPBench.Task.Select

/-!
# The Task of an MPI Run

An MPI kernel leaves a record for each rank and a capsule, and `task get-result` and
`task export` take them as one task. This module closes the way from one to the other:
`mpik_run_is_one_task` says that after a run in which the ranks return success, the record of
each rank leads to the capsule, and any selection of these records is one logical task with the
records of all ranks as its members, in the order of the ranks.

What the readers ask of a capsule is more than its list of IDs: the attributes, the one header
and the counts have to be those `tpbcli_task_confirm_capsule` looks at. They are kept by a second
invariant (`RanksStored`), which is about the store alone. A file of a task that was not there
before the run is the file of a record, and that of a capsule as creation and appends leave it,
unless it is the record of a rank.
-/

open CFile Conc

namespace TPBench

open scoped Mpi

/-! ### Files of tasks -/

/-- The bytes are those of a record of the task. -/
def IsTaskFile (x : Id20) (f : Bytes) : Prop :=
  ∃ r : Record taskFormat, f = r.bytes ∧ r.attr.taskRecordId = x

/-- A capsule as its creation and the appends leave it. -/
structure Capsule.Kept (c : Capsule) : Prop where
  inheritFrom_eq : c.attr.inheritFrom = List.Vector.replicate 20 0xFF
  deriveTo_eq : c.attr.deriveTo = zeroArr 20
  ninput_eq : c.attr.ninput = 0
  noutput_eq : c.attr.noutput = 0
  header_eq : c.header = capsuleHeader.counted c.ids.length
  ids_ne : c.ids ≠ []

/-- The bytes are those of such a capsule. -/
def IsCapsuleFile (x : Id20) (f : Bytes) : Prop :=
  ∃ c : Capsule, f = c.record.bytes ∧ c.attr.taskRecordId = x ∧ c.Kept

theorem Capsule.isTaskFile (c : Capsule) : IsTaskFile c.attr.taskRecordId c.record.bytes :=
  ⟨c.record, rfl, rfl⟩

/-- A capsule that was created with its first task. -/
theorem firstCapsule_kept (src : TaskAttr) (id first : Id20) :
    (firstCapsule src id first).Kept where
  inheritFrom_eq := rfl
  deriveTo_eq := rfl
  ninput_eq := rfl
  noutput_eq := rfl
  header_eq := (MetaHeader.counted_one rfl (capsuleHeader.dim0_setDim0 1)).symm
  ids_ne := List.cons_ne_nil _ _

/-- An append keeps what the readers look at. -/
theorem Capsule.Kept.append {c : Capsule} (h : c.Kept) (id : Id20)
    (hlt : 20 * (c.ids.length + 1) < 2 ^ 63) : (c.append id hlt).Kept where
  inheritFrom_eq := h.inheritFrom_eq
  deriveTo_eq := h.deriveTo_eq
  ninput_eq := h.ninput_eq
  noutput_eq := h.noutput_eq
  header_eq := by
    have hlen : (c.append id hlt).ids.length = c.ids.length + 1 := by simp [Capsule.append]
    change c.header.counted (c.ids.length + 1) = _
    rw [hlen, h.header_eq, MetaHeader.counted_counted]
  ids_ne := by simp [Capsule.append]

/-! ### Reading a capsule -/

section Read

variable {c : Capsule}

theorem Capsule.view_eq (c : Capsule) : c.record.view =
    ⟨c.attr, [c.header.norm], UInt64.ofNat (20 * c.ids.length), idBytes c.ids⟩ := by
  have hsize : c.record.datasize = UInt64.ofNat (20 * c.ids.length) :=
    congrArg UInt64.ofNat (length_idBytes c.ids)
  rw [Record.view, hsize]
  rfl

theorem Capsule.toNat_size (c : Capsule) :
    (UInt64.ofNat (20 * c.ids.length)).toNat = 20 * c.ids.length := by
  have hlt := c.ids_lt
  rw [UInt64.toNat_ofNat']
  exact Nat.mod_eq_of_lt (by omega)

/-- The capsule passes the checks of its readers. -/
theorem Capsule.Kept.confirmed (h : c.Kept) :
    tpbcliTaskConfirmCapsule c.record.view = true := by
  have hlt := c.ids_lt
  have hpos : 0 < c.ids.length := List.length_pos_iff.mpr h.ids_ne
  have hnorm : c.header.norm = capsuleHeader.norm.counted c.ids.length := by
    rw [h.header_eq, MetaHeader.norm_counted capsuleHeader_ndim]
  have hname : cstr c.header.norm.name.toList = taskIdName := by
    rw [hnorm]
    exact capsuleHeader_name
  have htag : cstr c.header.norm.tag.toList = tagLink := by
    rw [hnorm]
    exact capsuleHeader_tag
  have hdim : c.header.norm.dim0 = UInt64.ofNat (20 * c.ids.length) / 20 := by
    rw [hnorm, MetaHeader.counted, MetaHeader.dim0_setDim0, ofNat_div_twenty hlt]
  have hsize : c.header.norm.dataSize = UInt64.ofNat (20 * c.ids.length) := by
    rw [hnorm]
    rfl
  have hmod : UInt64.ofNat (20 * c.ids.length) % 20 = 0 := ofNat_mod_twenty hlt
  have hne : UInt64.ofNat (20 * c.ids.length) ≠ 0 := by
    intro hzero
    have hcount := c.toNat_size
    rw [hzero, UInt64.toNat_zero] at hcount
    omega
  have hff : sfIsAllFf c.attr.inheritFrom = true := by
    rw [h.inheritFrom_eq]
    decide
  have hroot : sfIsZeroId20 c.attr.deriveTo = true := sfIsZeroId20_iff.mpr h.deriveTo_eq
  have hptr : tpbRafHeaderDataPtr c.record.view.headers c.record.view.dataPtr
      c.record.view.datasize 0 =
        .ok (some (idBytes c.ids), UInt64.ofNat (20 * c.ids.length)) := by
    rw [c.view_eq, RecordView.dataPtr, tpbRafHeaderDataPtr]
    simp only [if_neg hne]
    simp [hsize]
  rw [c.view_eq] at hptr ⊢
  simp only [tpbcliTaskConfirmCapsule, hff, hroot]
  rw [if_neg (by simp), if_neg (by simp [h.ninput_eq, h.noutput_eq, c.nheader_eq]),
    if_neg (by simp [hname, htag]), if_neg (not_not.mpr hmod), if_neg (by simp [hdim])]
  simp only [hptr]
  simp

/-- The members the readers take of the payload are the IDs of the capsule. -/
theorem Capsule.members (c : Capsule) : capsuleMembers c.record.view = c.ids := by
  rw [capsuleMembers, c.view_eq]
  simp only [c.toNat_size]
  rw [Nat.mul_div_cancel_left _ (by decide)]
  apply List.ext_getElem
  · simp
  · intro i hi _
    simp only [List.getElem_map, List.getElem_range]
    have hlt : i < c.ids.length := by simpa using hi
    have hsplit : idBytes c.ids = idBytes (c.ids.take i) ++
        (c.ids[i].toList ++ idBytes (c.ids.drop (i + 1))) := by
      rw [idBytes, idBytes, idBytes, ← List.flatMap_cons, ← List.flatMap_append,
        List.getElem_cons_drop, List.take_append_drop]
    have hlen : (idBytes (c.ids.take i)).length = 20 * i := by
      rw [length_idBytes, List.length_take, min_eq_left hlt.le]
    rw [hsplit, pread_append_right hlen.le, hlen, Nat.sub_self,
      pread_append_self (List.Vector.toList_length _), toArr_toList]

end Read

/-! ### The store during a run -/

/-- Writing the field of the derivation in the file of a record. -/
theorem Record.pwrite_deriveTo (r : Record taskFormat) (d : Id20) :
    pwrite r.bytes 44 d.toList = (r.withAttr { r.attr with deriveTo := d } rfl).bytes := by
  have hrun := patchTaskDeriveTo_run r d
  rcases patchTaskDeriveTo_cases r.attr.taskRecordId d r.bytes with
    ⟨s, hpatch, hs⟩ | ⟨e, s, hpatch, -⟩
  · cases hpatch.symm.trans hrun
    exact hs.symm
  · cases hpatch.symm.trans hrun

/-- What a rank writes is a record. -/
def TaskImage.WellFormed (x : TaskImage) : Prop :=
  ∃ r : Record taskFormat, x.attr = r.attr ∧ x.headers = r.headers ∧ x.data = r.buf ∧
    x.datasize = r.datasize

section RanksStored

variable {n : ℕ} (W : MpiWorld n) (ws₀ : Workspace)

/-- What the file of a task may be when it was not there in `ws₀`: a record, and a capsule unless
it belongs to a rank. -/
def StoredFile (x : Id20) (f : Bytes) : Prop :=
  ws₀.files (.record .task x) = none →
    IsTaskFile x f ∧ ((∃ i, W.taskId i = x) ∨ IsCapsuleFile x f)

/-- All files of tasks are such. -/
def RanksStored (ws : Workspace) : Prop :=
  ∀ x f, ws.files (.record .task x) = some f → StoredFile W ws₀ x f

variable {W ws₀} {ws ws' : Workspace}

theorem ranksStored_start : RanksStored W ws₀ ws₀ := by
  intro x f hf hnone
  rw [hnone] at hf
  cases hf

/-- A change of the file of one task. -/
theorem RanksStored.update (h : RanksStored W ws₀ ws) (y : Id20)
    (hother : ∀ x, x ≠ y → ws'.files (.record .task x) = ws.files (.record .task x))
    (hy : ∀ f, ws'.files (.record .task y) = some f → StoredFile W ws₀ y f) :
    RanksStored W ws₀ ws' := by
  intro x f hf
  by_cases hx : x = y
  · subst hx
    exact hy f hf
  · exact h x f ((hother x hx).symm.trans hf)

/-- A change of other files. -/
theorem RanksStored.frame (h : RanksStored W ws₀ ws)
    (hsame : ∀ x, ws'.files (.record .task x) = ws.files (.record .task x)) :
    RanksStored W ws₀ ws' :=
  fun x f hf => h x f ((hsame x).symm.trans hf)

/-- A write leaves the record of its rank, or nothing new. -/
theorem RanksStored.write (h : RanksStored W ws₀ ws) (i : Fin (n + 1))
    (hwf : ∀ x, (W.write i).prepared = .ok x → x.WellFormed) :
    RanksStored W ws₀ (tpbKWriteTask (W.write i) ws).2 := by
  cases himage : (W.write i).image with
  | none =>
      rw [write_of_image_none himage]
      exact h
  | some x =>
      obtain ⟨hprep, hfault⟩ := TaskWrite.image_eq_some.mp himage
      have hid : W.taskId i = x.attr.taskRecordId := by
        rw [MpiWorld.taskId, MpiWorld.wrote, hprep, hfault]
        rfl
      obtain ⟨r, hattr, hheaders, hdata, hsize⟩ := hwf x hprep
      have hbytes : x.bytes = r.bytes := by
        rw [TaskImage.bytes, hattr, hheaders, hdata, hsize, Record.bytes]
      have hrecord : RanksStored W ws₀ (ws.set (.record .task x.attr.taskRecordId) x.bytes) := by
        refine h.update x.attr.taskRecordId (fun y hy => ?_) fun f hf _ => ?_
        · exact ws.set_files_of_ne _ (by simpa using hy)
        · obtain rfl := Option.some.inj ((Workspace.set_files_same _ _ _).symm.trans hf)
          exact ⟨⟨r, hbytes, by rw [hattr]⟩, .inl ⟨i, hid⟩⟩
      rw [write_of_image_some himage]
      refine hrecord.frame fun y => frames_behindRecord _ ?_ y _ _ rfl
      exact Frames.propagate _ (Frames.faulty _ (frames_counters_tasks x.activeId 1 0))

/-- A creation leaves a capsule with its first task, or nothing new. -/
theorem RanksStored.create (h : RanksStored W ws₀ ws) (first : Id20) :
    RanksStored W ws₀ (tpbKCreateCapsuleTask W.capsule first ws).2 := by
  cases hsource : W.capsule.source first ws with
  | none =>
      rw [create_of_source_none hsource]
      exact h
  | some p =>
      obtain ⟨src, id⟩ := p
      have hcapsule : RanksStored W ws₀ (ws.set (.record .task id)
          (firstCapsule src id first).record.bytes) := by
        refine h.update id (fun y hy => ?_) fun f hf _ => ?_
        · exact Workspace.set_files_of_ne _ _ (by simpa using hy)
        · obtain rfl := Option.some.inj ((Workspace.set_files_same _ _ _).symm.trans hf)
          exact ⟨Capsule.isTaskFile _, .inr ⟨_, rfl, rfl, firstCapsule_kept src id first⟩⟩
      rw [(create_of_source_some hsource).1]
      refine hcapsule.frame fun y => frames_behindRecord _ ?_ y _ _ rfl
      exact Frames.faulty _ fun _ _ _ => rfl

/-- A derivation changes a record of a rank only. -/
theorem RanksStored.derive (h : RanksStored W ws₀ ws) (i : Fin (n + 1)) (fault : Option Err)
    (d : Id20) :
    RanksStored W ws₀ (after (faulty fault (tpbKTaskSetDeriveTo (W.taskId i) d) ws)) := by
  cases fault with
  | some e => exact h
  | none =>
      refine h.update (W.taskId i) (fun x hx => frames_setDeriveTo hx ws _ rfl) fun f hf hnone => ?_
      rcases setDeriveTo_record (W.taskId i) d ws with ⟨f₀, hf₀, hafter⟩ | ⟨e, ws₁, herr, hsame⟩
      · obtain ⟨⟨r, rfl, hr⟩, -⟩ := h _ _ hf₀ hnone
        obtain rfl := Option.some.inj (hafter.symm.trans hf)
        rw [r.pwrite_deriveTo]
        exact ⟨⟨_, rfl, hr⟩, .inl ⟨i, rfl⟩⟩
      · rw [faulty, herr] at hf
        exact h _ _ (hsame.symm.trans hf) hnone

/-- An append changes a capsule only. -/
theorem RanksStored.append (h : RanksStored W ws₀ ws) {c : Id20} {ids : List Id20}
    (hfile : CapsuleFile ws c ids) (hlt : 20 * (ids.length + 1) < 2 ^ 63) (fault : Option Err)
    (x : Id20) :
    RanksStored W ws₀ (after (faulty fault (tpbRafRecordAppendTaskCapsule c x) ws)) := by
  cases fault with
  | some e => exact h
  | none =>
      obtain ⟨cap, hcap, hid, rfl⟩ := hfile
      have happend : ∀ cap' : Capsule, ws.files (.record .task c) = some cap'.record.bytes →
          cap'.attr.taskRecordId = c → ∃ hlt', ∀ f, (after (tpbRafRecordAppendTaskCapsule c x
            ws)).files (.record .task c) = some f → f = (cap'.append x hlt').record.bytes := by
        intro cap' hcap' hid'
        have hfile' : CapsuleFile ws c cap'.ids := ⟨cap', hcap', hid', rfl⟩
        have hids : cap'.ids = cap.ids := hfile'.unique ⟨cap, hcap, hid, rfl⟩
        have hlt' : 20 * (cap'.ids.length + 1) < 2 ^ 63 := by rwa [hids]
        refine ⟨hlt', fun f hf => ?_⟩
        have hopen : tpbRafRecordAppendTaskCapsule c x ws = .ok () (ws.set (.record .task c)
            (cap'.append x hlt').record.bytes) :=
          fopenUpdate_ok hcap' (appendTaskCapsule_run cap' x hlt')
        rw [hopen] at hf
        exact Option.some.inj (hf.symm.trans (Workspace.set_files_same _ _ _))
      refine h.update c (fun y hy => ?_) fun f hf hnone => ?_
      · exact frames_fopenUpdate (P := (· = .record .task y)) (by simpa using Ne.symm hy) ws _ rfl
      · obtain ⟨-, hrank | ⟨cap', hbytes, hid', hkept⟩⟩ := h _ _ hcap hnone
        · obtain ⟨hlt', hf'⟩ := happend cap hcap hid
          obtain rfl := hf' f hf
          exact ⟨⟨_, rfl, hid⟩, .inl hrank⟩
        · obtain ⟨hlt', hf'⟩ := happend cap' (hcap.trans (congrArg some hbytes)) hid'
          obtain rfl := hf' f hf
          exact ⟨⟨_, rfl, hid'⟩, .inr ⟨_, rfl, hid', hkept.append x hlt'⟩⟩

/-! ### Runs -/

variable {s : MpikState n} {t : List (Fin (n + 1))}

/-- **The step lemma**: a local action keeps the files in order. -/
theorem RanksStored.act (h : RanksStored W ws₀ s.shared) (hinv : MpikInv W s)
    (hwf : ∀ i x, (W.write i).prepared = .ok x → x.WellFormed) {i : Fin (n + 1)}
    {m : Workspace → MpikPoint n × Workspace}
    (hcmd : mpikWriteTask W i (s.point i) = .act m) : RanksStored W ws₀ (m s.shared).2 := by
  have hrank := hinv.rank i
  have hroot := hinv.root
  cases hp : s.point i with
  | write =>
      rw [hp] at hcmd
      cases hcmd
      exact h.write i (hwf i)
  | create id =>
      rw [hp] at hcmd
      cases hcmd
      exact h.create id
  | derive id cap =>
      rw [hp] at hcmd hrank
      cases hcmd
      obtain ⟨rfl, -⟩ := hrank
      exact h.derive i _ cap
  | append maxErr id cap all ar rest =>
      rw [hp] at hcmd hrank
      cases hcmd
      obtain ⟨rfl, -⟩ := hrank
      rw [hp] at hroot
      obtain ⟨-, -, rfl, l, hl, -, -, hfile⟩ := hroot
      have hstored := h.append hfile (W.append_lt hl) (W.appendFault ar) (W.taskId ar)
      dsimp only
      split
      · exact hstored
      · exact hstored
  | _ =>
      rw [hp] at hcmd
      cases hcmd

/-- The files are in order in every state of every run. -/
theorem ranksStored_of_run (hwf : ∀ i x, (W.write i).prepared = .ok x → x.WellFormed)
    (hrun : Run (SpmdStep (mpikWriteTask W)) (Ranks.start ws₀ .write) t s) :
    RanksStored W ws₀ s.shared := by
  have hboth : MpikInv W s ∧ RanksStored W ws₀ s.shared := by
    refine hrun.invariant (P := fun _ s => MpikInv W s ∧ RanksStored W ws₀ s.shared)
      ⟨MpikInv.of_run Run.nil, ranksStored_start⟩ ?_
    rintro t s i s' ⟨hinv, h⟩ hstep
    refine ⟨hinv.step hstep, ?_⟩
    cases hstep with
    | act hcmd => exact h.act hinv hwf hcmd
    | enter => exact h
    | leave => exact h
  exact hboth.2

/-- Where no task was there before the run, reading has a meaning for every ID. -/
theorem readDefined_of_run (hwf : ∀ i x, (W.write i).prepared = .ok x → x.WellFormed)
    (hrun : Run (SpmdStep (mpikWriteTask W)) (Ranks.start ws₀ .write) t s)
    (hnone : ∀ x, ws₀.files (.record .task x) = none) (x : Id20) : ReadDefined s.shared x := by
  intro ws' h
  rcases hfile : s.shared.files (.record .task x) with - | f
  · rw [tpbRafRecordReadTask, recordRead, fopenRead, hfile] at h
    cases h
  · obtain ⟨⟨r, rfl, -⟩, -⟩ := ranksStored_of_run hwf hrun x f hfile (hnone x)
    rw [tpbRafRecordReadTask, recordRead_of_bytes hfile] at h
    cases h

end RanksStored

/-! ### One task -/

section Result

variable {n : ℕ} {W : MpiWorld n} {ws : Workspace} {t : List (Fin (n + 1))} {s : MpikState n}
  {r : Fin (n + 1) → MpikResult}

theorem memberRecs_ids (ws : Workspace) (i : ℕ) (ids : List Id20) :
    (memberRecs ws i ids).map MemberRec.id = ids := by
  rw [memberRecs, List.map_map]
  exact List.zipIdx_map_fst i ids

theorem memberRecs_subranks (ws : Workspace) (i : ℕ) (ids : List Id20) :
    (memberRecs ws i ids).map MemberRec.subrank = List.range' i ids.length := by
  rw [memberRecs, List.map_map]
  exact List.zipIdx_map_snd i ids

/-- The record of a rank that is derived to `cap` is read. -/
theorem RanksStored.read_rank {ws₀ : Workspace} (h : RanksStored W ws₀ ws) {x cap : Id20}
    (hnew : ws₀.files (.record .task x) = none) (hder : Derived ws x cap) :
    ∃ v, tpbRafRecordReadTask x true ws = .ok v ws ∧ v.attr.taskRecordId = x ∧
      v.attr.deriveTo = cap := by
  obtain ⟨f, hf, -⟩ := id hder
  obtain ⟨⟨rec, rfl, hid⟩, -⟩ := h x f hf hnew
  have hread : tpbRafRecordReadTask x true ws = .ok rec.view ws := recordRead_of_bytes hf
  exact ⟨_, hread, hid, hder.deriveTo hread⟩

/-- The capsule is read, passes the checks of its readers, and has its IDs as members. -/
theorem RanksStored.read_capsule {ws₀ : Workspace} (h : RanksStored W ws₀ ws) {cap : Id20}
    {ids : List Id20} (hnew : ws₀.files (.record .task cap) = none)
    (hother : ∀ i, W.taskId i ≠ cap) (hfile : CapsuleFile ws cap ids) :
    ∃ v, tpbRafRecordReadTask cap true ws = .ok v ws ∧ tpbcliTaskConfirmCapsule v = true ∧
      capsuleMembers v = ids ∧ v.attr.deriveTo = zeroArr 20 ∧
      v.datasize.toNat = 20 * ids.length := by
  obtain ⟨c, hc, -, -⟩ := id hfile
  obtain ⟨-, ⟨i, hi⟩ | ⟨c', hbytes, hid, hkept⟩⟩ := h cap _ hc hnew
  · exact absurd hi (hother i)
  · have hc' : ws.files (.record .task cap) = some c'.record.bytes := by rw [hc, hbytes]
    have hfile' : CapsuleFile ws cap c'.ids := ⟨c', hc', hid, rfl⟩
    obtain rfl := hfile.unique hfile'
    refine ⟨_, recordRead_of_bytes hc', hkept.confirmed, c'.members, hkept.deriveTo_eq, ?_⟩
    rw [c'.view_eq]
    exact c'.toNat_size

/-- The records of an MPI run: the capsule lists the ranks in their order, the record of each rank
is derived to it, and following `derive_to` leads from all of them to the capsule. -/
structure OneTask (W : MpiWorld n) (cap : Id20) (ws : Workspace) : Prop where
  capsule : ∃ v, tpbRafRecordReadTask cap true ws = .ok v ws ∧
    tpbcliTaskConfirmCapsule v = true ∧
    capsuleMembers v = (List.finRange (n + 1)).map W.taskId ∧ v.attr.deriveTo = zeroArr 20 ∧
    v.datasize.toNat = 20 * (n + 1)
  rank : ∀ i, ∃ v, tpbRafRecordReadTask (W.taskId i) true ws = .ok v ws ∧
    v.attr.taskRecordId = W.taskId i ∧ v.attr.deriveTo = cap
  follow : ∀ i, tpbcliTaskFollowDerive (W.taskId i) ws = .ok cap ws
  self : tpbcliTaskFollowDerive cap ws = .ok cap ws

/-- The records behind a run in which the ranks return success and the IDs were new. -/
theorem oneTask_of_run (hwf : ∀ i x, (W.write i).prepared = .ok x → x.WellFormed)
    (hrun : Run (SpmdStep (mpikWriteTask W)) (Ranks.start ws .write) t s)
    (hret : ∀ i, s.point i = .done (r i)) (h0 : (r 0).err = 0)
    (hnew : ∀ i, ws.files (.record .task (W.taskId i)) = none)
    (hcapNew : ws.files (.record .task (r 0).tcapId) = none)
    (hcapZero : (r 0).tcapId ≠ zeroArr 20) (hother : ∀ i, W.taskId i ≠ (r 0).tcapId) :
    OneTask W (r 0).tcapId s.shared := by
  obtain ⟨hfile, hranks⟩ := (MpikInv.of_run hrun).success hret h0
  have hstored := ranksStored_of_run hwf hrun
  set cap := (r 0).tcapId with hcap
  obtain ⟨v, hread, hconf, hmembers, hroot, hsize⟩ :=
    hstored.read_capsule hcapNew hother hfile
  rw [List.length_map, List.length_finRange] at hsize
  have hrank : ∀ i, ∃ v, tpbRafRecordReadTask (W.taskId i) true s.shared = .ok v s.shared ∧
      v.attr.taskRecordId = W.taskId i ∧ v.attr.deriveTo = cap :=
    fun i => hstored.read_rank (hnew i) (hranks i).2.2
  refine ⟨⟨v, hread, hconf, hmembers, hroot, hsize⟩, hrank, fun i => ?_, ?_⟩
  · obtain ⟨w, hw, -, hto⟩ := hrank i
    refine followDerive_eq_ok.mpr ⟨rfl, [W.taskId i, cap], rfl, rfl, ?_, ⟨v, hread, hroot⟩, ?_,
      Nat.le_add_left 2 7⟩
    · simpa using ⟨hcapZero, w, hw, hto⟩
    · simpa using hother i
  · exact followDerive_eq_ok.mpr ⟨rfl, [cap], rfl, rfl, by simp, ⟨v, hread, hroot⟩, by simp,
      by simp⟩

/-- **An MPI run is one task.** After any run of the kernel in which the ranks return success
and the IDs were new, following `derive_to` from the record of any rank ends at the capsule, and
any selection of records of ranks and of the capsule makes one logical task. Its members are the
records of all ranks, in the order of the ranks, and each of them is there and derived to the
capsule. -/
theorem mpik_run_is_one_task (hwf : ∀ i x, (W.write i).prepared = .ok x → x.WellFormed)
    (hrun : Run (SpmdStep (mpikWriteTask W)) (Ranks.start ws .write) t s)
    (hret : ∀ i, s.point i = .done (r i)) (h0 : (r 0).err = 0)
    (hnew : ∀ i, ws.files (.record .task (W.taskId i)) = none)
    (hcapNew : ws.files (.record .task (r 0).tcapId) = none)
    (hcapZero : (r 0).tcapId ≠ zeroArr 20) (hother : ∀ i, W.taskId i ≠ (r 0).tcapId) :
    (∀ i, tpbcliTaskFollowDerive (W.taskId i) s.shared = .ok (r 0).tcapId s.shared) ∧
    ∀ sels : List InitSel, sels ≠ [] →
      (∀ sel ∈ sels, sel.id = (r 0).tcapId ∨ ∃ i, sel.id = W.taskId i) →
      ∃ task, tpbcliTaskBuildLogicalTasks sels s.shared = .ok [task] s.shared ∧
        task.rootId = (r 0).tcapId ∧ task.isCapsule = true ∧
        task.members.map MemberRec.id = (List.finRange (n + 1)).map W.taskId ∧
        task.members.map MemberRec.subrank = List.range (n + 1) ∧
        ∀ m ∈ task.members, ∃ v, m.record = some v ∧ v.attr.taskRecordId = m.id ∧
          v.attr.deriveTo = (r 0).tcapId := by
  obtain ⟨⟨v, hread, hconf, hmembers, hroot, hsize⟩, hrank, hfollow, hself⟩ :=
    oneTask_of_run hwf hrun hret h0 hnew hcapNew hcapZero hother
  set cap := (r 0).tcapId with hcap
  set ids := (List.finRange (n + 1)).map W.taskId with hids
  have hlen : ids.length = n + 1 := by rw [hids, List.length_map, List.length_finRange]
  have hload : Loadable s.shared cap := by
    intro w hw _
    obtain rfl : v = w := (EStateM.Result.ok.inj (hread.symm.trans hw)).1
    refine ⟨?_, fun x hx ws' herr => ?_⟩
    · have hn := W.nprocs_le
      rw [intMax] at hn
      omega
    · rw [hmembers, hids] at hx
      obtain ⟨i, -, rfl⟩ := List.mem_map.mp hx
      obtain ⟨w, hw, -⟩ := hrank i
      rw [hw] at herr
      cases herr
  refine ⟨hfollow, fun sels hne hsels => ?_⟩
  have hall : List.Forall₂ (fun sel x => tpbcliTaskFollowDerive sel.id s.shared = .ok x s.shared)
      sels (List.replicate sels.length cap) := by
    rw [List.forall₂_iff_zip, List.length_replicate]
    refine ⟨rfl, fun {sel x} hmem => ?_⟩
    obtain ⟨hsel, hx⟩ := List.of_mem_zip hmem
    rw [List.eq_of_mem_replicate hx]
    obtain hid | ⟨i, hid⟩ := hsels sel hsel
    · rw [hid, hself]
    · rw [hid, hfollow i]
  have hloadAll : ∀ x ∈ List.replicate sels.length cap, Loadable s.shared x := by
    intro x hx
    rw [List.eq_of_mem_replicate hx]
    exact hload
  obtain ⟨tasks, hok, hroots, hfrom⟩ := buildLogicalTasks_eq_ok hne hall hloadAll
  have hone : (List.replicate sels.length cap).eraseDups = [cap] := by
    obtain ⟨k, hk⟩ := Nat.exists_eq_succ_of_ne_zero (List.length_pos_iff.mpr hne).ne'
    rw [hk, List.replicate_succ, List.eraseDups_cons]
    simp
  rw [hone] at hroots
  obtain ⟨task, rfl, htask⟩ := List.map_eq_singleton_iff.mp hroots
  obtain ⟨sel, -, w, -, hw, heq⟩ := hfrom task List.mem_cons_self
  rw [htask] at hw heq
  obtain rfl : v = w := (EStateM.Result.ok.inj (hread.symm.trans hw)).1
  have hmem : task.members = memberRecs s.shared 0 ids := by
    rw [heq, logicalOf, if_pos hconf, hmembers]
  refine ⟨task, hok, htask, by rw [heq]; exact hconf, ?_, ?_, fun m hm => ?_⟩
  · rw [hmem, memberRecs_ids]
  · rw [hmem, memberRecs_subranks, hlen, List.range_eq_range']
  · rw [hmem, memberRecs] at hm
    obtain ⟨⟨x, k⟩, hxk, rfl⟩ := List.mem_map.mp hm
    obtain ⟨i, -, rfl⟩ := List.mem_map.mp (List.fst_mem_of_mem_zipIdx hxk)
    obtain ⟨w, hw', hid, hto⟩ := hrank i
    refine ⟨w, ?_, hid, hto⟩
    simp only [viewOf, hw']

/-- The two ranks write records. -/
theorem wellFormed_twoWorld {i : Fin 2} {x : TaskImage}
    (h : (twoWorld.write i).prepared = .ok x) : x.WellFormed := by
  obtain rfl := Except.ok.inj h
  exact ⟨Record.bare (bareAttr (if i = 0 then idOf 1 else idOf 3)) rfl, rfl, rfl, rfl, rfl⟩

/-- There is no task before their run. -/
theorem files_patchSample (x : Id20) : patchSample.files (.record .task x) = none := by
  simp [patchSample, Workspace.empty]

/-- The second rank and the capsule are selected: the task of the run has both ranks. -/
theorem mpik_run_is_one_task_pair : ∃ t s,
    Run (SpmdStep (mpikWriteTask twoWorld)) (Ranks.start patchSample .write) t s ∧
      (∀ i, s.point i = .done (twoResult i)) ∧
      ∃ task, tpbcliTaskBuildLogicalTasks [⟨idOf 3, [], 0⟩, ⟨idOf 2, [], 1⟩] s.shared =
          .ok [task] s.shared ∧
        task.rootId = idOf 2 ∧ task.members.map MemberRec.id = [idOf 1, idOf 3] ∧
        task.members.map MemberRec.subrank = [0, 1] := by
  obtain ⟨t, s, hrun, hdone⟩ := exists_run_twoWorld
  obtain ⟨-, hbuild⟩ := mpik_run_is_one_task (fun _ _ => wellFormed_twoWorld) hrun hdone rfl
    (fun _ => files_patchSample _) (files_patchSample _) (by decide) (by decide)
  obtain ⟨task, hok, hroot, -, hmembers, hsubranks, -⟩ :=
    hbuild [⟨idOf 3, [], 0⟩, ⟨idOf 2, [], 1⟩] (List.cons_ne_nil _ _) (by
      rw [List.forall_mem_cons, List.forall_mem_singleton]
      exact ⟨.inr ⟨1, rfl⟩, .inl rfl⟩)
  exact ⟨t, s, hrun, hdone, task, hok, hroot, hmembers, hsubranks⟩

end Result

end TPBench
