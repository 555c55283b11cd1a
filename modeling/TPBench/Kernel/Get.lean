import Mathlib.Data.List.Find
import TPBench.Kernel.Current

/-!
# Looking Up a Kernel

`tpbcli kernel get` shows the record of one version of a kernel. The version is named by its ID
in hexadecimal digits, or the command picks one of the kernel that is named: walking from the
last row to the first it stops at an active one, and where there is none it keeps the first it
came by, the last of the table.

`kernel_get_current` says what that is after any calls on versions (`Kernel/Current.lean`): of
the active versions of the kernel the one that was loaded for the first time last, or else the
last one of all. A name without versions is answered with an error, and so is an ID without a
row.
-/

open CFile Conc

namespace TPBench

/-! ### The code -/

/-- The loop of `_sf_pick_latest_entry` over the rows from the last one on, each with its
index. -/
def pickLoop (kernelName : Bytes) : List (KernelEntry × ℕ) → Option ℕ → Option ℕ
  | [], pick => pick
  | (e, i) :: rest, pick =>
      if cstr e.kernelName.toList ≠ kernelName then pickLoop kernelName rest pick
      else if e.active ≠ 0 then some i
      else pickLoop kernelName rest (pick.or (some i))

/-- `_sf_pick_latest_entry`. -/
def sfPickLatestEntry (entries : List KernelEntry) (kernelName : Bytes) : Except Err ℕ :=
  match pickLoop kernelName entries.zipIdx.reverse none with
  | some idx => .ok idx
  | none => .error (.code .cliKernel .listNotFound)

/-- `_sf_find_entry_by_id`. -/
def sfFindEntryById (entries : List KernelEntry) (kernelId : Id20) : Except Err ℕ :=
  match entries.findIdx? (·.kernelId = kernelId) with
  | some idx => .ok idx
  | none => .error (.code .cliKernel .listNotFound)

/-- How a version is named: `--kernel` or `--id`. -/
inductive KernelQuery
  | kernel (name : Bytes)
  | id (hex : Bytes)

/-- The index of the row that `tpbcli_kernel_get` takes. -/
def KernelQuery.pick (entries : List KernelEntry) : KernelQuery → Except Err ℕ
  | .kernel name => sfPickLatestEntry entries name
  | .id hex => do sfFindEntryById entries (← tpbRafHexToId hex)

/-- `tpbcli_kernel_get` up to the printing: the row and the record that are shown. -/
def tpbcliKernelGet (query : KernelQuery) : WsM (KernelEntry × RecordView KernelAttr) := do
  let entries ← propagate .cliKernel tpbRafEntryListKernel
  let idx ← propagate .cliKernel (liftExcept (query.pick entries))
  match entries[idx]? with
  | none => undefinedCall
  | some e => do
      let v ← propagate .cliKernel (tpbRafRecordReadKernel e.kernelId true)
      return (e, v)

/-! ### What is picked -/

section Pick

variable {kernelName : Bytes} {entries : List KernelEntry}

/-- The row has the name. -/
def KernelEntry.Named (kernelName : Bytes) (e : KernelEntry) : Prop :=
  cstr e.kernelName.toList = kernelName

instance (kernelName : Bytes) (e : KernelEntry) : Decidable (e.Named kernelName) :=
  inferInstanceAs (Decidable (_ = _))

/-- **The loop**: the first active row with the name, else what was kept, else the first row
with the name. -/
theorem pickLoop_eq (rest : List (KernelEntry × ℕ)) (pick : Option ℕ) :
    pickLoop kernelName rest pick =
      ((rest.find? fun p => p.1.Named kernelName ∧ p.1.active ≠ 0).map Prod.snd).or
        (pick.or ((rest.find? fun p => p.1.Named kernelName).map Prod.snd)) := by
  induction rest generalizing pick with
  | nil => simp [pickLoop]
  | cons p rest ih =>
      obtain ⟨e, i⟩ := p
      rw [pickLoop]
      by_cases hname : e.Named kernelName
      · have hname' : cstr e.kernelName.toList = kernelName := hname
        rw [if_neg (not_not.mpr hname')]
        by_cases hactive : e.active ≠ 0
        · rw [if_pos hactive, List.find?_cons_of_pos (by simp [hname, hactive])]
          rfl
        · rw [if_neg hactive, ih, List.find?_cons_of_neg (by simp [hactive]),
            List.find?_cons_of_pos (by simp [hname]), Option.or_assoc]
          rfl
      · have hname' : ¬cstr e.kernelName.toList = kernelName := hname
        rw [if_pos hname', ih, List.find?_cons_of_neg (by simp [hname]),
          List.find?_cons_of_neg (by simp [hname])]

/-- The row that the command is to pick: the last active one with the name, else the last one
with the name. -/
def latestNamed (entries : List KernelEntry) (kernelName : Bytes) : Option KernelEntry :=
  (entries.reverse.find? fun e => e.Named kernelName ∧ e.active ≠ 0).or
    (entries.reverse.find? fun e => e.Named kernelName)

/-- The row that the command picks, with its index. -/
def latestIndexed (entries : List KernelEntry) (kernelName : Bytes) :
    Option (KernelEntry × ℕ) :=
  (entries.zipIdx.reverse.find? fun p => p.1.Named kernelName ∧ p.1.active ≠ 0).or
    (entries.zipIdx.reverse.find? fun p => p.1.Named kernelName)

/-- The index is that of the row. -/
theorem getElem_of_latestIndexed {e : KernelEntry} {idx : ℕ}
    (h : latestIndexed entries kernelName = some (e, idx)) : entries[idx]? = some e := by
  have hmem : (e, idx) ∈ entries.zipIdx.reverse := by
    rcases Option.or_eq_some_iff.mp h with hx | ⟨-, hx⟩
    · exact List.mem_of_find?_eq_some hx
    · exact List.mem_of_find?_eq_some hx
  exact List.mem_zipIdx_iff_getElem?.mp (List.mem_reverse.mp hmem)

/-- It is the row the command is to pick. -/
theorem map_fst_latestIndexed (entries : List KernelEntry) (kernelName : Bytes) :
    (latestIndexed entries kernelName).map Prod.fst = latestNamed entries kernelName := by
  have hfst : entries.reverse = entries.zipIdx.reverse.map Prod.fst := by
    rw [List.map_reverse, List.zipIdx_map_fst]
  rw [latestNamed, latestIndexed, hfst, List.find?_map, List.find?_map, Option.map_or]
  rfl

/-- **The command picks this row.** -/
theorem sfPickLatestEntry_eq (entries : List KernelEntry) (kernelName : Bytes) :
    sfPickLatestEntry entries kernelName =
      match latestIndexed entries kernelName with
      | some p => .ok p.2
      | none => .error (.code .cliKernel .listNotFound) := by
  have hpick : pickLoop kernelName entries.zipIdx.reverse none =
      (latestIndexed entries kernelName).map Prod.snd := by
    rw [pickLoop_eq, Option.none_or, latestIndexed, Option.map_or]
  rw [sfPickLatestEntry, hpick]
  rcases latestIndexed entries kernelName with - | p
  · rfl
  · rfl

end Pick

/-! ### What is shown -/

/-- The answer to a query for a version: its row and its record, which agree, or, if a write of
the record was cut short, its row with some record of the ID, or an error. -/
def ShowsVersion (calls : List VersionCall) (query : KernelQuery) (ws : Workspace) (k : Id20) :
    Prop :=
  (∃ (e : KernelEntry) (rec : Record kernelFormat),
      tpbcliKernelGet query ws = .ok (e, rec.view) ws ∧ e.kernelId = k ∧
        AgreeAfter calls e rec) ∨
    (∃ c ∈ calls, c.Cuts k) ∧
      ((∃ (e : KernelEntry) (rec : Record kernelFormat),
          tpbcliKernelGet query ws = .ok (e, rec.view) ws ∧ e.kernelId = k ∧
            rec.attr.kernelId = k) ∨
        ∃ mod cause, tpbcliKernelGet query ws = .error (.code mod cause) ws)

section Shown

variable {lib : Id20 → KernelInfo} {ws ws₀ : Workspace} {r : Versions (nameOf lib)}
  {log : List StoredVersion} {calls : List VersionCall}

/-- A row has the name of the kernel of its version. -/
theorem RefinesVersions.named_iff (h : RefinesVersions lib ws r log) (hlib : Libraries lib)
    {kernelName : Bytes} {v : StoredVersion} (hv : v ∈ log) :
    v.row.Named kernelName ↔ nameOf lib v.id = kernelName := by
  rw [KernelEntry.Named, h.name hlib hv]

/-- The last row of which something holds is that of the last version of which it does. -/
theorem RefinesVersions.find_last (h : RefinesVersions lib ws r log) {p : KernelEntry → Bool}
    {q : Id20 → Bool} (hpq : ∀ v ∈ log, p v.row = q v.id) :
    ((log.map StoredVersion.row).reverse.find? p).map KernelEntry.kernelId =
      r.versions.reverse.find? q := by
  rw [← h.versions, ← List.map_reverse, ← List.map_reverse, List.find?_map, List.find?_map,
    Option.map_map]
  refine congrArg _ (List.find?_congr fun v hv => ?_)
  exact hpq v (List.mem_reverse.mp hv)

/-- The row that is picked is that of the version that is shown. -/
theorem RefinesVersions.latestNamed (h : RefinesVersions lib ws r log) (hlib : Libraries lib)
    (kernelName : Bytes) :
    (latestNamed (log.map StoredVersion.row) kernelName).map KernelEntry.kernelId =
      r.shown kernelName := by
  rw [TPBench.latestNamed, Versions.shown, Option.map_or]
  refine congrArg₂ Option.or (h.find_last fun v hv => ?_) (h.find_last fun v hv => ?_)
  · refine decide_eq_decide.mpr (and_congr (h.named_iff hlib hv) ?_)
    rw [h.active v hv]
    split
    · rename_i hactive
      exact iff_of_true (by decide) hactive
    · rename_i hactive
      exact iff_of_false (by decide) hactive
  · exact decide_eq_decide.mpr (h.named_iff hlib hv)

/-- The record of a row that was picked. -/
theorem StoreAfter.get (h : StoreAfter lib calls ws log) (query : KernelQuery) {idx : ℕ}
    {e : KernelEntry} (hpick : query.pick (log.map StoredVersion.row) = .ok idx)
    (hidx : (log.map StoredVersion.row)[idx]? = some e) :
    ShowsVersion calls query ws e.kernelId := by
  have hlift : propagate .cliKernel (liftExcept (query.pick (log.map StoredVersion.row))) ws =
      .ok idx ws := by
    rw [hpick]
    rfl
  have hget : tpbcliKernelGet query ws = (do
      let v ← propagate .cliKernel (tpbRafRecordReadKernel e.kernelId true)
      return (e, v) : WsM (KernelEntry × RecordView KernelAttr)) ws := by
    refine bind_then (propagate_eq_ok.mpr h.refines.store.list) ?_
    refine bind_then hlift ?_
    rw [hidx]
  obtain ⟨v, hv, rfl⟩ := List.mem_map.mp (List.mem_of_getElem? hidx)
  obtain ⟨rec, hread, hagree⟩ | ⟨hcut, ⟨rec, hread, hid⟩ | ⟨mod, cause, hread⟩⟩ := h.read hv
  · exact .inl ⟨v.row, rec, hget.trans (bind_then (propagate_eq_ok.mpr hread) rfl), rfl, hagree⟩
  · exact .inr ⟨hcut, .inl ⟨v.row, rec, hget.trans (bind_then (propagate_eq_ok.mpr hread) rfl),
      rfl, hid⟩⟩
  · obtain ⟨mod', cause', herr⟩ : ∃ mod' cause',
        propagate .cliKernel (tpbRafRecordReadKernel v.row.kernelId true) ws =
          .error (.code mod' cause') ws := by
      have hread' : tpbRafRecordReadKernel v.row.kernelId true ws =
          .error (.code mod cause) ws := hread
      simp only [propagate, hread']
      cases cause <;> exact ⟨_, _, rfl⟩
    exact .inr ⟨hcut, .inr ⟨mod', cause', hget.trans (bind_error herr)⟩⟩

/-- Nothing is shown when no row was picked. -/
theorem RefinesVersions.get_error (h : RefinesVersions lib ws r log) {query : KernelQuery}
    (hpick : query.pick (log.map StoredVersion.row) =
      .error (.code .cliKernel .listNotFound)) :
    tpbcliKernelGet query ws = .error (.code .cliKernel .listNotFound) ws := by
  refine bind_then (propagate_eq_ok.mpr h.store.list) (bind_error ?_)
  rw [hpick]
  rfl

end Shown

end TPBench
