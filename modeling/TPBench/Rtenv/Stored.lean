import TPBench.Keyed
import TPBench.Raf.Frames
import TPBench.Raf.RtenvChildren
import TPBench.Rtenv.Written

/-!
# Records as the Writers Leave Them

A record of a runtime environment starts with the table of its applications, has four headers
for each of its variables, and ends with the list of its children once it has any.
`Stored ws id apps vars` says that the workspace holds such a record for an environment, with
these applications and variables. What is written for settings is such a record
(`declares_writtenRecord`, `stored_set`), and it stays one with another child
(`Declares.deriveUpdate_fresh`).

`Stored.sfMergeRecordDelta_eq` says what a merge makes of such a record: a step of two keyed
tables, which is refused when one of them would need more slots than there are.
-/

open CFile Conc Keyed

namespace TPBench

/-! ### Applications -/

/-- The strings of an application that a table holds as they are. -/
structure MergedApp.Fits (a : MergedApp) : Prop where
  name : 0 ∉ a.name ∧ a.name.length < 64
  version : 0 ∉ a.version ∧ a.version.length < 64
  note : 0 ∉ a.note ∧ a.note.length < 64

/-- The row of an application. -/
def MergedApp.row (a : MergedApp) : Bytes :=
  (snprintfS 64 a.name).toList ++ (snprintfS 64 a.version).toList ++
    (snprintfS 64 a.note).toList

@[simp] theorem MergedApp.length_row (a : MergedApp) : a.row.length = 192 := by
  simp [MergedApp.row]

theorem length_flatMap_row (apps : List MergedApp) :
    (apps.flatMap MergedApp.row).length = apps.length * 192 := by
  simp [List.length_flatMap]

/-- A cell of a table is read back as the string it was printed from. -/
theorem strAt_cell {s : Bytes} (hs : 0 ∉ s ∧ s.length < 64) (a b : Bytes) :
    strAt (a ++ ((snprintfS 64 s).toList ++ b)) a.length = some s := by
  rw [toList_snprintfS hs.1 hs.2, List.append_assoc, List.cons_append]
  exact strAt_append hs.1 a _

section Apps

variable {apps : List MergedApp} {maxVar : ℕ} {m : Merged} {ws : Workspace}

/-- A step of `_sf_merge_add_app` is a step of a keyed table with 32 slots. -/
theorem sfMergeAddApp_eq {a : MergedApp} (ha : a.Fits) (hm : m.apps.length ≤ 32) :
    sfMergeAddApp (some a.name) (some a.version) (some a.note) m =
      guarded (.code .none .cliFail) ((upsert MergedApp.name m.apps a).length ≤ 32)
        { m with apps := upsert MergedApp.name m.apps a } := by
  have hcut : ∀ s : Bytes, s.length < 64 → cut 64 s = s :=
    fun s hs => List.take_of_length_le (by omega)
  simp only [sfMergeAddApp, deref, pure_bind, hcut _ ha.name.2, hcut _ ha.version.2,
    hcut _ ha.note.2]
  rcases hfind : m.apps.findIdx? (·.name = a.name) with - | i
  · have hnew := findIdx_eq_none_iff_not_mem.mp hfind
    simp only [hfind]
    funext ws
    rw [guarded, upsert_of_not_mem hnew, List.length_append, List.length_singleton]
    by_cases hfull : 32 ≤ m.apps.length
    · rw [if_pos hfull, if_neg (by omega)]
      rfl
    · rw [if_neg hfull, if_pos (by omega)]
      rfl
  · have hmem : a.name ∈ m.apps.map MergedApp.name := by
      by_contra hnew
      cases hfind.symm.trans (findIdx_eq_none_iff_not_mem.mpr hnew)
    have hmod := modify_findIdx_eq_upsert hfind
      (f := fun y => { y with version := a.version, note := a.note })
      (fun y hy => by rw [hy])
    simp only [hfind]
    funext ws
    rw [guarded, length_upsert_of_mem hmem, if_pos hm, ← hmod]
    rfl

/-- The loop over the rows of a table is a loop over the applications. -/
theorem mergeApps_eq (done : List MergedApp) (hfits : ∀ a ∈ apps, a.Fits)
    (hlen : done.length + apps.length ≤ 32) (b : Bytes) (m : Merged) :
    (List.range' done.length apps.length).foldlM (fun out a =>
      if intMax < a * 3 * 64 then undefinedCall else
      sfMergeAddApp (strAt ((done ++ apps).flatMap MergedApp.row ++ b) (0 + a * 3 * 64))
        (strAt ((done ++ apps).flatMap MergedApp.row ++ b) (0 + a * 3 * 64 + 64))
        (strAt ((done ++ apps).flatMap MergedApp.row ++ b) (0 + a * 3 * 64 + 128)) out) m =
      apps.foldlM (fun out a =>
        sfMergeAddApp (some a.name) (some a.version) (some a.note) out) m := by
  induction apps generalizing done m with
  | nil => rfl
  | cons a apps ih =>
      have ha := hfits a (by simp)
      rw [List.length_cons] at hlen
      have hrest := fun m => ih (done ++ [a]) (fun x hx => hfits x (by simp [hx]))
        (by rw [List.length_append, List.length_singleton]; omega) m
      rw [List.append_assoc, List.singleton_append, List.length_append,
        List.length_singleton] at hrest
      have hpos : 0 + done.length * 3 * 64 = (done.flatMap MergedApp.row).length := by
        rw [length_flatMap_row]
        omega
      have hname : strAt ((done ++ a :: apps).flatMap MergedApp.row ++ b)
          (0 + done.length * 3 * 64) = some a.name := by
        have hcell := strAt_cell ha.name (done.flatMap MergedApp.row)
          ((snprintfS 64 a.version).toList ++ ((snprintfS 64 a.note).toList ++
            (apps.flatMap MergedApp.row ++ b)))
        rw [hpos, ← hcell]
        simp [MergedApp.row]
      have hversion : strAt ((done ++ a :: apps).flatMap MergedApp.row ++ b)
          (0 + done.length * 3 * 64 + 64) = some a.version := by
        have hcell := strAt_cell ha.version
          (done.flatMap MergedApp.row ++ (snprintfS 64 a.name).toList)
          ((snprintfS 64 a.note).toList ++ (apps.flatMap MergedApp.row ++ b))
        rw [hpos, ← hcell]
        simp [MergedApp.row]
      have hnote : strAt ((done ++ a :: apps).flatMap MergedApp.row ++ b)
          (0 + done.length * 3 * 64 + 128) = some a.note := by
        have hcell := strAt_cell ha.note
          (done.flatMap MergedApp.row ++ (snprintfS 64 a.name).toList ++
            (snprintfS 64 a.version).toList) (apps.flatMap MergedApp.row ++ b)
        rw [hpos, ← hcell]
        simp [MergedApp.row]
      have hint : ¬intMax < done.length * 3 * 64 := by
        simp only [intMax]
        omega
      rw [List.length_cons, List.range'_succ, List.foldlM_cons, List.foldlM_cons, if_neg hint,
        hname, hversion, hnote]
      exact bind_congr hrest

end Apps

/-! ### Variables -/

/-- The strings of a variable that a slot holds as they are. -/
structure EnvVar.Fits (x : EnvVar) : Prop where
  key : 0 ∉ x.key ∧ x.key.length < 256
  value : 0 ∉ x.value ∧ x.value.length < 4096

/-- A step of `_sf_merge_add_var` is a step of a keyed table. -/
theorem sfMergeAddVar_eq {maxVar : ℕ} {m : Merged} {x : EnvVar} (hx : x.Fits)
    (hm : m.vars.length ≤ maxVar) :
    sfMergeAddVar maxVar (some x.key) (some x.value) x.onSet x.onGet m =
      guarded (.code .none .cliFail) ((upsert EnvVar.key m.vars x).length ≤ maxVar)
        { m with vars := upsert EnvVar.key m.vars x } := by
  have hkey : cut 256 x.key = x.key := List.take_of_length_le (by have := hx.key.2; omega)
  have hvalue : cut 4096 x.value = x.value :=
    List.take_of_length_le (by have := hx.value.2; omega)
  simp only [sfMergeAddVar, deref, pure_bind, hkey, hvalue]
  rcases hfind : m.vars.findIdx? (·.key = x.key) with - | i
  · have hnew := findIdx_eq_none_iff_not_mem.mp hfind
    simp only [hfind]
    funext ws
    rw [guarded, upsert_of_not_mem hnew, List.length_append, List.length_singleton]
    by_cases hfull : maxVar ≤ m.vars.length
    · rw [if_pos hfull, if_neg (by omega)]
      rfl
    · rw [if_neg hfull, if_pos (by omega)]
      rfl
  · have hmem : x.key ∈ m.vars.map EnvVar.key := by
      by_contra hnew
      cases hfind.symm.trans (findIdx_eq_none_iff_not_mem.mpr hnew)
    have hmod := modify_findIdx_eq_upsert hfind
      (f := fun y => { y with value := x.value, onSet := x.onSet, onGet := x.onGet })
      (fun y hy => by rw [hy])
    simp only [hfind]
    funext ws
    rw [guarded, length_upsert_of_mem hmem, if_pos hm, ← hmod]
    rfl

/-! ### Records -/

/-- The end of a record: nothing, or the list of children. -/
inductive ChildList : List MetaHeader → List Int32 → Prop
  | none : ChildList [] []
  | some {h : MetaHeader} {ids : List Int32} : cstr h.name.toList = deriveToName →
      h.ndim = 1 → Normal h → h.dim0.toNat = ids.length →
      h.dataSize.toNat = 4 * ids.length → ChildList [h] ids

/-- A record with these applications and variables. -/
structure Declares (v : RecordView RtenvAttr) (apps : List MergedApp) (vars : List EnvVar)
    (tail : List MetaHeader) (ids : List Int32) : Prop where
  headers : v.headers = applicationHeader apps.length :: (varsFrom 0 vars ++ tail)
  data : v.data = apps.flatMap MergedApp.row ++ vars.flatMap varPayload ++ i32s ids
  napp : v.attr.napp.toNat = apps.length
  children : ChildList tail ids
  apps_fit : ∀ a ∈ apps, a.Fits
  vars_fit : ∀ x ∈ vars, x.Fits
  napp_le : apps.length ≤ 32
  count_le : 1 + vars.length * 4 ≤ intMax

/-- The workspace holds a record with these applications and variables for an environment. -/
def Stored (ws : Workspace) (id : Int32) (apps : List MergedApp) (vars : List EnvVar) : Prop :=
  ∃ r : Record rtenvFormat, ws.files (.rtenv id) = some r.bytes ∧ r.attr.id = id ∧
    ∃ tail ids, Declares r.view apps vars tail ids

/-- The applications and variables of a record on top of those merged so far. -/
def Merged.add (m : Merged) (apps : List MergedApp) (vars : List EnvVar) : Merged :=
  ⟨apps.foldl (upsert MergedApp.name) m.apps, vars.foldl (upsert EnvVar.key) m.vars⟩

/-- There are slots for all of it. -/
def Merged.InSlots (maxVar : ℕ) (m : Merged) : Prop :=
  m.apps.length ≤ 32 ∧ m.vars.length ≤ maxVar

instance (maxVar : ℕ) : DecidablePred (Merged.InSlots maxVar) := fun m => by
  unfold Merged.InSlots
  infer_instance

section Merging

variable {v : RecordView RtenvAttr} {apps : List MergedApp} {vars : List EnvVar}
  {tail : List MetaHeader} {ids : List Int32} {maxVar : ℕ} {m : Merged} {ws : Workspace}
  {id : Int32}

/-- The names of the headers of children have no bracket, and are not that of the
applications. -/
theorem ChildList.names (h : ChildList tail ids) :
    ∀ g ∈ tail, cstr g.name.toList = deriveToName := by
  cases h with
  | none => simp
  | some hname => simpa using hname

namespace Declares

variable (d : Declares v apps vars tail ids)
include d

/-- The variables lie behind the table of the applications. -/
theorem written (hsize : v.data.length < 2 ^ 64) :
    Written [applicationHeader apps.length] tail (apps.flatMap MergedApp.row) (i32s ids) vars
    where
  pre_names h hh := by
    rw [List.mem_singleton.mp hh, show cstr (applicationHeader apps.length).name.toList =
      applicationName from rfl]
    decide
  post_names h hh := by
    rw [d.children.names h hh]
    decide
  claimed_pre := by
    have hle := d.napp_le
    have hofNat : (UInt64.ofNat (apps.length * 3 * 64)).toNat = apps.length * 3 * 64 :=
      Nat.mod_eq_of_lt (by omega)
    rw [length_flatMap_row]
    change (UInt64.ofNat (apps.length * 3 * 64)).toNat + 0 = _
    omega
  count_le := by
    have hcount := d.count_le
    omega
  size_lt := by rwa [← d.data]
  strings x hx := ⟨(d.vars_fit x hx).key.1, (d.vars_fit x hx).value.1⟩

/-- The headers of variables have a bracket in their names. -/
theorem bracket_mem_name {h : MetaHeader} (hh : h ∈ varsFrom 0 vars) :
    91 ∈ cstr h.name.toList := by
  obtain ⟨x, hx, hmem⟩ := List.mem_flatMap.mp hh
  have hlt := List.snd_lt_of_mem_zipIdx hx
  have hcount := d.count_le
  simp only [varHeaders, List.mem_cons, List.not_mem_nil, or_false] at hmem
  rcases hmem with rfl | rfl | rfl | rfl
  all_goals
    rw [cstr_fieldHeader _ (by omega), VarField.headerName_eq]
    simp

/-- The loop that merges the applications. -/
theorem foldlM_appStep (m : Merged) :
    v.headers.zipIdx.foldlM (appStep v.headers v.data v.attr.napp) m =
      apps.foldlM (fun out a =>
        sfMergeAddApp (some a.name) (some a.version) (some a.note) out) m := by
  have hskip : ∀ (hs : List MetaHeader) (k : ℕ) (m : Merged),
      (∀ h ∈ hs, cstr h.name.toList ≠ applicationName) →
      (hs.zipIdx k).foldlM (appStep v.headers v.data v.attr.napp) m = pure m := by
    intro hs k m hhs
    refine foldlM_skip ?_ m
    intro h hh m
    rw [appStep, if_neg fun hc => hhs h.1 (List.fst_mem_of_mem_zipIdx hh) hc.1]
  have hvars : ∀ h ∈ varsFrom 0 vars, cstr h.name.toList ≠ applicationName := by
    intro h hh heq
    have hbracket := d.bracket_mem_name hh
    rw [heq] at hbracket
    revert hbracket
    decide
  have htail : ∀ h ∈ tail, cstr h.name.toList ≠ applicationName := by
    intro h hh
    rw [d.children.names h hh]
    decide
  have hrest : ∀ m, ((varsFrom 0 vars ++ tail).zipIdx 1).foldlM
      (appStep v.headers v.data v.attr.napp) m = pure m := by
    intro m
    refine hskip _ 1 m ?_
    intro h hh
    rcases List.mem_append.mp hh with hh | hh
    · exact hvars h hh
    · exact htail h hh
  have hzip : v.headers.zipIdx =
      (applicationHeader apps.length, 0) :: (varsFrom 0 vars ++ tail).zipIdx 1 := by
    rw [d.headers]
    rfl
  rw [hzip, List.foldlM_cons]
  simp only [hrest, bind_pure]
  have hname : cstr (applicationHeader apps.length).name.toList = applicationName := rfl
  rw [appStep, hname]
  rcases happs : apps with - | ⟨a, rest⟩
  · -- an empty table is not merged
    have hzero : ¬0 < v.attr.napp := by
      rw [UInt32.lt_iff_toNat_lt, d.napp, happs]
      exact Nat.lt_irrefl 0
    rw [if_neg fun hc => hzero hc.2.2]
    rfl
  · rw [← happs]
    have hdata : v.data ≠ [] := by
      rw [d.data, happs]
      intro hnil
      have hlen := congrArg List.length hnil
      simp at hlen
    have hpos : 0 < v.attr.napp := by
      rw [UInt32.lt_iff_toNat_lt, d.napp, happs]
      exact Nat.succ_pos _
    have hoff : sfHdrPayloadOff v.headers 0 = 0 := rfl
    have hcount : intCount v.attr.napp = apps.length := by
      have hle := d.napp_le
      rw [intCount, d.napp, if_pos (by simp only [intMax]; omega)]
    rw [if_pos ⟨rfl, hdata, hpos⟩, mergeApps, hoff, hcount, List.range_eq_range', d.data,
      List.append_assoc]
    exact mergeApps_eq [] d.apps_fit (by simpa using d.napp_le) _ m

/-- **Merging a record** puts its applications and variables into two keyed tables, unless
one of them has too few slots. -/
theorem mergeView_eq (hsize : v.data.length < 2 ^ 64)
    (hnheader : v.headers.length = v.attr.nheader.toNat) (hm : m.InSlots maxVar)
    (ws : Workspace) :
    mergeView maxVar v m ws = guarded (.code .none .cliFail)
      ((m.add apps vars).InSlots maxVar) (m.add apps vars) ws := by
  have hlen : v.headers.length ≤ intMax := by
    have hcount := d.count_le
    have htail : tail.length ≤ 1 := by
      cases d.children with
      | none => exact Nat.zero_le 1
      | some => exact le_rfl
    rw [d.headers, List.length_cons, List.length_append, length_varsFrom]
    simp only [intMax] at hcount ⊢
    omega
  have hall : v.headers.take (intCount v.attr.nheader) = v.headers := by
    rw [intCount, ← hnheader, if_pos hlen, List.take_length]
  have hvars : _ = vars.foldlM (fun out x =>
      sfMergeAddVar maxVar (some x.key) (some x.value) x.onSet x.onGet out)
      { m with apps := apps.foldl (upsert MergedApp.name) m.apps } :=
    (d.written hsize).foldlM_varStep _
  rw [List.append_assoc, List.singleton_append, ← d.headers, ← d.data] at hvars
  have happFold : ∀ (apps : List MergedApp) (m : Merged),
      apps.foldl (fun m a => { m with apps := upsert MergedApp.name m.apps a }) m =
        { m with apps := apps.foldl (upsert MergedApp.name) m.apps } := by
    intro apps
    induction apps with
    | nil => exact fun _ => rfl
    | cons a apps ih => exact fun m => ih _
  have hvarFold : ∀ (vars : List EnvVar) (m : Merged),
      vars.foldl (fun m x => { m with vars := upsert EnvVar.key m.vars x }) m =
        { m with vars := vars.foldl (upsert EnvVar.key) m.vars } := by
    intro vars
    induction vars with
    | nil => exact fun _ => rfl
    | cons x vars ih => exact fun m => ih _
  have happGuard := foldlM_guarded (p := fun m : Merged => m.apps.length ≤ 32)
    (g := fun m a => { m with apps := upsert MergedApp.name m.apps a })
    (s := ws) (fun m a h => (length_le_length_upsert m.apps a).trans h)
    (fun a ha m hm => congrFun (sfMergeAddApp_eq (d.apps_fit a ha) hm) ws) hm.1
  have hvarGuard := foldlM_guarded (p := fun m : Merged => m.vars.length ≤ maxVar)
    (g := fun m x => { m with vars := upsert EnvVar.key m.vars x })
    (s := ws) (fun m x h => (length_le_length_upsert m.vars x).trans h)
    (fun x hx m hm => congrFun (sfMergeAddVar_eq (d.vars_fit x hx) hm) ws)
    (b := { m with apps := apps.foldl (upsert MergedApp.name) m.apps }) hm.2
  rw [happFold] at happGuard
  rw [hvarFold] at hvarGuard
  simp only [mergeView, hall, d.foldlM_appStep]
  by_cases happs : (apps.foldl (upsert MergedApp.name) m.apps).length ≤ 32
  · rw [guarded, if_pos happs] at happGuard
    rw [bind_ok happGuard, hvars, hvarGuard, guarded, guarded]
    exact if_congr (and_iff_right happs).symm rfl rfl
  · rw [guarded, if_neg happs] at happGuard
    rw [bind_error happGuard, guarded, if_neg fun h => happs h.1]

end Declares

/-- **Merging a stored record.** -/
theorem Stored.sfMergeRecordDelta_eq (h : Stored ws id apps vars) (hm : m.InSlots maxVar) :
    sfMergeRecordDelta maxVar id m ws = guarded (.code .none .cliFail)
      ((m.add apps vars).InSlots maxVar) (m.add apps vars) ws := by
  obtain ⟨r, hr, -, tail, ids, d⟩ := h
  refine (bind_ok (recordRead_of_bytes hr)).trans ?_
  refine d.mergeView_eq r.data_lt ?_ hm ws
  rw [Record.view, List.length_map]
  exact r.nheader_eq

end Merging

/-! ### The writers -/

section Writers

variable {ws ws' : Workspace} {apps : List MergedApp} {vars : List EnvVar} {id : Int32}

/-- Whether a record is stored depends on its file only. -/
theorem Stored.of_files (h : Stored ws id apps vars)
    (hf : ws'.files (.rtenv id) = ws.files (.rtenv id)) : Stored ws' id apps vars := by
  obtain ⟨r, hr, hrest⟩ := h
  exact ⟨r, hf.trans hr, hrest⟩

/-- The strings of an application as they are printed into a row. -/
def RtenvApp.mergedApp (a : RtenvApp) : MergedApp :=
  ⟨cut 64 (cstr a.name.toList), cut 64 (cstr a.version.toList), cut 64 (cstr a.note.toList)⟩

theorem fits_cut_cstr (bs : Bytes) : 0 ∉ cut 64 (cstr bs) ∧ (cut 64 (cstr bs)).length < 64 := by
  refine ⟨fun h => ?_, ?_⟩
  · have hne := List.mem_takeWhile_imp (List.mem_of_mem_take h)
    simp at hne
  · rw [cut, List.length_take]
    omega

theorem RtenvApp.fits_mergedApp (a : RtenvApp) : a.mergedApp.Fits :=
  ⟨fits_cut_cstr _, fits_cut_cstr _, fits_cut_cstr _⟩

/-- Printing what was cut already. -/
theorem snprintfS_cut (n : ℕ) (bs : Bytes) :
    snprintfS n (cut n (cstr bs)) = snprintfS n bs := by
  have hzero : (0 : UInt8) ∉ cut n (cstr bs) := by
    intro h
    have hne := List.mem_takeWhile_imp (List.mem_of_mem_take h)
    simp at hne
  rw [snprintfS, snprintfS, cstr_of_not_mem hzero, cut, List.take_take, min_self]

theorem RtenvApp.row_mergedApp (a : RtenvApp) : a.mergedApp.row = a.payload := by
  simp only [MergedApp.row, RtenvApp.mergedApp, RtenvApp.payload, snprintfS_cut]

/-- The headers in front of the list of children have other names. -/
theorem Declares.front_names {v : RecordView RtenvAttr} {tail : List MetaHeader}
    {ids : List Int32} (d : Declares v apps vars tail ids) :
    ∀ g ∈ applicationHeader apps.length :: varsFrom 0 vars, isDerive g = false := by
  have hcstr : ∀ g : MetaHeader, isDerive g = true → cstr g.name.toList = deriveToName := by
    intro g hg
    have htake := beq_iff_eq.mp hg
    rw [← List.take_append_drop (deriveToName.length + 1) g.name.toList, htake,
      List.append_assoc]
    exact cstr_append_zero (by decide) _
  intro g hg
  by_contra hderive
  have hname := hcstr g (by simpa using hderive)
  rcases List.mem_cons.mp hg with rfl | hg
  · have happ : applicationName = deriveToName := hname
    cases happ
  · have hbracket := d.bracket_mem_name hg
    rw [hname] at hbracket
    revert hbracket
    decide

/-- They claim the payload in front of this list. -/
theorem Declares.claimed_front {v : RecordView RtenvAttr} {tail : List MetaHeader}
    {ids : List Int32} (d : Declares v apps vars tail ids) (hsize : v.data.length < 2 ^ 64) :
    claimed (applicationHeader apps.length :: varsFrom 0 vars) =
      (apps.flatMap MergedApp.row ++ vars.flatMap varPayload).length := by
  have hlt := hsize
  rw [d.data] at hlt
  simp only [List.length_append] at hlt
  rw [List.length_append, ← (d.written hsize).claimed_pre,
    ← @claimed_varsFrom 0 vars (by omega), ← claimed_append]
  rfl

theorem Declares.length_front_le {v : RecordView RtenvAttr} {tail : List MetaHeader}
    {ids : List Int32} (d : Declares v apps vars tail ids) :
    (applicationHeader apps.length :: varsFrom 0 vars).length ≤ intMax := by
  have hcount := d.count_le
  rw [List.length_cons, length_varsFrom]
  omega

/-- The list of children in the record. -/
theorem Declares.deriveHolds {v : RecordView RtenvAttr} {tail : List MetaHeader}
    {ids : List Int32} (d : Declares v apps vars tail ids) (hsize : v.data.length < 2 ^ 64) :
    DeriveHolds v.headers v.data ids := by
  rw [d.headers, d.data, ← List.cons_append]
  rcases d.children with - | ⟨hname, hndim, -, hdim, hsize'⟩
  · refine .none ?_ ?_ ?_
    · rw [List.append_nil]
      exact d.front_names
    · rw [List.append_nil]
      exact d.length_front_le
    · rw [List.append_nil, d.claimed_front hsize]
      exact congrArg List.length (List.append_nil _).symm
  · rename_i h
    have hderive : isDerive h = true :=
      nameIs_of_cstr hname (by rw [List.Vector.toList_length]; decide)
    rw [← List.append_nil (_ ++ i32s ids)]
    refine .some d.front_names hderive d.length_front_le ?_ hdim hsize' (d.claimed_front hsize) rfl
    rw [hndim]
    exact le_rfl

/-- The record of a parent with one more child. -/
theorem Declares.deriveUpdate_fresh {v : RecordView RtenvAttr} {tail : List MetaHeader}
    {ids : List Int32} {childId : Int32} (d : Declares v apps vars tail ids)
    (hsize : v.data.length < 2 ^ 64) (hnormal : ∀ g ∈ v.headers, Normal g)
    (hchild : childId ∉ ids) :
    deriveUpdate v childId = .undefined ∨ ∃ a hs data tail',
      deriveUpdate v childId = .rewrite a hs data ∧ (∀ g ∈ hs, Normal g) ∧
        hs = applicationHeader apps.length :: (varsFrom 0 vars ++ tail') ∧
        data = apps.flatMap MergedApp.row ++ vars.flatMap varPayload ++ i32s (ids ++ [childId]) ∧
        ChildList tail' (ids ++ [childId]) ∧ a.napp = v.attr.napp := by
  have hheaders := d.headers
  have hdata := d.data
  rcases d.children with - | ⟨hname, hndim, hn, hdim, hsize'⟩
  · have hnone : ∀ g ∈ v.headers, isDerive g = false := by
      rw [hheaders, List.append_nil]
      exact d.front_names
    refine (deriveUpdate_first hnone).imp id fun hup => ?_
    refine ⟨_, _, _, [deriveHeader], hup, ?_, ?_, ?_, ?_, rfl⟩
    · intro g hg
      rcases List.mem_append.mp hg with hg | hg
      · exact hnormal g hg
      · rw [List.mem_singleton.mp hg]
        exact normal_deriveHeader
    · rw [hheaders]
      simp
    · rw [hdata]
      simp [i32s]
    · exact .some rfl rfl normal_deriveHeader rfl rfl
  · rename_i h
    have hderive : isDerive h = true :=
      nameIs_of_cstr hname (by rw [List.Vector.toList_length]; decide)
    have hdata' : v.data = apps.flatMap MergedApp.row ++ vars.flatMap varPayload ++
        i32s ids ++ [] := by rw [hdata, List.append_nil]
    refine (deriveUpdate_next d.front_names hderive d.length_front_le hdim
      (d.claimed_front hsize) hheaders hdata' hsize
      hchild).imp id ?_
    rintro ⟨hfits, hup⟩
    rw [hdata] at hfits
    simp only [List.length_append] at hfits
    obtain ⟨hdim', hsize''⟩ := @oneMore_sizes h ids childId hdim (by omega)
    refine ⟨_, _, _, [h.oneMore], hup, ?_, rfl, List.append_nil _, ?_, rfl⟩
    · intro g hg
      rcases List.mem_append.mp hg with hg | hg
      · exact hnormal g (hheaders ▸ List.mem_append_left [h] hg)
      · rw [List.mem_singleton.mp hg]
        exact hn.oneMore hndim
    · exact .some hname hndim (hn.oneMore hndim) hdim' hsize''

/-- Writing such a record stores it. -/
theorem stored_set {r : Record rtenvFormat} {tail : List MetaHeader} {ids : List Int32}
    (d : Declares r.view apps vars tail ids) :
    Stored (ws.set (.rtenv r.attr.id) r.bytes) r.attr.id apps vars :=
  ⟨r, ws.set_files_same _ _, rfl, tail, ids, d⟩

end Writers

/-! ### The command line tool -/

section WriteRecord

variable {ws ws' : Workspace} (hostname : CArr 256) (utcBits : UInt64) (id : Int32)
  (name note : Bytes) (inheritFrom : Int32) (spec : RtenvSpec)

/-- The payload that `tpbcli_rtenv_write_record` assembles. -/
def RtenvSpec.payload : Bytes :=
  spec.apps.flatMap RtenvApp.payload ++ (spec.vars.map RtenvVar.envVar).flatMap varPayload

/-- The record it writes. -/
def writtenRecord (hroom : spec.payload.length ≤ 65536) : Record rtenvFormat where
  attr := writeRecordAttr id name inheritFrom spec
    (writeRecordEntry hostname utcBits id name note inheritFrom spec)
  headers := applicationHeader spec.apps.length :: varsHeaders (spec.vars.map RtenvVar.envVar)
  buf := some spec.payload
  nheader_eq := by
    have hnenv := spec.nenv_le
    change _ = (UInt32.ofNat (1 + spec.vars.length * 4)).toNat
    rw [UInt32.toNat_ofNat', List.length_cons, length_varsHeaders, List.length_map]
    omega
  ndim_le := by
    intro h hh
    rcases List.mem_cons.mp hh with rfl | hh
    · exact Nat.le_of_ble_eq_true rfl
    · rw [ndim_varsHeaders hh]
      exact Nat.le_of_ble_eq_true rfl
  data_lt := by
    rw [Option.getD_some]
    omega

variable {hostname utcBits id name note inheritFrom spec}

/-- It declares the applications and variables of the template. -/
theorem declares_writtenRecord {hroom : spec.payload.length ≤ 65536}
    (hfit : ∀ x ∈ spec.vars.map RtenvVar.envVar, x.Fits) :
    Declares (writtenRecord hostname utcBits id name note inheritFrom spec hroom).view
      (spec.apps.map RtenvApp.mergedApp) (spec.vars.map RtenvVar.envVar) [] [] := by
  have hnapp := spec.napp_le
  have hnenv := spec.nenv_le
  refine ⟨?_, ?_, ?_, .none, ?_, hfit, by simpa using hnapp, ?_⟩
  · rw [List.length_map, List.append_nil]
    change (applicationHeader spec.apps.length).norm ::
      (varsFrom 0 (spec.vars.map RtenvVar.envVar)).map MetaHeader.norm = _
    rw [map_norm_varsFrom]
    rfl
  · have hrows : (spec.apps.map RtenvApp.mergedApp).flatMap MergedApp.row =
        spec.apps.flatMap RtenvApp.payload := by
      rw [List.flatMap_map]
      exact congrArg spec.apps.flatMap (funext RtenvApp.row_mergedApp)
    rw [hrows]
    exact (List.append_nil _).symm
  · change (UInt32.ofNat spec.apps.length).toNat = _
    rw [UInt32.toNat_ofNat', List.length_map]
    omega
  · intro a ha
    obtain ⟨a, -, rfl⟩ := List.mem_map.mp ha
    exact a.fits_mergedApp
  · rw [List.length_map]
    simp only [intMax]
    omega

end WriteRecord

end TPBench
