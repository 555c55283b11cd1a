import TPBench.Rtenv.EnvsStep

/-!
# Lookups and Creations without Failures

When no action fails, the lookups of the tool find what the lineage says, and `rtenv new` creates
an environment whenever its arguments can be read and name a parent, the name is new, and there
is room for the payload (`RefinesEnvs.exec_tpbcliRtenvNew`). So does a task that is counted for an
environment with a record (`RefinesEnvs.exec_counters`).
-/

open CFile Conc

namespace TPBench

/-! ### Lookups -/

section Lookups

variable {ws : Workspace} {E : Envs} {rows : List RtenvEntry} {id : Int32} {name : Bytes}

theorem RefinesEnvs.exec_idExists (href : RefinesEnvs ws E) (id : Int32) :
    (tpbcliRtenvIdExists id).exec ws = .ok (E.ofId id).isSome ws := by
  obtain ⟨rows, -, hlinks, hlist⟩ := href.list
  have hany : rows.any (fun e => e.id == id) = (E.ofId id).isSome := by
    rw [Bool.eq_iff_iff, List.any_eq_true, Option.isSome_iff_exists]
    simp only [beq_iff_eq]
    constructor
    · exact ofId_of_listed href.count_le hlinks
    · rintro ⟨i, hi⟩
      exact (id_listed_iff hlinks).mpr ⟨i, (Envs.ofId_eq_some href.count_le).mp hi⟩
  rw [tpbcliRtenvIdExists, exec_rowExistsP, rowExists, hlist, ← hany]

/-- A name that no row has is that of no environment. -/
theorem ofName_of_not_listed (hlinks : rows.map RtenvEntry.link = E.links)
    (h : rows.find? (fun e => cstr e.name.toList = name) = none) : E.ofName name = none := by
  have hmem : name ∉ E.names := by
    rw [← name_listed_iff hlinks]
    rintro ⟨e, he, hname⟩
    exact absurd hname (by simpa using List.find?_eq_none.mp h e he)
  rw [Envs.ofName, List.findIdx?_eq_none_iff]
  intro n hn
  rw [decide_eq_false_iff_not]
  rintro rfl
  exact hmem (List.mem_map_of_mem hn)

theorem RefinesEnvs.exec_idOfName (href : RefinesEnvs ws E) (name : Bytes) :
    (idOfName name).exec ws = match E.ofName name with
      | some i => .ok (idAt i) ws
      | none => .error (.code .cliRtenv .listNotFound) ws := by
  obtain ⟨rows, -, hlinks, hlist⟩ := href.list
  have hfind : (tpbcliRtenvFindIdByName name).exec ws = match E.ofName name with
      | some i => .ok (idAt i) ws
      | none => .error (.code .none .listNotFound) ws := by
    rw [tpbcliRtenvFindIdByName, Prog.exec_handle, Prog.exec_call, hlist]
    dsimp only [outcome, after]
    rcases hrow : rows.find? (fun e => cstr e.name.toList = name) with - | e
    · rw [hrow, ofName_of_not_listed hlinks hrow]
      rfl
    · obtain ⟨i, hi, hid⟩ := ofName_of_find hlinks hrow
      rw [hrow, hi]
      exact congrArg (EStateM.Result.ok · ws) hid.symm
  rw [idOfName, Prog.exec_handle, hfind]
  cases E.ofName name with
  | none => rfl
  | some i => rfl

/-- The base ID is that of the current environment, if there is one. -/
theorem RefinesEnvs.ofId_baseId (href : RefinesEnvs ws E) :
    E.ofId (ws.baseId.getD 1) = E.current := by
  rw [← E.ofId_base href.count_le, href.base]
  cases E.base with
  | none => rfl
  | some b => rfl

theorem Envs.activeOfTool_lt (hle : E.count ≤ intMax) {envId : Option Bytes} {i : ℕ}
    (h : E.activeOfTool envId = some i) : i < E.count := by
  rcases envId with - | (- | ⟨b, bs⟩)
  · exact ((Envs.ofId_eq_some hle).mp ((E.ofId_base hle).trans h)).1
  · exact ((Envs.ofId_eq_some hle).mp ((E.ofId_base hle).trans h)).1
  · exact ((Envs.ofId_eq_some hle).mp h).1

/-- The active environment of the tool, or the failure of its callers. -/
theorem RefinesEnvs.exec_activeOfTool (href : RefinesEnvs ws E) (envId : Option Bytes) :
    (activeOfTool envId).exec ws = match E.activeOfTool envId with
      | some i => .ok (idAt i) ws
      | none => .error (.code .cliRtenv .cliFail) ws := by
  have hbase := href.ofId_baseId
  obtain ⟨id, hcli, hid⟩ : ∃ id, (tpbcliRtenvResolveActiveIdCli envId).exec ws = .ok id ws ∧
      E.ofId id = E.activeOfTool envId := by
    rcases envId with - | (- | ⟨b, bs⟩)
    · exact ⟨_, rfl, hbase⟩
    · exact ⟨_, rfl, hbase⟩
    · exact ⟨_, rfl, rfl⟩
  rw [activeOfTool, Prog.exec_handle, hcli]
  dsimp only [outcome, after]
  rw [Prog.exec_bind, ← hid]
  refine (bind_ok (href.exec_idExists id)).trans ?_
  rcases hof : E.ofId id with - | i
  · rfl
  · have hsame : idAt i = id := ((Envs.ofId_eq_some href.count_le).mp hof).2
    exact congrArg (EStateM.Result.ok · ws) hsame.symm

/-- The parent that the settings name. -/
theorem RefinesEnvs.exec_sfResolveInherit (href : RefinesEnvs ws E) {envId : Option Bytes}
    {spec : RtenvSettings} {p : Option ℕ} (h : E.inherit envId spec = some p) :
    (sfResolveInherit envId spec).exec ws = .ok (parentId p) ws := by
  rw [Envs.inherit] at h
  rw [sfResolveInherit]
  split_ifs at h ⊢ with hinherit
  · dsimp only at h ⊢
    generalize cstr spec.inheritFromText.toList = text at h ⊢
    generalize decide (text ≠ [] ∧ (strtol text).2 = []) = isNumber at h ⊢
    have hbyName : ∀ i, E.ofName text = some i → (idOfName text).exec ws = .ok (idAt i) ws := by
      intro i hof
      rw [href.exec_idOfName, hof]
    split_ifs at h ⊢ with hzero
    · obtain rfl := Option.some.inj h
      rfl
    · obtain ⟨i, hi, rfl⟩ := Option.map_eq_some_iff.mp h
      rw [Prog.exec_bind, bind_ok (href.exec_idExists (idOfText text))]
      rcases hof : E.ofId (idOfText text) with - | j
      · rw [hof] at hi
        exact hbyName i hi
      · rw [hof] at hi
        obtain rfl := Option.some.inj hi
        exact congrArg (EStateM.Result.ok · ws) ((Envs.ofId_eq_some href.count_le).mp hof).2.symm
    · obtain ⟨i, hi, rfl⟩ := Option.map_eq_some_iff.mp h
      exact hbyName i hi
  · obtain ⟨i, hi, rfl⟩ := Option.map_eq_some_iff.mp h
    rw [href.exec_activeOfTool, hi]
    rfl

end Lookups

/-! ### Creations -/

section Create

variable {ws : Workspace} {E : Envs}

/-- The next ID. -/
theorem RefinesEnvs.alloc_ok (href : RefinesEnvs ws E) (hroom : E.count < intMax) :
    tpbRafRtenvAllocNextId ws = .ok (idAt E.count) ws := by
  obtain ⟨rows, -, hlinks, hlist⟩ := href.list
  have hmax := toInt_maxId hlinks href.count_le
  have hne : maxId rows ≠ Int32.maxValue := by
    intro h
    rw [h] at hmax
    have hlast : Int32.maxValue.toInt = (intMax : ℤ) := rfl
    omega
  have hnext : maxId rows + 1 = idAt E.count := by
    have hone : (1 : Int32).toInt = 1 := rfl
    rw [← Int32.toInt_inj, toInt_idAt hroom, Int32.toInt_add, hmax, hone, Int.bmod_def]
    rw [intMax] at hroom
    omega
  refine bind_then (propagate_eq_ok.mpr hlist) ?_
  rw [if_neg hne, hnext]
  rfl

/-- A row with a new name is appended. -/
theorem RefinesEnvs.append_ok (href : RefinesEnvs ws E) {e : RtenvEntry}
    (hname : cstr e.name.toList ∉ E.names) :
    ∃ rows, tpbRafEntryAppendRtenv e ws =
      .ok () (ws.set (.entry .rtenv) (rtenvRow.table (rows ++ [e]))) ∧
      rows.map RtenvEntry.link = E.links := by
  obtain ⟨rows, hrows, hlinks, hlist⟩ := href.list
  have hfree : sfNameExists (cstr e.name.toList) ws = .ok false ws := by
    have hany : rows.any (fun f => cstr f.name.toList == cstr e.name.toList) = false := by
      rw [List.any_eq_false]
      intro f hf heq
      exact hname ((name_listed_iff hlinks).mp ⟨f, hf, beq_iff_eq.mp heq⟩)
    rw [sfNameExists, rowExists, hlist]
    exact congrArg (EStateM.Result.ok · ws) hany
  exact ⟨rows, bind_then hfree (entryAppendRow_ok hrows e), hlinks⟩

/-- The table has a row for every environment. -/
theorem RefinesEnvs.table (href : RefinesEnvs ws E) {i : ℕ} (hi : i < E.count) :
    ∃ rows, ws.files (.entry .rtenv) = some (rtenvRow.table rows) ∧ ∃ e ∈ rows, e.id = idAt i := by
  obtain ⟨rows, hrows, hlinks⟩ := href.rows
  have hlisted : ∃ e ∈ rows, e.id = idAt i := (id_listed_iff hlinks).mpr ⟨i, hi, rfl⟩
  rcases hrows with htable | ⟨-, rfl⟩
  · exact ⟨rows, htable, hlisted⟩
  · obtain ⟨e, he, -⟩ := hlisted
    cases he

/-- A task is counted for an environment with a record. -/
theorem RefinesEnvs.exec_counters (href : RefinesEnvs ws E) {i : ℕ} (hi : i < E.count)
    {r : Record rtenvFormat} (hfile : ws.files (.rtenv (idAt i)) = some r.bytes) (m n : UInt32) :
    ∃ ws', (tpbRafRecordPatchRtenvCountersP (idAt i) m n).exec ws = .ok () ws' := by
  obtain ⟨rows, htable, hlisted⟩ := href.table hi
  rw [exec_tpbRafRecordPatchRtenvCountersP]
  exact ⟨_, tpbRafRecordPatchRtenvCounters_run hfile htable hlisted m n⟩

/-- A registration with a listed parent, when its record has room for one more child. -/
theorem RefinesEnvs.derive_ok (href : RefinesEnvs ws E) {i : ℕ} (hi : i < E.count)
    {r : Record rtenvFormat} (hfile : ws.files (.rtenv (idAt i)) = some r.bytes)
    (hid : r.attr.id = idAt i) {child : Int32} (hroom : deriveUpdate r.view child ≠ .undefined) :
    ∃ ws', tpbRafRecordAppendRtenvDerive (idAt i) child ws = .ok () ws' := by
  obtain ⟨rows, htable, hlisted⟩ := href.table hi
  rw [← hid] at hfile hlisted ⊢
  exact tpbRafRecordAppendRtenvDerive_run hfile htable hlisted hroom

/-- What `rtenv new` needs of the record of the parent: room for one more child. -/
def ChildFits (ws : Workspace) (p : Option ℕ) (child : Int32) : Prop :=
  ∀ q ∈ p, ∃ r : Record rtenvFormat, ws.files (.rtenv (idAt q)) = some r.bytes ∧
    r.attr.id = idAt q ∧ deriveUpdate r.view child ≠ .undefined

variable {hostname : CArr 256} {utcBits : UInt64} {name note : Bytes} {p : Option ℕ}
  {spec : RtenvSpec}

/-- A row and a record are written, and the parent gets a child. -/
theorem RefinesEnvs.writeRecord_ok (href : RefinesEnvs ws E) (hcount : E.count < intMax)
    (hp : ∀ q ∈ p, q < E.count) (hname : cstr (snprintfS 256 name).toList ∉ E.names)
    (hroom : spec.payload.length ≤ 65536) (hchild : ChildFits ws p (idAt E.count)) :
    ∃ ws', tpbcliRtenvWriteRecord hostname utcBits (idAt E.count) name note (parentId p) spec
      ws = .ok () ws' := by
  obtain ⟨rows, happend, hlinks⟩ := href.append_ok
    (e := writeRecordEntry hostname utcBits (idAt E.count) name note (parentId p) spec) hname
  have h₁ : RefinesEnvs (ws.set (.entry .rtenv) (rtenvRow.table (rows ++
      [writeRecordEntry hostname utcBits (idAt E.count) name note (parentId p) spec])))
      (E.add p ⟨cstr (snprintfS 256 name).toList, none⟩ hp) :=
    href.append hcount hlinks rfl rfl rfl
  set r' := writtenRecord hostname utcBits (idAt E.count) name note (parentId p) spec hroom with hr'
  have h₂ : RefinesEnvs ((ws.set (.entry .rtenv) (rtenvRow.table (rows ++
      [writeRecordEntry hostname utcBits (idAt E.count) name note (parentId p) spec]))).set
      (.rtenv (idAt E.count)) r'.bytes) (E.add p ⟨cstr (snprintfS 256 name).toList,
        some ⟨spec.apps.map RtenvApp.mergedApp, spec.vars.map RtenvVar.envVar⟩⟩ hp) :=
    h₁.write (r := r') rfl (s := ⟨_, _⟩) fun hfit => declares_writtenRecord hfit
  have hwrite : ∀ ws, tpbRafRecordWriteRtenv (writeRecordAttr (idAt E.count) name (parentId p) spec
      (writeRecordEntry hostname utcBits (idAt E.count) name note (parentId p) spec))
      (applicationHeader spec.apps.length :: varsHeaders (spec.vars.map RtenvVar.envVar))
      (some spec.payload) (UInt64.ofNat spec.payload.length) ws =
        .ok () (ws.set (.rtenv (idAt E.count)) r'.bytes) := fun ws => rfl
  have hfront : tpbcliRtenvWriteRecord hostname utcBits (idAt E.count) name note (parentId p) spec
      ws = (if 0 < parentId p then
        ignoring (tpbRafRecordAppendRtenvDerive (parentId p) (idAt E.count)) else pure ())
          ((ws.set (.entry .rtenv) (rtenvRow.table (rows ++
            [writeRecordEntry hostname utcBits (idAt E.count) name note (parentId p) spec]))).set
          (.rtenv (idAt E.count)) r'.bytes) := by
    refine bind_then happend ((congrFun (if_neg (Nat.not_lt.mpr hroom)) _).trans ?_)
    exact bind_then (hwrite _) rfl
  rw [hfront]
  rcases p with - | q
  · exact ⟨_, rfl⟩
  · have hq := hp q rfl
    obtain ⟨r, hfile, hid, hup⟩ := hchild q rfl
    have hne : idAt q ≠ idAt E.count := by
      rw [ne_eq, idAt_inj (hq.trans hcount) hcount]
      exact hq.ne
    obtain ⟨ws', hderive⟩ := h₂.derive_ok (i := q) (r := r)
      (by rw [Envs.count_add]; exact Nat.lt_succ_of_lt hq)
      (by
        rw [Workspace.set_files_of_ne _ _ fun h => hne (Path.rtenv.inj h),
          Workspace.set_files_of_ne _ _ (by simp)]
        exact hfile) hid hup
    have hpos : 0 < parentId (some q) := idAt_pos (hq.trans hcount)
    refine ⟨ws', (congrFun (if_pos hpos) _).trans ?_⟩
    exact ignoring_ok hderive

/-- **`rtenv new` creates an environment** when its arguments can be read, they name a parent
with room for one more child, the name is new, and there is room for the payload. -/
theorem RefinesEnvs.exec_tpbcliRtenvNew (href : RefinesEnvs ws E) (hcount : E.count < intMax)
    {envId : Option Bytes} {argv : List Bytes} {file : Option Bytes} {args : NewArgs}
    {spec : RtenvSettings} (hargs : sfParseNewArgv argv = .ok args) (hout : args.outFile = none)
    (honly : args.outputOnly = false) (hspec : newSettings args file = .ok spec)
    (hinherit : E.inherit envId spec = some p) (hp : ∀ q ∈ p, q < E.count)
    (hempty : cstr (cstr spec.envName.toList) ≠ []) (hname : spec.storedName ∉ E.names)
    (hroom : spec.payload.length ≤ 65536) (hchild : ChildFits ws p (idAt E.count)) :
    ∃ ws', (tpbcliRtenvNew envId hostname utcBits argv file).exec ws = .ok .created ws' := by
  obtain ⟨ws', hwrite⟩ := @RefinesEnvs.writeRecord_ok _ _ hostname utcBits _
    (cstr spec.note.toList) _ _ href hcount hp hname hroom hchild
  have hcommit : sfCommitNew hostname utcBits (cstr spec.envName.toList) (cstr spec.note.toList)
      (parentId p) spec.toRtenvSpec ws = .ok () ws' := by
    rw [sfCommitNew, if_neg hempty]
    exact bind_then (propagate_eq_ok.mpr (href.alloc_ok hcount)) (propagate_eq_ok.mpr hwrite)
  refine ⟨ws', ?_⟩
  rw [tpbcliRtenvNew, hargs]
  dsimp only
  rw [if_neg (by simp [hout]), if_neg (by simp [honly]), hspec]
  dsimp only
  rw [Prog.exec_bind, bind_ok (href.exec_sfResolveInherit hinherit), Prog.exec_bind,
    exec_sfCommitNewP, bind_ok hcommit]
  rfl

end Create

end TPBench
