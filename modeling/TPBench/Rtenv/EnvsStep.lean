import TPBench.Conc.Faults
import TPBench.Rtenv.Envs

/-!
# What Calls Mean for the Lineage

The calls of the core library and the command line tool that create environments, look for the
active one, or count on one, as programs (`RtenvCall.prog`), and what each of them means for the
lineage of the environments (`EnvsStep`). At most one environment is added, under a parent that
was there before, and a call that fails can leave an environment behind, with or without what it
declares. Where nothing fails, names are new, and the environment that is found or inherited from
is the one that `Envs.active` and `Envs.inherit` name.

The rules about programs that run alone, and whose actions may fail, are those for the actions
that several calls share.
-/

open CFile Conc

namespace TPBench

/-! ### Calls -/

/-- A call of a session. -/
inductive RtenvCall
  | snapshot (sys : SysEnv) (alwaysNew : Bool)
  | active (envId : Option Bytes) (sys : SysEnv)
  | new (envId : Option Bytes) (hostname : CArr 256) (utcBits : UInt64) (argv : List Bytes)
      (file : Option Bytes)
  | counters (id : Int32) (addNtask addNtbatch : UInt32)

/-- What a call returns. -/
inductive RtenvDone
  | env (id : Int32)
  | new (done : NewDone)
  | counted

/-- The function that is called. -/
def RtenvCall.prog : RtenvCall → RtenvP RtenvDone
  | snapshot sys alwaysNew => do
      let id ← tpbRtenvSnapshotBuildEnvP sys alwaysNew
      return .env id
  | active envId sys => do
      let id ← tpbRtenvResolveActiveId envId sys
      return .env id
  | new envId hostname utcBits argv file => do
      let done ← tpbcliRtenvNew envId hostname utcBits argv file
      return .new done
  | counters id addNtask addNtbatch => do
      tpbRafRecordPatchRtenvCountersP id addNtask addNtbatch
      return .counted

/-! ### What a call means -/

namespace Envs

variable (E : Envs)

/-- The environment with an ID. -/
def ofId (id : Int32) : Option ℕ := (List.range E.count).find? (idAt · = id)

/-- The environment with a name. -/
def ofName (name : Bytes) : Option ℕ := E.tree.nodes.findIdx? (·.2.name = name)

/-- The base, which is the first environment as long as none has been made the base. -/
def current : Option ℕ := E.base.or (if 0 < E.count then some 0 else none)

/-- The environment that the variable names. -/
def ofVariable : Option Bytes → Option ℕ
  | some (b :: bs) => E.ofId (idOfText (b :: bs))
  | _ => none

/-- The active environment for the core library: a variable that names no environment is passed
over. -/
def active (envId : Option Bytes) : Option ℕ := (E.ofVariable envId).or E.current

/-- The active environment for the tool: a variable that is set has to name one. -/
def activeOfTool : Option Bytes → Option ℕ
  | some (b :: bs) => E.ofId (idOfText (b :: bs))
  | _ => E.current

/-- The parent of a new environment, which may be none, as far as the settings name one. -/
def inherit (envId : Option Bytes) (spec : RtenvSettings) : Option (Option ℕ) :=
  if spec.hasInherit then
    let text := cstr spec.inheritFromText.toList
    let isNumber : Bool := text ≠ [] ∧ (strtol text).2 = []
    if isNumber ∧ (strtol text).1 = 0 then some none
    else ((if isNumber then E.ofId (idOfText text) else none).or (E.ofName text)).map some
  else (E.activeOfTool envId).map some

end Envs

/-- What a search for an environment means, where `found` is the one it should find, and where
a snapshot is made when there is none. -/
inductive Resolves (faulty : Prop) (E : Envs) (found : Option ℕ) (sys : SysEnv) :
    Except Err Int32 → Envs → Prop
  | found {i : ℕ} : i < E.count → faulty ∨ found = some i →
      Resolves faulty E found sys (.ok (idAt i)) E
  | snapshot {name : Bytes} {hp : ∀ q ∈ none, q < E.count} {hb} : found = none →
      faulty ∨ name ∉ E.names → Resolves faulty E found sys (.ok (idAt E.count))
        ((E.add none ⟨name, some ⟨[], sys.environ.filterMap splitVar⟩⟩ hp).rebase E.count hb)
  | failed (e : Err) : Resolves faulty E found sys (.error e) E
  | failedNew {name : Bytes} {o : Option Settings} {hp : ∀ q ∈ none, q < E.count} (e : Err) :
      faulty ∨ name ∉ E.names →
      Resolves faulty E found sys (.error e) (E.add none ⟨name, o⟩ hp)

/-- What the creation of an environment under a parent means. -/
inductive Creates (faulty : Prop) (E : Envs) (p : Option ℕ) (name : Bytes) (s : Settings) :
    Except Err Unit → Envs → Prop
  | created {hp : ∀ q ∈ p, q < E.count} : faulty ∨ name ∉ E.names →
      Creates faulty E p name s (.ok ()) (E.add p ⟨name, some s⟩ hp)
  | failed (e : Err) : Creates faulty E p name s (.error e) E
  | failedNew {o : Option Settings} {hp : ∀ q ∈ p, q < E.count} (e : Err) :
      faulty ∨ name ∉ E.names → Creates faulty E p name s (.error e) (E.add p ⟨name, o⟩ hp)

/-- The name of settings, as it is stored. -/
def RtenvSettings.storedName (spec : RtenvSettings) : Bytes :=
  cstr (snprintfS 256 (cstr spec.envName.toList)).toList

/-- What settings declare. -/
def RtenvSettings.declared (spec : RtenvSettings) : Settings :=
  ⟨spec.apps.map RtenvApp.mergedApp, spec.vars.map RtenvVar.envVar⟩

/-- What a call means for the lineage, if actions may fail or not. -/
inductive EnvsStep (faulty : Prop) (E : Envs) :
    RtenvCall × Except Err RtenvDone → Envs → Prop
  | snapshot {sys : SysEnv} {alwaysNew : Bool} {r : Except Err Int32} {E' : Envs} :
      Resolves faulty E (if alwaysNew then none else E.current) sys r E' →
      EnvsStep faulty E (.snapshot sys alwaysNew, r.map .env) E'
  | active {envId : Option Bytes} {sys : SysEnv} {r : Except Err Int32} {E' : Envs} :
      Resolves faulty E (E.active envId) sys r E' →
      EnvsStep faulty E (.active envId sys, r.map .env) E'
  | template {envId : Option Bytes} {hostname : CArr 256} {utcBits : UInt64} {argv : List Bytes}
      {file : Option Bytes} (text : Bytes) :
      EnvsStep faulty E (.new envId hostname utcBits argv file, .ok (.new (.template text))) E
  | refused {envId : Option Bytes} {hostname : CArr 256} {utcBits : UInt64} {argv : List Bytes}
      {file : Option Bytes} (e : Err) :
      EnvsStep faulty E (.new envId hostname utcBits argv file, .error e) E
  | new {envId : Option Bytes} {hostname : CArr 256} {utcBits : UInt64} {argv : List Bytes}
      {file : Option Bytes} {args : NewArgs} {spec : RtenvSettings} {p : Option ℕ}
      {r : Except Err Unit} {E' : Envs} : sfParseNewArgv argv = .ok args →
      newSettings args file = .ok spec → faulty ∨ E.inherit envId spec = some p →
      Creates faulty E p spec.storedName spec.declared r E' →
      EnvsStep faulty E (.new envId hostname utcBits argv file, r.map fun _ => .new .created) E'
  | counters {id : Int32} {addNtask addNtbatch : UInt32} (r : Except Err RtenvDone) :
      EnvsStep faulty E (.counters id addNtask addNtbatch, r) E

/-! ### What stays -/

section Extends

variable {faulty : Prop} {E E' : Envs}

theorem Resolves.nodes_extend {found : Option ℕ} {sys : SysEnv} {r : Except Err Int32}
    (h : Resolves faulty E found sys r E') : E.tree.nodes <+: E'.tree.nodes := by
  cases h with
  | found => exact List.prefix_rfl
  | snapshot => exact List.prefix_append _ _
  | failed => exact List.prefix_rfl
  | failedNew => exact List.prefix_append _ _

theorem Creates.nodes_extend {p : Option ℕ} {name : Bytes} {s : Settings} {r : Except Err Unit}
    (h : Creates faulty E p name s r E') : E.tree.nodes <+: E'.tree.nodes := by
  cases h with
  | created => exact List.prefix_append _ _
  | failed => exact List.prefix_rfl
  | failedNew => exact List.prefix_append _ _

/-- A call leaves the environments that were there as they are. -/
theorem EnvsStep.nodes_extend {done : RtenvCall × Except Err RtenvDone}
    (h : EnvsStep faulty E done E') : E.tree.nodes <+: E'.tree.nodes := by
  cases h with
  | snapshot h => exact h.nodes_extend
  | active h => exact h.nodes_extend
  | template => exact List.prefix_rfl
  | refused => exact List.prefix_rfl
  | new _ _ _ h => exact h.nodes_extend
  | counters => exact List.prefix_rfl

/-- So does a sequence of calls. -/
theorem nodes_extend_of_run {calls : List (RtenvCall × Except Err RtenvDone)}
    (h : Run (EnvsStep faulty) E calls E') : E.tree.nodes <+: E'.tree.nodes :=
  h.invariant (P := fun _ E' => E.tree.nodes <+: E'.tree.nodes) List.prefix_rfl
    fun _ _ _ _ hpre hstep => hpre.trans hstep.nodes_extend

end Extends

/-! ### Lookups in the lineage -/

section Lookups

variable {E : Envs} {i : ℕ} {id : Int32} {rows : List RtenvEntry}

theorem Envs.ofId_eq_some (hle : E.count ≤ intMax) :
    E.ofId id = some i ↔ i < E.count ∧ idAt i = id := by
  rw [Envs.ofId]
  constructor
  · intro h
    have hmem := List.mem_range.mp (List.mem_of_find?_eq_some h)
    exact ⟨hmem, by simpa using List.find?_some h⟩
  · rintro ⟨hi, rfl⟩
    rcases hfind : (List.range E.count).find? (idAt · = idAt i) with - | j
    · have hnone := List.find?_eq_none.mp hfind i (List.mem_range.mpr hi)
      simp at hnone
    · have hmem := List.mem_range.mp (List.mem_of_find?_eq_some hfind)
      have hid : idAt j = idAt i := by simpa using List.find?_some hfind
      rw [idAt_inj (by omega) (by omega)] at hid
      rw [hid]

/-- An ID that is listed is that of an environment. -/
theorem ofId_of_listed (hle : E.count ≤ intMax) (hlinks : rows.map RtenvEntry.link = E.links)
    (h : ∃ e ∈ rows, e.id = id) : ∃ i, E.ofId id = some i := by
  obtain ⟨i, hi⟩ := (id_listed_iff hlinks).mp h
  exact ⟨i, (Envs.ofId_eq_some hle).mpr hi⟩

/-- An ID that is not listed is that of no environment. -/
theorem ofId_of_not_listed (hle : E.count ≤ intMax)
    (hlinks : rows.map RtenvEntry.link = E.links) (h : ¬∃ e ∈ rows, e.id = id) :
    E.ofId id = none := by
  rcases hof : E.ofId id with - | i
  · rfl
  · exact absurd ((id_listed_iff hlinks).mpr ⟨i, (Envs.ofId_eq_some hle).mp hof⟩) h

/-- The base ID is that of the current environment, if there is one. -/
theorem Envs.ofId_base (hle : E.count ≤ intMax) : E.ofId (idAt (E.base.getD 0)) = E.current := by
  rw [Envs.current]
  rcases hbase : E.base with - | b
  · rw [Option.getD_none, Option.none_or]
    split
    · rename_i hpos
      exact (Envs.ofId_eq_some hle).mpr ⟨hpos, rfl⟩
    · rename_i hpos
      rw [Envs.ofId, Nat.eq_zero_of_not_pos hpos]
      rfl
  · rw [Option.getD_some, Option.some_or]
    exact (Envs.ofId_eq_some hle).mpr ⟨E.base_lt b hbase, rfl⟩

/-- The first row with a name is that of the first environment with it. -/
theorem ofName_of_find (hlinks : rows.map RtenvEntry.link = E.links) {name : Bytes}
    {e : RtenvEntry} (h : rows.find? (fun e => cstr e.name.toList = name) = some e) :
    ∃ i, E.ofName name = some i ∧ idAt i = e.id := by
  obtain ⟨hname, i, hi, he, hfirst⟩ := List.find?_eq_some_iff_getElem.mp h
  have hnode : ∀ j (hj : j < rows.length), ∃ p node, E.tree.nodes[j]? = some (p, node) ∧
      rows[j].id = idAt j ∧ cstr rows[j].name.toList = node.name := by
    intro j hj
    have hcount : j < E.count := length_of_links hlinks ▸ hj
    obtain ⟨p, node, hnode⟩ := Envs.exists_node hcount
    obtain ⟨e', he', hid, -, hname'⟩ := row_of_node hlinks hnode
    obtain rfl : rows[j] = e' := Option.some.inj ((List.getElem?_eq_getElem hj).symm.trans he')
    exact ⟨p, node, hnode, hid, hname'⟩
  obtain ⟨p, node, hi', hid, hname'⟩ := hnode i hi
  refine ⟨i, ?_, by rw [← he, hid]⟩
  obtain ⟨hlt, heq⟩ := List.getElem?_eq_some_iff.mp hi'
  rw [Envs.ofName, List.findIdx?_eq_some_iff_getElem]
  refine ⟨hlt, ?_, ?_⟩
  · rw [heq, ← hname', he]
    exact hname
  · intro j hj
    obtain ⟨q, n, hj', -, hname''⟩ := hnode j (hj.trans hi)
    obtain ⟨hlt', heq'⟩ := List.getElem?_eq_some_iff.mp hj'
    rw [heq', ← hname'']
    simpa using hfirst j hj

end Lookups

/-! ### Programs that run alone -/

section Programs

variable {F : Err → Prop} {α : Type} {ws : Workspace} {E : Envs}

/-- Some action may fail. -/
abbrev Faulty (F : Err → Prop) : Prop := ∃ e, F e

/-- Propagation, for what says nothing about the kind of an error. -/
theorem alone_propagateP {p : RtenvP α} {Q : Except Err α → Workspace → Prop} (mod : Module)
    (hp : Alone F p Q ws) (hQ : ∀ e e' ws, Q (.error e) ws → Q (.error e') ws) :
    Alone F (propagateP mod p) Q ws := by
  refine hp.handle ?_
  intro r ws' hr
  cases r with
  | ok a => exact hr
  | error e => exact hQ e _ ws' hr

/-- A search for a row is right, unless it could not list the rows. -/
theorem alone_rowExistsP {rows : List RtenvEntry}
    (hlist : tpbRafEntryListRtenv ws = .ok rows ws) (q : RtenvEntry → Bool) :
    Alone F (rowExistsP q) (fun r ws' => ws' = ws ∧ (r = .ok true → ∃ e ∈ rows, q e = true) ∧
      (r = .ok false → Faulty F ∨ ¬∃ e ∈ rows, q e = true)) ws := by
  refine Alone.handle (Q := fun r ws' => ws' = ws ∧
    (r = .ok rows ∨ ∃ e, r = .error e ∧ F e)) (Alone.call ?_ ?_) ?_
  · rw [hlist]
    exact ⟨rfl, .inl rfl⟩
  · exact fun e he => ⟨rfl, .inr ⟨e, rfl, he⟩⟩
  · rintro r ws' ⟨rfl, rfl | ⟨e, rfl, he⟩⟩
    · refine ⟨rfl, fun h => ?_, fun h => .inr fun hex => ?_⟩
      · injection h with h
        exact List.any_eq_true.mp h
      · injection h with h
        rw [List.any_eq_true.mpr hex] at h
        cases h
    · cases e with
      | code mod c =>
          refine ⟨rfl, fun h => ?_, fun _ => .inl ⟨_, he⟩⟩
          cases h
      | undefined =>
          refine ⟨rfl, fun h => ?_, fun h => ?_⟩
          · cases h
          · cases h

/-- A search for an ID. -/
theorem alone_idExists (href : RefinesEnvs ws E) {q : RtenvEntry → Bool} (id : Int32)
    (hq : ∀ e, q e = true ↔ e.id = id) :
    Alone F (rowExistsP q) (fun r ws' => ws' = ws ∧ (r = .ok true → ∃ i, E.ofId id = some i) ∧
      (r = .ok false → Faulty F ∨ E.ofId id = none)) ws := by
  obtain ⟨rows, -, hlinks, hlist⟩ := href.list
  refine (alone_rowExistsP hlist q).imp ?_
  rintro r ws' ⟨rfl, htrue, hfalse⟩
  simp only [hq] at htrue hfalse
  exact ⟨rfl, fun h => ofId_of_listed href.count_le hlinks (htrue h),
    fun h => (hfalse h).imp_right (ofId_of_not_listed href.count_le hlinks)⟩

theorem alone_tpbcliRtenvIdExists (href : RefinesEnvs ws E) (id : Int32) :
    Alone F (tpbcliRtenvIdExists id) (fun r ws' => ws' = ws ∧
      (r = .ok true → ∃ i, E.ofId id = some i) ∧
      (r = .ok false → Faulty F ∨ E.ofId id = none)) ws :=
  alone_idExists href id fun e => by rw [beq_iff_eq]

/-- The base ID. -/
theorem alone_getBaseId (href : RefinesEnvs ws E) (mod : Module) :
    Alone F (Prog.call RtenvAct.other (propagate mod tpbRafConfigGetBaseId))
      (fun r ws' => ws' = ws ∧ ∀ id, r = .ok id → id = idAt (E.base.getD 0)) ws := by
  refine Alone.call ⟨rfl, ?_⟩ fun e _ => ⟨rfl, fun id h => by cases h⟩
  intro id h
  injection h with h
  rw [← h, href.base]
  cases E.base with
  | none => rfl
  | some b => rfl

/-- The listing. -/
theorem alone_list (href : RefinesEnvs ws E) (mod : Module) : ∃ rows,
    rows.map RtenvEntry.link = E.links ∧
      Alone F (Prog.call RtenvAct.list (propagate mod tpbRafEntryListRtenv))
        (fun r ws' => ws' = ws ∧ ∀ es, r = .ok es → es = rows) ws := by
  obtain ⟨rows, -, hlinks, hlist⟩ := href.list
  refine ⟨rows, hlinks, Alone.call ?_ fun e _ => ⟨rfl, fun es h => by cases h⟩⟩
  rw [propagate_eq_ok.mpr hlist]
  refine ⟨rfl, fun es h => ?_⟩
  injection h with h
  exact h.symm

/-- The next ID is that of the place behind the last environment. -/
theorem alone_alloc (href : RefinesEnvs ws E) :
    Alone F tpbRafRtenvAllocNextIdP (fun r ws' => ws' = ws ∧
      ∀ id n, r = .ok (id, n) → id = idAt E.count ∧ E.count < intMax) ws := by
  obtain ⟨rows, hlinks, hlist⟩ := alone_list (F := F) href .rafL2Rtenv
  refine hlist.bind ?_ ?_
  · rintro es ws' ⟨rfl, hes⟩
    obtain rfl := hes es rfl
    have hmax := toInt_maxId hlinks href.count_le
    split
    · exact ⟨rfl, fun id n h => by cases h⟩
    · rename_i hne
      refine ⟨rfl, fun id n h => ?_⟩
      have hroom : E.count < intMax := by
        refine lt_of_le_of_ne href.count_le fun heq => hne (Int32.toInt_inj.mp ?_)
        rw [hmax, heq]
        rfl
      injection h with h
      injection h with hid hn
      refine ⟨?_, hroom⟩
      rw [intMax] at hroom
      have hone : (1 : Int32).toInt = 1 := rfl
      rw [← hid, ← Int32.toInt_inj, toInt_idAt (by rw [intMax]; exact hroom), Int32.toInt_add,
        hmax, hone, Int.bmod_def]
      omega
  · rintro e ws' ⟨rfl, -⟩
    exact ⟨rfl, fun id n h => by cases h⟩

/-- An append adds an environment without a record, or fails and changes nothing. -/
theorem alone_append (href : RefinesEnvs ws E) (hroom : E.count < intMax) (n : ℕ)
    {entry : RtenvEntry} {p : Option ℕ} (hp : ∀ q ∈ p, q < E.count)
    (hid : entry.id = idAt E.count) (hparent : entry.inheritFrom = parentId p) :
    Alone F (tpbRafEntryAppendRtenvP n entry) (fun r ws' =>
      (∃ e, r = .error e ∧ ws' = ws) ∨ r = .ok () ∧
        (Faulty F ∨ cstr entry.name.toList ∉ E.names) ∧
        RefinesEnvs ws' (E.add p ⟨cstr entry.name.toList, none⟩ hp)) ws := by
  obtain ⟨rows, hrows, hlinks, hlist⟩ := href.list
  refine (alone_rowExistsP hlist _).bind ?_ ?_
  · rintro found ws' ⟨rfl, -, hfalse⟩
    split
    · exact .inl ⟨_, rfl, rfl⟩
    · rename_i hfound
      refine Alone.call ?_ fun e _ => .inl ⟨e, rfl, rfl⟩
      rw [entryAppendRow_ok hrows]
      refine .inr ⟨rfl, ?_, href.append hroom hlinks hid hparent rfl⟩
      refine (hfalse (by simpa using hfound)).imp_right fun hnone hmem => hnone ?_
      obtain ⟨e, he, hname⟩ := (name_listed_iff hlinks).mpr hmem
      exact ⟨e, he, beq_iff_eq.mpr hname⟩
  · rintro e ws' ⟨rfl, -⟩
    exact .inl ⟨e, rfl, rfl⟩

/-- Taking a child into the record of its parent keeps what the record declares. -/
theorem Declares.deriveUpdate_keeps {r r' : Record rtenvFormat} {childId : Int32} {data : Bytes}
    {apps : List MergedApp} {vars : List EnvVar} {tail : List MetaHeader} {ids : List Int32}
    (d : Declares r.view apps vars tail ids)
    (hup : deriveUpdate r.view childId = .rewrite r'.attr r'.headers data)
    (hbuf : r'.buf = some data) : ∃ tail' ids', Declares r'.view apps vars tail' ids' := by
  have hchild : childId ∉ ids := by
    intro hmem
    rw [deriveUpdate_listed (d.deriveHolds r.data_lt) r.data_lt hmem] at hup
    cases hup
  rcases d.deriveUpdate_fresh r.data_lt r.normal_headers hchild with
    hnone | ⟨a, hs, data', tail', hfresh, hnormal, hheaders, hdata, hchildren, hnapp⟩
  · rw [hnone] at hup
    cases hup
  · rw [hfresh] at hup
    injection hup with hattr hhs hbytes
    have hview : r'.view.data = data := by
      change r'.data = data
      rw [Record.data, hbuf, Option.getD_some]
    have hnorm : r'.view.headers = hs := by
      change r'.headers.map MetaHeader.norm = hs
      rw [← hhs]
      exact map_norm_of_normal hnormal
    have hnapp' : r'.view.attr.napp = r.view.attr.napp := by
      rw [← hnapp, hattr]
      rfl
    exact ⟨tail', ids ++ [childId], hnorm.trans hheaders, hview.trans (hbytes.symm.trans hdata),
      hnapp' ▸ d.napp, hchildren, d.apps_fit, d.vars_fit, d.napp_le, d.count_le⟩

/-- Other attributes keep what the record declares, if the applications are counted the same. -/
theorem Declares.withAttr {r : Record rtenvFormat} {a : RtenvAttr} {apps : List MergedApp}
    {vars : List EnvVar} {tail : List MetaHeader} {ids : List Int32}
    (d : Declares r.view apps vars tail ids)
    (ha : rtenvFormat.nheader a = rtenvFormat.nheader r.attr) (hnapp : a.napp = r.attr.napp) :
    Declares (r.withAttr a ha).view apps vars tail ids :=
  ⟨d.headers, d.data, hnapp ▸ d.napp, d.children, d.apps_fit, d.vars_fit, d.napp_le, d.count_le⟩

/-- An update of a record that changes nothing of what it declares. -/
theorem RefinesEnvs.patchRecord (href : RefinesEnvs ws E) {id : Int32} (mod : Module)
    {m : FileM Unit} (g : RtenvAttr → RtenvAttr)
    (hnheader : ∀ a, rtenvFormat.nheader (g a) = rtenvFormat.nheader a)
    (hid : ∀ a, (g a).id = a.id) (hnapp : ∀ a, (g a).napp = a.napp)
    (hrun : ∀ r : Record rtenvFormat, ws.files (.rtenv id) = some r.bytes →
      fopenUpdate mod (.rtenv id) m ws =
        .ok () (ws.set (.rtenv id) (r.withAttr (g r.attr) (hnheader r.attr)).bytes)) :
    RefinesEnvs (after (fopenUpdate mod (.rtenv id) m ws)) E := by
  rcases hfile : ws.files (.rtenv id) with - | bytes
  · simp only [fopenUpdate, hfile]
    exact href
  · obtain ⟨r, rfl, rfl⟩ := href.recorded id bytes hfile
    rw [hrun r hfile]
    exact href.rewrite hfile (hid r.attr) fun d => ⟨_, _, d.withAttr _ (hnapp r.attr)⟩

/-- An update of the first row with an ID that changes nothing the lineage knows of. -/
theorem RefinesEnvs.patchRow (href : RefinesEnvs ws E) {id : Int32}
    {act : ℕ → RtenvEntry → FileM Unit} (f : RtenvEntry → RtenvEntry)
    (hf : ∀ e, (f e).link = e.link)
    (hfound : ∀ rows, ws.files (.entry .rtenv) = some (rtenvRow.table rows) →
      (∃ e ∈ rows, e.id = id) → fopenUpdate .none (.entry .rtenv) (patchTpbe id act) ws =
        .ok () (ws.set (.entry .rtenv) (rtenvRow.table (modifyFirst (·.id = id) f rows))))
    (hnone : ∀ rows, ws.files (.entry .rtenv) = some (rtenvRow.table rows) →
      (∀ e ∈ rows, e.id ≠ id) → fopenUpdate .none (.entry .rtenv) (patchTpbe id act) ws =
        .error (.code .none .fileIoFail) ws) :
    RefinesEnvs (after (fopenUpdate .none (.entry .rtenv) (patchTpbe id act) ws)) E := by
  obtain ⟨rows, hrows, -⟩ := href.rows
  rcases hrows with hfile | ⟨hmissing, rfl⟩
  · by_cases hex : ∃ e ∈ rows, e.id = id
    · rw [hfound rows hfile hex]
      exact href.patchRows (.inl hfile) (map_link_modifyFirst hf rows)
    · rw [hnone rows hfile fun e he heq => hex ⟨e, he, heq⟩]
      exact href
  · have hfile : ws.files (.entry .rtenv) = none := hmissing
    simp only [fopenUpdate, hfile]
    exact href

/-- Registering a child keeps the lineage. -/
theorem alone_derive (href : RefinesEnvs ws E) (parent child : Int32) :
    Alone F (tpbRafRecordAppendRtenvDeriveP parent child) (fun _ ws' => RefinesEnvs ws' E) ws := by
  have hread : Alone F (Prog.call RtenvAct.other
      (propagate .rafL3Rtenv (tpbRafRecordReadRtenv parent))) (fun r ws' => ws' = ws ∧
        ∀ v, r = .ok v → ∃ rec : Record rtenvFormat, ws.files (.rtenv parent) = some rec.bytes ∧
          rec.attr.id = parent ∧ v = rec.view) ws := by
    refine Alone.call ⟨?_, ?_⟩ fun e _ => ⟨rfl, fun v h => by cases h⟩
    · exact ReadsOnly.propagate (readsOnly_fopenRead _ _ _) .rafL3Rtenv ws
    · intro v hv
      rcases hrun : propagate .rafL3Rtenv (tpbRafRecordReadRtenv parent) ws with
        ⟨v', ws'⟩ | ⟨e, ws'⟩
      · rw [hrun] at hv
        injection hv with hv
        obtain ⟨-, bytes, -, hbytes, -⟩ := fopenRead_eq_ok (propagate_eq_ok.mp hrun)
        obtain ⟨rec, rfl, hid⟩ := href.recorded parent bytes hbytes
        rw [propagate_eq_ok, tpbRafRecordReadRtenv, recordRead_of_bytes hbytes] at hrun
        injection hrun with hview
        exact ⟨rec, hbytes, hid, by rw [← hv, ← hview]⟩
      · rw [hrun] at hv
        cases hv
  have hrows : ∀ ws, RefinesEnvs ws E → RefinesEnvs
      (after (propagate .rafL3Rtenv (sfPatchTpbeDeriveTo parent child) ws)) E := by
    intro ws href
    rw [after_propagate]
    exact href.patchRow (RtenvEntry.withDeriveTo child) (fun _ => rfl)
      (fun _ => sfPatchTpbeDeriveTo_found) fun _ => sfPatchTpbeDeriveTo_none
  have hrecord : ∀ ws, RefinesEnvs ws E → RefinesEnvs
      (after (propagate .rafL3Rtenv (sfPatchTpbrDeriveTo parent child) ws)) E := by
    intro ws href
    rw [after_propagate]
    exact href.patchRecord .none (·.withDeriveTo child) (fun _ => rfl) (fun _ => rfl)
      (fun _ => rfl) fun r hr => sfPatchTpbrDeriveTo_run hr
  refine hread.bind ?_ ?_
  · rintro v ws' ⟨rfl, hv⟩
    obtain ⟨r, hfile, rfl, rfl⟩ := hv v rfl
    have hwrite : Alone F (deriveWriteP r.view (deriveUpdate r.view child))
        (fun _ ws' => RefinesEnvs ws' E) ws' := by
      rcases hup : deriveUpdate r.view child with - | - | ⟨a, hs, data⟩
      · exact href
      · exact href
      · obtain ⟨r', rfl, rfl, hbuf, hattr⟩ := deriveUpdate_record hup
        have hid : r'.attr.id = r.attr.id := by
          rw [hattr]
          rfl
        refine Alone.call ?_ fun _ _ => href
        rw [deriveWrite_run hbuf, hid]
        exact href.rewrite hfile hid fun d => d.deriveUpdate_keeps hup hbuf
    refine hwrite.bind (fun _ ws₁ h₁ => ?_) fun _ _ h => h
    refine Alone.bind (Q := fun _ ws' => RefinesEnvs ws' E)
      (Alone.call (hrows ws₁ h₁) fun _ _ => h₁) (fun _ ws₂ h₂ => ?_) fun _ _ h => h
    exact Alone.call (hrecord ws₂ h₂) fun _ _ => h₂
  · rintro e ws' ⟨rfl, -⟩
    exact href

/-- Counting keeps the lineage. -/
theorem alone_counters (href : RefinesEnvs ws E) (id : Int32) (m n : UInt32) :
    Alone F (tpbRafRecordPatchRtenvCountersP id m n) (fun _ ws' => RefinesEnvs ws' E) ws := by
  have hrows : ∀ ws, RefinesEnvs ws E → RefinesEnvs
      (after (orFail .rafL3Rtenv .fileIoFail (sfPatchTpbeCounters id m n) ws)) E := by
    intro ws href
    rw [after_orFail]
    exact href.patchRow (RtenvEntry.addCounters m n) (fun _ => rfl)
      (fun _ hfile hex => sfPatchTpbeCounters_found hfile hex m n)
      fun _ hfile hnone => sfPatchTpbeCounters_none hfile hnone m n
  have hrecord : RefinesEnvs
      (after (fopenUpdate .rafL3Rtenv (.rtenv id) (patchTpbrCounters m n) ws)) E :=
    href.patchRecord .rafL3Rtenv (·.addCounters m n) (fun _ => rfl) (fun _ => rfl) (fun _ => rfl)
      fun r hr => fopenUpdate_ok hr (patchTpbrCounters_run r m n)
  rw [tpbRafRecordPatchRtenvCountersP]
  split
  · exact href
  · refine Alone.bind (Q := fun _ ws' => RefinesEnvs ws' E) (Alone.call hrecord fun _ _ => href)
      (fun _ ws₁ h₁ => ?_) fun _ _ h => h
    exact Alone.call (hrows ws₁ h₁) fun _ _ => h₁

end Programs

end TPBench
