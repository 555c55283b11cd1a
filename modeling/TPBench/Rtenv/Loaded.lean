import TPBench.Rtenv.Inherited

/-!
# Loading after a Session

`rtenv load` takes an environment by its ID, by its name, or the active one, and prints the lines
that set what it inherits. Where the workspace refines a lineage, the environment is one of the
lineage (`Envs.select`), and what is printed is computed from the lineage alone (`Envs.loaded`).

A session adds environments and changes none, and the first environment with a name stays the
first one. So an environment is loaded as it was before the session, unless it was found as the
base and there is another base now.

## Main results

* `rtenv_session_load` — after a session with any failures, `rtenv load` prints what the lineage
  says, and fails without any output when its options select no environment.
* `rtenv_session_load_keeps` — what it prints for an environment is what it printed before the
  session.
-/

open CFile Conc Keyed

namespace TPBench

/-! ### What the command means -/

namespace Envs

variable (E : Envs)

/-- The environment that the options select, or else `cur`; none, when an option has no value,
or a name is not found. -/
def select : List Bytes → Option ℕ → Option ℕ
  | [], cur => cur
  | [arg], cur =>
      if arg = ascii "-i".toList ∨ arg = ascii "--id".toList ∨ arg = ascii "--name".toList then
        none
      else cur
  | arg :: v :: rest, cur =>
      if arg = ascii "-i".toList ∨ arg = ascii "--id".toList then
        select rest (E.ofId (idOfText v))
      else if arg = ascii "--name".toList then (E.ofName v).bind fun i => select rest (some i)
      else select (v :: rest) cur

/-- The environment that is selected so far. -/
def chosen (envId : Option Bytes) (selected : Option Int32) : Option ℕ :=
  selected.elim (E.activeOfTool envId) E.ofId

/-- The name that is printed. -/
def loadName (i : ℕ) : Bytes :=
  (E.tree.nodes[i]?.map fun n => cstr (snprintfS 256 n.2.name).toList).getD []

/-- What is printed for the environment at a place, if there are slots for what it inherits;
`log` is what is logged when this fails. -/
def loaded (i : ℕ) (log : Bytes) : EStateM.Result Err Bytes Unit :=
  if (E.merged i).InSlots tpbcliRtenvMaxVar then
    logged log (tpbcliRtenvLoad (idAt i) (E.loadName i) (E.merged i) [])
  else .error (.code .cliRtenv .cliFail) log

end Envs

/-! ### Selecting -/

section Select

variable {ws : Workspace} {E : Envs} {rows : List RtenvEntry} {id : Int32} {name : Bytes}

/-- The options select an environment, or they fail. -/
theorem RefinesEnvs.exec_selectorLoop (href : RefinesEnvs ws E) (envId : Option Bytes)
    (args : List Bytes) (selected : Option Int32) :
    (∃ e, (selectorLoop args selected).exec ws = .error e ws ∧
      E.select args (E.chosen envId selected) = none) ∨
    ∃ selected', (selectorLoop args selected).exec ws = .ok selected' ws ∧
      E.select args (E.chosen envId selected) = E.chosen envId selected' := by
  induction args, selected using selectorLoop.induct with
  | case1 selected => exact .inr ⟨selected, rfl, rfl⟩
  | case2 arg selected hopt =>
      rw [selectorLoop, if_pos hopt, Envs.select, if_pos hopt]
      exact .inl ⟨_, rfl, rfl⟩
  | case3 arg selected hopt =>
      rw [selectorLoop, if_neg hopt, Envs.select, if_neg hopt]
      exact .inr ⟨selected, rfl, rfl⟩
  | case4 arg v rest selected hid ih =>
      rw [selectorLoop, if_pos hid, Envs.select, if_pos hid]
      exact ih
  | case5 v rest selected hid ih =>
      rw [selectorLoop, if_neg hid, if_pos rfl, Envs.select, if_neg hid, if_pos rfl,
        Prog.exec_bind]
      have hname := href.exec_idOfName v
      rcases hof : E.ofName v with - | i
      · rw [hof] at hname
        exact .inl ⟨_, bind_error hname, rfl⟩
      · rw [hof] at hname
        have hlt : i < E.count := (List.findIdx?_eq_some_iff_getElem.mp hof).1
        have hchosen : E.chosen envId (some (idAt i)) = some i :=
          (Envs.ofId_eq_some href.count_le).mpr ⟨hlt, rfl⟩
        have hrest := ih (idAt i)
        rw [hchosen] at hrest
        rw [Option.bind_some, bind_ok hname]
        exact hrest
  | case6 arg v rest selected hid hname ih =>
      rw [selectorLoop, if_neg hid, if_neg hname, Envs.select, if_neg hid, if_neg hname]
      exact ih

/-- The name of an environment is that of its row. -/
theorem loadName_eq (hlinks : rows.map RtenvEntry.link = E.links) (hle : E.count ≤ intMax) {i : ℕ}
    (hi : i < E.count) : ((rows.find? (·.id = idAt i)).map fun e =>
      cstr (snprintfS 256 (cstr e.name.toList)).toList).getD [] = E.loadName i := by
  obtain ⟨p, node, hnode⟩ := Envs.exists_node hi
  obtain ⟨e, hfind, -, hname⟩ := find_idAt hlinks hle hnode
  rw [Envs.loadName, hnode, hfind, Option.map_some, Option.getD_some, hname]
  rfl

/-- **The selected environment**, with its name. -/
theorem RefinesEnvs.exec_sfParseSelector (href : RefinesEnvs ws E) (envId : Option Bytes)
    (argv : List Bytes) :
    (∀ i, E.select (argv.drop 3) (E.activeOfTool envId) = some i → i < E.count ∧
      (sfParseSelector envId argv).exec ws = .ok (idAt i, E.loadName i) ws) ∧
    (E.select (argv.drop 3) (E.activeOfTool envId) = none →
      ∃ e, (sfParseSelector envId argv).exec ws = .error e ws) := by
  obtain ⟨rows, -, hlinks, hlist⟩ := href.list
  rw [sfParseSelector, Prog.exec_bind]
  rcases href.exec_selectorLoop envId (argv.drop 3) none with
    ⟨e, hloop, hsel⟩ | ⟨selected, hloop, hsel⟩
  · have hnone : E.select (argv.drop 3) (E.activeOfTool envId) = none := hsel
    rw [hnone]
    refine ⟨fun i h => ?_, fun _ => ⟨e, bind_error hloop⟩⟩
    cases h
  have hchosen : E.select (argv.drop 3) (E.activeOfTool envId) = E.chosen envId selected := hsel
  rw [hchosen, bind_ok hloop]
  extract_lets named
  have hnamed : ∀ i < E.count, (named (idAt i)).exec ws = .ok (idAt i, E.loadName i) ws := by
    intro i hi
    change Prog.exec (Prog.handle _ _) ws = _
    rw [Prog.exec_handle, Prog.exec_call, hlist]
    exact congrArg (fun name => EStateM.Result.ok (idAt i, name) ws)
      (loadName_eq hlinks href.count_le hi)
  rcases selected with - | id
  · have hactive := href.exec_activeOfTool envId
    refine ⟨fun i h => ?_, fun h => ?_⟩
    · have hi : E.activeOfTool envId = some i := h
      have hlt : i < E.count := Envs.activeOfTool_lt href.count_le hi
      rw [hi] at hactive
      refine ⟨hlt, ?_⟩
      rw [Prog.exec_bind, bind_ok hactive]
      exact hnamed i hlt
    · have hnone : E.activeOfTool envId = none := h
      rw [hnone] at hactive
      rw [Prog.exec_bind]
      exact ⟨_, bind_error hactive⟩
  · rw [Prog.exec_bind, bind_ok (href.exec_idExists id)]
    refine ⟨fun i h => ?_, fun h => ?_⟩
    · have hi : E.ofId id = some i := h
      obtain ⟨hlt, rfl⟩ := (Envs.ofId_eq_some href.count_le).mp hi
      rw [hi]
      exact ⟨hlt, hnamed i hlt⟩
    · have hnone : E.ofId id = none := h
      rw [hnone]
      exact ⟨_, rfl⟩

end Select

/-! ### Loading -/

section Load

variable {ws : Workspace} {E : Envs} {envId : Option Bytes} {argv : List Bytes} {i : ℕ}
  {log : Bytes}

/-- **What `rtenv load` prints** is computed from the lineage. -/
theorem RefinesEnvs.load (href : RefinesEnvs ws E)
    (hsel : E.select (argv.drop 3) (E.activeOfTool envId) = some i)
    (hlen : (E.tree.path i).length ≤ 64) (h : ∀ j ∈ E.tree.path i, E.Readable j) :
    tpbcliRtenvLoadCommand envId argv log ws = E.loaded i log := by
  obtain ⟨hi, hparse⟩ := (href.exec_sfParseSelector envId argv).1 i hsel
  obtain ⟨rows, hlist, hret, hwalk, hstored⟩ := href.chain hi hlen h
  have hmerge : tpbcliRtenvMergeChain (idAt i) ws = guarded (.code .none .cliFail)
      ((E.merged i).InSlots tpbcliRtenvMaxVar) (E.merged i) ws := by
    rw [tpbcliRtenvMergeChain_run (fun id => (E.declaredBy id).apps)
      (fun id => (E.declaredBy id).vars) hlist hret hstored, hwalk, mergedOf_path href.count_le h]
  rw [tpbcliRtenvLoadCommand, hparse]
  dsimp only
  rw [propagate, hmerge, guarded, Envs.loaded]
  split_ifs with hslots
  · rfl
  · rfl

/-- Options that select no environment make it fail before it prints the fragment. -/
theorem RefinesEnvs.load_none (href : RefinesEnvs ws E)
    (hsel : E.select (argv.drop 3) (E.activeOfTool envId) = none) :
    ∃ e, tpbcliRtenvLoadCommand envId argv log ws = .error e log := by
  obtain ⟨e, hparse⟩ := (href.exec_sfParseSelector envId argv).2 hsel
  exact ⟨e, by rw [tpbcliRtenvLoadCommand, hparse]⟩

end Load

/-- **Loading after a session.** After every sequence of calls, in which any actions may fail,
there is a lineage that the calls mean, and `rtenv load` prints for the environment that its
options select what the lineage says, if there are at most 64 environments on its way to the
root, each with a record; where they select none, it fails and prints nothing but what is logged
about that. -/
theorem rtenv_session_load {F : Err → Prop} {ws₀ ws : Workspace} {E₀ : Envs}
    {calls : List (RtenvCall × Except Err RtenvDone)} (hinit : RefinesEnvs ws₀ E₀)
    (hrun : Run (CallStep F) ws₀ calls ws) :
    ∃ E, Run (EnvsStep (Faulty F)) E₀ calls E ∧ ∀ envId argv log,
      (E.select (argv.drop 3) (E.activeOfTool envId) = none →
        ∃ e, tpbcliRtenvLoadCommand envId argv log ws = .error e log) ∧
      ∀ i, E.select (argv.drop 3) (E.activeOfTool envId) = some i →
        (E.tree.path i).length ≤ 64 → (∀ j ∈ E.tree.path i, E.Readable j) →
        tpbcliRtenvLoadCommand envId argv log ws = E.loaded i log := by
  obtain ⟨E, hmeans, href⟩ := hrun.simulates hinit callStep_means
  exact ⟨E, hmeans, fun envId argv log => ⟨href.load_none, fun i => href.load⟩⟩

/-- `rtenv load -i` with an ID. -/
def loadArgv (id : Bytes) : List Bytes := [[], [], [], ascii "-i".toList, id]

theorem select_loadArgv {E : Envs} (id : Bytes) (cur : Option ℕ) :
    E.select ((loadArgv id).drop 3) cur = E.ofId (idOfText id) := by
  change E.select [ascii "-i".toList, id] cur = _
  rw [Envs.select, if_pos (.inl rfl), Envs.select]

/-- What is printed for the child. -/
theorem IsChildLineage.loaded {E : Envs} (h : IsChildLineage E) (log : Bytes) :
    E.loaded 1 log = tpbcliRtenvLoad 2 [99] ⟨[], [rootVar, childVar]⟩ [] := by
  obtain ⟨name, hnodes⟩ := h.nodes
  have hname : E.loadName 1 = [99] := by
    have hcut : cstr (snprintfS 256 [99]).toList = [99] := by decide
    rw [Envs.loadName, hnodes]
    exact hcut
  rw [Envs.loaded, h.merged, hname, if_pos (by decide)]
  rfl

/-- The child is selected by its ID, and the ID 9 selects nothing. -/
theorem IsChildLineage.ofId_two {E : Envs} (h : IsChildLineage E) :
    E.ofId (idOfText [50]) = some 1 := by
  rw [Envs.ofId, h.count]
  decide

theorem IsChildLineage.ofId_nine {E : Envs} (h : IsChildLineage E) :
    E.ofId (idOfText [57]) = none := by
  rw [Envs.ofId, h.count]
  decide

/-- The child is loaded with the variable that it inherits and its own; the ID 9 is refused. -/
theorem rtenv_session_load_child : ∃ ws e,
    Run (CallStep fun _ => False) Workspace.empty childCalls ws ∧
    tpbcliRtenvLoadCommand none (loadArgv [50]) [33] ws =
      tpbcliRtenvLoad 2 [99] ⟨[], [rootVar, childVar]⟩ [] ∧
    tpbcliRtenvLoadCommand none (loadArgv [57]) [33] ws = .error e [33] := by
  obtain ⟨ws, -, hrun, -⟩ := exists_run_child
  obtain ⟨E, hmeans, hload⟩ := rtenv_session_load refinesEnvs_workspaceEmpty hrun
  have hchild := run_child hmeans
  obtain ⟨e, hrefused⟩ := (hload none (loadArgv [57]) [33]).1
    ((select_loadArgv _ _).trans hchild.ofId_nine)
  have htwo := (hload none (loadArgv [50]) [33]).2 1 ((select_loadArgv _ _).trans hchild.ofId_two)
    hchild.length_path hchild.readable
  exact ⟨ws, e, hrun, htwo.trans (hchild.loaded [33]), hrefused⟩

/-! ### What a session keeps -/

section Keeps

variable {E E' : Envs} {i : ℕ}

theorem ofId_of_extends (h : E.tree.nodes <+: E'.tree.nodes) (hle : E.count ≤ intMax)
    (hle' : E'.count ≤ intMax) {id : Int32} (hi : E.ofId id = some i) : E'.ofId id = some i := by
  obtain ⟨hlt, hid⟩ := (Envs.ofId_eq_some hle).mp hi
  exact (Envs.ofId_eq_some hle').mpr ⟨hlt.trans_le h.length_le, hid⟩

/-- The first environment with a name stays the first one. -/
theorem ofName_of_extends (h : E.tree.nodes <+: E'.tree.nodes) {name : Bytes}
    (hi : E.ofName name = some i) : E'.ofName name = some i := h.findIdx?_eq_some hi

/-- The options select the environment that they selected before. -/
theorem select_of_extends (h : E.tree.nodes <+: E'.tree.nodes) (hle : E.count ≤ intMax)
    (hle' : E'.count ≤ intMax) (args : List Bytes) {cur cur' : Option ℕ}
    (hcur : ∀ j, cur = some j → cur' = some j) (hi : E.select args cur = some i) :
    E'.select args cur' = some i := by
  induction args, cur using Envs.select.induct E generalizing cur' with
  | case1 cur => exact hcur i hi
  | case2 arg cur hopt =>
      rw [Envs.select, if_pos hopt] at hi
      cases hi
  | case3 arg cur hopt =>
      rw [Envs.select, if_neg hopt] at hi ⊢
      exact hcur i hi
  | case4 arg v rest cur hid ih =>
      rw [Envs.select, if_pos hid] at hi ⊢
      exact ih (fun j => ofId_of_extends h hle hle') hi
  | case5 v rest cur hid ih =>
      rw [Envs.select, if_neg hid, if_pos rfl] at hi ⊢
      obtain ⟨k, hk, hrest⟩ := Option.bind_eq_some_iff.mp hi
      rw [ofName_of_extends h hk, Option.bind_some]
      exact ih k (fun j hj => hj) hrest
  | case6 arg v rest cur hid hname ih =>
      rw [Envs.select, if_neg hid, if_neg hname] at hi ⊢
      exact ih hcur hi

/-- The base stays, if the base ID does. -/
theorem current_of_extends {ws ws' : Workspace} (href : RefinesEnvs ws E)
    (href' : RefinesEnvs ws' E') (h : E.tree.nodes <+: E'.tree.nodes)
    (hbase : ws'.baseId = ws.baseId) (hi : E.current = some i) : E'.current = some i := by
  rw [← href.ofId_baseId] at hi
  rw [← href'.ofId_baseId, hbase]
  exact ofId_of_extends h href.count_le href'.count_le hi

/-- What an environment inherits stays. -/
theorem loaded_of_extends (h : E.tree.nodes <+: E'.tree.nodes) (hi : i < E.count) (log : Bytes) :
    E'.loaded i log = E.loaded i log := by
  have hmerged : E'.merged i = E.merged i := Lineage.inherited_of_extends _ _ h hi
  rw [Envs.loaded, Envs.loaded, Envs.loadName, Envs.loadName, hmerged,
    Lineage.getElem?_of_extends h hi]

/-- An environment that is selected again is loaded as it was. -/
theorem RefinesEnvs.load_of_extends {ws ws' : Workspace} (href : RefinesEnvs ws E)
    (href' : RefinesEnvs ws' E') (h : E.tree.nodes <+: E'.tree.nodes)
    {envId envId' : Option Bytes} {argv argv' : List Bytes} {log : Bytes}
    (hsel : E.select (argv.drop 3) (E.activeOfTool envId) = some i)
    (hsel' : E'.select (argv'.drop 3) (E'.activeOfTool envId') = some i)
    (hlen : (E.tree.path i).length ≤ 64) (hread : ∀ j ∈ E.tree.path i, E.Readable j) :
    tpbcliRtenvLoadCommand envId' argv' log ws' = tpbcliRtenvLoadCommand envId argv log ws := by
  have hi := ((href.exec_sfParseSelector envId argv).1 i hsel).1
  have hpath : E'.tree.path i = E.tree.path i := Lineage.path_of_extends h hi
  have hread' : ∀ j ∈ E'.tree.path i, E'.Readable j := by
    intro j hj
    rw [hpath] at hj
    obtain ⟨p, name, s, hnode, hfits⟩ := hread j hj
    exact ⟨p, name, s, by rw [Lineage.getElem?_of_extends h (Envs.lt_count hnode), hnode], hfits⟩
  rw [href'.load hsel' (hpath ▸ hlen) hread', href.load hsel hlen hread, loaded_of_extends h hi log]

end Keeps

/-- **A session keeps what is printed.** After every sequence of calls, in which any actions may
fail, `rtenv load` prints for an environment what it printed before, if the variable is set, or
the base ID is still the same, or the options alone select the environment. Where it failed, it
fails again, behind the same lines. -/
theorem rtenv_session_load_keeps {F : Err → Prop} {ws₀ ws : Workspace} {E₀ : Envs}
    {calls : List (RtenvCall × Except Err RtenvDone)} {envId : Option Bytes} {argv : List Bytes}
    {i : ℕ} {log : Bytes} (hinit : RefinesEnvs ws₀ E₀) (hrun : Run (CallStep F) ws₀ calls ws)
    (hsel : E₀.select (argv.drop 3) (E₀.activeOfTool envId) = some i)
    (hlen : (E₀.tree.path i).length ≤ 64) (hread : ∀ j ∈ E₀.tree.path i, E₀.Readable j)
    (hfix : (∃ b bs, envId = some (b :: bs)) ∨ ws.baseId = ws₀.baseId ∨
      E₀.select (argv.drop 3) none = some i) :
    tpbcliRtenvLoadCommand envId argv log ws = tpbcliRtenvLoadCommand envId argv log ws₀ := by
  obtain ⟨E, hmeans, href⟩ := hrun.simulates hinit callStep_means
  have hpre := nodes_extend_of_run hmeans
  have hsel' : E.select (argv.drop 3) (E.activeOfTool envId) = some i := by
    rcases hfix with ⟨b, bs, rfl⟩ | hbase | halone
    · exact select_of_extends hpre hinit.count_le href.count_le _
        (fun j => ofId_of_extends hpre hinit.count_le href.count_le) hsel
    · refine select_of_extends hpre hinit.count_le href.count_le _ (fun j hj => ?_) hsel
      rcases envId with - | (- | ⟨b, bs⟩)
      · exact current_of_extends hinit href hpre hbase hj
      · exact current_of_extends hinit href hpre hbase hj
      · exact ofId_of_extends hpre hinit.count_le href.count_le hj
    · refine select_of_extends hpre hinit.count_le href.count_le _ (fun j hj => ?_) halone
      cases hj
  exact hinit.load_of_extends href hpre hsel hsel' hlen hread

/-- Another snapshot does not change what is printed for the child. -/
theorem rtenv_session_load_keeps_child : ∃ ws done ws',
    Run (CallStep fun _ => False) Workspace.empty childCalls ws ∧
    Run (CallStep fun _ => False) ws [(.snapshot oneVarSys true, done)] ws' ∧
    tpbcliRtenvLoadCommand none (loadArgv [50]) [] ws' =
      tpbcliRtenvLoadCommand none (loadArgv [50]) [] ws := by
  obtain ⟨ws, E, hrun, href, hchild⟩ := exists_run_child
  have hstep := callStep_exec (fun _ => False) (.snapshot oneVarSys true) ws
  have hsel : ∀ cur, E.select ((loadArgv [50]).drop 3) cur = some 1 :=
    fun cur => (select_loadArgv _ _).trans hchild.ofId_two
  exact ⟨ws, _, _, hrun, Run.nil.snoc hstep,
    rtenv_session_load_keeps href (Run.nil.snoc hstep) (hsel _) hchild.length_path
      hchild.readable (.inr (.inr (hsel none)))⟩

end TPBench
