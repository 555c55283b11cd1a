import TPBench.CFile.Scan
import TPBench.Rtenv.Loaded

/-!
# Environments in a Shell

A shell that evaluates what `rtenv load` prints has the ID of the environment in the variable
`TPB_RTENV_ID`, and what is started there finds this environment as the active one: the core
library, the command line tool, and the listing. This does not change when other environments
come, and a second `rtenv load` prints the same text.

## Main results

* `rtenv_session_active` — the three searches for the active environment agree.
* `rtenv_session_shell` — what a shell has when it has evaluated the text of an environment.
* `rtenv_loaded_stays_active` — the environment stays the active one, unless it sets the
  variable itself.
-/

open CFile Conc

namespace TPBench

/-! ### The printed text -/

/-- `TPB_RTENV_ID_ENV`: `"TPB_RTENV_ID"`. -/
def tpbRtenvIdEnv : Bytes := ascii "TPB_RTENV_ID".toList

/-- `"TPB_RTENV_NAME"`. -/
def tpbRtenvNameEnv : Bytes :=
  ascii "TPB_RTENV_NAME".toList

/-- The variables that an environment sets when it is loaded. -/
def SetsKey (vars : List EnvVar) (key : Bytes) : Prop :=
  ∃ x ∈ vars, x.onSet ≠ tpbRtenvOnSetIgnore ∧ x.key = key

/-- The variables have the values that are put together from the recorded ones and those in
`env`, where the recorded value fits into the buffer with its quotes, and no other variable is
changed. -/
structure LoadedInto (vars : List EnvVar) (env env' : Sh.Env) : Prop where
  others : ∀ key, ¬SetsKey vars key → env' key = env key
  values : (vars.map EnvVar.key).Nodup → ∀ x ∈ vars, x.onSet ≠ tpbRtenvOnSetIgnore →
    QuoteFits x.value 8192 → env' x.key = some (loadedValue x.onSet x.value ((env x.key).getD []))

theorem loadedInto_nil (env : Sh.Env) : LoadedInto [] env env where
  others := fun _ _ => rfl
  values := by
    intro _ x hx
    cases hx

/-- The first variable, and those behind it. -/
theorem LoadedInto.cons {x : EnvVar} {vars : List EnvVar} {env env₁ env₂ : Sh.Env}
    (h₁ : LoadedInto [x] env env₁) (h₂ : LoadedInto vars env₁ env₂) :
    LoadedInto (x :: vars) env env₂ where
  others := by
    intro key hkey
    rw [h₂.others key, h₁.others key]
    · rintro ⟨y, hy, hset, rfl⟩
      obtain rfl := List.mem_singleton.mp hy
      exact hkey ⟨y, List.mem_cons_self, hset, rfl⟩
    · rintro ⟨y, hy, hset, rfl⟩
      exact hkey ⟨y, List.mem_cons_of_mem x hy, hset, rfl⟩
  values := by
    intro hdistinct y hy hset hfits
    obtain ⟨hx, hvars⟩ := List.nodup_cons.mp hdistinct
    rcases List.mem_cons.mp hy with rfl | hlater
    · -- no later line sets the first variable
      rw [h₂.others y.key, h₁.values (List.nodup_singleton _) y (List.mem_singleton_self y) hset
        hfits]
      rintro ⟨z, hz, -, hkey⟩
      exact hx (hkey ▸ List.mem_map_of_mem hz)
    · rw [h₂.values hvars y hlater hset hfits, h₁.others y.key]
      rintro ⟨z, hz, -, hkey⟩
      obtain rfl := List.mem_singleton.mp hz
      exact hx (hkey ▸ List.mem_map_of_mem hlater)

/-- A part of a text that is quoted as the whole text is the whole text. -/
theorem eq_of_quote_eq {v p r : Bytes} (hv : v = p ++ r) (h : Sh.quote p = Sh.quote v) : p = v := by
  have hlength := congrArg List.length h
  simp only [Sh.quote, List.length_cons, List.length_append, Sh.length_escapeQuotes, hv,
    List.count_append, List.length_nil] at hlength
  rw [hv, List.length_eq_zero_iff.mp (by omega : r.length = 0), List.append_nil]

/-- What is printed for a variable sets this variable. -/
theorem loadVar_sets {x : EnvVar} {out out' : Bytes} (h : loadVar x out = .ok () out') :
    ∃ text, out' = out ++ text ∧ ∀ env, ∃ env', Sh.Sets text env env' ∧
      LoadedInto [x] env env' := by
  by_cases hkey : sfValidEnvKey x.key = true
  · by_cases hset : x.onSet = tpbRtenvOnSetIgnore
    · rw [loadVar, if_neg (by simp [hkey]), if_pos hset] at h
      obtain ⟨-, rfl⟩ := EStateM.Result.ok.inj h
      refine ⟨[], (List.append_nil out).symm, fun env => ⟨env, Sh.sets_nil env, ?_⟩⟩
      refine ⟨fun _ _ => rfl, fun _ y hy hset' _ => ?_⟩
      obtain rfl := List.mem_singleton.mp hy
      exact absurd hset hset'
    · rw [loadVar_eq hkey hset] at h
      rcases sfShellQuote_cases x.value 8192 (by omega) with hundef | ⟨p, r, hv, hquote, -⟩
      · rw [hundef] at h
        cases h
      · rw [hquote] at h
        obtain ⟨-, rfl⟩ := EStateM.Result.ok.inj h
        refine ⟨_, rfl, fun env => ⟨_, sets_lineOf hkey p x.onSet env, ?_, ?_⟩⟩
        · intro key hother
          refine Function.update_of_ne (fun heq => hother ?_) _ _
          exact ⟨x, List.mem_singleton_self x, hset, heq.symm⟩
        · intro _ y hy _ hfits
          obtain rfl := List.mem_singleton.mp hy
          rw [Function.update_self, eq_of_quote_eq hv
            (Except.ok.inj (hquote.symm.trans (sfShellQuote_of_fits hfits)))]
  · rw [loadVar, if_pos (by simpa using hkey)] at h
    cases h

/-- What is printed for the variables sets them. -/
theorem forM_loadVar_sets {vars : List EnvVar} {out out' : Bytes}
    (h : vars.forM loadVar out = .ok () out') :
    ∃ text, out' = out ++ text ∧ ∀ env, ∃ env', Sh.Sets text env env' ∧
      LoadedInto vars env env' := by
  induction vars generalizing out with
  | nil =>
      obtain ⟨-, rfl⟩ := EStateM.Result.ok.inj h
      exact ⟨[], (List.append_nil out).symm,
        fun env => ⟨env, Sh.sets_nil env, loadedInto_nil env⟩⟩
  | cons x vars ih =>
      obtain ⟨⟨⟩, out₁, hx, hvars⟩ := bind_eq_ok.mp h
      obtain ⟨text₁, rfl, hsets₁⟩ := loadVar_sets hx
      obtain ⟨text₂, rfl, hsets₂⟩ := ih hvars
      refine ⟨text₁ ++ text₂, List.append_assoc _ _ _, fun env => ?_⟩
      obtain ⟨env₁, h₁, hloaded₁⟩ := hsets₁ env
      obtain ⟨env₂, h₂, hloaded₂⟩ := hsets₂ env₁
      exact ⟨env₂, h₁.append h₂, hloaded₁.cons hloaded₂⟩

theorem formatInt_idAt {i : ℕ} (hi : i < intMax) :
    formatInt (idAt i).toInt = formatD (i + 1) := by
  rw [toInt_idAt hi, ← formatInt_natCast]
  rfl

/-- The text of an ID is read as the ID. -/
theorem idOfText_formatInt {i : ℕ} (hi : i < intMax) :
    idOfText (formatInt (idAt i).toInt) = idAt i := by
  rw [formatInt_idAt hi]
  rw [intMax] at hi
  rw [idOfText, strtol_digits (fun b => isdigit_of_mem_formatD) (formatD_ne_nil _),
    digitsNat_formatD, min_eq_right (by omega)]
  rfl

theorem shellQuote_eq_ok {text q out out' : Bytes} {outlen : ℕ}
    (h : shellQuote text outlen out = .ok q out') :
    sfShellQuote text outlen = .ok q ∧ out' = out := by
  rw [shellQuote] at h
  rcases hquote : sfShellQuote text outlen with e | q'
  · rw [hquote] at h
    cases h
  · rw [hquote] at h
    obtain ⟨rfl, rfl⟩ := EStateM.Result.ok.inj h
    exact ⟨rfl, rfl⟩

/-- The text of an ID fits with its quotes. -/
theorem sfShellQuote_formatInt {i : ℕ} (hi : i < intMax) :
    sfShellQuote (formatInt (idAt i).toInt) 64 = .ok (Sh.quote (formatInt (idAt i).toInt)) := by
  have hquotes : 39 ∉ formatD (i + 1) := fun h => absurd (isdigit_of_mem_formatD h) (by decide)
  have hlen : (formatD (i + 1)).length ≤ 10 := by
    rw [intMax] at hi
    exact length_formatD_le (by omega)
  rw [formatInt_idAt hi]
  refine sfShellQuote_of_fits ?_
  rw [QuoteFits, List.count_eq_zero_of_not_mem hquotes]
  omega

/-- **What a shell does with the text.** The ID and the name are set, and then the variables. -/
theorem load_sets {i : ℕ} {name : Bytes} {merged : Merged} {out : Bytes} (hi : i < intMax)
    (h : tpbcliRtenvLoad (idAt i) name merged [] = .ok () out) (env : Sh.Env) :
    ∃ env₁ env', Sh.eval out env = some env' ∧ LoadedInto merged.vars env₁ env' ∧
      env₁ tpbRtenvIdEnv = some (formatInt (idAt i).toInt) ∧
      ∀ key, key ≠ tpbRtenvIdEnv → key ≠ tpbRtenvNameEnv → env₁ key = env key := by
  obtain ⟨qid, out₁, hidRun, h⟩ := bind_eq_ok.mp h
  obtain ⟨⟨⟩, out₂, hprint, h⟩ := bind_eq_ok.mp h
  obtain ⟨qname, out₃, hnameRun, h⟩ := bind_eq_ok.mp h
  obtain ⟨⟨⟩, out₄, hprint', h⟩ := bind_eq_ok.mp h
  obtain ⟨hqid, rfl⟩ := shellQuote_eq_ok hidRun
  obtain ⟨hqname, rfl⟩ := shellQuote_eq_ok hnameRun
  obtain ⟨-, rfl⟩ := EStateM.Result.ok.inj hprint
  obtain ⟨-, rfl⟩ := EStateM.Result.ok.inj hprint'
  obtain ⟨text, rfl, hvars⟩ := forM_loadVar_sets h
  rw [sfShellQuote_formatInt hi] at hqid
  obtain rfl := Except.ok.inj hqid
  have hidName : Sh.IsName tpbRtenvIdEnv := isName_of_sfValidEnvKey rfl
  have hnameName : Sh.IsName tpbRtenvNameEnv := isName_of_sfValidEnvKey rfl
  have hid := sets_exportLine hidName (formatInt (idAt i).toInt) env
  rcases sfShellQuote_cases name 512 (by omega) with hundef | ⟨p, r, -, hquote, -⟩
  · rw [hundef] at hqname
    cases hqname
  · rw [hquote] at hqname
    obtain rfl := Except.ok.inj hqname
    generalize hmid : Function.update env tpbRtenvIdEnv (some (formatInt (idAt i).toInt)) = mid
    rw [hmid] at hid
    have hname := sets_exportLine hnameName p mid
    obtain ⟨env', hrest, hloaded⟩ := hvars (Function.update mid tpbRtenvNameEnv (some p))
    refine ⟨_, env', ((hid.append hname).append hrest).eval, hloaded, ?_, fun key hne hne' => ?_⟩
    · rw [Function.update_of_ne (by decide), ← hmid, Function.update_self]
    · rw [Function.update_of_ne hne', ← hmid, Function.update_of_ne hne]

/-! ### The active environment -/

section Active

variable {ws : Workspace} {E : Envs} {i : ℕ}

/-- The listing shows the active environment of the tool. -/
theorem RefinesEnvs.exec_listActive (href : RefinesEnvs ws E) (envId : Option Bytes) :
    (tpbcliRtenvResolveListActive envId).exec ws = .ok ((E.activeOfTool envId).map idAt) ws := by
  have hlisted : ∀ id, Prog.exec (do
      let found ← tpbcliRtenvIdExists id
      return if found = true then some id else none) ws = .ok ((E.ofId id).map idAt) ws := by
    intro id
    rw [Prog.exec_bind, bind_ok (href.exec_idExists id)]
    rcases hof : E.ofId id with - | i
    · rfl
    · rw [Option.map_some, ((Envs.ofId_eq_some href.count_le).mp hof).2]
      rfl
  have hbase : (tpbcliRtenvResolveListActive none).exec ws = .ok (E.current.map idAt) ws := by
    change Prog.exec (Prog.handle _ _) ws = _
    rw [← href.ofId_baseId, Prog.exec_handle, Prog.exec_call]
    exact hlisted _
  rcases envId with - | (- | ⟨b, bs⟩)
  · exact hbase
  · exact hbase
  · exact hlisted _

/-- The core library finds the active environment. -/
theorem RefinesEnvs.exec_resolveActive (href : RefinesEnvs ws E) {envId : Option Bytes}
    (h : E.active envId = some i) (sys : SysEnv) :
    (tpbRtenvResolveActiveId envId sys).exec ws = .ok (idAt i) ws := by
  have hfound : ∀ id j (p : RtenvP Int32), E.ofId id = some j → Prog.exec (do
      let found ← tpbcliRtenvIdExists id
      if found = true then return id else p) ws = .ok (idAt j) ws := by
    intro id j p hof
    rw [Prog.exec_bind, bind_ok (href.exec_idExists id), hof,
      ((Envs.ofId_eq_some href.count_le).mp hof).2]
    rfl
  have hbase : ∀ j, E.current = some j → (resolveBase sys).exec ws = .ok (idAt j) ws := by
    intro j hj
    rw [← href.ofId_baseId] at hj
    have hget : Prog.exec (Prog.call RtenvAct.other (propagate .misc tpbRafConfigGetBaseId)) ws =
        .ok (ws.baseId.getD 1) ws := by
      rw [Prog.exec_call]
      rfl
    rw [resolveBase, Prog.exec_bind, bind_ok hget]
    exact hfound _ j _ hj
  rcases envId with - | (- | ⟨b, bs⟩)
  · exact hbase i h
  · exact hbase i h
  · rw [Envs.active, Envs.ofVariable] at h
    rcases hof : E.ofId (idOfText (b :: bs)) with - | j
    · rw [hof, Option.none_or] at h
      rw [tpbRtenvResolveActiveId, Prog.exec_bind,
        bind_ok (href.exec_idExists (idOfText (b :: bs))), hof]
      exact hbase i h
    · rw [hof, Option.some_or] at h
      obtain rfl := Option.some.inj h
      exact hfound _ j _ hof

/-- What the tool finds, the core library finds. -/
theorem Envs.active_of_activeOfTool {envId : Option Bytes} (h : E.activeOfTool envId = some i) :
    E.active envId = some i := by
  rcases envId with - | (- | ⟨b, bs⟩)
  · exact h
  · exact h
  · have hof : E.ofId (idOfText (b :: bs)) = some i := h
    rw [Envs.active, Envs.ofVariable, hof, Option.some_or]

/-- What was printed. -/
theorem RefinesEnvs.printed (href : RefinesEnvs ws E) {envId : Option Bytes} {argv : List Bytes}
    {log out : Bytes} (hsel : E.select (argv.drop 3) (E.activeOfTool envId) = some i)
    (hlen : (E.tree.path i).length ≤ 64) (hread : ∀ j ∈ E.tree.path i, E.Readable j)
    (hload : tpbcliRtenvLoadCommand envId argv log ws = .ok () out) :
    tpbcliRtenvLoad (idAt i) (E.loadName i) (E.merged i) [] = .ok () out := by
  rw [href.load hsel hlen hread, Envs.loaded] at hload
  split_ifs at hload
  exact logged_eq_ok.mp hload

end Active

/-! ### The session with a child -/

section Child

variable {ws : Workspace} {E : Envs}

/-- The child is selected by its ID. -/
theorem IsChildLineage.select (h : IsChildLineage E) (cur : Option ℕ) :
    E.select ((loadArgv [50]).drop 3) cur = some 1 := (select_loadArgv _ _).trans h.ofId_two

/-- Its text is printed. -/
theorem IsChildLineage.load (h : IsChildLineage E) (href : RefinesEnvs ws E) :
    ∃ out, tpbcliRtenvLoadCommand none (loadArgv [50]) [] ws = .ok () out := by
  obtain ⟨out, hout⟩ : ∃ out,
    tpbcliRtenvLoad 2 [99] ⟨[], [rootVar, childVar]⟩ [] = .ok () out := ⟨_, rfl⟩
  refine ⟨out, ?_⟩
  rw [href.load (h.select _) h.length_path h.readable, h.loaded, hout]

/-- Neither variable is that of the ID. -/
theorem not_setsId_child : ¬SetsKey [rootVar, childVar] tpbRtenvIdEnv := by
  rintro ⟨x, hx, -, hkey⟩
  rcases List.mem_pair.mp hx with rfl | rfl
  · exact absurd hkey (by decide)
  · exact absurd hkey (by decide)

end Child

/-! ### Sessions -/

/-- **The three searches agree.** After every sequence of calls, in which any actions may fail,
and for every value of the variable, the listing shows the environment that the tool finds, and
none when the tool fails; and what the tool finds, the core library finds. -/
theorem rtenv_session_active {F : Err → Prop} {ws₀ ws : Workspace} {E₀ : Envs}
    {calls : List (RtenvCall × Except Err RtenvDone)} (hinit : RefinesEnvs ws₀ E₀)
    (hrun : Run (CallStep F) ws₀ calls ws) (envId : Option Bytes) :
    ∃ found, (tpbcliRtenvResolveListActive envId).exec ws = .ok found ws ∧
      (∀ id, found = some id ↔ (activeOfTool envId).exec ws = .ok id ws) ∧
      ∀ id, found = some id → ∀ sys, (tpbRtenvResolveActiveId envId sys).exec ws = .ok id ws := by
  obtain ⟨E, -, href⟩ := hrun.simulates hinit callStep_means
  refine ⟨_, href.exec_listActive envId, fun id => ?_, fun id h sys => ?_⟩
  · rw [href.exec_activeOfTool]
    rcases E.activeOfTool envId with - | i
    · exact iff_of_false (by simp) (by simp)
    · simp
  · obtain ⟨i, hi, rfl⟩ := Option.map_eq_some_iff.mp h
    exact href.exec_resolveActive (Envs.active_of_activeOfTool hi) sys

/-- With the ID of the child in the variable, all of them find the child, although the base is
the snapshot. -/
theorem rtenv_session_active_child : ∃ ws found,
    Run (CallStep fun _ => False) Workspace.empty childCalls ws ∧
    (tpbcliRtenvResolveListActive (some [50])).exec ws = .ok found ws ∧ found = some 2 ∧
    ∀ sys, (tpbRtenvResolveActiveId (some [50]) sys).exec ws = .ok 2 ws := by
  obtain ⟨ws, E, hrun, href, hchild⟩ := exists_run_child
  have htool : (activeOfTool (some [50])).exec ws = .ok 2 ws := by
    rw [href.exec_activeOfTool, Envs.activeOfTool, hchild.ofId_two]
    rfl
  obtain ⟨found, hlist, hagree, hcore⟩ :=
    rtenv_session_active refinesEnvs_workspaceEmpty hrun (some [50])
  have hfound : found = some 2 := (hagree 2).mpr htool
  exact ⟨ws, found, hrun, hlist, hfound, hcore 2 hfound⟩

/-- **What a shell inherits.** After every sequence of calls, in which any actions may fail,
there is a lineage that the calls mean, and a shell that evaluates what `rtenv load` prints for
one of its environments has the ID, and for each variable that the environment inherits and sets
the value that is put together from this one and the value before; it keeps all other
variables. -/
theorem rtenv_session_shell {F : Err → Prop} {ws₀ ws : Workspace} {E₀ : Envs}
    {calls : List (RtenvCall × Except Err RtenvDone)} (hinit : RefinesEnvs ws₀ E₀)
    (hrun : Run (CallStep F) ws₀ calls ws) :
    ∃ E, Run (EnvsStep (Faulty F)) E₀ calls E ∧ ∀ envId argv log i out,
      E.select (argv.drop 3) (E.activeOfTool envId) = some i →
      (E.tree.path i).length ≤ 64 → (∀ j ∈ E.tree.path i, E.Readable j) →
      tpbcliRtenvLoadCommand envId argv log ws = .ok () out →
      ∀ env, ∃ env', Sh.eval out env = some env' ∧
        (¬SetsKey (E.merged i).vars tpbRtenvIdEnv →
          env' tpbRtenvIdEnv = some (formatInt (idAt i).toInt)) ∧
        (∀ x ∈ (E.merged i).vars, x.onSet ≠ tpbRtenvOnSetIgnore → QuoteFits x.value 8192 →
          x.key ≠ tpbRtenvIdEnv → x.key ≠ tpbRtenvNameEnv →
          env' x.key = some (loadedValue x.onSet x.value ((env x.key).getD []))) ∧
        ∀ key, ¬SetsKey (E.merged i).vars key → key ≠ tpbRtenvIdEnv → key ≠ tpbRtenvNameEnv →
          env' key = env key := by
  obtain ⟨E, hmeans, href⟩ := hrun.simulates hinit callStep_means
  refine ⟨E, hmeans, fun envId argv log i out hsel hlen hread hload env => ?_⟩
  have hi := ((href.exec_sfParseSelector envId argv).1 i hsel).1
  obtain ⟨env₁, env', heval, hloaded, hid, hothers⟩ :=
    load_sets (hi.trans_le href.count_le) (href.printed hsel hlen hread hload) env
  have hdistinct : ((E.merged i).vars.map EnvVar.key).Nodup := by
    rw [← mergedOf_path href.count_le hread]
    exact chainMerged_mergedOf.distinct
  refine ⟨env', heval, fun hfree => ?_, fun x hx hset hfits hne hne' => ?_,
    fun key hfree hne hne' => ?_⟩
  · rw [hloaded.others tpbRtenvIdEnv hfree, hid]
  · rw [hloaded.values hdistinct x hx hset hfits, hothers x.key hne hne']
  · rw [hloaded.others key hfree, hothers key hne hne']

/-- A shell loads the child: it gets the ID and the variable of the child, and keeps the one that
the snapshot recorded without a mode, as well as its other ones. -/
theorem rtenv_session_shell_child : ∃ ws out env',
    Run (CallStep fun _ => False) Workspace.empty childCalls ws ∧
    tpbcliRtenvLoadCommand none (loadArgv [50]) [] ws = .ok () out ∧
    Sh.eval out (fun _ => some [97]) = some env' ∧ env' tpbRtenvIdEnv = some [50] ∧
    env' [66] = some [100] ∧ env' [65] = some [97] := by
  obtain ⟨ws, E₁, hrun, href, hchild₁⟩ := exists_run_child
  obtain ⟨out, hload⟩ := hchild₁.load href
  obtain ⟨E, hmeans, hshell⟩ := rtenv_session_shell refinesEnvs_workspaceEmpty hrun
  have hchild := run_child hmeans
  obtain ⟨env', heval, hid, hvars, hkeep⟩ := hshell none (loadArgv [50]) [] 1 out
    (hchild.select _) hchild.length_path hchild.readable hload fun _ => some [97]
  rw [hchild.merged] at hid hvars hkeep
  have hvar := hvars childVar (by simp) (by decide) (by rw [QuoteFits]; decide) (by decide)
    (by decide)
  have hroot : ¬SetsKey [rootVar, childVar] [65] := by
    rintro ⟨x, hx, hset, hkey⟩
    rcases List.mem_pair.mp hx with rfl | rfl
    · exact hset rfl
    · exact absurd hkey (by decide)
  exact ⟨ws, out, env', hrun, hload, heval, hid not_setsId_child, hvar,
    hkeep [65] hroot (by decide) (by decide)⟩

/-- **A loaded environment stays active.** In a shell that has evaluated what `rtenv load`
printed for an environment that does not set `TPB_RTENV_ID` itself, the core library, the tool
and the listing find this environment as the active one, whatever is called before, with any
failures, and `rtenv load` prints the same text again. -/
theorem rtenv_loaded_stays_active {F : Err → Prop} {ws₀ ws : Workspace} {E₀ : Envs}
    {calls : List (RtenvCall × Except Err RtenvDone)} {envId : Option Bytes} {argv : List Bytes}
    {i : ℕ} {log out : Bytes} (hinit : RefinesEnvs ws₀ E₀) (hrun : Run (CallStep F) ws₀ calls ws)
    (hsel : E₀.select (argv.drop 3) (E₀.activeOfTool envId) = some i)
    (hlen : (E₀.tree.path i).length ≤ 64) (hread : ∀ j ∈ E₀.tree.path i, E₀.Readable j)
    (hfree : ¬SetsKey (E₀.merged i).vars tpbRtenvIdEnv)
    (hload : tpbcliRtenvLoadCommand envId argv log ws₀ = .ok () out) (env : Sh.Env) :
    ∃ env', Sh.eval out env = some env' ∧
      (∀ sys, (tpbRtenvResolveActiveId (env' tpbRtenvIdEnv) sys).exec ws = .ok (idAt i) ws) ∧
      (activeOfTool (env' tpbRtenvIdEnv)).exec ws = .ok (idAt i) ws ∧
      (tpbcliRtenvResolveListActive (env' tpbRtenvIdEnv)).exec ws = .ok (some (idAt i)) ws ∧
      tpbcliRtenvLoadCommand (env' tpbRtenvIdEnv) [] log ws = .ok () out := by
  obtain ⟨E, hmeans, href⟩ := hrun.simulates hinit callStep_means
  have hpre := nodes_extend_of_run hmeans
  have hi := ((hinit.exec_sfParseSelector envId argv).1 i hsel).1
  have hroom : i < intMax := hi.trans_le hinit.count_le
  obtain ⟨env₁, env', heval, hloaded, hid₁, -⟩ :=
    load_sets hroom (hinit.printed hsel hlen hread hload) env
  have hid : env' tpbRtenvIdEnv = some (formatInt (idAt i).toInt) := by
    rw [hloaded.others tpbRtenvIdEnv hfree, hid₁]
  have hne : formatInt (idAt i).toInt ≠ [] := by
    rw [formatInt_idAt hroom]
    exact formatD_ne_nil _
  have hof : E.ofId (idOfText (formatInt (idAt i).toInt)) = some i := by
    rw [idOfText_formatInt hroom, Envs.ofId_eq_some href.count_le]
    exact ⟨hi.trans_le hpre.length_le, rfl⟩
  have hactive : E.activeOfTool (env' tpbRtenvIdEnv) = some i := by
    obtain ⟨b, bs, htext⟩ := List.exists_cons_of_ne_nil hne
    rw [hid, htext]
    rw [htext] at hof
    exact hof
  have hagain : E.select [] (E.activeOfTool (env' tpbRtenvIdEnv)) = some i := hactive
  refine ⟨env', heval, href.exec_resolveActive (Envs.active_of_activeOfTool hactive), ?_, ?_, ?_⟩
  · rw [href.exec_activeOfTool, hactive]
  · rw [href.exec_listActive, hactive]
    rfl
  · exact hload ▸ hinit.load_of_extends href hpre hsel hagain hlen hread

/-- The child is loaded, and there is another snapshot, which is the new base. -/
theorem rtenv_loaded_stays_active_child : ∃ ws done ws' out env',
    Run (CallStep fun _ => False) Workspace.empty childCalls ws ∧
    tpbcliRtenvLoadCommand none (loadArgv [50]) [] ws = .ok () out ∧
    Sh.eval out (fun _ => none) = some env' ∧
    Run (CallStep fun _ => False) ws [(.snapshot oneVarSys true, done)] ws' ∧
    (activeOfTool (env' tpbRtenvIdEnv)).exec ws' = .ok 2 ws' := by
  obtain ⟨ws, E, hrun, href, hchild⟩ := exists_run_child
  have hstep := callStep_exec (fun _ => False) (.snapshot oneVarSys true) ws
  obtain ⟨out, hload⟩ := hchild.load href
  have hfree : ¬SetsKey (E.merged 1).vars tpbRtenvIdEnv := by
    rw [hchild.merged]
    exact not_setsId_child
  obtain ⟨env', heval, -, htool, -⟩ := rtenv_loaded_stays_active href (Run.nil.snoc hstep)
    (hchild.select _) hchild.length_path hchild.readable hfree hload fun _ => none
  exact ⟨ws, _, _, out, env', hrun, hload, heval, Run.nil.snoc hstep, htool⟩

end TPBench
