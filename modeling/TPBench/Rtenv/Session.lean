import TPBench.Rtenv.Lookups

/-!
# Sessions with Runtime Environments

A session is a sequence of calls of the core library and the command line tool that create
environments, look for the active one, or count on one. Each call runs alone, and any of its
actions may fail before it changes anything (`CallStep`).

The programs of the calls are taken apart in their order: the creation of an environment, the
search for the active one, and the choice of a parent. What each of them leaves is said with
`Refining`, from which the step of a call follows (`alone_prog`).

## Main results

* `rtenv_session` — along every sequence of calls, with any failures, the workspace refines the
  lineage that the calls mean.
-/

open CFile Conc

namespace TPBench

/-! ### Merges read only -/

section MergeReads

theorem readsOnly_undefinedCall {α : Type} : ReadsOnly (undefinedCall : WsM α) := fun _ => rfl

theorem readsOnly_deref {α : Type} (o : Option α) : ReadsOnly (deref o) := by
  cases o with
  | none => exact readsOnly_undefinedCall
  | some a => exact readsOnly_pure a

theorem ReadsOnly.foldlM {α β : Type} {f : β → α → WsM β} (hf : ∀ b a, ReadsOnly (f b a))
    (l : List α) (b : β) : ReadsOnly (l.foldlM f b) := by
  induction l generalizing b with
  | nil => exact readsOnly_pure b
  | cons a l ih =>
      rw [List.foldlM_cons]
      exact (hf b a).bind ih

theorem readsOnly_sfMergeAddApp (name version note : Option Bytes) (out : Merged) :
    ReadsOnly (sfMergeAddApp name version note out) := by
  refine (readsOnly_deref name).bind fun n => ?_
  split
  · exact (readsOnly_deref version).bind fun _ => (readsOnly_deref note).bind fun _ =>
      readsOnly_pure _
  · refine (readsOnly_tpbFail _ _).ite ?_
    exact (readsOnly_deref version).bind fun _ => (readsOnly_deref note).bind fun _ =>
      readsOnly_pure _

theorem readsOnly_sfMergeAddVar (maxVar : ℕ) (key value : Option Bytes) (onSet onGet : UInt32)
    (out : Merged) : ReadsOnly (sfMergeAddVar maxVar key value onSet onGet out) := by
  refine (readsOnly_deref key).bind fun k => ?_
  split
  · exact (readsOnly_deref value).bind fun _ => readsOnly_pure _
  · refine (readsOnly_tpbFail _ _).ite ?_
    exact (readsOnly_deref value).bind fun _ => readsOnly_pure _

theorem readsOnly_findParts (hdrs : List MetaHeader) (data : Bytes) (i : ℤ) :
    ReadsOnly (findParts hdrs data i) := by
  refine ReadsOnly.foldlM (fun x h => ?_) _ _
  refine (readsOnly_pure _).ite (ReadsOnly.ite ?_ (ReadsOnly.ite ?_ (readsOnly_pure _)))
  · exact (readsOnly_deref _).bind fun _ => readsOnly_pure _
  · exact (readsOnly_deref _).bind fun _ => readsOnly_pure _

/-- A merge of a record leaves the workspace as it is. -/
theorem readsOnly_sfMergeRecordDelta (maxVar : ℕ) (id : Int32) (out : Merged) :
    ReadsOnly (sfMergeRecordDelta maxVar id out) := by
  refine ReadsOnly.bind (readsOnly_fopenRead _ _ _) fun v => ?_
  refine ReadsOnly.bind (ReadsOnly.foldlM (fun out h => ?_) _ _) fun out =>
    ReadsOnly.foldlM (fun out h => ?_) _ _
  · refine ReadsOnly.ite (ReadsOnly.foldlM (fun out a => ?_) _ _) (readsOnly_pure _)
    exact readsOnly_undefinedCall.ite (readsOnly_sfMergeAddApp _ _ _ _)
  · refine ReadsOnly.ite ?_ (readsOnly_pure _)
    exact (readsOnly_deref _).bind fun i => (readsOnly_findParts _ _ _).bind fun x =>
      readsOnly_sfMergeAddVar _ _ _ _ _ _

/-- The walk along a chain reads only. -/
theorem readsOnly_walkChain (mod : Module) (k : ℕ) (chain : List Int32) (cur : Int32) :
    ReadsOnly (walkChain mod k chain cur) := by
  induction k generalizing chain cur with
  | zero => exact readsOnly_pure _
  | succ k ih =>
      have hlist : ReadsOnly (orFail mod .fileIoFail tpbRafEntryListRtenv) := by
        intro ws
        rw [after_orFail]
        exact after_list ws
      refine hlist.bind fun ents => ?_
      exact (readsOnly_pure _).ite ((readsOnly_tpbFail _ _).ite (ih _ _))

/-- A merge of a chain leaves the workspace as it is. -/
theorem readsOnly_tpbcliRtenvMergeChain (id : Int32) : ReadsOnly (tpbcliRtenvMergeChain id) :=
  (readsOnly_walkChain _ _ _ _).bind fun _ =>
    ReadsOnly.foldlM (fun _ _ => readsOnly_sfMergeRecordDelta _ _ _) _ _

end MergeReads

/-! ### Creating environments -/

section Programs

variable {F : Err → Prop} {α : Type} {ws : Workspace} {E : Envs}

/-- The workspace refines a lineage that the result means. -/
def Refining (P : Except Err α → Envs → Prop) (r : Except Err α) (ws : Workspace) : Prop :=
  ∃ E', P r E' ∧ RefinesEnvs ws E'

/-- Which error it is does not matter. -/
theorem Creates.error {faulty : Prop} {p : Option ℕ} {name : Bytes} {s : Settings} {e : Err}
    {E' : Envs} (h : Creates faulty E p name s (.error e) E') (e' : Err) :
    Creates faulty E p name s (.error e') E' := by
  cases h with
  | failed => exact .failed e'
  | failedNew _ hname => exact .failedNew e' hname

/-- The error may be another one. -/
theorem Resolves.error {faulty : Prop} {found : Option ℕ} {sys : SysEnv} {e : Err}
    {E' : Envs} (h : Resolves faulty E found sys (.error e) E') (e' : Err) :
    Resolves faulty E found sys (.error e') E' := by
  cases h with
  | failed => exact .failed e'
  | failedNew _ hname => exact .failedNew e' hname

section Create

variable {hostname : CArr 256} {utcBits : UInt64} {name note : Bytes} {p : Option ℕ}
  {spec : RtenvSpec} {sys : SysEnv}

/-- The tool writes a row and a record, and registers the environment with its parent. -/
theorem alone_writeRecord (href : RefinesEnvs ws E) (hroom : E.count < intMax) (n : ℕ)
    (hp : ∀ q ∈ p, q < E.count) :
    Alone F (tpbcliRtenvWriteRecordP hostname utcBits name note (parentId p) spec n (idAt E.count))
      (Refining (Creates (Faulty F) E p (cstr (snprintfS 256 name).toList)
        ⟨spec.apps.map RtenvApp.mergedApp, spec.vars.map RtenvVar.envVar⟩)) ws := by
  rw [tpbcliRtenvWriteRecordP]
  refine (alone_append href hroom n hp rfl rfl).bind ?_ ?_
  · rintro ⟨⟩ ws₁ (⟨e, h, -⟩ | ⟨-, hname, h₁⟩)
    · cases h
    dsimp only
    split
    · exact ⟨_, .failedNew _ hname, h₁⟩
    · rename_i hpayload
      have hfits : spec.payload.length ≤ 65536 := Nat.le_of_not_lt hpayload
      have hwrite := h₁.write
        (r := writtenRecord hostname utcBits (idAt E.count) name note (parentId p) spec hfits) rfl
        (s := ⟨spec.apps.map RtenvApp.mergedApp, spec.vars.map RtenvVar.envVar⟩)
        fun hfit => declares_writtenRecord hfit
      refine Alone.bind (Q := fun r ws' => (∃ e, r = .error e ∧ ws' = ws₁) ∨
        r = .ok () ∧ RefinesEnvs ws' (E.add p _ hp))
        (Alone.call (.inr ⟨rfl, hwrite⟩) fun e _ => .inl ⟨e, rfl, rfl⟩) ?_ ?_
      · rintro ⟨⟩ ws₂ (⟨e, h, -⟩ | ⟨-, h₂⟩)
        · cases h
        split
        · refine (alone_derive h₂ (parentId p) (idAt E.count)).handle ?_
          rintro ((⟨mod, c⟩ | -) | ⟨⟩) ws₃ h₃
          · exact ⟨_, .created hname, h₃⟩
          · exact ⟨_, .failedNew _ hname, h₃⟩
          · exact ⟨_, .created hname, h₃⟩
        · exact ⟨_, .created hname, h₂⟩
      · rintro e ws₂ (⟨e', h, rfl⟩ | ⟨h, -⟩)
        · exact ⟨_, .failedNew e hname, h₁⟩
        · cases h
  · rintro e ws₁ (⟨e', h, rfl⟩ | ⟨h, -⟩)
    · exact ⟨E, .failed e, href⟩
    · cases h

theorem alone_sfCommitNewP (href : RefinesEnvs ws E) (hp : ∀ q ∈ p, q < E.count) :
    Alone F (sfCommitNewP hostname utcBits name note (parentId p) spec)
      (Refining (Creates (Faulty F) E p (cstr (snprintfS 256 name).toList)
        ⟨spec.apps.map RtenvApp.mergedApp, spec.vars.map RtenvVar.envVar⟩)) ws := by
  rw [sfCommitNewP]
  split
  · exact ⟨E, .failed _, href⟩
  · refine (alone_propagateP .cliRtenv (alone_alloc href) ?_).bind ?_ ?_
    · rintro e e' ws' ⟨rfl, -⟩
      exact ⟨rfl, fun id n h => by cases h⟩
    · rintro ⟨id, n⟩ ws' ⟨rfl, hid⟩
      obtain ⟨rfl, hroom⟩ := hid id n rfl
      refine alone_propagateP .cliRtenv (alone_writeRecord href hroom n hp) ?_
      rintro e e' ws' ⟨E', hmeans, h'⟩
      exact ⟨E', hmeans.error e', h'⟩
    · rintro e ws' ⟨rfl, -⟩
      exact ⟨E, .failed e, href⟩

/-- The record of a snapshot declares its variables. -/
theorem declares_snapshotRecord {id : Int32} {vars : List EnvVar}
    {hcount : 1 + vars.length * 4 ≤ intMax} {hsize : (vars.flatMap varPayload).length < 2 ^ 63}
    (hfit : ∀ x ∈ vars, x.Fits) :
    Declares (snapshotRecord sys id name vars hcount hsize).view [] vars [] [] := by
  refine ⟨?_, ?_, rfl, .none, by simp, hfit, Nat.zero_le _, hcount⟩
  · change (applicationHeader 0).norm :: (varsFrom 0 vars).map MetaHeader.norm = _
    rw [map_norm_varsFrom, List.append_nil]
    rfl
  · change (snapshotRecord sys id name vars hcount hsize).data = _
    rw [snapshotRecord_data]
    exact (List.append_nil _).symm

/-- A snapshot writes a row and a record. -/
theorem alone_writeSnapshot (href : RefinesEnvs ws E) (hroom : E.count < intMax) (n : ℕ) :
    Alone F (sfWriteEnvSnapshotRecordP sys n (idAt E.count) name)
      (Refining (Creates (Faulty F) E none (cstr (snprintfS 256 name).toList)
        ⟨[], sys.environ.filterMap splitVar⟩)) ws := by
  rw [sfWriteEnvSnapshotRecordP]
  generalize hvars : sys.environ.filterMap splitVar = vars
  have hp : ∀ q ∈ (none : Option ℕ), q < E.count := by
    intro q hq
    cases hq
  refine (alone_propagateP .misc (alone_append href hroom n hp rfl rfl) ?_).bind ?_ ?_
  · rintro e e' ws' (⟨e'', -, rfl⟩ | ⟨h, -⟩)
    · exact .inl ⟨e', rfl, rfl⟩
    · cases h
  · rintro ⟨⟩ ws₁ (⟨e, h, -⟩ | ⟨-, hname, h₁⟩)
    · cases h
    dsimp only
    split
    · exact ⟨_, .failedNew _ hname, h₁⟩
    rename_i hcount
    split
    · exact ⟨_, .failedNew _ hname, h₁⟩
    rename_i hsize
    have hwrite := h₁.write
      (r := snapshotRecord sys (idAt E.count) name vars (Nat.le_of_not_lt hcount)
        (Nat.lt_of_not_le hsize)) rfl (s := ⟨[], vars⟩) fun hfit => declares_snapshotRecord hfit
    have hrun : propagate .misc (tpbRafRecordWriteRtenv
        (snapshotAttr sys (idAt E.count) name vars.length) (applicationHeader 0 :: varsHeaders vars)
        (if vars.flatMap varPayload = [] then none else some (vars.flatMap varPayload))
        (UInt64.ofNat (vars.flatMap varPayload).length)) ws₁ =
          .ok () (ws₁.set (.rtenv (idAt E.count)) (snapshotRecord sys (idAt E.count) name vars
            (Nat.le_of_not_lt hcount) (Nat.lt_of_not_le hsize)).bytes) := by
      have hdata : (snapshotRecord sys (idAt E.count) name vars (Nat.le_of_not_lt hcount)
          (Nat.lt_of_not_le hsize)).datasize = UInt64.ofNat (vars.flatMap varPayload).length := by
        rw [Record.datasize, snapshotRecord_data]
      rw [propagate_eq_ok, ← hdata]
      rfl
    refine Alone.call ?_ fun e _ => ⟨_, .failedNew e hname, h₁⟩
    rw [hrun]
    exact ⟨_, .created hname, hwrite⟩
  · rintro e ws₁ (⟨e', h, rfl⟩ | ⟨h, -⟩)
    · exact ⟨E, .failed e, href⟩
    · cases h

end Create

/-! ### Finding the active environment -/

/-- Without environments none is active. -/
theorem Envs.ofId_of_empty (h : E.count = 0) (id : Int32) : E.ofId id = none := by
  rw [Envs.ofId, h]
  rfl

theorem Envs.current_of_empty (h : E.count = 0) : E.current = none := by
  rw [Envs.current, if_neg (by omega), Option.or_none]
  rcases hbase : E.base with - | b
  · rfl
  · have hlt : b < E.count := E.base_lt b hbase
    omega

theorem Envs.active_of_empty (h : E.count = 0) (envId : Option Bytes) : E.active envId = none := by
  rw [Envs.active, E.current_of_empty h, Option.or_none]
  rcases envId with - | (- | ⟨b, bs⟩)
  · rfl
  · rfl
  · exact E.ofId_of_empty h _

/-- The search for a name reads only. -/
theorem alone_pickNameP (href : RefinesEnvs ws E) (k n : ℕ) :
    Alone F (pickNameP k n) (fun _ ws' => ws' = ws) ws := by
  obtain ⟨rows, -, -, hlist⟩ := href.list
  induction k generalizing n with
  | zero => exact rfl
  | succ k ih =>
      refine (alone_rowExistsP hlist _).bind ?_ ?_
      · rintro found ws' ⟨rfl, -⟩
        split
        · exact ih (n + 1)
        · exact rfl
      · rintro e ws' ⟨rfl, -⟩
        rfl

theorem alone_sfPickBuildEnvNameP (href : RefinesEnvs ws E) :
    Alone F sfPickBuildEnvNameP (fun _ ws' => ws' = ws) ws := by
  obtain ⟨rows, -, -, hlist⟩ := href.list
  refine (alone_rowExistsP hlist _).bind ?_ ?_
  · rintro found ws' ⟨rfl, -⟩
    split
    · exact alone_pickNameP href _ _
    · exact rfl
  · rintro e ws' ⟨rfl, -⟩
    rfl

/-- An ID that is found is that of an environment. -/
theorem Resolves.of_ofId {faulty : Prop} {found : Option ℕ} {sys : SysEnv} {id : Int32}
    (hle : E.count ≤ intMax) (h : ∃ i, E.ofId id = some i)
    (hfound : faulty ∨ found = E.ofId id) : Resolves faulty E found sys (.ok id) E := by
  obtain ⟨i, hi⟩ := h
  obtain ⟨hlt, rfl⟩ := (Envs.ofId_eq_some hle).mp hi
  exact .found hlt (hfound.imp_right fun hf => hf.trans hi)

section Find

variable {sys : SysEnv} {found : Option ℕ}

/-- A snapshot of the core library returns the base, or adds an environment and makes it the
base. -/
theorem alone_snapshot (href : RefinesEnvs ws E) {alwaysNew : Bool}
    (hnew : alwaysNew = true ∨ E.count = 0 → found = none)
    (hold : alwaysNew = false → Faulty F ∨ found = E.current) :
    Alone F (tpbRtenvSnapshotBuildEnvP sys alwaysNew)
      (Refining (Resolves (Faulty F) E found sys)) ws := by
  obtain ⟨rows, hlinks, hlist⟩ := alone_list (F := F) href .misc
  refine hlist.bind ?_ ?_
  · rintro entries ws' ⟨rfl, hes⟩
    obtain rfl := hes entries rfl
    split
    · rename_i hkeep
      refine (alone_getBaseId href .misc).bind ?_ ?_
      · rintro id ws₁ ⟨rfl, hid⟩
        obtain rfl := hid id rfl
        refine (alone_idExists href (idAt (E.base.getD 0)) fun e => by
          rw [beq_iff_eq]).bind ?_ ?_
        · rintro listed ws₂ ⟨rfl, htrue, -⟩
          split
          · rename_i hlisted
            refine ⟨E, .of_ofId href.count_le (htrue (by rw [hlisted])) ?_, href⟩
            rw [E.ofId_base href.count_le]
            exact hold hkeep.1
          · exact ⟨E, .failed _, href⟩
        · rintro e ws₂ ⟨rfl, -⟩
          exact ⟨E, .failed e, href⟩
      · rintro e ws₁ ⟨rfl, -⟩
        exact ⟨E, .failed e, href⟩
    · rename_i hfresh
      have hnone : found = none := by
        refine hnew ?_
        rw [length_of_links hlinks] at hfresh
        cases alwaysNew with
        | true => exact .inl rfl
        | false => exact .inr (by simpa using hfresh)
      refine (alone_propagateP .misc (alone_sfPickBuildEnvNameP href) fun _ _ _ h => h).bind ?_ ?_
      · rintro name ws₁ rfl
        refine (alone_propagateP .misc (alone_alloc href) ?_).bind ?_ ?_
        · rintro e e' ws₂ ⟨rfl, -⟩
          exact ⟨rfl, fun id n h => by cases h⟩
        · rintro ⟨id, n⟩ ws₂ ⟨rfl, hid⟩
          obtain ⟨rfl, hroom⟩ := hid id n rfl
          refine (alone_propagateP .misc (alone_writeSnapshot href hroom n) ?_).bind ?_ ?_
          · rintro e e' ws₃ ⟨E', hmeans, h'⟩
            exact ⟨E', hmeans.error e', h'⟩
          · rintro ⟨⟩ ws₃ ⟨E', hmeans, h'⟩
            cases hmeans with
            | created hname =>
                have hset := h'.setBase (b := E.count) (by
                  rw [Envs.count_add]
                  exact Nat.lt_succ_self _)
                refine Alone.bind (Q := fun r ws' => (∃ e, r = .error e ∧ ws' = ws₃) ∨
                  r = .ok () ∧ ws' = { ws₃ with baseId := some (idAt E.count) })
                  (Alone.call (.inr ⟨rfl, rfl⟩) fun e _ => .inl ⟨e, rfl, rfl⟩) ?_ ?_
                · rintro ⟨⟩ ws₄ (⟨e, h, -⟩ | ⟨-, rfl⟩)
                  · cases h
                  · exact ⟨_, .snapshot hnone hname, hset⟩
                · rintro e ws₄ (⟨e', h, rfl⟩ | ⟨h, -⟩)
                  · exact ⟨_, .failedNew e hname, h'⟩
                  · cases h
          · rintro e ws₃ ⟨E', hmeans, h'⟩
            cases hmeans with
            | failed => exact ⟨E, .failed e, h'⟩
            | failedNew _ hname => exact ⟨_, .failedNew e hname, h'⟩
        · rintro e ws₂ ⟨rfl, -⟩
          exact ⟨E, .failed e, href⟩
      · rintro e ws₁ rfl
        exact ⟨E, .failed e, href⟩
  · rintro e ws' ⟨rfl, -⟩
    exact ⟨E, .failed e, href⟩

/-- The base is found, or a snapshot is made when there is no environment. -/
theorem alone_resolveBase (href : RefinesEnvs ws E) (hnew : E.count = 0 → found = none)
    (hfound : Faulty F ∨ found = E.current) :
    Alone F (resolveBase sys) (Refining (Resolves (Faulty F) E found sys)) ws := by
  refine (alone_getBaseId href .misc).bind ?_ ?_
  · rintro id ws₁ ⟨rfl, hid⟩
    obtain rfl := hid id rfl
    refine (alone_tpbcliRtenvIdExists href (idAt (E.base.getD 0))).bind ?_ ?_
    · rintro listed ws₂ ⟨rfl, htrue, -⟩
      split
      · rename_i hlisted
        refine ⟨E, .of_ofId href.count_le (htrue (by rw [hlisted])) ?_, href⟩
        rw [E.ofId_base href.count_le]
        exact hfound
      · refine alone_propagateP .misc (alone_snapshot href ?_ fun _ => hfound) ?_
        · rintro (h | h)
          · cases h
          · exact hnew h
        · rintro e e' ws₃ ⟨E', hmeans, h'⟩
          exact ⟨E', hmeans.error e', h'⟩
    · rintro e ws₂ ⟨rfl, -⟩
      exact ⟨E, .failed e, href⟩
  · rintro e ws₁ ⟨rfl, -⟩
    exact ⟨E, .failed e, href⟩

/-- **The active environment of the core library.** -/
theorem alone_tpbRtenvResolveActiveId (href : RefinesEnvs ws E) (envId : Option Bytes) :
    Alone F (tpbRtenvResolveActiveId envId sys)
      (Refining (Resolves (Faulty F) E (E.active envId) sys)) ws := by
  have hnew : E.count = 0 → E.active envId = none := fun h => E.active_of_empty h envId
  rcases envId with - | (- | ⟨b, bs⟩)
  · exact alone_resolveBase href hnew (.inr rfl)
  · exact alone_resolveBase href hnew (.inr rfl)
  · refine (alone_tpbcliRtenvIdExists href (idOfText (b :: bs))).bind ?_ ?_
    · rintro listed ws₁ ⟨rfl, htrue, hfalse⟩
      split
      · rename_i hlisted
        have hex := htrue (by rw [hlisted])
        refine ⟨E, .of_ofId href.count_le hex (.inr ?_), href⟩
        obtain ⟨i, hi⟩ := hex
        rw [Envs.active, Envs.ofVariable, hi, Option.some_or]
      · rename_i hlisted
        refine alone_resolveBase href hnew ((hfalse (by simpa using hlisted)).imp_right ?_)
        intro hnone
        rw [Envs.active, Envs.ofVariable, hnone, Option.none_or]
    · rintro e ws₁ ⟨rfl, -⟩
      exact ⟨E, .failed e, href⟩

end Find

/-! ### The parent of a new environment -/

section Inherit

variable {envId : Option Bytes}

/-- The ID that the tool resolves. -/
theorem alone_resolveCli (href : RefinesEnvs ws E) (envId : Option Bytes) :
    Alone F (tpbcliRtenvResolveActiveIdCli envId)
      (fun r ws' => ws' = ws ∧ ∀ id, r = .ok id → E.ofId id = E.activeOfTool envId) ws := by
  have hbase : Alone F (Prog.call RtenvAct.other tpbRafConfigGetBaseId)
      (fun r ws' => ws' = ws ∧ ∀ id, r = .ok id → E.ofId id = E.current) ws := by
    refine Alone.call ⟨rfl, fun id h => ?_⟩ fun e _ => ⟨rfl, fun id h => by cases h⟩
    injection h with h
    rw [← h, ← E.ofId_base href.count_le, href.base]
    rcases E.base with - | b
    · rfl
    · rfl
  rcases envId with - | (- | ⟨b, bs⟩)
  · exact hbase
  · exact hbase
  · refine ⟨rfl, fun id h => ?_⟩
    injection h with h
    rw [← h]
    rfl

/-- The active environment of the tool has to be listed. -/
theorem alone_activeOfTool (href : RefinesEnvs ws E) (envId : Option Bytes) :
    Alone F (activeOfTool envId) (fun r ws' => ws' = ws ∧
      ∀ id, r = .ok id → ∃ i, E.activeOfTool envId = some i ∧ i < E.count ∧ idAt i = id) ws := by
  refine (alone_resolveCli href envId).handle ?_
  rintro ((⟨mod, c⟩ | -) | id) ws' ⟨rfl, hid⟩
  · exact ⟨rfl, fun id h => by cases h⟩
  · exact ⟨rfl, fun id h => by cases h⟩
  · refine (alone_tpbcliRtenvIdExists href id).bind ?_ ?_
    · rintro listed ws₁ ⟨rfl, htrue, -⟩
      split
      · rename_i hlisted
        obtain ⟨i, hi⟩ := htrue (by rw [hlisted])
        refine ⟨rfl, fun id' h => ?_⟩
        injection h with h
        rw [← h, ← hid id rfl]
        exact ⟨i, hi, (Envs.ofId_eq_some href.count_le).mp hi⟩
      · exact ⟨rfl, fun id h => by cases h⟩
    · rintro e ws₁ ⟨rfl, -⟩
      exact ⟨rfl, fun id h => by cases h⟩

/-- A name is looked up among the names of the environments. -/
theorem alone_idOfName (href : RefinesEnvs ws E) (name : Bytes) :
    Alone F (idOfName name) (fun r ws' => ws' = ws ∧
      ∀ id, r = .ok id → ∃ i, E.ofName name = some i ∧ idAt i = id) ws := by
  obtain ⟨rows, -, hlinks, hlist⟩ := href.list
  have hfind : Alone F (tpbcliRtenvFindIdByName name) (fun r ws' => ws' = ws ∧
      ∀ id, r = .ok id → ∃ i, E.ofName name = some i ∧ idAt i = id) ws := by
    refine Alone.handle (Q := fun r ws' => ws' = ws ∧ ∀ es, r = .ok es → es = rows)
      (Alone.call ?_ fun e _ => ⟨rfl, fun es h => by cases h⟩) ?_
    · rw [hlist]
      refine ⟨rfl, fun es h => ?_⟩
      injection h with h
      exact h.symm
    · rintro ((⟨mod, c⟩ | -) | es) ws' ⟨rfl, hes⟩
      · exact ⟨rfl, fun id h => by cases h⟩
      · exact ⟨rfl, fun id h => by cases h⟩
      · obtain rfl := hes es rfl
        dsimp only
        split
        · rename_i e he
          refine ⟨rfl, fun id h => ?_⟩
          injection h with h
          rw [← h]
          exact ofName_of_find hlinks he
        · exact ⟨rfl, fun id h => by cases h⟩
  refine hfind.handle ?_
  rintro ((⟨mod, c⟩ | -) | id) ws' ⟨rfl, hid⟩
  · exact ⟨rfl, fun id h => by cases h⟩
  · exact ⟨rfl, fun id h => by cases h⟩
  · exact ⟨rfl, hid⟩

/-- **The parent of a new environment** was there before, and is the one that is asked for. -/
theorem alone_sfResolveInherit (href : RefinesEnvs ws E) (spec : RtenvSettings) :
    Alone F (sfResolveInherit envId spec) (fun r ws' => ws' = ws ∧ ∀ id, r = .ok id →
      ∃ p, (∀ q ∈ p, q < E.count) ∧ id = parentId p ∧
        (Faulty F ∨ E.inherit envId spec = some p)) ws := by
  rw [sfResolveInherit]
  split
  · rename_i hinherit
    dsimp only
    generalize htext : cstr spec.inheritFromText.toList = text
    generalize hnumber : decide (text ≠ [] ∧ (strtol text).2 = []) = isNumber
    have hmeans : E.inherit envId spec = if isNumber ∧ (strtol text).1 = 0 then some none else
        ((if isNumber then E.ofId (idOfText text) else none).or (E.ofName text)).map some := by
      rw [Envs.inherit, if_pos hinherit]
      simp only [htext, hnumber]
    rw [hmeans]
    split
    · rename_i hzero
      refine ⟨rfl, fun id h => ⟨none, ?_, ?_, .inr ?_⟩⟩
      · intro q hq
        cases hq
      · injection h with h
        exact h.symm
      · rfl
    · rename_i hzero
      -- what follows the test whether the text is a listed ID
      have hrest : ∀ (found : Bool) (o : Option ℕ),
          (found = true → o = E.ofId (idOfText text) ∧ ∃ i, o = some i) →
          (found = false → Faulty F ∨ o = none) →
          Alone F (if found = true then pure (idOfText text) else idOfName text)
            (fun r ws' => ws' = ws ∧ ∀ id, r = .ok id → ∃ p, (∀ q ∈ p, q < E.count) ∧
              id = parentId p ∧ (Faulty F ∨ (o.or (E.ofName text)).map some = some p)) ws := by
        intro found o htrue hfalse
        split
        · rename_i hlisted
          obtain ⟨hid, i, rfl⟩ := htrue hlisted
          obtain ⟨hlt, hid⟩ := (Envs.ofId_eq_some href.count_le).mp hid.symm
          refine ⟨rfl, fun id h => ⟨some i, ?_, ?_, .inr rfl⟩⟩
          · rintro _ ⟨⟩
            exact hlt
          · injection h with h
            rw [← h]
            exact hid.symm
        · rename_i hlisted
          refine (alone_idOfName href text).imp ?_
          rintro r ws₂ ⟨rfl, hname⟩
          refine ⟨rfl, fun id h => ?_⟩
          obtain ⟨i, hi, hid⟩ := hname id h
          have hlt : i < E.count := (List.findIdx?_eq_some_iff_getElem.mp hi).1
          refine ⟨some i, ?_, hid.symm, (hfalse (by simpa using hlisted)).imp_right ?_⟩
          · rintro _ ⟨⟩
            exact hlt
          · rintro rfl
            rw [Option.none_or, hi]
            rfl
      split
      · refine (alone_tpbcliRtenvIdExists href (idOfText text)).bind ?_ ?_
        · rintro found ws₁ ⟨rfl, htrue, hfalse⟩
          refine hrest found _ (fun h => ⟨rfl, htrue ?_⟩) fun h => hfalse ?_
          · rw [h]
          · rw [h]
        · rintro e ws₁ ⟨rfl, -⟩
          exact ⟨rfl, fun id h => by cases h⟩
      · exact hrest false none (fun h => by cases h) fun _ => .inr rfl
  · rename_i hinherit
    refine (alone_activeOfTool href envId).imp ?_
    rintro r ws₁ ⟨rfl, hid⟩
    refine ⟨rfl, fun id h => ?_⟩
    obtain ⟨i, hi, hlt, rfl⟩ := hid id h
    refine ⟨some i, ?_, rfl, .inr ?_⟩
    · rintro _ ⟨⟩
      exact hlt
    · rw [Envs.inherit, if_neg hinherit, hi]
      rfl

/-- A template leaves the workspace as it is. -/
theorem alone_newTemplate (href : RefinesEnvs ws E) (envId : Option Bytes) (spec : RtenvSettings) :
    Alone F (newTemplate envId spec) (fun _ ws' => ws' = ws) ws := by
  refine alone_propagateP .cliRtenv ?_ fun _ _ _ h => h
  split
  · refine Alone.bind (alone_resolveCli href envId) ?_ ?_
    · rintro id ws₁ ⟨rfl, -⟩
      refine Alone.bind (Q := fun _ ws' => ws' = ws₁) (Alone.call
        (readsOnly_tpbcliRtenvMergeChain id ws₁) fun _ _ => rfl) ?_ fun _ _ h => h
      rintro merged ws₂ rfl
      split
      · exact rfl
      · split
        · exact rfl
        · exact rfl
    · rintro e ws₁ ⟨rfl, -⟩
      rfl
  · split
    · exact rfl
    · exact rfl

/-- **A new environment of the tool.** -/
theorem alone_tpbcliRtenvNew (href : RefinesEnvs ws E) (envId : Option Bytes)
    (hostname : CArr 256) (utcBits : UInt64) (argv : List Bytes) (file : Option Bytes) :
    Alone F (tpbcliRtenvNew envId hostname utcBits argv file) (Refining fun r =>
      EnvsStep (Faulty F) E (.new envId hostname utcBits argv file, r.map .new)) ws := by
  have hrefused : ∀ e : Err, Refining (fun r => EnvsStep (Faulty F) E
      (.new envId hostname utcBits argv file, r.map .new)) (.error e) ws :=
    fun e => ⟨E, .refused e, href⟩
  rw [tpbcliRtenvNew]
  split
  · exact hrefused _
  rename_i args hargs
  split
  · exact hrefused _
  split
  · refine (alone_newTemplate href envId args.settings).bind ?_ ?_
    · rintro text ws₁ rfl
      exact ⟨E, .template text, href⟩
    · rintro e ws₁ rfl
      exact hrefused e
  split
  · exact hrefused _
  rename_i spec hspec
  refine (alone_sfResolveInherit href spec).bind ?_ ?_
  · rintro id ws₁ ⟨rfl, hid⟩
    obtain ⟨p, hp, rfl, hinherit⟩ := hid id rfl
    refine (alone_sfCommitNewP href hp).bind ?_ ?_
    · rintro ⟨⟩ ws₂ ⟨E', hmeans, h'⟩
      exact ⟨E', .new hargs hspec hinherit hmeans, h'⟩
    · rintro e ws₂ ⟨E', hmeans, h'⟩
      exact ⟨E', .new hargs hspec hinherit hmeans, h'⟩
  · rintro e ws₁ ⟨rfl, -⟩
    exact hrefused e

end Inherit

/-! ### Sessions -/

/-- Each call means a step of the lineage. -/
theorem alone_prog (href : RefinesEnvs ws E) (c : RtenvCall) :
    Alone F c.prog (Refining fun r => EnvsStep (Faulty F) E (c, r)) ws := by
  cases c with
  | snapshot sys alwaysNew =>
      have hsnap : Alone F (tpbRtenvSnapshotBuildEnvP sys alwaysNew)
          (Refining (Resolves (Faulty F) E (if alwaysNew then none else E.current) sys)) ws := by
        refine alone_snapshot href ?_ ?_
        · rintro (h | h)
          · rw [if_pos h]
          · rw [E.current_of_empty h, ite_self]
        · intro h
          rw [h]
          exact .inr rfl
      refine hsnap.bind ?_ ?_
      · rintro id ws' ⟨E', hmeans, h'⟩
        exact ⟨E', .snapshot hmeans, h'⟩
      · rintro e ws' ⟨E', hmeans, h'⟩
        exact ⟨E', .snapshot hmeans, h'⟩
  | active envId sys =>
      refine (alone_tpbRtenvResolveActiveId href envId).bind ?_ ?_
      · rintro id ws' ⟨E', hmeans, h'⟩
        exact ⟨E', .active hmeans, h'⟩
      · rintro e ws' ⟨E', hmeans, h'⟩
        exact ⟨E', .active hmeans, h'⟩
  | new envId hostname utcBits argv file =>
      refine (alone_tpbcliRtenvNew href envId hostname utcBits argv file).bind ?_ ?_
      · rintro done ws' ⟨E', hmeans, h'⟩
        exact ⟨E', hmeans, h'⟩
      · rintro e ws' ⟨E', hmeans, h'⟩
        exact ⟨E', hmeans, h'⟩
  | counters id m n =>
      refine (alone_counters href id m n).bind ?_ ?_
      · exact fun _ ws' h' => ⟨E, .counters _, h'⟩
      · exact fun e ws' h' => ⟨E, .counters _, h'⟩

end Programs

/-- A call from a workspace, in which actions may fail with errors in `F`. -/
def CallStep (F : Err → Prop) (ws : Workspace) (done : RtenvCall × Except Err RtenvDone)
    (ws' : Workspace) : Prop :=
  ∃ fault : ℕ → Option Err, (∀ n, ∀ e ∈ fault n, F e) ∧
    outcome ((done.1.prog.failing fault).exec ws) = done.2 ∧
    after ((done.1.prog.failing fault).exec ws) = ws'

/-- A call means a step of the lineage, with the result that it returned. -/
theorem callStep_means {F : Err → Prop} (ws : Workspace) (E : Envs)
    (done : RtenvCall × Except Err RtenvDone) (ws' : Workspace) (href : RefinesEnvs ws E)
    (hcall : CallStep F ws done ws') :
    ∃ E', EnvsStep (Faulty F) E done E' ∧ RefinesEnvs ws' E' := by
  obtain ⟨c, r⟩ := done
  obtain ⟨fault, hfault, hr, hws⟩ := hcall
  have hmeans := (alone_prog href c).exec hfault
  rwa [hr, hws] at hmeans

/-- **Sessions refine the lineage.** Along every sequence of calls, in which any actions may
fail, the workspace goes on to refine a lineage, and every call means a step of the lineage, with
the result that it returned. -/
theorem rtenv_session {F : Err → Prop} {ws₀ ws : Workspace} {E₀ : Envs}
    {calls : List (RtenvCall × Except Err RtenvDone)} (hinit : RefinesEnvs ws₀ E₀)
    (hrun : Run (CallStep F) ws₀ calls ws) :
    ∃ E, Run (EnvsStep (Faulty F)) E₀ calls E ∧ RefinesEnvs ws E :=
  hrun.simulates hinit callStep_means

theorem refinesEnvs_workspaceEmpty : RefinesEnvs Workspace.empty .empty :=
  refinesEnvs_empty holds_empty rfl fun id bytes h => by cases h

/-- A call in which nothing fails. -/
theorem callStep_exec (F : Err → Prop) (c : RtenvCall) (ws : Workspace) :
    CallStep F ws (c, outcome (c.prog.exec ws)) (after (c.prog.exec ws)) := by
  refine ⟨fun _ => none, fun n e he => (by cases he), ?_, ?_⟩
  · rw [Prog.failing_of_none fun _ => rfl]
  · rw [Prog.failing_of_none fun _ => rfl]

/-- A call that succeeds. -/
theorem callStep_ok {F : Err → Prop} {c : RtenvCall} {r : RtenvDone} {ws ws' : Workspace}
    (h : c.prog.exec ws = .ok r ws') : CallStep F ws (c, .ok r) ws' := by
  have hstep := callStep_exec F c ws
  rw [h] at hstep
  exact hstep

/-- A snapshot that succeeds. -/
theorem callStep_snapshot {F : Err → Prop} {sys : SysEnv} {alwaysNew : Bool} {id : Int32}
    {ws ws' : Workspace} (h : tpbRtenvSnapshotBuildEnv sys alwaysNew ws = .ok id ws') :
    CallStep F ws (.snapshot sys alwaysNew, .ok (.env id)) ws' := by
  refine callStep_ok ?_
  rw [RtenvCall.prog, Prog.exec_bind, exec_tpbRtenvSnapshotBuildEnvP]
  exact bind_then h rfl

/-! ### A session with a child -/

/-- `rtenv new -n c -evo -k B -v d` -/
def childArgv : List Bytes :=
  [[], [], [], ascii "-n".toList, [99]] ++ varArgs ([66], [100])

/-- The variable of the child. -/
def childVar : EnvVar := (overwrittenVar ([66], [100])).envVar

/-- What the command line asks for. -/
def childSettings : RtenvSettings where
  apps := []
  vars := [overwrittenVar ([66], [100])]
  napp_le := napp_le_nil
  nenv_le := by decide
  envName := snprintfS 256 [99]
  note := zeroArr 256
  inheritFrom := -1
  hasInherit := false
  inheritFromText := zeroArr 256

/-- A snapshot, a child of it, and a task that is counted for the child. -/
def childCalls : List (RtenvCall × Except Err RtenvDone) :=
  [(.snapshot oneVarSys true, .ok (.env 1)),
    (.new none (zeroArr 256) 0 childArgv none, .ok (.new .created)),
    (.counters 2 1 0, .ok .counted)]

/-- The lineage with both, where the snapshot has some name. -/
structure IsChildLineage (E : Envs) : Prop where
  nodes : ∃ name, E.tree.nodes = [(none, ⟨name, some ⟨[], [rootVar]⟩⟩),
    (some 0, ⟨[99], some ⟨[], [childVar]⟩⟩)]
  base : E.base = some 0

section Child

variable {faulty : Prop} {E E' : Envs}

theorem childArgv_parsed : sfParseNewArgv childArgv = .ok ⟨childSettings, none, none, false⟩ := by
  have hend : sfParseNewArgs [] ⟨childSettings, none, none, false⟩ =
      .ok ⟨childSettings, none, none, false⟩ := by rw [sfParseNewArgs]
  exact (sfParseNewArgs_plain rfl).trans (sfParseNewArgs_block rfl rfl rfl
    (@parseBlock_varArgs ([66], [100]) [] _) rfl hend)

/-- What a snapshot that is always new means. -/
theorem EnvsStep.snapshot_new (hf : ¬faulty) {sys : SysEnv} {id : Int32}
    (h : EnvsStep faulty E (.snapshot sys true, .ok (.env id)) E') : ∃ name,
      E'.tree.nodes = E.tree.nodes ++ [(none, ⟨name, some ⟨[], sys.environ.filterMap splitVar⟩⟩)] ∧
      E'.base = some E.count := by
  generalize hdone : (RtenvCall.snapshot sys true, (.ok (.env id) : Except Err RtenvDone)) = done
    at h
  cases h with
  | @snapshot sys' alwaysNew r E' hmeans =>
      obtain ⟨hcall, hr⟩ := Prod.mk.inj hdone
      cases hcall
      cases hmeans with
      | found _ hfound =>
          rcases hfound with hfault | hnone
          · exact absurd hfault hf
          · cases hnone
      | @snapshot name => exact ⟨name, rfl, rfl⟩
      | failed => cases hr
      | failedNew => cases hr
  | active => cases hdone
  | template => cases hdone
  | refused => cases hdone
  | new => cases hdone
  | counters => cases hdone

/-- What the creation of an environment by the tool means. -/
theorem EnvsStep.new_created (hf : ¬faulty) {envId : Option Bytes} {hostname : CArr 256}
    {utcBits : UInt64} {argv : List Bytes} {file : Option Bytes} {args : NewArgs}
    {spec : RtenvSettings} {p : Option ℕ} (hargs : sfParseNewArgv argv = .ok args)
    (hspec : newSettings args file = .ok spec) (hinherit : E.inherit envId spec = some p)
    (h : EnvsStep faulty E (.new envId hostname utcBits argv file, .ok (.new .created)) E') :
    E'.tree.nodes = E.tree.nodes ++ [(p, ⟨spec.storedName, some spec.declared⟩)] ∧
      E'.base = E.base := by
  generalize hdone : (RtenvCall.new envId hostname utcBits argv file,
    (.ok (.new .created) : Except Err RtenvDone)) = done at h
  cases h with
  | snapshot => cases hdone
  | active => cases hdone
  | template => cases hdone
  | refused => cases hdone
  | new hargs' hspec' hinherit' hmeans =>
      obtain ⟨hcall, hr⟩ := Prod.mk.inj hdone
      cases hcall
      cases hargs.symm.trans hargs'
      cases hspec.symm.trans hspec'
      have hp := hinherit'.resolve_left hf
      cases hinherit.symm.trans hp
      cases hmeans with
      | created => exact ⟨rfl, rfl⟩
      | failed => cases hr
      | failedNew => cases hr
  | counters => cases hdone

theorem EnvsStep.counters_same {id : Int32} {m n : UInt32} {r : Except Err RtenvDone}
    (h : EnvsStep faulty E (.counters id m n, r) E') : E' = E := by
  generalize hdone : (RtenvCall.counters id m n, r) = done at h
  cases h with
  | snapshot => cases hdone
  | active => cases hdone
  | template => cases hdone
  | refused => cases hdone
  | new => cases hdone
  | counters => rfl

theorem inherit_childSettings (h : E.base = some 0) :
    E.inherit none childSettings = some (some 0) := by
  have hcurrent : E.current = some 0 := by rw [Envs.current, h, Option.some_or]
  change E.current.map some = _
  rw [hcurrent]
  rfl

/-- What both declare fits into the arrays. -/
theorem fits_rootVar : Settings.Fits ⟨[], [rootVar]⟩ :=
  List.forall_mem_singleton.mpr ⟨by decide, by decide⟩

theorem fits_childVar : Settings.Fits ⟨[], [childVar]⟩ :=
  List.forall_mem_singleton.mpr ⟨by decide, by decide⟩

/-- The snapshot succeeds. -/
theorem exists_run_root : ∃ ws E, CallStep (fun _ => False) Workspace.empty
      (.snapshot oneVarSys true, .ok (.env 1)) ws ∧ RefinesEnvs ws E ∧
    E.tree.nodes = [(none, ⟨baseName, some ⟨[], [rootVar]⟩⟩)] ∧ E.base = some 0 ∧
    ChildFits ws (some 0) 2 := by
  obtain ⟨ws, r, hsnap, hrows, hfile, hid, hroom⟩ := exists_oneVar_snapshot
  obtain ⟨E, hstep, href⟩ := callStep_means _ _ _ _ refinesEnvs_workspaceEmpty
    (callStep_snapshot hsnap)
  obtain ⟨name, hnodes, hbase⟩ := hstep.snapshot_new fun ⟨_, h⟩ => h
  obtain ⟨rows, hrows', hlinks⟩ := href.rows
  obtain rfl := hrows.unique hrows'
  have hname : name = baseName := by
    rw [Envs.links, hnodes] at hlinks
    exact (congrArg (fun l => l.2.2) (List.head_eq_of_cons_eq hlinks)).symm
  subst hname
  refine ⟨ws, E, callStep_snapshot hsnap, href, hnodes, hbase, ?_⟩
  rintro _ ⟨⟩
  exact ⟨r, hfile, hid, hroom⟩

/-- The session succeeds, and leads to the lineage. -/
theorem exists_run_child : ∃ ws E, Run (CallStep fun _ => False) Workspace.empty childCalls ws ∧
    RefinesEnvs ws E ∧ IsChildLineage E := by
  have hf : ¬Faulty fun _ : Err => False := fun ⟨_, h⟩ => h
  obtain ⟨ws₁, E₁, hcall₁, href₁, hnodes₁, hbase₁, hchild⟩ := exists_run_root
  have hcount₁ : E₁.count = 1 := by rw [Envs.count, hnodes₁]; rfl
  have hinherit := inherit_childSettings hbase₁
  obtain ⟨ws₂, hnew⟩ := @RefinesEnvs.exec_tpbcliRtenvNew ws₁ E₁ (zeroArr 256) 0 (some 0) href₁
    (by rw [hcount₁]; decide) none childArgv none _ _ childArgv_parsed rfl rfl rfl hinherit
    (by rintro _ ⟨⟩; rw [hcount₁]; exact Nat.one_pos) (by decide)
    (by rw [Envs.names, hnodes₁]; decide) (by decide) (by rw [hcount₁]; exact hchild)
  have hcall₂ : CallStep (fun _ => False) ws₁
      (.new none (zeroArr 256) 0 childArgv none, .ok (.new .created)) ws₂ :=
    callStep_ok (by rw [RtenvCall.prog, Prog.exec_bind]; exact bind_then hnew rfl)
  obtain ⟨E₂, hstep₂, href₂⟩ := callStep_means _ _ _ _ href₁ hcall₂
  obtain ⟨hnodes₂, hbase₂⟩ := hstep₂.new_created hf childArgv_parsed rfl hinherit
  rw [hnodes₁] at hnodes₂
  have hcount₂ : 1 < E₂.count := by rw [Envs.count, hnodes₂]; decide
  obtain ⟨r, hfile, -⟩ := href₂.stored 1 (some 0) ⟨[99], some ⟨[], [childVar]⟩⟩ _
    (by rw [hnodes₂]; rfl) rfl fits_childVar
  obtain ⟨ws₃, hcounters⟩ := href₂.exec_counters hcount₂ hfile 1 0
  have hcall₃ : CallStep (fun _ => False) ws₂ (.counters 2 1 0, .ok .counted) ws₃ :=
    callStep_ok (by rw [RtenvCall.prog, Prog.exec_bind]; exact bind_then hcounters rfl)
  obtain ⟨E₃, hstep₃, href₃⟩ := callStep_means _ _ _ _ href₂ hcall₃
  obtain rfl := hstep₃.counters_same
  exact ⟨ws₃, E₃, ((Run.nil.snoc hcall₁).snoc hcall₂).snoc hcall₃, href₃,
    ⟨⟨_, hnodes₂⟩, hbase₂.trans hbase₁⟩⟩

/-- What the session means is the lineage. -/
theorem run_child (h : Run (EnvsStep (Faulty fun _ => False)) .empty childCalls E) :
    IsChildLineage E := by
  have hf : ¬Faulty fun _ : Err => False := fun ⟨_, h⟩ => h
  obtain ⟨E₂, hrun₂, hstep₃⟩ := Run.snoc_inv (t := [_, _]) h
  obtain ⟨E₁, hrun₁, hstep₂⟩ := Run.snoc_inv (t := [_]) hrun₂
  obtain ⟨E₀, hrun₀, hstep₁⟩ := Run.snoc_inv (t := []) hrun₁
  obtain rfl := hrun₀.nil_inv
  obtain ⟨name, hnodes₁, hbase₁⟩ := hstep₁.snapshot_new hf
  obtain ⟨hnodes₂, hbase₂⟩ :=
    hstep₂.new_created hf childArgv_parsed rfl (inherit_childSettings hbase₁)
  obtain rfl := hstep₃.counters_same
  exact ⟨⟨name, by rw [hnodes₂, hnodes₁]; rfl⟩, hbase₂.trans hbase₁⟩

end Child

/-- A snapshot with a variable, a child that declares another one, and a task of the child. -/
theorem rtenv_session_child : ∃ ws E, Run (CallStep fun _ => False) Workspace.empty childCalls ws ∧
    Run (EnvsStep (Faulty fun _ => False)) .empty childCalls E ∧ RefinesEnvs ws E ∧
    IsChildLineage E := by
  obtain ⟨ws, -, hrun, -⟩ := exists_run_child
  obtain ⟨E, hmeans, href⟩ := rtenv_session refinesEnvs_workspaceEmpty hrun
  exact ⟨ws, E, hrun, hmeans, href, run_child hmeans⟩

end TPBench
