import TPBench.CFile.Scan
import TPBench.Rtenv.Chain
import TPBench.Rtenv.Load
import TPBench.Rtenv.NewArgv
import TPBench.Rtenv.Steps

/-!
# The Active Environment

One environment of the table is the active one: tasks are counted for it, `rtenv load` and
`rtenv show` fall back to it, and `rtenv new` makes its children. It is named by the variable
`TPB_RTENV_ID` of the process, and else by the base ID of the workspace, which is that of the
latest snapshot. The code for this exists three times:

* `tpbRtenvResolveActiveId`, for the core library: an ID that is not listed is passed over, and
  an empty table gets a snapshot;
* `tpbcliRtenvResolveActiveIdCli`, for the command line tool: the ID is not looked up, and its
  callers fail when it is not listed;
* `tpbcliRtenvResolveListActive`, for the listing: no ID is shown when it is not listed.

The functions are programs of the actions of `TPBench.Rtenv.Steps`. `envId` is what `getenv`
finds for the variable.
-/

open CFile Conc

namespace TPBench

/-! ### Lookups -/

/-- An ID that is read with `strtol`. -/
def idOfText (text : Bytes) : Int32 := Int32.ofInt (strtol text).1

/-- `tpbcli_rtenv_id_exists`. -/
def tpbcliRtenvIdExists (id : Int32) : RtenvP Bool := rowExistsP fun e => e.id == id

/-- `tpbcli_rtenv_find_id_by_name`. -/
def tpbcliRtenvFindIdByName (name : Bytes) : RtenvP Int32 :=
  (Prog.call .list tpbRafEntryListRtenv).handle fun r => match r with
    | .ok entries =>
        match entries.find? fun e => cstr e.name.toList = name with
        | some e => .ret (.ok e.id)
        | none => Prog.fail (.code .none .listNotFound)
    | .error (.code _ _) => Prog.fail (.code .none .fileIoFail)
    | .error .undefined => Prog.fail .undefined

/-! ### The core library -/

/-- `tpb_rtenv_ensure_base_env`. -/
def tpbRtenvEnsureBaseEnv (sys : SysEnv) : RtenvP Int32 := tpbRtenvSnapshotBuildEnvP sys false

/-- The part of `tpb_rtenv_resolve_active_id` behind the variable. -/
def resolveBase (sys : SysEnv) : RtenvP Int32 := do
  let baseId ← Prog.call .other (propagate .misc tpbRafConfigGetBaseId)
  let found ← tpbcliRtenvIdExists baseId
  if found = true then return baseId else propagateP .misc (tpbRtenvEnsureBaseEnv sys)

/-- `tpb_rtenv_resolve_active_id`. -/
def tpbRtenvResolveActiveId (envId : Option Bytes) (sys : SysEnv) : RtenvP Int32 :=
  match envId with
  | some (b :: bs) => do
      let parsed := idOfText (b :: bs)
      let found ← tpbcliRtenvIdExists parsed
      if found = true then return parsed else resolveBase sys
  | _ => resolveBase sys

/-! ### The command line tool -/

/-- `tpbcli_rtenv_resolve_active_id_cli`. -/
def tpbcliRtenvResolveActiveIdCli (envId : Option Bytes) : RtenvP Int32 :=
  match envId with
  | some (b :: bs) => return idOfText (b :: bs)
  | _ => Prog.call .other tpbRafConfigGetBaseId

/-- `tpbcli_rtenv_resolve_list_active`: the ID, if one is found. -/
def tpbcliRtenvResolveListActive (envId : Option Bytes) : RtenvP (Option Int32) :=
  match envId with
  | some (b :: bs) => do
      let found ← tpbcliRtenvIdExists (idOfText (b :: bs))
      return if found = true then some (idOfText (b :: bs)) else none
  | _ =>
      (Prog.call .other tpbRafConfigGetBaseId).handle fun r => do
        let base := match r with
          | .ok base => base
          | .error _ => 1
        let found ← tpbcliRtenvIdExists base
        return if found = true then some base else none

/-- The active environment of the tool, which has to be listed; the errors of both parts are
the same. -/
def activeOfTool (envId : Option Bytes) : RtenvP Int32 :=
  (tpbcliRtenvResolveActiveIdCli envId).handle fun r => match r with
    | .ok id => do
        let found ← tpbcliRtenvIdExists id
        if found = true then return id else Prog.fail (.code .cliRtenv .cliFail)
    | .error (.code _ _) => Prog.fail (.code .cliRtenv .cliFail)
    | .error .undefined => Prog.fail .undefined

/-- The lookup of a name that has to be there. -/
def idOfName (name : Bytes) : RtenvP Int32 :=
  (tpbcliRtenvFindIdByName name).handle fun r => match r with
    | .ok id => .ret (.ok id)
    | .error (.code _ _) => Prog.fail (.code .cliRtenv .listNotFound)
    | .error .undefined => Prog.fail .undefined

/-- `_sf_resolve_inherit`: the parent of a new environment. A text is a number if `strtol` reads
all of it. -/
def sfResolveInherit (envId : Option Bytes) (spec : RtenvSettings) : RtenvP Int32 :=
  if spec.hasInherit then do
    let text := cstr spec.inheritFromText.toList
    let isNumber : Bool := text ≠ [] ∧ (strtol text).2 = []
    if isNumber ∧ (strtol text).1 = 0 then return 0
    else
      let found ← if isNumber then tpbcliRtenvIdExists (idOfText text) else pure false
      if found = true then return idOfText text else idOfName text
  else activeOfTool envId

/-! ### New environments -/

/-- What `tpbcli_rtenv_new` leaves: the text of a template, or an environment. -/
inductive NewDone
  | template (text : Bytes)
  | created

/-- `tpbcli_rtenv_merged_to_spec`, into zeroed settings. -/
def tpbcliRtenvMergedToSpec (m : Merged) : Option RtenvSettings := do
  let s ← m.apps.foldlM (fun s a => s.addApp (.of a.name a.version a.note)) RtenvSettings.zero
  m.vars.foldlM (fun s x => s.addVar (.of x.key x.value x.onSet x.onGet)) s

/-- `tpbcli_rtenv_write_active_template`. -/
def tpbcliRtenvWriteActiveTemplate (envId : Option Bytes) : RtenvP Bytes := do
  let id ← tpbcliRtenvResolveActiveIdCli envId
  let merged ← Prog.call .other (tpbcliRtenvMergeChain id)
  match tpbcliRtenvMergedToSpec merged with
  | none => Prog.fail .undefined
  | some spec =>
      match tpbcliRtenvWriteTemplate { spec with
        inheritFromText := snprintfS 256 (formatInt id.toInt), hasInherit := true } with
      | none => Prog.fail (.code .none .cliFail)
      | some text => return text

/-- `-o`: the text of the template. -/
def newTemplate (envId : Option Bytes) (spec : RtenvSettings) : RtenvP Bytes :=
  propagateP .cliRtenv (if spec.apps = [] ∧ spec.vars = [] ∧ cstr spec.envName.toList = [] then
      tpbcliRtenvWriteActiveTemplate envId
    else
      match tpbcliRtenvWriteTemplate spec with
      | none => Prog.fail (.code .none .cliFail)
      | some text => return text)

/-- The settings of a new environment: those of the command line, or of the input file on top
of them, whose text is `file`. -/
def newSettings (args : NewArgs) (file : Option Bytes) : Except Err RtenvSettings :=
  match args.inFile with
  | some _ =>
      match tpbcliRtenvParseTemplateFile file args.settings with
      | .ok s => .ok s
      | .error .fileIoFail => .error (.code .cliRtenv .fileIoFail)
      | .error (.line _) => .error (.code .cliRtenv .cliFail)
  | none =>
      if args.settings.apps = [] ∧ args.settings.vars = [] then .error (.code .cliRtenv .cliFail)
      else .ok args.settings

/-- `tpbcli_rtenv_new`, for the arguments `argv`. -/
def tpbcliRtenvNew (envId : Option Bytes) (hostname : CArr 256) (utcBits : UInt64)
    (argv : List Bytes) (file : Option Bytes) : RtenvP NewDone :=
  match sfParseNewArgv argv with
  | .error e => Prog.fail e
  | .ok args =>
      if args.outFile.isSome ∧ args.inFile.isSome then Prog.fail (.code .cliRtenv .cliFail)
      else if args.outputOnly then do
        let text ← newTemplate envId args.settings
        return .template text
      else
        match newSettings args file with
        | .error e => Prog.fail e
        | .ok spec => do
            let inheritFrom ← sfResolveInherit envId spec
            sfCommitNewP hostname utcBits (cstr spec.envName.toList) (cstr spec.note.toList)
              inheritFrom spec.toRtenvSpec
            return .created

/-! ### Selecting and loading -/

/-- The loop of `_sf_parse_selector`: the ID of the last option, if there is one. -/
def selectorLoop : List Bytes → Option Int32 → RtenvP (Option Int32)
  | [], selected => return selected
  | [arg], selected =>
      if arg = ascii "-i".toList ∨ arg = ascii "--id".toList ∨ arg = ascii "--name".toList then
        Prog.fail (.code .cliRtenv .cliFail)
      else return selected
  | arg :: v :: rest, selected =>
      if arg = ascii "-i".toList ∨ arg = ascii "--id".toList then
        selectorLoop rest (some (idOfText v))
      else if arg = ascii "--name".toList then do
        let id ← idOfName v
        selectorLoop rest (some id)
      else selectorLoop (v :: rest) selected

/-- `_sf_parse_selector` of `rtenv load`: the ID and the name of an environment. The name stays
empty when the table cannot be listed again. -/
def sfParseSelector (envId : Option Bytes) (argv : List Bytes) : RtenvP (Int32 × Bytes) := do
  let selected ← selectorLoop (argv.drop 3) none
  let id ← match selected with
    | some id => do
        let found ← tpbcliRtenvIdExists id
        if found = true then pure id else Prog.fail (.code .cliRtenv .listNotFound)
    | none => activeOfTool envId
  (Prog.call .list tpbRafEntryListRtenv).handle fun r => match r with
    | .ok entries => return (id, ((entries.find? (·.id = id)).map fun e =>
        cstr (snprintfS 256 (cstr e.name.toList)).toList).getD [])
    | .error (.code _ _) => return (id, [])
    | .error .undefined => Prog.fail .undefined

/-- `tpbcli_rtenv_load`: what is on its output, with the result. The lines `log` with which a
failure is logged go to the same output, behind what was printed until then. -/
def tpbcliRtenvLoadCommand (envId : Option Bytes) (argv : List Bytes) (log : Bytes)
    (ws : Workspace) : EStateM.Result Err Bytes Unit :=
  match (sfParseSelector envId argv).exec ws with
  | .error e _ => .error e log
  | .ok (id, envName) ws' =>
      match propagate .cliRtenv (tpbcliRtenvMergeChain id) ws' with
      | .error e _ => .error e log
      | .ok merged _ => logged log (tpbcliRtenvLoad id envName merged [])

end TPBench
