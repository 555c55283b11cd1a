import TPBench.Cli.Dim

/-!
# The Subcommand `run`

`tpbcli run` (`tpbcli-run.c`) builds the list of handles the driver runs from its command
line. The options in front of the first `--kernel` give the global wrapper chain; each
`--kernel` starts a segment, whose options set arguments and environment variables of the
newest handle, sweep over their values, or add wrappers of the segment. What a segment
collects is kept in global variables of the program (`RunState`) until it can be used:

* the values of `--kargs` and `--kenvs` are set at once;
* a `--kenvs-dim` adds its handles at once;
* the `--kargs-dim` of a segment are kept back, and are expanded by `sfFlushPendingDims` in
  front of the next `--kernel` or at the end;
* the wrapper chain is kept back, and is bound to one handle by
  `sfBindWrappersToHandle`: in front of the flush when another `--kernel` follows, behind it
  at the end.

A run of the command ends here where it calls `tpb_driver_run_all`. An array that is written
beyond its end, an overflow of an `int` and a conversion of a `double` that is out of range
are undefined.
-/

open CFile

namespace TPBench

/-! ### The state -/

/-- `MAX_DIM_CONFIGS`. -/
def maxDimConfigs : ℕ := 16

/-- `MAX_WRAPPER_LINKS`. -/
def maxWrapperLinks : ℕ := 32

/-- `local_wrapper_t`. -/
structure LocalWrapper where
  app : Bytes
  args : Bytes
  deriving DecidableEq, Repr

/-- The driver with the settings of the run, and the static variables of the subcommand. -/
structure RunState where
  drv : Driver
  timer : Bytes
  outargs : ℤ × ℤ
  dryRun : Bool
  pendingDimCfgs : List DimConfig
  pendingKernelName : Bytes
  globalWrappers : List LocalWrapper
  globalHasOpenWrapper : Bool
  segmentWrappers : List LocalWrapper
  segmentHasOpenWrapper : Bool
  seenFirstKernel : Bool
  pendingOverrideGlobal : Bool

/-- The state in which a process starts, before the driver has a handle. -/
def RunState.start : RunState :=
  ⟨Driver.empty, [], (0, 0), false, [], [], [], false, [], false, false, false⟩

/-- Programs over the state of the subcommand. -/
abbrev RunM := EStateM Err RunState

/-- What the handlers read and do not change: the arithmetic of the machine, whether it is
an x86-64, and the kernels that are registered. -/
structure RunCtx where
  floats : Doubles
  isX86 : Bool
  reg : Registry

/-- A call of the driver. -/
def onDriver {α : Type} (m : DriverM α) : RunM α := fun s =>
  match m s.drv with
  | .ok a d => .ok a { s with drv := d }
  | .error e d => .error e { s with drv := d }

/-- A call to which the language gives no meaning. -/
def runUndefined {α : Type} : RunM α := fun s => .error .undefined s

/-- The result of a function that does not work on the state. -/
def liftRun {α : Type} (r : Except Err α) : RunM α := fun s =>
  match r with
  | .ok a => .ok a s
  | .error e => .error e s

/-- A call whose error is only logged. -/
def warnOnly (m : DriverM Unit) : DriverM Unit := fun d =>
  match m d with
  | .error (.code _ _) d' => .ok () d'
  | r => r

/-! ### Wrappers -/

/-- `_sf_unquote_argstr`: one pair of equal quotes around a text is removed. -/
def sfUnquoteArgstr (arg : Bytes) : Bytes :=
  match arg with
  | q :: rest =>
      if (q = 39 ∨ q = 34) ∧ 2 ≤ arg.length ∧ rest.getLast? = some q then rest.dropLast else arg
  | [] => []

/-- The link the bind makes of a wrapper: empty arguments are no arguments. -/
def linkOfLocal (w : LocalWrapper) : WrapperLink :=
  ⟨printedIn nameStrMaxLen w.app, if w.args = [] then none else some w.args⟩

/-- The chain that is bound: the global wrappers, unless they are overridden, and those of
the segment. -/
def RunState.boundLinks (s : RunState) : List WrapperLink :=
  ((if s.pendingOverrideGlobal then [] else s.globalWrappers) ++ s.segmentWrappers).map
    linkOfLocal

/-- `_sf_bind_wrappers_to_handle`. -/
def sfBindWrappersToHandle (hdlIdx : ℕ) : RunM Unit := do
  let s ← get
  if maxWrapperLinks < s.boundLinks.length then runUndefined
  else do
    propagateAt .cliRun (onDriver (tpbDriverSetHdlWrappersIdx hdlIdx s.boundLinks))
    modify fun s =>
      { s with segmentWrappers := [], segmentHasOpenWrapper := false,
               pendingOverrideGlobal := false }

/-- The bind to the newest handle, when there is one. -/
def bindNewest : RunM Unit := do
  let nhdl ← onDriver tpbGetNhdl
  if 0 < nhdl then propagateAt .cliRun (sfBindWrappersToHandle (nhdl - 1)) else pure ()

/-- `_sf_parse_wrapper`. -/
def sfParseWrapper (value : Bytes) : RunM Unit := fun s =>
  let chain := if s.seenFirstKernel then s.segmentWrappers else s.globalWrappers
  if value = [] then .error (.code .cliRun .cliFail) s
  else if maxWrapperLinks ≤ chain.length then .error (.code .cliRun .cliFail) s
  else
    let chain' := chain ++ [⟨printedIn nameStrMaxLen value, []⟩]
    if s.seenFirstKernel then
      .ok () { s with segmentWrappers := chain', segmentHasOpenWrapper := true }
    else .ok () { s with globalWrappers := chain', globalHasOpenWrapper := true }

/-- One more piece of arguments behind the arguments of a wrapper. -/
def LocalWrapper.addArgs (w : LocalWrapper) (content : Bytes) : LocalWrapper :=
  { w with args :=
      if w.args = [] then printedIn cliStrMaxLen content
      else w.args ++ printedIn (cliStrMaxLen - w.args.length) (32 :: content) }

/-- The arguments go to the last wrapper of a chain. -/
def addArgsToLast (content : Bytes) : List LocalWrapper → List LocalWrapper
  | [] => []
  | [w] => [w.addArgs content]
  | w :: ws => w :: addArgsToLast content ws

/-- `_sf_parse_wrapper_args`. -/
def sfParseWrapperArgs (value : Bytes) : RunM Unit := fun s =>
  let chain := if s.seenFirstKernel then s.segmentWrappers else s.globalWrappers
  let hasOpen := if s.seenFirstKernel then s.segmentHasOpenWrapper else s.globalHasOpenWrapper
  if chain = [] ∨ ¬hasOpen then .error (.code .cliRun .cliFail) s
  else
    let chain' := addArgsToLast (sfUnquoteArgstr value) chain
    if s.seenFirstKernel then .ok () { s with segmentWrappers := chain' }
    else .ok () { s with globalWrappers := chain' }

/-- `_sf_parse_override_global`. -/
def sfParseOverrideGlobal : RunM Unit := modify fun s => { s with pendingOverrideGlobal := true }

/-! ### Arguments and environment variables -/

/-- A text without the blanks at its end. -/
def dropBlanksEnd (s : Bytes) : Bytes := (s.reverse.dropWhile isBlank).reverse

/-- The assignment in a token of `--kenvs`. -/
def kenvPair (token : Bytes) : Except Err (Bytes × Bytes) :=
  match strchr 61 (token.dropWhile isBlank) with
  | none => .error (.code .cliRun .cliFail)
  | some (key, value) =>
      if dropBlanksEnd key = [] then .error (.code .cliRun .cliFail)
      else .ok (dropBlanksEnd key, value.dropWhile isBlank)

/-- The tokens between the commas of an option value, which is copied to a buffer first. -/
def commaTokens (s : Bytes) : List Bytes := segments 44 (printedIn cliStrMaxLen s)

/-- The loop of `parse_kenvs_tokstr`. -/
def setKenvs : List Bytes → RunM Unit
  | [] => pure ()
  | token :: tokens => do
      let p ← liftRun (kenvPair token)
      propagateAt .cliRun (onDriver (tpbDriverSetHdlEnv p.1 p.2))
      setKenvs tokens

/-- `parse_kenvs_tokstr`. -/
def parseKenvsTokstr (tokstr : Bytes) : RunM Unit := setKenvs (commaTokens tokstr)

/-- `_sf_trim_whitespace`. -/
def sfTrimWhitespace (s : Bytes) : Bytes := trimWhitespaceDim s

/-- The assignment in a token of `--kargs`. -/
def kargPair (token : Bytes) : Except Err (Bytes × Bytes) :=
  if sfTrimWhitespace token = [] then .error (.code .argp .cliFail)
  else
    match strchr 61 (sfTrimWhitespace token) with
    | none => .error (.code .argp .kernArgFail)
    | some (key, value) =>
        if sfTrimWhitespace key = [] ∨ sfTrimWhitespace value = [] then
          .error (.code .argp .kernArgFail)
        else .ok (sfTrimWhitespace key, sfTrimWhitespace value)

/-- The loop of `tpb_argp_set_kargs_tokstr`. -/
def setKargs (F : Doubles) : List Bytes → RunM Unit
  | [] => pure ()
  | token :: tokens => do
      let p ← liftRun (kargPair token)
      propagateAt .argp (onDriver (tpbDriverSetHdlKarg F p.1 p.2))
      setKargs F tokens

/-- `tpb_argp_set_kargs_tokstr`. -/
def tpbArgpSetKargsTokstr (F : Doubles) (tokstr : Bytes) : RunM Unit :=
  setKargs F (commaTokens tokstr)

/-! ### Dimensions -/

/-- `apply_dim_value`. -/
def applyDimValue (F : Doubles) (v : DimValues) (index : ℕ) : DriverM Unit := fun d =>
  match v.text F index with
  | .error e => .error e d
  | .ok t => tpbDriverSetHdlKarg F v.parmName t d

/-- `apply_env_dim_value`. -/
def applyEnvDimValue (F : Doubles) (v : DimValues) (index : ℕ) : DriverM Unit := fun d =>
  match v.text F index with
  | .error e => .error e d
  | .ok t => tpbDriverSetHdlEnv v.parmName t d

/-- One more handle of a kernel, with what the handle of an index holds. -/
def anotherHandle (reg : Registry) (kernelName : Bytes) (orig : Option ℕ) : DriverM Unit := do
  tpbDriverAddHandle reg kernelName
  tpbDriverCopyHdlFrom orig

/-- The handle for one value: the first value goes to the handle that is there. -/
def handleForValue (reg : Registry) (kernelName : Bytes) (orig : Option ℕ) (i : ℕ) :
    DriverM Unit :=
  if i = 0 then pure () else anotherHandle reg kernelName orig

/-- The loop of `expand_dim_handles` and of `expand_env_dim_handles` over the indices of the
values: the first error ends it. -/
def expandOver (reg : Registry) (kernelName : Bytes) (orig : Option ℕ)
    (apply : ℕ → DriverM Unit) : List ℕ → DriverM Unit
  | [] => pure ()
  | i :: is => do
      handleForValue reg kernelName orig i
      apply i
      expandOver reg kernelName orig apply is

/-- `expand_dim_handles`. -/
def expandDimHandles (ctx : RunCtx) (cfg : DimConfig) (kernelName : Bytes) : DriverM Unit := do
  let vals := tpbDimGenerateValues ctx.floats cfg
  let orig ← tpbDriverGetCurrentHdlIdx
  propagateAt .cliRun
    (expandOver ctx.reg kernelName orig (applyDimValue ctx.floats vals) (List.range vals.n))

/-- `expand_env_dim_handles`. -/
def expandEnvDimHandles (ctx : RunCtx) (cfg : DimConfig) (kernelName : Bytes) :
    DriverM Unit := do
  let vals := tpbDimGenerateValues ctx.floats cfg
  let orig ← tpbDriverGetCurrentHdlIdx
  propagateAt .cliRun
    (expandOver ctx.reg kernelName orig (applyEnvDimValue ctx.floats vals) (List.range vals.n))

/-- A product in an `int`, from a first factor on. -/
def intProduct : ℕ → List ℕ → Option ℕ
  | total, [] => some total
  | total, n :: ns => if 2147483647 < total * n then none else intProduct (total * n) ns

/-- The inner loop of `_sf_expand_cartesian_kargs` over the dimensions, the last one first:
the values of the combination with the number `rem`. An error is logged, and the last call
decides what the loop leaves in `err`. -/
def applyDigits (F : Doubles) : List DimValues → ℕ → Option Err → DriverM (Option Err)
  | [], _, err => pure err
  | v :: vs, rem, _ => fun d =>
      match applyDimValue F v (rem % v.n) d with
      | .ok () d' => applyDigits F vs (rem / v.n) none d'
      | .error (.code m c) d' => applyDigits F vs (rem / v.n) (some (.code m c)) d'
      | .error .undefined d' => .error .undefined d'

/-- The outer loop of `_sf_expand_cartesian_kargs` over the combinations; an error in adding
a handle ends it. -/
def cartesianLoop (ctx : RunCtx) (kernelName : Bytes) (orig : Option ℕ)
    (vals : List DimValues) : List ℕ → Option Err → DriverM (Option Err)
  | [], err => pure err
  | c :: cs, err => fun d =>
      match handleForValue ctx.reg kernelName orig c d with
      | .error e d' => .ok (some e) d'
      | .ok () d' =>
          match applyDigits ctx.floats vals.reverse c err d' with
          | .error e d'' => .error e d''
          | .ok err' d'' => cartesianLoop ctx kernelName orig vals cs err' d''

/-- What a loop left in `err`, returned. -/
def returnErr (err : Option Err) : DriverM Unit := fun d =>
  match err with
  | none => .ok () d
  | some e => .error (e.propagated .cliRun) d

/-- `_sf_expand_cartesian_kargs`. -/
def sfExpandCartesianKargs (ctx : RunCtx) (cfgs : List DimConfig) (kernelName : Bytes) :
    DriverM Unit := do
  let vals := cfgs.map (tpbDimGenerateValues ctx.floats)
  match intProduct 1 (vals.map (·.n)) with
  | none => fun d => .error .undefined d
  | some total => do
      let orig ← tpbDriverGetCurrentHdlIdx
      let err ← cartesianLoop ctx kernelName orig vals (List.range total) none
      returnErr err

/-- The expansion `_sf_flush_pending_dims` chooses. -/
def expandPending (ctx : RunCtx) (cfgs : List DimConfig) (kernelName : Bytes) : DriverM Unit :=
  match cfgs with
  | [] => pure ()
  | [cfg] => expandDimHandles ctx cfg kernelName
  | cfgs => sfExpandCartesianKargs ctx cfgs kernelName

/-- `_sf_flush_pending_dims`. -/
def sfFlushPendingDims (ctx : RunCtx) : RunM Unit := do
  let s ← get
  onDriver (warnOnly (expandPending ctx s.pendingDimCfgs s.pendingKernelName))
  modify fun s => { s with pendingDimCfgs := [] }

/-! ### The handlers of the other options -/

/-- `_sf_parse_kernel`. -/
def sfParseKernel (ctx : RunCtx) (value : Bytes) : RunM Unit := do
  bindNewest
  sfFlushPendingDims ctx
  propagateAt .cliRun (onDriver (tpbDriverAddHandle ctx.reg value))
  modify fun s =>
    { s with pendingKernelName := printedIn nameStrMaxLen value, seenFirstKernel := true }

/-- `_sf_parse_kargs`. -/
def sfParseKargs (ctx : RunCtx) (value : Bytes) : RunM Unit :=
  tpbArgpSetKargsTokstr ctx.floats value

/-- `_sf_parse_kargs_dim`. -/
def sfParseKargsDim (ctx : RunCtx) (value : Bytes) : RunM Unit := do
  let s ← get
  if maxDimConfigs ≤ s.pendingDimCfgs.length then failAt .cliRun .cliFail
  else do
    let cfg ← propagateAt .cliRun (liftRun (tpbArgpParseDim ctx.floats value))
    modify fun s => { s with pendingDimCfgs := s.pendingDimCfgs ++ [cfg] }

/-- `_sf_parse_kenvs`. -/
def sfParseKenvs (value : Bytes) : RunM Unit := parseKenvsTokstr value

/-- `_sf_parse_kenvs_dim`. -/
def sfParseKenvsDim (ctx : RunCtx) (value : Bytes) : RunM Unit := do
  let cfg ← propagateAt .cliRun (liftRun (tpbArgpParseDim ctx.floats value))
  let s ← get
  propagateAt .cliRun (onDriver (expandEnvDimHandles ctx cfg s.pendingKernelName))

/-- `"clock_gettime"`. -/
def clockGettime : Bytes :=
  ascii "clock_gettime".toList

/-- `"tsc_asym"`. -/
def tscAsym : Bytes := ascii "tsc_asym".toList

/-- `tpb_argp_set_timer`, with the timers the machine has. -/
def tpbArgpSetTimer (isX86 : Bool) (timerName : Bytes) : RunM Unit :=
  if timerName = clockGettime ∨ (isX86 ∧ timerName = tscAsym) then
    modify fun s => { s with timer := timerName }
  else failAt .argp .cliFail

/-- `_sf_parse_timer`. -/
def sfParseTimer (ctx : RunCtx) (value : Bytes) : RunM Unit :=
  propagateAt .cliRun (tpbArgpSetTimer ctx.isX86 value)

/-- `atoi` on the text of a setting. -/
def settingAtoi (value : Bytes) : Except Err ℤ :=
  match atoi (value ++ [0]) with
  | none => .error .undefined
  | some i => .ok i

/-- One `key=value` pair of `--outargs` on the settings `unit_cast` and `sigbit_trim`. -/
def outargsToken (acc : ℤ × ℤ) (token : Bytes) : Except Err (ℤ × ℤ) :=
  match strchr 61 (token.dropWhile isBlank) with
  | none => .ok acc
  | some (key, value) =>
      if dropBlanksEnd key =
          ascii "unit_cast".toList then do
        let i ← settingAtoi (value.dropWhile isBlank)
        .ok (i, acc.2)
      else if dropBlanksEnd key =
          ascii "sigbit_trim".toList then do
        let i ← settingAtoi (value.dropWhile isBlank)
        .ok (acc.1, i)
      else .error (.code .cliRun .cliFail)

/-- `parse_outargs_string`. -/
def parseOutargsString (outargsStr : Bytes) : RunM Unit := do
  let r ← liftRun ((segments 44 outargsStr).foldlM outargsToken (0, 5))
  modify fun s => { s with outargs := r }

/-- `_sf_parse_outargs`. -/
def sfParseOutargs (value : Bytes) : RunM Unit := parseOutargsString value

/-- `_sf_parse_dry_run`. -/
def sfParseDryRun : RunM Unit := modify fun s => { s with dryRun := true }

end TPBench
