import TPBench.Cli.Run

/-!
# The Command Line of `run`

The option tree of `tpbcli run`, the whole subcommand, and what an accepted command line
is.

Every name in the tree determines its option, so a command line can be read without the tree as
a sequence of options (`scanOpts`). The tree decides which sequences are accepted: arguments,
environment variables and dimensions stand behind a `--kernel`, with nothing but each other in
between.
-/

open CFile

namespace TPBench

/-! ### The tree -/

section Names

/-- `"run"`. -/
def nameRun : Bytes := ascii ['r', 'u', 'n']

/-- `"r"`. -/
def nameR : Bytes := ascii ['r']

/-- `"--kernel"`. -/
def nameKernel : Bytes := ascii "--kernel".toList

/-- `"-k"`. -/
def nameK : Bytes := ascii ['-', 'k']

/-- `"--kargs"`. -/
def nameKargs : Bytes := ascii "--kargs".toList

/-- `"--kargs-dim"`. -/
def nameKargsDim : Bytes := ascii "--kargs-dim".toList

/-- `"--kenvs"`. -/
def nameKenvs : Bytes := ascii "--kenvs".toList

/-- `"--kenvs-dim"`. -/
def nameKenvsDim : Bytes := ascii "--kenvs-dim".toList

/-- `"--override-global"`. -/
def nameOverrideGlobal : Bytes :=
  ascii "--override-global".toList

/-- `"-og"`. -/
def nameOg : Bytes := ascii ['-', 'o', 'g']

/-- `"--help"`. -/
def nameHelp : Bytes := ascii "--help".toList

/-- `"-h"`. -/
def nameH : Bytes := ascii ['-', 'h']

/-- `"--wrapper"`. -/
def nameWrapper : Bytes := ascii "--wrapper".toList

/-- `"--wrapper-args"`. -/
def nameWrapperArgs : Bytes :=
  ascii "--wrapper-args".toList

/-- `"--timer"`. -/
def nameTimer : Bytes := ascii "--timer".toList

/-- `"--outargs"`. -/
def nameOutargs : Bytes := ascii "--outargs".toList

/-- `"--dry-run"`. -/
def nameDryRun : Bytes := ascii "--dry-run".toList

/-- `"-d"`. -/
def nameD : Bytes := ascii ['-', 'd']

end Names

/-- The callback of an option, which gets a value. -/
def withValue (f : Bytes → RunM Unit) : Option Bytes → RunM Unit
  | some v => f v
  | none => runUndefined

/-- An option that may be chosen any number of times. -/
def optConf (name : Bytes) (f : Bytes → RunM Unit) : ArgConf RunState where
  name := name
  shortName := none
  type := .opt
  exclusive := false
  mandatory := false
  preset := false
  delegateSubcmd := false
  maxChosen := -1
  parseFn := some (withValue f)
  hasHelpFn := false
  conflictOpts := []

/-- A flag that may be chosen once. -/
def flagConf (name short : Bytes) (m : RunM Unit) : ArgConf RunState where
  name := name
  shortName := some short
  type := .flag
  exclusive := false
  mandatory := false
  preset := false
  delegateSubcmd := false
  maxChosen := 1
  parseFn := some fun _ => m
  hasHelpFn := false
  conflictOpts := []

/-- The flag that shows help. -/
def helpConf : ArgConf RunState where
  name := nameHelp
  shortName := some nameH
  type := .flag
  exclusive := false
  mandatory := false
  preset := false
  delegateSubcmd := false
  maxChosen := 0
  parseFn := none
  hasHelpFn := true
  conflictOpts := []

/-- A node without children. -/
def leaf (id : ℕ) (conf : ArgConf RunState) : ArgNode RunState := .node id conf []

/-- The configuration of `--kernel`. -/
def kernelConf (ctx : RunCtx) : ArgConf RunState :=
  { optConf nameKernel (sfParseKernel ctx) with shortName := some nameK, mandatory := true }

/-- `--kernel` with what may follow it. -/
def kernelNode (ctx : RunCtx) : ArgNode RunState :=
  .node 2 (kernelConf ctx)
    [leaf 3 (optConf nameKargs (sfParseKargs ctx)),
     leaf 4 (optConf nameKargsDim (sfParseKargsDim ctx)),
     leaf 5 (optConf nameKenvs sfParseKenvs),
     leaf 6 (optConf nameKenvsDim (sfParseKenvsDim ctx)),
     leaf 7 (flagConf nameOverrideGlobal nameOg sfParseOverrideGlobal),
     leaf 8 helpConf]

/-- `--wrapper` with what may follow it. -/
def wrapperNode : ArgNode RunState :=
  .node 9 (optConf nameWrapper sfParseWrapper)
    [leaf 10 (optConf nameWrapperArgs sfParseWrapperArgs)]

/-- The configuration of the subcommand. -/
def runCmdConf : ArgConf RunState where
  name := nameRun
  shortName := some nameR
  type := .cmd
  exclusive := true
  mandatory := false
  preset := false
  delegateSubcmd := false
  maxChosen := 1
  parseFn := none
  hasHelpFn := false
  conflictOpts := []

/-- The subcommand with its options. -/
def runCmdNode (ctx : RunCtx) : ArgNode RunState :=
  .node 1 runCmdConf
    [kernelNode ctx, wrapperNode,
     leaf 11 { optConf nameTimer (sfParseTimer ctx) with maxChosen := 1, preset := true },
     leaf 12 { optConf nameOutargs sfParseOutargs with maxChosen := 1 },
     leaf 13 (flagConf nameDryRun nameD sfParseDryRun),
     leaf 14 helpConf]

/-- The option tree of `tpbcli_run`. -/
def runTree (ctx : RunCtx) (progName : Bytes) : ArgNode RunState :=
  .node 0 (rootConf progName) [runCmdNode ctx]

/-! ### The subcommand -/

/-- `_sf_run_kernel_value`: could a token be the name of a kernel? -/
def sfRunKernelValue (arg : Bytes) : Bool := arg ≠ [] ∧ arg.head? ≠ some 45

/-- `_sf_collect_run_kernel_names`: the names behind `--kernel` and `-k`, each of them once,
in the order in which they first appear. -/
def sfCollectRunKernelNames : List Bytes → List Bytes → Except Err (List Bytes)
  | names, tok :: value :: rest =>
      if (tok = nameKernel ∨ tok = nameK) ∧ sfRunKernelValue value ∧ value ∉ names then
        if maxDimConfigs ≤ names.length then .error (.code .cliRun .cliFail)
        else
          sfCollectRunKernelNames (names ++ [printedIn nameStrMaxLen value]) (value :: rest)
      else sfCollectRunKernelNames names (value :: rest)
  | names, _ => .ok names

/-- What the subcommand runs on: the arithmetic of the machine, its kind, and
`tpb_register_kernels`, which loads the kernels of a list of names (all of them when the
list is empty) and returns its error with the kernels that are registered then. -/
structure Host where
  floats : Doubles
  isX86 : Bool
  register : List Bytes → Except Err Unit × Registry

/-- The result of the registration: without names a kernel that fails its verification is
only reported. -/
def registerFor (host : Host) (names : List Bytes) : Except Err Registry :=
  match (host.register names).1 with
  | .ok () => .ok (host.register names).2
  | .error (.code m c) =>
      if names = [] ∧ c = .kernVerifyFail then .ok (host.register names).2
      else .error ((Err.code m c).propagated .cliRun)
  | .error .undefined => .error .undefined

/-- `tpbcli_run` up to its call of `tpb_driver_run_all`. The static variables of the
subcommand are reset first. -/
def tpbcliRun (host : Host) (argv : List Bytes) : RunM Unit := do
  modify fun s => { RunState.start with drv := s.drv, timer := s.timer, outargs := s.outargs }
  propagateAt .cliRun (tpbArgpSetTimer host.isX86 clockGettime)
  let names ← propagateAt .cliRun (liftRun (sfCollectRunKernelNames [] argv))
  let reg ← liftRun (registerFor host names)
  let ctx : RunCtx := ⟨host.floats, host.isX86, reg⟩
  let _ ← propagateAt .cliRun
    (tpbcliParseArgs (runTree ctx (argv.headD [])) (fun _ => .fresh) (argv.drop 1))
  sfFlushPendingDims ctx
  bindNewest

/-! ### Options -/

/-- The options of a command line, without those that show help. -/
inductive Opt
  | kernel (value : Bytes)
  | kargs (value : Bytes)
  | kargsDim (value : Bytes)
  | kenvs (value : Bytes)
  | kenvsDim (value : Bytes)
  | overrideGlobal
  | wrapper (value : Bytes)
  | wrapperArgs (value : Bytes)
  | timer (value : Bytes)
  | outargs (value : Bytes)
  | dryRun
  deriving DecidableEq, Repr

/-- The handler of an option. -/
def Opt.handler (ctx : RunCtx) : Opt → RunM Unit
  | kernel v => sfParseKernel ctx v
  | kargs v => sfParseKargs ctx v
  | kargsDim v => sfParseKargsDim ctx v
  | kenvs v => sfParseKenvs v
  | kenvsDim v => sfParseKenvsDim ctx v
  | overrideGlobal => sfParseOverrideGlobal
  | wrapper v => sfParseWrapper v
  | wrapperArgs v => sfParseWrapperArgs v
  | timer v => sfParseTimer ctx v
  | outargs v => sfParseOutargs v
  | dryRun => sfParseDryRun

/-- The handlers of a sequence of options, one after the other. -/
def runOpts (ctx : RunCtx) : List Opt → RunM Unit
  | [] => pure ()
  | o :: os => do
      o.handler ctx
      runOpts ctx os

/-- The option that takes a value, by its name. -/
def valueOpt (token : Bytes) : Option (Bytes → Opt) :=
  if token = nameKernel ∨ token = nameK then some .kernel
  else if token = nameKargs then some .kargs
  else if token = nameKargsDim then some .kargsDim
  else if token = nameKenvs then some .kenvs
  else if token = nameKenvsDim then some .kenvsDim
  else if token = nameWrapper then some .wrapper
  else if token = nameWrapperArgs then some .wrapperArgs
  else if token = nameTimer then some .timer
  else if token = nameOutargs then some .outargs
  else none

/-- The flag of a name. -/
def flagOpt (token : Bytes) : Option Opt :=
  if token = nameOverrideGlobal ∨ token = nameOg then some .overrideGlobal
  else if token = nameDryRun ∨ token = nameD then some .dryRun
  else none

/-- A command line behind the name of the subcommand, read as a sequence of options. -/
def scanOpts : List Bytes → Option (List Opt)
  | [] => some []
  | [tok] => (flagOpt tok).map fun o => [o]
  | tok :: value :: rest =>
      match valueOpt tok with
      | some o => (scanOpts rest).map fun os => o value :: os
      | none =>
          match flagOpt tok with
          | some o => (scanOpts (value :: rest)).map fun os => o :: os
          | none => none

/-- The options of the arguments of the program: behind its name stands the name of the
subcommand. -/
def optsOfArgv (argv : List Bytes) : Option (List Opt) :=
  match argv with
  | _ :: cmd :: rest => if cmd = nameRun ∨ cmd = nameR then scanOpts rest else none
  | _ => none

end TPBench
