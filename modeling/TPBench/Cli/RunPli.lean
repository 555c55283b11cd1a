import TPBench.CFile.Printf
import TPBench.Cli.Driver
import TPBench.Kernel.Names
import TPBench.Rtenv.Chain
import TPBench.Rtenv.Load
import TPBench.Task.Ridmap

/-!
# The Command a Kernel Is Started With

A handle is run in a process of its own. `tpb_run_pli` (`tpb-driver.c`) writes the command
for it into a buffer of 8192 bytes: variables for the timer, the kernel and the batch, the
environment entries of the handle, the wrappers, the program and the values of the
arguments. Every piece is printed by a call of `snprintf` at a running position.

`inCommandBuffer_iff` says when the position stays in the buffer. It does where the pieces
fit into the buffer together. Nothing checks that, and a handle may hold any number of
environment entries with values of up to 4095 bytes, so that two long values are enough to
leave it (`longHandle_overruns`). The call behind that one writes outside of the buffer.

## Main definitions

* `PliRun`: what `tpb_run_pli` reads besides the handle.
* `commandParts`: the texts of the calls of `snprintf`, in their order.
* `commandLength`: the length of the command.
-/

open CFile

namespace TPBench

/-! ### What is printed -/

/-- `cmd_size`. -/
def cmdSize : ℕ := 8192

/-- What `tpb_run_pli` reads besides the handle: the timer, the launcher and the program of
the kernel, the active batch with its workspace, the environment of the process, and the
answers about the active runtime environment. The chain that is merged is asked for once per
environment entry, and is there when both questions are answered. The strings are in arrays
of `TPBM_NAME_STR_MAX_LEN` and `PATH_MAX` bytes. -/
structure PliRun where
  timer : Bytes
  launchPath : Option Bytes
  execPath : Bytes
  kernelId : Id20
  tbatchId : Option Id20
  workspace : Option Bytes
  handleIndex : Int32
  activeId : Option Int32
  merged : ℕ → Option Merged
  getenv : Bytes → Option Bytes
  timer_lt : timer.length < nameStrMaxLen
  launchPath_lt : ∀ p ∈ launchPath, p.length < pathMax
  execPath_lt : execPath.length < pathMax
  workspace_lt : ∀ p ∈ workspace, p.length < pathMax

/-- The declaration of a variable that is found for environment entry number `i`. -/
def PliRun.declared (r : PliRun) (i : ℕ) (name : Bytes) : Option EnvVar :=
  r.workspace.bind fun _ => (r.merged i).bind fun m => tpbRtenvMergedFind m name

/-- The value with which environment entry number `i` is emitted, if it is. -/
def emitVal (r : PliRun) (i : ℕ) (name value : Bytes) : Option Bytes :=
  match r.declared i name with
  | none => some value
  | some decl =>
      match tpbRtenvApplyOnset (r.getenv name) value decl.onSet cliStrMaxLen with
      | .ok applied => some applied
      | .error _ => if decl.onSet = tpbRtenvOnSetIgnore then none else some value

/-- A variable in front of the command: `"%s=%s "`. -/
def assignment (name value : Bytes) : Bytes := name ++ 61 :: value ++ [32]

/-- The text of an argument, in a buffer of 256 bytes. -/
def argText (F : Doubles) (a : RtArg) : Bytes :=
  printedIn 256 <|
    if a.typeCode = typeFloat ∨ isDoubleType a.typeCode then F.printG15 a.value
    else if isIntType a.typeCode then formatInt a.value.toInt64.toInt
    else if isUintType a.typeCode then formatD a.value.toNat
    else if a.typeCode = typeChar then cstr [a.value.toUInt8]
    else ascii ['0']

/-- The variable of the timer. -/
def timerPart (r : PliRun) : Bytes := assignment (ascii "TPBENCH_TIMER".toList) r.timer

/-- The variable of the kernel. -/
def kernelIdPart (r : PliRun) : Bytes :=
  assignment (ascii "TPB_KERNEL_ID".toList) (hexBytes r.kernelId.toList)

/-- The variable of the active runtime environment. -/
def rtenvParts (r : PliRun) : List Bytes :=
  match r.workspace, r.activeId with
  | some _, some id => [assignment (ascii "TPB_RTENV_ID".toList) (formatInt id.toInt)]
  | _, _ => []

/-- The variables of the active batch. -/
def batchParts (r : PliRun) : List Bytes :=
  match r.tbatchId with
  | none => []
  | some id =>
      [assignment (ascii "TPB_TBATCH_ID".toList) (hexBytes id.toList),
        assignment (ascii "TPB_HANDLE_INDEX".toList) (formatInt r.handleIndex.toInt)] ++
      match r.workspace with
      | none => []
      | some ws => [assignment (ascii "TPB_WORKSPACE".toList) ws]

/-- The environment entries of the handle. -/
def envParts (r : PliRun) (envs : List (Bytes × Bytes)) : List Bytes :=
  (envs.zipIdx.map fun e => ((emitVal r e.2 e.1.1 e.1.2).map (assignment e.1.1)).toList).flatten

/-- The pieces of a wrapper: its program, its arguments if there are any, and a blank. -/
def wrapperParts (l : WrapperLink) : List Bytes :=
  match l.args with
  | some (b :: bs) => [l.app, 32 :: b :: bs, [32]]
  | _ => [l.app, [32]]

/-- `TPB_SHLIB_EXT`. -/
def tpbShlibExt : Bytes := ascii ['.', 's', 'o']

/-- The program: a shared library is run by the launcher. -/
def execPart (r : PliRun) : Bytes :=
  match r.launchPath with
  | none => r.execPath ++ 32 :: r.timer
  | some launch =>
      if tpbShlibExt <:+: r.execPath then launch ++ 32 :: r.execPath ++ 32 :: r.timer
      else r.execPath ++ 32 :: r.timer

/-- The texts that `tpb_run_pli` prints into `full_cmd`, one for each call of `snprintf`. -/
def commandParts (F : Doubles) (r : PliRun) (h : Handle) : List Bytes :=
  timerPart r :: kernelIdPart r :: (rtenvParts r ++ batchParts r ++ envParts r h.envs ++
    (h.wrappers.map wrapperParts).flatten ++ execPart r ::
      h.args.map fun a => 32 :: argText F a)

/-- While the command is built, `pos` stays in the buffer or at its end. -/
def InCommandBuffer (F : Doubles) (r : PliRun) (h : Handle) : Prop :=
  CFile.Inside cmdSize (commandParts F r h)

/-! ### The length of the command -/

/-- The length of environment entry number `i`. -/
def envLength (r : PliRun) (i : ℕ) (name value : Bytes) : ℤ :=
  match emitVal r i name value with
  | none => 0
  | some v => name.length + v.length + 2

/-- The length of a wrapper. Arguments that are longer than an `int` counts take back one. -/
def wrapperLength (l : WrapperLink) : ℤ :=
  match l.args with
  | some (b :: bs) => l.app.length + printedLen (32 :: b :: bs) + 1
  | _ => l.app.length + 1

/-- The length of the program with the timer. -/
def execLength (r : PliRun) : ℤ :=
  match r.launchPath with
  | none => r.execPath.length + 1 + r.timer.length
  | some launch =>
      if tpbShlibExt <:+: r.execPath then
        launch.length + 1 + r.execPath.length + 1 + r.timer.length
      else r.execPath.length + 1 + r.timer.length

/-- The length of the variables of the runtime environment and the batch. -/
def recordLength (r : PliRun) : ℤ :=
  (match r.workspace, r.activeId with
    | some _, some id => 14 + ((formatInt id.toInt).length : ℤ)
    | _, _ => 0) +
  match r.tbatchId with
  | none => 0
  | some _ =>
      73 + ((formatInt r.handleIndex.toInt).length : ℤ) +
        match r.workspace with
        | none => 0
        | some ws => 15 + ws.length

/-- The length of the command. -/
def commandLength (F : Doubles) (r : PliRun) (h : Handle) : ℤ :=
  70 + r.timer.length + recordLength r +
    (h.envs.zipIdx.map fun e => envLength r e.2 e.1.1 e.1.2).sum +
    (h.wrappers.map wrapperLength).sum + execLength r +
    (h.args.map fun a => 1 + ((argText F a).length : ℤ)).sum

/-! ### The position while the command is built -/

section Position

variable {F : Doubles} {r : PliRun} {h : Handle}

theorem length_assignment (name value : Bytes) :
    (assignment name value).length = name.length + value.length + 2 := by
  simp only [assignment, List.length_append, List.length_cons, List.length_nil]
  omega

/-- An `int32_t` has at most ten digits and a sign. -/
theorem length_formatInt_le (i : Int32) : (formatInt i.toInt).length ≤ 11 := by
  have hlow : -2147483648 ≤ i.toInt := i.minValue_le_toInt
  have hhigh : i.toInt ≤ 2147483647 := i.toInt_le
  have hdigits : (formatD i.toInt.natAbs).length ≤ 10 := by
    rw [formatD, ascii, List.length_map]
    exact (Nat.length_toDigits_le_iff (by omega) (by omega)).mpr (by omega)
  rw [formatInt]
  split
  · rw [List.length_cons]
    omega
  · omega

/-- What is applied is cut to the size of its buffer. -/
theorem exists_cut_of_applyOnset {cur : Option Bytes} {v a : Bytes} {onSet : UInt32} {n : ℕ}
    (h : tpbRtenvApplyOnset cur v onSet n = .ok a) : ∃ s, a = cut n s := by
  rcases cur with - | - | ⟨b, bs⟩
  all_goals
    simp only [tpbRtenvApplyOnset] at h
    split_ifs at h
    all_goals
      cases h
      exact ⟨_, rfl⟩

/-- A value is emitted as it is, or cut to the size of the buffer it is built in. -/
theorem length_emitVal_lt {i : ℕ} {name value v : Bytes} (hvalue : value.length < cliStrMaxLen)
    (hv : emitVal r i name value = some v) : v.length < cliStrMaxLen := by
  rw [emitVal] at hv
  split at hv
  · cases hv
    exact hvalue
  · split at hv
    · rename_i happlied
      cases hv
      obtain ⟨s, rfl⟩ := exists_cut_of_applyOnset happlied
      exact length_printedIn_lt (by decide) s
    · split at hv
      · cases hv
      · cases hv
        exact hvalue

theorem length_timerPart (r : PliRun) : (timerPart r).length = 15 + r.timer.length := by
  rw [timerPart, length_assignment, show (ascii "TPBENCH_TIMER".toList).length = 13 from rfl]
  omega

theorem length_kernelIdPart (r : PliRun) : (kernelIdPart r).length = 55 := by
  rw [kernelIdPart, length_assignment, length_hexBytes_id]
  rfl

/-- The calls for the active runtime environment climb, and so do those of every other group;
they return what `commandLength` counts for them. -/
theorem rtenvParts_spec (r : PliRun) :
    Climbs (rtenvParts r) ∧
      printedSum (rtenvParts r) =
        match r.workspace, r.activeId with
        | some _, some id => 14 + ((formatInt id.toInt).length : ℤ)
        | _, _ => 0 := by
  rw [rtenvParts]
  split
  · rename_i ws id hws hid
    have hdigits := length_formatInt_le id
    have hlen : (assignment (ascii "TPB_RTENV_ID".toList) (formatInt id.toInt)).length =
        14 + (formatInt id.toInt).length := by
      rw [length_assignment, show (ascii "TPB_RTENV_ID".toList).length = 12 from rfl]
      omega
    refine ⟨climbs_singleton (by omega), ?_⟩
    rw [printedSum_singleton, printedLen_of_le (by omega)]
    omega
  · exact ⟨climbs_nil, rfl⟩

theorem batchParts_spec (r : PliRun) :
    Climbs (batchParts r) ∧
      printedSum (batchParts r) =
        match r.tbatchId with
        | none => 0
        | some _ =>
            73 + ((formatInt r.handleIndex.toInt).length : ℤ) +
              match r.workspace with
              | none => 0
              | some ws => 15 + ws.length := by
  rw [batchParts]
  split
  · exact ⟨climbs_nil, rfl⟩
  · rename_i id hid
    have hdigits := length_formatInt_le r.handleIndex
    have hlen : (assignment (ascii "TPB_TBATCH_ID".toList) (hexBytes id.toList)).length = 55 := by
      rw [length_assignment, length_hexBytes_id]
      rfl
    have hlen' : (assignment (ascii "TPB_HANDLE_INDEX".toList)
        (formatInt r.handleIndex.toInt)).length = 18 + (formatInt r.handleIndex.toInt).length := by
      rw [length_assignment, show (ascii "TPB_HANDLE_INDEX".toList).length = 16 from rfl]
      omega
    have htwo : Climbs [assignment (ascii "TPB_TBATCH_ID".toList) (hexBytes id.toList),
        assignment (ascii "TPB_HANDLE_INDEX".toList) (formatInt r.handleIndex.toInt)] :=
      (climbs_singleton (by omega)).append (climbs_singleton (by omega))
    rw [printedSum_append, printedSum_cons, printedSum_singleton, printedLen_of_le (by omega),
      printedLen_of_le (by omega), hlen, hlen']
    rcases hws : r.workspace with - | ws
    · exact ⟨htwo.append climbs_nil, by rw [printedSum_nil]; push_cast; omega⟩
    · have hshort := r.workspace_lt ws hws
      rw [pathMax] at hshort
      have hlen'' : (assignment (ascii "TPB_WORKSPACE".toList) ws).length = 15 + ws.length := by
        rw [length_assignment, show (ascii "TPB_WORKSPACE".toList).length = 13 from rfl]
        omega
      refine ⟨htwo.append (climbs_singleton (by omega)), ?_⟩
      simp only [printedSum_singleton]
      rw [printedLen_of_le (by omega), hlen'']
      push_cast
      omega

/-- One list of calls for each member of a list. -/
theorem climbs_map_flatten {α : Type} {f : α → List Bytes} {n : α → ℤ} {xs : List α}
    (h : ∀ x ∈ xs, Climbs (f x) ∧ printedSum (f x) = n x) :
    Climbs (xs.map f).flatten ∧ printedSum (xs.map f).flatten = (xs.map n).sum := by
  constructor
  · refine climbs_flatten fun frs hfrs => ?_
    obtain ⟨x, hx, rfl⟩ := List.mem_map.mp hfrs
    exact (h x hx).1
  · rw [printedSum_flatten, List.map_map]
    exact congrArg List.sum (List.map_congr_left fun x hx => (h x hx).2)

theorem envParts_spec (r : PliRun) (hst : h.Stored) :
    Climbs (envParts r h.envs) ∧
      printedSum (envParts r h.envs) =
        (h.envs.zipIdx.map fun e => envLength r e.2 e.1.1 e.1.2).sum := by
  refine climbs_map_flatten fun e he => ?_
  obtain ⟨hname, hvalue⟩ := hst.env e.1 (List.fst_mem_of_mem_zipIdx he)
  rw [nameStrMaxLen] at hname
  rcases hv : emitVal r e.2 e.1.1 e.1.2 with - | v
  · simp only [envLength, hv]
    exact ⟨climbs_nil, rfl⟩
  · have hshort := length_emitVal_lt hvalue hv
    rw [cliStrMaxLen] at hshort
    have hlen := length_assignment e.1.1 v
    simp only [envLength, hv]
    refine ⟨climbs_singleton (by omega), ?_⟩
    rw [Option.map_some, Option.toList_some, printedSum_singleton, printedLen_of_le (by omega),
      hlen]
    push_cast
    rfl

/-- The blank behind the arguments of a wrapper makes up for what they may take back. -/
theorem wrapperParts_spec {l : WrapperLink} (hl : l.app.length < nameStrMaxLen) :
    Climbs (wrapperParts l) ∧ printedSum (wrapperParts l) = wrapperLength l := by
  rw [nameStrMaxLen] at hl
  have happ : printedLen l.app = l.app.length := printedLen_of_le (by omega)
  have hblank : printedLen [32] = 1 := rfl
  rw [wrapperParts, wrapperLength]
  split
  · rename_i b bs hargs
    have hback := neg_one_le_printedLen (32 :: b :: bs)
    have hsum : printedSum [l.app, 32 :: b :: bs, [32]] =
        l.app.length + printedLen (32 :: b :: bs) + 1 := by
      simp only [printedSum_cons, printedSum_nil, happ, hblank]
      omega
    refine ⟨fun done hdone => ?_, hsum⟩
    rw [hsum]
    rcases List.prefix_cons_iff.mp hdone with rfl | ⟨args, rfl, hargs⟩
    · rw [printedSum_nil]
      omega
    rw [printedSum_cons, happ]
    rcases List.prefix_cons_iff.mp hargs with rfl | ⟨blank, rfl, hend⟩
    · rw [printedSum_nil]
      omega
    rw [printedSum_cons]
    rcases List.prefix_cons_iff.mp hend with rfl | ⟨rest, rfl, hrest⟩
    · rw [printedSum_nil]
      omega
    · rw [List.prefix_nil.mp hrest, printedSum_cons, hblank, printedSum_nil]
      omega
  · constructor
    · exact (climbs_singleton (by omega)).append (climbs_singleton (by simp))
    · simp only [printedSum_cons, printedSum_nil, happ, hblank]
      omega

theorem execPart_spec (r : PliRun) :
    (execPart r).length ≤ 2147483647 ∧ ((execPart r).length : ℤ) = execLength r := by
  have htimer := r.timer_lt
  have hexec := r.execPath_lt
  have hlaunch := r.launchPath_lt
  rw [nameStrMaxLen] at htimer
  rw [pathMax] at hexec hlaunch
  rw [execPart, execLength]
  split
  · simp only [List.length_append, List.length_cons]
    push_cast
    exact ⟨by omega, by omega⟩
  · rename_i launch hl
    have hshort := hlaunch launch hl
    split
    · simp only [List.length_append, List.length_cons]
      push_cast
      exact ⟨by omega, by omega⟩
    · simp only [List.length_append, List.length_cons]
      push_cast
      exact ⟨by omega, by omega⟩

theorem argParts_spec (F : Doubles) (as : List RtArg) :
    Climbs (as.map fun a => 32 :: argText F a) ∧
      printedSum (as.map fun a => 32 :: argText F a) =
        (as.map fun a => 1 + ((argText F a).length : ℤ)).sum := by
  have hsingle : (as.map fun a => 32 :: argText F a) =
      (as.map fun a => [32 :: argText F a]).flatten := by
    rw [← List.flatMap_def, ← List.map_eq_flatMap]
  rw [hsingle]
  refine climbs_map_flatten fun a _ => ?_
  have hshort : (argText F a).length < 256 := length_printedIn_lt (by decide) _
  have hlen : (32 :: argText F a).length = 1 + (argText F a).length := by
    rw [List.length_cons, Nat.add_comm]
  refine ⟨climbs_singleton (by omega), ?_⟩
  rw [printedSum_singleton, printedLen_of_le (by omega), hlen]
  push_cast
  rfl

/-- What all the calls return, and that they climb behind the first one. -/
theorem commandParts_spec (F : Doubles) (r : PliRun) (hst : h.Stored) :
    ∃ parts, commandParts F r h = timerPart r :: parts ∧ Climbs parts ∧
      printedSum (commandParts F r h) = commandLength F r h := by
  have htimer := r.timer_lt
  rw [nameStrMaxLen] at htimer
  have hfirst := length_timerPart r
  have hid := length_kernelIdPart r
  obtain ⟨hrtenv, hrtenvSum⟩ := rtenvParts_spec r
  obtain ⟨hbatch, hbatchSum⟩ := batchParts_spec r
  obtain ⟨henv, henvSum⟩ := envParts_spec r hst
  obtain ⟨hwrap, hwrapSum⟩ := climbs_map_flatten fun l hl => wrapperParts_spec (hst.wrapper l hl)
  obtain ⟨hexec, hexecSum⟩ := execPart_spec r
  obtain ⟨harg, hargSum⟩ := argParts_spec F h.args
  refine ⟨_, rfl, ?_, ?_⟩
  · exact (climbs_singleton (by omega)).append ((((hrtenv.append hbatch).append henv).append
      hwrap).append ((climbs_singleton hexec).append harg))
  · rw [commandParts, commandLength, recordLength]
    simp only [printedSum_cons, printedSum_append]
    rw [printedLen_of_le (by omega), printedLen_of_le (by omega), printedLen_of_le hexec, hfirst,
      hid, hrtenvSum, hbatchSum, henvSum, hwrapSum, hexecSum, hargSum]
    push_cast
    ring

/-- The position stays in the buffer exactly when the command is not longer than the buffer. -/
theorem inside_commandParts_iff (F : Doubles) (r : PliRun) (hst : h.Stored) :
    InCommandBuffer F r h ↔ commandLength F r h ≤ cmdSize := by
  have hfirst := length_timerPart r
  have htimer := r.timer_lt
  rw [nameStrMaxLen] at htimer
  obtain ⟨parts, hparts, hclimbs, hsum⟩ := commandParts_spec F r hst
  rw [InCommandBuffer, ← hsum, hparts]
  refine hclimbs.inside_cons_iff ?_ (by decide)
  rw [printedLen_of_le (by omega)]
  omega

end Position

/-! ### Commands that fit, and commands that do not -/

/-- **The command in its buffer.** While the command for a handle is built, no call of
`snprintf` writes outside of the buffer and the position never passes its end, exactly when
the command has at most 8192 bytes. -/
theorem inCommandBuffer_iff (F : Doubles) (r : PliRun) {h : Handle} (hst : h.Stored) :
    InCommandBuffer F r h ↔ commandLength F r h ≤ cmdSize :=
  inside_commandParts_iff F r hst

/-- A run without a workspace and a batch. -/
def plainRun : PliRun where
  timer := ascii "clock_gettime".toList
  launchPath := some (ascii "/opt/bin/tpbcli-pli-launcher".toList)
  execPath := ascii "/opt/lib/libtpbk_stream.so".toList
  kernelId := zeroArr 20
  tbatchId := none
  workspace := none
  handleIndex := 0
  activeId := none
  merged := fun _ => none
  getenv := fun _ => none
  timer_lt := by decide
  launchPath_lt := by rintro p ⟨⟩; decide
  execPath_lt := by decide
  workspace_lt := by rintro p ⟨⟩

/-- A kernel without arguments. -/
def bareKernel : Kernel := ⟨ascii "stream".toList, true, true, [], by decide⟩

/-- A handle with an environment entry, with a value as long as an entry holds it. -/
def oneHandle : Handle := (Handle.ofKernel bareKernel).setEnv [65] (List.replicate 4095 120)

/-- A handle with two of them. -/
def longHandle : Handle := oneHandle.setEnv [66] (List.replicate 4095 120)

/-- One long value fits. -/
theorem oneHandle_fits : InCommandBuffer noFloats.toDoubles plainRun oneHandle := by
  have hfits : commandLength noFloats.toDoubles plainRun oneHandle ≤ cmdSize := by
    decide +kernel
  exact (inCommandBuffer_iff _ _ ((Handle.stored_ofKernel _).setEnv _ _)).mpr hfits

/-- Two long values are enough for the position to leave the buffer. -/
theorem longHandle_overruns :
    longHandle.Stored ∧ ¬ InCommandBuffer noFloats.toDoubles plainRun longHandle := by
  have hst : longHandle.Stored := ((Handle.stored_ofKernel _).setEnv _ _).setEnv _ _
  refine ⟨hst, ?_⟩
  rw [inside_commandParts_iff _ _ hst]
  have hlen : commandLength noFloats.toDoubles plainRun longHandle = 8348 := by
    decide +kernel
  rw [hlen]
  decide

end TPBench
