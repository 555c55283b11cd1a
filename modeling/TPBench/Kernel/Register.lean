import TPBench.Kernel.Tags

/-!
# Kernels in Their Own Process

A kernel runs in a process of its own. There it registers itself with the driver
(`tpb-driver.c`), declares its arguments and outputs, and builds the handle of the one run
it is started for from the words of its command line. While it runs it may declare further
outputs, which then belong to the handle.

The driver keeps the kernels that are registered, the kernel that is being registered, which
lies behind them in the same array, and the current handle (`PliDriver`). Each call of the
interface is a program over that state. Strings that a caller hands over never hold a zero
byte, and a call of a function with too few variadic arguments is undefined.

## Main definitions

* `tpbKRegister`, `tpbKAddArg`, `tpbKAddOutput`, `tpbKFinalizePli` and `tpbKPliBuildHandle`,
  calls of the interface;
* `RegCall` and `RegStep`, one call as a step between states of the driver.

## Main results

`tpbKAddArg_ok_iff`, `tpbKAddOutput_ok_iff`, `tpbKRegister_ok_iff`, `tpbKFinalizePli_ok_iff`
and `tpbKPliBuildHandle_ok_iff` say when a call succeeds and what it changes; a call that
fails changes nothing (`regCall_error`).
-/

open CFile

namespace TPBench

/-! ### Kernels and handles -/

/-- The operations of `Doubles`, with the conversion of a `double` to `float`. -/
structure Floats extends Doubles where
  toF32 : UInt64 → UInt32

/-- `tpb_timer_t`, without its functions. -/
structure Timer where
  name : Bytes
  unit : UInt64
  dtype : UInt32

/-- `tpb_rt_arg_t`, with its tags and its note. -/
structure ArgInfo extends RtArg where
  tag : Bytes
  note : Bytes
  deriving DecidableEq, Repr

/-- `tpb_k_output_t`. The block `p` points to is given by its bytes. -/
structure KOutput where
  name : Bytes
  tag : Bytes
  note : Bytes
  dtype : UInt32
  unit : UInt64
  n : Int32
  p : Option Bytes
  deriving DecidableEq, Repr

/-- `tpb_k_static_info_t`, without the ID of the kernel. -/
structure KernelInfo where
  name : Bytes
  note : Bytes
  kctrl : UInt32
  args : List ArgInfo
  outs : List KOutput
  deriving DecidableEq, Repr

/-- The handle of a kernel process: `tpb_k_rthdl_t` with its `argpack` and `respack`. -/
structure Rthdl where
  kernel : KernelInfo
  args : List ArgInfo
  outputs : List KOutput
  deriving DecidableEq, Repr

/-- The driver in a kernel process: the first `nkern` entries of `kernel_all`,
`current_kernel` and `current_rthdl`. -/
structure PliDriver where
  kernelAll : List KernelInfo
  currentKernel : Option KernelInfo
  currentRthdl : Option Rthdl
  deriving DecidableEq, Repr

/-- The driver before the first call. -/
def PliDriver.empty : PliDriver := ⟨[], none, none⟩

/-- The programs over the driver. -/
abbrev PliM := EStateM Err PliDriver

/-- `TPBM_NOTE_STR_MAX_LEN`. -/
def noteStrMaxLen : ℕ := 2048

/-! ### Registration -/

/-- `tpb_k_register`. The name and the note are copied with `sprintf`. -/
def tpbKRegister (name note : Bytes) (kctrl : UInt32) : PliM Unit := fun d =>
  if name ∈ d.kernelAll.map (·.name) then .error (.code .driver .listDup) d
  else if nameStrMaxLen ≤ name.length ∨ noteStrMaxLen ≤ note.length then .error .undefined d
  else .ok () { d with currentKernel := some ⟨name, note, kctrl, [], []⟩ }

/-- `_sf_name_taken`. -/
def sfNameTaken (d : PliDriver) (name : Bytes) : Bool :=
  match d.currentKernel with
  | none => false
  | some k =>
      name ∈ k.args.map (·.name) ∨ name ∈ k.outs.map (·.name) ∨
        ∃ h ∈ d.currentRthdl, name ∈ h.outputs.map (·.name)

/-- `TPB_PARM_SOURCE_MASK`. -/
def parmSourceMask : UInt32 := 0xFF000000

/-- `TPB_PARM_ENV`. -/
def parmEnv : UInt32 := 0x08000000

/-- `TPB_PARM_LIST`. -/
def parmList : UInt32 := 0x00020000

/-- `TPB_DTYPE_TIMER_T`. -/
def dtypeTimer : UInt32 := 0x0000083F

/-- `TPB_DOUBLE_T`. -/
def typeDouble : UInt32 := 0x0000080b

/-- The role the driver gives an argument: an input, which may also be an environment
variable. -/
def argRole (dtype : UInt32) : Bytes :=
  if dtype &&& parmSourceMask = parmEnv &&& parmSourceMask then
    tpbTagInput ++ comma :: tpbTagEnvvar
  else tpbTagInput

/-- The control bits of an argument, for which the type of the timer is looked up. -/
def argCtrlbits (timer : Timer) (dtype : UInt32) : UInt32 :=
  if dtype &&& parmTypeMask = dtypeTimer &&& parmTypeMask then
    (dtype &&& ~~~parmTypeMask) ||| (timer.dtype &&& parmTypeMask)
  else dtype

/-- The default value a text stands for, for the types `tpb_k_add_arg` supports. -/
def defaultValue (F : Floats) (t : UInt32) (text : Bytes) : Option UInt64 :=
  if isIntType t then some (Int64.ofInt (strtoll text)).toUInt64
  else if isUintType t then some (strtoull text)
  else if t = typeFloat then some (F.toF32 (F.strtod text).1).toUInt64
  else if t = typeDouble then some (F.strtod text).1
  else if t = typeChar then some (text.headD 0).toUInt64
  else none

/-- A limit of a range, from the eight bytes of a variadic argument. -/
def rangeLimit (F : Floats) (t : UInt32) (w : UInt64) : UInt64 :=
  if t = typeFloat then (F.toF32 w).toUInt64
  else if t = typeChar then w &&& 0xFF
  else w

/-- Whether the lower limit of a range is above its upper one. -/
def limitsSwapped (F : Floats) (t : UInt32) (lo hi : UInt64) : Bool :=
  if isDoubleType t then F.lt hi lo
  else if t = typeFloat then F.lt32 hi.toUInt32 lo.toUInt32
  else if isIntType t then hi.toInt64 < lo.toInt64
  else if isUintType t then hi < lo
  else if t = typeChar then hi.toUInt8.toInt8 < lo.toUInt8.toInt8
  else false

/-- The limits of an argument, from the variadic arguments: two numbers for a range, and the
array of the values for a list. -/
def argLimits (F : Floats) (t dtype : UInt32) (va : List UInt64) : Except Err (List UInt64) :=
  if dtype &&& parmCheckMask = parmRange then
    match va with
    | [lo, hi] =>
        if limitsSwapped F t (rangeLimit F t lo) (rangeLimit F t hi) then
          .error (.code .driver .kernArgFail)
        else .ok [rangeLimit F t lo, rangeLimit F t hi]
    | _ => .error .undefined
  else if dtype &&& parmCheckMask = parmList then
    .ok (va.map fun w => if t = typeChar then w &&& 0xFF else w)
  else .ok []

/-- The type of an argument, once the type of the timer is looked up. -/
def argType (timer : Timer) (dtype : UInt32) : UInt32 := argCtrlbits timer dtype &&& parmTypeMask

/-- The argument `tpb_k_add_arg` adds, once its name is found to be free. -/
def newArg (F : Floats) (timer : Timer) (name tag note dflt : Bytes) (dtype : UInt32)
    (va : List UInt64) : Except Err ArgInfo :=
  match sfFinalizeRoleTags nameStrMaxLen tag (argRole dtype) with
  | none => .error (.code .driver .kernArgFail)
  | some tags =>
      match defaultValue F (argType timer dtype) dflt with
      | none => .error (.code .driver .kernArgFail)
      | some v =>
          match argLimits F (argType timer dtype) dtype va with
          | .error e => .error e
          | .ok lims =>
              .ok ⟨⟨printedIn nameStrMaxLen name, v, argCtrlbits timer dtype, lims⟩, tags,
                printedIn noteStrMaxLen note⟩

/-- A kernel with one more argument. -/
def KernelInfo.withArg (k : KernelInfo) (a : ArgInfo) : KernelInfo :=
  { k with args := k.args ++ [a] }

/-- `tpb_k_add_arg`. -/
def tpbKAddArg (F : Floats) (timer : Timer) (name tag note dflt : Bytes) (dtype : UInt32)
    (va : List UInt64) : PliM Unit := fun d =>
  match d.currentKernel with
  | none => .error (.code .driver .kernArgFail) d
  | some k =>
      if d.currentRthdl.isSome then .error (.code .driver .illegalCall) d
      else if sfValidateHeaderName name = false then .error (.code .driver .kernArgFail) d
      else if sfNameTaken d name then .error (.code .driver .kernArgFail) d
      else
        match newArg F timer name tag note dflt dtype va with
        | .error e => .error e d
        | .ok a => .ok () { d with currentKernel := some (k.withArg a) }

/-- `TPB_INT64_T`. -/
def typeInt64 : UInt32 := 0x0000083a

/-- The output `tpb_k_add_output` adds. -/
def newOutput (name tags note : Bytes) (dtype : UInt32) (unit : UInt64) : KOutput where
  name := printedIn nameStrMaxLen name
  tag := printedIn nameStrMaxLen tags
  note := printedIn noteStrMaxLen note
  dtype := if dtype &&& parmTypeMask = dtypeTimer &&& parmTypeMask then typeInt64 else dtype
  unit := unit
  n := 0
  p := none

/-- A kernel with one more output. -/
def KernelInfo.withOutput (k : KernelInfo) (o : KOutput) : KernelInfo :=
  { k with outs := k.outs ++ [o] }

/-- A handle with one more output. -/
def Rthdl.withOutput (h : Rthdl) (o : KOutput) : Rthdl := { h with outputs := h.outputs ++ [o] }

/-- The last part of `tpb_k_add_output`: the output goes to the current handle, and without
one to the kernel that is being registered. -/
def addOutputTo (d : PliDriver) (o : KOutput) : Except Err PliDriver :=
  match d.currentRthdl with
  | some h => .ok { d with currentRthdl := some (h.withOutput o) }
  | none =>
      match d.currentKernel with
      | some k => .ok { d with currentKernel := some (k.withOutput o) }
      | none => .error (.code .driver .kernArgFail)

/-- `tpb_k_add_output`. -/
def tpbKAddOutput (name tag note : Bytes) (dtype : UInt32) (unit : UInt64) : PliM Unit := fun d =>
  if sfValidateHeaderName name = false then .error (.code .driver .kernArgFail) d
  else if sfNameTaken d name then .error (.code .driver .kernArgFail) d
  else
    match sfFinalizeRoleTags nameStrMaxLen tag tpbTagOutput with
    | none => .error (.code .driver .kernArgFail) d
    | some tags =>
        match addOutputTo d (newOutput name tags note dtype unit) with
        | .error e => .error e d
        | .ok d' => .ok () d'

/-- `tpb_k_finalize_pli`. -/
def tpbKFinalizePli : PliM Unit := fun d =>
  match d.currentKernel with
  | none => .error (.code .driver .kernArgFail) d
  | some k => .ok () { d with kernelAll := d.kernelAll ++ [k], currentKernel := none }

/-! ### The handle of a run -/

/-- The value an argument of a handle gets from a word of the command line. Only the member
of its type is written, and a type without a case keeps its value. -/
def ArgInfo.apply (F : Floats) (a : ArgInfo) (text : Bytes) : ArgInfo :=
  match parmFromText F.toDoubles a.typeCode text with
  | none => a
  | some v =>
      if a.typeCode = typeChar then { a with value := (a.value &&& ~~~(0xFF : UInt64)) ||| v }
      else { a with value := v }

/-- The loop over the arguments of the kernel: the words of the command line are the values,
and an argument without a word keeps its default. -/
def applyArgv (F : Floats) : List ArgInfo → List Bytes → List ArgInfo
  | [], _ => []
  | as, [] => as
  | a :: as, w :: ws => a.apply F w :: applyArgv F as ws

/-- `TPB_UATTR_MASK`. -/
def tpbUattrMask : UInt64 := 0xFFFF000000000000

/-- `TPB_UNIT_TIMER`. -/
def tpbUnitTimer : UInt64 := 0x0000105100000000

/-- An output of a handle: nothing is allocated, and the unit of the timer is looked up. -/
def KOutput.forHandle (timer : Timer) (o : KOutput) : KOutput :=
  { o with
    n := 0
    p := none
    unit := if o.unit &&& ~~~tpbUattrMask = tpbUnitTimer then
        timer.unit ||| (o.unit &&& tpbUattrMask)
      else o.unit }

/-- The handle `tpb_k_pli_build_handle` builds of a kernel. -/
def Rthdl.build (F : Floats) (timer : Timer) (k : KernelInfo) (argv : List Bytes) : Rthdl where
  kernel := k
  args := applyArgv F k.args argv
  outputs := k.outs.map (KOutput.forHandle timer)

/-- `tpb_k_pli_build_handle`, for the kernel registered last. -/
def tpbKPliBuildHandle (F : Floats) (timer : Timer) (argv : List Bytes) : PliM Unit := fun d =>
  match d.kernelAll.getLast? with
  | none => .error (.code .driver .kernArgFail) d
  | some k => .ok () { d with currentRthdl := some (Rthdl.build F timer k argv) }

/-! ### Calls -/

/-- A call of the interface. -/
inductive RegCall
  | register (name note : Bytes) (kctrl : UInt32)
  | addArg (name tag note dflt : Bytes) (dtype : UInt32) (va : List UInt64)
  | addOutput (name tag note : Bytes) (dtype : UInt32) (unit : UInt64)
  | finalizePli
  | buildHandle (argv : List Bytes)
  deriving DecidableEq, Repr

/-- The program of a call. -/
def RegCall.run (F : Floats) (timer : Timer) : RegCall → PliM Unit
  | register name note kctrl => tpbKRegister name note kctrl
  | addArg name tag note dflt dtype va => tpbKAddArg F timer name tag note dflt dtype va
  | addOutput name tag note dtype unit => tpbKAddOutput name tag note dtype unit
  | finalizePli => tpbKFinalizePli
  | buildHandle argv => tpbKPliBuildHandle F timer argv

/-- A call returns, with or without an error. -/
inductive RegStep (F : Floats) (timer : Timer) : PliDriver → RegCall → PliDriver → Prop
  | ok {d d' : PliDriver} {c : RegCall} : c.run F timer d = .ok () d' → RegStep F timer d c d'
  | error {d d' : PliDriver} {c : RegCall} {m : Module} {cause : Cause} :
      c.run F timer d = .error (.code m cause) d' → RegStep F timer d c d'

section Calls

variable {F : Floats} {timer : Timer} {d d' : PliDriver}

theorem tpbKRegister_ok_iff {name note : Bytes} {kctrl : UInt32} :
    tpbKRegister name note kctrl d = .ok () d' ↔
      name ∉ d.kernelAll.map (·.name) ∧ name.length < nameStrMaxLen ∧
        note.length < noteStrMaxLen ∧
          d' = { d with currentKernel := some ⟨name, note, kctrl, [], []⟩ } := by
  rw [tpbKRegister]
  constructor
  · intro h
    split_ifs at h with hdup hlong
    rw [not_or, not_le, not_le] at hlong
    cases h
    exact ⟨hdup, hlong.1, hlong.2, rfl⟩
  · rintro ⟨hdup, hname, hnote, rfl⟩
    rw [if_neg hdup, if_neg (by rw [not_or, not_le, not_le]; exact ⟨hname, hnote⟩)]

theorem tpbKAddArg_ok_iff {name tag note dflt : Bytes} {dtype : UInt32} {va : List UInt64} :
    tpbKAddArg F timer name tag note dflt dtype va d = .ok () d' ↔
      ∃ k a, d.currentKernel = some k ∧ d.currentRthdl = none ∧
        sfValidateHeaderName name = true ∧ sfNameTaken d name = false ∧
        newArg F timer name tag note dflt dtype va = .ok a ∧
        d' = { d with currentKernel := some (k.withArg a) } := by
  rw [tpbKAddArg]
  constructor
  · intro h
    split at h
    · cases h
    · rename_i k hk
      split_ifs at h with hhdl hvalid htaken
      split at h
      · cases h
      · rename_i a ha
        cases h
        exact ⟨k, a, hk, by simpa using hhdl, by simpa using hvalid, by simpa using htaken, ha, rfl⟩
  · rintro ⟨k, a, hk, hhdl, hvalid, htaken, ha, rfl⟩
    simp [hk, hhdl, hvalid, htaken, ha]

theorem tpbKAddOutput_ok_iff {name tag note : Bytes} {dtype : UInt32} {unit : UInt64} :
    tpbKAddOutput name tag note dtype unit d = .ok () d' ↔
      ∃ tags, sfValidateHeaderName name = true ∧ sfNameTaken d name = false ∧
        sfFinalizeRoleTags nameStrMaxLen tag tpbTagOutput = some tags ∧
        addOutputTo d (newOutput name tags note dtype unit) = .ok d' := by
  rw [tpbKAddOutput]
  constructor
  · intro h
    split_ifs at h with hvalid htaken
    split at h
    · cases h
    · rename_i tags htags
      split at h
      · cases h
      · rename_i d'' hadd
        cases h
        exact ⟨tags, by simpa using hvalid, by simpa using htaken, htags, hadd⟩
  · rintro ⟨tags, hvalid, htaken, htags, hadd⟩
    simp [hvalid, htaken, htags, hadd]

theorem tpbKFinalizePli_ok_iff : tpbKFinalizePli d = .ok () d' ↔
    ∃ k, d.currentKernel = some k ∧
      d' = { d with kernelAll := d.kernelAll ++ [k], currentKernel := none } := by
  rw [tpbKFinalizePli]
  constructor
  · intro h
    split at h
    · cases h
    · rename_i k hk
      cases h
      exact ⟨k, hk, rfl⟩
  · rintro ⟨k, hk, rfl⟩
    simp [hk]

theorem tpbKPliBuildHandle_ok_iff {argv : List Bytes} :
    tpbKPliBuildHandle F timer argv d = .ok () d' ↔
      ∃ k, d.kernelAll.getLast? = some k ∧
        d' = { d with currentRthdl := some (Rthdl.build F timer k argv) } := by
  rw [tpbKPliBuildHandle]
  constructor
  · intro h
    split at h
    · cases h
    · rename_i k hk
      cases h
      exact ⟨k, hk, rfl⟩
  · rintro ⟨k, hk, rfl⟩
    simp [hk]

/-- A call that fails leaves the driver as it was. -/
theorem regCall_error {c : RegCall} {e : Err} (h : c.run F timer d = .error e d') : d' = d := by
  cases c with
  | register name note kctrl =>
      rw [RegCall.run, tpbKRegister] at h
      split_ifs at h
      · cases h
        rfl
      · cases h
        rfl
  | addArg name tag note dflt dtype va =>
      rw [RegCall.run, tpbKAddArg] at h
      split at h
      · cases h
        rfl
      · split_ifs at h
        · cases h
          rfl
        · cases h
          rfl
        · cases h
          rfl
        · split at h
          · cases h
            rfl
          · cases h
  | addOutput name tag note dtype unit =>
      rw [RegCall.run, tpbKAddOutput] at h
      split_ifs at h
      · cases h
        rfl
      · cases h
        rfl
      · split at h
        · cases h
          rfl
        · split at h
          · cases h
            rfl
          · cases h
  | finalizePli =>
      rw [RegCall.run, tpbKFinalizePli] at h
      split at h
      · cases h
        rfl
      · cases h
  | buildHandle argv =>
      rw [RegCall.run, tpbKPliBuildHandle] at h
      split at h
      · cases h
        rfl
      · cases h

/-- A call leads to one state. -/
theorem RegStep.unique {c : RegCall} {d'' : PliDriver} (h : RegStep F timer d c d')
    (h' : RegStep F timer d c d'') : d' = d'' := by
  rcases h with h | h
  · rcases h' with h' | h'
    · rw [h] at h'
      cases h'
      rfl
    · rw [h] at h'
      cases h'
  · rcases h' with h' | h'
    · rw [h] at h'
      cases h'
    · rw [h] at h'
      cases h'
      rfl

end Calls

end TPBench
