import TPBench.Cli.Argp
import TPBench.CFile.Text

/-!
# Runtime Handles of the Driver

The driver (`tpb-driver.c`) keeps the list of handles a command line asks for. A handle is
one run of a kernel: the values of its arguments, the environment entries and the chain of
wrappers it is started under. A handle is added at the end of the list and becomes the
current one, on which the setters work; a second handle of the same kernel gets the values
of an earlier one by `Handle.copyFrom`.

Arithmetic on floating-point numbers is a parameter of the model (`Doubles`): a `double` is
its bit pattern, and the operations of the C library on it are taken as given. The value of
an argument is the eight bytes of `tpb_parm_value_t`, of which each type reads its member.

## Main definitions

* `Kernel`, `Registry`: the kernels that are registered.
* `Handle` with `Handle.setKarg`, `Handle.setEnv`, `Handle.setWrappers`, `Handle.copyFrom`.
* `Driver`: the list of handles, and the calls that work on it.

## Main results

`Driver.onNewest` is the driver whose current handle is the newest one, which is how every
call of the command line finds it; `addHandle_onNewest`, `setHdlKarg_onNewest`,
`setHdlEnv_onNewest`, `copyHdlFrom_onNewest` and `setHdlWrappersIdx_onNewest` say what each
call does there.
-/

open CFile

namespace TPBench

/-! ### Numbers -/

/-- The operations on `double` and `float` of the C language and its library, on bit
patterns. `strtod` returns the number and the text behind it, `toI64` the conversion to
`int64_t` where it is defined, and `printG15` the text of `%.15g`. -/
structure Doubles where
  strtod : Bytes → UInt64 × Bytes
  lt : UInt64 → UInt64 → Bool
  lt32 : UInt32 → UInt32 → Bool
  eq : UInt64 → UInt64 → Bool
  add : UInt64 → UInt64 → UInt64
  sub : UInt64 → UInt64 → UInt64
  mul : UInt64 → UInt64 → UInt64
  div : UInt64 → UInt64 → UInt64
  pow : UInt64 → UInt64 → UInt64
  toI64 : UInt64 → Option ℤ
  ofI64 : ℤ → UInt64
  printG15 : UInt64 → Bytes

/-- The sign and the digits at the front of a text, behind leading blanks. -/
def signedDigits (s : Bytes) : ℤ × ℕ :=
  let r := splitSign (s.dropWhile isspace)
  (r.1, digitsNat (r.2.takeWhile isdigit))

/-- `strtoll` to the base ten, which saturates. -/
def strtoll (s : Bytes) : ℤ :=
  let r := signedDigits s
  max (-9223372036854775808) (min 9223372036854775807 (r.1 * r.2))

/-- `strtoull` to the base ten: a number that is too large saturates, and a minus sign
negates the result. -/
def strtoull (s : Bytes) : UInt64 :=
  let r := signedDigits s
  if 18446744073709551615 < r.2 then 18446744073709551615
  else if r.1 < 0 then 0 - UInt64.ofNat r.2 else UInt64.ofNat r.2

/-- The string that `snprintf(buf, n, "%s", s)` leaves in `buf`. -/
def printedIn (n : ℕ) (s : Bytes) : Bytes := s.take (n - 1)

theorem printedIn_of_lt {n : ℕ} {s : Bytes} (h : s.length < n) : printedIn n s = s :=
  List.take_of_length_le (by omega)

theorem length_printedIn_lt {n : ℕ} (hn : 0 < n) (s : Bytes) : (printedIn n s).length < n := by
  rw [printedIn, List.length_take]
  omega

/-- `TPBM_NAME_STR_MAX_LEN`. -/
def nameStrMaxLen : ℕ := 256

/-- `TPBM_CLI_STR_MAX_LEN`. -/
def cliStrMaxLen : ℕ := 4096

/-! ### Kernels and their arguments -/

/-- `tpb_rt_arg_t`: an argument with the eight bytes of its value, its type and check mode,
and its limits (`plims` with `nlims` entries). -/
structure RtArg where
  name : Bytes
  value : UInt64
  ctrlbits : UInt32
  plims : List UInt64
  deriving DecidableEq, Repr

/-- `tpb_kernel_t`, with the answer of `tpb_dl_is_complete` for its name. The name is
stored in an array of `TPBM_NAME_STR_MAX_LEN` bytes. -/
structure Kernel where
  name : Bytes
  isPli : Bool
  isComplete : Bool
  args : List RtArg
  name_lt : name.length < nameStrMaxLen

/-- The kernels that are registered: `kernel_common` and `kernel_all`. -/
structure Registry where
  kernelCommon : Kernel
  kernelAll : List Kernel

/-- `_sf_get_kernel_by_name`. -/
def sfGetKernelByName (reg : Registry) (name : Bytes) : Option Kernel :=
  (reg.kernelCommon :: reg.kernelAll).find? (·.name = name)

/-- The kernel `tpb_driver_add_handle` makes a handle of: a PLI kernel needs a runnable
library. -/
def kernelToAdd (reg : Registry) (name : Bytes) : Except Err Kernel :=
  match sfGetKernelByName reg name with
  | none => .error (.code .driver .kernelNeFail)
  | some k => if k.isPli && !k.isComplete then .error (.code .driver .kernelIncomplete) else .ok k

/-- A kernel is found under its own name, which is never truncated. -/
theorem kernelToAdd_name {reg : Registry} {name : Bytes} {k : Kernel}
    (h : kernelToAdd reg name = .ok k) : k.name = name := by
  simp only [kernelToAdd] at h
  split at h
  · cases h
  · rename_i k' hk
    split at h
    · cases h
    · cases h
      simpa using List.find?_some hk

/-- `TPB_PARM_TYPE_MASK`. -/
def parmTypeMask : UInt32 := 0x0000FFFF

/-- `TPB_PARM_CHECK_MASK`. -/
def parmCheckMask : UInt32 := 0x00FF0000

/-- `TPB_PARM_RANGE`. -/
def parmRange : UInt32 := 0x00010000

/-- `TPB_FLOAT_T`. -/
def typeFloat : UInt32 := 0x0000040a

/-- The types whose value is a `double`: `TPB_DOUBLE_T` and `TPB_LONG_DOUBLE_T`. -/
def isDoubleType (t : UInt32) : Bool := t = 0x0000080b ∨ t = 0x0000100c

/-- `TPB_INT_T`, `TPB_INT8_T`, `TPB_INT16_T`, `TPB_INT32_T` and `TPB_INT64_T`. -/
def isIntType (t : UInt32) : Bool :=
  t = 0x00000405 ∨ t = 0x00000137 ∨ t = 0x00000238 ∨ t = 0x00000439 ∨ t = 0x0000083a

/-- `TPB_UINT8_T`, `TPB_UINT16_T`, `TPB_UINT32_T` and `TPB_UINT64_T`. -/
def isUintType (t : UInt32) : Bool :=
  t = 0x0000013b ∨ t = 0x0000023c ∨ t = 0x0000043d ∨ t = 0x0000083e

/-- `TPB_CHAR_T`. -/
def typeChar : UInt32 := 0x00000101

/-- The type of an argument. -/
def RtArg.typeCode (a : RtArg) : UInt32 := a.ctrlbits &&& parmTypeMask

/-- The bytes of the value a text has in a type, for the types that are supported. -/
def parmFromText (F : Doubles) (t : UInt32) (text : Bytes) : Option UInt64 :=
  if t = typeFloat ∨ isDoubleType t then some (F.strtod text).1
  else if isIntType t then some (Int64.ofInt (strtoll text)).toUInt64
  else if isUintType t then some (strtoull text)
  else if t = typeChar then some (text.headD 0).toUInt64
  else none

/-- The range check of `tpb_driver_set_hdl_karg`: a value of a type that has no case passes. -/
def parmInRange (F : Doubles) (t : UInt32) (v lo hi : UInt64) : Bool :=
  if isDoubleType t then !(F.lt v lo || F.lt hi v)
  else if t = typeFloat then !(F.lt32 v.toUInt32 lo.toUInt32 || F.lt32 hi.toUInt32 v.toUInt32)
  else if isIntType t then !(v.toInt64 < lo.toInt64 ∨ hi.toInt64 < v.toInt64)
  else if isUintType t then !(v < lo ∨ hi < v)
  else true

/-- The value `tpb_driver_set_hdl_karg` stores for a text, when it accepts the text. -/
def RtArg.valueOf (F : Doubles) (a : RtArg) (text : Bytes) : Except Err UInt64 :=
  match parmFromText F a.typeCode text with
  | none => .error (.code .driver .dtypeNotSupported)
  | some v =>
      if a.ctrlbits &&& parmCheckMask = parmRange then
        match a.plims with
        | [lo, hi] =>
            if parmInRange F a.typeCode v lo hi then .ok v
            else .error (.code .driver .kernArgFail)
        | _ => .ok v
      else .ok v

/-! ### Handles -/

/-- `tpb_wrapper_link_t`. -/
structure WrapperLink where
  app : Bytes
  args : Option Bytes
  deriving DecidableEq, Repr

/-- `tpb_k_rthdl_t`: a kernel with its arguments, its environment entries and its wrapper
chain. -/
structure Handle where
  kernel : Kernel
  args : List RtArg
  envs : List (Bytes × Bytes)
  wrappers : List WrapperLink

/-- The handle `tpb_driver_add_handle` makes of a kernel. -/
def Handle.ofKernel (k : Kernel) : Handle := ⟨k, k.args, [], []⟩

/-- The first argument of a name gets a value. -/
def setArgValue (name : Bytes) (v : UInt64) : List RtArg → List RtArg
  | [] => []
  | a :: as => if a.name = name then { a with value := v } :: as else a :: setArgValue name v as

/-- `tpb_driver_set_hdl_karg` on a handle. -/
def Handle.setKarg (F : Doubles) (h : Handle) (name text : Bytes) : Except Err Handle :=
  match h.args.find? (·.name = name) with
  | none => .error (.code .driver .kargNeFail)
  | some a =>
      match a.valueOf F text with
      | .error e => .error e
      | .ok v => .ok { h with args := setArgValue name v h.args }

/-- The first entry of a name gets a value, or an entry is added. -/
def setEnvEntry (name value : Bytes) : List (Bytes × Bytes) → List (Bytes × Bytes)
  | [] => [(printedIn nameStrMaxLen name, printedIn cliStrMaxLen value)]
  | e :: es =>
      if e.1 = name then (e.1, printedIn cliStrMaxLen value) :: es
      else e :: setEnvEntry name value es

/-- `tpb_driver_set_hdl_env` on a handle. -/
def Handle.setEnv (h : Handle) (name value : Bytes) : Handle :=
  { h with envs := setEnvEntry name value h.envs }

/-- `_sf_set_hdl_wrappers_on`: the chain is replaced, and empty arguments are none. -/
def Handle.setWrappers (h : Handle) (links : List WrapperLink) : Handle :=
  { h with wrappers := links.map fun l =>
      ⟨printedIn nameStrMaxLen l.app, l.args.filter (· ≠ [])⟩ }

/-- `_sf_wrapperpack_copy`. -/
def sfWrapperpackCopy (src : List WrapperLink) : List WrapperLink :=
  src.map fun l => ⟨printedIn nameStrMaxLen l.app, l.args⟩

/-- An argument with the value the argument of its name has in a list. -/
def RtArg.valueFrom (src : List RtArg) (a : RtArg) : RtArg :=
  match src.find? (·.name = a.name) with
  | some b => { a with value := b.value }
  | none => a

/-- The arguments of a handle with the values the arguments of the same names have in
another one. The source leaves the loop at the end of the shorter list. -/
def copyArgValues (src dst : List RtArg) : List RtArg :=
  (dst.take src.length).map (RtArg.valueFrom src) ++ dst.drop src.length

/-- `tpb_driver_copy_hdl_from` on the two handles. -/
def Handle.copyFrom (h src : Handle) : Handle where
  kernel := h.kernel
  args := copyArgValues src.args h.args
  envs := if src.envs = [] then h.envs else src.envs
  wrappers := sfWrapperpackCopy src.wrappers

/-- Another handle of a kernel, with what an earlier handle holds. -/
def Handle.another (k : Kernel) (src : Handle) : Handle := (Handle.ofKernel k).copyFrom src

/-! ### What a handle holds -/

/-- The value of an argument. -/
def Handle.arg? (h : Handle) (name : Bytes) : Option UInt64 :=
  (h.args.find? (·.name = name)).map (·.value)

/-- The value of an environment variable. -/
def Handle.env? (h : Handle) (name : Bytes) : Option Bytes :=
  (h.envs.find? (·.1 = name)).map (·.2)

/-- An argument without its value. -/
def RtArg.decl (a : RtArg) : RtArg := { a with value := 0 }

/-- A handle of a kernel has the arguments the kernel declares. -/
def Handle.Of (k : Kernel) (h : Handle) : Prop := h.args.map (·.decl) = k.args.map (·.decl)

/-! ### The driver -/

/-- The driver: `handle_list` with its length `nhdl`, and `ihdl`, the index of the current
handle, to which `current_rthdl` points from the first handle on. -/
structure Driver where
  handleList : List Handle
  ihdl : Option ℕ

/-- The driver before the first handle. -/
def Driver.empty : Driver := ⟨[], none⟩

/-- The programs over the driver. -/
abbrev DriverM := EStateM Err Driver

/-- `current_rthdl`. -/
def Driver.currentRthdl (d : Driver) : Option Handle := d.ihdl.bind (d.handleList[·]?)

/-- The driver after a change of the current handle. -/
def Driver.setCurrent (d : Driver) (h : Handle) : Driver :=
  match d.ihdl with
  | none => d
  | some i => { d with handleList := d.handleList.set i h }

/-- `tpb_get_nhdl`. -/
def tpbGetNhdl : DriverM ℕ := fun d => .ok d.handleList.length d

/-- `tpb_driver_get_current_hdl_idx`, where no handle is `none` in place of `-1`. -/
def tpbDriverGetCurrentHdlIdx : DriverM (Option ℕ) := fun d => .ok d.ihdl d

/-- `tpb_driver_add_handle`. -/
def tpbDriverAddHandle (reg : Registry) (name : Bytes) : DriverM Unit := fun d =>
  match kernelToAdd reg name with
  | .error e => .error e d
  | .ok k =>
      .ok () { handleList := d.handleList ++ [Handle.ofKernel k], ihdl := some d.handleList.length }

/-- `tpb_driver_set_hdl_karg`. -/
def tpbDriverSetHdlKarg (F : Doubles) (name text : Bytes) : DriverM Unit := fun d =>
  match d.currentRthdl with
  | none => .error (.code .driver .illegalCall) d
  | some h =>
      match h.setKarg F name text with
      | .error e => .error e d
      | .ok h' => .ok () (d.setCurrent h')

/-- `tpb_driver_set_hdl_env`. -/
def tpbDriverSetHdlEnv (name value : Bytes) : DriverM Unit := fun d =>
  match d.currentRthdl with
  | none => .error (.code .driver .illegalCall) d
  | some h => .ok () (d.setCurrent (h.setEnv name value))

/-- `tpb_driver_set_hdl_wrappers_idx`. -/
def tpbDriverSetHdlWrappersIdx (idx : ℕ) (links : List WrapperLink) : DriverM Unit := fun d =>
  if d.handleList = [] then .error (.code .driver .illegalCall) d
  else
    match d.handleList[idx]? with
    | none => .error (.code .driver .kernArgFail) d
    | some h => .ok () { d with handleList := d.handleList.set idx (h.setWrappers links) }

/-- `tpb_driver_copy_hdl_from`. -/
def tpbDriverCopyHdlFrom (src : Option ℕ) : DriverM Unit := fun d =>
  match d.currentRthdl with
  | none => .error (.code .driver .illegalCall) d
  | some h =>
      match src.bind (d.handleList[·]?) with
      | none => .error (.code .driver .kernArgFail) d
      | some s => .ok () (d.setCurrent (h.copyFrom s))

/-! ### The current handle is the newest one -/

/-- The driver whose current handle is the newest one, behind the handles `hs`. -/
def Driver.onNewest (hs : List Handle) (h : Handle) : Driver := ⟨hs ++ [h], some hs.length⟩

section OnNewest

variable {hs : List Handle} {h h' : Handle}

@[simp] theorem Driver.onNewest_handleList :
    (Driver.onNewest hs h).handleList = hs ++ [h] := rfl

@[simp] theorem Driver.onNewest_ihdl : (Driver.onNewest hs h).ihdl = some hs.length := rfl

@[simp] theorem Driver.currentRthdl_onNewest : (Driver.onNewest hs h).currentRthdl = some h := by
  simp [Driver.currentRthdl]

@[simp] theorem Driver.setCurrent_onNewest :
    (Driver.onNewest hs h).setCurrent h' = Driver.onNewest hs h' := by
  simp [Driver.setCurrent, Driver.onNewest]

/-- The first handle. -/
theorem tpbDriverAddHandle_empty {reg : Registry} {name : Bytes} {k : Kernel}
    (hk : kernelToAdd reg name = .ok k) :
    tpbDriverAddHandle reg name Driver.empty = .ok () (Driver.onNewest [] (Handle.ofKernel k)) := by
  simp [tpbDriverAddHandle, hk, Driver.empty, Driver.onNewest]

/-- One more handle. -/
theorem addHandle_onNewest {reg : Registry} {name : Bytes} {k : Kernel}
    (hk : kernelToAdd reg name = .ok k) :
    tpbDriverAddHandle reg name (Driver.onNewest hs h) =
      .ok () (Driver.onNewest (hs ++ [h]) (Handle.ofKernel k)) := by
  simp [tpbDriverAddHandle, hk, Driver.onNewest]

/-- A handle is added for a kernel that is found. -/
theorem tpbDriverAddHandle_eq_ok {reg : Registry} {name : Bytes} {d d' : Driver}
    (h : tpbDriverAddHandle reg name d = .ok () d') : ∃ k, kernelToAdd reg name = .ok k := by
  simp only [tpbDriverAddHandle] at h
  split at h
  · cases h
  · rename_i k hk
    exact ⟨k, hk⟩

theorem setHdlKarg_onNewest {F : Doubles} {name text : Bytes}
    (hset : h.setKarg F name text = .ok h') :
    tpbDriverSetHdlKarg F name text (Driver.onNewest hs h) = .ok () (Driver.onNewest hs h') := by
  simp [tpbDriverSetHdlKarg, hset]

theorem setHdlKarg_onNewest_error {F : Doubles} {name text : Bytes} {e : Err}
    (hset : h.setKarg F name text = .error e) :
    tpbDriverSetHdlKarg F name text (Driver.onNewest hs h) = .error e (Driver.onNewest hs h) := by
  simp [tpbDriverSetHdlKarg, hset]

theorem setHdlEnv_onNewest (name value : Bytes) :
    tpbDriverSetHdlEnv name value (Driver.onNewest hs h) =
      .ok () (Driver.onNewest hs (h.setEnv name value)) := by
  simp [tpbDriverSetHdlEnv]

/-- The values of an earlier handle. -/
theorem copyHdlFrom_onNewest {i : ℕ} {src : Handle} (hsrc : hs[i]? = some src) :
    tpbDriverCopyHdlFrom (some i) (Driver.onNewest hs h) =
      .ok () (Driver.onNewest hs (h.copyFrom src)) := by
  have hi : i < hs.length := (List.getElem?_eq_some_iff.mp hsrc).1
  simp [tpbDriverCopyHdlFrom, List.getElem?_append_left hi, hsrc]

/-- The chain of the newest handle. -/
theorem setHdlWrappersIdx_onNewest (links : List WrapperLink) :
    tpbDriverSetHdlWrappersIdx hs.length links (Driver.onNewest hs h) =
      .ok () (Driver.onNewest hs (h.setWrappers links)) := by
  simp [tpbDriverSetHdlWrappersIdx, Driver.onNewest]

end OnNewest

/-! ### Handles of one kernel -/

section Handles

variable {F : Doubles} {h h' src : Handle} {k : Kernel} {name name' text value : Bytes}

@[simp] theorem Handle.another_wrappers :
    (Handle.another k src).wrappers = sfWrapperpackCopy src.wrappers := rfl

theorem Handle.of_ofKernel (k : Kernel) : (Handle.ofKernel k).Of k := rfl

theorem Handle.Of.setEnv (hof : h.Of k) : (h.setEnv name value).Of k := hof

theorem Handle.Of.setWrappers (hof : h.Of k) (links : List WrapperLink) :
    (h.setWrappers links).Of k := hof

/-- A handle that takes an argument: what it stores, and that nothing else changes. -/
theorem Handle.setKarg_eq_ok (hset : h.setKarg F name text = .ok h') :
    ∃ a v, h.args.find? (·.name = name) = some a ∧ a.valueOf F text = .ok v ∧
      h' = { h with args := setArgValue name v h.args } := by
  simp only [Handle.setKarg] at hset
  split at hset
  · cases hset
  · rename_i a ha
    split at hset
    · cases hset
    · rename_i v hv
      cases hset
      exact ⟨a, v, ha, hv, rfl⟩

theorem Handle.setKarg_wrappers (hset : h.setKarg F name text = .ok h') :
    h'.wrappers = h.wrappers := by
  obtain ⟨a, v, -, -, rfl⟩ := Handle.setKarg_eq_ok hset
  rfl

theorem Handle.setKarg_envs (hset : h.setKarg F name text = .ok h') : h'.envs = h.envs := by
  obtain ⟨a, v, -, -, rfl⟩ := Handle.setKarg_eq_ok hset
  rfl

/-- A new value does not change what an argument is declared as. -/
theorem map_decl_setArgValue (v : UInt64) (as : List RtArg) :
    (setArgValue name v as).map (·.decl) = as.map (·.decl) := by
  induction as with
  | nil => rfl
  | cons a as ih =>
      by_cases ha : a.name = name
      · simp [setArgValue, ha, RtArg.decl]
      · simp [setArgValue, ha, ih]

theorem Handle.Of.setKarg (hof : h.Of k) (hset : h.setKarg F name text = .ok h') : h'.Of k := by
  obtain ⟨a, v, -, -, rfl⟩ := Handle.setKarg_eq_ok hset
  exact (map_decl_setArgValue v h.args).trans hof

@[simp] theorem RtArg.decl_valueFrom (as : List RtArg) (a : RtArg) :
    (a.valueFrom as).decl = a.decl := by
  unfold RtArg.valueFrom
  split <;> rfl

theorem map_decl_copyArgValues (as bs : List RtArg) :
    (copyArgValues as bs).map (·.decl) = bs.map (·.decl) := by
  have hone : (fun a : RtArg => a.decl) ∘ RtArg.valueFrom as = fun a => a.decl :=
    funext fun a => RtArg.decl_valueFrom as a
  rw [copyArgValues, List.map_append, List.map_map, hone, ← List.map_append,
    List.take_append_drop]

/-- Another handle of a kernel is a handle of that kernel. -/
theorem Handle.of_another (k : Kernel) (src : Handle) : (Handle.another k src).Of k :=
  map_decl_copyArgValues src.args k.args

/-- The argument of a name is the one the kernel declares, up to its value. -/
theorem Handle.Of.find_decl (hof : h.Of k) (name : Bytes) :
    (h.args.find? (·.name = name)).map (·.decl) = (k.args.find? (·.name = name)).map (·.decl) := by
  have hfind : ∀ as : List RtArg, (as.find? (·.name = name)).map (·.decl) =
      (as.map (·.decl)).find? (·.name = name) := by
    intro as
    rw [List.find?_map]
    rfl
  rw [hfind, hfind, hof]

/-- Whether an argument takes a text does not depend on the value it has. -/
theorem RtArg.valueOf_congr {a b : RtArg} (h : a.decl = b.decl) (F : Doubles) (text : Bytes) :
    a.valueOf F text = b.valueOf F text := by
  have hdecl : ∀ a : RtArg, a.valueOf F text = a.decl.valueOf F text := fun a => rfl
  rw [hdecl a, hdecl b, h]

/-- **Whether a handle of a kernel takes a value** depends on the kernel only. -/
theorem Handle.Of.setKarg_eq (hof : h.Of k) (F : Doubles) (name text : Bytes) :
    h.setKarg F name text =
      match k.args.find? (·.name = name) with
      | none => .error (.code .driver .kargNeFail)
      | some a =>
          match a.valueOf F text with
          | .error e => .error e
          | .ok v => .ok { h with args := setArgValue name v h.args } := by
  have hdecl := hof.find_decl name
  rw [Handle.setKarg]
  rcases hh : h.args.find? (·.name = name) with - | a
  · rw [hh] at hdecl
    rcases hk : k.args.find? (·.name = name) with - | b
    · simp only [hh, hk]
    · rw [hk] at hdecl
      cases hdecl
  · rw [hh] at hdecl
    rcases hk : k.args.find? (·.name = name) with - | b
    · rw [hk] at hdecl
      cases hdecl
    · rw [hk] at hdecl
      simp only [hh, hk, RtArg.valueOf_congr (Option.some.inj hdecl)]

end Handles

/-! ### Strings in their arrays -/

/-- The strings of a handle are in arrays: the names of its environment entries and of its
wrappers in `TPBM_NAME_STR_MAX_LEN` bytes, the values in `TPBM_CLI_STR_MAX_LEN` bytes. -/
structure Handle.Stored (h : Handle) : Prop where
  env : ∀ e ∈ h.envs, e.1.length < nameStrMaxLen ∧ e.2.length < cliStrMaxLen
  wrapper : ∀ l ∈ h.wrappers, l.app.length < nameStrMaxLen

section Stored

variable {h : Handle} {name value : Bytes}

theorem Handle.stored_ofKernel (k : Kernel) : (Handle.ofKernel k).Stored :=
  ⟨fun _ he => absurd he List.not_mem_nil, fun _ hl => absurd hl List.not_mem_nil⟩

theorem mem_setEnvEntry {es : List (Bytes × Bytes)} {e : Bytes × Bytes}
    (h : e ∈ setEnvEntry name value es) :
    e ∈ es ∨ (e.1 = printedIn nameStrMaxLen name ∨ ∃ e' ∈ es, e.1 = e'.1) ∧
      e.2 = printedIn cliStrMaxLen value := by
  induction es with
  | nil =>
      rw [setEnvEntry, List.mem_singleton] at h
      rw [h]
      exact .inr ⟨.inl rfl, rfl⟩
  | cons e' es ih =>
      rw [setEnvEntry] at h
      split at h
      · rcases List.mem_cons.mp h with rfl | h
        · exact .inr ⟨.inr ⟨e', by simp, rfl⟩, rfl⟩
        · exact .inl (by simp [h])
      · rcases List.mem_cons.mp h with rfl | h
        · exact .inl (by simp)
        · rcases ih h with h | ⟨h | ⟨e'', he'', heq⟩, hvalue⟩
          · exact .inl (by simp [h])
          · exact .inr ⟨.inl h, hvalue⟩
          · exact .inr ⟨.inr ⟨e'', by simp [he''], heq⟩, hvalue⟩

theorem Handle.Stored.setEnv (hst : h.Stored) (name value : Bytes) :
    (h.setEnv name value).Stored := by
  constructor
  · intro e he
    rcases mem_setEnvEntry he with he | ⟨hname, hvalue⟩
    · exact hst.env e he
    · refine ⟨?_, hvalue ▸ length_printedIn_lt (by decide) value⟩
      rcases hname with hname | ⟨e', he', hname⟩
      · exact hname ▸ length_printedIn_lt (by decide) name
      · exact hname ▸ (hst.env e' he').1
  · exact hst.wrapper

theorem Handle.Stored.setWrappers (hst : h.Stored) (links : List WrapperLink) :
    (h.setWrappers links).Stored := by
  constructor
  · exact hst.env
  · intro l hl
    obtain ⟨l', -, rfl⟩ := List.mem_map.mp hl
    exact length_printedIn_lt (by decide) l'.app

theorem Handle.Stored.setKarg {F : Doubles} {h' : Handle} {text : Bytes} (hst : h.Stored)
    (hset : h.setKarg F name text = .ok h') : h'.Stored := by
  constructor
  · rw [Handle.setKarg_envs hset]
    exact hst.env
  · rw [Handle.setKarg_wrappers hset]
    exact hst.wrapper

theorem Handle.Stored.copyFrom {src : Handle} (hst : h.Stored) (hsrc : src.Stored) :
    (h.copyFrom src).Stored := by
  constructor
  · rw [Handle.copyFrom]
    split
    · exact hst.env
    · exact hsrc.env
  · intro l hl
    obtain ⟨l', -, rfl⟩ := List.mem_map.mp hl
    exact length_printedIn_lt (by decide) l'.app

/-- The handles of a driver have their strings in the arrays. -/
def Driver.Stored (d : Driver) : Prop := ∀ h ∈ d.handleList, h.Stored

theorem Driver.Stored.current {d : Driver} (hd : d.Stored) (hcur : d.currentRthdl = some h) :
    h.Stored := by
  obtain ⟨i, -, hi⟩ := Option.bind_eq_some_iff.mp hcur
  exact hd h (List.mem_of_getElem? hi)

theorem Driver.Stored.setCurrent {d : Driver} (hd : d.Stored) (hst : h.Stored) :
    (d.setCurrent h).Stored := by
  rw [Driver.setCurrent]
  split
  · exact hd
  · intro h' hmem
    rcases List.mem_or_eq_of_mem_set hmem with hmem | rfl
    · exact hd h' hmem
    · exact hst

/-- **Every call of the driver keeps the strings in their arrays.** -/
theorem stored_of_call (F : Doubles) (reg : Registry) {m : DriverM Unit} {d d' : Driver}
    (hm : (∃ kernel, m = tpbDriverAddHandle reg kernel) ∨
      (∃ name text, m = tpbDriverSetHdlKarg F name text) ∨
      (∃ name value, m = tpbDriverSetHdlEnv name value) ∨
      (∃ idx links, m = tpbDriverSetHdlWrappersIdx idx links) ∨
      ∃ src, m = tpbDriverCopyHdlFrom src)
    (hd : d.Stored) (hrun : m d = .ok () d') : d'.Stored := by
  rcases hm with ⟨kernel, rfl⟩ | ⟨name, text, rfl⟩ | ⟨name, value, rfl⟩ | ⟨idx, links, rfl⟩ |
    ⟨src, rfl⟩
  · rw [tpbDriverAddHandle] at hrun
    split at hrun
    · cases hrun
    · cases hrun
      intro h hmem
      rcases List.mem_append.mp hmem with hmem | hmem
      · exact hd h hmem
      · rw [List.mem_singleton.mp hmem]
        exact Handle.stored_ofKernel _
  · rw [tpbDriverSetHdlKarg] at hrun
    split at hrun
    · cases hrun
    · rename_i h hcur
      split at hrun
      · cases hrun
      · rename_i h' hset
        cases hrun
        exact hd.setCurrent ((hd.current hcur).setKarg hset)
  · rw [tpbDriverSetHdlEnv] at hrun
    split at hrun
    · cases hrun
    · rename_i h hcur
      cases hrun
      exact hd.setCurrent ((hd.current hcur).setEnv name value)
  · rw [tpbDriverSetHdlWrappersIdx] at hrun
    split at hrun
    · cases hrun
    · split at hrun
      · cases hrun
      · rename_i h hidx
        cases hrun
        intro h' hmem
        rcases List.mem_or_eq_of_mem_set hmem with hmem | rfl
        · exact hd h' hmem
        · exact (hd h (List.mem_of_getElem? hidx)).setWrappers links
  · rw [tpbDriverCopyHdlFrom] at hrun
    split at hrun
    · cases hrun
    · rename_i h hcur
      split at hrun
      · cases hrun
      · rename_i s hsrc
        cases hrun
        obtain ⟨i, -, hi⟩ := Option.bind_eq_some_iff.mp hsrc
        exact hd.setCurrent ((hd.current hcur).copyFrom (hd s (List.mem_of_getElem? hi)))

end Stored

end TPBench
