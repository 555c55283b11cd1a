import TPBench.Conc.Runs
import TPBench.Kernel.Register

/-!
# Names Within a Kernel

A kernel looks its arguments and outputs up by name, so a name must not be used twice among
them. `_sf_name_taken` is meant to see to that: it looks at the arguments and outputs of the
kernel that is being registered, and at the outputs of the current handle. But it answers
"free" at once when no kernel is being registered, which is the case whenever a kernel runs,
and it never looks at the arguments of the handle.

`NamesDistinct` is what a lookup by name relies on, and `NamesInv` the invariant that carries
it through a run: every registered kernel has distinct names too, since the next handle gets
them. The calls that break it are the outputs declared on a handle under a name the handle
has already and that the check lets pass (`FreshName`).

## Main results

* `RegStep.namesInv` — a step keeps the invariant unless it declares such an output;
* `RegStep.freshName` — a step that declares such an output breaks it;
* `names_distinct_iff` — the names are distinct in every state of a run exactly when no
  call of it does so.
-/

open CFile Conc

namespace TPBench

/-! ### Names -/

/-- The names of the arguments and outputs of a kernel. -/
def KernelInfo.names (k : KernelInfo) : List Bytes := k.args.map (·.name) ++ k.outs.map (·.name)

/-- The names of the arguments and outputs of a handle. -/
def Rthdl.names (h : Rthdl) : List Bytes := h.args.map (·.name) ++ h.outputs.map (·.name)

/-- The registered kernels have distinct names, and so have the arguments and outputs of the
kernel that is being registered and those of the current handle. -/
structure NamesDistinct (d : PliDriver) : Prop where
  kernels : (d.kernelAll.map (·.name)).Nodup
  current : ∀ k ∈ d.currentKernel, k.names.Nodup
  handle : ∀ h ∈ d.currentRthdl, h.names.Nodup

/-- The invariant of the calls. -/
structure NamesInv (d : PliDriver) : Prop extends NamesDistinct d where
  registered : ∀ k ∈ d.kernelAll, k.names.Nodup
  unused : ∀ k ∈ d.currentKernel, k.name ∉ d.kernelAll.map (·.name)

/-- The checks of `tpb_k_add_output` let a name and its tags pass. -/
def OutputPasses (d : PliDriver) (name tag : Bytes) : Prop :=
  sfValidateHeaderName name = true ∧ sfNameTaken d name = false ∧
    sfFinalizeRoleTags nameStrMaxLen tag tpbTagOutput ≠ none

/-- A call does not declare an output under a name of the current handle, unless it is
turned away. -/
def FreshName (d : PliDriver) : RegCall → Prop
  | .addOutput name tag _ _ _ => OutputPasses d name tag → ∀ h ∈ d.currentRthdl, name ∉ h.names
  | _ => True

theorem namesInv_empty : NamesInv PliDriver.empty where
  kernels := List.nodup_nil
  current := by simp [PliDriver.empty]
  handle := by simp [PliDriver.empty]
  registered := by simp [PliDriver.empty]
  unused := by simp [PliDriver.empty]

/-! ### What a call adds -/

section Added

variable {F : Floats} {timer : Timer}

/-- A name that is accepted fits its field. -/
theorem printedIn_of_valid {name : Bytes} (h : sfValidateHeaderName name = true) :
    printedIn nameStrMaxLen name = name := by
  simp only [sfValidateHeaderName, decide_eq_true_eq] at h
  refine printedIn_of_lt ?_
  have hlen : name.length ≤ 255 := h.2.1
  simp only [nameStrMaxLen]
  omega

/-- A name that is accepted is not empty. -/
theorem length_of_valid {name : Bytes} (h : sfValidateHeaderName name = true) :
    name ≠ [] ∧ name.length < nameStrMaxLen := by
  simp only [sfValidateHeaderName, decide_eq_true_eq] at h
  have hlen : name.length ≤ 255 := h.2.1
  exact ⟨h.1, by simp only [nameStrMaxLen]; omega⟩

theorem newArg_name {name tag note dflt : Bytes} {dtype : UInt32} {va : List UInt64}
    {a : ArgInfo} (h : newArg F timer name tag note dflt dtype va = .ok a) :
    a.name = printedIn nameStrMaxLen name := by
  rw [newArg] at h
  split at h
  · cases h
  · split at h
    · cases h
    · split at h
      · cases h
      · cases h
        rfl

@[simp] theorem ArgInfo.apply_name (a : ArgInfo) (w : Bytes) : (a.apply F w).name = a.name := by
  rw [ArgInfo.apply]
  split
  · rfl
  · split
    · rfl
    · rfl

theorem applyArgv_names (as : List ArgInfo) (ws : List Bytes) :
    (applyArgv F as ws).map (·.name) = as.map (·.name) := by
  induction as generalizing ws with
  | nil => rw [applyArgv]
  | cons a as ih =>
      cases ws with
      | nil => rw [applyArgv]; simp
      | cons w ws => simp [applyArgv, ih]

/-- A handle has the names of its kernel. -/
theorem Rthdl.build_names (k : KernelInfo) (argv : List Bytes) :
    (Rthdl.build F timer k argv).names = k.names := by
  simp [Rthdl.names, Rthdl.build, KernelInfo.names, applyArgv_names, Function.comp_def,
    KOutput.forHandle]

theorem KernelInfo.withArg_names_perm (k : KernelInfo) (a : ArgInfo) :
    (k.withArg a).names.Perm (a.name :: k.names) := by
  simp only [KernelInfo.names, KernelInfo.withArg, List.map_append, List.map_cons, List.map_nil,
    List.append_assoc, List.singleton_append]
  exact List.perm_middle

theorem KernelInfo.withOutput_names_perm (k : KernelInfo) (o : KOutput) :
    (k.withOutput o).names.Perm (o.name :: k.names) := by
  simp only [KernelInfo.names, KernelInfo.withOutput, List.map_append, List.map_cons,
    List.map_nil, ← List.append_assoc]
  exact List.perm_append_singleton _ _

theorem Rthdl.withOutput_names_perm (h : Rthdl) (o : KOutput) :
    (h.withOutput o).names.Perm (o.name :: h.names) := by
  simp only [Rthdl.names, Rthdl.withOutput, List.map_append, List.map_cons, List.map_nil,
    ← List.append_assoc]
  exact List.perm_append_singleton _ _

/-- A name that is free is not one of the kernel that is being registered. -/
theorem not_mem_names_of_free {d : PliDriver} {k : KernelInfo} {name : Bytes}
    (hk : d.currentKernel = some k) (hfree : sfNameTaken d name = false) : name ∉ k.names := by
  simp only [sfNameTaken, hk, decide_eq_false_iff_not, not_or] at hfree
  rw [KernelInfo.names, List.mem_append, not_or]
  exact ⟨hfree.1, hfree.2.1⟩

end Added

/-! ### One step -/

section Step

variable {F : Floats} {timer : Timer} {d d' : PliDriver} {c : RegCall}

/-- The names with one more name in front are distinct exactly when it is new. -/
theorem nodup_iff_of_perm {names names' : List Bytes} {name : Bytes}
    (hperm : names'.Perm (name :: names)) (hnodup : names.Nodup) :
    names'.Nodup ↔ name ∉ names := by
  rw [hperm.nodup_iff, List.nodup_cons]
  exact and_iff_left hnodup

/-- **The rule of the kernels**: what holds of a kernel that has a name only, and of a kernel with
an argument or an output more, stays true of all kernels at every call. -/
theorem RegStep.forall_kernels {P : KernelInfo → Prop}
    (hnew : ∀ name note kctrl, c = .register name note kctrl → name.length < nameStrMaxLen →
      P ⟨name, note, kctrl, [], []⟩)
    (harg : ∀ name tag note dflt dtype va k a, c = .addArg name tag note dflt dtype va →
      newArg F timer name tag note dflt dtype va = .ok a → sfValidateHeaderName name = true →
      a.name = name → a.name ∉ k.names → P k → P (k.withArg a))
    (hout : ∀ name tag note dtype unit k o, c = .addOutput name tag note dtype unit →
      sfValidateHeaderName o.name = true → o.name = name → o.name ∉ k.names → P k →
      P (k.withOutput o))
    (hinv : (∀ k ∈ d.kernelAll, P k) ∧ ∀ k ∈ d.currentKernel, P k)
    (h : RegStep F timer d c d') :
    (∀ k ∈ d'.kernelAll, P k) ∧ ∀ k ∈ d'.currentKernel, P k := by
  obtain ⟨hall, hcur⟩ := hinv
  cases h with
  | error herr => exact regCall_error herr ▸ ⟨hall, hcur⟩
  | ok hok =>
      cases c with
      | register name note kctrl =>
          obtain ⟨-, hname, -, rfl⟩ := tpbKRegister_ok_iff.mp hok
          refine ⟨hall, ?_⟩
          rintro k ⟨⟩
          exact hnew name note kctrl rfl hname
      | addArg name tag note dflt dtype va =>
          obtain ⟨k, a, hk, -, hvalid, hfree, ha, rfl⟩ := tpbKAddArg_ok_iff.mp hok
          have hname : a.name = name := (newArg_name ha).trans (printedIn_of_valid hvalid)
          refine ⟨hall, ?_⟩
          rintro k' ⟨⟩
          exact harg _ _ _ _ _ _ k a rfl ha hvalid hname
            (hname ▸ not_mem_names_of_free hk hfree) (hcur k hk)
      | addOutput name tag note dtype unit =>
          obtain ⟨tags, hvalid, hfree, -, hadd⟩ := tpbKAddOutput_ok_iff.mp hok
          have hname : (newOutput name tags note dtype unit).name = name :=
            printedIn_of_valid hvalid
          rw [addOutputTo] at hadd
          split at hadd
          · -- the output goes to the handle
            cases hadd
            exact ⟨hall, hcur⟩
          · split at hadd
            · rename_i k hk
              cases hadd
              refine ⟨hall, ?_⟩
              rintro k' ⟨⟩
              exact hout _ _ _ _ _ k _ rfl (hname.symm ▸ hvalid) hname
                (hname.symm ▸ not_mem_names_of_free hk hfree) (hcur k hk)
            · cases hadd
      | finalizePli =>
          obtain ⟨k, hk, rfl⟩ := tpbKFinalizePli_ok_iff.mp hok
          refine ⟨fun k' hk' => ?_, by rintro k' ⟨⟩⟩
          rcases List.mem_append.mp hk' with hk' | hk'
          · exact hall k' hk'
          · rw [List.mem_singleton.mp hk']
            exact hcur k hk
      | buildHandle argv =>
          obtain ⟨k, -, rfl⟩ := tpbKPliBuildHandle_ok_iff.mp hok
          exact ⟨hall, hcur⟩

theorem namesInv_register (hinv : NamesInv d) {name note : Bytes} {kctrl : UInt32}
    (h : tpbKRegister name note kctrl d = .ok () d') : NamesInv d' := by
  obtain ⟨hnew, -, -, rfl⟩ := tpbKRegister_ok_iff.mp h
  refine ⟨⟨hinv.kernels, ?_, hinv.handle⟩, hinv.registered, ?_⟩
  · rintro k ⟨⟩
    exact List.nodup_nil
  · rintro k ⟨⟩
    exact hnew

theorem namesInv_addArg (hinv : NamesInv d) {name tag note dflt : Bytes} {dtype : UInt32}
    {va : List UInt64} (h : tpbKAddArg F timer name tag note dflt dtype va d = .ok () d') :
    NamesInv d' := by
  obtain ⟨k, a, hk, hhdl, hvalid, hfree, ha, rfl⟩ := tpbKAddArg_ok_iff.mp h
  have hname : a.name = name := (newArg_name ha).trans (printedIn_of_valid hvalid)
  refine ⟨⟨hinv.kernels, ?_, hinv.handle⟩, hinv.registered, ?_⟩
  · rintro k' ⟨⟩
    refine (nodup_iff_of_perm (k.withArg_names_perm a) (hinv.current k hk)).mpr ?_
    rw [hname]
    exact not_mem_names_of_free hk hfree
  · rintro k' ⟨⟩
    exact hinv.unused k hk

/-- An output that is declared on the kernel that is being registered has a new name. One
that is declared on the handle has a new name exactly when the call is as it should be. -/
theorem namesInv_addOutput (hinv : NamesInv d) {name tag note : Bytes} {dtype : UInt32}
    {unit : UInt64} (h : tpbKAddOutput name tag note dtype unit d = .ok () d') :
    (FreshName d (.addOutput name tag note dtype unit) → NamesInv d') ∧
      (NamesDistinct d' → FreshName d (.addOutput name tag note dtype unit)) := by
  obtain ⟨tags, hvalid, hfree, htags, hadd⟩ := tpbKAddOutput_ok_iff.mp h
  have hname : (newOutput name tags note dtype unit).name = name := printedIn_of_valid hvalid
  rw [addOutputTo] at hadd
  split at hadd
  · rename_i hd hhdl
    cases hadd
    have hiff := nodup_iff_of_perm (hd.withOutput_names_perm (newOutput name tags note dtype unit))
      (hinv.handle hd hhdl)
    rw [hname] at hiff
    constructor
    · intro hfresh
      refine ⟨⟨hinv.kernels, hinv.current, ?_⟩, hinv.registered, hinv.unused⟩
      rintro h' ⟨⟩
      refine hiff.mpr fun hmem => ?_
      exact hfresh ⟨hvalid, hfree, by simp [htags]⟩ hd hhdl hmem
    · rintro hdistinct - h' hh'
      obtain rfl : hd = h' := Option.some.inj (hhdl.symm.trans hh')
      exact hiff.mp (hdistinct.handle _ rfl)
  · rename_i hhdl
    split at hadd
    · rename_i k hk
      cases hadd
      refine ⟨fun _ => ⟨⟨hinv.kernels, ?_, hinv.handle⟩, hinv.registered, ?_⟩, fun _ => ?_⟩
      · rintro k' ⟨⟩
        refine (nodup_iff_of_perm (k.withOutput_names_perm _) (hinv.current k hk)).mpr ?_
        rw [hname]
        exact not_mem_names_of_free hk hfree
      · rintro k' ⟨⟩
        exact hinv.unused k hk
      · rintro - h' hh'
        rw [hhdl] at hh'
        cases hh'
    · cases hadd

theorem namesInv_finalize (hinv : NamesInv d) (h : tpbKFinalizePli d = .ok () d') :
    NamesInv d' := by
  obtain ⟨k, hk, rfl⟩ := tpbKFinalizePli_ok_iff.mp h
  refine ⟨⟨?_, ?_, hinv.handle⟩, ?_, ?_⟩
  · rw [List.map_append, List.map_singleton, List.nodup_append]
    refine ⟨hinv.kernels, List.nodup_singleton _, ?_⟩
    rintro x hx y hy rfl
    rw [List.mem_singleton] at hy
    exact hinv.unused k hk (hy ▸ hx)
  · rintro k' ⟨⟩
  · intro k' hk'
    rcases List.mem_append.mp hk' with hmem | hmem
    · exact hinv.registered k' hmem
    · obtain rfl := List.mem_singleton.mp hmem
      exact hinv.current k' hk
  · rintro k' ⟨⟩

theorem namesInv_buildHandle (hinv : NamesInv d) {argv : List Bytes}
    (h : tpbKPliBuildHandle F timer argv d = .ok () d') : NamesInv d' := by
  obtain ⟨k, hk, rfl⟩ := tpbKPliBuildHandle_ok_iff.mp h
  refine ⟨⟨hinv.kernels, hinv.current, ?_⟩, hinv.registered, hinv.unused⟩
  rintro h' ⟨⟩
  rw [Rthdl.build_names]
  exact hinv.registered k (List.mem_of_getLast? hk)

/-- **The step lemma**: a call keeps the invariant, unless it declares an output under a name
the handle has. -/
theorem RegStep.namesInv (hinv : NamesInv d) (h : RegStep F timer d c d')
    (hfresh : FreshName d c) : NamesInv d' := by
  cases h with
  | error herr => exact regCall_error herr ▸ hinv
  | ok hok =>
      cases c with
      | register name note kctrl => exact namesInv_register hinv hok
      | addArg name tag note dflt dtype va => exact namesInv_addArg hinv hok
      | addOutput name tag note dtype unit => exact (namesInv_addOutput hinv hok).1 hfresh
      | finalizePli => exact namesInv_finalize hinv hok
      | buildHandle argv => exact namesInv_buildHandle hinv hok

/-- A call after which the names are distinct did not declare an output under a name the
handle has. -/
theorem RegStep.freshName (hinv : NamesInv d) (h : RegStep F timer d c d')
    (hdistinct : NamesDistinct d') : FreshName d c := by
  cases c with
  | addOutput name tag note dtype unit =>
      cases h with
      | ok hok => exact (namesInv_addOutput hinv hok).2 hdistinct
      | error herr =>
          rintro ⟨hvalid, hfree, htags⟩ h' hh' -
          obtain ⟨tags, htags⟩ := Option.ne_none_iff_exists'.mp htags
          have hhdl : d.currentRthdl = some h' := hh'
          simp [RegCall.run, tpbKAddOutput, hvalid, hfree, htags, addOutputTo, hhdl] at herr
  | register name note kctrl => trivial
  | addArg name tag note dflt dtype va => trivial
  | finalizePli => trivial
  | buildHandle argv => trivial

end Step

/-! ### Runs -/

section Runs

variable {F : Floats} {timer : Timer} {t : List RegCall} {d : PliDriver}

/-- The names are distinct in every state a run passes through. -/
def DistinctThroughout (F : Floats) (timer : Timer) (t : List RegCall) : Prop :=
  ∀ t' d', t' <+: t → Run (RegStep F timer) PliDriver.empty t' d' → NamesDistinct d'

/-- No call of a run declares an output under a name the handle has. -/
def FreshThroughout (F : Floats) (timer : Timer) (t : List RegCall) : Prop :=
  ∀ t' c d', t' ++ [c] <+: t → Run (RegStep F timer) PliDriver.empty t' d' → FreshName d' c

/-- Along a run whose calls are fresh, the invariant holds, and along a run whose names are
distinct, the calls are fresh. -/
theorem namesInv_run (h : Run (RegStep F timer) PliDriver.empty t d) :
    (FreshThroughout F timer t → NamesInv d) ∧
      (DistinctThroughout F timer t → FreshThroughout F timer t) := by
  have hdet : ∀ s c s' s'', RegStep F timer s c s' → RegStep F timer s c s'' → s' = s'' :=
    fun _ _ _ _ h₁ h₂ => h₁.unique h₂
  induction h with
  | nil =>
      refine ⟨fun _ => namesInv_empty, ?_⟩
      rintro - t' c d' hpre -
      exact absurd (List.prefix_nil.mp hpre) (by simp)
  | @snoc t d d' c hrun hstep ih =>
      have hmono : FreshThroughout F timer (t ++ [c]) → FreshThroughout F timer t :=
        fun hfresh t' c' d₁ hpre => hfresh t' c' d₁ (hpre.trans (List.prefix_append _ _))
      constructor
      · intro hfresh
        exact hstep.namesInv (ih.1 (hmono hfresh)) (hfresh t c d List.prefix_rfl hrun)
      · rintro hdistinct t' c' d₁ hpre hrun'
        have hfresh : FreshThroughout F timer t := ih.2 fun t' d' hpre' =>
          hdistinct t' d' (hpre'.trans (List.prefix_append _ _))
        rcases List.prefix_concat_iff.mp hpre with heq | hpre'
        · obtain ⟨rfl, hc⟩ := List.append_inj' heq rfl
          obtain rfl : c' = c := List.head_eq_of_cons_eq hc
          obtain rfl := hrun.unique hdet hrun'
          exact hstep.freshName (ih.1 hfresh) (hdistinct _ _ List.prefix_rfl (hrun.snoc hstep))
        · exact hfresh t' c' d₁ hpre' hrun'

/-- **Distinct names.** In every state of a run the registered kernels, the arguments and
outputs of the kernel that is being registered and those of the current handle have distinct
names, exactly when no call declares an output under a name the current handle has. -/
theorem names_distinct_iff (h : Run (RegStep F timer) PliDriver.empty t d) :
    DistinctThroughout F timer t ↔ FreshThroughout F timer t := by
  refine ⟨(namesInv_run h).2, ?_⟩
  rintro hfresh t' d' hpre hrun
  refine ((namesInv_run hrun).1 ?_).toNamesDistinct
  rintro t'' c d'' hpre'
  exact hfresh t'' c d'' (hpre'.trans hpre)

end Runs

/-! ### An output that is declared twice -/

/-- Floating-point operations for kernels without floating-point arguments. -/
def noFloats : Floats where
  strtod := fun s => (0, s)
  lt := fun _ _ => false
  lt32 := fun _ _ => false
  eq := fun _ _ => false
  add := fun _ _ => 0
  sub := fun _ _ => 0
  mul := fun _ _ => 0
  div := fun _ _ => 0
  pow := fun _ _ => 0
  toI64 := fun _ => none
  ofI64 := fun _ => 0
  printG15 := fun _ => []
  toF32 := fun _ => 0

/-- A timer that counts nanoseconds. -/
def nsTimer : Timer := ⟨ascii ['n', 's'], 0x0000101100000000, typeInt64⟩

/-- A kernel with an argument `n` that runs and declares an output `t`. -/
def declaringRun : List RegCall :=
  [.register (ascii ['k']) [] 2, .addArg (ascii ['n']) [] [] (ascii ['1']) typeInt64 [],
    .finalizePli, .buildHandle [], .addOutput (ascii ['t']) [] [] typeInt64 0]

/-- The driver after calls that succeed. -/
def driverAfter (F : Floats) (timer : Timer) : List RegCall → PliDriver → Option PliDriver
  | [], d => some d
  | c :: t, d =>
      match c.run F timer d with
      | .ok () d' => driverAfter F timer t d'
      | .error _ _ => none

/-- Calls that succeed make a run. -/
theorem run_of_driverAfter {F : Floats} {timer : Timer} {t : List RegCall} {d d' : PliDriver}
    (h : driverAfter F timer t d = some d') : Run (RegStep F timer) d t d' := by
  induction t generalizing d with
  | nil =>
      cases h
      exact .nil
  | cons c t ih =>
      rw [driverAfter] at h
      split at h
      · rename_i d₁ hok
        exact Run.trans (.snoc .nil (.ok hok)) (ih h)
      · cases h

/-- The names of the current handle after calls that succeed. -/
def handleNamesAfter (t : List RegCall) : Option (List Bytes) :=
  (driverAfter noFloats nsTimer t PliDriver.empty).bind fun d => d.currentRthdl.map (·.names)

/-- **An output is declared twice**, and also an output with the name of an argument. -/
theorem output_declared_twice :
    ∃ d, Run (RegStep noFloats nsTimer) PliDriver.empty
        (declaringRun ++ [.addOutput (ascii ['t']) [] [] typeInt64 0,
          .addOutput (ascii ['n']) [] [] typeInt64 0]) d ∧
      ¬NamesDistinct d := by
  have hnames : handleNamesAfter (declaringRun ++ [.addOutput (ascii ['t']) [] [] typeInt64 0,
      .addOutput (ascii ['n']) [] [] typeInt64 0]) =
        some [ascii ['n'], ascii ['t'], ascii ['t'], ascii ['n']] := by decide +kernel
  obtain ⟨d, hd, hmap⟩ := Option.bind_eq_some_iff.mp hnames
  obtain ⟨h, hh, hnames⟩ := Option.map_eq_some_iff.mp hmap
  refine ⟨d, run_of_driverAfter hd, fun hdistinct => ?_⟩
  have hnodup := hdistinct.handle h hh
  rw [hnames] at hnodup
  revert hnodup
  decide

/-- An output with a name of its own. -/
theorem names_distinct_iff_once :
    DistinctThroughout noFloats nsTimer declaringRun ↔
      FreshThroughout noFloats nsTimer declaringRun := by
  have hdef : (driverAfter noFloats nsTimer declaringRun PliDriver.empty).isSome = true := by
    decide +kernel
  obtain ⟨d, hd⟩ := Option.isSome_iff_exists.mp hdef
  exact names_distinct_iff (run_of_driverAfter hd)

end TPBench
