import TPBench.Kernel.Names

/-!
# Registered Kernels Are Sound

What `tpb_k_add_arg` and `tpb_k_add_output` let pass holds of every kernel that was ever
registered: the names of its arguments and outputs are distinct and spelled as names may be,
and each argument has a type that is supported and two limits if it has a range
(`KernelInfo.Sound`). A call adds to the kernel that is being registered only, and a
registered kernel does not change again, so this needs no condition on the calls
(`sound_of_run`). It is different for the handle of a running kernel, which
`TPBench.Kernel.Names` is about.
-/

open CFile Conc

namespace TPBench

/-- The types `tpb_k_add_arg` has a default value for. -/
def IsArgType (t : UInt32) : Prop :=
  isIntType t = true ∨ isUintType t = true ∨ t = typeFloat ∨ t = typeDouble ∨ t = typeChar

/-- What holds of an argument that was let pass. -/
structure ArgInfo.Sound (a : ArgInfo) : Prop where
  name : sfValidateHeaderName a.name = true
  type : IsArgType a.typeCode
  range : a.ctrlbits &&& parmCheckMask = parmRange → ∃ lo hi, a.plims = [lo, hi]

/-- What holds of a kernel whose arguments and outputs were let pass. -/
structure KernelInfo.Sound (k : KernelInfo) : Prop where
  names : k.names.Nodup
  arg : ∀ a ∈ k.args, a.Sound
  out : ∀ o ∈ k.outs, sfValidateHeaderName o.name = true

/-- Every kernel of the driver is sound, also the one that is being registered. -/
def SoundKernels (d : PliDriver) : Prop :=
  (∀ k ∈ d.kernelAll, k.Sound) ∧ ∀ k ∈ d.currentKernel, k.Sound

section Added

variable {F : Floats} {timer : Timer} {a : ArgInfo}

/-- The bits of the type are not among the bits of the check. -/
theorem typeMask_disjoint (i : ℕ) (h : parmCheckMask.toBitVec.getLsbD i = true) :
    parmTypeMask.toBitVec.getLsbD i = false := by
  have hall : ∀ j : Fin 32, parmCheckMask.toBitVec.getLsbD j = true →
      parmTypeMask.toBitVec.getLsbD j = false := by decide
  rcases Nat.lt_or_ge i 32 with hi | hi
  · exact hall ⟨i, hi⟩ h
  · exact BitVec.getLsbD_of_ge _ _ hi

/-- The type of the timer leaves the check of an argument as it is. -/
theorem argCtrlbits_checkMask (timer : Timer) (dtype : UInt32) :
    argCtrlbits timer dtype &&& parmCheckMask = dtype &&& parmCheckMask := by
  rw [argCtrlbits]
  split_ifs with htimer
  · refine UInt32.eq_of_toBitVec_eq (BitVec.eq_of_getLsbD_eq fun i hi => ?_)
    simp only [UInt32.toBitVec_and, UInt32.toBitVec_or, UInt32.toBitVec_not, BitVec.getLsbD_and,
      BitVec.getLsbD_or, BitVec.getLsbD_not, hi, decide_true, Bool.true_and]
    rcases hmask : parmCheckMask.toBitVec.getLsbD i with - | -
    · simp
    · simp [typeMask_disjoint i hmask]
  · rfl

theorem isArgType_of_defaultValue {t : UInt32} {text : Bytes} {v : UInt64}
    (h : defaultValue F t text = some v) : IsArgType t := by
  rw [defaultValue] at h
  split_ifs at h with hint huint hfloat hdouble hchar
  · exact .inl hint
  · exact .inr (.inl huint)
  · exact .inr (.inr (.inl hfloat))
  · exact .inr (.inr (.inr (.inl hdouble)))
  · exact .inr (.inr (.inr (.inr hchar)))

/-- A range has two limits. -/
theorem argLimits_range {t dtype : UInt32} {va lims : List UInt64}
    (hrange : dtype &&& parmCheckMask = parmRange) (h : argLimits F t dtype va = .ok lims) :
    ∃ lo hi, lims = [lo, hi] := by
  rw [argLimits.eq_def, if_pos hrange] at h
  rcases va with - | ⟨lo, - | ⟨hi, - | ⟨w, ws⟩⟩⟩
  · cases h
  · cases h
  · dsimp only at h
    split_ifs at h
    cases h
    exact ⟨_, _, rfl⟩
  · cases h

/-- An argument that is let pass is sound. -/
theorem sound_newArg {name tag note dflt : Bytes} {dtype : UInt32} {va : List UInt64}
    (hvalid : sfValidateHeaderName name = true)
    (h : newArg F timer name tag note dflt dtype va = .ok a) : a.Sound := by
  have hname := (newArg_name h).trans (printedIn_of_valid hvalid)
  rw [newArg] at h
  split at h
  · cases h
  · split at h
    · cases h
    · rename_i v hv
      split at h
      · cases h
      · rename_i lims hlims
        cases h
        refine ⟨?_, isArgType_of_defaultValue hv, fun hrange => ?_⟩
        · rw [hname]
          exact hvalid
        · rw [argCtrlbits_checkMask] at hrange
          exact argLimits_range hrange hlims

theorem KernelInfo.Sound.withArg {k : KernelInfo} (hk : k.Sound) (ha : a.Sound)
    (hnew : a.name ∉ k.names) : (k.withArg a).Sound := by
  refine ⟨(nodup_iff_of_perm (k.withArg_names_perm a) hk.names).mpr hnew, ?_, hk.out⟩
  intro b hb
  rcases List.mem_append.mp hb with hb | hb
  · exact hk.arg b hb
  · rw [List.mem_singleton.mp hb]
    exact ha

theorem KernelInfo.Sound.withOutput {k : KernelInfo} {o : KOutput} (hk : k.Sound)
    (ho : sfValidateHeaderName o.name = true) (hnew : o.name ∉ k.names) :
    (k.withOutput o).Sound := by
  refine ⟨(nodup_iff_of_perm (k.withOutput_names_perm o) hk.names).mpr hnew, hk.arg, ?_⟩
  intro o' ho'
  rcases List.mem_append.mp ho' with ho' | ho'
  · exact hk.out o' ho'
  · rw [List.mem_singleton.mp ho']
    exact ho

end Added

section Steps

variable {F : Floats} {timer : Timer} {d d' : PliDriver} {c : RegCall} {t : List RegCall}

/-- **The step lemma**: a call keeps the kernels sound. -/
theorem RegStep.sound (hinv : SoundKernels d) (h : RegStep F timer d c d') :
    SoundKernels d' := by
  refine h.forall_kernels ?_ ?_ ?_ hinv
  · intro name note kctrl _ _
    exact ⟨List.nodup_nil, by simp, by simp⟩
  · intro name tag note dflt dtype va k a _ ha hvalid _ hnew hk
    exact hk.withArg (sound_newArg hvalid ha) hnew
  · intro name tag note dtype unit k o _ hvalid _ hnew hk
    exact hk.withOutput hvalid hnew

/-- **Registered kernels are sound**, whatever calls there were. -/
theorem sound_of_run (h : Run (RegStep F timer) PliDriver.empty t d) : SoundKernels d := by
  have hinit : SoundKernels PliDriver.empty :=
    ⟨fun k hk => absurd hk List.not_mem_nil, by rintro k ⟨⟩⟩
  exact h.invariant (P := fun _ d => SoundKernels d) hinit fun _ _ _ _ hs hstep => hstep.sound hs

end Steps

end TPBench
