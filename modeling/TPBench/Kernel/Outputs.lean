import TPBench.Conc.Progs
import TPBench.Kernel.Register
import TPBench.Task.ExportData

/-!
# Allocating Outputs

While it runs, a kernel asks the driver for the memory of its outputs (`tpb_k_alloc_output`).
An output is found by its name, and the number of elements the kernel asks for, a
`uint64_t`, is stored in it as an `int`.

A call comes with what `malloc` does for it: the block it returns is given by the bytes the
kernel will have written there when its record is made. What the calls amount to is said
without the state of the driver: for each output, the last call that reaches it decides
(`lastAlloc`), and `Asked` is what that call asked for and got.

## Main results

* `forall₂_afterAllocs` — after any calls, every output holds the block it was last given, and
  the count of it cut to an `int`;
* `unallocated_run` — before the first of these calls, no output of the handle has a block,
  and every argument has a type of at most eight bytes.
-/

open CFile Conc

namespace TPBench

/-! ### The call -/

/-- A call of `tpb_k_alloc_output`, with the blocks `malloc` would return for a size. -/
structure AllocCall where
  name : Bytes
  n : UInt64
  malloc : UInt64 → Option Bytes
  length_malloc : ∀ size b, malloc size = some b → b.length = size.toNat

/-- `TPB_UNAME_MASK`. -/
def tpbUnameMask : UInt64 := 0x0000FFF000000000

/-- `TPB_UNAME_TIMERTIME`. -/
def tpbUnameTimertime : UInt64 := 0x0000105000000000

/-- The first loop of `tpb_k_alloc_output`, on one output. -/
def KOutput.resolveUnit (timer : Timer) (o : KOutput) : KOutput :=
  { o with unit := if o.unit &&& tpbUnameMask = tpbUnameTimertime then timer.unit else o.unit }

/-- An output with a block and a number of elements, which is cut to an `int`. -/
def KOutput.withBlock (o : KOutput) (n : UInt64) (b : Bytes) : KOutput :=
  { o with p := some b, n := n.toUInt32.toInt32 }

/-- The body of the second loop, on the output that has the name. -/
def KOutput.alloc (c : AllocCall) (o : KOutput) : Except Err Unit × KOutput :=
  match tpbDtypeElemSize o.dtype with
  | none => (.error (.code .driver .listNotFound), o)
  | some esz =>
      match c.malloc (c.n * UInt64.ofNat esz) with
      | none => (.error (.code .driver .mallocFail), { o with p := none })
      | some b => (.ok (), o.withBlock c.n b)

/-- The second loop of `tpb_k_alloc_output`. -/
def allocFirst (c : AllocCall) : List KOutput → Except Err Unit × List KOutput
  | [] => (.error (.code .driver .listNotFound), [])
  | o :: os =>
      if o.name = c.name then ((o.alloc c).1, (o.alloc c).2 :: os)
      else ((allocFirst c os).1, o :: (allocFirst c os).2)

/-- The two loops of `tpb_k_alloc_output` on the outputs of a handle. -/
def allocLoops (timer : Timer) (c : AllocCall) (os : List KOutput) :
    Except Err Unit × List KOutput :=
  allocFirst c (os.map (KOutput.resolveUnit timer))

/-- A handle after a call of `tpb_k_alloc_output`, whether it succeeded or not. -/
def Rthdl.afterAlloc (timer : Timer) (h : Rthdl) (c : AllocCall) : Rthdl :=
  { h with outputs := (allocLoops timer c h.outputs).2 }

/-- `tpb_k_alloc_output`. -/
def tpbKAllocOutput (timer : Timer) (c : AllocCall) : PliM Unit := fun d =>
  match d.currentRthdl with
  | none => .error (.code .driver .nullptrArg) d
  | some h =>
      match (allocLoops timer c h.outputs).1 with
      | .error e => .error e { d with currentRthdl := some (h.afterAlloc timer c) }
      | .ok () => .ok () { d with currentRthdl := some (h.afterAlloc timer c) }

/-- A handle after a sequence of calls. -/
def Rthdl.afterAllocs (timer : Timer) (h : Rthdl) (calls : List AllocCall) : Rthdl :=
  calls.foldl (Rthdl.afterAlloc timer) h

/-- The calls change the outputs of the handle, and nothing else of the driver. -/
theorem tpbKAllocOutput_calls (timer : Timer) (calls : List AllocCall) {d : PliDriver} {h : Rthdl}
    (hh : d.currentRthdl = some h) :
    calls.foldl (fun d c => Conc.after (tpbKAllocOutput timer c d)) d =
      { d with currentRthdl := some (h.afterAllocs timer calls) } := by
  induction calls generalizing d h with
  | nil => rw [Rthdl.afterAllocs, List.foldl_nil, List.foldl_nil, ← hh]
  | cons c calls ih =>
      have hcall : Conc.after (tpbKAllocOutput timer c d) =
          { d with currentRthdl := some (h.afterAlloc timer c) } := by
        simp only [tpbKAllocOutput, hh]
        cases (allocLoops timer c h.outputs).1 <;> rfl
      rw [List.foldl_cons, hcall, ih rfl]
      rfl

/-! ### What the calls amount to -/

/-- What a kernel has for an output: the number of elements it asked for, their size, and
the block it got. -/
structure Asked where
  n : UInt64
  esz : ℕ
  block : Bytes

/-- What a call gets for an output. -/
def askedOf (o : KOutput) (c : AllocCall) : Option Asked :=
  (tpbDtypeElemSize o.dtype).bind fun esz =>
    (c.malloc (c.n * UInt64.ofNat esz)).map fun b => ⟨c.n, esz, b⟩

/-- The last of the calls that reaches the output at index `i`, the first one of its name,
unless the output has a type without a size. -/
def lastAlloc (outs : List KOutput) (calls : List AllocCall) (i : ℕ) : Option AllocCall :=
  calls.reverse.find? fun c => outs.findIdx? (·.name = c.name) = some i

/-- What a kernel has for each of its outputs after a sequence of calls. -/
def askedAfter (outs : List KOutput) (calls : List AllocCall) : List (Option Asked) :=
  outs.zipIdx.map fun p => (lastAlloc outs calls p.2).bind (askedOf p.1)

/-- The outputs with elements, in order. -/
def writtenOutputs (outs : List KOutput) (calls : List AllocCall) : List Asked :=
  (askedAfter outs calls).filterMap fun a => a.filter (·.n ≠ 0)

/-- An output holds what was asked for. -/
structure KOutput.Holds (o : KOutput) (a : Option Asked) : Prop where
  p_eq : o.p = a.map (·.block)
  n_eq : ∀ x ∈ a, o.n = x.n.toUInt32.toInt32
  esz_eq : ∀ x ∈ a, tpbDtypeElemSize o.dtype = some x.esz
  length_block : ∀ x ∈ a, x.block.length = (x.n * UInt64.ofNat x.esz).toNat

section Alloc

variable {timer : Timer} {c : AllocCall} {calls : List AllocCall} {os outs : List KOutput}
  {h : Rthdl}

/-- An output before any call. -/
theorem KOutput.holds_none {o : KOutput} (hp : o.p = none) : o.Holds none where
  p_eq := hp
  n_eq := by simp
  esz_eq := by simp
  length_block := by simp

/-- A call leaves what it gets in the output it reaches. -/
theorem KOutput.Holds.alloc {o : KOutput} {a : Option Asked} (h : o.Holds a) :
    (o.alloc c).2.Holds (askedOf o c) := by
  unfold KOutput.alloc askedOf
  rcases hesz : tpbDtypeElemSize o.dtype with - | esz
  · rcases a with - | x
    · exact h
    · rw [h.esz_eq x rfl] at hesz
      cases hesz
  · simp only [Option.bind_some]
    rcases hb : c.malloc (c.n * UInt64.ofNat esz) with - | b
    · exact KOutput.holds_none rfl
    · refine ⟨rfl, ?_, ?_, ?_⟩
      · rintro x ⟨⟩
        rfl
      · rintro x ⟨⟩
        exact hesz
      · rintro x ⟨⟩
        exact c.length_malloc _ _ hb

@[simp] theorem KOutput.alloc_name (o : KOutput) : (o.alloc c).2.name = o.name := by
  unfold KOutput.alloc
  split
  · rfl
  · split
    · rfl
    · rfl

@[simp] theorem KOutput.alloc_dtype (o : KOutput) : (o.alloc c).2.dtype = o.dtype := by
  unfold KOutput.alloc
  split
  · rfl
  · split
    · rfl
    · rfl

theorem KOutput.Holds.resolveUnit {o : KOutput} {a : Option Asked} (h : o.Holds a) :
    (o.resolveUnit timer).Holds a :=
  ⟨h.p_eq, h.n_eq, h.esz_eq, h.length_block⟩

/-- A call changes the first output of its name. -/
theorem getElem?_allocFirst (i : ℕ) :
    (allocFirst c os).2[i]? = os[i]?.map fun o =>
      if os.findIdx? (·.name = c.name) = some i then (o.alloc c).2 else o := by
  induction os generalizing i with
  | nil => rfl
  | cons o os ih =>
      rw [allocFirst, List.findIdx?_cons]
      by_cases hname : o.name = c.name
      · cases i with
        | zero => simp [hname]
        | succ i => simp [hname]
      · cases i with
        | zero => simp [hname]
        | succ i => simp [hname, ih]

theorem lastAlloc_concat (i : ℕ) : lastAlloc outs (calls ++ [c]) i =
    if outs.findIdx? (·.name = c.name) = some i then some c else lastAlloc outs calls i := by
  simp only [lastAlloc, List.reverse_append, List.reverse_singleton, List.singleton_append,
    List.find?_cons]
  split_ifs with hidx
  · simp [hidx]
  · simp [hidx]

/-- The index of the first output of a name depends on the names only. -/
theorem findIdx?_names {name : Bytes} (hnames : os.map (·.name) = outs.map (·.name)) :
    os.findIdx? (·.name = name) = outs.findIdx? (·.name = name) := by
  have hmap : ∀ l : List KOutput, l.findIdx? (·.name = name) =
      (l.map (·.name)).findIdx? (· = name) := by
    intro l
    rw [List.findIdx?_map]
    rfl
  rw [hmap, hmap, hnames]

/-- The outputs `outs` after a sequence of calls: the names and types are as before, and each
output holds what the last call that reached it got. -/
structure HoldsLast (outs : List KOutput) (calls : List AllocCall) (os : List KOutput) : Prop where
  names : os.map (·.name) = outs.map (·.name)
  holds : ∀ (i : ℕ) (o₀ : KOutput), outs[i]? = some o₀ → ∃ o : KOutput, os[i]? = some o ∧
    o.dtype = o₀.dtype ∧ o.Holds ((lastAlloc outs calls i).bind (askedOf o₀))

/-- One more call. -/
theorem HoldsLast.allocLoops (hlast : HoldsLast outs calls os) (c : AllocCall) :
    HoldsLast outs (calls ++ [c]) (allocLoops timer c os).2 := by
  obtain ⟨hnames, houts⟩ := hlast
  have hnames' : (os.map (KOutput.resolveUnit timer)).map (·.name) = outs.map (·.name) := by
    rw [← hnames, List.map_map]
    rfl
  constructor
  · rw [← hnames', TPBench.allocLoops]
    refine List.ext_getElem? fun i => ?_
    rw [List.getElem?_map, List.getElem?_map, getElem?_allocFirst, Option.map_map]
    refine congrFun (congrArg Option.map (funext fun o => ?_)) _
    simp only [Function.comp_apply]
    split_ifs
    · exact o.alloc_name
    · rfl
  · intro i o₀ ho₀
    obtain ⟨o, ho, hdtype, hholds⟩ := houts i o₀ ho₀
    have hget : (os.map (KOutput.resolveUnit timer))[i]? = some (o.resolveUnit timer) := by
      rw [List.getElem?_map, ho]
      rfl
    rw [TPBench.allocLoops, getElem?_allocFirst, hget, lastAlloc_concat, findIdx?_names hnames']
    by_cases hidx : outs.findIdx? (·.name = c.name) = some i
    · refine ⟨((o.resolveUnit timer).alloc c).2, by rw [Option.map_some, if_pos hidx], ?_, ?_⟩
      · rw [KOutput.alloc_dtype]
        exact hdtype
      · have halloc : ((o.resolveUnit timer).alloc c).2.Holds (askedOf (o.resolveUnit timer) c) :=
          hholds.resolveUnit.alloc
        rw [if_pos hidx, Option.bind_some]
        rw [askedOf] at halloc ⊢
        rw [← hdtype]
        exact halloc
    · refine ⟨o.resolveUnit timer, by rw [Option.map_some, if_neg hidx], hdtype, ?_⟩
      rw [if_neg hidx]
      exact hholds.resolveUnit

/-- **What a kernel has for its outputs**: after any calls, every output holds what the last
call that reached it got. -/
theorem forall₂_afterAllocs (hnone : ∀ o ∈ h.outputs, o.p = none) :
    List.Forall₂ KOutput.Holds (h.afterAllocs timer calls).outputs
      (askedAfter h.outputs calls) := by
  have hlast : HoldsLast h.outputs calls (h.afterAllocs timer calls).outputs := by
    induction calls using List.reverseRecOn with
    | nil =>
        refine ⟨rfl, fun i o₀ ho₀ => ⟨o₀, ho₀, rfl, KOutput.holds_none (hnone o₀ ?_)⟩⟩
        exact List.mem_of_getElem? ho₀
    | append_singleton calls c ih =>
        rw [Rthdl.afterAllocs, List.foldl_concat]
        exact ih.allocLoops c
  obtain ⟨hnames, houts⟩ := hlast
  have hlen := congrArg List.length hnames
  rw [List.length_map, List.length_map] at hlen
  rw [List.forall₂_iff_get]
  refine ⟨by rw [hlen, askedAfter, List.length_map, List.length_zipIdx], ?_⟩
  intro i hi hi'
  have hi₀ : i < h.outputs.length := hlen ▸ hi
  obtain ⟨o, ho, -, hholds⟩ := houts i _ (List.getElem?_eq_getElem hi₀)
  obtain ⟨_, rfl⟩ := List.getElem?_eq_some_iff.mp ho
  simpa [askedAfter] using hholds

@[simp] theorem Rthdl.afterAllocs_args : (h.afterAllocs timer calls).args = h.args := by
  induction calls using List.reverseRecOn with
  | nil => rfl
  | append_singleton calls c ih =>
      rw [Rthdl.afterAllocs, List.foldl_concat]
      exact ih

end Alloc

/-! ### Before the first call -/

/-- A type a kernel may declare an argument with has one, two, four or eight bytes. -/
def SizedType (t : UInt32) : Prop :=
  (t >>> 8) &&& 0xFF = 1 ∨ (t >>> 8) &&& 0xFF = 2 ∨ (t >>> 8) &&& 0xFF = 4 ∨ (t >>> 8) &&& 0xFF = 8

/-- The arguments have types of at most eight bytes, and the outputs have no blocks. -/
structure Unallocated (args : List ArgInfo) (outs : List KOutput) : Prop where
  sized : ∀ a ∈ args, SizedType a.typeCode
  p_eq : ∀ o ∈ outs, o.p = none

/-- All arguments and outputs of the driver are as they are before the first call. -/
structure UnallocatedInv (d : PliDriver) : Prop where
  registered : ∀ k ∈ d.kernelAll, Unallocated k.args k.outs
  current : ∀ k ∈ d.currentKernel, Unallocated k.args k.outs
  handle : ∀ h ∈ d.currentRthdl, Unallocated h.args h.outputs

theorem unallocatedInv_empty : UnallocatedInv PliDriver.empty where
  registered := by simp [PliDriver.empty]
  current := by simp [PliDriver.empty]
  handle := by simp [PliDriver.empty]

section Before

variable {F : Floats} {timer : Timer} {d d' : PliDriver} {c : RegCall}

/-- The types with a default value. -/
theorem sizedType_of_defaultValue {t : UInt32} {text : Bytes} {v : UInt64}
    (h : defaultValue F t text = some v) : SizedType t := by
  have hcases : isIntType t = true ∨ isUintType t = true ∨ t = typeFloat ∨ t = typeDouble ∨
      t = typeChar := by
    unfold defaultValue at h
    split_ifs at h with hint huint hfloat hdouble hchar
    · exact .inl hint
    · exact .inr (.inl huint)
    · exact .inr (.inr (.inl hfloat))
    · exact .inr (.inr (.inr (.inl hdouble)))
    · exact .inr (.inr (.inr (.inr hchar)))
  simp only [isIntType, isUintType, decide_eq_true_eq, typeFloat, typeDouble, typeChar] at hcases
  unfold SizedType
  rcases hcases with (rfl | rfl | rfl | rfl | rfl) | (rfl | rfl | rfl | rfl) | rfl | rfl | rfl <;>
    decide

theorem sizedType_newArg {name tag note dflt : Bytes} {dtype : UInt32} {va : List UInt64}
    {a : ArgInfo} (h : newArg F timer name tag note dflt dtype va = .ok a) :
    SizedType a.typeCode := by
  rw [newArg] at h
  split at h
  · cases h
  · split at h
    · cases h
    · rename_i hdflt
      split at h
      · cases h
      · cases h
        exact sizedType_of_defaultValue hdflt

@[simp] theorem ArgInfo.apply_typeCode (a : ArgInfo) (w : Bytes) :
    (a.apply F w).typeCode = a.typeCode := by
  rw [ArgInfo.apply]
  split
  · rfl
  · split
    · rfl
    · rfl

theorem applyArgv_typeCode (as : List ArgInfo) (ws : List Bytes) :
    (applyArgv F as ws).map (·.typeCode) = as.map (·.typeCode) := by
  induction as generalizing ws with
  | nil => rw [applyArgv]
  | cons a as ih =>
      cases ws with
      | nil => rw [applyArgv]; simp
      | cons w ws => simp [applyArgv, ih]

theorem Unallocated.build {k : KernelInfo} (h : Unallocated k.args k.outs) (argv : List Bytes) :
    Unallocated (Rthdl.build F timer k argv).args (Rthdl.build F timer k argv).outputs := by
  constructor
  · intro a ha
    have hmem : a.typeCode ∈ (applyArgv F k.args argv).map (·.typeCode) := List.mem_map_of_mem ha
    rw [applyArgv_typeCode] at hmem
    obtain ⟨b, hb, heq⟩ := List.mem_map.mp hmem
    exact heq ▸ h.sized b hb
  · intro o ho
    obtain ⟨o', -, rfl⟩ := List.mem_map.mp ho
    rfl

theorem Unallocated.concat_output {args : List ArgInfo} {outs : List KOutput} {o : KOutput}
    (h : Unallocated args outs) (ho : o.p = none) : Unallocated args (outs ++ [o]) := by
  refine ⟨h.sized, fun o' ho' => ?_⟩
  rcases List.mem_append.mp ho' with hmem | hmem
  · exact h.p_eq o' hmem
  · obtain rfl := List.mem_singleton.mp hmem
    exact ho

theorem Unallocated.concat_arg {args : List ArgInfo} {outs : List KOutput} {a : ArgInfo}
    (h : Unallocated args outs) (ha : SizedType a.typeCode) : Unallocated (args ++ [a]) outs := by
  refine ⟨fun a' ha' => ?_, h.p_eq⟩
  rcases List.mem_append.mp ha' with hmem | hmem
  · exact h.sized a' hmem
  · obtain rfl := List.mem_singleton.mp hmem
    exact ha

/-- No call of the interface but `tpb_k_alloc_output` gives an output a block. -/
theorem RegStep.unallocatedInv (hinv : UnallocatedInv d) (h : RegStep F timer d c d') :
    UnallocatedInv d' := by
  cases h with
  | error herr => exact regCall_error herr ▸ hinv
  | ok hok =>
      cases c with
      | register name note kctrl =>
          obtain ⟨-, -, -, rfl⟩ := tpbKRegister_ok_iff.mp hok
          refine ⟨hinv.registered, ?_, hinv.handle⟩
          rintro k ⟨⟩
          exact ⟨by simp, by simp⟩
      | addArg name tag note dflt dtype va =>
          obtain ⟨k, a, hk, -, -, -, ha, rfl⟩ := tpbKAddArg_ok_iff.mp hok
          refine ⟨hinv.registered, ?_, hinv.handle⟩
          rintro k' ⟨⟩
          exact (hinv.current k hk).concat_arg (sizedType_newArg ha)
      | addOutput name tag note dtype unit =>
          obtain ⟨tags, -, -, -, hadd⟩ := tpbKAddOutput_ok_iff.mp hok
          rw [addOutputTo] at hadd
          split at hadd
          · rename_i h₀ hh₀
            cases hadd
            refine ⟨hinv.registered, hinv.current, ?_⟩
            rintro h' ⟨⟩
            exact (hinv.handle h₀ hh₀).concat_output rfl
          · split at hadd
            · rename_i k hk
              cases hadd
              refine ⟨hinv.registered, ?_, hinv.handle⟩
              rintro k' ⟨⟩
              exact (hinv.current k hk).concat_output rfl
            · cases hadd
      | finalizePli =>
          obtain ⟨k, hk, rfl⟩ := tpbKFinalizePli_ok_iff.mp hok
          refine ⟨?_, ?_, hinv.handle⟩
          · intro k' hk'
            rcases List.mem_append.mp hk' with hmem | hmem
            · exact hinv.registered k' hmem
            · obtain rfl := List.mem_singleton.mp hmem
              exact hinv.current k' hk
          · rintro k' ⟨⟩
      | buildHandle argv =>
          obtain ⟨k, hk, rfl⟩ := tpbKPliBuildHandle_ok_iff.mp hok
          refine ⟨hinv.registered, hinv.current, ?_⟩
          rintro h' ⟨⟩
          exact (hinv.registered k (List.mem_of_getLast? hk)).build argv

/-- Whatever was declared before, a handle starts without blocks, and its arguments have
types of at most eight bytes. -/
theorem unallocated_run {t : List RegCall} {h : Rthdl}
    (hrun : Run (RegStep F timer) PliDriver.empty t d) (hh : d.currentRthdl = some h) :
    Unallocated h.args h.outputs := by
  have hinv : UnallocatedInv d := by
    refine hrun.invariant (P := fun _ d => UnallocatedInv d) unallocatedInv_empty ?_
    intro t d c d' hinv hstep
    exact hstep.unallocatedInv hinv
  exact hinv.handle h hh

end Before

end TPBench
