import TPBench.Cli.Options
import TPBench.Cli.Sweeps

/-!
# The Segments of a Command Line

A `--kernel` starts a segment, which reaches up to the next one (`segmentsOf`). The handles of a
segment are the handle of its `--kernel` and those expanded from its dimensions: they stand in the
list of the driver from the index of the first of them up to the next `--kernel` (`kernelStarts`,
`slices`).

What the options of a segment do to its handles is a function of the options (`segSweep`), and so
are the handles of the whole segment (`Segment.block`). `segments_run` says that the driver has
these handles when it is called.
-/

open CFile

namespace TPBench

/-! ### Segments -/

/-- A `--kernel` with the options up to the next one. -/
structure Segment where
  value : Bytes
  opts : List Opt

/-- The options up to the first `--kernel`. -/
def leadOpts (opts : List Opt) : List Opt := opts.takeWhile (!·.isKernel)

/-- The segments of a command line. -/
def segmentsOf : List Opt → List Segment
  | [] => []
  | .kernel v :: os => ⟨v, leadOpts os⟩ :: segmentsOf os
  | _ :: os => segmentsOf os

/-- The options of a segment, with its `--kernel`. -/
def Segment.all (g : Segment) : List Opt := .kernel g.value :: g.opts

/-- The index of the handle of each `--kernel`, while the handlers run. -/
def kernelStarts (ctx : RunCtx) : List Opt → RunState → List ℕ
  | [], _ => []
  | o :: os, s =>
      match o.handler ctx s with
      | .error _ _ => []
      | .ok () s' =>
          if o.isKernel then (s'.drv.handleList.length - 1) :: kernelStarts ctx os s'
          else kernelStarts ctx os s'

/-- A list cut at indices: what stands from each of them up to the next one. -/
def slices {α : Type} : List ℕ → List α → List (List α)
  | [], _ => []
  | [b], l => [l.drop b]
  | b :: b' :: bs, l => (l.drop b).take (b' - b) :: slices (b' :: bs) l

section Split

variable {opts : List Opt} {o : Opt}

theorem Opt.kernel_or (o : Opt) : (∃ v, o = .kernel v) ∨ o.isKernel = false := by
  cases o with
  | kernel v => exact .inl ⟨v, rfl⟩
  | _ => exact .inr rfl

theorem segmentsOf_cons (h : o.isKernel = false) (os : List Opt) :
    segmentsOf (o :: os) = segmentsOf os := by
  cases o with
  | kernel v => cases h
  | _ => rfl

theorem leadOpts_cons (h : o.isKernel = false) (os : List Opt) :
    leadOpts (o :: os) = o :: leadOpts os :=
  List.takeWhile_cons_of_pos (by simpa using h)

theorem isKernel_of_mem_leadOpts (h : o ∈ leadOpts opts) : o.isKernel = false := by
  have hmem := List.mem_takeWhile_imp h
  simpa using hmem

/-- A command line is made of its lead and its segments. -/
theorem lead_append_segments (opts : List Opt) :
    leadOpts opts ++ (segmentsOf opts).flatMap Segment.all = opts := by
  induction opts with
  | nil => rfl
  | cons o os ih =>
      rcases o.kernel_or with ⟨v, rfl⟩ | ho
      · change [] ++ (⟨v, leadOpts os⟩ :: segmentsOf os).flatMap Segment.all = _
        rw [List.nil_append, List.flatMap_cons, Segment.all, List.cons_append]
        exact congrArg _ ih
      · rw [leadOpts_cons ho, segmentsOf_cons ho, List.cons_append, ih]

theorem isKernel_of_mem_segmentsOf {g : Segment} (hg : g ∈ segmentsOf opts) :
    ∀ o ∈ g.opts, o.isKernel = false := by
  induction opts with
  | nil => cases hg
  | cons o os ih =>
      rcases o.kernel_or with ⟨v, rfl⟩ | ho
      · rcases List.mem_cons.mp hg with rfl | hg
        · exact fun o ho => isKernel_of_mem_leadOpts ho
        · exact ih hg
      · rw [segmentsOf_cons ho] at hg
        exact ih hg

end Split

section Slices

variable {α : Type} {l : List α} {bs : List (List α)} {n : ℕ}

/-- Where consecutive blocks start. -/
def startsFrom : ℕ → List (List α) → List ℕ
  | _, [] => []
  | n, b :: bs => n :: startsFrom (n + b.length) bs

/-- Blocks are cut where they start. -/
theorem slices_startsFrom (l : List α) (bs : List (List α)) :
    slices (startsFrom l.length bs) (l ++ bs.flatten) = bs := by
  induction bs generalizing l with
  | nil => rfl
  | cons b bs ih =>
      have hrest := ih (l ++ b)
      rw [List.length_append, List.append_assoc] at hrest
      rcases bs with - | ⟨b', bs⟩
      · simp [startsFrom, slices]
      · rw [startsFrom] at hrest ⊢
        rw [startsFrom, slices, List.flatten_cons, hrest, List.drop_left, Nat.add_sub_cancel_left,
          List.take_left]

end Slices

/-! ### What the options of a segment do -/

/-- A token of `--kargs` on a handle. -/
def kargOn (F : Doubles) (h : Handle) (token : Bytes) : Handle :=
  match kargPair token with
  | .error _ => h
  | .ok p =>
      match h.setKarg F p.1 p.2 with
      | .error _ => h
      | .ok h' => h'

/-- A token of `--kenvs` on a handle. -/
def kenvOn (h : Handle) (token : Bytes) : Handle :=
  match kenvPair token with
  | .error _ => h
  | .ok p => h.setEnv p.1 p.2

/-- The handles an option makes of the newest one. -/
def Opt.sweep (ctx : RunCtx) (k : Kernel) (o : Opt) (h : Handle) : Sweep :=
  match o with
  | .kargs v => ([], (commaTokens v).foldl (kargOn ctx.floats) h)
  | .kenvs v => ([], (commaTokens v).foldl kenvOn h)
  | .kenvsDim v =>
      match tpbArgpParseDim ctx.floats v with
      | .error _ => ([], h)
      | .ok cfg => envSweep ctx.floats k cfg h
  | _ => ([], h)

/-- The handles the options of a segment make of the newest one. -/
def segSweep (ctx : RunCtx) (k : Kernel) : List Opt → Handle → Sweep
  | [], h => ([], h)
  | o :: os, h =>
      ((o.sweep ctx k h).1 ++ (segSweep ctx k os (o.sweep ctx k h).2).1,
        (segSweep ctx k os (o.sweep ctx k h).2).2)

/-- The dimension of an option `--kargs-dim`. -/
def Opt.dimCfg (F : Doubles) : Opt → Option DimConfig
  | .kargsDim v => (tpbArgpParseDim F v).toOption
  | _ => none

/-- The dimensions that are kept back. -/
def dimCfgs (F : Doubles) (opts : List Opt) : List DimConfig := opts.filterMap (Opt.dimCfg F)

/-- The chain behind an option. -/
def addLocal (chain : List LocalWrapper) : Opt → List LocalWrapper
  | .wrapper v => chain ++ [⟨printedIn nameStrMaxLen v, []⟩]
  | .wrapperArgs v => addArgsToLast (sfUnquoteArgstr v) chain
  | _ => chain

/-- The chain the bind makes of the global chain and the chain of a segment. -/
def chainLinks (globals chain : List LocalWrapper) (override : Bool) : List WrapperLink :=
  ((if override then [] else globals) ++ chain).map linkOfLocal

/-- What a handler that succeeds has read. -/
def Opt.Read (F : Doubles) : Opt → Prop
  | .kargsDim v => ∃ cfg, tpbArgpParseDim F v = .ok cfg
  | .kenvsDim v => ∃ cfg, tpbArgpParseDim F v = .ok cfg ∧
      ∀ i < (tpbDimGenerateValues F cfg).n, ∃ t, (tpbDimGenerateValues F cfg).text F i = .ok t
  | _ => True

/-- The state of the subcommand inside a segment of a kernel. -/
structure InSegment (s : RunState) (hs : List Handle) (h : Handle) (name : Bytes)
    (cfgs : List DimConfig) (globals chain : List LocalWrapper) (override : Bool) : Prop where
  drv : s.drv = Driver.onNewest hs h
  name : s.pendingKernelName = name
  cfgs : s.pendingDimCfgs = cfgs
  globals : s.globalWrappers = globals
  chain : s.segmentWrappers = chain
  override : s.pendingOverrideGlobal = override
  seen : s.seenFirstKernel = true

section Options

variable {ctx : RunCtx} {k : Kernel} {s s' : RunState} {hs : List Handle} {h : Handle}
  {name : Bytes} {cfgs : List DimConfig} {globals chain : List LocalWrapper} {og : Bool}
  {o : Opt}

/-- `--kargs` on the newest handle. -/
theorem setKargs_onNewest {F : Doubles} {tokens : List Bytes}
    (hdrv : s.drv = Driver.onNewest hs h) (hrun : setKargs F tokens s = .ok () s') :
    s' = { s with drv := Driver.onNewest hs (tokens.foldl (kargOn F) h) } := by
  induction tokens generalizing s h with
  | nil =>
      obtain ⟨-, rfl⟩ := EStateM.Result.ok.inj hrun
      rw [List.foldl_nil, ← hdrv]
  | cons token tokens ih =>
      obtain ⟨p, s₁, hlift, hsets⟩ := bind_eq_ok.mp hrun
      obtain ⟨hpair, rfl⟩ := liftRun_eq_ok.mp hlift
      obtain ⟨⟨⟩, s₂, hset, hrest⟩ := bind_eq_ok.mp hsets
      rw [propagateAt_eq_ok] at hset
      obtain ⟨d, hd, rfl⟩ := onDriver_eq_ok.mp hset
      rw [hdrv] at hd
      rcases hres : h.setKarg F p.1 p.2 with e | h'
      · rw [setHdlKarg_onNewest_error hres] at hd
        cases hd
      · rw [setHdlKarg_onNewest hres] at hd
        obtain ⟨-, rfl⟩ := EStateM.Result.ok.inj hd
        have hone : kargOn F h token = h' := by
          simp only [kargOn, hpair, hres]
        rw [List.foldl_cons, hone, ih rfl hrest]

/-- `--kenvs` on the newest handle. -/
theorem setKenvs_onNewest {tokens : List Bytes}
    (hdrv : s.drv = Driver.onNewest hs h) (hrun : setKenvs tokens s = .ok () s') :
    s' = { s with drv := Driver.onNewest hs (tokens.foldl kenvOn h) } := by
  induction tokens generalizing s h with
  | nil =>
      obtain ⟨-, rfl⟩ := EStateM.Result.ok.inj hrun
      rw [List.foldl_nil, ← hdrv]
  | cons token tokens ih =>
      obtain ⟨p, s₁, hlift, hsets⟩ := bind_eq_ok.mp hrun
      obtain ⟨hpair, rfl⟩ := liftRun_eq_ok.mp hlift
      obtain ⟨⟨⟩, s₂, hset, hrest⟩ := bind_eq_ok.mp hsets
      rw [propagateAt_eq_ok] at hset
      obtain ⟨d, hd, rfl⟩ := onDriver_eq_ok.mp hset
      rw [hdrv, setHdlEnv_onNewest] at hd
      obtain ⟨-, rfl⟩ := EStateM.Result.ok.inj hd
      have hone : kenvOn h token = h.setEnv p.1 p.2 := by
        simp only [kenvOn, hpair]
      rw [List.foldl_cons, hone, ih rfl hrest]

theorem sfParseKargsDim_eq_ok {v : Bytes} (hrun : sfParseKargsDim ctx v s = .ok () s') :
    ∃ cfg, tpbArgpParseDim ctx.floats v = .ok cfg ∧
      s' = { s with pendingDimCfgs := s.pendingDimCfgs ++ [cfg] } := by
  have hget : sfParseKargsDim ctx v s =
      (if maxDimConfigs ≤ s.pendingDimCfgs.length then failAt .cliRun .cliFail
        else do
          let cfg ← propagateAt .cliRun (liftRun (tpbArgpParseDim ctx.floats v))
          modify fun s => { s with pendingDimCfgs := s.pendingDimCfgs ++ [cfg] } : RunM Unit) s :=
    rfl
  rw [hget] at hrun
  split_ifs at hrun
  · exact (failAt_ne_ok hrun).elim
  · obtain ⟨cfg, s₁, hparse, hmodify⟩ := bind_eq_ok.mp hrun
    rw [propagateAt_eq_ok] at hparse
    obtain ⟨hcfg, rfl⟩ := liftRun_eq_ok.mp hparse
    exact ⟨cfg, hcfg, (EStateM.Result.ok.inj hmodify).2.symm⟩

theorem sfParseWrapper_eq_ok {v : Bytes} (hrun : sfParseWrapper v s = .ok () s') :
    s' = if s.seenFirstKernel then
        { s with
          segmentWrappers := addLocal s.segmentWrappers (.wrapper v)
          segmentHasOpenWrapper := true }
      else
        { s with
          globalWrappers := addLocal s.globalWrappers (.wrapper v)
          globalHasOpenWrapper := true } := by
  simp only [sfParseWrapper] at hrun
  by_cases hseen : s.seenFirstKernel = true
  · rw [if_pos hseen]
    simp only [hseen, if_true] at hrun
    split_ifs at hrun
    obtain ⟨-, rfl⟩ := EStateM.Result.ok.inj hrun
    rw [addLocal, hseen]
  · rw [if_neg hseen]
    rw [Bool.not_eq_true] at hseen
    simp only [hseen, Bool.false_eq_true, if_false] at hrun
    split_ifs at hrun
    obtain ⟨-, rfl⟩ := EStateM.Result.ok.inj hrun
    rw [addLocal, hseen]

theorem sfParseWrapperArgs_eq_ok {v : Bytes} (hrun : sfParseWrapperArgs v s = .ok () s') :
    s' = if s.seenFirstKernel then
        { s with segmentWrappers := addLocal s.segmentWrappers (.wrapperArgs v) }
      else { s with globalWrappers := addLocal s.globalWrappers (.wrapperArgs v) } := by
  simp only [sfParseWrapperArgs] at hrun
  by_cases hseen : s.seenFirstKernel = true
  · rw [if_pos hseen]
    simp only [hseen, if_true] at hrun
    split_ifs at hrun
    obtain ⟨-, rfl⟩ := EStateM.Result.ok.inj hrun
    rw [addLocal, hseen]
  · rw [if_neg hseen]
    rw [Bool.not_eq_true] at hseen
    simp only [hseen, Bool.false_eq_true, if_false] at hrun
    split_ifs at hrun
    obtain ⟨-, rfl⟩ := EStateM.Result.ok.inj hrun
    rw [addLocal, hseen]

theorem sfParseTimer_eq_ok {v : Bytes} (hrun : sfParseTimer ctx v s = .ok () s') :
    s' = { s with timer := v } := by
  rw [sfParseTimer, propagateAt_eq_ok, tpbArgpSetTimer] at hrun
  split_ifs at hrun
  · exact (EStateM.Result.ok.inj hrun).2.symm
  · exact (failAt_ne_ok hrun).elim

theorem sfParseOutargs_eq_ok {v : Bytes} (hrun : sfParseOutargs v s = .ok () s') :
    ∃ r, s' = { s with outargs := r } := by
  obtain ⟨r, s₁, hlift, hmodify⟩ := bind_eq_ok.mp hrun
  obtain ⟨-, rfl⟩ := liftRun_eq_ok.mp hlift
  exact ⟨r, (EStateM.Result.ok.inj hmodify).2.symm⟩

/-- **One option of a segment.** -/
theorem InSegment.step (hin : InSegment s hs h name cfgs globals chain og)
    (hk : kernelToAdd ctx.reg name = .ok k) (ho : o.isKernel = false)
    (hrun : o.handler ctx s = .ok () s') :
    InSegment s' (hs ++ (o.sweep ctx k h).1) (o.sweep ctx k h).2 name
      (cfgs ++ dimCfgs ctx.floats [o]) globals (addLocal chain o)
      (og || decide (o = .overrideGlobal)) ∧ o.Read ctx.floats := by
  obtain ⟨hdrv, rfl, rfl, rfl, rfl, rfl, hseen⟩ := hin
  cases o with
  | kernel v => cases ho
  | kargs v =>
      obtain rfl := setKargs_onNewest hdrv hrun
      refine ⟨⟨?_, rfl, ?_, rfl, rfl, ?_, hseen⟩, trivial⟩
      · simp [Opt.sweep]
      · simp [dimCfgs, Opt.dimCfg]
      · simp
  | kargsDim v =>
      obtain ⟨cfg, hcfg, rfl⟩ := sfParseKargsDim_eq_ok hrun
      refine ⟨⟨?_, rfl, ?_, rfl, rfl, ?_, hseen⟩, cfg, hcfg⟩
      · simpa [Opt.sweep] using hdrv
      · simp [dimCfgs, Opt.dimCfg, hcfg, Except.toOption]
      · simp
  | kenvs v =>
      obtain rfl := setKenvs_onNewest hdrv hrun
      refine ⟨⟨?_, rfl, ?_, rfl, rfl, ?_, hseen⟩, trivial⟩
      · simp [Opt.sweep]
      · simp [dimCfgs, Opt.dimCfg]
      · simp
  | kenvsDim v =>
      obtain ⟨cfg, hcfg, rfl, htexts⟩ := sfParseKenvsDim_onNewest hdrv hk hrun
      refine ⟨⟨?_, rfl, ?_, rfl, rfl, ?_, hseen⟩, cfg, hcfg, htexts⟩
      · simp only [Opt.sweep, hcfg]
        rfl
      · simp [dimCfgs, Opt.dimCfg]
      · simp
  | overrideGlobal =>
      obtain ⟨-, rfl⟩ := EStateM.Result.ok.inj hrun
      refine ⟨⟨?_, rfl, ?_, rfl, rfl, ?_, hseen⟩, trivial⟩
      · simpa [Opt.sweep] using hdrv
      · simp [dimCfgs, Opt.dimCfg]
      · simp
  | wrapper v =>
      have hres := sfParseWrapper_eq_ok hrun
      rw [if_pos hseen] at hres
      subst hres
      refine ⟨⟨?_, rfl, ?_, rfl, rfl, ?_, hseen⟩, trivial⟩
      · simpa [Opt.sweep] using hdrv
      · simp [dimCfgs, Opt.dimCfg]
      · simp
  | wrapperArgs v =>
      have hres := sfParseWrapperArgs_eq_ok hrun
      rw [if_pos hseen] at hres
      subst hres
      refine ⟨⟨?_, rfl, ?_, rfl, rfl, ?_, hseen⟩, trivial⟩
      · simpa [Opt.sweep] using hdrv
      · simp [dimCfgs, Opt.dimCfg]
      · simp
  | timer v =>
      obtain rfl := sfParseTimer_eq_ok hrun
      refine ⟨⟨?_, rfl, ?_, rfl, rfl, ?_, hseen⟩, trivial⟩
      · simpa [Opt.sweep] using hdrv
      · simp [dimCfgs, Opt.dimCfg]
      · simp
  | outargs v =>
      obtain ⟨r, rfl⟩ := sfParseOutargs_eq_ok hrun
      refine ⟨⟨?_, rfl, ?_, rfl, rfl, ?_, hseen⟩, trivial⟩
      · simpa [Opt.sweep] using hdrv
      · simp [dimCfgs, Opt.dimCfg]
      · simp
  | dryRun =>
      obtain ⟨-, rfl⟩ := EStateM.Result.ok.inj hrun
      refine ⟨⟨?_, rfl, ?_, rfl, rfl, ?_, hseen⟩, trivial⟩
      · simpa [Opt.sweep] using hdrv
      · simp [dimCfgs, Opt.dimCfg]
      · simp

theorem dimCfgs_cons (F : Doubles) (o : Opt) (os : List Opt) :
    dimCfgs F (o :: os) = dimCfgs F [o] ++ dimCfgs F os := by
  rw [dimCfgs, dimCfgs, dimCfgs, ← List.filterMap_append]
  rfl

/-- **The options of a segment.** -/
theorem InSegment.run {opts : List Opt} (hin : InSegment s hs h name cfgs globals chain og)
    (hk : kernelToAdd ctx.reg name = .ok k) (hopts : ∀ o ∈ opts, o.isKernel = false)
    (hrun : runOpts ctx opts s = .ok () s') :
    InSegment s' (hs ++ (segSweep ctx k opts h).1) (segSweep ctx k opts h).2 name
      (cfgs ++ dimCfgs ctx.floats opts) globals (opts.foldl addLocal chain)
      (og || decide (.overrideGlobal ∈ opts)) ∧ ∀ o ∈ opts, o.Read ctx.floats := by
  induction opts generalizing s hs h cfgs chain og with
  | nil =>
      obtain ⟨-, rfl⟩ := EStateM.Result.ok.inj hrun
      simpa [segSweep, dimCfgs] using hin
  | cons o os ih =>
      obtain ⟨⟨⟩, s₁, hone, hrest⟩ := bind_eq_ok.mp hrun
      obtain ⟨hstep, hread⟩ := hin.step hk (hopts o (by simp)) hone
      obtain ⟨hend, hreads⟩ := ih hstep (fun x hx => hopts x (by simp [hx])) hrest
      refine ⟨?_, ?_⟩
      · rw [List.append_assoc, List.append_assoc, ← dimCfgs_cons, Bool.or_assoc] at hend
        have hover : (decide (o = .overrideGlobal) || decide (Opt.overrideGlobal ∈ os)) =
            decide (Opt.overrideGlobal ∈ o :: os) := by
          simp [eq_comm]
        rwa [hover] at hend
      · intro x hx
        rcases List.mem_cons.mp hx with rfl | hx
        · exact hread
        · exact hreads x hx

end Options

/-! ### What all handles of a segment have in common -/

section Inherited

variable {ctx : RunCtx} {k : Kernel} {P : Handle → Prop} {h : Handle}

/-- What each token keeps, all of them keep. -/
theorem foldl_keeps {g : Handle → Bytes → Handle} (hg : ∀ h token, P h → P (g h token))
    (tokens : List Bytes) (hh : P h) : P (tokens.foldl g h) := by
  induction tokens generalizing h with
  | nil => exact hh
  | cons token tokens ih => exact ih (hg h token hh)

theorem Inherited.kargOn {F : Doubles} (hP : Inherited F k P) (h : Handle) (token : Bytes)
    (hh : P h) :
    P (kargOn F h token) := by
  rw [TPBench.kargOn]
  split
  · exact hh
  · split
    · exact hh
    · rename_i hres
      exact hP.setKarg _ _ _ _ hres hh

theorem Inherited.kenvOn {F : Doubles} (hP : Inherited F k P) (h : Handle) (token : Bytes)
    (hh : P h) :
    P (kenvOn h token) := by
  rw [TPBench.kenvOn]
  split
  · exact hh
  · exact hP.setEnv _ _ _ hh

/-- The handles of an option. -/
theorem Inherited.sweep (hP : Inherited ctx.floats k P) (o : Opt) (hh : P h) :
    ∀ x ∈ (o.sweep ctx k h).handles, P x := by
  intro x hx
  cases o with
  | kargs v =>
      rw [List.mem_singleton.mp hx]
      exact foldl_keeps hP.kargOn _ hh
  | kenvs v =>
      rw [List.mem_singleton.mp hx]
      exact foldl_keeps hP.kenvOn _ hh
  | kenvsDim v =>
      rw [Opt.sweep] at hx
      split at hx
      · rw [List.mem_singleton.mp hx]
        exact hh
      · exact hP.envSweep _ hh x hx
  | _ =>
      rw [List.mem_singleton.mp hx]
      exact hh

/-- The handles of the options of a segment. -/
theorem Inherited.segSweep (hP : Inherited ctx.floats k P) (opts : List Opt) (hh : P h) :
    ∀ x ∈ (segSweep ctx k opts h).handles, P x := by
  induction opts generalizing h with
  | nil =>
      intro x hx
      rw [List.mem_singleton.mp hx]
      exact hh
  | cons o os ih =>
      intro x hx
      rw [Sweep.handles, TPBench.segSweep, List.append_assoc, List.mem_append] at hx
      rcases hx with hx | hx
      · exact hP.sweep o hh x (List.mem_append_left _ hx)
      · exact ih (hP.sweep o hh _ (by simp [Sweep.handles])) x hx

end Inherited

/-! ### From one segment to the next -/

/-- The state of the subcommand in front of the first segment. -/
structure InLead (s : RunState) (globals : List LocalWrapper) : Prop where
  drv : s.drv = Driver.empty
  cfgs : s.pendingDimCfgs = []
  globals : s.globalWrappers = globals
  chain : s.segmentWrappers = []
  override : s.pendingOverrideGlobal = false
  seen : s.seenFirstKernel = false

/-- The handles of a segment. The chain is bound to the newest handle, in front of the flush when
another segment follows, and behind it in the last one. -/
def Segment.block (ctx : RunCtx) (globals : List LocalWrapper) (last : Bool) (k : Kernel)
    (g : Segment) : List Handle :=
  let p := segSweep ctx k g.opts (.ofKernel k)
  let cfgs := dimCfgs ctx.floats g.opts
  let links := chainLinks globals (g.opts.foldl addLocal []) (decide (.overrideGlobal ∈ g.opts))
  if last then
    let q := flushSweep ctx.floats k cfgs p.2
    p.1 ++ q.1 ++ [q.2.setWrappers links]
  else p.1 ++ (flushSweep ctx.floats k cfgs (p.2.setWrappers links)).handles

/-- The handles of consecutive segments, of kernels that are found. -/
inductive Blocks (ctx : RunCtx) (globals : List LocalWrapper) :
    List Segment → List (List Handle) → Prop
  | nil : Blocks ctx globals [] []
  | cons {g : Segment} {k : Kernel} {gs : List Segment} {bs : List (List Handle)} :
      kernelToAdd ctx.reg g.value = .ok k → (∀ o ∈ g.opts, o.Read ctx.floats) →
      Blocks ctx globals gs bs →
      Blocks ctx globals (g :: gs) (g.block ctx globals gs.isEmpty k :: bs)

theorem Blocks.of_mem_zip {ctx : RunCtx} {globals : List LocalWrapper} {gs : List Segment}
    {bs : List (List Handle)} (h : Blocks ctx globals gs bs) {g : Segment} {b : List Handle}
    (hmem : (g, b) ∈ gs.zip bs) :
    ∃ k last, kernelToAdd ctx.reg g.value = .ok k ∧ b = g.block ctx globals last k := by
  induction h with
  | nil => cases hmem
  | cons hk hread _ ih =>
      rw [List.zip_cons_cons, List.mem_cons] at hmem
      rcases hmem with heq | hmem
      · obtain ⟨rfl, rfl⟩ := Prod.mk.inj heq
        exact ⟨_, _, hk, rfl⟩
      · exact ih hmem

section Runs

variable {ctx : RunCtx} {k k' : Kernel} {s s' : RunState} {hs : List Handle} {h : Handle}
  {name value : Bytes} {cfgs : List DimConfig} {globals chain : List LocalWrapper} {og : Bool}
  {o : Opt}

/-- An option in front of the first segment. -/
theorem InLead.step (hin : InLead s globals) (ho : o.isKernel = false)
    (hseg : o.ofSegment = false) (hrun : o.handler ctx s = .ok () s') :
    InLead s' (addLocal globals o) := by
  obtain ⟨hdrv, hcfgs, rfl, hchain, hover, hseen⟩ := hin
  cases o with
  | kernel v => cases ho
  | wrapper v =>
      have hres := sfParseWrapper_eq_ok hrun
      rw [if_neg (by simp [hseen])] at hres
      subst hres
      exact ⟨hdrv, hcfgs, rfl, hchain, hover, hseen⟩
  | wrapperArgs v =>
      have hres := sfParseWrapperArgs_eq_ok hrun
      rw [if_neg (by simp [hseen])] at hres
      subst hres
      exact ⟨hdrv, hcfgs, rfl, hchain, hover, hseen⟩
  | timer v =>
      obtain rfl := sfParseTimer_eq_ok hrun
      exact ⟨hdrv, hcfgs, rfl, hchain, hover, hseen⟩
  | outargs v =>
      obtain ⟨r, rfl⟩ := sfParseOutargs_eq_ok hrun
      exact ⟨hdrv, hcfgs, rfl, hchain, hover, hseen⟩
  | dryRun =>
      obtain ⟨-, rfl⟩ := EStateM.Result.ok.inj hrun
      exact ⟨hdrv, hcfgs, rfl, hchain, hover, hseen⟩
  | _ => cases hseg

/-- The options in front of the first segment. -/
theorem InLead.run {opts : List Opt} (hin : InLead s globals)
    (hopts : ∀ o ∈ opts, o.isKernel = false ∧ o.ofSegment = false)
    (hrun : runOpts ctx opts s = .ok () s') : InLead s' (opts.foldl addLocal globals) := by
  induction opts generalizing s globals with
  | nil =>
      obtain ⟨-, rfl⟩ := EStateM.Result.ok.inj hrun
      exact hin
  | cons o os ih =>
      obtain ⟨⟨⟩, s₁, hone, hrest⟩ := bind_eq_ok.mp hrun
      obtain ⟨hkernel, hseg⟩ := hopts o (by simp)
      exact ih (hin.step hkernel hseg hone) (fun x hx => hopts x (by simp [hx])) hrest

/-- The bind to the newest handle. -/
theorem InSegment.bind (hin : InSegment s hs h name cfgs globals chain og)
    (hrun : bindNewest s = .ok () s') :
    InSegment s' hs (h.setWrappers (chainLinks globals chain og)) name cfgs globals [] false := by
  obtain ⟨hdrv, rfl, rfl, rfl, rfl, rfl, hseen⟩ := hin
  have hbind : bindNewest s = (if 0 < s.drv.handleList.length then
      propagateAt .cliRun (sfBindWrappersToHandle (s.drv.handleList.length - 1))
    else pure () : RunM Unit) s := rfl
  have hlen : s.drv.handleList.length - 1 = hs.length := by
    rw [hdrv, Driver.onNewest_handleList, List.length_append, List.length_singleton,
      Nat.add_sub_cancel]
  rw [hbind, if_pos (by rw [hdrv]; simp), hlen, propagateAt_eq_ok] at hrun
  have hset : sfBindWrappersToHandle hs.length s =
      (if maxWrapperLinks < s.boundLinks.length then runUndefined
      else do
        propagateAt .cliRun (onDriver (tpbDriverSetHdlWrappersIdx hs.length s.boundLinks))
        modify fun s =>
          { s with segmentWrappers := [], segmentHasOpenWrapper := false,
                   pendingOverrideGlobal := false } : RunM Unit) s := rfl
  rw [hset] at hrun
  split_ifs at hrun
  · cases hrun
  · obtain ⟨⟨⟩, s₁, hcall, hmodify⟩ := bind_eq_ok.mp hrun
    rw [propagateAt_eq_ok] at hcall
    obtain ⟨d, hd, rfl⟩ := onDriver_eq_ok.mp hcall
    rw [hdrv, setHdlWrappersIdx_onNewest] at hd
    obtain ⟨-, rfl⟩ := EStateM.Result.ok.inj hd
    obtain ⟨-, rfl⟩ := EStateM.Result.ok.inj hmodify
    exact ⟨rfl, rfl, rfl, rfl, rfl, rfl, hseen⟩

/-- The flush of the dimensions. -/
theorem InSegment.flush (hin : InSegment s hs h name cfgs globals chain og)
    (hk : kernelToAdd ctx.reg name = .ok k)
    (hcfgs : ∀ cfg ∈ cfgs, 0 < (tpbDimGenerateValues ctx.floats cfg).n)
    (hrun : sfFlushPendingDims ctx s = .ok () s') :
    InSegment s' (hs ++ (flushSweep ctx.floats k cfgs h).1) (flushSweep ctx.floats k cfgs h).2
      name [] globals chain og := by
  obtain ⟨hdrv, rfl, rfl, rfl, rfl, rfl, hseen⟩ := hin
  obtain rfl := sfFlushPendingDims_onNewest hdrv hk hcfgs hrun
  exact ⟨rfl, rfl, rfl, rfl, rfl, rfl, hseen⟩

/-- A kernel that is found has a name that fits. -/
theorem printedIn_of_kernelToAdd {reg : Registry} (hk : kernelToAdd reg value = .ok k) :
    printedIn nameStrMaxLen value = value :=
  printedIn_of_lt (by rw [← kernelToAdd_name hk]; exact k.name_lt)

/-- In front of the first segment there is no handle to bind to. -/
theorem InLead.bindNewest (hin : InLead s globals) : bindNewest s = .ok () s := by
  have hbind : TPBench.bindNewest s = (if 0 < s.drv.handleList.length then
      propagateAt .cliRun (sfBindWrappersToHandle (s.drv.handleList.length - 1))
    else pure () : RunM Unit) s := rfl
  rw [hbind, if_neg (by rw [hin.drv]; simp [Driver.empty])]
  rfl

/-- The handler of the first `--kernel`. -/
theorem InLead.kernel (hin : InLead s globals) (hrun : sfParseKernel ctx value s = .ok () s') :
    ∃ k, kernelToAdd ctx.reg value = .ok k ∧
      InSegment s' [] (.ofKernel k) value [] globals [] false := by
  have hnone := hin.bindNewest
  obtain ⟨hdrv, hcfgs, rfl, hchain, hover, hseen⟩ := hin
  obtain ⟨⟨⟩, s₁, hbind, hrest⟩ := bind_eq_ok.mp hrun
  obtain ⟨⟨⟩, s₂, hflush, hrest₂⟩ := bind_eq_ok.mp hrest
  obtain ⟨⟨⟩, s₃, hadd, hmodify⟩ := bind_eq_ok.mp hrest₂
  rw [hnone] at hbind
  obtain ⟨-, rfl⟩ := EStateM.Result.ok.inj hbind
  have hflush' : sfFlushPendingDims ctx s = .ok () { s with pendingDimCfgs := [] } := by
    have hnone : sfFlushPendingDims ctx s =
        ((onDriver (warnOnly (expandPending ctx s.pendingDimCfgs s.pendingKernelName))) >>=
          fun _ => modify fun s => { s with pendingDimCfgs := [] }) s := rfl
    rw [hnone, hcfgs]
    rfl
  rw [hflush'] at hflush
  obtain ⟨-, rfl⟩ := EStateM.Result.ok.inj hflush
  rw [propagateAt_eq_ok] at hadd
  obtain ⟨d, hd, rfl⟩ := onDriver_eq_ok.mp hadd
  obtain ⟨k, hk⟩ := tpbDriverAddHandle_eq_ok hd
  simp only [hdrv] at hd
  rw [tpbDriverAddHandle_empty hk] at hd
  obtain ⟨-, rfl⟩ := EStateM.Result.ok.inj hd
  obtain ⟨-, rfl⟩ := EStateM.Result.ok.inj hmodify
  exact ⟨k, hk, rfl, printedIn_of_kernelToAdd hk, rfl, rfl, hchain, hover, rfl⟩

/-- The handler of another `--kernel`. -/
theorem InSegment.kernel (hin : InSegment s hs h name cfgs globals chain og)
    (hk : kernelToAdd ctx.reg name = .ok k)
    (hcfgs : ∀ cfg ∈ cfgs, 0 < (tpbDimGenerateValues ctx.floats cfg).n)
    (hrun : sfParseKernel ctx value s = .ok () s') :
    ∃ k', kernelToAdd ctx.reg value = .ok k' ∧
      InSegment s' (hs ++ (flushSweep ctx.floats k cfgs
          (h.setWrappers (chainLinks globals chain og))).handles)
        (.ofKernel k') value [] globals [] false := by
  obtain ⟨⟨⟩, s₁, hbind, hrest⟩ := bind_eq_ok.mp hrun
  obtain ⟨⟨⟩, s₂, hflush, hrest₂⟩ := bind_eq_ok.mp hrest
  obtain ⟨⟨⟩, s₃, hadd, hmodify⟩ := bind_eq_ok.mp hrest₂
  obtain ⟨hdrv, -, hnone, hglobals, hchain, hover, hseen⟩ :=
    (hin.bind hbind).flush hk hcfgs hflush
  rw [propagateAt_eq_ok] at hadd
  obtain ⟨d, hd, rfl⟩ := onDriver_eq_ok.mp hadd
  obtain ⟨k', hk'⟩ := tpbDriverAddHandle_eq_ok hd
  rw [hdrv, addHandle_onNewest hk'] at hd
  obtain ⟨-, rfl⟩ := EStateM.Result.ok.inj hd
  obtain ⟨-, rfl⟩ := EStateM.Result.ok.inj hmodify
  refine ⟨k', hk', ?_, printedIn_of_kernelToAdd hk', hnone, hglobals, hchain, hover, rfl⟩
  rw [Sweep.handles, ← List.append_assoc]

/-- The end of the command line. -/
theorem InSegment.runEnd (hin : InSegment s hs h name cfgs globals chain og)
    (hk : kernelToAdd ctx.reg name = .ok k)
    (hcfgs : ∀ cfg ∈ cfgs, 0 < (tpbDimGenerateValues ctx.floats cfg).n)
    (hrun : TPBench.runEnd ctx s = .ok () s') :
    s'.drv.handleList = hs ++ ((flushSweep ctx.floats k cfgs h).1 ++
      [(flushSweep ctx.floats k cfgs h).2.setWrappers (chainLinks globals chain og)]) := by
  obtain ⟨⟨⟩, s₁, hflush, hbind⟩ := bind_eq_ok.mp hrun
  have hend := (hin.flush hk hcfgs hflush).bind hbind
  rw [hend.drv, Driver.onNewest_handleList, List.append_assoc]

/-- The dimensions that were read have values. -/
theorem pos_of_mem_dimCfgs {F : Doubles} {opts : List Opt} {cfg : DimConfig}
    (hcfg : cfg ∈ dimCfgs F opts) : 0 < (tpbDimGenerateValues F cfg).n := by
  obtain ⟨o, -, ho⟩ := List.mem_filterMap.mp hcfg
  cases o with
  | kargsDim v =>
      rw [Opt.dimCfg] at ho
      rcases hparse : tpbArgpParseDim F v with e | cfg'
      · rw [hparse] at ho
        cases ho
      · rw [hparse] at ho
        obtain rfl := Option.some.inj ho
        exact List.length_pos_iff.mpr (values_ne_nil hparse)
  | _ => cases ho

theorem runOpts_append (ctx : RunCtx) (a b : List Opt) :
    runOpts ctx (a ++ b) s = .ok () s' ↔
      ∃ s₁, runOpts ctx a s = .ok () s₁ ∧ runOpts ctx b s₁ = .ok () s' := by
  induction a generalizing s with
  | nil =>
      constructor
      · exact fun h => ⟨s, rfl, h⟩
      · rintro ⟨s₁, h₁, h₂⟩
        obtain ⟨-, rfl⟩ := EStateM.Result.ok.inj h₁
        exact h₂
  | cons o a ih =>
      constructor
      · intro h
        obtain ⟨⟨⟩, s₂, hone, hrest⟩ := bind_eq_ok.mp h
        obtain ⟨s₁, h₁, h₂⟩ := ih.mp hrest
        exact ⟨s₁, bind_eq_ok.mpr ⟨(), s₂, hone, h₁⟩, h₂⟩
      · rintro ⟨s₁, h₁, h₂⟩
        obtain ⟨⟨⟩, s₂, hone, hrest⟩ := bind_eq_ok.mp h₁
        exact bind_eq_ok.mpr ⟨(), s₂, hone, ih.mpr ⟨s₁, hrest, h₂⟩⟩

/-- No segment starts at another option. -/
theorem kernelStarts_append {a b : List Opt} (ha : ∀ o ∈ a, o.isKernel = false)
    (hrun : runOpts ctx a s = .ok () s') :
    kernelStarts ctx (a ++ b) s = kernelStarts ctx b s' := by
  induction a generalizing s with
  | nil =>
      obtain ⟨-, rfl⟩ := EStateM.Result.ok.inj hrun
      rfl
  | cons o a ih =>
      obtain ⟨⟨⟩, s₁, hone, hrest⟩ := bind_eq_ok.mp hrun
      rw [List.cons_append, kernelStarts, hone]
      simp only [ha o (by simp), Bool.false_eq_true, if_false]
      exact ih (fun x hx => ha x (by simp [hx])) hrest

/-- **The segments that are left** give the blocks that stand behind the handles there are. -/
theorem exists_blocks {g : Segment} {gs : List Segment} {s₁ : RunState}
    (hin : InSegment s hs (.ofKernel k) g.value [] globals [] false)
    (hk : kernelToAdd ctx.reg g.value = .ok k)
    (hopts : ∀ g' ∈ g :: gs, ∀ o ∈ g'.opts, o.isKernel = false)
    (hrun : runOpts ctx (g.opts ++ gs.flatMap Segment.all) s = .ok () s₁)
    (hend : runEnd ctx s₁ = .ok () s') :
    ∃ bs, Blocks ctx globals (g :: gs) bs ∧ s'.drv.handleList = hs ++ bs.flatten ∧
      hs.length :: kernelStarts ctx (g.opts ++ gs.flatMap Segment.all) s =
        startsFrom hs.length bs := by
  induction gs generalizing g k s hs with
  | nil =>
      rw [List.flatMap_nil, List.append_nil] at hrun
      obtain ⟨hlast, hreads⟩ := hin.run hk (hopts g (by simp)) hrun
      refine ⟨[g.block ctx globals true k], .cons hk hreads .nil, ?_, ?_⟩
      · rw [hlast.runEnd hk (fun cfg hcfg => pos_of_mem_dimCfgs hcfg) hend]
        simp [Segment.block]
      · rw [List.flatMap_nil, kernelStarts_append (hopts g (by simp)) hrun]
        rfl
  | cons g' gs ih =>
      obtain ⟨s₂, hopts₂, hrest⟩ := (runOpts_append ctx _ _).mp hrun
      obtain ⟨hafter, hreads⟩ := hin.run hk (hopts g (by simp)) hopts₂
      rw [List.nil_append, Bool.false_or] at hafter
      rw [List.flatMap_cons, Segment.all, List.cons_append] at hrest
      obtain ⟨⟨⟩, s₃, hkernel, hrest₃⟩ := bind_eq_ok.mp hrest
      obtain ⟨k', hk', hin'⟩ :=
        hafter.kernel hk (fun cfg hcfg => pos_of_mem_dimCfgs hcfg) hkernel
      obtain ⟨bs, hblocks, hlist, hstarts⟩ :=
        ih hin' hk' (fun x hx => hopts x (by simp [hx])) hrest₃
      have hlen : (hs ++ (segSweep ctx k g.opts (.ofKernel k)).1 ++
          (flushSweep ctx.floats k (dimCfgs ctx.floats g.opts)
            ((segSweep ctx k g.opts (.ofKernel k)).2.setWrappers (chainLinks globals
              (g.opts.foldl addLocal []) (decide (Opt.overrideGlobal ∈ g.opts))))).handles) =
          hs ++ g.block ctx globals false k := by
        simp [Segment.block]
      refine ⟨g.block ctx globals false k :: bs, .cons hk hreads hblocks, ?_, ?_⟩
      · rw [hlist, List.flatten_cons, ← List.append_assoc, ← hlen]
      · have hidx : s₃.drv.handleList.length - 1 =
            (hs ++ g.block ctx globals false k).length := by
          rw [hin'.drv, Driver.onNewest_handleList, List.length_append, List.length_singleton,
            Nat.add_sub_cancel, hlen]
        rw [hlen] at hstarts
        rw [kernelStarts_append (hopts g (by simp)) hopts₂, List.flatMap_cons, Segment.all,
          List.cons_append, kernelStarts, hkernel, startsFrom]
        simp only [Opt.isKernel, if_true]
        rw [hidx, hstarts, List.length_append]

end Runs

/-- The handles of each segment. -/
def segmentHandles (ctx : RunCtx) (opts : List Opt) (d : Driver) : List (List Handle) :=
  slices (kernelStarts ctx opts (runBegin .start)) d.handleList

/-- **The handles of a run**: the list of the driver, cut where the segments start, are the blocks
of the segments. -/
theorem segments_run {host : Host} {argv : List Bytes} {s' : RunState}
    (h : tpbcliRun host argv .start = .ok () s') :
    ∃ ctx opts, runCtx host argv = .ok ctx ∧ optsOfArgv argv = some opts ∧
      Blocks ctx ((leadOpts opts).foldl addLocal []) (segmentsOf opts)
        (segmentHandles ctx opts s'.drv) := by
  obtain ⟨ctx, opts, s₁, hctx, hargv, hearly, hrun, hend⟩ := tpbcliRun_eq_ok h
  refine ⟨ctx, opts, hctx, hargv, ?_⟩
  have hsplit := lead_append_segments opts
  have hlead : ∀ o ∈ leadOpts opts, o.isKernel = false ∧ o.ofSegment = false :=
    fun o ho => ⟨isKernel_of_mem_leadOpts ho, hearly o ho⟩
  have hin : InLead (runBegin .start) [] := ⟨rfl, rfl, rfl, rfl, rfl, rfl⟩
  rw [← hsplit] at hrun
  obtain ⟨s₂, hrun₂, hrest⟩ := (runOpts_append ctx _ _).mp hrun
  have hin₂ := hin.run hlead hrun₂
  have hstarts : kernelStarts ctx opts (runBegin .start) =
      kernelStarts ctx ((segmentsOf opts).flatMap Segment.all) s₂ := by
    conv_lhs => rw [← hsplit]
    exact kernelStarts_append (fun o ho => (hlead o ho).1) hrun₂
  rw [segmentHandles, hstarts]
  have hnone : ∀ g ∈ segmentsOf opts, ∀ o ∈ g.opts, o.isKernel = false :=
    fun g hg => isKernel_of_mem_segmentsOf hg
  rcases hsegs : segmentsOf opts with - | ⟨g, gs⟩
  · exact .nil
  · rw [hsegs, List.flatMap_cons, Segment.all, List.cons_append] at hrest
    rw [hsegs] at hnone
    obtain ⟨⟨⟩, s₃, hkernel, hrest₃⟩ := bind_eq_ok.mp hrest
    obtain ⟨k, hk, hin₃⟩ := hin₂.kernel hkernel
    obtain ⟨bs, hblocks, hlist, hidx⟩ := exists_blocks hin₃ hk hnone hrest₃ hend
    have hzero : s₃.drv.handleList.length - 1 = 0 := by
      rw [hin₃.drv]
      rfl
    rw [List.flatMap_cons, Segment.all, List.cons_append, kernelStarts, hkernel]
    simp only [Opt.isKernel, if_true]
    rw [hzero, hlist]
    have hcut := slices_startsFrom [] bs
    rw [← hidx] at hcut
    exact hcut.symm ▸ hblocks

/-- What a run of the subcommand leaves, with its options and what they read. -/
def afterRun (host : Host) (argv : List Bytes) : Option (RunCtx × List Opt × Driver) :=
  match runCtx host argv, optsOfArgv argv, tpbcliRun host argv .start with
  | .ok ctx, some opts, .ok () s' => some (ctx, opts, s'.drv)
  | _, _, _ => none

theorem afterRun_eq_some {host : Host} {argv : List Bytes} {r : RunCtx × List Opt × Driver}
    (h : r ∈ afterRun host argv) :
    ∃ s', runCtx host argv = .ok r.1 ∧ optsOfArgv argv = some r.2.1 ∧
      tpbcliRun host argv .start = .ok () s' ∧ s'.drv = r.2.2 := by
  rw [afterRun, Option.mem_def] at h
  split at h
  · rename_i ctx opts s' hctx hopts hrun
    obtain rfl := Option.some.inj h
    exact ⟨s', hctx, hopts, hrun, rfl⟩
  · cases h

theorem eq_ok_of_mem_toOption {ε α : Type} {e : Except ε α} {a : α} (h : a ∈ e.toOption) :
    e = .ok a := by
  cases e with
  | error e => cases h
  | ok b =>
      obtain rfl := Option.some.inj h
      rfl

/-! ### A machine -/

/-- The arithmetic of a machine on texts that are not numbers. -/
def letterDoubles : Doubles where
  strtod s := (0, s)
  lt _ _ := false
  lt32 _ _ := false
  eq _ _ := false
  add a _ := a
  sub a _ := a
  mul a _ := a
  div a _ := a
  pow a _ := a
  toI64 _ := none
  ofI64 _ := 0
  printG15 _ := []

theorem common_lt : (ascii "common".toList).length < nameStrMaxLen := by decide

theorem k_lt : (ascii ['k']).length < nameStrMaxLen := by decide

/-- A kernel `k` with an argument `c` of type `char`, and a machine that has it. -/
def letterHost : Host where
  floats := letterDoubles
  isX86 := false
  register _ :=
    (.ok (), {
      kernelCommon := ⟨ascii "common".toList, false, true, [], common_lt⟩
      kernelAll := [⟨ascii ['k'], true, true, [⟨ascii ['c'], 0, typeChar, []⟩], k_lt⟩] })

end TPBench
