import TPBench.Cli.Chains

/-!
# The Entries of a Bind

`_sf_bind_wrappers_to_handle` puts the links of a chain into an array of 32 entries on its
stack. The options limit the global chain and the chain of a segment to 32 links each, and a
bind takes both, so that up to 64 entries are written.

The numbers of entries of the binds of a run are listed in their order (`binds`), where the last
one is the first that does not fit: behind it a run is undefined. They are the numbers of links
that the options ask for, segment by segment, as far as the run goes (`binds_front`).

## Main results

* `binds_fit_iff`: the binds of an accepted command line stay in their array if and only if no
  segment has more than 32 links, the global ones among them unless it overrides them.
-/

open CFile

namespace TPBench

/-! ### The binds of a run -/

/-- The number of entries of a bind, where there is a handle to bind to. -/
def bindEntries (s : RunState) : List ℕ :=
  if 0 < s.drv.handleList.length then [s.boundLinks.length] else []

/-- The numbers of entries of the binds of a run: in front of every `--kernel`, and behind the
flush at the end. -/
def binds (ctx : RunCtx) : List Opt → RunState → List ℕ
  | [], s =>
      match sfFlushPendingDims ctx s with
      | .ok () s' => bindEntries s'
      | .error _ _ => []
  | o :: os, s =>
      (if o.isKernel then bindEntries s else []) ++
        match o.handler ctx s with
        | .ok () s' => binds ctx os s'
        | .error _ _ => []

/-- A command line is accepted: the options stand where the tree of the subcommand has them, and
nothing but a bind that does not fit its array keeps the run from its end. -/
structure Accepted (host : Host) (argv : List Bytes) (ctx : RunCtx) (opts : List Opt) : Prop where
  registers : runCtx host argv = .ok ctx
  scans : optsOfArgv argv = some opts
  early : Early opts
  runs : (∀ n ∈ binds ctx opts (runBegin .start), n ≤ maxWrapperLinks) →
    ∃ s', tpbcliRun host argv .start = .ok () s'

/-! ### The binds of the segments -/

section Prefix

variable {ctx : RunCtx} {k : Kernel} {s s' : RunState} {hs : List Handle} {h : Handle}
  {name : Bytes} {cfgs : List DimConfig} {globals chain : List LocalWrapper} {og : Bool}

/-- Options that start no segment have no bind. -/
theorem binds_append {a : List Opt} (ha : ∀ o ∈ a, o.isKernel = false) (b : List Opt)
    (s : RunState) :
    (∃ s₁, runOpts ctx a s = .ok () s₁ ∧ binds ctx (a ++ b) s = binds ctx b s₁) ∨
      (∀ s₁, runOpts ctx a s ≠ .ok () s₁) ∧ binds ctx (a ++ b) s = [] := by
  induction a generalizing s with
  | nil => exact .inl ⟨s, rfl, rfl⟩
  | cons o a ih =>
      rw [List.cons_append, binds, ha o List.mem_cons_self]
      cases hone : o.handler ctx s with
      | error e s₁ =>
          refine .inr ⟨?_, rfl⟩
          intro s₁' hrun
          obtain ⟨⟨⟩, s₂, hok, -⟩ := bind_eq_ok.mp hrun
          rw [hone] at hok
          cases hok
      | ok u s₁ =>
          rcases ih (fun x hx => ha x (List.mem_cons_of_mem _ hx)) s₁ with
            ⟨s₂, hrun, hbinds⟩ | ⟨hnone, hbinds⟩
          · exact .inl ⟨s₂, bind_eq_ok.mpr ⟨(), s₁, hone, hrun⟩, hbinds⟩
          · refine .inr ⟨?_, hbinds⟩
            intro s₂ hrun
            obtain ⟨⟨⟩, s₃, hok, hrest⟩ := bind_eq_ok.mp hrun
            rw [hone] at hok
            obtain ⟨-, rfl⟩ := EStateM.Result.ok.inj hok
            exact hnone s₂ hrest

/-- A run that goes past a known part and a known option goes on from there. -/
theorem runOpts_past {a b : List Opt} {o : Opt} {s₁ s₂ : RunState}
    (hrun : runOpts ctx a s = .ok () s₁) (hone : o.handler ctx s₁ = .ok () s₂)
    (hall : runOpts ctx (a ++ o :: b) s = .ok () s') : runOpts ctx b s₂ = .ok () s' := by
  obtain ⟨s₃, hfirst, hrest⟩ := (runOpts_append ctx _ _).mp hall
  rw [hrun] at hfirst
  obtain ⟨-, rfl⟩ := EStateM.Result.ok.inj hfirst
  obtain ⟨⟨⟩, s₄, hok, hrest₄⟩ := bind_eq_ok.mp hrest
  rw [hone] at hok
  obtain ⟨-, rfl⟩ := EStateM.Result.ok.inj hok
  exact hrest₄

/-- A run stops at an option that fails behind a known part. -/
theorem runOpts_stops {a b : List Opt} {o : Opt} {s₁ s₂ : RunState} {e : Err}
    (hrun : runOpts ctx a s = .ok () s₁) (hone : o.handler ctx s₁ = .error e s₂) :
    runOpts ctx (a ++ o :: b) s ≠ .ok () s' := by
  intro hall
  obtain ⟨s₃, hfirst, hrest⟩ := (runOpts_append ctx _ _).mp hall
  rw [hrun] at hfirst
  obtain ⟨-, rfl⟩ := EStateM.Result.ok.inj hfirst
  obtain ⟨⟨⟩, s₄, hok, -⟩ := bind_eq_ok.mp hrest
  rw [hone] at hok
  cases hok

/-- A run whose front does not end does not end. -/
theorem runOpts_front_stops {a : List Opt} (hnone : ∀ s₁, runOpts ctx a s ≠ .ok () s₁)
    (b : List Opt) : runOpts ctx (a ++ b) s ≠ .ok () s' := by
  intro hall
  obtain ⟨s₁, hfirst, -⟩ := (runOpts_append ctx _ _).mp hall
  exact hnone s₁ hfirst

/-- The entries of the bind of a segment. -/
theorem InSegment.bindEntries (hin : InSegment s hs h name cfgs globals chain og) :
    bindEntries s = [(chainLinks globals chain og).length] := by
  obtain ⟨hdrv, -, -, rfl, rfl, rfl, -⟩ := hin
  rw [TPBench.bindEntries, if_pos (by rw [hdrv]; simp)]
  rfl

/-- The entries of the bind of a segment are the links that its options ask for. -/
theorem length_chainLinks (lead : List Opt) (g : Segment) :
    (chainLinks (lead.foldl addLocal []) (g.opts.foldl addLocal [])
      (decide (.overrideGlobal ∈ g.opts))).length = (g.links lead).length := by
  rw [chainLinks_eq, List.length_map]

/-- **The binds of the segments that are left** are those of a part of them from the front, and
of all of them in a run that goes to its end. -/
theorem binds_segments {lead : List Opt} {g : Segment} {gs : List Segment}
    (hin : InSegment s hs (.ofKernel k) g.value [] (lead.foldl addLocal []) [] false)
    (hk : kernelToAdd ctx.reg g.value = .ok k)
    (hopts : ∀ g' ∈ g :: gs, ∀ o ∈ g'.opts, o.isKernel = false) :
    binds ctx (g.opts ++ gs.flatMap Segment.all) s <+:
        (g :: gs).map (fun g => (g.links lead).length) ∧
      ∀ s₁ s', runOpts ctx (g.opts ++ gs.flatMap Segment.all) s = .ok () s₁ →
        runEnd ctx s₁ = .ok () s' →
        binds ctx (g.opts ++ gs.flatMap Segment.all) s =
          (g :: gs).map (fun g => (g.links lead).length) := by
  induction gs generalizing g k s hs with
  | nil =>
      rw [List.flatMap_nil]
      rcases binds_append (hopts g List.mem_cons_self) [] s with
        ⟨s₁, hrun, hbinds⟩ | ⟨hnone, hbinds⟩
      · obtain ⟨hlast, -⟩ := hin.run hk (hopts g List.mem_cons_self) hrun
        rw [List.nil_append, Bool.false_or] at hlast
        rw [hbinds, binds]
        cases hflush : sfFlushPendingDims ctx s₁ with
        | error e s₂ =>
            refine ⟨List.nil_prefix, ?_⟩
            intro s₁' s' hrun' hend
            rw [List.append_nil, hrun] at hrun'
            obtain ⟨-, rfl⟩ := EStateM.Result.ok.inj hrun'
            obtain ⟨⟨⟩, s₂, hok, -⟩ := bind_eq_ok.mp hend
            rw [hflush] at hok
            cases hok
        | ok u s₂ =>
            have hafter := hlast.flush hk (fun cfg hcfg => pos_of_mem_dimCfgs hcfg) hflush
            have hentries := hafter.bindEntries
            rw [length_chainLinks] at hentries
            dsimp only
            rw [hentries]
            exact ⟨List.prefix_rfl, fun _ _ _ _ => rfl⟩
      · rw [hbinds]
        refine ⟨List.nil_prefix, ?_⟩
        intro s₁ s' hrun
        rw [List.append_nil] at hrun
        exact absurd hrun (hnone s₁)
  | cons g' gs ih =>
      rw [List.flatMap_cons, Segment.all, List.cons_append]
      rcases binds_append (hopts g List.mem_cons_self) (.kernel g'.value :: (g'.opts ++ gs.flatMap
          Segment.all)) s with ⟨s₁, hrun, hbinds⟩ | ⟨hnone, hbinds⟩
      · obtain ⟨hafter, -⟩ := hin.run hk (hopts g List.mem_cons_self) hrun
        rw [List.nil_append, Bool.false_or] at hafter
        have hentries := hafter.bindEntries
        rw [length_chainLinks] at hentries
        rw [hbinds, binds]
        simp only [Opt.isKernel, if_true]
        rw [hentries, List.map_cons, List.singleton_append]
        cases hkernel : (Opt.kernel g'.value).handler ctx s₁ with
        | error e s₂ =>
            refine ⟨?_, ?_⟩
            · rw [List.cons_prefix_cons]
              exact ⟨rfl, List.nil_prefix⟩
            · intro s₂' s' hrun'
              exact absurd hrun' (runOpts_stops hrun hkernel)
        | ok u s₂ =>
            obtain ⟨k', hk', hin'⟩ :=
              hafter.kernel hk (fun cfg hcfg => pos_of_mem_dimCfgs hcfg) hkernel
            obtain ⟨hfront, hall⟩ := ih hin' hk' fun x hx => hopts x (List.mem_cons_of_mem _ hx)
            refine ⟨?_, ?_⟩
            · rw [List.cons_prefix_cons]
              exact ⟨rfl, hfront⟩
            · intro s₂' s' hrun' hend
              exact congrArg _ (hall s₂' s' (runOpts_past hrun hkernel hrun') hend)
      · rw [hbinds]
        refine ⟨List.nil_prefix, ?_⟩
        intro s₁ s' hrun
        exact absurd hrun (runOpts_front_stops hnone _)

/-- In front of the first segment there is no handle to bind to. -/
theorem InLead.bindEntries (hin : InLead s globals) : bindEntries s = [] := by
  rw [TPBench.bindEntries, if_neg (by rw [hin.drv]; simp [Driver.empty])]

/-- Without dimensions there is nothing to flush. -/
theorem InLead.flush (hin : InLead s globals) (hrun : sfFlushPendingDims ctx s = .ok () s') :
    s'.drv = Driver.empty := by
  have hflush : sfFlushPendingDims ctx s =
      ((onDriver (warnOnly (expandPending ctx s.pendingDimCfgs s.pendingKernelName))) >>=
        fun _ => modify fun s => { s with pendingDimCfgs := [] }) s := rfl
  rw [hflush, hin.cfgs] at hrun
  obtain ⟨-, rfl⟩ := EStateM.Result.ok.inj hrun
  exact hin.drv

end Prefix

/-! ### The binds of a command line -/

section Command

variable {host : Host} {argv : List Bytes} {ctx : RunCtx} {opts : List Opt}

/-- **The binds of a run**: as far as the run goes, each segment is bound once, with the links that
its options ask for. -/
theorem binds_front (hearly : Early opts) :
    binds ctx opts (runBegin .start) <+:
        (segmentsOf opts).map (fun g => (g.links (leadOpts opts)).length) ∧
      ∀ s₁ s', runOpts ctx opts (runBegin .start) = .ok () s₁ → runEnd ctx s₁ = .ok () s' →
        binds ctx opts (runBegin .start) =
          (segmentsOf opts).map (fun g => (g.links (leadOpts opts)).length) := by
  have hsplit := lead_append_segments opts
  have hlead : ∀ o ∈ leadOpts opts, o.isKernel = false ∧ o.ofSegment = false :=
    fun o ho => ⟨isKernel_of_mem_leadOpts ho, hearly o ho⟩
  have hin : InLead (runBegin .start) [] := ⟨rfl, rfl, rfl, rfl, rfl, rfl⟩
  have hnone : ∀ g ∈ segmentsOf opts, ∀ o ∈ g.opts, o.isKernel = false :=
    fun g hg => isKernel_of_mem_segmentsOf hg
  rcases binds_append (fun o ho => (hlead o ho).1) ((segmentsOf opts).flatMap Segment.all)
      (runBegin .start) with ⟨s₂, hrun₂, hbinds⟩ | ⟨hstop, hbinds⟩
  · rw [hsplit] at hbinds
    have hin₂ := hin.run hlead hrun₂
    rw [hbinds]
    rcases hsegs : segmentsOf opts with - | ⟨g, gs⟩
    · -- no segment, no bind
      rw [List.flatMap_nil, binds]
      cases hflush : sfFlushPendingDims ctx s₂ with
      | error e s₃ => exact ⟨List.prefix_rfl, fun _ _ _ _ => rfl⟩
      | ok u s₃ =>
          have hentries : bindEntries s₃ = [] := by
            rw [bindEntries, if_neg (by rw [hin₂.flush hflush]; simp [Driver.empty])]
          dsimp only
          rw [hentries]
          exact ⟨List.prefix_rfl, fun _ _ _ _ => rfl⟩
    · rw [hsegs] at hnone hsplit
      rw [List.flatMap_cons, Segment.all, List.cons_append, binds]
      simp only [Opt.isKernel, if_true]
      rw [hin₂.bindEntries, List.nil_append]
      cases hkernel : (Opt.kernel g.value).handler ctx s₂ with
      | error e s₃ =>
          refine ⟨List.nil_prefix, ?_⟩
          intro s₁ s' hrun
          rw [← hsplit, List.flatMap_cons, Segment.all, List.cons_append] at hrun
          exact absurd hrun (runOpts_stops hrun₂ hkernel)
      | ok u s₃ =>
          obtain ⟨k, hk, hin₃⟩ := hin₂.kernel hkernel
          obtain ⟨hfront, hall⟩ := binds_segments hin₃ hk hnone
          refine ⟨hfront, ?_⟩
          intro s₁ s' hrun hend
          rw [← hsplit, List.flatMap_cons, Segment.all, List.cons_append] at hrun
          exact hall s₁ s' (runOpts_past hrun₂ hkernel hrun) hend
  · rw [hsplit] at hbinds
    rw [hbinds]
    refine ⟨List.nil_prefix, ?_⟩
    intro s₁ s' hrun
    rw [← hsplit] at hrun
    exact absurd hrun (runOpts_front_stops hstop _)

/-- **The binds of an accepted command line stay in their array** if and only if no segment has more
links than the array: the global ones, unless it overrides them, and its own. -/
theorem binds_fit_iff (haccept : Accepted host argv ctx opts) :
    (∀ n ∈ binds ctx opts (runBegin .start), n ≤ maxWrapperLinks) ↔
      ∀ g ∈ segmentsOf opts, (g.links (leadOpts opts)).length ≤ maxWrapperLinks := by
  obtain ⟨hfront, hall⟩ := @binds_front ctx opts haccept.early
  constructor
  · intro hfit g hg
    obtain ⟨s', hrun⟩ := haccept.runs hfit
    obtain ⟨ctx', opts', s₁, hctx, hopts, -, hopts', hend⟩ := tpbcliRun_eq_ok hrun
    rw [haccept.registers] at hctx
    obtain rfl := Except.ok.inj hctx
    rw [haccept.scans] at hopts
    obtain rfl := Option.some.inj hopts
    refine hfit _ ?_
    rw [hall s₁ s' hopts' hend]
    exact List.mem_map.mpr ⟨g, hg, rfl⟩
  · intro hfit n hn
    obtain ⟨g, hg, rfl⟩ := List.mem_map.mp (hfront.subset hn)
    exact hfit g hg

/-- A wrapper on the command line. -/
def wrapperWords : List Bytes := [nameWrapper, ascii ['w']]

/-- `run` with wrappers in front of `--kernel k` and behind it. -/
def wrappedArgv (globals own : ℕ) : List Bytes :=
  [ascii "tpbcli".toList, nameRun] ++
    (List.replicate globals wrapperWords).flatten ++ [nameKernel, ascii ['k']] ++
    (List.replicate own wrapperWords).flatten

/-- What the handlers read, the options, and the binds of a command line. -/
def bindsOf (host : Host) (argv : List Bytes) : Option (RunCtx × List Opt × List ℕ) :=
  match runCtx host argv, optsOfArgv argv with
  | .ok ctx, some opts => some (ctx, opts, binds ctx opts (runBegin .start))
  | _, _ => none

theorem bindsOf_eq_some {r : RunCtx × List Opt × List ℕ} (h : r ∈ bindsOf host argv) :
    runCtx host argv = .ok r.1 ∧ optsOfArgv argv = some r.2.1 ∧
      binds r.1 r.2.1 (runBegin .start) = r.2.2 := by
  rw [bindsOf, Option.mem_def] at h
  split at h
  · rename_i ctx opts hctx hopts
    obtain rfl := Option.some.inj h
    exact ⟨hctx, hopts, rfl⟩
  · cases h

instance (opts : List Opt) : Decidable (Early opts) :=
  inferInstanceAs (Decidable (∀ o ∈ opts.takeWhile (!·.isKernel), o.ofSegment = false))

/-- The error with which the run of a command line stops, if it does. -/
def stopsWith (host : Host) (argv : List Bytes) : Option Err :=
  match tpbcliRun host argv .start with
  | .ok () _ => none
  | .error e _ => some e

theorem stopsWith_eq_none (h : stopsWith host argv = none) :
    ∃ s', tpbcliRun host argv .start = .ok () s' := by
  rw [stopsWith] at h
  split at h
  · exact ⟨_, by assumption⟩
  · cases h

theorem stopsWith_eq_some {e : Err} (h : stopsWith host argv = some e) :
    ∃ s', tpbcliRun host argv .start = .error e s' := by
  rw [stopsWith] at h
  split at h
  · cases h
  · obtain rfl := Option.some.inj h
    exact ⟨_, by assumption⟩

/-- With one wrapper in front of the kernel and one behind it, the bind fits. -/
theorem two_links_fit :
    ∃ ctx opts, Accepted letterHost (wrappedArgv 1 1) ctx opts ∧
      ((∀ n ∈ binds ctx opts (runBegin .start), n ≤ maxWrapperLinks) ↔
        ∀ g ∈ segmentsOf opts, (g.links (leadOpts opts)).length ≤ maxWrapperLinks) := by
  have hrun : (∃ r ∈ bindsOf letterHost (wrappedArgv 1 1), Early r.2.1) ∧
      stopsWith letterHost (wrappedArgv 1 1) = none := by
    decide +kernel
  obtain ⟨⟨r, hr, hearly⟩, hgoes⟩ := hrun
  obtain ⟨hctx, hopts, -⟩ := bindsOf_eq_some hr
  have haccept : Accepted letterHost (wrappedArgv 1 1) r.1 r.2.1 :=
    ⟨hctx, hopts, hearly, fun _ => stopsWith_eq_none hgoes⟩
  exact ⟨r.1, r.2.1, haccept, binds_fit_iff haccept⟩

/-- With 32 wrappers in front of the kernel and one behind it, every option is accepted, and the
bind writes 33 entries. -/
theorem thirty_three_links :
    ∃ ctx opts, Accepted letterHost (wrappedArgv 32 1) ctx opts ∧
      binds ctx opts (runBegin .start) = [33] ∧
      ¬(∀ n ∈ binds ctx opts (runBegin .start), n ≤ maxWrapperLinks) ∧
      ∃ s', tpbcliRun letterHost (wrappedArgv 32 1) .start = .error .undefined s' := by
  have hrun : (∃ r ∈ bindsOf letterHost (wrappedArgv 32 1), Early r.2.1 ∧ r.2.2 = [33]) ∧
      stopsWith letterHost (wrappedArgv 32 1) = some .undefined := by
    decide +kernel
  obtain ⟨⟨r, hr, hearly, hbinds⟩, hundef⟩ := hrun
  obtain ⟨hctx, hopts, hlist⟩ := bindsOf_eq_some hr
  rw [hbinds] at hlist
  have hover : ¬(∀ n ∈ binds r.1 r.2.1 (runBegin .start), n ≤ maxWrapperLinks) := by
    intro hfit
    rw [hlist] at hfit
    have hle := hfit 33 (List.mem_singleton.mpr rfl)
    rw [maxWrapperLinks] at hle
    omega
  exact ⟨r.1, r.2.1, ⟨hctx, hopts, hearly, fun hfit => absurd hfit hover⟩, hlist, hover,
    stopsWith_eq_some hundef⟩

end Command

end TPBench
