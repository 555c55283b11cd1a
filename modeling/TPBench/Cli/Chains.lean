import Mathlib.Data.List.ModifyLast
import TPBench.Cli.Segments
import TPBench.Odometer

/-!
# The Wrapper Chains of a Command Line

The options ask for a chain: the links in front of the first `--kernel`, unless the segment
overrides them, and behind them those of the segment (`Segment.chain`). A run binds the chain of
a segment to the newest handle only. In front of another `--kernel` it does so before the
dimensions of the segment are expanded, whose handles are copies and take the chain with them; at
the end of the command line it does so afterwards, and the copies have none. The handles of
`--kenvs-dim` are there before either, and never have one.

Every handle of a segment has its chain if and only if no copy is left behind in this way
(`Segment.ChainMet`). The arguments of a link are joined by blanks, but not behind a first one
that is empty.
-/

open CFile

namespace TPBench

/-! ### What the options ask for -/

/-- The links behind an option: an application, and the values of the `--wrapper-args` behind it
without their quotes. -/
def addLink (links : List (Bytes × List Bytes)) : Opt → List (Bytes × List Bytes)
  | .wrapper v => links ++ [(v, [])]
  | .wrapperArgs v => links.modifyLast fun l => (l.1, l.2 ++ [sfUnquoteArgstr v])
  | _ => links

/-- The links of a sequence of options. -/
def linksOf (opts : List Opt) : List (Bytes × List Bytes) := opts.foldl addLink []

/-- The links of the chain of a segment: the global ones, unless it overrides them, and its
own. -/
def Segment.links (lead : List Opt) (g : Segment) : List (Bytes × List Bytes) :=
  (if .overrideGlobal ∈ g.opts then [] else linksOf lead) ++ linksOf g.opts

/-- The chain of a segment: applications with their arguments, joined by single blanks. -/
def Segment.chain (lead : List Opt) (g : Segment) : List (Bytes × Bytes) :=
  (g.links lead).map fun l => (l.1, joinSep 32 l.2)

/-- The chain of a handle. -/
def Handle.chain (h : Handle) : List (Bytes × Bytes) :=
  h.wrappers.map fun l => (l.app, l.args.getD [])

/-- Every handle of a segment carries the chain of the segment. -/
def ChainsRight (ctx : RunCtx) (opts : List Opt) (d : Driver) : Prop :=
  List.Forall₂ (fun g block => ∀ h ∈ block, h.chain = g.chain (leadOpts opts)) (segmentsOf opts)
    (segmentHandles ctx opts d)

/-- No link of a chain is longer than the arrays it is stored in. -/
def LinksFit (opts : List Opt) : Prop :=
  ∀ g ∈ segmentsOf opts, ∀ l ∈ g.links (leadOpts opts),
    l.1.length < nameStrMaxLen ∧ (joinSep 32 l.2).length < cliStrMaxLen

/-! ### Links as the subcommand collects them -/

/-- The arguments of a link, joined the way they are collected. -/
def collectedArgs (cs : List Bytes) : Bytes := joinSep 32 (cs.dropWhile (·.isEmpty))

/-- A link as it is collected. -/
def localOf (l : Bytes × List Bytes) : LocalWrapper :=
  l.2.foldl LocalWrapper.addArgs ⟨printedIn nameStrMaxLen l.1, []⟩

section Links

variable {links : List (Bytes × List Bytes)} {cs : List Bytes} {w : LocalWrapper}

theorem addArgsToLast_concat (content : Bytes) (ws : List LocalWrapper) (w : LocalWrapper) :
    addArgsToLast content (ws ++ [w]) = ws ++ [w.addArgs content] := by
  induction ws with
  | nil => rfl
  | cons v ws ih =>
      rcases ws with - | ⟨u, ws⟩
      · rfl
      · exact congrArg (v :: ·) ih

/-- An option does to the collected links what it asks for. -/
theorem addLocal_map_localOf (links : List (Bytes × List Bytes)) (o : Opt) :
    addLocal (links.map localOf) o = (addLink links o).map localOf := by
  cases o with
  | wrapper v =>
      rw [addLocal, addLink, List.map_append]
      rfl
  | wrapperArgs v =>
      rcases List.eq_nil_or_concat' links with rfl | ⟨ls, l, rfl⟩
      · rfl
      · rw [addLocal, addLink, List.modifyLast_concat, List.map_append, List.map_append,
          List.map_singleton, List.map_singleton, addArgsToLast_concat, localOf, localOf,
          List.foldl_append]
        rfl
  | _ => rfl

theorem foldl_addLocal (links : List (Bytes × List Bytes)) (opts : List Opt) :
    opts.foldl addLocal (links.map localOf) = (opts.foldl addLink links).map localOf := by
  induction opts generalizing links with
  | nil => rfl
  | cons o os ih => rw [List.foldl_cons, List.foldl_cons, addLocal_map_localOf, ih]

/-- The chain that is bound consists of the links the options ask for. -/
theorem chainLinks_eq (lead : List Opt) (g : Segment) :
    chainLinks (lead.foldl addLocal []) (g.opts.foldl addLocal [])
        (decide (.overrideGlobal ∈ g.opts)) =
      (g.links lead).map fun l => linkOfLocal (localOf l) := by
  have hlead := foldl_addLocal [] lead
  have hopts := foldl_addLocal [] g.opts
  rw [List.map_nil] at hlead hopts
  rw [chainLinks, hlead, hopts, Segment.links, linksOf, linksOf]
  by_cases hover : Opt.overrideGlobal ∈ g.opts
  · simp [hover, Function.comp_def]
  · simp [hover, Function.comp_def]

theorem length_collectedArgs_le (cs : List Bytes) :
    (collectedArgs cs).length ≤ (joinSep 32 cs).length := by
  induction cs with
  | nil => exact le_rfl
  | cons c cs ih =>
      rcases c with - | ⟨b, bs⟩
      · rw [collectedArgs, List.dropWhile_cons_of_pos (by simp)]
        refine ih.trans ?_
        by_cases hcs : cs = []
        · simp [hcs]
        · rw [joinSep_cons hcs]
          simp
      · rw [collectedArgs, List.dropWhile_cons_of_neg (by simp)]

/-- **Arguments are joined by single blanks** unless the first of several is empty. -/
theorem collectedArgs_eq_iff (cs : List Bytes) :
    collectedArgs cs = joinSep 32 cs ↔ cs.length ≤ 1 ∨ cs.head? ≠ some [] := by
  rcases cs with - | ⟨- | ⟨b, bs⟩, cs⟩
  · simp [collectedArgs]
  · by_cases hcs : cs = []
    · simp [hcs, collectedArgs]
    · have hshort : ¬collectedArgs ([] :: cs) = joinSep 32 ([] :: cs) := by
        intro heq
        have hlen := congrArg List.length heq
        rw [collectedArgs, List.dropWhile_cons_of_pos (by simp), joinSep_cons hcs,
          List.nil_append, List.length_cons] at hlen
        have hle := length_collectedArgs_le cs
        rw [collectedArgs] at hle
        omega
      have hpos := List.length_pos_iff.mpr hcs
      simp only [hshort, List.length_cons, List.head?_cons, ne_eq, not_true_eq_false, or_false,
        false_iff]
      omega
  · simp [collectedArgs]

theorem collectedArgs_concat (cs : List Bytes) (c : Bytes) :
    collectedArgs (cs ++ [c]) =
      if collectedArgs cs = [] then c else collectedArgs cs ++ 32 :: c := by
  induction cs with
  | nil =>
      rcases c with - | ⟨b, bs⟩
      · rfl
      · simp [collectedArgs]
  | cons d cs ih =>
      rcases d with - | ⟨b, bs⟩
      · rw [collectedArgs, collectedArgs, List.cons_append, List.dropWhile_cons_of_pos (by simp),
          List.dropWhile_cons_of_pos (by simp)]
        exact ih
      · have hne : joinSep 32 ((b :: bs) :: cs) ≠ [] := by
          by_cases hcs : cs = []
          · simp [hcs]
          · simp [joinSep_cons hcs]
        rw [collectedArgs, collectedArgs, List.cons_append, List.dropWhile_cons_of_neg (by simp),
          List.dropWhile_cons_of_neg (by simp), if_neg hne, ← List.cons_append,
          joinSep_append_singleton (by simp)]

/-- A link that fits is collected as a whole. -/
theorem localOf_eq {l : Bytes × List Bytes} (happ : l.1.length < nameStrMaxLen)
    (hargs : (joinSep 32 l.2).length < cliStrMaxLen) :
    localOf l = ⟨l.1, collectedArgs l.2⟩ := by
  obtain ⟨app, cs⟩ := l
  induction cs using List.reverseRecOn with
  | nil =>
      rw [localOf, List.foldl_nil, printedIn_of_lt happ]
      rfl
  | append_singleton cs c ih =>
      have hless := ih happ ((length_joinSep_le cs [c]).trans_lt hargs)
      have hall := (length_collectedArgs_le (cs ++ [c])).trans_lt hargs
      rw [localOf] at hless
      rw [localOf, List.foldl_append, List.foldl_cons, List.foldl_nil, hless,
        LocalWrapper.addArgs]
      simp only
      rw [collectedArgs_concat] at hall ⊢
      split_ifs at hall ⊢ with hnil
      · rw [printedIn_of_lt hall]
      · rw [List.length_append] at hall
        rw [printedIn_of_lt (by omega)]

/-- A link that fits as it is bound. -/
def boundLink (l : Bytes × List Bytes) : WrapperLink :=
  ⟨l.1, if collectedArgs l.2 = [] then none else some (collectedArgs l.2)⟩

/-- The links that are bound to a handle. -/
theorem setWrappers_eq {links : List (Bytes × List Bytes)} (h : Handle)
    (hfit : ∀ l ∈ links, l.1.length < nameStrMaxLen ∧
      (joinSep 32 l.2).length < cliStrMaxLen) :
    (h.setWrappers (links.map fun l => linkOfLocal (localOf l))).wrappers =
      links.map boundLink := by
  rw [Handle.setWrappers, List.map_map]
  refine List.map_congr_left fun l hl => ?_
  obtain ⟨happ, hargs⟩ := hfit l hl
  rw [Function.comp_apply, localOf_eq happ hargs, linkOfLocal, boundLink, printedIn_of_lt happ]
  simp only
  rw [printedIn_of_lt happ]
  split_ifs with hnil
  · rfl
  · simp [Option.filter, hnil]

/-- Another handle has the same links. -/
theorem sfWrapperpackCopy_boundLink {links : List (Bytes × List Bytes)}
    (hfit : ∀ l ∈ links, l.1.length < nameStrMaxLen) :
    sfWrapperpackCopy (links.map boundLink) = links.map boundLink := by
  rw [sfWrapperpackCopy, List.map_map]
  refine List.map_congr_left fun l hl => ?_
  rw [Function.comp_apply, boundLink, printedIn_of_lt (hfit l hl)]

/-- The chain of a handle with links that are bound. -/
theorem chain_of_wrappers {h : Handle} {links : List (Bytes × List Bytes)}
    (hw : h.wrappers = links.map boundLink) :
    h.chain = links.map fun l => (l.1, collectedArgs l.2) := by
  rw [Handle.chain, hw, List.map_map]
  refine List.map_congr_left fun l hl => ?_
  rw [Function.comp_apply, boundLink]
  split_ifs with hnil
  · rw [hnil]
    rfl
  · rfl

end Links

/-! ### Where every handle has its chain -/

/-- The dimensions `--kenvs-dim` have one value each. -/
def Opt.OneEnv (F : Doubles) (o : Opt) : Prop :=
  ∀ v cfg, o = .kenvsDim v → tpbArgpParseDim F v = .ok cfg → (tpbDimGenerateValues F cfg).n = 1

/-- The dimensions `--kargs-dim` add no handle: they have one value each, or there is only one
dimension, of which the kernel does not take the first value. -/
def FlushFlat (F : Doubles) (k : Kernel) : List DimConfig → Prop
  | [] => True
  | [cfg] =>
      (tpbDimGenerateValues F cfg).n = 1 ∨
        ∃ e, dimKarg F (tpbDimGenerateValues F cfg) 0 (.ofKernel k) = .error e
  | cfgs => ∀ cfg ∈ cfgs, (tpbDimGenerateValues F cfg).n = 1

/-- **When a segment has its chain on every handle.** -/
structure Segment.ChainMet (ctx : RunCtx) (lead : List Opt) (last : Bool) (g : Segment) : Prop where
  joins : ∀ l ∈ g.links lead, l.2.length ≤ 1 ∨ l.2.head? ≠ some []
  copies : g.links lead = [] ∨ ((∀ o ∈ g.opts, o.OneEnv ctx.floats) ∧
    (last → ∀ k, kernelToAdd ctx.reg g.value = .ok k →
      FlushFlat ctx.floats k (dimCfgs ctx.floats g.opts)))

/-- When all segments have, of which the last one is told apart. -/
def ChainsMet (ctx : RunCtx) (lead : List Opt) : List Segment → Prop
  | [] => True
  | g :: gs => g.ChainMet ctx lead gs.isEmpty ∧ ChainsMet ctx lead gs

section Met

variable {ctx : RunCtx} {k : Kernel} {h : Handle} {lead : List Opt} {g : Segment}

/-- A value that is not taken is taken by no handle of the kernel. -/
theorem dimKarg_error_iff {F : Doubles} (hof : h.Of k) (v : DimValues) (i : ℕ) :
    (∃ e, dimKarg F v i h = .error e) ↔ ∃ e, dimKarg F v i (.ofKernel k) = .error e := by
  rw [dimKarg, dimKarg]
  split
  · rfl
  · rw [hof.setKarg_eq, (Handle.of_ofKernel k).setKarg_eq]
    split
    · rfl
    · split
      · rfl
      · simp

/-- The flush adds no handle. -/
theorem flushSweep_fst_eq_nil {F : Doubles} (hof : h.Of k) {cfgs : List DimConfig}
    (hcfgs : ∀ cfg ∈ cfgs, 0 < (tpbDimGenerateValues F cfg).n) :
    (flushSweep F k cfgs h).1 = [] ↔ FlushFlat F k cfgs := by
  rcases cfgs with - | ⟨cfg, - | ⟨cfg', cfgs⟩⟩
  · simp [flushSweep, FlushFlat]
  · have hpos := hcfgs cfg (by simp)
    rw [flushSweep, sweepOver_fst_eq_nil, dimKarg_error_iff hof, FlushFlat]
    exact or_congr_left ⟨fun hle => by omega, fun heq => by omega⟩
  · rw [flushSweep, sweepCombos, sweepOf_fst_eq_nil, List.map_eq_nil_iff, List.range'_eq_nil_iff,
      FlushFlat]
    · have hpos : 0 < (((cfg :: cfg' :: cfgs).map (tpbDimGenerateValues F)).map (·.n)).prod := by
        refine List.prod_pos fun n hn => ?_
        obtain ⟨v, hv, rfl⟩ := List.mem_map.mp hn
        obtain ⟨c, hc, rfl⟩ := List.mem_map.mp hv
        exact hcfgs c hc
      have hone : (((cfg :: cfg' :: cfgs).map (tpbDimGenerateValues F)).map (·.n)).prod - 1 = 0 ↔
          (((cfg :: cfg' :: cfgs).map (tpbDimGenerateValues F)).map (·.n)).prod = 1 := by
        omega
      rw [hone, Odometer.prod_eq_one_iff, List.map_map, List.forall_mem_map]
      rfl
    · simp
    · simp
    · simp
    · simp

/-- The options add no handle before the flush. -/
theorem segSweep_fst_eq_nil {opts : List Opt} (hread : ∀ o ∈ opts, o.Read ctx.floats) :
    (segSweep ctx k opts h).1 = [] ↔ ∀ o ∈ opts, o.OneEnv ctx.floats := by
  induction opts generalizing h with
  | nil => simp [segSweep]
  | cons o os ih =>
      have hone : (o.sweep ctx k h).1 = [] ↔ o.OneEnv ctx.floats := by
        have hother : (∀ v, o ≠ .kenvsDim v) → o.OneEnv ctx.floats :=
          fun hne v cfg ho => (hne v ho).elim
        cases o with
        | kenvsDim v =>
            obtain ⟨cfg, hcfg, htexts⟩ := hread _ List.mem_cons_self
            have hpos : 0 < (tpbDimGenerateValues ctx.floats cfg).n :=
              List.length_pos_iff.mpr (values_ne_nil hcfg)
            obtain ⟨t, ht⟩ := htexts 0 hpos
            have htaken : ¬∃ e, dimEnv ctx.floats (tpbDimGenerateValues ctx.floats cfg) 0 h =
                .error e := by
              rintro ⟨e, he⟩
              rw [dimEnv, ht] at he
              cases he
            simp only [Opt.sweep, hcfg]
            rw [envSweep, sweepOver_fst_eq_nil, or_iff_left htaken]
            constructor
            · rintro hle v' cfg' hv hcfg'
              obtain rfl := Opt.kenvsDim.inj hv
              rw [hcfg] at hcfg'
              obtain rfl := Except.ok.inj hcfg'
              omega
            · intro hall
              exact (hall v cfg rfl hcfg).le
        | _ => exact iff_of_true rfl (hother fun v hv => by cases hv)
      rw [segSweep, List.append_eq_nil_iff, hone,
        ih fun x hx => hread x (List.mem_cons_of_mem _ hx), List.forall_mem_cons]

/-- Handles without links before handles of a chain. -/
theorem forall_chain_iff {A B : List Handle} {links : List (Bytes × List Bytes)}
    (hA : ∀ h ∈ A, h.wrappers = []) (hB : ∀ h ∈ B, h.wrappers = links.map boundLink)
    (hne : B ≠ []) :
    (∀ h ∈ A ++ B, h.chain = links.map fun l => (l.1, joinSep 32 l.2)) ↔
      (links = [] ∨ A = []) ∧ ∀ l ∈ links, l.2.length ≤ 1 ∨ l.2.head? ≠ some [] := by
  have hbound : ∀ h ∈ B, (h.chain = links.map fun l => (l.1, joinSep 32 l.2)) ↔
      ∀ l ∈ links, l.2.length ≤ 1 ∨ l.2.head? ≠ some [] := by
    intro h hh
    rw [chain_of_wrappers (hB h hh), List.map_inj_left]
    simp only [Prod.mk.injEq, true_and, collectedArgs_eq_iff]
  have hbare : ∀ h ∈ A, (h.chain = links.map fun l => (l.1, joinSep 32 l.2)) ↔ links = [] := by
    intro h hh
    rw [Handle.chain, hA h hh, List.map_nil, eq_comm, List.map_eq_nil_iff]
  obtain ⟨b, hb⟩ := List.exists_mem_of_ne_nil B hne
  constructor
  · intro hall
    refine ⟨?_, (hbound b hb).mp (hall b (List.mem_append_right _ hb))⟩
    rcases A with - | ⟨a, A⟩
    · exact .inr rfl
    · exact .inl ((hbare a (by simp)).mp (hall a (by simp)))
  · rintro ⟨hcopies, hjoins⟩ h hh
    rcases List.mem_append.mp hh with hh | hh
    · rcases hcopies with hnil | rfl
      · exact (hbare h hh).mpr hnil
      · cases hh
    · exact (hbound h hh).mpr hjoins

/-- **One segment**: its handles have its chain when the condition holds. -/
theorem block_chain_iff {last : Bool} (hk : kernelToAdd ctx.reg g.value = .ok k)
    (hread : ∀ o ∈ g.opts, o.Read ctx.floats)
    (hfit : ∀ l ∈ g.links lead, l.1.length < nameStrMaxLen ∧
      (joinSep 32 l.2).length < cliStrMaxLen) :
    (∀ h ∈ g.block ctx (lead.foldl addLocal []) last k, h.chain = g.chain lead) ↔
      g.ChainMet ctx lead last := by
  have hsweep : ∀ h ∈ (segSweep ctx k g.opts (.ofKernel k)).handles, h.wrappers = [] :=
    (inherited_wrappers rfl ctx.floats k).segSweep g.opts rfl
  have hof : (segSweep ctx k g.opts (.ofKernel k)).2.Of k :=
    (inherited_of ctx.floats k).segSweep g.opts (Handle.of_ofKernel k) _ (by simp [Sweep.handles])
  have hcopy := sfWrapperpackCopy_boundLink fun l hl => (hfit l hl).1
  have hflat : (flushSweep ctx.floats k (dimCfgs ctx.floats g.opts)
      (segSweep ctx k g.opts (.ofKernel k)).2).1 = [] ↔
        FlushFlat ctx.floats k (dimCfgs ctx.floats g.opts) :=
    flushSweep_fst_eq_nil hof fun cfg hcfg => pos_of_mem_dimCfgs hcfg
  have hfound : (∀ k', kernelToAdd ctx.reg g.value = .ok k' →
      FlushFlat ctx.floats k' (dimCfgs ctx.floats g.opts)) ↔
        FlushFlat ctx.floats k (dimCfgs ctx.floats g.opts) := by
    constructor
    · exact fun hall => hall k hk
    · intro hone k' hk'
      rw [hk] at hk'
      exact Except.ok.inj hk' ▸ hone
  have hmet : g.ChainMet ctx lead last ↔
      (g.links lead = [] ∨ ((∀ o ∈ g.opts, o.OneEnv ctx.floats) ∧
        (last → FlushFlat ctx.floats k (dimCfgs ctx.floats g.opts)))) ∧
      ∀ l ∈ g.links lead, l.2.length ≤ 1 ∨ l.2.head? ≠ some [] := by
    rw [← hfound]
    exact ⟨fun h => ⟨h.copies, h.joins⟩, fun h => ⟨h.2, h.1⟩⟩
  rw [hmet, Segment.block, chainLinks_eq, Segment.chain]
  cases last with
  | true =>
      simp only [if_true, forall_const]
      rw [forall_chain_iff, List.append_eq_nil_iff, segSweep_fst_eq_nil hread, hflat]
      · intro h hh
        rcases List.mem_append.mp hh with hh | hh
        · exact hsweep h (List.mem_append_left _ hh)
        · exact (inherited_wrappers rfl ctx.floats k).flushSweep _
            (hsweep _ (by simp [Sweep.handles])) h (List.mem_append_left _ hh)
      · intro h hh
        rw [List.mem_singleton.mp hh]
        exact setWrappers_eq _ hfit
      · simp
  | false =>
      simp only [Bool.false_eq_true, if_false, false_implies, and_true]
      rw [forall_chain_iff, segSweep_fst_eq_nil hread]
      · exact fun h hh => hsweep h (List.mem_append_left _ hh)
      · exact (inherited_wrappers hcopy ctx.floats k).flushSweep _ (setWrappers_eq _ hfit)
      · simp [Sweep.handles]

/-- All segments. -/
theorem forall_blocks_iff {gs : List Segment} {bs : List (List Handle)}
    (hblocks : Blocks ctx (lead.foldl addLocal []) gs bs)
    (hfit : ∀ g ∈ gs, ∀ l ∈ g.links lead, l.1.length < nameStrMaxLen ∧
      (joinSep 32 l.2).length < cliStrMaxLen) :
    List.Forall₂ (fun g block => ∀ h ∈ block, h.chain = g.chain lead) gs bs ↔
      ChainsMet ctx lead gs := by
  induction hblocks with
  | nil => simp [ChainsMet]
  | cons hk hread _ ih =>
      rw [List.forall₂_cons, ChainsMet, block_chain_iff hk hread (hfit _ (by simp)),
        ih fun g hg => hfit g (List.mem_cons_of_mem _ hg)]

end Met

/-! ### Runs -/

section Runs

variable {host : Host} {argv : List Bytes} {ctx : RunCtx} {opts : List Opt} {s' : RunState}

/-- **Every handle carries the chain of its segment** if and only if each segment meets the
condition: it has no links, or no handle of it is there before the chain is bound and none is
added behind the bind. -/
theorem chainsRight_iff (hctx : runCtx host argv = .ok ctx) (hopts : optsOfArgv argv = some opts)
    (hfit : LinksFit opts) (hrun : tpbcliRun host argv .start = .ok () s') :
    ChainsRight ctx opts s'.drv ↔ ChainsMet ctx (leadOpts opts) (segmentsOf opts) := by
  obtain ⟨ctx', opts', hctx', hopts', hblocks⟩ := segments_run hrun
  rw [hctx] at hctx'
  obtain rfl := Except.ok.inj hctx'
  rw [hopts] at hopts'
  obtain rfl := Option.some.inj hopts'
  exact forall_blocks_iff hblocks hfit

/-- `run --wrapper w --kernel k --kargs-dim c=[a,b]`. -/
def lettersArgv : List Bytes :=
  [ascii "tpbcli".toList, nameRun, nameWrapper, ascii ['w'], nameKernel,
    ascii ['k'], nameKargsDim, ascii "c=[a,b]".toList]

instance (ctx : RunCtx) (opts : List Opt) (d : Driver) : Decidable (ChainsRight ctx opts d) :=
  inferInstanceAs (Decidable (List.Forall₂ (fun g block => ∀ h ∈ block,
    h.chain = g.chain (leadOpts opts)) (segmentsOf opts) (segmentHandles ctx opts d)))

instance (opts : List Opt) : Decidable (LinksFit opts) :=
  inferInstanceAs (Decidable (∀ g ∈ segmentsOf opts, ∀ l ∈ g.links (leadOpts opts),
    l.1.length < nameStrMaxLen ∧ (joinSep 32 l.2).length < cliStrMaxLen))

/-- With another segment behind it, both handles of the segment have the chain, and so does the
handle of the other one. -/
theorem chainsMet_letters :
    ∃ ctx opts s', runCtx letterHost (lettersArgv ++ [nameKernel, ascii ['k']]) = .ok ctx ∧
      optsOfArgv (lettersArgv ++ [nameKernel, ascii ['k']]) = some opts ∧ LinksFit opts ∧
      tpbcliRun letterHost (lettersArgv ++ [nameKernel, ascii ['k']]) .start = .ok () s' ∧
      ChainsMet ctx (leadOpts opts) (segmentsOf opts) := by
  have hrun : ∃ r ∈ afterRun letterHost (lettersArgv ++ [nameKernel, ascii ['k']]),
      LinksFit r.2.1 ∧ ChainsRight r.1 r.2.1 r.2.2 := by
    decide +kernel
  obtain ⟨r, hr, hfit, hright⟩ := hrun
  obtain ⟨s', hctx, hopts, hok, hdrv⟩ := afterRun_eq_some hr
  rw [← hdrv] at hright
  exact ⟨r.1, r.2.1, s', hctx, hopts, hfit, hok,
    (chainsRight_iff hctx hopts hfit hok).mp hright⟩

/-- The first of the two handles of the last segment has no wrapper. -/
theorem letters_not_chainsRight :
    ∃ ctx opts s', runCtx letterHost lettersArgv = .ok ctx ∧
      optsOfArgv lettersArgv = some opts ∧ LinksFit opts ∧
      tpbcliRun letterHost lettersArgv .start = .ok () s' ∧ ¬ChainsRight ctx opts s'.drv := by
  have hrun : ∃ r ∈ afterRun letterHost lettersArgv,
      LinksFit r.2.1 ∧ ¬ChainsRight r.1 r.2.1 r.2.2 := by
    decide +kernel
  obtain ⟨r, hr, hfit, hwrong⟩ := hrun
  obtain ⟨s', hctx, hopts, hok, hdrv⟩ := afterRun_eq_some hr
  rw [← hdrv] at hwrong
  exact ⟨r.1, r.2.1, s', hctx, hopts, hfit, hok, hwrong⟩

end Runs

end TPBench
