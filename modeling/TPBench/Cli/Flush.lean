import TPBench.Cli.SweepDims

/-!
# The Combinations a Flush Makes

The dimensions `--kargs-dim` of a segment are kept back and expanded together, for one of them
by `expand_dim_handles` and for several by `_sf_expand_cartesian_kargs`. The second one counts
through the combinations and takes the counter apart by division, the last dimension first.
Combination 0 is set on the handle that is there, and every other one on a copy of that handle,
which holds the values of combination 0 already.

`flush_expands` says what comes of it where every value is accepted: a handle for every
combination, in the order of the counter, each with the values of its own combination and with
everything else as the original handle had it.

## Main definitions

* `dimValue`: the value a kernel stores for a value of a dimension.
* `Combined`: a handle holds the values of a combination, and else what another handle holds.
-/

open CFile Odometer

namespace TPBench

/-! ### Values of a dimension -/

/-- The value a kernel stores for the value of an index. -/
def dimValue (F : Doubles) (k : Kernel) (v : DimValues) (i : ℕ) : Option UInt64 :=
  match v.text F i with
  | .error _ => none
  | .ok t => k.argValue F v.parmName t

/-- The kernel accepts every value. -/
def DimValues.Accepted (F : Doubles) (k : Kernel) (v : DimValues) : Prop :=
  ∀ i < v.n, ∃ w, dimValue F k v i = some w

/-- The numbers of values. -/
def sizes (vals : List DimValues) : List ℕ := vals.map (·.n)

section Values

variable {F : Doubles} {k : Kernel} {v : DimValues} {vs vals : List DimValues} {h h' : Handle}
  {i c : ℕ} {name : Bytes}

/-- A value is set exactly when the kernel stores it. -/
theorem exists_dimKarg_iff (hof : h.Of k) :
    (∃ h', dimKarg F v i h = .ok h') ↔ ∃ w, dimValue F k v i = some w := by
  rw [dimKarg, dimValue]
  rcases v.text F i with e | t
  · simp
  · simp only [setKarg_ok_iff hof, Option.isSome_iff_exists]

/-- The arguments behind a value that is set. -/
theorem arg?_dimKarg (hof : h.Of k) (hset : dimKarg F v i h = .ok h') (name : Bytes) :
    h'.arg? name = if name = v.parmName then dimValue F k v i else h.arg? name := by
  rw [dimKarg] at hset
  rw [dimValue]
  rcases htext : v.text F i with e | t
  · rw [htext] at hset
    cases hset
  · rw [htext] at hset
    exact arg?_setKarg hof hset name

/-- Behind a combination an argument has a value of one of the dimensions under its name, or it is
as it was. The dimensions are in reverse here. -/
theorem arg?_digitsOn (hall : ∀ v ∈ vs, v.Accepted F k ∧ 0 < v.n) (hof : h.Of k) (name : Bytes) :
    (∀ v ∈ vs, v.parmName ≠ name) ∧ (digitsOn F vs c h).arg? name = h.arg? name ∨
      ∃ i, ∃ hi : i < vs.length, vs[i].parmName = name ∧
        (digitsOn F vs c h).arg? name =
          dimValue F k vs[i] (c / ((sizes vs).take i).prod % vs[i].n) := by
  induction vs generalizing c h with
  | nil => exact .inl ⟨by simp, rfl⟩
  | cons v vs ih =>
      obtain ⟨haccept, hpos⟩ := hall v (by simp)
      obtain ⟨h', hset⟩ := (exists_dimKarg_iff hof).mpr (haccept _ (Nat.mod_lt c hpos))
      have hof' := (inherited_of F k).dimKarg v _ h h' hset hof
      have hon : digitsOn F (v :: vs) c h = digitsOn F vs (c / v.n) h' := by
        rw [digitsOn, hset]
      have harg := arg?_dimKarg hof hset name
      rw [hon]
      rcases ih (fun x hx => hall x (by simp [hx])) hof' (c := c / v.n) with
        ⟨hnone, hsame⟩ | ⟨i, hi, hname, hvalue⟩
      · rw [hsame, harg]
        by_cases hv : name = v.parmName
        · right
          refine ⟨0, by simp, hv.symm, ?_⟩
          rw [if_pos hv, List.take_zero, List.prod_nil, Nat.div_one]
          rfl
        · left
          refine ⟨fun x hx => ?_, if_neg hv⟩
          rcases List.mem_cons.mp hx with rfl | hx
          · exact Ne.symm hv
          · exact hnone x hx
      · right
        refine ⟨i + 1, by simpa using hi, hname, ?_⟩
        rw [hvalue, Nat.div_div_eq_div_mul]
        rfl

/-- **An argument behind a combination**: it has the value of a dimension under its name, at the
position the counter gives the dimension, or it is as it was. -/
theorem arg?_combination (hall : ∀ v ∈ vals, v.Accepted F k ∧ 0 < v.n) (hof : h.Of k)
    (name : Bytes) :
    (∀ v ∈ vals, v.parmName ≠ name) ∧ (digitsOn F vals.reverse c h).arg? name = h.arg? name ∨
      ∃ j, ∃ hj : j < vals.length, vals[j].parmName = name ∧
        (digitsOn F vals.reverse c h).arg? name =
          dimValue F k vals[j] (place (sizes vals) c j) := by
  have hall' : ∀ v ∈ vals.reverse, v.Accepted F k ∧ 0 < v.n :=
    fun v hv => hall v (List.mem_reverse.mp hv)
  rcases arg?_digitsOn (c := c) hall' hof name with ⟨hnone, hsame⟩ | ⟨i, hi, hname, hvalue⟩
  · exact .inl ⟨fun v hv => hnone v (List.mem_reverse.mpr hv), hsame⟩
  · right
    have hi' : i < vals.length := by simpa using hi
    have hget : vals.reverse[i] = vals[vals.length - 1 - i] := List.getElem_reverse _
    have hlen : (sizes vals).length = vals.length := List.length_map _
    refine ⟨vals.length - 1 - i, by omega, hget ▸ hname, ?_⟩
    have hi'' : i < (sizes vals).length := hlen.symm ▸ hi'
    have hplace := place_eq_reverse hi'' c
    have hrev : (sizes vals).reverse = sizes vals.reverse := (List.map_reverse).symm
    have hsize : (sizes vals.reverse).getD i 1 = vals.reverse[i].n := by
      rw [sizes, List.getD_eq_getElem?_getD, List.getElem?_map, List.getElem?_eq_getElem hi]
      rfl
    rw [hlen, hrev, hsize] at hplace
    rw [hvalue, hplace, hget]

end Values

/-! ### Accepted values are set -/

section Progress

variable {ctx : RunCtx} {k : Kernel} {hs : List Handle} {h : Handle} {s : RunState}
  {name : Bytes} {vals : List DimValues}

theorem applyDigits_accepted {F : Doubles} {vs : List DimValues} (hs : List Handle) (c : ℕ)
    (hall : ∀ v ∈ vs, v.Accepted F k ∧ 0 < v.n) (hof : h.Of k) :
    applyDigits F vs c none (Driver.onNewest hs h) =
      .ok none (Driver.onNewest hs (digitsOn F vs c h)) := by
  induction vs generalizing h c with
  | nil => rfl
  | cons v vs ih =>
      obtain ⟨haccept, hpos⟩ := hall v (by simp)
      obtain ⟨h', hset⟩ := (exists_dimKarg_iff hof).mpr (haccept _ (Nat.mod_lt c hpos))
      have happly := appliesAs_dimKarg F v (c % v.n) hs h
      rw [hset] at happly
      rw [applyDigits, digitsOn, hset]
      simp only [happly]
      exact ih _ (fun x hx => hall x (by simp [hx]))
        ((inherited_of F k).dimKarg v _ h h' hset hof)

/-- The rounds behind the first one. -/
theorem cartesianLoop_accepted_further {h₀ : Handle} {i : ℕ} {cs : List ℕ}
    (hk : kernelToAdd ctx.reg name = .ok k)
    (hall : ∀ v ∈ vals, v.Accepted ctx.floats k ∧ 0 < v.n)
    (hsrc : (hs ++ [h])[i]? = some h₀) (hcs : 0 ∉ cs) :
    ∃ d, cartesianLoop ctx name (some i) vals cs none (Driver.onNewest hs h) = .ok none d := by
  induction cs generalizing hs h with
  | nil => exact ⟨_, rfl⟩
  | cons c cs ih =>
      rw [List.mem_cons, not_or] at hcs
      have hadd : handleForValue ctx.reg name (some i) c (Driver.onNewest hs h) =
          .ok () (Driver.onNewest (hs ++ [h]) (.another k h₀)) := by
        rw [handleForValue, if_neg (Ne.symm hcs.1), anotherHandle_onNewest hk hsrc]
      have hdigits := applyDigits_accepted (hs ++ [h]) c
        (fun v hv => hall v (List.mem_reverse.mp hv)) (Handle.of_another k h₀)
      rw [cartesianLoop]
      simp only [hadd, hdigits]
      refine ih ?_ hcs.2
      rw [List.getElem?_append_left (List.getElem?_eq_some_iff.mp hsrc).1, hsrc]

theorem cartesianLoop_accepted (hs : List Handle) (total : ℕ)
    (hk : kernelToAdd ctx.reg name = .ok k)
    (hall : ∀ v ∈ vals, v.Accepted ctx.floats k ∧ 0 < v.n) (hof : h.Of k) :
    ∃ d, cartesianLoop ctx name (some hs.length) vals (List.range total) none
      (Driver.onNewest hs h) = .ok none d := by
  rcases total with - | n
  · exact ⟨_, rfl⟩
  · have hrange : List.range (n + 1) = 0 :: List.range' 1 n := by
      rw [List.range_eq_range', List.range'_succ]
    have hfirst : handleForValue ctx.reg name (some hs.length) 0 (Driver.onNewest hs h) =
        .ok () (Driver.onNewest hs h) := rfl
    have hdigits := applyDigits_accepted hs 0 (fun v hv => hall v (List.mem_reverse.mp hv)) hof
    rw [hrange, cartesianLoop]
    simp only [hfirst, hdigits]
    exact cartesianLoop_accepted_further hk hall List.getElem?_concat_length (by simp)

/-- A product that fits an `int` is computed. -/
theorem exists_intProduct {ns : List ℕ} (total : ℕ) (hpos : ∀ n ∈ ns, 0 < n)
    (hfit : total * ns.prod < 2147483648) : ∃ r, intProduct total ns = some r := by
  induction ns generalizing total with
  | nil => exact ⟨total, rfl⟩
  | cons n ns ih =>
      have hrest : ∀ m ∈ ns, 0 < m := fun m hm => hpos m (by simp [hm])
      rw [List.prod_cons, ← Nat.mul_assoc] at hfit
      have hpart : total * n ≤ total * n * ns.prod :=
        Nat.le_mul_of_pos_right _ (List.prod_pos hrest)
      rw [intProduct, if_neg (by omega)]
      exact ih _ hrest hfit

/-- Dimensions whose values are all accepted are expanded without an error. -/
theorem expandPending_accepted {cfgs : List DimConfig} (hs : List Handle)
    (hk : kernelToAdd ctx.reg name = .ok k)
    (hall : ∀ v ∈ cfgs.map (tpbDimGenerateValues ctx.floats),
      v.Accepted ctx.floats k ∧ 0 < v.n)
    (hfit : (sizes (cfgs.map (tpbDimGenerateValues ctx.floats))).prod < 2147483648)
    (hof : h.Of k) :
    ∃ d, expandPending ctx cfgs name (Driver.onNewest hs h) = .ok () d := by
  rcases cfgs with - | ⟨cfg, - | ⟨cfg', cfgs⟩⟩
  · exact ⟨_, rfl⟩
  · have hexpand : expandPending ctx [cfg] name (Driver.onNewest hs h) =
        propagateAt .cliRun (expandOver ctx.reg name (some hs.length)
          (applyDimValue ctx.floats (tpbDimGenerateValues ctx.floats cfg))
          (List.range (tpbDimGenerateValues ctx.floats cfg).n)) (Driver.onNewest hs h) := rfl
    rw [hexpand]
    rcases expandOver_onNewest hk
      (appliesAs_dimKarg ctx.floats (tpbDimGenerateValues ctx.floats cfg)) hs h
      (tpbDimGenerateValues ctx.floats cfg).n with ⟨hok, -⟩ | ⟨e, ⟨i, hi, x, hx, herr⟩, -⟩
    · exact ⟨_, propagateAt_eq_ok.mpr hok⟩
    · have hofx : x.Of k := by
        rcases hx with rfl | ⟨src, rfl⟩
        · exact hof
        · exact Handle.of_another k src
      obtain ⟨x', hset⟩ := (exists_dimKarg_iff hofx).mpr ((hall _ (by simp)).1 i hi)
      rw [hset] at herr
      cases herr
  · have hpos : ∀ n ∈ sizes ((cfg :: cfg' :: cfgs).map (tpbDimGenerateValues ctx.floats)),
        0 < n := by
      intro n hn
      obtain ⟨v, hv, rfl⟩ := List.mem_map.mp hn
      exact (hall v hv).2
    obtain ⟨total, htotal⟩ := exists_intProduct 1 hpos (by rwa [Nat.one_mul])
    obtain ⟨d, hloop⟩ := cartesianLoop_accepted hs total hk hall hof
    have hexpand : expandPending ctx (cfg :: cfg' :: cfgs) name (Driver.onNewest hs h) =
        ((cartesianLoop ctx name (some hs.length)
          ((cfg :: cfg' :: cfgs).map (tpbDimGenerateValues ctx.floats))
          (List.range total) none) >>= returnErr) (Driver.onNewest hs h) := by
      change sfExpandCartesianKargs ctx (cfg :: cfg' :: cfgs) name (Driver.onNewest hs h) = _
      rw [sizes] at htotal
      simp only [sfExpandCartesianKargs, htotal]
      rfl
    rw [hexpand, bind_ok hloop]
    exact ⟨d, rfl⟩

end Progress

/-! ### The states a flush starts in -/

section Known

variable {ctx : RunCtx} {s s' : RunState}

/-- The strings of copies, and behind the setters, are in their arrays. -/
theorem inherited_stored (F : Doubles) (k : Kernel) : Inherited F k Handle.Stored where
  another _ hst := (Handle.stored_ofKernel k).copyFrom hst
  setKarg _ _ _ _ hset hst := hst.setKarg hset
  setEnv _ name value hst := hst.setEnv name value

/-- What is known of the state between two options: no segment has begun, or the newest handle is
one of the kernel of the segment, with its strings in their arrays, and the dimensions that are
kept back have values. -/
inductive Known (ctx : RunCtx) (s : RunState) : Prop
  | lead {globals : List LocalWrapper} : InLead s globals → Known ctx s
  | segment {hs : List Handle} {h : Handle} {k : Kernel} {name : Bytes} {cfgs : List DimConfig}
      {globals chain : List LocalWrapper} {og : Bool} :
      InSegment s hs h name cfgs globals chain og → kernelToAdd ctx.reg name = .ok k →
      h.Of k → h.Stored → (∀ cfg ∈ cfgs, 0 < (tpbDimGenerateValues ctx.floats cfg).n) →
      Known ctx s

/-- One option. -/
theorem Known.step {o : Opt} (hin : Known ctx s)
    (hearly : s.seenFirstKernel = true ∨ o.isKernel = true ∨ o.ofSegment = false)
    (hrun : o.handler ctx s = .ok () s') : Known ctx s' := by
  rcases hin with hlead | ⟨hseg, hk, hof, hst, hpos⟩
  · rcases o.kernel_or with ⟨v, rfl⟩ | ho
    · obtain ⟨k, hk, hseg⟩ := hlead.kernel hrun
      exact .segment hseg hk (Handle.of_ofKernel k) (Handle.stored_ofKernel k) (by simp)
    · rw [hlead.seen, ho] at hearly
      exact .lead (hlead.step ho (by simpa using hearly) hrun)
  · rcases o.kernel_or with ⟨v, rfl⟩ | ho
    · obtain ⟨k', hk', hseg'⟩ := hseg.kernel hk hpos hrun
      exact .segment hseg' hk' (Handle.of_ofKernel k') (Handle.stored_ofKernel k') (by simp)
    · obtain ⟨hseg', -⟩ := hseg.step hk ho hrun
      have hnewest : ∀ p : Sweep, p.2 ∈ p.handles := fun p => by simp [Sweep.handles]
      refine .segment hseg' hk ((inherited_of ctx.floats _).sweep o hof _ (hnewest _))
        ((inherited_stored ctx.floats _).sweep o hst _ (hnewest _)) fun cfg hcfg => ?_
      rcases List.mem_append.mp hcfg with hcfg | hcfg
      · exact hpos cfg hcfg
      · exact pos_of_mem_dimCfgs hcfg

/-- Behind a `--kernel` a segment has begun, and it stays so. -/
theorem Known.seen_of_step {o : Opt} (hin : Known ctx s)
    (hkernel : s.seenFirstKernel = true ∨ o.isKernel = true)
    (hrun : o.handler ctx s = .ok () s') : s'.seenFirstKernel = true := by
  rcases hin with hlead | ⟨hseg, hk, -, -, hpos⟩
  · rcases o.kernel_or with ⟨v, rfl⟩ | ho
    · obtain ⟨k, -, hseg⟩ := hlead.kernel hrun
      exact hseg.seen
    · rw [hlead.seen, ho] at hkernel
      simp at hkernel
  · rcases o.kernel_or with ⟨v, rfl⟩ | ho
    · obtain ⟨k', -, hseg'⟩ := hseg.kernel hk hpos hrun
      exact hseg'.seen
    · exact (hseg.step hk ho hrun).1.seen

/-- The options of a command line, up to some place. -/
theorem Known.run {opts : List Opt} (hin : Known ctx s)
    (hearly : s.seenFirstKernel = true ∨ Early opts)
    (hrun : runOpts ctx opts s = .ok () s') : Known ctx s' := by
  induction opts generalizing s with
  | nil =>
      obtain ⟨-, rfl⟩ := EStateM.Result.ok.inj hrun
      exact hin
  | cons o os ih =>
      obtain ⟨⟨⟩, s₁, hone, hrest⟩ := bind_eq_ok.mp hrun
      by_cases hkernel : s.seenFirstKernel = true ∨ o.isKernel = true
      · refine ih (hin.step ?_ hone) (.inl (hin.seen_of_step hkernel hone)) hrest
        exact hkernel.imp_right .inl
      · rw [not_or] at hkernel
        have htake : (o :: os).takeWhile (!·.isKernel) = o :: os.takeWhile (!·.isKernel) :=
          List.takeWhile_cons_of_pos (by simpa using hkernel.2)
        have hfirst : Early (o :: os) := hearly.resolve_left hkernel.1
        rw [Early, htake] at hfirst
        exact ih (hin.step (.inr (.inr (hfirst o (by simp)))) hone)
          (.inr fun x hx => hfirst x (by simp [hx])) hrest

/-- The state of a flush: behind some options of a command line, where it ends, and behind the bind
of the chain, where another segment starts. -/
def Flushing (ctx : RunCtx) (s : RunState) : Prop :=
  ∃ opts s₀, Early opts ∧ runOpts ctx opts (runBegin .start) = .ok () s₀ ∧
    (s = s₀ ∨ bindNewest s₀ = .ok () s)

/-- The state of a flush is known. -/
theorem Flushing.known (hflush : Flushing ctx s) : Known ctx s := by
  obtain ⟨opts, s₀, hearly, hrun, hs⟩ := hflush
  have hstart : Known ctx (runBegin .start) := .lead ⟨rfl, rfl, rfl, rfl, rfl, rfl⟩
  have hin := hstart.run (.inr hearly) hrun
  rcases hs with rfl | hbind
  · exact hin
  · rcases hin with hlead | ⟨hseg, hk, hof, hst, hpos⟩
    · rw [hlead.bindNewest] at hbind
      obtain ⟨-, rfl⟩ := EStateM.Result.ok.inj hbind
      exact .lead hlead
    · exact .segment (hseg.bind hbind) hk (hof.setWrappers _) (hst.setWrappers _) hpos

end Known

/-! ### The handles of a flush -/

/-- The values of the dimensions that are kept back. -/
def RunState.pendingValues (F : Doubles) (s : RunState) : List DimValues :=
  s.pendingDimCfgs.map (tpbDimGenerateValues F)

/-- A handle has the values of a combination, and all else as another handle has it. -/
structure Combined (F : Doubles) (k : Kernel) (vals : List DimValues) (h : Handle) (c : ℕ)
    (h' : Handle) : Prop where
  dim : ∀ j (hj : j < vals.length), ∃ w,
    dimValue F k vals[j] (place (sizes vals) c j) = some w ∧ h'.arg? vals[j].parmName = some w
  other : ∀ name, (∀ v ∈ vals, v.parmName ≠ name) → h'.arg? name = h.arg? name
  envs : h'.envs = h.envs
  wrappers : h'.wrappers = h.wrappers

section Combined

variable {F : Doubles} {k : Kernel} {vals : List DimValues} {h h₀ : Handle} {c : ℕ}

/-- Wrappers whose names fit are copied as they are. -/
theorem Handle.Stored.copy_wrappers (hst : h.Stored) :
    sfWrapperpackCopy h.wrappers = h.wrappers := by
  rw [sfWrapperpackCopy]
  conv_rhs => rw [← List.map_id h.wrappers]
  refine List.map_congr_left fun l hl => ?_
  rw [printedIn_of_lt (hst.wrapper l hl)]
  rfl

theorem another_envs (k : Kernel) (h : Handle) : (Handle.another k h).envs = h.envs := by
  change (if h.envs = [] then [] else h.envs) = h.envs
  split_ifs with hnil
  · exact hnil.symm
  · rfl

theorem Combined.of_digitsOn (hall : ∀ v ∈ vals, v.Accepted F k ∧ 0 < v.n)
    (hnames : (vals.map (·.parmName)).Nodup) (hof : h₀.Of k)
    (hother : ∀ name, (∀ v ∈ vals, v.parmName ≠ name) → h₀.arg? name = h.arg? name)
    (henvs : h₀.envs = h.envs) (hwrappers : h₀.wrappers = h.wrappers)
    (hcopy : sfWrapperpackCopy h.wrappers = h.wrappers) (c : ℕ) :
    Combined F k vals h c (digitsOn F vals.reverse c h₀) := by
  constructor
  · intro j hj
    have hpos : ∀ n ∈ sizes vals, 0 < n := by
      intro n hn
      obtain ⟨v, hv, rfl⟩ := List.mem_map.mp hn
      exact (hall v hv).2
    have hsize : (sizes vals).getD j 1 = vals[j].n := by
      rw [sizes, List.getD_eq_getElem?_getD, List.getElem?_map, List.getElem?_eq_getElem hj]
      rfl
    have hlt := hsize ▸ place_lt hpos c j
    obtain ⟨w, hw⟩ := (hall vals[j] (List.getElem_mem hj)).1 _ hlt
    refine ⟨w, hw, ?_⟩
    rcases arg?_combination (c := c) hall hof vals[j].parmName with
      ⟨hnone, -⟩ | ⟨i, hi, hname, hvalue⟩
    · exact absurd rfl (hnone _ (List.getElem_mem hj))
    · have hij : i = j := by
        have hi' : i < (vals.map (·.parmName)).length := by simpa using hi
        have hj' : j < (vals.map (·.parmName)).length := by simpa using hj
        have hget : (vals.map (·.parmName))[i] = (vals.map (·.parmName))[j] := by
          rw [List.getElem_map, List.getElem_map]
          exact hname
        exact hnames.getElem_inj_iff.mp hget
      subst hij
      rw [hvalue, hw]
  · intro name hnone
    rcases arg?_combination (c := c) hall hof name with ⟨-, hsame⟩ | ⟨i, hi, hname, -⟩
    · rw [hsame, hother name hnone]
    · exact absurd hname (hnone _ (List.getElem_mem hi))
  · rw [envs_digitsOn, henvs]
  · exact (inherited_wrappers hcopy F k).digitsOn _ _ hwrappers

/-- The handle of a combination: the original one for the first, and a copy of it for others. -/
def comboHandle (F : Doubles) (k : Kernel) (vals : List DimValues) (h : Handle) (c : ℕ) : Handle :=
  if c = 0 then digitsOn F vals.reverse 0 h
  else digitsOn F vals.reverse c (.another k (digitsOn F vals.reverse 0 h))

/-- **The handle of a combination** holds its values, although the original has those of the first
combination already when it is copied. -/
theorem Combined.of_comboHandle (hall : ∀ v ∈ vals, v.Accepted F k ∧ 0 < v.n)
    (hnames : (vals.map (·.parmName)).Nodup) (hof : h.Of k) (hst : h.Stored) (c : ℕ) :
    Combined F k vals h c (comboHandle F k vals h c) := by
  have hcopy := hst.copy_wrappers
  have hfirst : Combined F k vals h 0 (digitsOn F vals.reverse 0 h) :=
    .of_digitsOn hall hnames hof (fun _ _ => rfl) rfl rfl hcopy 0
  have hof₀ := (inherited_of F k).digitsOn vals.reverse 0 hof
  rw [comboHandle]
  split_ifs with hc
  · rw [hc]
    exact hfirst
  · refine .of_digitsOn hall hnames (Handle.of_another k _) (fun name hnone => ?_) ?_ ?_ hcopy c
    · rw [arg?_another hof₀, hfirst.other name hnone]
    · rw [another_envs, hfirst.envs]
    · rw [Handle.another_wrappers, hfirst.wrappers, hcopy]

theorem handles_sweepCombos {total : ℕ} (htotal : 0 < total) :
    (sweepCombos F vals k h total).handles = (List.range total).map (comboHandle F k vals h) := by
  obtain ⟨n, rfl⟩ := Nat.exists_eq_succ_of_ne_zero htotal.ne'
  rw [sweepCombos, handles_sweepOf, Nat.succ_eq_add_one, Nat.add_sub_cancel,
    List.range_eq_range', List.range'_succ, List.map_cons]
  refine congrArg _ (List.map_congr_left fun c hc => ?_)
  have hne : c ≠ 0 := by
    have := (List.mem_range'_1.mp hc).1
    omega
  rw [comboHandle, if_neg hne]

theorem Driver.swept_eq (hs : List Handle) (p : Sweep) :
    Driver.swept hs p = ⟨hs ++ p.handles, some (hs.length + p.handles.length - 1)⟩ := by
  rw [Driver.swept, Driver.onNewest, Sweep.handles, List.append_assoc]
  simp only [List.length_append, List.length_singleton]
  congr 2

end Combined

/-- **A flush** of dimensions over arguments of different names, whose values are all accepted,
makes a handle for every combination of them: the original handle is that of the first one, the
others follow in the order of a counter whose last digit runs fastest, and the handles that were
there before stay. -/
theorem flush_expands (ctx : RunCtx) (s : RunState) (k : Kernel) (hflush : Flushing ctx s)
    (hk : kernelToAdd ctx.reg s.pendingKernelName = .ok k) (hdims : s.pendingDimCfgs ≠ [])
    (hnames : ((s.pendingValues ctx.floats).map (·.parmName)).Nodup)
    (haccept : ∀ v ∈ s.pendingValues ctx.floats, v.Accepted ctx.floats k)
    (hfit : (sizes (s.pendingValues ctx.floats)).prod < 2147483648) :
    ∃ hs h g, s.drv = ⟨hs ++ [h], some hs.length⟩ ∧
      sfFlushPendingDims ctx s = .ok () { s with
        drv := ⟨hs ++ (List.range (sizes (s.pendingValues ctx.floats)).prod).map g,
          some (hs.length + (sizes (s.pendingValues ctx.floats)).prod - 1)⟩
        pendingDimCfgs := [] } ∧
      ∀ c < (sizes (s.pendingValues ctx.floats)).prod,
        Combined ctx.floats k (s.pendingValues ctx.floats) h c (g c) := by
  rcases hflush.known with hlead | ⟨hseg, hk', hof, hst, hpos⟩
  · exact absurd hlead.cfgs hdims
  · rename_i hs h k' name cfgs globals chain og
    obtain ⟨hdrv, rfl, rfl, -, -, -, -⟩ := hseg
    obtain rfl : k' = k := Except.ok.inj (hk'.symm.trans hk)
    have hall : ∀ v ∈ s.pendingValues ctx.floats, v.Accepted ctx.floats k' ∧ 0 < v.n := by
      intro v hv
      obtain ⟨cfg, hcfg, rfl⟩ := List.mem_map.mp hv
      exact ⟨haccept _ hv, hpos cfg hcfg⟩
    obtain ⟨d, hexpand⟩ := expandPending_accepted hs hk hall hfit hof
    have hflushed : sfFlushPendingDims ctx s =
        .ok () { s with drv := d, pendingDimCfgs := [] } := by
      have hrun : sfFlushPendingDims ctx s =
          ((onDriver (warnOnly (expandPending ctx s.pendingDimCfgs s.pendingKernelName))) >>=
            fun _ => modify fun s => { s with pendingDimCfgs := [] }) s := rfl
      have hwarn : warnOnly (expandPending ctx s.pendingDimCfgs s.pendingKernelName) s.drv =
          .ok () d := by
        rw [warnOnly, hdrv, hexpand]
      rw [hrun, bind_ok (onDriver_eq_ok.mpr ⟨d, hwarn, rfl⟩)]
      rfl
    have hstate := sfFlushPendingDims_onNewest hdrv hk hpos hflushed
    have htaken : ∀ cfg ∈ s.pendingDimCfgs,
        (SweepDim.arg (tpbDimGenerateValues ctx.floats cfg)).Taken ctx.floats k' := by
      intro cfg hcfg i hi
      exact (exists_dimKarg_iff (Handle.of_ofKernel k')).mpr
        (haccept _ (List.mem_map_of_mem hcfg) i hi)
    have htotal : 0 < (sizes (s.pendingValues ctx.floats)).prod := by
      refine List.prod_pos fun n hn => ?_
      obtain ⟨v, hv, rfl⟩ := List.mem_map.mp hn
      exact (hall v hv).2
    refine ⟨hs, h, comboHandle ctx.floats k' (s.pendingValues ctx.floats) h, hdrv, ?_,
      fun c _ => .of_comboHandle hall hnames hof hst c⟩
    have hhandles : (flushSweep ctx.floats k' s.pendingDimCfgs h).handles =
        (List.range (sizes (s.pendingValues ctx.floats)).prod).map
          (comboHandle ctx.floats k' (s.pendingValues ctx.floats) h) := by
      rw [flushSweep_eq htaken hpos ⟨hof, fun e he => (hst.env e he).1⟩]
      exact handles_sweepCombos htotal
    rw [hflushed, hstate, Driver.swept_eq, hhandles, List.length_map, List.length_range]

/-- The state behind the options of a command line. -/
def afterOpts (ctx : RunCtx) (opts : List Opt) : Option RunState :=
  match runOpts ctx opts (runBegin .start) with
  | .ok () s => some s
  | .error _ _ => none

theorem flushing_afterOpts {ctx : RunCtx} {opts : List Opt} {s : RunState} (hearly : Early opts)
    (hs : s ∈ afterOpts ctx opts) : Flushing ctx s := by
  rw [afterOpts, Option.mem_def] at hs
  split at hs
  · rename_i s' hrun
    obtain rfl := Option.some.inj hs
    exact ⟨opts, s', hearly, hrun, .inl rfl⟩
  · cases hs

/-- A kernel `k` with two arguments `c` and `d` of type `char`. -/
def pairCtx : RunCtx where
  floats := letterDoubles
  isX86 := false
  reg :=
    { kernelCommon := ⟨ascii "common".toList, false, true, [], common_lt⟩
      kernelAll := [⟨ascii ['k'], true, true,
        [⟨ascii ['c'], 0, typeChar, []⟩, ⟨ascii ['d'], 0, typeChar, []⟩], k_lt⟩] }

/-- `--kernel k --kargs-dim c=[a,b] --kargs-dim d=[x,y]`. -/
def pairOpts : List Opt :=
  [.kernel (ascii ['k']), .kargsDim (ascii "c=[a,b]".toList),
    .kargsDim (ascii "d=[x,y]".toList)]

/-- Two values and two values make four handles. -/
theorem pair_expands :
    ∃ s k hs h g, s ∈ afterOpts pairCtx pairOpts ∧
      (sizes (s.pendingValues pairCtx.floats)).prod = 4 ∧
      sfFlushPendingDims pairCtx s = .ok () { s with
        drv := ⟨hs ++ (List.range (sizes (s.pendingValues pairCtx.floats)).prod).map g,
          some (hs.length + (sizes (s.pendingValues pairCtx.floats)).prod - 1)⟩
        pendingDimCfgs := [] } ∧
      ∀ c < (sizes (s.pendingValues pairCtx.floats)).prod,
        Combined pairCtx.floats k (s.pendingValues pairCtx.floats) h c (g c) := by
  have hrun : ∃ s ∈ afterOpts pairCtx pairOpts,
      ∃ k ∈ (kernelToAdd pairCtx.reg s.pendingKernelName).toOption,
        s.pendingDimCfgs.length ≠ 0 ∧
        ((s.pendingValues pairCtx.floats).map (·.parmName)).Nodup ∧
        (∀ v ∈ s.pendingValues pairCtx.floats, ∀ i < v.n,
          (dimValue pairCtx.floats k v i).isSome) ∧
        (sizes (s.pendingValues pairCtx.floats)).prod = 4 := by
    decide +kernel
  obtain ⟨s, hs, k, hk, hdims, hnames, haccept, hfour⟩ := hrun
  obtain ⟨hs', h, g, -, hflush, hcombined⟩ := flush_expands pairCtx s k
    (flushing_afterOpts (early_cons_kernel _ _) hs) (eq_ok_of_mem_toOption hk)
    (fun hnil => hdims (by rw [hnil, List.length_nil])) hnames
    (fun v hv i hi => Option.isSome_iff_exists.mp (haccept v hv i hi)) (by rw [hfour]; decide)
  exact ⟨s, k, hs', h, g, hs, hfour, hflush, hcombined⟩

end TPBench
