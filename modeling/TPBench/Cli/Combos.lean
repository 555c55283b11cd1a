import TPBench.Cli.Given

/-!
# The Combinations of a Segment

The dimensions of a segment ask for one handle for each combination of their values
(`CombosRight`). The dimensions `--kargs-dim` are kept back and multiplied at the end, and make
these combinations. A dimension `--kenvs-dim` is expanded when it is read: the newest handle
becomes one handle for each value, and only the last of them is met by the options that follow.
So a second dimension with several values, of either kind, meets one of the handles and not all
of them.

All combinations are there if and only if no `--kenvs-dim` has several values, or one of them is
the only dimension with several values and what the other dimensions set was there before it
(`CombosMet`).
-/

open CFile Odometer

namespace TPBench

/-! ### What the dimensions ask for -/

/-- **One handle for each combination**: what the handles hold for the dimensions are the
combinations of their values. -/
def CombosRight (F : Doubles) (k : Kernel) (opts : List Opt) (block : List Handle) : Prop :=
  (block.map fun h => (dimsOf F opts).map (·.held h)).Perm
    ((dimsOf F opts).map fun d => (List.range d.n).map (d.stored F k)).sections

/-- **When all combinations are there**: the variable of each dimension `--kenvs-dim` has its last
value at the end of the segment; and no `--kenvs-dim` has several values, or one of them is the
only dimension that has, and the options in front of it set what the others do. -/
structure CombosMet (F : Doubles) (k : Kernel) (opts : List Opt) : Prop where
  last : ∀ d ∈ dimsOf F opts, d.isEnv → d.given F k opts = d.stored F k (d.n - 1)
  alone : (∀ d ∈ dimsOf F opts, d.isEnv → d.n = 1) ∨
    ∃ pre v post, opts = pre ++ .kenvsDim v :: post ∧
      ∀ d ∈ dimsOf F (pre ++ post), d.n = 1 ∧ d.given F k pre = d.stored F k 0

/-! ### Sizes -/

section Sizes

variable {ctx : RunCtx} {F : Doubles} {k : Kernel} {h : Handle} {opts : List Opt}
  {ds : List SweepDim}

/-- The numbers of values of the dimensions `--kenvs-dim`. -/
def envSizes (ds : List SweepDim) : List ℕ := (ds.filter (·.isEnv)).map (·.n)

/-- The number of combinations of the dimensions `--kargs-dim`. -/
def argTotal (ds : List SweepDim) : ℕ := ((argValues ds).map (·.n)).prod

theorem prod_sizes (ds : List SweepDim) :
    (ds.map (·.n)).prod = (envSizes ds).prod * argTotal ds := by
  induction ds with
  | nil => rfl
  | cons d ds ih =>
      rw [List.map_cons, List.prod_cons, ih]
      cases d with
      | arg v =>
          change v.n * _ = (envSizes ds).prod * (v.n * argTotal ds)
          rw [Nat.mul_left_comm]
      | env v =>
          change v.n * _ = v.n * (envSizes ds).prod * argTotal ds
          rw [Nat.mul_assoc]

theorem argTotal_pos (hpos : ∀ d ∈ ds, 0 < d.n) : 0 < argTotal ds := by
  have hprod : 0 < (ds.map (·.n)).prod := by
    refine List.prod_pos fun n hn => ?_
    obtain ⟨d, hd, rfl⟩ := List.mem_map.mp hn
    exact hpos d hd
  rw [prod_sizes] at hprod
  exact Nat.pos_of_mul_pos_left hprod

theorem dimsOf_append (a b : List Opt) : dimsOf F (a ++ b) = dimsOf F a ++ dimsOf F b :=
  List.filterMap_append

theorem map_dimCfgs (opts : List Opt) :
    (dimCfgs F opts).map (tpbDimGenerateValues F) = argValues (dimsOf F opts) := by
  induction opts with
  | nil => rfl
  | cons o os ih =>
      rw [dimCfgs_cons, List.map_append, ih]
      have hsplit := dimsOf_append (F := F) [o] os
      rw [List.singleton_append] at hsplit
      rw [hsplit, argValues, argValues, List.filterMap_append]
      refine congrArg (· ++ _) ?_
      cases o with
      | kargsDim w | kenvsDim w =>
          rcases hcfg : tpbArgpParseDim F w with e | cfg
          · simp [dimCfgs, Opt.dimCfg, dimsOf, Opt.dim, hcfg, Except.toOption]
          · simp [dimCfgs, Opt.dimCfg, dimsOf, Opt.dim, hcfg, Except.toOption]
      | _ => rfl

theorem segSweep_append (ctx : RunCtx) (k : Kernel) (a b : List Opt) (h : Handle) :
    segSweep ctx k (a ++ b) h =
      ((segSweep ctx k a h).1 ++ (segSweep ctx k b (segSweep ctx k a h).2).1,
        (segSweep ctx k b (segSweep ctx k a h).2).2) := by
  induction a generalizing h with
  | nil => rfl
  | cons o a ih =>
      rw [List.cons_append, segSweep, ih, segSweep]
      simp

/-- The handles that are done before the flush. -/
theorem length_segSweep_fst
    (hdims : ∀ x ∈ dimsOf ctx.floats opts, x.Taken ctx.floats k ∧ 0 < x.n) (h : Handle) :
    (segSweep ctx k opts h).1.length =
      ((envSizes (dimsOf ctx.floats opts)).map (· - 1)).sum := by
  induction opts generalizing h with
  | nil => rfl
  | cons o os ih =>
      have hsplit := dimsOf_append (F := ctx.floats) [o] os
      rw [List.singleton_append] at hsplit
      rw [hsplit, List.forall_mem_append] at hdims
      rw [segSweep, List.length_append, ih hdims.2, hsplit, envSizes, envSizes,
        List.filter_append, List.map_append, List.map_append, List.sum_append]
      refine congrArg (· + _) ?_
      have hnone : (∀ w, o ≠ .kenvsDim w) →
          (((dimsOf ctx.floats [o]).filter (·.isEnv)).map (·.n)).map (· - 1) = [] := by
        intro hne
        cases o with
        | kargsDim w =>
            rcases hcfg : tpbArgpParseDim ctx.floats w with e | cfg
            · simp [dimsOf, Opt.dim, hcfg, Except.toOption]
            · simp [dimsOf, Opt.dim, hcfg, Except.toOption, SweepDim.isEnv]
        | kenvsDim w => exact (hne w rfl).elim
        | _ => rfl
      cases o with
      | kenvsDim w =>
          rcases hcfg : tpbArgpParseDim ctx.floats w with e | cfg
          · simp [Opt.sweep, dimsOf, Opt.dim, hcfg, Except.toOption]
          · obtain ⟨htaken, hpos⟩ := hdims.1 (.env (tpbDimGenerateValues ctx.floats cfg))
              (by simp [dimsOf, Opt.dim, hcfg, Except.toOption])
            simp only [Opt.sweep, hcfg]
            rw [envSweep, sweepOver_env htaken hpos, List.length_map, List.length_range]
            simp [dimsOf, Opt.dim, hcfg, Except.toOption, SweepDim.isEnv, SweepDim.n,
              SweepDim.values]
      | _ =>
          rw [hnone (fun w h => by cases h)]
          rfl

end Sizes

/-! ### When all combinations are there -/

section Lines

variable {F : Doubles} {k : Kernel} {ds xs ys : List SweepDim} {v : DimValues} {h x : Handle}

theorem argTotal_of_single (hone : ∀ d ∈ ds, d.isEnv → d.n = 1) :
    argTotal ds = (ds.map (·.n)).prod := by
  have henvs : (envSizes ds).prod = 1 := by
    rw [prod_eq_one_iff, envSizes, List.forall_mem_map]
    intro d hd
    obtain ⟨hmem, henv⟩ := List.mem_filter.mp hd
    exact hone d hmem henv
  rw [prod_sizes, henvs, Nat.one_mul]

/-- Where the variables have one value each, the flush makes all combinations if they have it. -/
theorem combos_single_iff (hgood : DimsGood F k ds) (hx : x.Sound k)
    (hone : ∀ d ∈ ds, d.isEnv → d.n = 1) :
    ((sweepCombos F (argValues ds) k x (argTotal ds)).handles.map fun y =>
        ds.map (·.held y)).Perm
      (ds.map fun d => (List.range d.n).map (d.stored F k)).sections ↔
    ∀ d ∈ ds, d.isEnv → d.held x = d.stored F k (d.n - 1) := by
  constructor
  · intro hperm d hd hde
    -- the first handle is one of the combinations
    set y := digitsOn F (argValues ds).reverse 0 x with hy
    have hmem : ds.map (·.held y) ∈
        (ds.map fun d => (List.range d.n).map (d.stored F k)).sections := by
      refine hperm.subset (List.mem_map.mpr ⟨y, ?_, rfl⟩)
      rw [sweepCombos, handles_sweepOf, ← hy]
      exact List.mem_cons_self
    rw [List.mem_sections, List.forall₂_map_left_iff, List.forall₂_map_right_iff,
      List.forall₂_same] at hmem
    obtain ⟨i, hi, heq⟩ := List.mem_map.mp (hmem d hd)
    rw [hone d hd hde] at hi ⊢
    obtain rfl : i = 0 := by simpa using hi
    rw [heq, hy, held_env_digitsOn hde]
  · intro hheld
    have henv : ∀ d ∈ ds, d.isEnv → d.n = 1 ∧ d.held x = d.stored F k 0 := by
      intro d hd hde
      have hlast := hheld d hd hde
      rw [hone d hd hde] at hlast
      exact ⟨hone d hd hde, hlast⟩
    rw [map_held_sweepCombos hgood hx henv (argTotal_pos hgood.pos), argTotal_of_single hone]
    exact map_digits_reverse_perm (SweepDim.stored F k) SweepDim.n ds

/-- The arguments of a combination hold its values, whatever the variables hold. -/
theorem held_arg_digitsOn (hgood : DimsGood F k ds) (hx : x.Sound k) :
    ∀ d ∈ ds, d.isEnv = false →
      d.held (digitsOn F (argValues ds).reverse 0 x) = d.stored F k 0 := by
  have hsub : (ds.filter fun d => !d.isEnv).Sublist ds := List.filter_sublist
  have hargs : argValues (ds.filter fun d => !d.isEnv) = argValues ds := by
    rw [argValues, List.filterMap_filter, argValues]
    refine List.filterMap_congr fun d _ => ?_
    cases d with
    | arg v => rfl
    | env v => rfl
  have hgood' : DimsGood F k (ds.filter fun d => !d.isEnv) :=
    ⟨hgood.names.sublist (hsub.map _), fun d hd => hgood.fit d (hsub.subset hd),
      fun d hd => hgood.taken d (hsub.subset hd), fun d hd => hgood.pos d (hsub.subset hd)⟩
  have hnone : ∀ d ∈ (ds.filter fun d => !d.isEnv).reverse, d.isEnv →
      d.n = 1 ∧ d.held x = d.stored F k 0 := by
    intro d hd hde
    obtain ⟨-, hdn⟩ := List.mem_filter.mp (List.mem_reverse.mp hd)
    rw [hde] at hdn
    cases hdn
  have hdigits := map_held_digitsOn hgood'.reverse hx hnone 0
  rw [digits_zero, argValues_reverse, hargs, List.map_inj_left] at hdigits
  intro d hd hde
  exact hdigits d (List.mem_reverse.mpr (List.mem_filter.mpr ⟨hd, by simp [hde]⟩))

/-- The combinations when one dimension has several values. -/
theorem sections_line (hone : ∀ d ∈ xs ++ ys, d.n = 1) :
    ((xs ++ .env v :: ys).map fun d => (List.range d.n).map (d.stored F k)).sections =
      (List.range v.n).map fun i =>
        xs.map (·.stored F k 0) ++ (SweepDim.env v).stored F k i :: ys.map (·.stored F k 0) := by
  have hsingles : ∀ zs : List SweepDim, (∀ d ∈ zs, d.n = 1) →
      (zs.map fun d => (List.range d.n).map (d.stored F k)) = zs.map fun d => [d.stored F k 0] := by
    intro zs hzs
    refine List.map_congr_left fun d hd => ?_
    rw [hzs d hd]
    rfl
  rw [List.forall_mem_append] at hone
  rw [List.map_append, List.map_cons, hsingles xs hone.1, hsingles ys hone.2]
  refine (sections_of_singles (fun d : SweepDim => d.stored F k 0) xs ys _).trans ?_
  rw [List.map_map]
  rfl

/-- The other dimensions have other names. -/
theorem DimsGood.name_ne_line (hgood : DimsGood F k (xs ++ .env v :: ys)) :
    ∀ d ∈ xs ++ ys, d.name ≠ v.parmName := by
  have hnames := hgood.names
  rw [List.perm_middle.map (fun d : SweepDim => d.name) |>.nodup_iff, List.map_cons,
    List.nodup_cons] at hnames
  intro d hd heq
  have hin : d.name ∈ (xs ++ ys).map (·.name) := List.mem_map_of_mem hd
  rw [heq] at hin
  exact hnames.1 hin

/-- A variable does not count among the combinations of the arguments. -/
theorem argTotal_line (hone : ∀ d ∈ xs ++ ys, d.n = 1) :
    argTotal (xs ++ .env v :: ys) = 1 := by
  have hargs : argValues (xs ++ .env v :: ys) = argValues (xs ++ ys) := by
    rw [argValues, argValues, List.filterMap_append, List.filterMap_append]
    rfl
  have hsub : argTotal (xs ++ ys) = ((xs ++ ys).map (·.n)).prod :=
    argTotal_of_single fun d hd _ => hone d hd
  rw [argTotal, hargs]
  rw [argTotal] at hsub
  rw [hsub, prod_eq_one_iff, List.forall_mem_map]
  exact hone

/-- What the handles of the values of a variable hold: the values, and of the other dimensions what
the handle in front of them holds. -/
theorem map_held_envHandle (hgood : DimsGood F k (xs ++ .env v :: ys)) (hh : h.Sound k) :
    ((List.range (v.n - 1)).map (envHandle F k v h)).map
      (fun y => (xs ++ .env v :: ys).map (·.held y)) =
        (List.range (v.n - 1)).map fun i => xs.map (·.held h) ++
          (SweepDim.env v).stored F k i :: ys.map (·.held h) := by
  have hvmem : SweepDim.env v ∈ xs ++ .env v :: ys := by simp
  have hfit : v.parmName.length < nameStrMaxLen := hgood.fit _ hvmem
  have htaken := hgood.taken _ hvmem
  have hmem : ∀ d ∈ xs ++ ys, d ∈ xs ++ .env v :: ys := by
    intro d hd
    rcases List.mem_append.mp hd with hd | hd
    · exact List.mem_append_left _ hd
    · exact List.mem_append_right _ (List.mem_cons_of_mem _ hd)
  rw [List.map_map]
  refine List.map_congr_left fun i hi => ?_
  have hlt : i < v.n := by
    have := List.mem_range.mp hi
    omega
  have hother : ∀ d ∈ xs ++ ys, d.held (envHandle F k v h i) = d.held h := fun d hd =>
    held_envHandle_ne hh hfit (hgood.fit d (hmem d hd)) (hgood.name_ne_line d hd) htaken hlt
  rw [List.forall_mem_append] at hother
  rw [Function.comp_apply, List.map_append, List.map_cons, held_envHandle hh hfit htaken hlt,
    List.map_congr_left hother.1, List.map_congr_left hother.2]

/-- The last combination is right when the variables have their last values. -/
theorem held_last_iff (hgood : DimsGood F k (xs ++ .env v :: ys))
    (hone : ∀ d ∈ xs ++ ys, d.n = 1) (hx : x.Sound k) :
    (xs ++ SweepDim.env v :: ys).map
        (·.held (digitsOn F (argValues (xs ++ .env v :: ys)).reverse 0 x)) =
      xs.map (·.stored F k 0) ++ (SweepDim.env v).stored F k (v.n - 1) ::
        ys.map (·.stored F k 0) ↔
      ∀ d ∈ xs ++ .env v :: ys, d.isEnv → d.held x = d.stored F k (d.n - 1) := by
  have hform : xs.map (·.stored F k 0) ++ (SweepDim.env v).stored F k (v.n - 1) ::
      ys.map (·.stored F k 0) = (xs ++ SweepDim.env v :: ys).map fun d =>
        d.stored F k (d.n - 1) := by
    have hzero : ∀ zs : List SweepDim, (∀ d ∈ zs, d.n = 1) →
        zs.map (·.stored F k 0) = zs.map fun d => d.stored F k (d.n - 1) := by
      intro zs hzs
      refine List.map_congr_left fun d hd => ?_
      rw [hzs d hd]
    rw [List.forall_mem_append] at hone
    rw [List.map_append, List.map_cons, hzero xs hone.1, hzero ys hone.2]
    rfl
  rw [hform, List.map_inj_left]
  refine forall₂_congr fun d hd => ?_
  cases hde : d.isEnv with
  | true =>
      rw [held_env_digitsOn hde]
      simp
  | false =>
      have hd' : d ∈ xs ++ ys := by
        rcases List.mem_append.mp hd with hd | hd
        · exact List.mem_append_left _ hd
        · rcases List.mem_cons.mp hd with rfl | hd
          · cases hde
          · exact List.mem_append_right _ hd
      rw [hone d hd', held_arg_digitsOn hgood hx d hd hde]
      simp

/-- **One dimension with several values**, a variable: all combinations are there if the others
had their values in front of it, and the variables have their last ones at the end. -/
theorem combos_line_iff (hgood : DimsGood F k (xs ++ .env v :: ys)) (hn : 1 < v.n)
    (hone : ∀ d ∈ xs ++ ys, d.n = 1) (hh : h.Sound k) (hx : x.Sound k) :
    (((List.range (v.n - 1)).map (envHandle F k v h) ++
        (sweepCombos F (argValues (xs ++ .env v :: ys)) k x
          (argTotal (xs ++ .env v :: ys))).handles).map fun y =>
            (xs ++ .env v :: ys).map (·.held y)).Perm
      ((xs ++ .env v :: ys).map fun d => (List.range d.n).map (d.stored F k)).sections ↔
    (∀ d ∈ xs ++ ys, d.held h = d.stored F k 0) ∧
      ∀ d ∈ xs ++ .env v :: ys, d.isEnv → d.held x = d.stored F k (d.n - 1) := by
  have hlast : (sweepCombos F (argValues (xs ++ .env v :: ys)) k x
      (argTotal (xs ++ .env v :: ys))).handles =
        [digitsOn F (argValues (xs ++ .env v :: ys)).reverse 0 x] := by
    rw [argTotal_line hone, sweepCombos, handles_sweepOf]
    rfl
  rw [sections_line hone, hlast, List.map_append, List.map_singleton,
    map_held_envHandle hgood hh, line_perm_iff hn (by simp), held_last_iff hgood hone hx,
    List.map_inj_left, List.map_inj_left, ← List.forall_mem_append]

end Lines

/-! ### Segments and runs -/

section Runs

variable {ctx : RunCtx} {k : Kernel} {g : Segment} {opts : List Opt} {x : Handle}

/-- Of an option with several values on a variable, the options in front and behind. -/
theorem exists_split_of_env {F : Doubles} {d : SweepDim} (hd : d ∈ dimsOf F opts)
    (henv : d.isEnv) :
    ∃ pre w cfg post, opts = pre ++ .kenvsDim w :: post ∧ tpbArgpParseDim F w = .ok cfg ∧
      d = .env (tpbDimGenerateValues F cfg) := by
  obtain ⟨o, ho, hdim⟩ := List.mem_filterMap.mp hd
  obtain ⟨pre, post, rfl⟩ := List.append_of_mem ho
  cases o with
  | kenvsDim w =>
      rcases hcfg : tpbArgpParseDim F w with e | cfg
      · simp [Opt.dim, hcfg, Except.toOption] at hdim
      · simp only [Opt.dim, hcfg, Except.toOption, Option.map_some, Option.some.injEq] at hdim
        exact ⟨pre, w, cfg, post, rfl, hcfg, hdim.symm⟩
  | kargsDim w =>
      rcases hcfg : tpbArgpParseDim F w with e | cfg
      · simp [Opt.dim, hcfg, Except.toOption] at hdim
      · simp only [Opt.dim, hcfg, Except.toOption, Option.map_some, Option.some.injEq] at hdim
        subst hdim
        cases henv
  | _ => cases hdim

/-- The options add no handle when each variable has one value. -/
theorem segSweep_fst_of_single
    (hdims : ∀ d ∈ dimsOf ctx.floats opts, d.Taken ctx.floats k ∧ 0 < d.n)
    (hone : ∀ d ∈ dimsOf ctx.floats opts, d.isEnv → d.n = 1) (h : Handle) :
    (segSweep ctx k opts h).1 = [] := by
  rw [← List.length_eq_zero_iff, length_segSweep_fst hdims]
  refine List.sum_eq_zero fun m hm => ?_
  obtain ⟨n, hn, rfl⟩ := List.mem_map.mp hm
  obtain ⟨d, hd, rfl⟩ := List.mem_map.mp hn
  obtain ⟨hmem, henv⟩ := List.mem_filter.mp hd
  rw [hone d hmem henv, Nat.sub_self]

/-- The handles of a segment, with one dimension that has several values. -/
theorem segSweep_fst_of_line {pre post : List Opt} {w : Bytes} {cfg : DimConfig}
    (hcfg : tpbArgpParseDim ctx.floats w = .ok cfg)
    (hdims : ∀ d ∈ dimsOf ctx.floats (pre ++ .kenvsDim w :: post),
      d.Taken ctx.floats k ∧ 0 < d.n)
    (hone : ∀ d ∈ dimsOf ctx.floats (pre ++ post), d.n = 1) (h : Handle) :
    (segSweep ctx k (pre ++ .kenvsDim w :: post) h).1 =
      (List.range ((tpbDimGenerateValues ctx.floats cfg).n - 1)).map
        (envHandle ctx.floats k (tpbDimGenerateValues ctx.floats cfg)
          (segSweep ctx k pre h).2) := by
  rw [dimsOf_append, dimsOf_cons_kenvsDim hcfg, List.forall_mem_append,
    List.forall_mem_cons] at hdims
  rw [dimsOf_append, List.forall_mem_append] at hone
  obtain ⟨hpre, ⟨htaken, hpos⟩, hpost⟩ := hdims
  rw [segSweep_append, segSweep_fst_of_single hpre fun d hd _ => hone.1 d hd, segSweep,
    segSweep_fst_of_single hpost fun d hd _ => hone.2 d hd, List.nil_append, List.append_nil]
  simp only [Opt.sweep, hcfg]
  rw [envSweep, sweepOver_env htaken hpos]

/-- The handles of a segment before and behind the flush, from the newest handle `x`. -/
def segHandles (ctx : RunCtx) (k : Kernel) (opts : List Opt) (x : Handle) : List Handle :=
  (segSweep ctx k opts (.ofKernel k)).1 ++
    (sweepCombos ctx.floats (argValues (dimsOf ctx.floats opts)) k x
      (argTotal (dimsOf ctx.floats opts))).handles

/-- A segment with one dimension that has several values. -/
theorem combosRight_line_iff {pre post : List Opt} {w : Bytes} {cfg : DimConfig}
    (hcfg : tpbArgpParseDim ctx.floats w = .ok cfg)
    (hgood : DimsGood ctx.floats k (dimsOf ctx.floats (pre ++ .kenvsDim w :: post)))
    (hn : 1 < (tpbDimGenerateValues ctx.floats cfg).n)
    (hone : ∀ d ∈ dimsOf ctx.floats (pre ++ post), d.n = 1) (hx : x.Sound k) :
    CombosRight ctx.floats k (pre ++ .kenvsDim w :: post)
        (segHandles ctx k (pre ++ .kenvsDim w :: post) x) ↔
      (∀ d ∈ dimsOf ctx.floats (pre ++ post),
        d.given ctx.floats k pre = d.stored ctx.floats k 0) ∧
      ∀ d ∈ dimsOf ctx.floats (pre ++ .kenvsDim w :: post), d.isEnv →
        d.held x = d.stored ctx.floats k (d.n - 1) := by
  have hdims : ∀ d ∈ dimsOf ctx.floats (pre ++ .kenvsDim w :: post),
      d.Taken ctx.floats k ∧ 0 < d.n := fun d hd => ⟨hgood.taken d hd, hgood.pos d hd⟩
  have hsplit : dimsOf ctx.floats (pre ++ .kenvsDim w :: post) = dimsOf ctx.floats pre ++
      .env (tpbDimGenerateValues ctx.floats cfg) :: dimsOf ctx.floats post := by
    rw [dimsOf_append, dimsOf_cons_kenvsDim hcfg]
  have hh : (segSweep ctx k pre (.ofKernel k)).2.Sound k :=
    (inherited_sound ctx.floats k).segSweep pre (Handle.sound_ofKernel k) _
      (by simp [Sweep.handles])
  have hpre : ∀ d ∈ dimsOf ctx.floats (pre ++ post),
      d.held (segSweep ctx k pre (.ofKernel k)).2 = d.given ctx.floats k pre := by
    intro d hd
    have hmem : d ∈ dimsOf ctx.floats (pre ++ .kenvsDim w :: post) := by
      rw [dimsOf_append] at hd
      rw [hsplit]
      rcases List.mem_append.mp hd with hd | hd
      · exact List.mem_append_left _ hd
      · exact List.mem_append_right _ (List.mem_cons_of_mem _ hd)
    refine held_segSweep (hgood.fit d hmem) fun y hy => hdims y ?_
    rw [hsplit]
    exact List.mem_append_left _ hy
  rw [CombosRight, segHandles, segSweep_fst_of_line hcfg hdims hone]
  rw [hsplit] at hgood ⊢
  rw [dimsOf_append] at hone hpre ⊢
  rw [combos_line_iff hgood hn hone hh hx]
  refine and_congr_left fun _ => forall₂_congr fun d hd => ?_
  rw [hpre d hd]

theorem length_sweepCombos {F : Doubles} (vals : List DimValues) (h : Handle) {total : ℕ}
    (htotal : 0 < total) : (sweepCombos F vals k h total).handles.length = total := by
  rw [sweepCombos, handles_sweepOf, List.length_cons, List.length_map, List.length_range']
  omega

/-- **Where the combinations are complete**, a variable with several values is the only dimension
that has several. -/
theorem single_of_combosRight {pre post : List Opt} {w : Bytes} {cfg : DimConfig}
    (hcfg : tpbArgpParseDim ctx.floats w = .ok cfg)
    (hgood : DimsGood ctx.floats k (dimsOf ctx.floats (pre ++ .kenvsDim w :: post)))
    (hn : 1 < (tpbDimGenerateValues ctx.floats cfg).n)
    (hright : CombosRight ctx.floats k (pre ++ .kenvsDim w :: post)
      (segHandles ctx k (pre ++ .kenvsDim w :: post) x)) :
    ∀ d ∈ dimsOf ctx.floats (pre ++ post), d.n = 1 := by
  have hdims : ∀ d ∈ dimsOf ctx.floats (pre ++ .kenvsDim w :: post),
      d.Taken ctx.floats k ∧ 0 < d.n := fun d hd => ⟨hgood.taken d hd, hgood.pos d hd⟩
  have hsplit : dimsOf ctx.floats (pre ++ .kenvsDim w :: post) = dimsOf ctx.floats pre ++
      .env (tpbDimGenerateValues ctx.floats cfg) :: dimsOf ctx.floats post := by
    rw [dimsOf_append, dimsOf_cons_kenvsDim hcfg]
  have henvs : envSizes (dimsOf ctx.floats (pre ++ .kenvsDim w :: post)) =
      envSizes (dimsOf ctx.floats pre) ++ (tpbDimGenerateValues ctx.floats cfg).n ::
        envSizes (dimsOf ctx.floats post) := by
    rw [hsplit, envSizes, List.filter_append, List.map_append]
    rfl
  have hpos : ∀ ds : List SweepDim, (∀ d ∈ ds, 0 < d.n) → ∀ m ∈ envSizes ds, 0 < m := by
    intro ds hds m hm
    obtain ⟨d, hd, rfl⟩ := List.mem_map.mp hm
    exact hds d (List.mem_filter.mp hd).1
  have hsizes : ∀ ds : List SweepDim, (ds.map fun d =>
      (List.range d.n).map (d.stored ctx.floats k)).map List.length = ds.map (·.n) := by
    intro ds
    rw [List.map_map]
    refine List.map_congr_left fun d _ => ?_
    simp
  have hlen := List.Perm.length_eq hright
  rw [List.length_map, segHandles, List.length_append, length_segSweep_fst hdims,
    length_sweepCombos _ _ (argTotal_pos hgood.pos), length_sections, hsizes, prod_sizes,
    henvs] at hlen
  have hall := hgood.pos
  rw [hsplit, List.forall_mem_append, List.forall_mem_cons] at hall
  obtain ⟨hones, htotal⟩ := all_one_of_grown (hpos _ hall.1) (hpos _ hall.2.2)
    (argTotal_pos hgood.pos) hn hlen
  rw [argTotal, prod_eq_one_iff, List.forall_mem_map, hsplit] at htotal
  intro d hd
  rw [dimsOf_append] at hd
  cases d with
  | env v =>
      refine hones _ ?_
      rcases List.mem_append.mp hd with hd | hd
      · exact List.mem_append_left _ (List.mem_map_of_mem (List.mem_filter.mpr ⟨hd, rfl⟩))
      · exact List.mem_append_right _ (List.mem_map_of_mem (List.mem_filter.mpr ⟨hd, rfl⟩))
  | arg v =>
      refine htotal v (List.mem_filterMap.mpr ⟨.arg v, ?_, rfl⟩)
      rcases List.mem_append.mp hd with hd | hd
      · exact List.mem_append_left _ hd
      · exact List.mem_append_right _ (List.mem_cons_of_mem _ hd)

/-- **The handles of a segment are the combinations** if and only if the condition holds. -/
theorem combosMet_iff (hgood : DimsGood ctx.floats k (dimsOf ctx.floats opts))
    (hx : x.Sound k)
    (hheld : ∀ d : SweepDim, d.held x = d.held (segSweep ctx k opts (.ofKernel k)).2) :
    CombosRight ctx.floats k opts (segHandles ctx k opts x) ↔ CombosMet ctx.floats k opts := by
  have hdims : ∀ d ∈ dimsOf ctx.floats opts, d.Taken ctx.floats k ∧ 0 < d.n :=
    fun d hd => ⟨hgood.taken d hd, hgood.pos d hd⟩
  have hlast : (∀ d ∈ dimsOf ctx.floats opts, d.isEnv →
        d.held x = d.stored ctx.floats k (d.n - 1)) ↔
      ∀ d ∈ dimsOf ctx.floats opts, d.isEnv →
        d.given ctx.floats k opts = d.stored ctx.floats k (d.n - 1) := by
    refine forall₂_congr fun d hd => ?_
    rw [hheld d, held_segSweep (hgood.fit d hd) hdims]
  by_cases hone : ∀ d ∈ dimsOf ctx.floats opts, d.isEnv → d.n = 1
  · -- no variable has several values
    rw [CombosRight, segHandles, segSweep_fst_of_single hdims hone, List.nil_append,
      combos_single_iff hgood hx hone, hlast]
    exact ⟨fun h => ⟨h, .inl hone⟩, fun h => h.last⟩
  · push Not at hone
    obtain ⟨d, hd, henv, hmany⟩ := hone
    constructor
    · intro hright
      obtain ⟨pre, w, cfg, post, rfl, hcfg, rfl⟩ := exists_split_of_env hd henv
      have hn : 1 < (tpbDimGenerateValues ctx.floats cfg).n :=
        lt_of_le_of_ne (hgood.pos _ hd) (Ne.symm hmany)
      have hsingle := single_of_combosRight hcfg hgood hn hright
      obtain ⟨hothers, hends⟩ := (combosRight_line_iff hcfg hgood hn hsingle hx).mp hright
      exact ⟨hlast.mp hends, .inr ⟨pre, w, post, rfl, fun d hd => ⟨hsingle d hd, hothers d hd⟩⟩⟩
    · rintro ⟨hends, hall | ⟨pre, w, post, rfl, hothers⟩⟩
      · exact (hmany (hall d hd henv)).elim
      · -- the dimension that has several values is the one that is told apart
        have hother : d ∉ dimsOf ctx.floats (pre ++ post) := fun hd => hmany (hothers d hd).1
        rw [dimsOf_append, List.mem_append, not_or] at hother
        rw [dimsOf_append, List.mem_append, or_iff_right hother.1] at hd
        rcases hcfg : tpbArgpParseDim ctx.floats w with e | cfg
        · have hskip : dimsOf ctx.floats (.kenvsDim w :: post) = dimsOf ctx.floats post := by
            rw [dimsOf, List.filterMap_cons_none, dimsOf]
            rw [Opt.dim, hcfg]
            rfl
          rw [hskip] at hd
          exact (hother.2 hd).elim
        · rw [dimsOf_cons_kenvsDim hcfg, List.mem_cons, or_iff_left hother.2] at hd
          subst hd
          have hmem : SweepDim.env (tpbDimGenerateValues ctx.floats cfg) ∈
              dimsOf ctx.floats (pre ++ .kenvsDim w :: post) := by
            rw [dimsOf_append, dimsOf_cons_kenvsDim hcfg]
            simp
          have hn : 1 < (tpbDimGenerateValues ctx.floats cfg).n :=
            lt_of_le_of_ne (hgood.pos _ hmem) (Ne.symm hmany)
          exact (combosRight_line_iff hcfg hgood hn (fun d hd => (hothers d hd).1) hx).mpr
            ⟨fun d hd => (hothers d hd).2, hlast.mpr hends⟩

/-- What is known of the dimensions of a command line. -/
theorem dimsGood_of {F : Doubles} (hnames : ((dimsOf F opts).map (·.name)).Nodup)
    (htaken : ∀ d ∈ dimsOf F opts, d.Taken F k) : DimsGood F k (dimsOf F opts) := by
  have hread : ∀ d ∈ dimsOf F opts, ∃ w cfg, tpbArgpParseDim F w = .ok cfg ∧
      d.values = tpbDimGenerateValues F cfg := by
    intro d hd
    obtain ⟨o, -, hdim⟩ := List.mem_filterMap.mp hd
    cases o with
    | kargsDim w | kenvsDim w =>
        rcases hcfg : tpbArgpParseDim F w with e | cfg
        · simp [Opt.dim, hcfg, Except.toOption] at hdim
        · simp only [Opt.dim, hcfg, Except.toOption, Option.map_some, Option.some.injEq] at hdim
          exact ⟨w, cfg, hcfg, hdim ▸ rfl⟩
    | _ => cases hdim
  refine ⟨hnames, fun d hd => ?_, htaken, fun d hd => ?_⟩
  · obtain ⟨w, cfg, -, hvalues⟩ := hread d hd
    rw [SweepDim.name, hvalues]
    exact length_parmName_lt F cfg
  · obtain ⟨w, cfg, hcfg, hvalues⟩ := hread d hd
    rw [SweepDim.n, hvalues]
    exact List.length_pos_iff.mpr (values_ne_nil hcfg)

/-- **One segment**: its handles are the combinations when the condition holds. -/
theorem block_combos_iff {globals : List LocalWrapper} {last : Bool}
    (hgood : DimsGood ctx.floats k (dimsOf ctx.floats g.opts)) :
    CombosRight ctx.floats k g.opts (g.block ctx globals last k) ↔
      CombosMet ctx.floats k g.opts := by
  set links := chainLinks globals (g.opts.foldl addLocal [])
    (decide (.overrideGlobal ∈ g.opts)) with hlinks
  have hnewest : (segSweep ctx k g.opts (.ofKernel k)).2.Sound k :=
    (inherited_sound ctx.floats k).segSweep g.opts (Handle.sound_ofKernel k) _
      (by simp [Sweep.handles])
  have hflush : ∀ x : Handle, x.Sound k →
      flushSweep ctx.floats k (dimCfgs ctx.floats g.opts) x =
        sweepCombos ctx.floats (argValues (dimsOf ctx.floats g.opts)) k x
          (argTotal (dimsOf ctx.floats g.opts)) := by
    intro x hx
    have hvalues := map_dimCfgs (F := ctx.floats) g.opts
    rw [argTotal, ← hvalues]
    refine flushSweep_eq (fun cfg hcfg => ?_) (fun cfg hcfg => pos_of_mem_dimCfgs hcfg) hx
    have hmem : tpbDimGenerateValues ctx.floats cfg ∈ argValues (dimsOf ctx.floats g.opts) := by
      rw [← hvalues]
      exact List.mem_map_of_mem hcfg
    obtain ⟨d, hd, harg⟩ := List.mem_filterMap.mp hmem
    cases d with
    | arg v =>
        obtain rfl := Option.some.inj harg
        exact hgood.taken _ hd
    | env v => cases harg
  cases last with
  | true =>
      have hsame : CombosRight ctx.floats k g.opts (g.block ctx globals true k) ↔
          CombosRight ctx.floats k g.opts
            (segHandles ctx k g.opts (segSweep ctx k g.opts (.ofKernel k)).2) := by
        rw [CombosRight, CombosRight, segHandles, Segment.block]
        simp only [if_true, Sweep.handles, hflush _ hnewest, List.map_append, List.map_singleton,
          SweepDim.held_setWrappers, List.append_assoc]
      rw [hsame]
      exact combosMet_iff hgood hnewest fun d => rfl
  | false =>
      have hset : ((segSweep ctx k g.opts (.ofKernel k)).2.setWrappers links).Sound k :=
        ⟨hnewest.of.setWrappers links, hnewest.keys⟩
      rw [Segment.block]
      simp only [Bool.false_eq_true, if_false, ← hlinks, hflush _ hset]
      exact combosMet_iff hgood hset fun d => SweepDim.held_setWrappers links

variable {host : Host} {argv : List Bytes} {block : List Handle} {s' : RunState}

/-- **The handles of a segment are the combinations of its values** if and only if the condition
holds. -/
theorem combosRight_iff (hctx : runCtx host argv = .ok ctx) (hopts : optsOfArgv argv = some opts)
    (hrun : tpbcliRun host argv .start = .ok () s')
    (hsegment : (g, block) ∈ (segmentsOf opts).zip (segmentHandles ctx opts s'.drv))
    (hk : kernelToAdd ctx.reg g.value = .ok k)
    (hnames : ((dimsOf ctx.floats g.opts).map (·.name)).Nodup)
    (htaken : ∀ d ∈ dimsOf ctx.floats g.opts, d.Taken ctx.floats k) :
    CombosRight ctx.floats k g.opts block ↔ CombosMet ctx.floats k g.opts := by
  obtain ⟨ctx', opts', hctx', hopts', hblocks⟩ := segments_run hrun
  rw [hctx] at hctx'
  obtain rfl := Except.ok.inj hctx'
  rw [hopts] at hopts'
  obtain rfl := Option.some.inj hopts'
  obtain ⟨k', last, hk', rfl⟩ := hblocks.of_mem_zip hsegment
  rw [hk] at hk'
  obtain rfl := Except.ok.inj hk'
  exact block_combos_iff (dimsGood_of hnames htaken)

instance (F : Doubles) (k : Kernel) (d : SweepDim) : Decidable (d.Taken F k) :=
  decidable_of_iff (∀ i < d.n, (d.apply F i (.ofKernel k)).toOption.isSome) <| by
    refine forall₂_congr fun i _ => ?_
    rcases d.apply F i (.ofKernel k) with e | h
    · simp [Except.toOption]
    · simp [Except.toOption]

instance (F : Doubles) (k : Kernel) (opts : List Opt) (block : List Handle) :
    Decidable (CombosRight F k opts block) :=
  inferInstanceAs (Decidable (List.Perm _ _))

/-- `run --kernel k --kargs-dim c=[a,b] --kenvs-dim V=[x]`: two handles, and the condition
holds. -/
def argsArgv : List Bytes :=
  [ascii "tpbcli".toList, nameRun, nameKernel, ascii ['k'],
    nameKargsDim, ascii "c=[a,b]".toList,
    nameKenvsDim, ascii "V=[x]".toList]

/-- `run --kernel k --kenvs-dim V=[a,b] --kenvs-dim W=[c,d]`. -/
def envsArgv : List Bytes :=
  [ascii "tpbcli".toList, nameRun, nameKernel, ascii ['k'],
    nameKenvsDim, ascii "V=[a,b]".toList,
    nameKenvsDim, ascii "W=[c,d]".toList]

theorem combosMet_args :
    ∃ ctx opts s' g block k, runCtx letterHost argsArgv = .ok ctx ∧
      optsOfArgv argsArgv = some opts ∧ tpbcliRun letterHost argsArgv .start = .ok () s' ∧
      (g, block) ∈ (segmentsOf opts).zip (segmentHandles ctx opts s'.drv) ∧
      kernelToAdd ctx.reg g.value = .ok k ∧ CombosMet ctx.floats k g.opts := by
  have hrun : ∃ r ∈ afterRun letterHost argsArgv,
      ∃ p ∈ (segmentsOf r.2.1).zip (segmentHandles r.1 r.2.1 r.2.2),
        ∃ k ∈ (kernelToAdd r.1.reg p.1.value).toOption,
          ((dimsOf r.1.floats p.1.opts).map (·.name)).Nodup ∧
          (∀ d ∈ dimsOf r.1.floats p.1.opts, d.Taken r.1.floats k) ∧
          CombosRight r.1.floats k p.1.opts p.2 := by
    decide +kernel
  obtain ⟨r, hr, p, hp, k, hk, hnames, htaken, hright⟩ := hrun
  obtain ⟨s', hctx, hopts, hok, hdrv⟩ := afterRun_eq_some hr
  rw [← hdrv] at hp
  have hk' := eq_ok_of_mem_toOption hk
  exact ⟨r.1, r.2.1, s', p.1, p.2, k, hctx, hopts, hok, hp, hk',
    (combosRight_iff hctx hopts hok hp hk' hnames htaken).mp hright⟩

/-- Two variables with two values each make three handles. -/
theorem envs_not_combosRight :
    ∃ ctx opts s' g block k, runCtx letterHost envsArgv = .ok ctx ∧
      optsOfArgv envsArgv = some opts ∧ tpbcliRun letterHost envsArgv .start = .ok () s' ∧
      (g, block) ∈ (segmentsOf opts).zip (segmentHandles ctx opts s'.drv) ∧
      kernelToAdd ctx.reg g.value = .ok k ∧
      ((dimsOf ctx.floats g.opts).map (·.name)).Nodup ∧
      (∀ d ∈ dimsOf ctx.floats g.opts, d.Taken ctx.floats k) ∧
      ¬CombosRight ctx.floats k g.opts block := by
  have hrun : ∃ r ∈ afterRun letterHost envsArgv,
      ∃ p ∈ (segmentsOf r.2.1).zip (segmentHandles r.1 r.2.1 r.2.2),
        ∃ k ∈ (kernelToAdd r.1.reg p.1.value).toOption,
          ((dimsOf r.1.floats p.1.opts).map (·.name)).Nodup ∧
          (∀ d ∈ dimsOf r.1.floats p.1.opts, d.Taken r.1.floats k) ∧
          ¬CombosRight r.1.floats k p.1.opts p.2 := by
    decide +kernel
  obtain ⟨r, hr, p, hp, k, hk, hnames, htaken, hwrong⟩ := hrun
  obtain ⟨s', hctx, hopts, hok, hdrv⟩ := afterRun_eq_some hr
  rw [← hdrv] at hp
  have hk' := eq_ok_of_mem_toOption hk
  exact ⟨r.1, r.2.1, s', p.1, p.2, k, hctx, hopts, hok, hp, hk', hnames, htaken, hwrong⟩

end Runs

end TPBench
