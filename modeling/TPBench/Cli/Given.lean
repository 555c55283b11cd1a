import TPBench.Cli.SweepDims

/-!
# What the Options of a Segment Leave

The newest handle of a segment holds for a dimension what the options in front of it assigned
last, or what the kernel has as a default: a function of the options (`SweepDim.given`). A
dimension `--kenvs-dim` makes a handle for each of its values out of the newest one
(`envHandle`), and the last of them is the newest one then.

`held_segSweep` says that the newest handle holds what the options leave.
-/

open CFile

namespace TPBench

/-! ### What the options in front of a dimension leave -/

/-- The value of an argument behind a token of `--kargs`. -/
def tokenArg (F : Doubles) (k : Kernel) (name : Bytes) (cur : Option UInt64) (token : Bytes) :
    Option UInt64 :=
  match kargPair token with
  | .error _ => cur
  | .ok p => if p.1 = name then (k.argValue F name p.2).or cur else cur

/-- The value of an argument behind an option. -/
def Opt.argGiven (F : Doubles) (k : Kernel) (name : Bytes) (cur : Option UInt64) :
    Opt → Option UInt64
  | .kargs v => (commaTokens v).foldl (tokenArg F k name) cur
  | _ => cur

/-- The value of a variable behind a token of `--kenvs`. -/
def tokenEnv (name : Bytes) (cur : Option Bytes) (token : Bytes) : Option Bytes :=
  match kenvPair token with
  | .error _ => cur
  | .ok p => envAfter name cur p.1 p.2

/-- The value of a variable behind the last value of a dimension. -/
def DimValues.envGiven (F : Doubles) (name : Bytes) (cur : Option Bytes) (v : DimValues) :
    Option Bytes :=
  match v.text F (v.n - 1) with
  | .error _ => cur
  | .ok t => envAfter name cur v.parmName t

/-- The value of a variable behind an option. -/
def Opt.envGiven (F : Doubles) (name : Bytes) (cur : Option Bytes) : Opt → Option Bytes
  | .kenvs v => (commaTokens v).foldl (tokenEnv name) cur
  | .kenvsDim v =>
      match tpbArgpParseDim F v with
      | .error _ => cur
      | .ok cfg => (tpbDimGenerateValues F cfg).envGiven F name cur
  | _ => cur

/-- What the options leave for a dimension: a default of the kernel, or the last assignment. -/
def SweepDim.given (F : Doubles) (k : Kernel) (opts : List Opt) :
    SweepDim → Option (UInt64 ⊕ Bytes)
  | .arg v =>
      (opts.foldl (Opt.argGiven F k v.parmName) ((Handle.ofKernel k).arg? v.parmName)).map .inl
  | .env v => (opts.foldl (Opt.envGiven F v.parmName) none).map .inr

/-! ### The newest handle of a segment -/

section Newest

variable {ctx : RunCtx} {F : Doubles} {k : Kernel} {h : Handle} {v : DimValues} {i : ℕ}
  {opts : List Opt}

/-- The text of a value. -/
def DimValues.textAt (F : Doubles) (v : DimValues) (i : ℕ) : Bytes :=
  match v.text F i with
  | .error _ => []
  | .ok t => t

/-- The handle of a value of a dimension `--kenvs-dim`. -/
def envHandle (F : Doubles) (k : Kernel) (v : DimValues) (h : Handle) (i : ℕ) : Handle :=
  let h₀ := h.setEnv v.parmName (v.textAt F 0)
  if i = 0 then h₀ else (Handle.another k h₀).setEnv v.parmName (v.textAt F i)

theorem dimEnv_eq (htaken : (SweepDim.env v).Taken F k) (hi : i < v.n) (h : Handle) :
    dimEnv F v i h = .ok (h.setEnv v.parmName (v.textAt F i)) := by
  obtain ⟨h₀, happly⟩ := htaken i hi
  simp only [SweepDim.apply, dimEnv] at happly
  rw [dimEnv, DimValues.textAt]
  rcases htext : v.text F i with e | t
  · simp only [htext] at happly
    cases happly
  · rfl

/-- **The handles of a dimension** `--kenvs-dim`. -/
theorem sweepOver_env (htaken : (SweepDim.env v).Taken F k) (hpos : 0 < v.n) (h : Handle) :
    sweepOver (dimEnv F v) k h (List.range v.n) =
      ((List.range (v.n - 1)).map (envHandle F k v h), envHandle F k v h (v.n - 1)) := by
  obtain ⟨m, hm⟩ := Nat.exists_eq_succ_of_ne_zero hpos.ne'
  have hrange : List.range v.n = 0 :: List.range' 1 m := by
    rw [hm, List.range_eq_range', List.range'_succ]
  have hhandles : (sweepOver (dimEnv F v) k h (List.range v.n)).handles =
      (List.range (m + 1)).map (envHandle F k v h) := by
    rw [hrange, sweepOver, dimEnv_eq htaken hpos, handles_sweepOf, furtherHandles_eq_map
      (g := fun i => envHandle F k v h i), List.range_eq_range', List.range'_succ, List.map_cons]
    · rfl
    · intro i hi
      obtain ⟨hlo, hlt⟩ := List.mem_range'_1.mp hi
      rw [dimEnv_eq htaken (by omega), envHandle, if_neg (by omega)]
  rw [Sweep.handles, List.range_succ, List.map_append, List.map_singleton] at hhandles
  obtain ⟨hdone, hnewest⟩ := List.append_inj' hhandles rfl
  rw [hm, Nat.succ_sub_one, ← hdone, ← List.singleton_inj.mp hnewest, ← hm]

/-- The handle of a value holds the value. -/
theorem held_envHandle (hh : h.Sound k) (hfit : v.parmName.length < nameStrMaxLen)
    (htaken : (SweepDim.env v).Taken F k) (hi : i < v.n) :
    (SweepDim.env v).held (envHandle F k v h i) = (SweepDim.env v).stored F k i := by
  have hkept := inherited_sound F k
  have hset : ∀ (x : Handle) (j : ℕ), j < v.n → x.Sound k →
      (SweepDim.env v).held (x.setEnv v.parmName (v.textAt F j)) =
        (SweepDim.env v).stored F k j := by
    intro x j hj hx
    exact SweepDim.held_of_apply hx hfit (dimEnv_eq htaken hj x) (htaken j hj)
  simp only [envHandle]
  split_ifs with hzero
  · rw [hzero, hset h 0 (by omega) hh]
  · exact hset _ i hi (hkept.another _ (hkept.setEnv _ _ _ hh))

/-- The handle of a value holds what the handle in front of the dimension holds for another
name. -/
theorem held_envHandle_ne {d : SweepDim} (hh : h.Sound k)
    (hfit : v.parmName.length < nameStrMaxLen) (hfit' : d.name.length < nameStrMaxLen)
    (hne : d.name ≠ v.parmName) (htaken : (SweepDim.env v).Taken F k) (hi : i < v.n) :
    d.held (envHandle F k v h i) = d.held h := by
  have hkept := inherited_sound F k
  have hset : ∀ (x : Handle) (j : ℕ), j < v.n → x.Sound k →
      d.held (x.setEnv v.parmName (v.textAt F j)) = d.held x := by
    intro x j hj hx
    exact SweepDim.held_of_apply_ne (d := .env v) hx hfit hfit' hne (dimEnv_eq htaken hj x)
  simp only [envHandle]
  split_ifs with hzero
  · exact hset h 0 (by omega) hh
  · rw [hset _ i hi (hkept.another _ (hkept.setEnv _ _ _ hh)),
      SweepDim.held_another (hkept.setEnv _ _ _ hh).of, hset h 0 (by omega) hh]

theorem arg?_envHandle (hof : h.Of k) (v : DimValues) (i : ℕ) (name : Bytes) :
    (envHandle F k v h i).arg? name = h.arg? name := by
  simp only [envHandle]
  split_ifs
  · rfl
  · exact arg?_another (Handle.Of.setEnv hof) name

theorem env?_envHandle (hh : h.Sound k) (hfit : v.parmName.length < nameStrMaxLen) {name : Bytes}
    (hname : name.length < nameStrMaxLen) (i : ℕ) :
    (envHandle F k v h i).env? name = envAfter name (h.env? name) v.parmName (v.textAt F i) := by
  have hkept := inherited_sound F k
  have hset := hkept.setEnv h v.parmName (v.textAt F 0) hh
  simp only [envHandle]
  split_ifs with hzero
  · rw [hzero, env?_setEnv hh.keys hname]
  · rw [env?_setEnv (hkept.another _ hset).keys hname, env?_another, env?_setEnv hh.keys hname]
    by_cases hkey : v.parmName = name
    · simp only [envAfter, if_pos hkey]
    · have hcut : printedIn nameStrMaxLen v.parmName ≠ name := by
        rw [printedIn_of_lt hfit]
        exact hkey
      simp only [envAfter, if_neg hkey, if_neg hcut]

theorem arg?_kargOn (hof : h.Of k) (name token : Bytes) :
    (kargOn F h token).arg? name = tokenArg F k name (h.arg? name) token := by
  rw [kargOn, tokenArg]
  rcases kargPair token with e | p
  · rfl
  · simp only
    rcases hset : h.setKarg F p.1 p.2 with e | h'
    · simp only
      split_ifs with hname
      · have hnone : k.argValue F name p.2 = none := by
          rw [← hname, ← Option.not_isSome_iff_eq_none, ← setKarg_ok_iff hof, hset]
          simp
        rw [hnone, Option.none_or]
      · rfl
    · simp only [arg?_setKarg hof hset, eq_comm (a := name)]
      split_ifs with hname
      · have hsome : (k.argValue F p.1 p.2).isSome := (setKarg_ok_iff hof).mp ⟨h', hset⟩
        obtain ⟨x, hx⟩ := Option.isSome_iff_exists.mp hsome
        rw [← hname, hx, Option.some_or]
      · rfl

theorem env?_kenvOn (hkeys : EnvKeys h) {name : Bytes} (hname : name.length < nameStrMaxLen)
    (token : Bytes) : (kenvOn h token).env? name = tokenEnv name (h.env? name) token := by
  rw [kenvOn, tokenEnv]
  rcases kenvPair token with e | p
  · rfl
  · exact env?_setEnv hkeys hname p.1 p.2

theorem arg?_foldl_kargOn (hof : h.Of k) (name : Bytes) (tokens : List Bytes) :
    (tokens.foldl (kargOn F) h).arg? name =
      tokens.foldl (tokenArg F k name) (h.arg? name) := by
  induction tokens generalizing h with
  | nil => rfl
  | cons token tokens ih =>
      rw [List.foldl_cons, List.foldl_cons, ih ((inherited_of F k).kargOn h token hof),
        arg?_kargOn hof]

theorem env?_foldl_kenvOn (F : Doubles) (hh : h.Sound k) {name : Bytes}
    (hname : name.length < nameStrMaxLen)
    (tokens : List Bytes) :
    (tokens.foldl kenvOn h).env? name = tokens.foldl (tokenEnv name) (h.env? name) := by
  induction tokens generalizing h with
  | nil => rfl
  | cons token tokens ih =>
      rw [List.foldl_cons, List.foldl_cons, ih ((inherited_sound F k).kenvOn h token hh),
        env?_kenvOn hh.keys hname]

theorem envs_foldl_kargOn (h : Handle) (tokens : List Bytes) :
    (tokens.foldl (kargOn F) h).envs = h.envs := by
  refine foldl_keeps (P := fun x => x.envs = h.envs) (fun x token hx => ?_) tokens rfl
  rw [kargOn]
  split
  · exact hx
  · split
    · exact hx
    · rename_i hset
      exact (Handle.setKarg_envs hset).trans hx

theorem args_foldl_kenvOn (h : Handle) (tokens : List Bytes) :
    (tokens.foldl kenvOn h).args = h.args := by
  refine foldl_keeps (P := fun x => x.args = h.args) (fun x token hx => ?_) tokens rfl
  rw [kenvOn]
  split
  · exact hx
  · exact hx

/-- The values of the dimensions of a command line have names that fit. -/
theorem length_parmName_lt (F : Doubles) (cfg : DimConfig) :
    (tpbDimGenerateValues F cfg).parmName.length < nameStrMaxLen := by
  rw [tpbDimGenerateValues]
  split
  · exact length_printedIn_lt (by decide) _
  · exact length_printedIn_lt (by decide) _

theorem dimsOf_cons_kenvsDim {w : Bytes} {cfg : DimConfig} (hcfg : tpbArgpParseDim F w = .ok cfg)
    (os : List Opt) :
    dimsOf F (.kenvsDim w :: os) = .env (tpbDimGenerateValues F cfg) :: dimsOf F os := by
  rw [dimsOf, List.filterMap_cons_some (b := .env (tpbDimGenerateValues F cfg)), dimsOf]
  rw [Opt.dim, hcfg]
  rfl

/-- **The newest handle** holds what the options leave. -/
theorem held_segSweep {d : SweepDim} (hfit : d.name.length < nameStrMaxLen)
    (hdims : ∀ x ∈ dimsOf ctx.floats opts, x.Taken ctx.floats k ∧ 0 < x.n) :
    d.held (segSweep ctx k opts (.ofKernel k)).2 = d.given ctx.floats k opts := by
  have hall : ∀ (h : Handle), h.Sound k →
      (∀ name, (segSweep ctx k opts h).2.arg? name =
        opts.foldl (Opt.argGiven ctx.floats k name) (h.arg? name)) ∧
      ∀ name : Bytes, name.length < nameStrMaxLen → (segSweep ctx k opts h).2.env? name =
        opts.foldl (Opt.envGiven ctx.floats name) (h.env? name) := by
    induction opts with
    | nil => exact fun h hh => ⟨fun name => rfl, fun name hname => rfl⟩
    | cons o os ih =>
        intro h hh
        have hstep : (o.sweep ctx k h).2.Sound k :=
          (inherited_sound ctx.floats k).sweep o hh _ (by simp [Sweep.handles])
        have hone : (∀ name, (o.sweep ctx k h).2.arg? name =
              o.argGiven ctx.floats k name (h.arg? name)) ∧
            ∀ name : Bytes, name.length < nameStrMaxLen → (o.sweep ctx k h).2.env? name =
              o.envGiven ctx.floats name (h.env? name) := by
          cases o with
          | kargs v =>
              refine ⟨fun name => arg?_foldl_kargOn hh.of name _, fun name hname => ?_⟩
              change Option.map _ (List.find? _ ((commaTokens v).foldl _ h).envs) = _
              rw [envs_foldl_kargOn]
              rfl
          | kenvs v =>
              refine ⟨fun name => ?_, fun name hname =>
                env?_foldl_kenvOn ctx.floats hh hname (commaTokens v)⟩
              change Option.map _ (List.find? _ ((commaTokens v).foldl _ h).args) = _
              rw [args_foldl_kenvOn]
              rfl
          | kenvsDim w =>
              rcases hcfg : tpbArgpParseDim ctx.floats w with e | cfg
              · simp only [Opt.sweep, hcfg, Opt.argGiven, Opt.envGiven]
                exact ⟨fun name => trivial, fun name hname => trivial⟩
              · rw [dimsOf_cons_kenvsDim hcfg, List.forall_mem_cons] at hdims
                obtain ⟨htaken, hpos⟩ := hdims.1
                have hlast := dimEnv_eq htaken (Nat.sub_lt hpos Nat.one_pos) h
                simp only [Opt.sweep, hcfg, Opt.argGiven, Opt.envGiven, envSweep]
                rw [sweepOver_env htaken hpos]
                refine ⟨fun name => arg?_envHandle hh.of _ _ name, fun name hname => ?_⟩
                rw [env?_envHandle hh (length_parmName_lt _ cfg) hname, DimValues.envGiven]
                rw [dimEnv] at hlast
                rcases htext : (tpbDimGenerateValues ctx.floats cfg).text ctx.floats
                  ((tpbDimGenerateValues ctx.floats cfg).n - 1) with e | t
                · simp only [htext] at hlast
                  cases hlast
                · simp only [DimValues.textAt, htext]
          | _ => exact ⟨fun name => rfl, fun name hname => rfl⟩
        have htail : ∀ x ∈ dimsOf ctx.floats os, x ∈ dimsOf ctx.floats (o :: os) := by
          intro x hx
          obtain ⟨o', ho', hdim⟩ := List.mem_filterMap.mp hx
          exact List.mem_filterMap.mpr ⟨o', List.mem_cons_of_mem _ ho', hdim⟩
        have hrest := ih (fun x hx => hdims x (htail x hx)) (o.sweep ctx k h).2 hstep
        rw [segSweep]
        refine ⟨fun name => ?_, fun name hname => ?_⟩
        · rw [hrest.1, hone.1, List.foldl_cons]
        · rw [hrest.2 name hname, hone.2 name hname, List.foldl_cons]
  obtain ⟨hargs, henvs⟩ := hall _ (Handle.sound_ofKernel k)
  cases d with
  | arg v => rw [SweepDim.held, SweepDim.given, hargs]
  | env v =>
      have hroom : v.parmName.length < nameStrMaxLen := hfit
      rw [SweepDim.held, SweepDim.given, henvs _ hroom]
      rfl

end Newest

end TPBench
