import TPBench.Cli.Segments
import TPBench.Odometer

/-!
# Dimensions and What Handles Hold

A dimension of a segment runs over an argument or over an environment variable (`SweepDim`). A
handle holds a value for it (`SweepDim.held`), which a call of a setter replaces: what is set is
held (`held_of_apply`), what is held for another name stays (`held_of_apply_ne`), and a copy
holds what the handle it is made of holds (`held_another`).

The flush counts through the combinations of the dimensions `--kargs-dim`. What its handles hold
are the digits of the counter (`map_held_sweepCombos`).
-/

open CFile Odometer

namespace TPBench

/-! ### What the setters change -/

section Setters

variable {F : Doubles} {k : Kernel} {h h' : Handle} {name name' text : Bytes}

/-- The value a kernel takes a text for. -/
def Kernel.argValue (F : Doubles) (k : Kernel) (name text : Bytes) : Option UInt64 :=
  match k.args.find? (·.name = name) with
  | none => none
  | some a => (a.valueOf F text).toOption

theorem find_setArgValue (v : UInt64) (as : List RtArg) :
    ((setArgValue name v as).find? (·.name = name')).map (·.value) =
      if name' = name then (as.find? (·.name = name)).map fun _ => v
      else (as.find? (·.name = name')).map (·.value) := by
  induction as with
  | nil => simp [setArgValue]
  | cons a as ih =>
      by_cases ha : a.name = name
      · by_cases hname : name' = name
        · simp [setArgValue, ha, hname]
        · have hne : name ≠ name' := Ne.symm hname
          simp [setArgValue, ha, hname, hne]
      · by_cases ha' : a.name = name'
        · have hname : name' ≠ name := fun h => ha (ha'.trans h)
          simp [setArgValue, ha', hname]
        · simpa [setArgValue, ha, ha'] using ih

/-- The arguments behind a call that is accepted. -/
theorem arg?_setKarg (hof : h.Of k) (hset : h.setKarg F name text = .ok h') (name' : Bytes) :
    h'.arg? name' = if name' = name then k.argValue F name text else h.arg? name' := by
  obtain ⟨a, v, ha, hv, rfl⟩ := Handle.setKarg_eq_ok hset
  have hdecl := hof.find_decl name
  rw [ha] at hdecl
  rw [Handle.arg?, Handle.arg?, find_setArgValue, ha, Option.map_some]
  split_ifs with hname
  · rw [Kernel.argValue]
    rcases hk : k.args.find? (·.name = name) with - | b
    · rw [hk] at hdecl
      cases hdecl
    · rw [hk] at hdecl
      simp only [hk, ← RtArg.valueOf_congr (Option.some.inj hdecl), hv]
      rfl
  · rfl

/-- A handle of a kernel takes a text when the kernel has a value for it. -/
theorem setKarg_ok_iff (hof : h.Of k) :
    (∃ h', h.setKarg F name text = .ok h') ↔ (k.argValue F name text).isSome := by
  rw [hof.setKarg_eq, Kernel.argValue]
  rcases hk : k.args.find? (·.name = name) with - | a
  · simp only [hk]
    simp
  · simp only [hk]
    rcases a.valueOf F text with e | v
    · simp [Except.toOption]
    · simp [Except.toOption]

/-- Another handle has the arguments of the one it is a copy of. -/
theorem arg?_another (hof : h.Of k) (name : Bytes) :
    (Handle.another k h).arg? name = h.arg? name := by
  have hlen : h.args.length = k.args.length := by
    have hmap := congrArg List.length hof
    simpa using hmap
  have hdecl := hof.find_decl name
  have hargs : (Handle.another k h).args = k.args.map (RtArg.valueFrom h.args) := by
    change copyArgValues h.args k.args = _
    rw [copyArgValues, hlen, List.take_length, List.drop_length, List.append_nil]
  rw [Handle.arg?, hargs, List.find?_map]
  have hsame : ((fun a : RtArg => decide (a.name = name)) ∘ RtArg.valueFrom h.args) =
      fun a => decide (a.name = name) := by
    funext a
    have hname := congrArg RtArg.name (RtArg.decl_valueFrom h.args a)
    exact congrArg (fun n => decide (n = name)) hname
  rw [hsame]
  rcases hk : k.args.find? (·.name = name) with - | b
  · rw [hk] at hdecl
    rcases hh : h.args.find? (·.name = name) with - | a
    · rw [hk, Handle.arg?, hh]
      rfl
    · rw [hh] at hdecl
      cases hdecl
  · rw [hk] at hdecl
    rcases hh : h.args.find? (·.name = name) with - | a
    · rw [hh] at hdecl
      cases hdecl
    · have hb : b.name = name := by simpa using List.find?_some hk
      rw [hk, Handle.arg?, hh, Option.map_some, Option.map_some, Option.map_some, RtArg.valueFrom]
      simp only [hb, hh]

/-- The names of the environment entries fit the array they are stored in. -/
def EnvKeys (h : Handle) : Prop := ∀ e ∈ h.envs, e.1.length < nameStrMaxLen

theorem inherited_envKeys (F : Doubles) (k : Kernel) : Inherited F k EnvKeys where
  another h hh := by
    intro e he
    change e ∈ (if h.envs = [] then [] else h.envs) at he
    split_ifs at he
    · cases he
    · exact hh e he
  setKarg _ _ _ _ hset hh := by
    rw [EnvKeys, Handle.setKarg_envs hset]
    exact hh
  setEnv h name value hh := by
    have hset : ∀ es : List (Bytes × Bytes), (∀ e ∈ es, e.1.length < nameStrMaxLen) →
        ∀ e ∈ setEnvEntry name value es, e.1.length < nameStrMaxLen := by
      intro es hes
      induction es with
      | nil =>
          intro e he
          rw [List.mem_singleton.mp he]
          exact length_printedIn_lt (by decide) name
      | cons e' es ih =>
          have he' := hes e' (by simp)
          have hrest : ∀ e ∈ es, e.1.length < nameStrMaxLen := fun e he => hes e (by simp [he])
          rw [setEnvEntry]
          split_ifs
          · exact List.forall_mem_cons.mpr ⟨he', hrest⟩
          · exact List.forall_mem_cons.mpr ⟨he', ih hrest⟩
    exact hset h.envs hh

/-- What a call leaves as the value of a variable. A longer name is cut, and then only adds a
variable. -/
def envAfter (name : Bytes) (cur : Option Bytes) (key value : Bytes) : Option Bytes :=
  if key = name then some (printedIn cliStrMaxLen value)
  else if printedIn nameStrMaxLen key = name then cur.or (some (printedIn cliStrMaxLen value))
  else cur

/-- The environment behind a call. -/
theorem env?_setEnv (hkeys : EnvKeys h) (hname : name'.length < nameStrMaxLen)
    (name value : Bytes) :
    (h.setEnv name value).env? name' = envAfter name' (h.env? name') name value := by
  have hset : ∀ es : List (Bytes × Bytes), (∀ e ∈ es, e.1.length < nameStrMaxLen) →
      ((setEnvEntry name value es).find? (·.1 = name')).map (·.2) =
        envAfter name' ((es.find? (·.1 = name')).map (·.2)) name value := by
    intro es hes
    induction es with
    | nil =>
        rw [setEnvEntry, envAfter]
        by_cases hkey : name = name'
        · simp [hkey, printedIn_of_lt hname]
        · by_cases hcut : printedIn nameStrMaxLen name = name'
          · simp [hkey, hcut]
          · simp [hkey, hcut]
    | cons e es ih =>
        have he := hes e (by simp)
        have hrest := ih fun x hx => hes x (by simp [hx])
        rw [setEnvEntry]
        by_cases hkey : e.1 = name
        · rw [if_pos hkey]
          by_cases hsame : e.1 = name'
          · simp [envAfter, hsame, ← hkey]
          · have hne : name ≠ name' := fun h => hsame (hkey.trans h)
            have hcut : printedIn nameStrMaxLen name ≠ name' := by
              rw [← hkey, printedIn_of_lt he]
              exact hsame
            simp [envAfter, hne, hcut, hsame]
        · rw [if_neg hkey]
          by_cases hsame : e.1 = name'
          · have hne : name ≠ name' := fun h => hkey (hsame.trans h.symm)
            by_cases hcut : printedIn nameStrMaxLen name = name'
            · simp [envAfter, hsame, hne, hcut]
            · simp [envAfter, hsame, hne, hcut]
          · simpa [hsame] using hrest
  exact hset h.envs hkeys

theorem env?_another (h : Handle) (name : Bytes) :
    (Handle.another k h).env? name = h.env? name := by
  have henvs : (Handle.another k h).envs = h.envs := by
    change (if h.envs = [] then [] else h.envs) = h.envs
    split_ifs with hnil
    · exact hnil.symm
    · rfl
  rw [Handle.env?, henvs, Handle.env?]

end Setters

/-! ### Dimensions -/

/-- A dimension of a segment: over an argument, or over an environment variable. -/
inductive SweepDim
  | arg (v : DimValues)
  | env (v : DimValues)

namespace SweepDim

/-- The values a dimension runs through. -/
def values : SweepDim → DimValues
  | arg v => v
  | env v => v

/-- The number of values. -/
def n (d : SweepDim) : ℕ := d.values.n

/-- The name of the parameter or of the variable. -/
def name (d : SweepDim) : Bytes := d.values.parmName

/-- A dimension `--kenvs-dim`. -/
def isEnv : SweepDim → Bool
  | arg _ => false
  | env _ => true

/-- A value is set on a handle. -/
def apply (F : Doubles) : SweepDim → ℕ → Handle → Except Err Handle
  | arg v => dimKarg F v
  | env v => dimEnv F v

/-- What a handle holds for a dimension. -/
def held : SweepDim → Handle → Option (UInt64 ⊕ Bytes)
  | arg v, h => (h.arg? v.parmName).map .inl
  | env v, h => (h.env? v.parmName).map .inr

/-- What a handle of the kernel holds when a value was set. -/
def stored (F : Doubles) (k : Kernel) (d : SweepDim) (i : ℕ) : Option (UInt64 ⊕ Bytes) :=
  match d.apply F i (.ofKernel k) with
  | .error _ => none
  | .ok h => d.held h

/-- Every value is accepted by the kernel. -/
def Taken (F : Doubles) (k : Kernel) (d : SweepDim) : Prop :=
  ∀ i < d.n, ∃ h, d.apply F i (.ofKernel k) = .ok h

end SweepDim

/-- The dimension of an option. -/
def Opt.dim (F : Doubles) : Opt → Option SweepDim
  | .kargsDim v => (tpbArgpParseDim F v).toOption.map fun cfg => .arg (tpbDimGenerateValues F cfg)
  | .kenvsDim v => (tpbArgpParseDim F v).toOption.map fun cfg => .env (tpbDimGenerateValues F cfg)
  | _ => none

/-- The dimensions of a segment, in their order. -/
def dimsOf (F : Doubles) (opts : List Opt) : List SweepDim := opts.filterMap (Opt.dim F)

/-! ### What a handle holds for a dimension -/

/-- What is known of every handle of a segment. -/
structure Handle.Sound (k : Kernel) (h : Handle) : Prop where
  of : h.Of k
  keys : EnvKeys h

theorem Handle.sound_ofKernel (k : Kernel) : (Handle.ofKernel k).Sound k :=
  ⟨Handle.of_ofKernel k, fun e he => by cases he⟩

theorem inherited_sound (F : Doubles) (k : Kernel) : Inherited F k (Handle.Sound k) where
  another h hh := ⟨(inherited_of F k).another h hh.of, (inherited_envKeys F k).another h hh.keys⟩
  setKarg h h' name text hset hh :=
    ⟨(inherited_of F k).setKarg h h' name text hset hh.of,
      (inherited_envKeys F k).setKarg h h' name text hset hh.keys⟩
  setEnv h name value hh :=
    ⟨(inherited_of F k).setEnv h name value hh.of,
    (inherited_envKeys F k).setEnv h name value hh.keys⟩

section Held

variable {F : Doubles} {k : Kernel} {d d' : SweepDim} {h h' : Handle} {i : ℕ}

namespace SweepDim

theorem sound_apply (hh : h.Sound k) (happly : d.apply F i h = .ok h') : h'.Sound k := by
  cases d with
  | arg v => exact (inherited_sound F k).dimKarg v i h h' happly hh
  | env v => exact (inherited_sound F k).dimEnv v i h h' happly hh

/-- A value that is accepted is accepted by every handle of the kernel. -/
theorem Taken.apply (htaken : d.Taken F k) (hi : i < d.n) (hof : h.Of k) :
    ∃ h', d.apply F i h = .ok h' := by
  obtain ⟨h₀, happly⟩ := htaken i hi
  cases d with
  | arg v =>
      simp only [SweepDim.apply, dimKarg] at happly ⊢
      rcases htext : v.text F i with e | t
      · rw [htext] at happly
        cases happly
      · simp only [htext] at happly ⊢
        exact (setKarg_ok_iff hof).mpr
          ((setKarg_ok_iff (Handle.of_ofKernel k)).mp ⟨h₀, happly⟩)
  | env v =>
      simp only [SweepDim.apply, dimEnv] at happly ⊢
      rcases htext : v.text F i with e | t
      · rw [htext] at happly
        cases happly
      · exact ⟨_, rfl⟩

/-- What a handle holds behind a call. -/
theorem held_arg_of_apply {v : DimValues} (hof : h.Of k) (happly : dimKarg F v i h = .ok h') :
    ∃ t, v.text F i = .ok t ∧ h'.arg? v.parmName = k.argValue F v.parmName t := by
  rw [dimKarg] at happly
  rcases htext : v.text F i with e | t
  · simp only [htext] at happly
    cases happly
  · simp only [htext] at happly
    exact ⟨t, rfl, (arg?_setKarg hof happly _).trans (if_pos rfl)⟩

theorem held_env_of_apply {v : DimValues} (hh : h.Sound k)
    (hfit : v.parmName.length < nameStrMaxLen) (happly : dimEnv F v i h = .ok h') :
    ∃ t, v.text F i = .ok t ∧ h'.env? v.parmName = some (printedIn cliStrMaxLen t) := by
  rw [dimEnv] at happly
  rcases htext : v.text F i with e | t
  · simp only [htext] at happly
    cases happly
  · simp only [htext] at happly
    obtain rfl := Except.ok.inj happly
    exact ⟨t, rfl, (env?_setEnv hh.keys hfit _ _).trans (if_pos rfl)⟩

/-- **What is set is held.** -/
theorem held_of_apply (hh : h.Sound k) (hfit : d.name.length < nameStrMaxLen)
    (happly : d.apply F i h = .ok h') (htaken : ∃ h₀, d.apply F i (.ofKernel k) = .ok h₀) :
    d.held h' = d.stored F k i := by
  obtain ⟨h₀, happly₀⟩ := htaken
  rw [stored, happly₀]
  cases d with
  | arg v =>
      obtain ⟨t, htext, harg⟩ := held_arg_of_apply hh.of happly
      obtain ⟨t₀, htext₀, harg₀⟩ := held_arg_of_apply (Handle.of_ofKernel k) happly₀
      rw [htext] at htext₀
      obtain rfl := Except.ok.inj htext₀
      simp only [held, harg, harg₀]
  | env v =>
      obtain ⟨t, htext, henv⟩ := held_env_of_apply (v := v) hh hfit happly
      obtain ⟨t₀, htext₀, henv₀⟩ := held_env_of_apply (v := v)
          (Handle.sound_ofKernel k) hfit happly₀
      rw [htext] at htext₀
      obtain rfl := Except.ok.inj htext₀
      simp only [held, henv, henv₀]

/-- What is held for another name stays. -/
theorem held_of_apply_ne (hh : h.Sound k) (hfit : d.name.length < nameStrMaxLen)
    (hfit' : d'.name.length < nameStrMaxLen) (hne : d'.name ≠ d.name)
    (happly : d.apply F i h = .ok h') : d'.held h' = d'.held h := by
  cases d with
  | arg v =>
      simp only [SweepDim.apply, dimKarg] at happly
      rcases htext : v.text F i with e | t
      · simp only [htext] at happly
        cases happly
      · simp only [htext] at happly
        cases d' with
        | arg v' =>
            have hnames : v'.parmName ≠ v.parmName := hne
            rw [held, held, arg?_setKarg hh.of happly, if_neg hnames]
        | env v' => rw [held, held, Handle.env?, Handle.setKarg_envs happly, Handle.env?]
  | env v =>
      simp only [SweepDim.apply, dimEnv] at happly
      rcases htext : v.text F i with e | t
      · simp only [htext] at happly
        cases happly
      · simp only [htext] at happly
        obtain rfl := Except.ok.inj happly
        cases d' with
        | arg v' => rfl
        | env v' =>
            have hnames : v.parmName ≠ v'.parmName := Ne.symm hne
            have hroom : v'.parmName.length < nameStrMaxLen := hfit'
            have hcut : printedIn nameStrMaxLen v.parmName = v.parmName := printedIn_of_lt hfit
            rw [held, held, env?_setEnv hh.keys hroom, envAfter, if_neg hnames, hcut,
              if_neg hnames]

theorem held_another (hof : h.Of k) : d.held (.another k h) = d.held h := by
  cases d with
  | arg v => rw [held, held, arg?_another hof]
  | env v => rw [held, held, env?_another]

theorem held_setWrappers (links : List WrapperLink) : d.held (h.setWrappers links) = d.held h := by
  cases d with
  | arg v => rfl
  | env v => rfl

end SweepDim

end Held

/-! ### The handles of the flush -/

/-- The dimensions `--kargs-dim`. -/
def argValues (ds : List SweepDim) : List DimValues :=
  ds.filterMap fun d =>
    match d with
    | .arg v => some v
    | .env _ => none

/-- The names of the dimensions are distinct and fit, every value is accepted, and there is one. -/
structure DimsGood (F : Doubles) (k : Kernel) (ds : List SweepDim) : Prop where
  names : (ds.map (·.name)).Nodup
  fit : ∀ d ∈ ds, d.name.length < nameStrMaxLen
  taken : ∀ d ∈ ds, d.Taken F k
  pos : ∀ d ∈ ds, 0 < d.n

section Flush

variable {F : Doubles} {k : Kernel} {d : SweepDim} {ds : List SweepDim} {h : Handle}

theorem DimsGood.of_cons (hgood : DimsGood F k (d :: ds)) : DimsGood F k ds where
  names := (List.nodup_cons.mp hgood.names).2
  fit x hx := hgood.fit x (List.mem_cons_of_mem _ hx)
  taken x hx := hgood.taken x (List.mem_cons_of_mem _ hx)
  pos x hx := hgood.pos x (List.mem_cons_of_mem _ hx)

theorem DimsGood.name_ne (hgood : DimsGood F k (d :: ds)) {x : SweepDim} (hx : x ∈ ds) :
    x.name ≠ d.name := by
  intro heq
  have hmem : x.name ∈ ds.map (·.name) := List.mem_map_of_mem hx
  rw [heq] at hmem
  exact (List.nodup_cons.mp hgood.names).1 hmem

theorem DimsGood.reverse (hgood : DimsGood F k ds) : DimsGood F k ds.reverse where
  names := by
    rw [List.map_reverse, List.nodup_reverse]
    exact hgood.names
  fit x hx := hgood.fit x (List.mem_reverse.mp hx)
  taken x hx := hgood.taken x (List.mem_reverse.mp hx)
  pos x hx := hgood.pos x (List.mem_reverse.mp hx)

theorem envs_digitsOn (vs : List DimValues) (c : ℕ) (h : Handle) :
    (digitsOn F vs c h).envs = h.envs := by
  induction vs generalizing c h with
  | nil => rfl
  | cons v vs ih =>
      rw [digitsOn]
      split
      · exact ih _ _
      · rename_i h' hres
        rw [dimKarg] at hres
        split at hres
        · cases hres
        · rw [ih, Handle.setKarg_envs hres]

/-- The combinations do not touch the environment. -/
theorem held_env_digitsOn (henv : d.isEnv) (vs : List DimValues) (c : ℕ) (h : Handle) :
    d.held (digitsOn F vs c h) = d.held h := by
  cases d with
  | arg v => cases henv
  | env v => rw [SweepDim.held, SweepDim.held, Handle.env?, envs_digitsOn, Handle.env?]

/-- What is held for a name that is not among those of the dimensions stays. -/
theorem held_digitsOn_of_ne (hfit : d.name.length < nameStrMaxLen)
    (hfits : ∀ x ∈ ds, x.name.length < nameStrMaxLen) (hne : ∀ x ∈ ds, x.name ≠ d.name)
    (hh : h.Sound k) (c : ℕ) : d.held (digitsOn F (argValues ds) c h) = d.held h := by
  induction ds generalizing c h with
  | nil => rfl
  | cons x ds ih =>
      have hfits' : ∀ x ∈ ds, x.name.length < nameStrMaxLen := fun y hy => hfits y (by simp [hy])
      have hne' : ∀ x ∈ ds, x.name ≠ d.name := fun y hy => hne y (by simp [hy])
      cases x with
      | env v => exact ih hfits' hne' hh c
      | arg v =>
          change d.held (digitsOn F (v :: argValues ds) c h) = d.held h
          rw [digitsOn]
          split
          · exact ih hfits' hne' hh _
          · rename_i h' hres
            have hres' : (SweepDim.arg v).apply F (c % v.n) h = .ok h' := hres
            rw [ih hfits' hne' (SweepDim.sound_apply hh hres')]
            exact SweepDim.held_of_apply_ne hh (hfits _ (by simp)) hfit
              (Ne.symm (hne _ (by simp))) hres'

/-- **A combination on a handle**: the dimensions hold the values of their digits. -/
theorem map_held_digitsOn (hgood : DimsGood F k ds) (hh : h.Sound k)
    (henv : ∀ d ∈ ds, d.isEnv → d.n = 1 ∧ d.held h = d.stored F k 0) (c : ℕ) :
    ds.map (·.held (digitsOn F (argValues ds) c h)) =
      digits (SweepDim.stored F k) SweepDim.n ds c := by
  induction ds generalizing c h with
  | nil => rfl
  | cons d ds ih =>
      have hrest : ∀ x ∈ ds, x.isEnv → x.n = 1 ∧ x.held h = x.stored F k 0 :=
        fun x hx => henv x (List.mem_cons_of_mem _ hx)
      rw [List.map_cons, digits]
      cases d with
      | env v =>
          obtain ⟨hone, hheld⟩ := henv (.env v) (by simp) rfl
          rw [hone, Nat.mod_one, Nat.div_one, held_env_digitsOn rfl, hheld]
          exact congrArg _ (ih hgood.of_cons hh hrest c)
      | arg v =>
          have hlt : c % v.n < v.n := Nat.mod_lt _ (hgood.pos (.arg v) (by simp))
          obtain ⟨h', happly⟩ := (hgood.taken (.arg v) (by simp)).apply hlt hh.of
          have hh' := SweepDim.sound_apply hh happly
          have hon : digitsOn F (argValues (.arg v :: ds)) c h =
              digitsOn F (argValues ds) (c / v.n) h' := by
            change digitsOn F (v :: argValues ds) c h = _
            have hres : dimKarg F v (c % v.n) h = .ok h' := happly
            rw [digitsOn, hres]
          have hrest' : ∀ x ∈ ds, x.isEnv → x.n = 1 ∧ x.held h' = x.stored F k 0 := by
            intro x hx hxe
            obtain ⟨hone, hheld⟩ := hrest x hx hxe
            rw [SweepDim.held_of_apply_ne hh (hgood.fit _ (by simp)) (hgood.of_cons.fit x hx)
              (hgood.name_ne hx) happly]
            exact ⟨hone, hheld⟩
          rw [hon, held_digitsOn_of_ne (hgood.fit _ (by simp)) hgood.of_cons.fit
            (fun x hx => hgood.name_ne hx) hh',
            SweepDim.held_of_apply hh (hgood.fit _ (by simp)) happly
              (hgood.taken _ (by simp) _ hlt)]
          exact congrArg _ (ih hgood.of_cons hh' hrest' _)

/-- Where every value is accepted, one dimension is expanded as several are. -/
theorem flushSweep_eq {cfgs : List DimConfig}
    (htaken : ∀ cfg ∈ cfgs, (SweepDim.arg (tpbDimGenerateValues F cfg)).Taken F k)
    (hpos : ∀ cfg ∈ cfgs, 0 < (tpbDimGenerateValues F cfg).n) (hh : h.Sound k) :
    flushSweep F k cfgs h = sweepCombos F (cfgs.map (tpbDimGenerateValues F)) k h
      ((cfgs.map (tpbDimGenerateValues F)).map (·.n)).prod := by
  rcases cfgs with - | ⟨cfg, - | ⟨cfg', cfgs⟩⟩
  · rfl
  · set v := tpbDimGenerateValues F cfg with hv
    have hone : ∀ (c : ℕ) (x : Handle), c < v.n → x.Sound k →
        dimKarg F v c x = .ok (digitsOn F [v] c x) := by
      intro c x hc hx
      obtain ⟨x', happly⟩ := (htaken cfg (by simp)).apply hc hx.of
      have hres : dimKarg F v c x = .ok x' := happly
      rw [digitsOn, Nat.mod_eq_of_lt hc, hres]
      rfl
    have hvpos : 0 < v.n := hpos cfg (by simp)
    obtain ⟨m, hm⟩ := Nat.exists_eq_succ_of_ne_zero hvpos.ne'
    have hrange : List.range v.n = 0 :: List.range' 1 m := by
      rw [hm, List.range_eq_range', List.range'_succ]
    have hfirst := hone 0 h hvpos hh
    have hh₀ : (digitsOn F [v] 0 h).Sound k := (inherited_sound F k).digitsOn _ _ hh
    rw [flushSweep, ← hv, hrange, sweepOver, hfirst, sweepCombos]
    simp only [List.map_cons, List.map_nil, List.prod_cons, List.prod_nil, Nat.mul_one, ← hv,
      List.reverse_singleton, hm, Nat.succ_sub_one]
    rw [furtherHandles_eq_map]
    intro c hc
    obtain ⟨-, hlt⟩ := List.mem_range'_1.mp hc
    exact hone c _ (by omega) ((inherited_sound F k).another _ hh₀)
  · rfl

theorem argValues_reverse (ds : List SweepDim) : argValues ds.reverse = (argValues ds).reverse := by
  rw [argValues, List.filterMap_reverse, argValues]

/-- **What the handles of the flush hold** when the environment has the values of its
dimensions already. -/
theorem map_held_sweepCombos (hgood : DimsGood F k ds) (hh : h.Sound k)
    (henv : ∀ d ∈ ds, d.isEnv → d.n = 1 ∧ d.held h = d.stored F k 0) {total : ℕ}
    (htotal : 0 < total) :
    ((sweepCombos F (argValues ds) k h total).handles.map fun x => ds.map (·.held x)) =
      (List.range total).map fun c =>
        (digits (SweepDim.stored F k) SweepDim.n ds.reverse c).reverse := by
  have hone : ∀ (c : ℕ) (x : Handle), x.Sound k → (∀ d ∈ ds, d.isEnv → d.held x = d.held h) →
      (ds.map (·.held (digitsOn F (argValues ds).reverse c x))) =
        (digits (SweepDim.stored F k) SweepDim.n ds.reverse c).reverse := by
    intro c x hx hsame
    have henv' : ∀ d ∈ ds.reverse, d.isEnv → d.n = 1 ∧ d.held x = d.stored F k 0 := by
      intro d hd hde
      obtain ⟨hone, hheld⟩ := henv d (List.mem_reverse.mp hd) hde
      exact ⟨hone, (hsame d (List.mem_reverse.mp hd) hde).trans hheld⟩
    have hdigits := map_held_digitsOn hgood.reverse hx henv' c
    rw [argValues_reverse] at hdigits
    rw [← hdigits, List.map_reverse, List.reverse_reverse]
  obtain ⟨m, rfl⟩ := Nat.exists_eq_succ_of_ne_zero htotal.ne'
  have hrange : List.range (m + 1) = 0 :: List.range' 1 m := by
    rw [List.range_eq_range', List.range'_succ]
  have hh₀ : (digitsOn F (argValues ds).reverse 0 h).Sound k :=
      (inherited_sound F k).digitsOn _ _ hh
  rw [sweepCombos, handles_sweepOf, Nat.succ_eq_add_one, Nat.add_sub_cancel, hrange, List.map_cons,
    List.map_cons, hone 0 h hh fun d _ _ => rfl, List.map_map]
  refine congrArg _ (List.map_congr_left fun c _ => ?_)
  exact hone c _ ((inherited_sound F k).another _ hh₀) fun d _ hde => by
    rw [SweepDim.held_another hh₀.of, held_env_digitsOn hde]

end Flush

end TPBench
