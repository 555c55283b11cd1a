import Mathlib.Algebra.Order.BigOperators.GroupWithZero.List
import TPBench.Cli.Run

/-!
# What a Sweep Leaves in the Driver

A dimension runs over the newest handle: its first value goes to the handle that is there, and
for each further value there is another handle, a copy of that one. The handles behind the newest
one are not touched again, so a sweep of a handle is a list of handles that are done and the
newest one (`Sweep`).

The sweeps are functions of the handle (`sweepOver`, `sweepCombos`), and the programs of the
driver compute them (`expandOver_onNewest`, `cartesianLoop_onNewest`). An error in the value of
an argument ends the sweep over one dimension, and is passed over in the sweep over the
combinations of several.
-/

open CFile

namespace TPBench

/-! ### Sweeps -/

/-- The handles that are done, and the newest one. -/
abbrev Sweep : Type := List Handle × Handle

/-- All handles of a sweep. -/
def Sweep.handles (p : Sweep) : List Handle := p.1 ++ [p.2]

/-- The driver behind the handles `hs`, with a sweep. -/
def Driver.swept (hs : List Handle) (p : Sweep) : Driver := .onNewest (hs ++ p.1) p.2

/-- A handle and those that follow it. -/
def sweepOf (h : Handle) : List Handle → Sweep
  | [] => ([], h)
  | h' :: hs => (h :: (sweepOf h' hs).1, (sweepOf h' hs).2)

@[simp] theorem handles_sweepOf (h : Handle) (hs : List Handle) :
    (sweepOf h hs).handles = h :: hs := by
  induction hs generalizing h with
  | nil => rfl
  | cons h' hs ih => exact congrArg (h :: ·) (ih h')

theorem Driver.swept_cons (hs : List Handle) (h : Handle) (p : Sweep) :
    Driver.swept hs (h :: p.1, p.2) = Driver.swept (hs ++ [h]) p := by
  rw [Driver.swept, Driver.swept, List.append_assoc, List.singleton_append]

/-- A handle alone has none behind it. -/
theorem sweepOf_fst_eq_nil {h : Handle} {hs : List Handle} : (sweepOf h hs).1 = [] ↔ hs = [] := by
  cases hs with
  | nil => simp [sweepOf]
  | cons h' hs => simp [sweepOf]

/-! ### The sweep over one dimension -/

/-- The handles of further values, as copies of `h₀`. The first value that is not taken ends
them. -/
def furtherHandles (f : ℕ → Handle → Except Err Handle) (k : Kernel) (h₀ : Handle) :
    List ℕ → List Handle
  | [] => []
  | i :: is =>
      match f i (.another k h₀) with
      | .error _ => [.another k h₀]
      | .ok h => h :: furtherHandles f k h₀ is

/-- The sweep of a handle over `n` values. -/
def sweepOver (f : ℕ → Handle → Except Err Handle) (k : Kernel) (h : Handle) : List ℕ → Sweep
  | [] => ([], h)
  | i :: is =>
      match f i h with
      | .error _ => ([], h)
      | .ok h₀ => sweepOf h₀ (furtherHandles f k h₀ is)

/-- A value as a call on the newest handle. -/
def AppliesAs (apply : ℕ → DriverM Unit) (f : ℕ → Handle → Except Err Handle) : Prop :=
  ∀ i hs h, apply i (Driver.onNewest hs h) =
    match f i h with
    | .error e => .error e (Driver.onNewest hs h)
    | .ok h' => .ok () (Driver.onNewest hs h')

section Over

variable {reg : Registry} {name : Bytes} {k : Kernel} {apply : ℕ → DriverM Unit}
  {f : ℕ → Handle → Except Err Handle} {hs : List Handle} {h h₀ src : Handle} {n i : ℕ}

/-- Another handle is a copy of the handle of an index. -/
theorem anotherHandle_onNewest (hk : kernelToAdd reg name = .ok k)
    (hsrc : (hs ++ [h])[i]? = some src) :
    anotherHandle reg name (some i) (Driver.onNewest hs h) =
      .ok () (Driver.onNewest (hs ++ [h]) (.another k src)) := by
  rw [anotherHandle, bind_ok (addHandle_onNewest hk), copyHdlFrom_onNewest hsrc]
  rfl

theorem bind_of_error {σ α β : Type} {m : EStateM Err σ α} {g : α → EStateM Err σ β} {e : Err}
    {s s' : σ} (h : m s = .error e s') : (m >>= g) s = .error e s' := by
  change EStateM.bind m g s = _
  rw [EStateM.bind, h]

/-- The rounds of a sweep behind the first one. -/
theorem expandOver_further (hk : kernelToAdd reg name = .ok k) (hf : AppliesAs apply f)
    (hsrc : (hs ++ [h])[i]? = some h₀) {is : List ℕ} (his : 0 ∉ is) :
    (expandOver reg name (some i) apply is (Driver.onNewest hs h) =
        .ok () (.swept hs (sweepOf h (furtherHandles f k h₀ is))) ∧
      ∀ j ∈ is, ∃ h', f j (.another k h₀) = .ok h') ∨
      ∃ e, (∃ j ∈ is, f j (.another k h₀) = .error e) ∧
        expandOver reg name (some i) apply is (Driver.onNewest hs h) =
          .error e (.swept hs (sweepOf h (furtherHandles f k h₀ is))) := by
  induction is generalizing hs h with
  | nil =>
      left
      rw [expandOver, furtherHandles, sweepOf, Driver.swept, List.append_nil]
      exact ⟨rfl, by simp⟩
  | cons j is ih =>
      rw [List.mem_cons, not_or] at his
      obtain ⟨hj, his⟩ := his
      have hadd : handleForValue reg name (some i) j (Driver.onNewest hs h) =
          .ok () (Driver.onNewest (hs ++ [h]) (.another k h₀)) := by
        rw [handleForValue, if_neg (Ne.symm hj), anotherHandle_onNewest hk hsrc]
      have happly := hf j (hs ++ [h]) (.another k h₀)
      have hlater : (hs ++ [h] ++ [.another k h₀])[i]? = some h₀ := by
        rw [List.getElem?_append_left (List.getElem?_eq_some_iff.mp hsrc).1, hsrc]
      rw [expandOver, bind_ok hadd, furtherHandles]
      rcases hres : f j (.another k h₀) with e | h'
      · right
        rw [hres] at happly
        exact ⟨e, ⟨j, by simp, hres⟩, bind_of_error happly⟩
      · rw [hres] at happly
        have hsrc' : (hs ++ [h] ++ [h'])[i]? = some h₀ := by
          rw [List.getElem?_append_left (List.getElem?_eq_some_iff.mp hsrc).1, hsrc]
        rw [bind_ok happly]
        simp only [sweepOf]
        rw [Driver.swept_cons]
        refine (ih hsrc' his).imp (fun ⟨hrun, hall⟩ => ⟨hrun, fun l hl => ?_⟩)
          fun ⟨e, ⟨l, hl, herr⟩, hrun⟩ => ⟨e, ⟨l, by simp [hl], herr⟩, hrun⟩
        rcases List.mem_cons.mp hl with rfl | hl
        · exact ⟨h', hres⟩
        · exact hall l hl

/-- **The sweep over one dimension**: the driver has its handles, whether or not all values were
taken. Without an error they were. -/
theorem expandOver_onNewest (hk : kernelToAdd reg name = .ok k) (hf : AppliesAs apply f)
    (hs : List Handle) (h : Handle) (n : ℕ) :
    (expandOver reg name (some hs.length) apply (List.range n) (Driver.onNewest hs h) =
        .ok () (.swept hs (sweepOver f k h (List.range n))) ∧
      ∀ i < n, ∃ h₀ h', f i h₀ = .ok h') ∨
      ∃ e, (∃ i < n, ∃ h₀, (h₀ = h ∨ ∃ src, h₀ = .another k src) ∧ f i h₀ = .error e) ∧
        expandOver reg name (some hs.length) apply (List.range n) (Driver.onNewest hs h) =
          .error e (.swept hs (sweepOver f k h (List.range n))) := by
  cases n with
  | zero =>
      left
      rw [List.range_zero, expandOver, sweepOver, Driver.swept, List.append_nil]
      exact ⟨rfl, by simp⟩
  | succ n =>
      have hfirst : handleForValue reg name (some hs.length) 0 (Driver.onNewest hs h) =
          .ok () (Driver.onNewest hs h) := rfl
      have happly := hf 0 hs h
      rw [List.range_succ_eq_map, expandOver, bind_ok hfirst, sweepOver]
      rcases hres : f 0 h with e | h₀
      · right
        rw [hres] at happly
        refine ⟨e, ⟨0, Nat.succ_pos n, h, .inl rfl, hres⟩, ?_⟩
        rw [Driver.swept, List.append_nil]
        exact bind_of_error happly
      · rw [hres] at happly
        rw [bind_ok happly]
        have hsrc : (hs ++ [h₀])[hs.length]? = some h₀ := by simp
        have hfurther : 0 ∉ (List.range n).map Nat.succ := by simp
        rcases expandOver_further hk hf hsrc hfurther with ⟨hrun, hall⟩ | ⟨e, ⟨i, hi, herr⟩, hrun⟩
        · refine .inl ⟨hrun, fun i hi => ?_⟩
          cases i with
          | zero => exact ⟨h, h₀, hres⟩
          | succ i => exact ⟨_, hall (i + 1) (by simpa using hi)⟩
        · refine .inr ⟨e, ⟨i, ?_, _, .inr ⟨_, rfl⟩, herr⟩, hrun⟩
          obtain ⟨m, hm, rfl⟩ := List.mem_map.mp hi
          exact Nat.succ_lt_succ (List.mem_range.mp hm)

/-- The value of an argument at an index. -/
def dimKarg (F : Doubles) (v : DimValues) (i : ℕ) (h : Handle) : Except Err Handle :=
  match v.text F i with
  | .error e => .error e
  | .ok t => h.setKarg F v.parmName t

/-- The value of an environment variable at an index. -/
def dimEnv (F : Doubles) (v : DimValues) (i : ℕ) (h : Handle) : Except Err Handle :=
  match v.text F i with
  | .error e => .error e
  | .ok t => .ok (h.setEnv v.parmName t)

theorem appliesAs_dimKarg (F : Doubles) (v : DimValues) :
    AppliesAs (applyDimValue F v) (dimKarg F v) := by
  intro i hs h
  rw [applyDimValue, dimKarg]
  rcases v.text F i with e | t
  · rfl
  · rcases hset : h.setKarg F v.parmName t with e | h'
    · simp only [hset]
      exact setHdlKarg_onNewest_error hset
    · simp only [hset]
      exact setHdlKarg_onNewest hset

theorem appliesAs_dimEnv (F : Doubles) (v : DimValues) :
    AppliesAs (applyEnvDimValue F v) (dimEnv F v) := by
  intro i hs h
  rw [applyEnvDimValue, dimEnv]
  rcases v.text F i with e | t
  · rfl
  · exact setHdlEnv_onNewest v.parmName t

/-- Where all values are taken, the handles of further values are the copies with these values. -/
theorem furtherHandles_eq_map {g : ℕ → Handle} {is : List ℕ}
    (hg : ∀ i ∈ is, f i (.another k h₀) = .ok (g i)) :
    furtherHandles f k h₀ is = is.map g := by
  induction is with
  | nil => rfl
  | cons i is ih =>
      rw [furtherHandles, hg i (by simp), List.map_cons]
      exact congrArg _ (ih fun j hj => hg j (by simp [hj]))

/-- A sweep adds no handle when there is one value, or the first one is not taken. -/
theorem sweepOver_fst_eq_nil {n : ℕ} :
    (sweepOver f k h (List.range n)).1 = [] ↔ n ≤ 1 ∨ ∃ e, f 0 h = .error e := by
  rcases n with - | n
  · simp [sweepOver]
  · rw [List.range_succ_eq_map, sweepOver]
    rcases f 0 h with e | h₀
    · simp
    · rw [sweepOf_fst_eq_nil]
      rcases n with - | n
      · simp [furtherHandles]
      · simp only [List.range_succ_eq_map, List.map_cons, furtherHandles]
        split
        · simp
        · simp

end Over

/-! ### The sweep over the combinations of several dimensions -/

/-- The values of the combination with the number `rem`, of the dimensions in reverse. A value
that is not taken is passed over. -/
def digitsOn (F : Doubles) : List DimValues → ℕ → Handle → Handle
  | [], _, h => h
  | v :: vs, rem, h =>
      match dimKarg F v (rem % v.n) h with
      | .error _ => digitsOn F vs (rem / v.n) h
      | .ok h' => digitsOn F vs (rem / v.n) h'

/-- The sweep of a handle over the combinations. -/
def sweepCombos (F : Doubles) (vals : List DimValues) (k : Kernel) (h : Handle) (total : ℕ) :
    Sweep :=
  let h₀ := digitsOn F vals.reverse 0 h
  sweepOf h₀ ((List.range' 1 (total - 1)).map fun c => digitsOn F vals.reverse c (.another k h₀))

section Combos

variable {ctx : RunCtx} {name : Bytes} {k : Kernel} {hs : List Handle} {h h₀ : Handle} {i : ℕ}
  {vals : List DimValues} {err r : Option Err} {d : Driver}

theorem applyDigits_onNewest {F : Doubles} {vs : List DimValues} {rem : ℕ}
    (hrun : applyDigits F vs rem err (Driver.onNewest hs h) = .ok r d) :
    d = Driver.onNewest hs (digitsOn F vs rem h) := by
  induction vs generalizing h rem err with
  | nil =>
      cases hrun
      rfl
  | cons v vs ih =>
      have happly := appliesAs_dimKarg F v (rem % v.n) hs h
      rw [digitsOn]
      rw [applyDigits] at hrun
      rcases hres : dimKarg F v (rem % v.n) h with e | h'
      · rw [hres] at happly
        simp only [happly] at hrun
        rcases e with ⟨m, c⟩ | -
        · exact ih hrun
        · cases hrun
      · rw [hres] at happly
        simp only [happly] at hrun
        exact ih hrun

/-- Errors do not end the loops. -/
theorem applyDigits_error {F : Doubles} {vs : List DimValues} {rem : ℕ} {d₀ : Driver} {e : Err}
    (hrun : applyDigits F vs rem err d₀ = .error e d) : e = .undefined := by
  induction vs generalizing d₀ rem err with
  | nil => cases hrun
  | cons v vs ih =>
      simp only [applyDigits] at hrun
      split at hrun
      · exact ih hrun
      · exact ih hrun
      · cases hrun
        rfl

theorem cartesianLoop_error {i : Option ℕ} {cs : List ℕ} {d₀ : Driver} {e : Err}
    (hrun : cartesianLoop ctx name i vals cs err d₀ = .error e d) : e = .undefined := by
  induction cs generalizing d₀ err with
  | nil => cases hrun
  | cons c cs ih =>
      simp only [cartesianLoop] at hrun
      split at hrun
      · cases hrun
      · split at hrun
        · rename_i hdigits
          obtain ⟨rfl, -⟩ := EStateM.Result.error.inj hrun
          exact applyDigits_error hdigits
        · exact ih hrun

/-- The rounds of the loop behind the first one. -/
theorem cartesianLoop_further (hk : kernelToAdd ctx.reg name = .ok k)
    (hsrc : (hs ++ [h])[i]? = some h₀) {cs : List ℕ} (hcs : 0 ∉ cs)
    (hrun : cartesianLoop ctx name (some i) vals cs err (Driver.onNewest hs h) = .ok r d) :
    d = .swept hs
      (sweepOf h (cs.map fun c => digitsOn ctx.floats vals.reverse c (.another k h₀))) := by
  induction cs generalizing hs h err with
  | nil =>
      cases hrun
      rw [List.map_nil, sweepOf, Driver.swept, List.append_nil]
  | cons c cs ih =>
      rw [List.mem_cons, not_or] at hcs
      obtain ⟨hc, hcs⟩ := hcs
      have hadd : handleForValue ctx.reg name (some i) c (Driver.onNewest hs h) =
          .ok () (Driver.onNewest (hs ++ [h]) (.another k h₀)) := by
        rw [handleForValue, if_neg (Ne.symm hc), anotherHandle_onNewest hk hsrc]
      rw [cartesianLoop] at hrun
      simp only [hadd] at hrun
      split at hrun
      · cases hrun
      · rename_i err' d' hdigits
        obtain rfl := applyDigits_onNewest hdigits
        rw [List.map_cons, sweepOf, Driver.swept_cons]
        refine ih ?_ hcs hrun
        rw [List.getElem?_append_left (List.getElem?_eq_some_iff.mp hsrc).1, hsrc]

/-- **The sweep over the combinations.** -/
theorem cartesianLoop_onNewest (hk : kernelToAdd ctx.reg name = .ok k) {total : ℕ}
    (htotal : 0 < total)
    (hrun : cartesianLoop ctx name (some hs.length) vals (List.range total) err
      (Driver.onNewest hs h) = .ok r d) :
    d = .swept hs (sweepCombos ctx.floats vals k h total) := by
  obtain ⟨n, rfl⟩ := Nat.exists_eq_succ_of_ne_zero htotal.ne'
  have hrange : List.range (n + 1) = 0 :: List.range' 1 n := by
    rw [List.range_eq_range', List.range'_succ]
  have hfirst : handleForValue ctx.reg name (some hs.length) 0 (Driver.onNewest hs h) =
      .ok () (Driver.onNewest hs h) := rfl
  rw [Nat.succ_eq_add_one, hrange, cartesianLoop] at hrun
  simp only [hfirst] at hrun
  split at hrun
  · cases hrun
  · rename_i err' d' hdigits
    obtain rfl := applyDigits_onNewest hdigits
    exact cartesianLoop_further hk (by simp) (by simp) hrun

end Combos

/-! ### The sweeps of a segment -/

/-- The handles `_sf_flush_pending_dims` makes of a handle. -/
def flushSweep (F : Doubles) (k : Kernel) (cfgs : List DimConfig) (h : Handle) : Sweep :=
  match cfgs with
  | [] => ([], h)
  | [cfg] =>
      sweepOver (dimKarg F (tpbDimGenerateValues F cfg)) k h
        (List.range (tpbDimGenerateValues F cfg).n)
  | cfgs =>
      sweepCombos F (cfgs.map (tpbDimGenerateValues F)) k h
        ((cfgs.map (tpbDimGenerateValues F)).map (·.n)).prod

/-- The handles `expand_env_dim_handles` makes of a handle. -/
def envSweep (F : Doubles) (k : Kernel) (cfg : DimConfig) (h : Handle) : Sweep :=
  sweepOver (dimEnv F (tpbDimGenerateValues F cfg)) k h
    (List.range (tpbDimGenerateValues F cfg).n)

/-! ### What all handles of a sweep have in common -/

/-- A property that copies of a handle keep, and the values that are set on it. -/
structure Inherited (F : Doubles) (k : Kernel) (P : Handle → Prop) : Prop where
  another : ∀ h, P h → P (.another k h)
  setKarg : ∀ h h' name text, h.setKarg F name text = .ok h' → P h → P h'
  setEnv : ∀ h name value, P h → P (h.setEnv name value)

section Inherited

variable {F : Doubles} {k : Kernel} {P : Handle → Prop} {f : ℕ → Handle → Except Err Handle}
  {h x : Handle}

theorem mem_handles_sweepOf {hs : List Handle} (hx : x ∈ (sweepOf h hs).handles) :
    x = h ∨ x ∈ hs := by
  rw [handles_sweepOf] at hx
  exact List.mem_cons.mp hx

theorem Inherited.dimKarg (hP : Inherited F k P) (v : DimValues) (i : ℕ) (h h' : Handle)
    (hres : dimKarg F v i h = .ok h') (hh : P h) : P h' := by
  rw [TPBench.dimKarg] at hres
  split at hres
  · cases hres
  · exact hP.setKarg _ _ _ _ hres hh

theorem Inherited.dimEnv (hP : Inherited F k P) (v : DimValues) (i : ℕ) (h h' : Handle)
    (hres : dimEnv F v i h = .ok h') (hh : P h) : P h' := by
  rw [TPBench.dimEnv] at hres
  split at hres
  · cases hres
  · cases hres
    exact hP.setEnv _ _ _ hh

theorem Inherited.digitsOn (hP : Inherited F k P) (vs : List DimValues) (rem : ℕ) (hh : P h) :
    P (digitsOn F vs rem h) := by
  induction vs generalizing rem h with
  | nil => exact hh
  | cons v vs ih =>
      rw [TPBench.digitsOn]
      split
      · exact ih _ hh
      · rename_i h' hres
        exact ih _ (hP.dimKarg _ _ _ _ hres hh)

/-- The sweep over one dimension. -/
theorem Inherited.sweepOver (hP : Inherited F k P)
    (hf : ∀ i h h', f i h = .ok h' → P h → P h') (hh : P h) (is : List ℕ) :
    ∀ x ∈ (sweepOver f k h is).handles, P x := by
  have hfurther : ∀ (h₀ : Handle) (is : List ℕ), P h₀ →
      ∀ x ∈ furtherHandles f k h₀ is, P x := by
    intro h₀ is hh₀
    induction is with
    | nil => simp [furtherHandles]
    | cons i is ih =>
        rw [furtherHandles]
        intro x hx
        split at hx
        · rw [List.mem_singleton.mp hx]
          exact hP.another h₀ hh₀
        · rename_i h' hres
          rcases List.mem_cons.mp hx with rfl | hx
          · exact hf _ _ _ hres (hP.another h₀ hh₀)
          · exact ih x hx
  intro x hx
  rcases is with - | ⟨i, is⟩
  · rw [List.mem_singleton.mp hx]
    exact hh
  · rw [TPBench.sweepOver] at hx
    split at hx
    · rw [List.mem_singleton.mp hx]
      exact hh
    · rename_i h₀ hres
      have hh₀ : P h₀ := hf _ _ _ hres hh
      rcases mem_handles_sweepOf hx with rfl | hx
      · exact hh₀
      · exact hfurther h₀ is hh₀ x hx

/-- The handles of a flush. -/
theorem Inherited.flushSweep (hP : Inherited F k P) (cfgs : List DimConfig) (hh : P h) :
    ∀ x ∈ (flushSweep F k cfgs h).handles, P x := by
  intro x hx
  rcases cfgs with - | ⟨cfg, - | ⟨cfg', cfgs⟩⟩
  · rw [List.mem_singleton.mp hx]
    exact hh
  · exact hP.sweepOver (hP.dimKarg _) hh _ x hx
  · rw [TPBench.flushSweep, sweepCombos] at hx
    · rcases mem_handles_sweepOf hx with rfl | hx
      · exact hP.digitsOn _ _ hh
      · obtain ⟨c, -, rfl⟩ := List.mem_map.mp hx
        exact hP.digitsOn _ _ (hP.another _ (hP.digitsOn _ _ hh))
    · simp
    · simp

/-- The handles of an environment dimension. -/
theorem Inherited.envSweep (hP : Inherited F k P) (cfg : DimConfig) (hh : P h) :
    ∀ x ∈ (envSweep F k cfg h).handles, P x :=
  hP.sweepOver (hP.dimEnv _) hh _

/-- The handles of a kernel are handles of that kernel. -/
theorem inherited_of (F : Doubles) (k : Kernel) : Inherited F k (Handle.Of k) where
  another h _ := Handle.of_another k h
  setKarg _ _ _ _ hset hof := hof.setKarg hset
  setEnv _ _ _ hof := hof.setEnv

/-- The handles of a chain keep it. -/
theorem inherited_wrappers {ls : List WrapperLink} (hcopy : sfWrapperpackCopy ls = ls) (F : Doubles)
    (k : Kernel) : Inherited F k fun h => h.wrappers = ls where
  another h hh := by rw [Handle.another_wrappers, hh, hcopy]
  setKarg _ _ _ _ hset hh := (Handle.setKarg_wrappers hset).trans hh
  setEnv _ _ _ hh := hh

end Inherited

section Flush

variable {ctx : RunCtx} {k : Kernel} {hs : List Handle} {h : Handle} {s s' : RunState}

theorem intProduct_eq {total r : ℕ} {ns : List ℕ} (h : intProduct total ns = some r) :
    r = total * ns.prod := by
  induction ns generalizing total with
  | nil =>
      obtain rfl := Option.some.inj h
      rw [List.prod_nil, Nat.mul_one]
  | cons n ns ih =>
      rw [intProduct] at h
      split_ifs at h
      rw [ih h, List.prod_cons, Nat.mul_assoc]

theorem onDriver_eq_ok {α : Type} {m : DriverM α} {a : α} :
    onDriver m s = .ok a s' ↔ ∃ d, m s.drv = .ok a d ∧ s' = { s with drv := d } := by
  unfold onDriver
  split
  · rename_i b d hm
    rw [hm]
    constructor
    · intro h
      cases h
      exact ⟨d, rfl, rfl⟩
    · rintro ⟨d', h, rfl⟩
      cases h
      rfl
  · rename_i e d hm
    rw [hm]
    constructor
    · intro h
      cases h
    · rintro ⟨d', h, -⟩
      cases h

theorem warnOnly_eq_ok {m : DriverM Unit} {d d' : Driver} (h : warnOnly m d = .ok () d') :
    m d = .ok () d' ∨ ∃ mod c, m d = .error (.code mod c) d' := by
  unfold warnOnly at h
  split at h
  · rename_i mod c d'' hm
    cases h
    exact .inr ⟨mod, c, hm⟩
  · exact .inl h

theorem propagateAt_driver {α : Type} {mod : Module} {m : DriverM α} {d d' : Driver} {e : Err}
    (h : propagateAt mod m d = .error e d') : ∃ e', m d = .error e' d' := by
  unfold propagateAt at h
  split at h
  · cases h
  · rename_i e' d'' hm
    cases h
    exact ⟨e', hm⟩

/-- The expansion of one dimension. -/
theorem expandDimHandles_onNewest {cfg : DimConfig} {name : Bytes} {d : Driver}
    (hk : kernelToAdd ctx.reg name = .ok k)
    (hrun : expandDimHandles ctx cfg name (Driver.onNewest hs h) = .ok () d ∨
      ∃ e, expandDimHandles ctx cfg name (Driver.onNewest hs h) = .error e d) :
    d = .swept hs (flushSweep ctx.floats k [cfg] h) := by
  have hover := expandOver_onNewest hk
    (appliesAs_dimKarg ctx.floats (tpbDimGenerateValues ctx.floats cfg)) hs h
    (tpbDimGenerateValues ctx.floats cfg).n
  have hexpand : expandDimHandles ctx cfg name (Driver.onNewest hs h) =
      propagateAt .cliRun (expandOver ctx.reg name (some hs.length)
        (applyDimValue ctx.floats (tpbDimGenerateValues ctx.floats cfg))
        (List.range (tpbDimGenerateValues ctx.floats cfg).n)) (Driver.onNewest hs h) := rfl
  rw [hexpand] at hrun
  rw [flushSweep]
  rcases hrun with hrun | ⟨e, hrun⟩
  · rw [propagateAt_eq_ok] at hrun
    rcases hover with ⟨hover, -⟩ | ⟨e', -, hover⟩
    · rw [hover] at hrun
      exact (EStateM.Result.ok.inj hrun).2.symm
    · rw [hover] at hrun
      cases hrun
  · obtain ⟨e'', hrun⟩ := propagateAt_driver hrun
    rcases hover with ⟨hover, -⟩ | ⟨e', -, hover⟩
    · rw [hover] at hrun
      cases hrun
    · rw [hover] at hrun
      exact (EStateM.Result.error.inj hrun).2.symm

/-- The expansion of several dimensions. -/
theorem sfExpandCartesianKargs_onNewest {cfgs : List DimConfig} {name : Bytes} {d : Driver}
    (hk : kernelToAdd ctx.reg name = .ok k)
    (hcfgs : ∀ cfg ∈ cfgs, 0 < (tpbDimGenerateValues ctx.floats cfg).n)
    (hrun : sfExpandCartesianKargs ctx cfgs name (Driver.onNewest hs h) = .ok () d ∨
      ∃ mod c, sfExpandCartesianKargs ctx cfgs name (Driver.onNewest hs h) =
        .error (.code mod c) d) :
    d = .swept hs (sweepCombos ctx.floats (cfgs.map (tpbDimGenerateValues ctx.floats)) k h
      ((cfgs.map (tpbDimGenerateValues ctx.floats)).map (·.n)).prod) := by
  have hpos : 0 < ((cfgs.map (tpbDimGenerateValues ctx.floats)).map (·.n)).prod := by
    refine List.prod_pos fun n hn => ?_
    obtain ⟨v, hv, rfl⟩ := List.mem_map.mp hn
    obtain ⟨cfg, hcfg, rfl⟩ := List.mem_map.mp hv
    exact hcfgs cfg hcfg
  rcases hint : intProduct 1 ((cfgs.map (tpbDimGenerateValues ctx.floats)).map (·.n)) with
    - | total
  · have hexpand : sfExpandCartesianKargs ctx cfgs name (Driver.onNewest hs h) =
        .error .undefined (Driver.onNewest hs h) := by
      simp only [sfExpandCartesianKargs, hint]
    rw [hexpand] at hrun
    rcases hrun with hrun | ⟨mod, c, hrun⟩
    · cases hrun
    · cases hrun
  · have htotal := intProduct_eq hint
    rw [Nat.one_mul] at htotal
    have hexpand : sfExpandCartesianKargs ctx cfgs name (Driver.onNewest hs h) =
        ((cartesianLoop ctx name (some hs.length) (cfgs.map (tpbDimGenerateValues ctx.floats))
          (List.range total) none) >>= returnErr) (Driver.onNewest hs h) := by
      simp only [sfExpandCartesianKargs, hint]
      rfl
    rw [← htotal] at hpos ⊢
    rw [hexpand] at hrun
    rcases hloop : cartesianLoop ctx name (some hs.length)
        (cfgs.map (tpbDimGenerateValues ctx.floats)) (List.range total) none
        (Driver.onNewest hs h) with ⟨err, d'⟩ | ⟨e, d'⟩
    · rw [bind_ok hloop] at hrun
      have hreturn : d = d' := by
        rcases err with - | e
        · rcases hrun with hrun | ⟨mod, c, hrun⟩
          · exact (EStateM.Result.ok.inj hrun).2.symm
          · cases hrun
        · rcases hrun with hrun | ⟨mod, c, hrun⟩
          · cases hrun
          · exact (EStateM.Result.error.inj hrun).2.symm
      rw [hreturn]
      exact cartesianLoop_onNewest hk hpos hloop
    · rw [bind_of_error hloop, cartesianLoop_error hloop] at hrun
      rcases hrun with hrun | ⟨mod, c, hrun⟩
      · cases hrun
      · cases hrun

/-- The expansion leaves the handles of the sweep. -/
theorem expandPending_onNewest {cfgs : List DimConfig} {name : Bytes} {d : Driver}
    (hk : kernelToAdd ctx.reg name = .ok k)
    (hcfgs : ∀ cfg ∈ cfgs, 0 < (tpbDimGenerateValues ctx.floats cfg).n)
    (hrun : expandPending ctx cfgs name (Driver.onNewest hs h) = .ok () d ∨
      ∃ mod c, expandPending ctx cfgs name (Driver.onNewest hs h) = .error (.code mod c) d) :
    d = .swept hs (flushSweep ctx.floats k cfgs h) := by
  rcases cfgs with - | ⟨cfg, - | ⟨cfg', cfgs⟩⟩
  · rw [flushSweep, Driver.swept, List.append_nil]
    rcases hrun with hrun | ⟨mod, c, hrun⟩
    · cases hrun
      rfl
    · cases hrun
  · refine expandDimHandles_onNewest hk (hrun.imp_right ?_)
    rintro ⟨mod, c, hrun⟩
    exact ⟨_, hrun⟩
  · exact sfExpandCartesianKargs_onNewest hk hcfgs hrun

/-- **The flush** leaves the handles of its sweep, whatever it reports. -/
theorem sfFlushPendingDims_onNewest (hdrv : s.drv = Driver.onNewest hs h)
    (hk : kernelToAdd ctx.reg s.pendingKernelName = .ok k)
    (hcfgs : ∀ cfg ∈ s.pendingDimCfgs, 0 < (tpbDimGenerateValues ctx.floats cfg).n)
    (hrun : sfFlushPendingDims ctx s = .ok () s') :
    s' = { s with
      drv := .swept hs (flushSweep ctx.floats k s.pendingDimCfgs h)
      pendingDimCfgs := [] } := by
  have hflush : sfFlushPendingDims ctx s =
      ((onDriver (warnOnly (expandPending ctx s.pendingDimCfgs s.pendingKernelName))) >>=
        fun _ => modify fun s => { s with pendingDimCfgs := [] }) s := rfl
  rw [hflush] at hrun
  obtain ⟨⟨⟩, s₁, hexpand, hmodify⟩ := bind_eq_ok.mp hrun
  obtain ⟨d, hwarn, rfl⟩ := onDriver_eq_ok.mp hexpand
  rw [hdrv] at hwarn
  obtain rfl := expandPending_onNewest hk hcfgs (warnOnly_eq_ok hwarn)
  exact (EStateM.Result.ok.inj hmodify).2.symm

/-- An environment dimension whose values were all set. -/
theorem sfParseKenvsDim_onNewest {value : Bytes} (hdrv : s.drv = Driver.onNewest hs h)
    (hk : kernelToAdd ctx.reg s.pendingKernelName = .ok k)
    (hrun : sfParseKenvsDim ctx value s = .ok () s') :
    ∃ cfg, tpbArgpParseDim ctx.floats value = .ok cfg ∧
      s' = { s with drv := .swept hs (envSweep ctx.floats k cfg h) } ∧
      ∀ i < (tpbDimGenerateValues ctx.floats cfg).n, ∃ t,
        (tpbDimGenerateValues ctx.floats cfg).text ctx.floats i = .ok t := by
  obtain ⟨cfg, s₁, hparse, hrest⟩ := bind_eq_ok.mp hrun
  rw [propagateAt_eq_ok] at hparse
  have hlift : tpbArgpParseDim ctx.floats value = .ok cfg ∧ s₁ = s := by
    unfold liftRun at hparse
    split at hparse
    · rename_i cfg' hcfg
      cases hparse
      exact ⟨hcfg, rfl⟩
    · cases hparse
  obtain ⟨hcfg, rfl⟩ := hlift
  refine ⟨cfg, hcfg, ?_⟩
  have hexpand : propagateAt .cliRun (onDriver (expandEnvDimHandles ctx cfg s₁.pendingKernelName))
      s₁ = .ok () s' := hrest
  rw [propagateAt_eq_ok] at hexpand
  obtain ⟨d, hd, rfl⟩ := onDriver_eq_ok.mp hexpand
  rw [hdrv] at hd
  have hover : expandOver ctx.reg s₁.pendingKernelName (some hs.length)
      (applyEnvDimValue ctx.floats (tpbDimGenerateValues ctx.floats cfg))
      (List.range (tpbDimGenerateValues ctx.floats cfg).n) (Driver.onNewest hs h) = .ok () d :=
    propagateAt_eq_ok.mp hd
  rcases expandOver_onNewest hk
    (appliesAs_dimEnv ctx.floats (tpbDimGenerateValues ctx.floats cfg)) hs h
    (tpbDimGenerateValues ctx.floats cfg).n with ⟨hok, hall⟩ | ⟨e, -, herr⟩
  · rw [hok] at hover
    obtain ⟨-, rfl⟩ := EStateM.Result.ok.inj hover
    refine ⟨rfl, fun i hi => ?_⟩
    obtain ⟨h₀, h', htext⟩ := hall i hi
    rw [dimEnv] at htext
    split at htext
    · cases htext
    · rename_i t ht
      exact ⟨t, ht⟩
  · rw [herr] at hover
    cases hover

end Flush

end TPBench
