import TPBench.Cli.Flush

/-!
# Values that are Rejected in a Flush

A value of a dimension `--kargs-dim` that `tpb_driver_set_hdl_karg` rejects does not end the
command. `expand_dim_handles` stops and leaves the handle it has just made,
`_sf_expand_cartesian_kargs` goes on with the next dimension, and `_sf_flush_pending_dims` only
logs what they return. The handle of the rejected value is there, and is run with what it holds
otherwise.

A handle of a flush is that of the combination at its position (`Carries`). In a command that
comes as far as `tpb_driver_run_all`, all of them carry the values of their combinations exactly
when no value was rejected, and the dimensions over one argument agree
(`combosCarried_iff`).

## Main definitions

* `Carries`: a handle holds the values of a combination.
* `AcceptedAlike`: every value is accepted, and dimensions of one name have the same values.
* `CombosCarried`: the handles of all flushes of a command carry their combinations.
-/

open CFile Odometer

namespace TPBench

/-! ### The handles of one flush -/

/-- A handle holds the values of a combination. -/
def Carries (F : Doubles) (k : Kernel) (vals : List DimValues) (c : ℕ) (h : Handle) : Prop :=
  ∀ j (hj : j < vals.length), ∃ w, dimValue F k vals[j] (place (sizes vals) c j) = some w ∧
    h.arg? vals[j].parmName = some w

/-- Every value is accepted, and dimensions of one name have the same value everywhere. -/
structure AcceptedAlike (F : Doubles) (k : Kernel) (vals : List DimValues) : Prop where
  accepted : ∀ v ∈ vals, v.Accepted F k
  alike : vals.Pairwise fun v v' => v.parmName = v'.parmName →
    ∀ i < v.n, ∀ i' < v'.n, dimValue F k v i = dimValue F k v' i'

section Flush

variable {F : Doubles} {k : Kernel} {v : DimValues} {vals : List DimValues}
  {cfgs : List DimConfig} {h h₀ : Handle} {c i : ℕ}

theorem getD_sizes {j : ℕ} (hj : j < vals.length) : (sizes vals).getD j 1 = vals[j].n := by
  rw [sizes, List.getD_eq_getElem?_getD, List.getElem?_map, List.getElem?_eq_getElem hj]
  rfl

/-- Dimensions of one name have the same values in either order. -/
theorem AcceptedAlike.alike_of_ne (hall : AcceptedAlike F k vals) {j j' i i' : ℕ}
    (hj : j < vals.length) (hj' : j' < vals.length) (hne : j ≠ j')
    (hname : vals[j].parmName = vals[j'].parmName) (hi : i < vals[j].n) (hi' : i' < vals[j'].n) :
    dimValue F k vals[j] i = dimValue F k vals[j'] i' := by
  rcases Nat.lt_or_gt_of_ne hne with hlt | hgt
  · exact List.pairwise_iff_getElem.mp hall.alike j j' hj hj' hlt hname i hi i' hi'
  · exact (List.pairwise_iff_getElem.mp hall.alike j' j hj' hj hgt hname.symm i' hi' i hi).symm

/-- Where all values are accepted and agree, the digits of a counter are carried. -/
theorem carries_digitsOn (hall : AcceptedAlike F k vals) (hpos : ∀ v ∈ vals, 0 < v.n)
    (hof : h.Of k) (c : ℕ) : Carries F k vals c (digitsOn F vals.reverse c h) := by
  intro j hj
  have hsizes : ∀ n ∈ sizes vals, 0 < n := by
    intro n hn
    obtain ⟨v, hv, rfl⟩ := List.mem_map.mp hn
    exact hpos v hv
  have hlt := getD_sizes hj ▸ place_lt hsizes c j
  obtain ⟨w, hw⟩ := hall.accepted _ (List.getElem_mem hj) _ hlt
  refine ⟨w, hw, ?_⟩
  have hgood : ∀ v ∈ vals, v.Accepted F k ∧ 0 < v.n := fun v hv => ⟨hall.accepted v hv, hpos v hv⟩
  rcases arg?_combination (c := c) hgood hof vals[j].parmName with
    ⟨hnone, -⟩ | ⟨j', hj', hname, hvalue⟩
  · exact absurd rfl (hnone _ (List.getElem_mem hj))
  · rw [hvalue, ← hw]
    by_cases hjj : j' = j
    · subst hjj
      rfl
    · exact hall.alike_of_ne hj' hj hjj hname (getD_sizes hj' ▸ place_lt hsizes c j') hlt

/-- The handles of further values reach the first one that is rejected. -/
theorem lt_length_furtherHandles {f : ℕ → Handle → Except Err Handle} (n a : ℕ)
    (hok : ∀ i < n, ∃ h', f (a + i) (.another k h₀) = .ok h') (m : ℕ) (hm : n < m) :
    n < (furtherHandles f k h₀ (List.range' a m)).length := by
  induction n generalizing a m with
  | zero =>
      obtain ⟨m, rfl⟩ := Nat.exists_eq_succ_of_ne_zero hm.ne'
      rw [List.range'_succ, furtherHandles]
      split
      · simp
      · simp
  | succ n ih =>
      obtain ⟨m, rfl⟩ := Nat.exists_eq_succ_of_ne_zero (Nat.ne_zero_of_lt hm)
      obtain ⟨h', hset⟩ := hok 0 (Nat.succ_pos n)
      rw [Nat.add_zero] at hset
      rw [List.range'_succ, furtherHandles, hset]
      have hrest := ih (a + 1) (fun i hi => by
        have hnext := hok (i + 1) (Nat.succ_lt_succ hi)
        rwa [Nat.add_comm i 1, ← Nat.add_assoc] at hnext) m (by omega)
      simpa using hrest

/-- The sweep over one dimension reaches the first value that is rejected. -/
theorem lt_length_sweepOver (hof : h.Of k) (hi : i < v.n)
    (hok : ∀ l < i, ∃ w, dimValue F k v l = some w) :
    i < (sweepOver (dimKarg F v) k h (List.range v.n)).handles.length := by
  obtain ⟨n, hn⟩ := Nat.exists_eq_succ_of_ne_zero (Nat.ne_zero_of_lt hi)
  have hrange : List.range v.n = 0 :: List.range' 1 n := by
    rw [hn, List.range_eq_range', Nat.succ_eq_add_one, List.range'_succ]
  rw [hrange, sweepOver]
  rcases i with - | i
  · split
    · simp [Sweep.handles]
    · rw [handles_sweepOf]
      exact Nat.succ_pos _
  · obtain ⟨h₀, hset⟩ := (exists_dimKarg_iff hof).mpr (hok 0 (Nat.succ_pos i))
    rw [hset]
    simp only [handles_sweepOf, List.length_cons]
    refine Nat.succ_lt_succ (lt_length_furtherHandles i 1 (fun l hl => ?_) n (by omega))
    rw [Nat.add_comm]
    exact (exists_dimKarg_iff (Handle.of_another k h₀)).mpr (hok (l + 1) (Nat.succ_lt_succ hl))

/-- Where the handles of one dimension carry their values, all values are accepted. -/
theorem accepted_of_carries_one (hof : h.Of k)
    (hcarry : ∀ c x, (sweepOver (dimKarg F v) k h (List.range v.n)).handles[c]? = some x →
      Carries F k [v] c x) : v.Accepted F k := by
  intro i
  induction i using Nat.strong_induction_on with
  | _ i ih =>
      intro hi
      have hlt := lt_length_sweepOver hof hi fun l hl => ih l hl (by omega)
      obtain ⟨w, hw, -⟩ := hcarry i _ (List.getElem?_eq_getElem hlt) 0 (by simp)
      have hplace : place (sizes [v]) i 0 = i := by
        have hdef : place (sizes [v]) i 0 = i / 1 % v.n := rfl
        rw [hdef, Nat.div_one, Nat.mod_eq_of_lt hi]
      rw [hplace] at hw
      exact ⟨w, hw⟩

/-- Some combination has given values of two dimensions. -/
theorem exists_combination (hpos : ∀ v ∈ vals, 0 < v.n) {j j' i' : ℕ} (hj : j < vals.length)
    (hj' : j' < vals.length) (hi : i < vals[j].n) (hi' : i' < vals[j'].n)
    (hsame : j = j' → i = i') :
    ∃ c < (sizes vals).prod, place (sizes vals) c j = i ∧ place (sizes vals) c j' = i' := by
  have hlen : (sizes vals).length = vals.length := List.length_map _
  have hdigits : ∀ l < (sizes vals).length,
      (if l = j then i else if l = j' then i' else 0) < (sizes vals).getD l 1 := by
    intro l hl
    rw [hlen] at hl
    rw [getD_sizes hl]
    split_ifs with h₁ h₂
    · subst h₁
      exact hi
    · subst h₂
      exact hi'
    · exact hpos _ (List.getElem_mem hl)
  obtain ⟨c, hc, hplace⟩ := exists_place _ hdigits
  refine ⟨c, hc, by rw [hplace j (hlen ▸ hj), if_pos rfl], ?_⟩
  rw [hplace j' (hlen ▸ hj')]
  by_cases hjj : j' = j
  · rw [if_pos hjj, hsame hjj.symm]
  · rw [if_neg hjj, if_pos rfl]

/-- Where the handles of all combinations carry their values, these are accepted and agree. -/
theorem acceptedAlike_of_carries (hpos : ∀ v ∈ vals, 0 < v.n)
    (hcarry : ∀ c < (sizes vals).prod, ∃ x, Carries F k vals c x) : AcceptedAlike F k vals := by
  constructor
  · intro v hv i hi
    obtain ⟨j, hj, rfl⟩ := List.mem_iff_getElem.mp hv
    obtain ⟨c, hc, hplace, -⟩ := exists_combination hpos hj hj hi hi fun _ => rfl
    obtain ⟨x, hx⟩ := hcarry c hc
    obtain ⟨w, hw, -⟩ := hx j hj
    exact ⟨w, hplace ▸ hw⟩
  · rw [List.pairwise_iff_getElem]
    intro j j' hj hj' hlt hname i hi i' hi'
    obtain ⟨c, hc, hplace, hplace'⟩ :=
      exists_combination hpos hj hj' hi hi' fun heq => absurd heq hlt.ne
    obtain ⟨x, hx⟩ := hcarry c hc
    obtain ⟨w, hw, harg⟩ := hx j hj
    obtain ⟨w', hw', harg'⟩ := hx j' hj'
    rw [hname, harg'] at harg
    rw [hplace] at hw
    rw [hplace'] at hw'
    rw [hw, hw', harg]

/-- **The handles of a flush** carry the values of their combinations exactly when every value is
accepted, and dimensions of one name have the same values. -/
theorem flush_carries_iff (hpos : ∀ cfg ∈ cfgs, 0 < (tpbDimGenerateValues F cfg).n)
    (hh : h.Sound k) :
    (∀ c x, (flushSweep F k cfgs h).handles[c]? = some x →
      Carries F k (cfgs.map (tpbDimGenerateValues F)) c x) ↔
      AcceptedAlike F k (cfgs.map (tpbDimGenerateValues F)) := by
  have hpos' : ∀ v ∈ cfgs.map (tpbDimGenerateValues F), 0 < v.n := by
    intro v hv
    obtain ⟨cfg, hcfg, rfl⟩ := List.mem_map.mp hv
    exact hpos cfg hcfg
  have htotal : 0 < (sizes (cfgs.map (tpbDimGenerateValues F))).prod := by
    refine List.prod_pos fun n hn => ?_
    obtain ⟨v, hv, rfl⟩ := List.mem_map.mp hn
    exact hpos' v hv
  constructor
  · intro hcarry
    rcases cfgs with - | ⟨cfg, - | ⟨cfg', cfgs⟩⟩
    · exact ⟨by simp, .nil⟩
    · rw [flushSweep] at hcarry
      refine ⟨fun v hv => ?_, List.pairwise_singleton _ _⟩
      rw [List.map_singleton, List.mem_singleton] at hv
      rw [hv]
      exact accepted_of_carries_one hh.of hcarry
    · refine acceptedAlike_of_carries hpos' fun c hc => ⟨_, hcarry c
        (comboHandle F k ((cfg :: cfg' :: cfgs).map (tpbDimGenerateValues F)) h c) ?_⟩
      have hhandles : (flushSweep F k (cfg :: cfg' :: cfgs) h).handles = _ :=
        handles_sweepCombos htotal
      have hget : (List.range (sizes ((cfg :: cfg' :: cfgs).map
          (tpbDimGenerateValues F))).prod)[c]? = some c := List.getElem?_range hc
      rw [hhandles, List.getElem?_map]
      exact congrArg (Option.map _) hget
  · intro hall c x hx
    have htaken : ∀ cfg ∈ cfgs, (SweepDim.arg (tpbDimGenerateValues F cfg)).Taken F k := by
      intro cfg hcfg i hi
      exact (exists_dimKarg_iff (Handle.of_ofKernel k)).mpr
        (hall.accepted _ (List.mem_map_of_mem hcfg) i hi)
    have hhandles : (flushSweep F k cfgs h).handles = _ :=
      (congrArg Sweep.handles (flushSweep_eq htaken hpos hh)).trans (handles_sweepCombos htotal)
    rw [hhandles, List.getElem?_map] at hx
    obtain ⟨c', hc', rfl⟩ := Option.map_eq_some_iff.mp hx
    obtain ⟨hlt, hget⟩ := List.getElem?_eq_some_iff.mp hc'
    obtain rfl : c = c' := by rwa [List.getElem_range] at hget
    rw [comboHandle]
    split_ifs with hzero
    · rw [hzero]
      exact carries_digitsOn hall hpos' hh.of 0
    · exact carries_digitsOn hall hpos' (Handle.of_another k _) c

end Flush

/-! ### The handles of a command -/

/-- The handles of a segment that come from its flush. The dimensions `--kenvs-dim` and the
options in front of it make those that stand before them. -/
def Segment.flushed (ctx : RunCtx) (k : Kernel) (g : Segment) (block : List Handle) : List Handle :=
  block.drop (segSweep ctx k g.opts (.ofKernel k)).1.length

/-- The values of the dimensions `--kargs-dim` of a segment. -/
def Segment.dimValues (F : Doubles) (g : Segment) : List DimValues :=
  (dimCfgs F g.opts).map (tpbDimGenerateValues F)

/-- Every handle of a flush carries the values of its combination. -/
def CombosCarried (ctx : RunCtx) (opts : List Opt) (d : Driver) : Prop :=
  ∀ p ∈ (segmentsOf opts).zip (segmentHandles ctx opts d), ∀ k,
    kernelToAdd ctx.reg p.1.value = .ok k → ∀ c x, (p.1.flushed ctx k p.2)[c]? = some x →
      Carries ctx.floats k (p.1.dimValues ctx.floats) c x

section Command

variable {ctx : RunCtx} {opts : List Opt} {k : Kernel} {g : Segment} {globals : List LocalWrapper}
  {host : Host} {argv : List Bytes} {s' : RunState}

/-- What holds of the entries of a list with one more entry. -/
theorem forall_getElem?_concat {α : Type} {P : ℕ → α → Prop} {l : List α} {a : α} :
    (∀ c x, (l ++ [a])[c]? = some x → P c x) ↔ (∀ c x, l[c]? = some x → P c x) ∧ P l.length a := by
  constructor
  · intro hall
    refine ⟨fun c x hx => hall c x ?_, hall _ a List.getElem?_concat_length⟩
    rw [List.getElem?_append_left (List.getElem?_eq_some_iff.mp hx).1, hx]
  · rintro ⟨hall, hlast⟩ c x hx
    rcases Nat.lt_trichotomy c l.length with hlt | rfl | hgt
    · exact hall c x (by rwa [List.getElem?_append_left hlt] at hx)
    · obtain rfl : a = x := by simpa using hx
      exact hlast
    · have hlen := (List.getElem?_eq_some_iff.mp hx).1
      rw [List.length_append, List.length_singleton] at hlen
      omega

/-- Every segment has a block. -/
theorem Blocks.exists_block {gs : List Segment} {bs : List (List Handle)}
    (h : Blocks ctx globals gs bs) (hg : g ∈ gs) : ∃ b, (g, b) ∈ gs.zip bs := by
  induction h with
  | nil => cases hg
  | cons hk hread hrest ih =>
      rcases List.mem_cons.mp hg with rfl | hg
      · exact ⟨_, List.mem_cons_self⟩
      · obtain ⟨b, hb⟩ := ih hg
        exact ⟨b, List.mem_cons_of_mem _ hb⟩

/-- The handles of one segment. -/
theorem block_carries_iff (last : Bool) :
    (∀ c x, (g.flushed ctx k (g.block ctx globals last k))[c]? = some x →
      Carries ctx.floats k (g.dimValues ctx.floats) c x) ↔
      AcceptedAlike ctx.floats k (g.dimValues ctx.floats) := by
  have hpos : ∀ cfg ∈ dimCfgs ctx.floats g.opts, 0 < (tpbDimGenerateValues ctx.floats cfg).n :=
    fun cfg hcfg => pos_of_mem_dimCfgs hcfg
  have hsound : (segSweep ctx k g.opts (.ofKernel k)).2.Sound k :=
    (inherited_sound ctx.floats k).segSweep g.opts (Handle.sound_ofKernel k) _
      (by simp [Sweep.handles])
  rw [Segment.flushed, Segment.block]
  cases last with
  | true =>
      -- the chain that is bound behind the flush is no argument
      rw [if_pos rfl, List.append_assoc, List.drop_left, forall_getElem?_concat]
      refine Iff.trans ?_ (flush_carries_iff hpos hsound)
      rw [Sweep.handles, forall_getElem?_concat]
      exact Iff.rfl
  | false =>
      rw [if_neg Bool.false_ne_true, List.drop_left]
      exact flush_carries_iff hpos ⟨hsound.of.setWrappers _, hsound.keys⟩

/-- **Rejected values**: in a command that comes as far as `tpb_driver_run_all`, the handles of the
flushes carry the values of their combinations exactly when no value of a dimension was rejected,
and the dimensions of a segment over one argument agree. -/
theorem combosCarried_iff (hctx : runCtx host argv = .ok ctx) (hopts : optsOfArgv argv = some opts)
    (hrun : tpbcliRun host argv .start = .ok () s') :
    CombosCarried ctx opts s'.drv ↔ ∀ g ∈ segmentsOf opts, ∀ k,
      kernelToAdd ctx.reg g.value = .ok k →
        AcceptedAlike ctx.floats k (g.dimValues ctx.floats) := by
  obtain ⟨ctx', opts', hctx', hopts', hblocks⟩ := segments_run hrun
  obtain rfl : ctx' = ctx := Except.ok.inj (hctx'.symm.trans hctx)
  obtain rfl : opts' = opts := Option.some.inj (hopts'.symm.trans hopts)
  constructor
  · intro hcarried g hg k hk
    obtain ⟨b, hmem⟩ := hblocks.exists_block hg
    obtain ⟨k', last, hk', rfl⟩ := hblocks.of_mem_zip hmem
    obtain rfl : k' = k := Except.ok.inj (hk'.symm.trans hk)
    exact (block_carries_iff last).mp (hcarried _ hmem k' hk')
  · rintro hall ⟨g, b⟩ hmem k hk
    obtain ⟨k', last, hk', rfl⟩ := hblocks.of_mem_zip hmem
    obtain rfl : k' = k := Except.ok.inj (hk'.symm.trans hk)
    exact (block_carries_iff last).mpr (hall g (List.of_mem_zip hmem).1 k' hk')

/-! ### A value out of range -/

/-- The arithmetic of a machine on the numbers 2 and 9. -/
def twoNineDoubles : Doubles where
  strtod s := if s = ascii ['2'] then (0x4000000000000000, [])
    else if s = ascii ['9'] then (0x4022000000000000, []) else (0, s)
  lt a b := a < b
  lt32 a b := a < b
  eq a b := a = b
  add a _ := a
  sub a _ := a
  mul a _ := a
  div a _ := a
  pow a _ := a
  toI64 v := if v = 0x4000000000000000 then some 2 else if v = 0x4022000000000000 then some 9
    else none
  ofI64 i := if i = 2 then 0x4000000000000000 else if i = 9 then 0x4022000000000000 else 0
  printG15 _ := []

/-- A kernel `k` with an argument `n` from 1 to `most`, and a machine that has it. -/
def rangeHost (most : UInt64) : Host where
  floats := twoNineDoubles
  isX86 := false
  register _ :=
    (.ok (), {
      kernelCommon := ⟨ascii "common".toList, false, true, [], common_lt⟩
      kernelAll := [⟨ascii ['k'], true, true,
        [⟨ascii ['n'], 1, 0x0000083a ||| parmRange, [1, most]⟩], k_lt⟩] })

/-- `run --kernel k --kargs-dim n=[2,9]`. -/
def rangeArgv : List Bytes :=
  [ascii "tpbcli".toList, nameRun, nameKernel, ascii ['k'],
    nameKargsDim, ascii "n=[2,9]".toList]

/-- The value 9 is out of range, and the handle made for it is run with the value 2. -/
theorem nine_not_carried :
    ∃ ctx opts s', runCtx (rangeHost 8) rangeArgv = .ok ctx ∧ optsOfArgv rangeArgv = some opts ∧
      tpbcliRun (rangeHost 8) rangeArgv .start = .ok () s' ∧
      s'.drv.handleList.map (·.arg? (ascii ['n'])) = [some 2, some 2] ∧
      ¬CombosCarried ctx opts s'.drv := by
  have hrun : ∃ r ∈ afterRun (rangeHost 8) rangeArgv,
      r.2.2.handleList.map (·.arg? (ascii ['n'])) = [some 2, some 2] ∧
        ∃ p ∈ (segmentsOf r.2.1).zip (segmentHandles r.1 r.2.1 r.2.2),
          ∃ k ∈ (kernelToAdd r.1.reg p.1.value).toOption,
            ∃ x ∈ (p.1.flushed r.1 k p.2)[1]?, ∃ v ∈ (p.1.dimValues r.1.floats)[0]?,
              dimValue r.1.floats k v (place (sizes (p.1.dimValues r.1.floats)) 1 0) = none := by
    decide +kernel
  obtain ⟨r, hr, hvalues, p, hp, k, hk, x, hx, v, hv, hnone⟩ := hrun
  obtain ⟨s', hctx, hopts, hok, hdrv⟩ := afterRun_eq_some hr
  refine ⟨r.1, r.2.1, s', hctx, hopts, hok, hdrv ▸ hvalues, fun hcarried => ?_⟩
  rw [hdrv] at hcarried
  obtain ⟨hj, rfl⟩ := List.getElem?_eq_some_iff.mp hv
  obtain ⟨w, hw, -⟩ := hcarried p hp k (eq_ok_of_mem_toOption hk) 1 x hx 0 hj
  rw [hnone] at hw
  cases hw

instance (F : Doubles) (k : Kernel) (v : DimValues) : Decidable (v.Accepted F k) :=
  decidable_of_iff (∀ i < v.n, (dimValue F k v i).isSome) <|
    forall₂_congr fun _ _ => Option.isSome_iff_exists

/-- Where 9 is in range, the handles carry both values. -/
theorem nine_carried :
    ∃ ctx opts s', tpbcliRun (rangeHost 9) rangeArgv .start = .ok () s' ∧
      s'.drv.handleList.map (·.arg? (ascii ['n'])) = [some 2, some 9] ∧
      (segmentsOf opts).length = 1 ∧ CombosCarried ctx opts s'.drv := by
  have hrun : ∃ r ∈ afterRun (rangeHost 9) rangeArgv,
      r.2.2.handleList.map (·.arg? (ascii ['n'])) = [some 2, some 9] ∧
      (segmentsOf r.2.1).length = 1 ∧
      ∀ g ∈ segmentsOf r.2.1, ∃ k ∈ (kernelToAdd r.1.reg g.value).toOption,
        (g.dimValues r.1.floats).length = 1 ∧
          ∀ v ∈ g.dimValues r.1.floats, v.Accepted r.1.floats k := by
    decide +kernel
  obtain ⟨r, hr, hvalues, hone, hall⟩ := hrun
  obtain ⟨s', hctx, hopts, hok, hdrv⟩ := afterRun_eq_some hr
  refine ⟨r.1, r.2.1, s', hok, hdrv ▸ hvalues, hone,
    (combosCarried_iff hctx hopts hok).mpr fun g hg k' hk' => ?_⟩
  obtain ⟨k, hk, hlen, haccept⟩ := hall g hg
  obtain rfl : k = k' := Except.ok.inj ((eq_ok_of_mem_toOption hk).symm.trans hk')
  obtain ⟨v, hv⟩ := List.length_eq_one_iff.mp hlen
  exact ⟨haccept, hv ▸ List.pairwise_singleton _ _⟩

end Command

end TPBench
