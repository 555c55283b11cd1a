import TPBench.Rtenv.Merge
import TPBench.Rtenv.Stored

/-!
# The Variables of an Inheritance Chain

An environment inherits from its parent, and from the ancestors of its parent. What a variable
is in an environment is said by the nearest environment of the chain that declares it, and by
the last declaration there. `ChainMerged` states this about the structure that
`tpb_rtenv_merge_chain` fills.

The function keeps the chain in an array of 64 IDs. `walkChain_run` describes the walk: it fails
when a link leads back to an environment in the array, the last one apart, and otherwise yields
the nearest 64 environments, whether the chain ends there or not. Hence the merged structure is
the right one exactly when the declarations beyond the 64th environment name no new variable
(`rtenv_mergeChain_iff`). In the same way, a cycle that does not close within the array is not
noticed.
-/

open CFile Conc Keyed

namespace TPBench

/-! ### Links -/

/-- The `inherit_from` of the first row with an ID, and -1 when there is none. -/
def parentOf (ents : List RtenvEntry) (id : Int32) : Int32 :=
  ((ents.find? (·.id = id)).map RtenvEntry.inheritFrom).getD (-1)

/-- The first `n` environments on the way from one to its root. -/
def ancestors (ents : List RtenvEntry) : ℕ → Int32 → List Int32
  | 0, _ => []
  | n + 1, id =>
      id :: if parentOf ents id ≤ 0 then [] else ancestors ents n (parentOf ents id)

/-- The links lead from an environment over these ones to a root. -/
inductive RootChain (ents : List RtenvEntry) : Int32 → List Int32 → Prop
  | root {id : Int32} : parentOf ents id ≤ 0 → RootChain ents id [id]
  | link {id : Int32} {ids : List Int32} : ¬parentOf ents id ≤ 0 →
      RootChain ents (parentOf ents id) ids → RootChain ents id (id :: ids)

/-- The links lead to an environment again. -/
def Cyclic (ents : List RtenvEntry) (id : Int32) : Prop := ∃ n, ¬(ancestors ents n id).Nodup

/-- A list comes back to an element at position `k` or behind it, at least two places after
the element. -/
def ReturnsFrom (k : ℕ) (ids : List Int32) : Prop :=
  ∃ e d x, e + 2 ≤ d ∧ k ≤ d ∧ ids[e]? = some x ∧ ids[d]? = some x

/-- The links lead back, within 64 links, to an environment at least two links earlier. -/
def ReturnsSoon (ents : List RtenvEntry) (id : Int32) : Prop :=
  ReturnsFrom 0 (ancestors ents 65 id)

section Links

variable {ents : List RtenvEntry} {id : Int32} {ids : List Int32} {ws : Workspace}

/-- What is met on the way to the root. -/
theorem RootChain.ancestors_eq (h : RootChain ents id ids) (n : ℕ) :
    ancestors ents n id = ids.take n := by
  induction h generalizing n with
  | root hroot =>
      cases n with
      | zero => rfl
      | succ n => simp [ancestors, hroot]
  | link hpos _ ih =>
      cases n with
      | zero => rfl
      | succ n => rw [ancestors, if_neg hpos, ih, List.take_succ_cons]

/-- The way to the root is the only one. -/
theorem RootChain.unique {ids' : List Int32} (h : RootChain ents id ids)
    (h' : RootChain ents id ids') : ids = ids' := by
  have htake : ∀ n, ids.take n = ids'.take n :=
    fun n => (h.ancestors_eq n).symm.trans (h'.ancestors_eq n)
  have hall := htake (max ids.length ids'.length)
  rwa [List.take_of_length_le (le_max_left _ _), List.take_of_length_le (le_max_right _ _)]
    at hall

/-- The way from an environment on the way is the rest of it. -/
theorem RootChain.suffix {v : Int32} (h : RootChain ents id ids) (hv : v ∈ ids) :
    ∃ vs, RootChain ents v vs ∧ vs.length ≤ ids.length := by
  induction h with
  | root hroot =>
      obtain rfl := List.mem_singleton.mp hv
      exact ⟨_, .root hroot, le_rfl⟩
  | link hpos hrest ih =>
      rcases List.mem_cons.mp hv with rfl | hv
      · exact ⟨_, .link hpos hrest, le_rfl⟩
      · obtain ⟨vs, hvs, hlen⟩ := ih hv
        exact ⟨vs, hvs, hlen.trans (Nat.le_succ _)⟩

/-- The way to the root meets no environment twice. -/
theorem RootChain.nodup (h : RootChain ents id ids) : ids.Nodup := by
  induction h with
  | root => exact List.nodup_singleton _
  | @link id ids hpos hrest ih =>
      refine List.nodup_cons.mpr ⟨fun hid => ?_, ih⟩
      -- the way from `id` would be shorter than itself
      obtain ⟨vs, hvs, hlen⟩ := hrest.suffix hid
      rw [hvs.unique (.link hpos hrest), List.length_cons] at hlen
      omega

/-- A walk that stops early has come to the root. -/
theorem rootChain_of_length_lt {n : ℕ} (h : (ancestors ents n id).length < n) :
    RootChain ents id (ancestors ents n id) := by
  induction n generalizing id with
  | zero => cases h
  | succ n ih =>
      rw [ancestors] at h ⊢
      split at h
      · rename_i hroot
        rw [if_pos hroot]
        exact .root hroot
      · rename_i hpos
        rw [if_neg hpos]
        rw [List.length_cons] at h
        exact .link hpos (ih (by omega))

/-- A list without repetitions does not come back. -/
theorem not_returnsFrom_of_nodup {k : ℕ} (h : ids.Nodup) : ¬ReturnsFrom k ids := by
  rintro ⟨e, d, x, hed, -, he, hd⟩
  have hlt : e < ids.length := (List.getElem?_eq_some_iff.mp he).1
  have heq := (List.getElem?_inj hlt h).mp (he.trans hd.symm)
  omega

/-- **The walk along the links** fails when a link leads back to an environment that was met
at least two links earlier. Otherwise it yields the environments met in 64 steps, whether the
chain ends there or not. -/
theorem walkChain_run (mod : Module) (hlist : tpbRafEntryListRtenv ws = .ok ents ws) (k : ℕ)
    (chain : List Int32) (cur : Int32) :
    (ReturnsFrom (chain.length + 1) (chain ++ ancestors ents (k + 1) cur) →
      walkChain mod k chain cur ws = .error (.code mod .cliFail) ws) ∧
    (¬ReturnsFrom (chain.length + 1) (chain ++ ancestors ents (k + 1) cur) →
      walkChain mod k chain cur ws = .ok (chain ++ ancestors ents k cur) ws) := by
  have hend : ∀ (chain : List Int32) (v : Int32),
      ¬ReturnsFrom (chain.length + 1) (chain ++ [v]) := by
    rintro chain v ⟨e, d, x, -, hd, -, hx⟩
    have hlt := (List.getElem?_eq_some_iff.mp hx).1
    rw [List.length_append, List.length_singleton] at hlt
    omega
  induction k generalizing chain cur with
  | zero =>
      have hone : ancestors ents 1 cur = [cur] := by
        rw [ancestors]
        split <;> rfl
      rw [hone]
      refine ⟨fun h => absurd h (hend chain cur), fun _ => ?_⟩
      rw [ancestors, List.append_nil]
      rfl
  | succ k ih =>
      have hstep : walkChain mod (k + 1) chain cur ws =
          (if parentOf ents cur ≤ 0 then pure (chain ++ [cur])
          else if parentOf ents cur ∈ chain then tpbFail mod .cliFail
          else walkChain mod k (chain ++ [cur]) (parentOf ents cur)) ws :=
        bind_ok (orFail_eq_ok.mpr hlist)
      have hwalk : ∀ n, ancestors ents (n + 1) cur =
          cur :: if parentOf ents cur ≤ 0 then [] else ancestors ents n (parentOf ents cur) :=
        fun _ => rfl
      rw [hstep, hwalk (k + 1), hwalk k]
      by_cases hroot : parentOf ents cur ≤ 0
      · rw [if_pos hroot, if_pos hroot, if_pos hroot]
        exact ⟨fun h => absurd h (hend chain cur), fun _ => rfl⟩
      · rw [if_neg hroot, if_neg hroot, if_neg hroot]
        obtain ⟨herr, hok⟩ := ih (chain ++ [cur]) (parentOf ents cur)
        rw [List.length_append, List.length_singleton, List.append_assoc,
          List.singleton_append] at herr hok
        rw [List.append_assoc, List.singleton_append] at hok
        have hparent : (chain ++ cur :: ancestors ents (k + 1) (parentOf ents cur))[
            chain.length + 1]? = some (parentOf ents cur) := by
          rw [List.getElem?_append_right (Nat.le_add_right _ _), Nat.add_sub_cancel_left,
            List.getElem?_cons_succ, ancestors, List.getElem?_cons_zero]
        by_cases hmem : parentOf ents cur ∈ chain
        · rw [if_pos hmem]
          refine ⟨fun _ => rfl, fun h => absurd ?_ h⟩
          obtain ⟨e, he⟩ := List.mem_iff_getElem?.mp hmem
          have hlt : e < chain.length := (List.getElem?_eq_some_iff.mp he).1
          exact ⟨e, chain.length + 1, parentOf ents cur, by omega, le_rfl,
            by rw [List.getElem?_append_left hlt, he], hparent⟩
        · rw [if_neg hmem]
          have hiff : ReturnsFrom (chain.length + 1)
                (chain ++ cur :: ancestors ents (k + 1) (parentOf ents cur)) ↔
              ReturnsFrom (chain.length + 1 + 1)
                (chain ++ cur :: ancestors ents (k + 1) (parentOf ents cur)) := by
            constructor
            · rintro ⟨e, d, x, hed, hd, he, hx⟩
              refine ⟨e, d, x, hed, ?_, he, hx⟩
              by_contra hnot
              obtain rfl : d = chain.length + 1 := by omega
              have hlt : e < chain.length := by omega
              rw [List.getElem?_append_left hlt] at he
              cases hparent.symm.trans hx
              exact hmem (List.mem_of_getElem? he)
            · rintro ⟨e, d, x, hed, hd, he, hx⟩
              exact ⟨e, d, x, hed, by omega, he, hx⟩
          rw [hiff]
          exact ⟨herr, hok⟩

end Links

/-! ### The merged variables -/

/-- `tpb_rtenv_merged_find`. -/
def tpbRtenvMergedFind (m : Merged) (key : Bytes) : Option EnvVar :=
  m.vars.find? (·.key = key)

section Merged

variable (apps : Int32 → List MergedApp) (decl : Int32 → List EnvVar) (ids : List Int32)

/-- The declaration of a key in the first of the environments that declares it, the last one
there. -/
def nearest (key : Bytes) : Option EnvVar :=
  ids.findSome? fun v => (decl v).reverse.find? (·.key = key)

/-- The merged structure says of every variable what the nearest environment says. -/
structure ChainMerged (m : Merged) : Prop where
  distinct : (m.vars.map EnvVar.key).Nodup
  keys : ∀ key, key ∈ m.vars.map EnvVar.key ↔ ∃ v ∈ ids, key ∈ (decl v).map EnvVar.key
  find : ∀ key, tpbRtenvMergedFind m key = nearest decl ids key

/-- The environments beyond the 64th one declare no variable that the nearest 64 do not. -/
def DeclaredNear : Prop :=
  ∀ v ∈ ids.drop 64, ∀ key ∈ (decl v).map EnvVar.key,
    ∃ u ∈ ids.take 64, key ∈ (decl u).map EnvVar.key

/-- The environments together declare more applications or variables than there are slots. -/
def TooMany : Prop :=
  32 < ((ids.flatMap apps).map MergedApp.name).dedup.length ∨
    tpbRtenvMergedMaxVar < ((ids.flatMap decl).map EnvVar.key).dedup.length

/-- The records of the environments, merged from the last one to the first one. -/
def mergedOf : Merged := ids.reverse.foldl (fun m v => m.add (apps v) (decl v)) ⟨[], []⟩

variable {apps decl ids}

theorem foldl_add (vs : List Int32) (m : Merged) :
    vs.foldl (fun m v => m.add (apps v) (decl v)) m =
      m.add (vs.flatMap apps) (vs.flatMap decl) := by
  induction vs generalizing m with
  | nil => rfl
  | cons v vs ih =>
      rw [List.foldl_cons, ih, List.flatMap_cons, List.flatMap_cons]
      simp only [Merged.add, List.foldl_append]

/-- **The merged variables are the nearest declarations.** -/
theorem chainMerged_mergedOf : ChainMerged decl ids (mergedOf apps decl ids) := by
  have hvars : (mergedOf apps decl ids).vars =
      (ids.reverse.flatMap decl).foldl (upsert EnvVar.key) [] := by
    rw [mergedOf, foldl_add]
    rfl
  refine ⟨?_, ?_, ?_⟩
  · rw [hvars]
    exact nodup_foldl_upsert (by simp)
  · intro key
    rw [hvars, mem_keys_foldl_upsert]
    simp only [List.map_nil, List.not_mem_nil, false_or, List.mem_map, List.mem_flatMap,
      List.mem_reverse]
    constructor
    · rintro ⟨x, ⟨v, hv, hx⟩, rfl⟩
      exact ⟨v, hv, x, hx, rfl⟩
    · rintro ⟨v, hv, x, hx, rfl⟩
      exact ⟨x, ⟨v, hv, hx⟩, rfl⟩
  · intro key
    rw [tpbRtenvMergedFind, hvars, find_foldl_upsert, List.find?_nil, Option.or_none,
      List.reverse_flatMap, List.reverse_reverse, List.find?_flatMap]
    rfl

/-- The slots that the merged structure needs. -/
theorem inSlots_mergedOf :
    (mergedOf apps decl ids).InSlots tpbRtenvMergedMaxVar ↔ ¬TooMany apps decl ids := by
  have hperm : ∀ {α : Type} [DecidableEq α] (f : Int32 → List α), ∀ {κ : Type} [DecidableEq κ]
      (key : α → κ), ((ids.reverse.flatMap f).map key).dedup.length =
        ((ids.flatMap f).map key).dedup.length := by
    intro α _ f κ _ key
    exact (((ids.reverse_perm.flatMap_right f).map key).dedup).length_eq
  rw [mergedOf, foldl_add, Merged.InSlots, Merged.add, length_foldl_upsert_nil,
    length_foldl_upsert_nil, hperm, hperm, TooMany, not_or, Nat.not_lt, Nat.not_lt]

/-- Cutting the chain behind the 64th environment loses the variables declared only beyond
it. -/
theorem chainMerged_take_iff :
    ChainMerged decl ids (mergedOf apps decl (ids.take 64)) ↔ DeclaredNear decl ids := by
  have hcut : ChainMerged decl (ids.take 64) (mergedOf apps decl (ids.take 64)) :=
    chainMerged_mergedOf
  constructor
  · intro h v hv key hkey
    exact (hcut.keys key).mp ((h.keys key).mpr ⟨v, List.mem_of_mem_drop hv, hkey⟩)
  · intro h
    have hmem : ∀ key, (∃ v ∈ ids.take 64, key ∈ (decl v).map EnvVar.key) ↔
        ∃ v ∈ ids, key ∈ (decl v).map EnvVar.key := by
      intro key
      constructor
      · rintro ⟨v, hv, hkey⟩
        exact ⟨v, List.mem_of_mem_take hv, hkey⟩
      · rintro ⟨v, hv, hkey⟩
        rw [← List.take_append_drop 64 ids] at hv
        rcases List.mem_append.mp hv with hv | hv
        · exact ⟨v, hv, hkey⟩
        · exact h v hv key hkey
    refine ⟨hcut.distinct, fun key => (hcut.keys key).trans (hmem key), fun key => ?_⟩
    rw [hcut.find, nearest, nearest]
    conv_rhs => rw [← List.take_append_drop 64 ids, List.findSome?_append]
    rcases hfind : (ids.take 64).findSome? fun v => (decl v).reverse.find? (·.key = key) with
      - | x
    · rw [hfind, Option.none_or, eq_comm, List.findSome?_eq_none_iff]
      intro v hv
      rw [List.find?_eq_none]
      intro x hx hxkey
      -- the key is declared near, where nothing was found
      obtain ⟨u, hu, hukey⟩ := h v hv key (List.mem_map.mpr
        ⟨x, List.mem_reverse.mp hx, by simpa using hxkey⟩)
      obtain ⟨y, hy, hykey⟩ := List.mem_map.mp hukey
      have hnone := List.findSome?_eq_none_iff.mp hfind u hu
      exact List.find?_eq_none.mp hnone y (List.mem_reverse.mpr hy) (by simpa using hykey)
    · rw [hfind, Option.some_or]

end Merged

/-! ### The function -/

section Chain

variable {ws : Workspace} {ents : List RtenvEntry} {id : Int32}
  (apps : Int32 → List MergedApp) (decl : Int32 → List EnvVar)

/-- A walk that comes back makes the function fail. -/
theorem tpbRtenvMergeChain_of_returns (hlist : tpbRafEntryListRtenv ws = .ok ents ws)
    (h : ReturnsSoon ents id) : tpbRtenvMergeChain id ws = .error (.code .misc .cliFail) ws := by
  obtain ⟨e, d, x, hed, -, he, hd⟩ := h
  refine bind_error ((walkChain_run .misc hlist 64 [] id).1 ?_)
  exact ⟨e, d, x, hed, by simp only [List.length_nil]; omega, he, hd⟩

/-- Otherwise the nearest 64 environments are merged, if there are slots for them, by a function
that merges one record. -/
theorem mergeWalk_run {mod : Module} {maxVar : ℕ} {e : Err} {f : Merged → Int32 → WsM Merged}
    (hlist : tpbRafEntryListRtenv ws = .ok ents ws) (h : ¬ReturnsSoon ents id)
    (hf : ∀ v ∈ ancestors ents 64 id, ∀ m : Merged, m.InSlots maxVar →
      f m v ws = guarded e ((m.add (apps v) (decl v)).InSlots maxVar)
        (m.add (apps v) (decl v)) ws) :
    (do let chain ← walkChain mod 64 [] id; chain.reverse.foldlM f ⟨[], []⟩) ws = guarded e
      ((mergedOf apps decl (ancestors ents 64 id)).InSlots maxVar)
      (mergedOf apps decl (ancestors ents 64 id)) ws := by
  have hwalk := (walkChain_run mod hlist 64 [] id).2 fun hret => h ?_
  · refine (bind_ok hwalk).trans ?_
    refine foldlM_guarded (p := Merged.InSlots maxVar) ?_ ?_ ?_
    · rintro m v ⟨happs, hvars⟩
      exact ⟨(length_le_length_foldl_upsert _ _).trans happs,
        (length_le_length_foldl_upsert _ _).trans hvars⟩
    · exact fun v hv => hf v (List.mem_reverse.mp hv)
    · exact ⟨Nat.zero_le _, Nat.zero_le _⟩
  · obtain ⟨e, d, x, hed, -, he, hd⟩ := hret
    exact ⟨e, d, x, hed, Nat.zero_le d, he, hd⟩

/-- The merge of the core library. -/
theorem tpbRtenvMergeChain_run (hlist : tpbRafEntryListRtenv ws = .ok ents ws)
    (h : ¬ReturnsSoon ents id)
    (hstored : ∀ v ∈ ancestors ents 64 id, Stored ws v (apps v) (decl v)) :
    tpbRtenvMergeChain id ws = guarded (.code .misc .cliFail)
      ((mergedOf apps decl (ancestors ents 64 id)).InSlots tpbRtenvMergedMaxVar)
      (mergedOf apps decl (ancestors ents 64 id)) ws := by
  refine mergeWalk_run apps decl hlist h fun v hv m hm => ?_
  rw [propagate, (hstored v hv).sfMergeRecordDelta_eq hm, guarded, guarded]
  by_cases hslots : (m.add (apps v) (decl v)).InSlots tpbRtenvMergedMaxVar
  · rw [if_pos hslots, if_pos hslots]
  · rw [if_neg hslots, if_neg hslots]

/-- The merge of the tool. -/
theorem tpbcliRtenvMergeChain_run (hlist : tpbRafEntryListRtenv ws = .ok ents ws)
    (h : ¬ReturnsSoon ents id)
    (hstored : ∀ v ∈ ancestors ents 64 id, Stored ws v (apps v) (decl v)) :
    tpbcliRtenvMergeChain id ws = guarded (.code .none .cliFail)
      ((mergedOf apps decl (ancestors ents 64 id)).InSlots tpbcliRtenvMaxVar)
      (mergedOf apps decl (ancestors ents 64 id)) ws :=
  mergeWalk_run apps decl hlist h fun v hv _ hm => (hstored v hv).sfMergeRecordDelta_eq hm

/-- **The merged chain.** On the way to a root, the structure that is merged says of every
variable what the nearest environment says, exactly when the environments beyond the 64th
declare no other variable. On a cycle, the function fails exactly when the cycle closes within
64 links, or there are too few slots for the first 64 environments. -/
theorem rtenv_mergeChain_iff (hlist : tpbRafEntryListRtenv ws = .ok ents ws) :
    (∀ ids, RootChain ents id ids → (∀ v ∈ ids, Stored ws v (apps v) (decl v)) →
      ∀ m ws', tpbRtenvMergeChain id ws = .ok m ws' →
        (ChainMerged decl ids m ↔ DeclaredNear decl ids)) ∧
    (Cyclic ents id → (∀ n, ∀ v ∈ ancestors ents n id, Stored ws v (apps v) (decl v)) →
      ((∃ ws', tpbRtenvMergeChain id ws = .error (.code .misc .cliFail) ws') ↔
        ReturnsSoon ents id ∨ TooMany apps decl (ancestors ents 64 id))) := by
  refine ⟨fun ids hroot hstored m ws' hok => ?_, fun _ hstored => ?_⟩
  · have hwalk := hroot.ancestors_eq 64
    have hret : ¬ReturnsSoon ents id := by
      rw [ReturnsSoon, hroot.ancestors_eq]
      exact not_returnsFrom_of_nodup (hroot.nodup.sublist (List.take_sublist _ _))
    rw [tpbRtenvMergeChain_run apps decl hlist hret fun v hv =>
      hstored v (List.mem_of_mem_take (hwalk ▸ hv)), guarded] at hok
    split at hok
    · cases hok
      rw [hwalk]
      exact chainMerged_take_iff
    · cases hok
  · constructor
    · rintro ⟨ws', herr⟩
      by_contra hnot
      rw [not_or] at hnot
      rw [tpbRtenvMergeChain_run apps decl hlist hnot.1 (hstored 64), guarded,
        if_pos (inSlots_mergedOf.mpr hnot.2)] at herr
      cases herr
    · intro h
      by_cases hret : ReturnsSoon ents id
      · exact ⟨ws, tpbRtenvMergeChain_of_returns hlist hret⟩
      · refine ⟨ws, ?_⟩
        rw [tpbRtenvMergeChain_run apps decl hlist hret (hstored 64), guarded, if_neg]
        rw [inSlots_mergedOf, not_not]
        exact h.resolve_left hret

end Chain

/-! ### Workspaces of linked environments -/

/-- A template that declares `A=1`, for the environment with the ID 1, and an empty one for
others. -/
def linkedSpec (id : Int32) : RtenvSpec where
  apps := []
  vars := if id = 1 then [⟨snprintfS 256 [65], snprintfS 4096 [49], 0, 0⟩] else []
  napp_le := napp_le_nil
  nenv_le := by split <;> simp

/-- What the environments declare. -/
def linkedDecl (id : Int32) : List EnvVar := (linkedSpec id).vars.map RtenvVar.envVar

theorem linkedDecl_one : linkedDecl 1 = [⟨[65], [49], 0, 0⟩] := by
  have hkey : cstr (snprintfS 256 [65]).toList = [65] := cstr_snprintfS (by simp) (by simp)
  have hvalue : cstr (snprintfS 4096 [49]).toList = [49] := cstr_snprintfS (by simp) (by simp)
  rw [linkedDecl, linkedSpec]
  simp only [if_true, List.map_cons, List.map_nil, RtenvVar.envVar, hkey, hvalue]

theorem linkedDecl_of_ne {id : Int32} (h : id ≠ 1) : linkedDecl id = [] := by
  rw [linkedDecl, linkedSpec]
  simp only [if_neg h, List.map_nil]

theorem length_linkedSpec_payload (id : Int32) : (linkedSpec id).payload.length ≤ 65536 := by
  have hpayload : (linkedSpec id).payload = (linkedDecl id).flatMap varPayload := rfl
  rw [hpayload]
  by_cases h : id = 1
  · rw [h, linkedDecl_one]
    simp [length_varPayload]
  · rw [linkedDecl_of_ne h]
    exact Nat.zero_le _

/-- The row that `tpbcli_rtenv_write_record` appends for an environment with a parent. -/
def linkedRow (link : Int32 × Int32) : RtenvEntry :=
  writeRecordEntry (zeroArr 256) 0 link.1 (formatD link.1.toNatClampNeg) [] link.2
    (linkedSpec link.1)

/-- The record that it writes. -/
def linkedRecord (link : Int32 × Int32) : Record rtenvFormat :=
  writtenRecord (zeroArr 256) 0 link.1 (formatD link.1.toNatClampNeg) [] link.2
    (linkedSpec link.1) (length_linkedSpec_payload link.1)

/-- Environments with the IDs and parents in a list. -/
def linkedWorkspace (links : List (Int32 × Int32)) : Workspace where
  files
    | .entry .rtenv => some (rtenvRow.table (links.map linkedRow))
    | .rtenv id => (links.find? (·.1 = id)).map fun link => (linkedRecord link).bytes
    | _ => none
  baseId := none

theorem linkedWorkspace_list {links : List (Int32 × Int32)} (hlen : links.length ≤ intMax) :
    tpbRafEntryListRtenv (linkedWorkspace links) =
      .ok (links.map linkedRow) (linkedWorkspace links) :=
  entryListRows_ok (.inl rfl) (by rwa [List.length_map])

theorem linkedWorkspace_stored {links : List (Int32 × Int32)} {id : Int32}
    (hid : id ∈ links.map Prod.fst) : Stored (linkedWorkspace links) id [] (linkedDecl id) := by
  obtain ⟨l, hl, rfl⟩ := List.mem_map.mp hid
  rcases hfind : links.find? (·.1 = l.1) with - | link
  · have hnone := List.find?_eq_none.mp hfind l hl
    simp at hnone
  · have hlink : link.1 = l.1 := by simpa using List.find?_some hfind
    have hfile : (linkedWorkspace links).files (.rtenv l.1) = some (linkedRecord link).bytes := by
      change ((links.find? (·.1 = l.1)).map fun link => (linkedRecord link).bytes) = _
      rw [hfind, Option.map_some]
    refine ⟨_, hfile, hlink, [], [], ?_⟩
    rw [← hlink]
    refine declares_writtenRecord ?_
    intro x hx
    change x ∈ linkedDecl link.1 at hx
    by_cases h : link.1 = 1
    · rw [h, linkedDecl_one, List.mem_singleton] at hx
      rw [hx]
      exact ⟨⟨by simp, by simp⟩, ⟨by simp, by simp⟩⟩
    · rw [linkedDecl_of_ne h] at hx
      cases hx

/-- 65 environments, each the parent of the next one. -/
def linearLinks : List (Int32 × Int32) :=
  (List.range 65).map fun i => (Int32.ofNat (i + 1), Int32.ofNat i)

theorem ancestors_linearLinks : ancestors (linearLinks.map linkedRow) 66 65 =
    (List.range 65).map fun i => Int32.ofNat (65 - i) := by
  decide +kernel

theorem rootChain_linearLinks : RootChain (linearLinks.map linkedRow) 65
    ((List.range 65).map fun i => Int32.ofNat (65 - i)) := by
  rw [← ancestors_linearLinks]
  refine rootChain_of_length_lt ?_
  rw [ancestors_linearLinks]
  simp

/-- The merge of a chain whose first 64 environments declare the variables `vars`. -/
theorem linkedWorkspace_merge {links : List (Int32 × Int32)} {id : Int32} {ids : List Int32}
    (hlen : links.length ≤ intMax) (hroot : RootChain (links.map linkedRow) id ids)
    (hids : ∀ v ∈ ids, v ∈ links.map Prod.fst) {vars : List EnvVar}
    (hvars : mergedOf (fun _ => []) linkedDecl (ids.take 64) = ⟨[], vars⟩)
    (hslots : vars.length ≤ tpbRtenvMergedMaxVar) :
    tpbRtenvMergeChain id (linkedWorkspace links) = .ok ⟨[], vars⟩ (linkedWorkspace links) := by
  have hret : ¬ReturnsSoon (links.map linkedRow) id := by
    rw [ReturnsSoon, hroot.ancestors_eq]
    exact not_returnsFrom_of_nodup (hroot.nodup.sublist (List.take_sublist _ _))
  rw [tpbRtenvMergeChain_run (fun _ => []) linkedDecl (linkedWorkspace_list hlen) hret,
    hroot.ancestors_eq, hvars, guarded,
    if_pos ⟨Nat.zero_le _, hslots⟩]
  intro v hv
  rw [hroot.ancestors_eq] at hv
  exact linkedWorkspace_stored (hids v (List.mem_of_mem_take hv))

/-- The environment with the ID 65 inherits over 64 others from the one with the ID 1, which
declares `A=1`. The merge succeeds without this variable. -/
theorem rtenv_mergeChain_loses_root :
    ∃ ws ents ids m, tpbRafEntryListRtenv ws = .ok ents ws ∧ RootChain ents 65 ids ∧
      (∀ v ∈ ids, Stored ws v [] (linkedDecl v)) ∧ tpbRtenvMergeChain 65 ws = .ok m ws ∧
      ¬ChainMerged linkedDecl ids m := by
  have hlen : linearLinks.length ≤ intMax := by simp [linearLinks, intMax]
  have hids : ∀ v ∈ (List.range 65).map fun i => Int32.ofNat (65 - i),
      v ∈ linearLinks.map Prod.fst := by
    intro v hv
    obtain ⟨i, hi, rfl⟩ := List.mem_map.mp hv
    have hlt := List.mem_range.mp hi
    rw [linearLinks, List.map_map]
    refine List.mem_map.mpr ⟨64 - i, List.mem_range.mpr (by omega), ?_⟩
    rw [Function.comp_apply, show 64 - i + 1 = 65 - i by omega]
  have hfar : ∀ v ∈ ((List.range 65).map fun i => Int32.ofNat (65 - i)).take 64, v ≠ 1 := by
    have hnat : ∀ i < 64, Int32.ofNat (65 - i) ≠ 1 := by decide +kernel
    rw [← List.map_take, List.take_range]
    intro v hv
    obtain ⟨i, hi, rfl⟩ := List.mem_map.mp hv
    exact hnat i (List.mem_range.mp hi)
  have hempty : mergedOf (fun _ => []) linkedDecl
      (((List.range 65).map fun i => Int32.ofNat (65 - i)).take 64) = ⟨[], []⟩ := by
    have hnone : ∀ v ∈ (((List.range 65).map fun i => Int32.ofNat (65 - i)).take 64).reverse,
        linkedDecl v = [] :=
      fun v hv => linkedDecl_of_ne (hfar v (List.mem_reverse.mp hv))
    rw [mergedOf, foldl_add, List.flatMap_eq_nil_iff.mpr hnone,
      List.flatMap_eq_nil_iff.mpr fun _ _ => rfl]
    rfl
  refine ⟨_, _, _, _, linkedWorkspace_list hlen, rootChain_linearLinks,
    fun v hv => linkedWorkspace_stored (hids v hv),
    linkedWorkspace_merge hlen rootChain_linearLinks hids hempty (Nat.zero_le _), ?_⟩
  intro h
  have hmem := (h.keys [65]).mpr ⟨1, by decide +kernel, by rw [linkedDecl_one]; simp⟩
  cases hmem

/-- An environment and its parent, which declares `A=1`, and an environment that is its own
parent. -/
theorem rtenv_mergeChain_short :
    (∃ m, tpbRtenvMergeChain 2 (linkedWorkspace [(1, 0), (2, 1)]) =
        .ok m (linkedWorkspace [(1, 0), (2, 1)]) ∧ ChainMerged linkedDecl [2, 1] m) ∧
      ∃ ws', tpbRtenvMergeChain 1 (linkedWorkspace [(1, 1)]) =
        .error (.code .misc .cliFail) ws' := by
  constructor
  · have hlen : [((1 : Int32), (0 : Int32)), (2, 1)].length ≤ intMax := by simp [intMax]
    have hroot : RootChain ([(1, 0), (2, 1)].map linkedRow) 2 [2, 1] :=
      .link (by decide) (.root (by decide))
    have hids : ∀ v ∈ [(2 : Int32), 1], v ∈ [((1 : Int32), (0 : Int32)), (2, 1)].map Prod.fst := by
      simp
    have hvars : mergedOf (fun _ => []) linkedDecl ([(2 : Int32), 1].take 64) =
        ⟨[], [⟨[65], [49], 0, 0⟩]⟩ := by
      have htwo : linkedDecl 2 = [] := linkedDecl_of_ne (by decide)
      rw [mergedOf, foldl_add]
      change Merged.add ⟨[], []⟩ [] (linkedDecl 1 ++ (linkedDecl 2 ++ [])) = _
      rw [linkedDecl_one, htwo]
      rfl
    have hok := linkedWorkspace_merge hlen hroot hids hvars (by simp [tpbRtenvMergedMaxVar])
    have hiff := (rtenv_mergeChain_iff (fun _ => []) linkedDecl (linkedWorkspace_list hlen)).1 _
      hroot (fun v hv => linkedWorkspace_stored (hids v hv)) _ _ hok
    refine ⟨_, hok, hiff.mpr ?_⟩
    intro v hv
    cases hv
  · have hlen : [((1 : Int32), (1 : Int32))].length ≤ intMax := by simp [intMax]
    have hone : ∀ n, ∀ v ∈ ancestors ([(1, 1)].map linkedRow) n 1, v = 1 := by
      intro n
      induction n with
      | zero => exact fun v hv => by cases hv
      | succ n ih =>
          intro v hv
          rcases List.mem_cons.mp hv with rfl | hv
          · rfl
          · rw [if_neg (by decide)] at hv
            exact ih v hv
    have hcycle : Cyclic ([(1, 1)].map linkedRow) 1 := ⟨2, by decide⟩
    have hiff := (rtenv_mergeChain_iff (fun _ => []) linkedDecl
      (linkedWorkspace_list hlen)).2 hcycle
    refine (hiff ?_).mpr (.inl ?_)
    · intro n v hv
      rw [hone n v hv]
      exact linkedWorkspace_stored (by decide)
    · exact ⟨0, 2, 1, le_rfl, Nat.zero_le _, by decide, by decide⟩

end TPBench
