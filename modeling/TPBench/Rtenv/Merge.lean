import TPBench.Rtenv.Written

/-!
# Merging the Chain of a Runtime Environment

The inheritance chain of a runtime environment is followed through the rows of the table, up
to 64 environments, and the records are merged from the root to the target. The function for
this exists in the core library, where the merged structure has 512 slots for variables, and
in the command line tool, where it has 128.

`rtenv_mergeChain_agree` compares them: the tool succeeds exactly when the core library does
with at most 128 variables, and both then yield the same applications and the same variables
in the same order. With more variables, the tool fails. This happens in practice: a snapshot
of a process with 129 environment variables merges in the core library and not in the tool
(`rtenv_mergeChain_differ`).
-/

open CFile Capped

namespace TPBench

/-! ### The two functions -/

/-- `TPBCLI_RTENV_MAX_VAR`. -/
def tpbcliRtenvMaxVar : ℕ := 128

/-- `TPB_RTENV_MERGED_MAX_VAR`. -/
def tpbRtenvMergedMaxVar : ℕ := 512

/-- The loop that follows `inherit_from`, with `k` slots of `chain` left, the slots in use
being `chain`. A chain that is longer is cut. The errors belong to the module `mod`. -/
def walkChain (mod : Module) : ℕ → List Int32 → Int32 → WsM (List Int32)
  | 0, chain, _ => return chain
  | k + 1, chain, cur => do
      let ents ← orFail mod .fileIoFail tpbRafEntryListRtenv
      let parent := ((ents.find? (·.id = cur)).map RtenvEntry.inheritFrom).getD (-1)
      if parent ≤ 0 then return chain ++ [cur]
      -- the last slot in use, which holds `cur`, is not compared
      else if parent ∈ chain then tpbFail mod .cliFail
      else walkChain mod k (chain ++ [cur]) parent

/-- `tpbcli_rtenv_merge_chain`. Errors are returned as they are. -/
def tpbcliRtenvMergeChain (targetId : Int32) : WsM Merged := do
  let chain ← walkChain .none 64 [] targetId
  chain.reverse.foldlM (fun out id => sfMergeRecordDelta tpbcliRtenvMaxVar id out) ⟨[], []⟩

/-- `tpb_rtenv_merge_chain`. -/
def tpbRtenvMergeChain (targetId : Int32) : WsM Merged := do
  let chain ← walkChain .misc 64 [] targetId
  chain.reverse.foldlM
    (fun out id => propagate .misc (sfMergeRecordDelta tpbRtenvMergedMaxVar id out)) ⟨[], []⟩

/-! ### Agreement -/

/-- The chain that is found does not depend on how errors are reported. -/
theorem walkChain_eq_ok (mod mod' : Module) (k : ℕ) (chain : List Int32) (cur : Int32)
    (ws : Workspace) (ids : List Int32) (ws' : Workspace) :
    walkChain mod k chain cur ws = .ok ids ws' → walkChain mod' k chain cur ws = .ok ids ws' := by
  induction k generalizing chain cur ws with
  | zero => exact fun h => h
  | succ k ih =>
      intro h
      obtain ⟨ents, ws₁, hlist, h⟩ := bind_eq_ok.mp h
      rw [orFail_eq_ok] at hlist
      refine bind_then (orFail_eq_ok.mpr hlist) ?_
      split at h
      · rename_i hroot
        rw [if_pos hroot]
        exact h
      · rename_i hroot
        rw [if_neg hroot]
        split at h
        · cases h
        · rename_i hcycle
          rw [if_neg hcycle]
          exact ih _ _ _ h

/-- The function of the tool is that of the core library with fewer slots. -/
theorem mergeChain_within (targetId : Int32) :
    Within Merged.nenv tpbcliRtenvMaxVar (.code .none .cliFail) 0
      (tpbcliRtenvMergeChain targetId) (tpbRtenvMergeChain targetId) := by
  refine Within.after ?_ fun chain => ?_
  · intro ws ids ws'
    exact ⟨walkChain_eq_ok _ _ _ _ _ _ _ _, walkChain_eq_ok _ _ _ _ _ _ _ _⟩
  · refine Within.foldlM ?_ chain.reverse (⟨[], []⟩ : Merged)
    intro out id
    have hle : tpbcliRtenvMaxVar ≤ tpbRtenvMergedMaxVar := by decide
    refine (sfMergeRecordDelta_within hle id out).of_ok_iff ?_
    intro ws b ws'
    exact propagate_eq_ok

/-- **The two functions agree up to the number of variables**: the tool yields a result
exactly when the core library does and the result has at most 128 variables. When it has
more, the tool fails. -/
theorem rtenv_mergeChain_agree (targetId : Int32) (ws ws' : Workspace) (m : Merged) :
    (tpbcliRtenvMergeChain targetId ws = .ok m ws' ↔
      tpbRtenvMergeChain targetId ws = .ok m ws' ∧ m.vars.length ≤ tpbcliRtenvMaxVar) ∧
    (tpbRtenvMergeChain targetId ws = .ok m ws' → tpbcliRtenvMaxVar < m.vars.length →
      ∃ ws'', tpbcliRtenvMergeChain targetId ws = .error (.code .none .cliFail) ws'') :=
  ⟨(mergeChain_within targetId).ok_iff (Nat.zero_le _) ws m ws',
    (mergeChain_within targetId).full (Nat.zero_le _) ws m ws'⟩

/-! ### A snapshot with too many variables -/

section Snapshot

variable {ws : Workspace} {e : RtenvEntry} {r : Record rtenvFormat} {maxVar : ℕ}

/-- The chain of an environment without a parent. -/
theorem walkChain_root (mod : Module) {id : Int32} (htable : rtenvRow.Holds ws [e])
    (hid : e.id = id) (hroot : e.inheritFrom ≤ 0) :
    walkChain mod 64 [] id ws = .ok [id] ws := by
  have hlist : tpbRafEntryListRtenv ws = .ok [e] ws :=
    entryListRows_ok htable (by simp [intMax])
  refine bind_then (orFail_eq_ok.mpr hlist) ?_
  have hparent : (([e].find? (·.id = id)).map RtenvEntry.inheritFrom).getD (-1) =
      e.inheritFrom := by simp [hid]
  rw [hparent, if_pos hroot]
  rfl

/-- Both functions on a workspace with one snapshot. -/
theorem sfMergeRecordDelta_snapshot {sys : SysEnv} {id : Int32} {name : Bytes}
    {vars : List EnvVar} {hcount : 1 + vars.length * 4 ≤ intMax}
    {hsize : (vars.flatMap varPayload).length < 2 ^ 63}
    (hr : ws.files (.rtenv id) = some (snapshotRecord sys id name vars hcount hsize).bytes)
    (hstr : ∀ x ∈ vars, 0 ∉ x.key ∧ 0 ∉ x.value) (hslots : vars.length ≤ maxVar)
    (hkeys : (vars.map EnvVar.key).Nodup)
    (hfit : ∀ x ∈ vars, x.key.length < 256 ∧ x.value.length < 4096) :
    sfMergeRecordDelta maxVar id ⟨[], []⟩ ws = .ok ⟨[], vars⟩ ws := by
  refine bind_then (recordRead_of_bytes hr) ?_
  rw [mergeView_snapshotRecord hcount hsize hstr, foldlM_sfMergeAddVar (by simpa) (by simpa) hfit]
  rfl

end Snapshot

/-- A variable for each number below `n`, without a value. -/
def numbered (n : ℕ) : List EnvVar := (List.range n).map fun i => ⟨formatD i, [], 0, 0⟩

/-- A process with these variables. -/
def numberedEnv (n : ℕ) : SysEnv := ⟨(List.range n).map fun i => formatD i ++ [61], [], 0⟩

theorem splitVar_formatD (i : ℕ) : splitVar (formatD i ++ [61]) = some ⟨formatD i, [], 0, 0⟩ := by
  have hzero : (0 : UInt8) ∉ formatD i ++ [61] := by simp [not_zero_mem_formatD]
  have hkey : (formatD i ++ [61]).takeWhile (· ≠ 61) = formatD i := by
    have hne : ∀ b ∈ formatD i, decide (b ≠ 61) = true := by
      intro b hb
      have hdigit := isdigit_of_mem_formatD hb
      rw [decide_eq_true_eq]
      rintro rfl
      cases hdigit
    rw [List.takeWhile_append_of_pos hne, List.takeWhile_cons_of_neg (by decide),
      List.append_nil]
  simp only [splitVar, cstr_of_not_mem hzero, hkey]
  rw [if_neg (by simp [formatD_ne_nil]), List.drop_of_length_le (by simp)]

theorem filterMap_numberedEnv (n : ℕ) :
    (numberedEnv n).environ.filterMap splitVar = numbered n := by
  rw [numberedEnv, numbered, List.filterMap_map]
  have hall : splitVar ∘ (fun i => formatD i ++ [61]) =
      fun i => some (⟨formatD i, [], 0, 0⟩ : EnvVar) := funext splitVar_formatD
  rw [hall]
  exact congrFun List.filterMap_eq_map (List.range n)

/-- A snapshot of a process with 129 variables: the core library merges it, the tool does
not. -/
theorem rtenv_mergeChain_differ :
    ∃ ws, tpbRtenvSnapshotBuildEnv (numberedEnv 129) true Workspace.empty = .ok 1 ws ∧
      tpbRtenvMergeChain 1 ws = .ok ⟨[], numbered 129⟩ ws ∧
      ∃ ws', tpbcliRtenvMergeChain 1 ws = .error (.code .none .cliFail) ws' := by
  have hcount : 1 + (numbered 129).length * 4 ≤ intMax := by simp [numbered, intMax]
  have hsize : ((numbered 129).flatMap varPayload).length < 2 ^ 63 := by decide +kernel
  obtain ⟨ws, hsnap, htable, hr⟩ :=
    tpbRtenvSnapshotBuildEnv_empty (filterMap_numberedEnv 129) hcount hsize
  have hmem : ∀ x ∈ numbered 129, ∃ i < 129, x = ⟨formatD i, [], 0, 0⟩ := by
    intro x hx
    obtain ⟨i, hi, rfl⟩ := List.mem_map.mp hx
    exact ⟨i, List.mem_range.mp hi, rfl⟩
  have hmerge : tpbRtenvMergeChain 1 ws = .ok ⟨[], numbered 129⟩ ws := by
    have hchain : walkChain .misc 64 [] 1 ws = .ok [1] ws :=
      walkChain_root .misc htable rfl (Int32.le_refl 0)
    refine bind_then hchain ?_
    refine bind_then (propagate_eq_ok.mpr (sfMergeRecordDelta_snapshot hr ?_ ?_ ?_ ?_)) rfl
    · intro x hx
      obtain ⟨i, -, rfl⟩ := hmem x hx
      exact ⟨not_zero_mem_formatD i, by simp⟩
    · simp [numbered, tpbRtenvMergedMaxVar]
    · rw [numbered, List.map_map]
      exact List.nodup_range.map formatD_injective
    · intro x hx
      obtain ⟨i, hi, rfl⟩ := hmem x hx
      have hlen := length_formatD_le (show i ≤ 2147483647 by omega)
      exact ⟨hlen.trans_lt (by omega), by simp⟩
  refine ⟨ws, hsnap, hmerge, ?_⟩
  refine (mergeChain_within 1).full (Nat.zero_le _) ws _ ws hmerge ?_
  simp [Merged.nenv, numbered, tpbcliRtenvMaxVar]

end TPBench
