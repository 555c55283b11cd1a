import TPBench.Rtenv.Session

/-!
# What Environments Inherit

The links of the table lead from every environment of a lineage along its way to the root
(`rootChain_of_links`), so a merge meets no environment twice, and reads the records on this way.
What it makes of them is what the environment inherits: the declarations of the root, and those
of each environment on the way put on top (`Envs.merged`).

## Main results

* `rtenv_session_merge` — after a session with any failures, the merge of an environment, with
  at most 64 on its way to the root and a record for each of them, is what the environment
  inherits, if there are slots for it.
-/

open CFile Conc Keyed

namespace TPBench

namespace Envs

variable (E : Envs)

/-- The declarations of an environment on top of what it inherits; one without a record declares
nothing. -/
def addNode (m : Merged) (node : EnvNode) : Merged :=
  node.settings.elim m fun s => m.add s.apps s.vars

/-- What the environment at a place inherits and declares. -/
def merged (i : ℕ) : Merged := E.tree.inherited addNode ⟨[], []⟩ i

/-- The environment at a place has a record that a merge can read. -/
def Readable (i : ℕ) : Prop :=
  ∃ p name s, E.tree.nodes[i]? = some (p, ⟨name, some s⟩) ∧ s.Fits

/-- What the environment with an ID declares. -/
def declaredBy (id : Int32) : Settings :=
  (((E.ofId id).bind fun i => E.tree.nodes[i]?).bind fun n => n.2.settings).getD ⟨[], []⟩

variable {E} {i : ℕ}

theorem declaredBy_idAt (hle : E.count ≤ intMax) {p : Option ℕ} {name : Bytes} {s : Settings}
    (hi : E.tree.nodes[i]? = some (p, ⟨name, some s⟩)) : E.declaredBy (idAt i) = s := by
  have hid : E.ofId (idAt i) = some i := (E.ofId_eq_some hle).mpr ⟨lt_count hi, rfl⟩
  rw [declaredBy, hid, Option.bind_some, hi, Option.bind_some, Option.getD_some]

end Envs

section Links

variable {ws : Workspace} {E : Envs} {rows : List RtenvEntry} {i : ℕ}

/-- The row of an environment names its parent. -/
theorem parentOf_idAt (hlinks : rows.map RtenvEntry.link = E.links) (hle : E.count ≤ intMax)
    (hi : i < E.count) : parentOf rows (idAt i) = parentId (E.tree.parent i) := by
  obtain ⟨p, node, hnode⟩ := Envs.exists_node hi
  obtain ⟨e, hfind, hparent, -⟩ := find_idAt hlinks hle hnode
  rw [Lineage.parent, hnode, parentOf, hfind]
  exact hparent

/-- **The links lead to the root**, along the way in the lineage. -/
theorem rootChain_of_links (hlinks : rows.map RtenvEntry.link = E.links) (hle : E.count ≤ intMax)
    (hi : i < E.count) : RootChain rows (idAt i) ((E.tree.path i).map idAt) := by
  induction i using Nat.strongRecOn with
  | _ i ih =>
    have hparent := parentOf_idAt hlinks hle hi
    rcases hp : E.tree.parent i with - | q
    · rw [E.tree.path_root hp]
      rw [hp] at hparent
      exact .root (hparent ▸ Int32.le_refl 0)
    · have hlt := E.tree.parent_lt hp
      have hq : parentOf rows (idAt i) = idAt q := by rw [hparent, hp]; rfl
      rw [E.tree.path_child hp, List.map_cons]
      refine .link ?_ ?_
      · rw [hq]
        exact Int32.not_le.mpr (idAt_pos (by omega))
      · rw [hq]
        exact ih q hlt (by omega)

/-- The records on the way to the root, merged. -/
theorem mergedOf_path (hle : E.count ≤ intMax) (h : ∀ j ∈ E.tree.path i, E.Readable j) :
    mergedOf (fun id => (E.declaredBy id).apps) (fun id => (E.declaredBy id).vars)
      ((E.tree.path i).map idAt) = E.merged i := by
  have hfold : ∀ (js : List ℕ) (m : Merged), (∀ j ∈ js, E.Readable j) →
      (js.map idAt).foldl
          (fun m id => m.add (E.declaredBy id).apps (E.declaredBy id).vars) m =
        (js.filterMap fun j => E.tree.nodes[j]?.map Prod.snd).foldl Envs.addNode m := by
    intro js
    induction js with
    | nil => exact fun m _ => rfl
    | cons j js ih =>
        intro m hjs
        obtain ⟨p, name, s, hj, -⟩ := hjs j List.mem_cons_self
        have hnode : E.tree.nodes[j]?.map Prod.snd = some ⟨name, some s⟩ := by rw [hj]; rfl
        rw [List.map_cons, List.foldl_cons,
          List.filterMap_cons_some (f := fun j => E.tree.nodes[j]?.map Prod.snd) hnode,
          List.foldl_cons, ih _ fun k hk => hjs k (List.mem_cons_of_mem j hk),
          Envs.declaredBy_idAt hle hj]
        rfl
  rw [mergedOf, Envs.merged, Lineage.inherited, ← List.map_reverse]
  exact hfold _ _ fun j hj => h j (List.mem_reverse.mp hj)

/-- The chain of an environment of a lineage is its way to the root, and the records on it can be
merged. -/
theorem RefinesEnvs.chain (href : RefinesEnvs ws E) (hi : i < E.count)
    (hlen : (E.tree.path i).length ≤ 64) (h : ∀ j ∈ E.tree.path i, E.Readable j) :
    ∃ rows, tpbRafEntryListRtenv ws = .ok rows ws ∧ ¬ReturnsSoon rows (idAt i) ∧
      ancestors rows 64 (idAt i) = (E.tree.path i).map idAt ∧
      ∀ v ∈ ancestors rows 64 (idAt i),
        Stored ws v (E.declaredBy v).apps (E.declaredBy v).vars := by
  obtain ⟨rows, -, hlinks, hlist⟩ := href.list
  have hroot := rootChain_of_links hlinks href.count_le hi
  have hwalk : ancestors rows 64 (idAt i) = (E.tree.path i).map idAt := by
    rw [hroot.ancestors_eq, List.take_of_length_le (by rwa [List.length_map])]
  have hret : ¬ReturnsSoon rows (idAt i) := by
    rw [ReturnsSoon, hroot.ancestors_eq]
    exact not_returnsFrom_of_nodup (hroot.nodup.sublist (List.take_sublist _ _))
  refine ⟨rows, hlist, hret, hwalk, ?_⟩
  intro v hv
  rw [hwalk] at hv
  obtain ⟨j, hj, rfl⟩ := List.mem_map.mp hv
  obtain ⟨p, name, s, hnode, hfits⟩ := h j hj
  rw [Envs.declaredBy_idAt href.count_le hnode]
  exact href.stored j p ⟨name, some s⟩ s hnode rfl hfits

/-- The merge of an environment of a lineage. -/
theorem RefinesEnvs.mergeChain (href : RefinesEnvs ws E) (hi : i < E.count)
    (hlen : (E.tree.path i).length ≤ 64) (h : ∀ j ∈ E.tree.path i, E.Readable j) :
    tpbRtenvMergeChain (idAt i) ws = guarded (.code .misc .cliFail)
      ((E.merged i).InSlots tpbRtenvMergedMaxVar) (E.merged i) ws := by
  obtain ⟨rows, hlist, hret, hwalk, hstored⟩ := href.chain hi hlen h
  rw [tpbRtenvMergeChain_run (fun id => (E.declaredBy id).apps) (fun id => (E.declaredBy id).vars)
    hlist hret hstored, hwalk, mergedOf_path href.count_le h]

end Links

/-- **Merging after a session.** After every sequence of calls, in which any actions may fail,
there is a lineage that the calls mean, and the merge of each of its environments, with at most
64 environments on its way to the root and a record for each of them, is what the environment
inherits and declares; it fails only when there are too few slots for that. -/
theorem rtenv_session_merge {F : Err → Prop} {ws₀ ws : Workspace} {E₀ : Envs}
    {calls : List (RtenvCall × Except Err RtenvDone)} (hinit : RefinesEnvs ws₀ E₀)
    (hrun : Run (CallStep F) ws₀ calls ws) :
    ∃ E, Run (EnvsStep (Faulty F)) E₀ calls E ∧ ∀ i < E.count,
      (E.tree.path i).length ≤ 64 → (∀ j ∈ E.tree.path i, E.Readable j) →
      tpbRtenvMergeChain (idAt i) ws = guarded (.code .misc .cliFail)
        ((E.merged i).InSlots tpbRtenvMergedMaxVar) (E.merged i) ws := by
  obtain ⟨E, hmeans, href⟩ := hrun.simulates hinit callStep_means
  exact ⟨E, hmeans, fun i hi hlen h => href.mergeChain hi hlen h⟩

/-! ### The session with a child -/

section Child

variable {E : Envs}

theorem IsChildLineage.count (h : IsChildLineage E) : E.count = 2 := by
  obtain ⟨name, hnodes⟩ := h.nodes
  rw [Envs.count, hnodes]
  rfl

/-- The way from the child to the root. -/
theorem IsChildLineage.path (h : IsChildLineage E) : E.tree.path 1 = [1, 0] := by
  obtain ⟨name, hnodes⟩ := h.nodes
  have hchild : E.tree.parent 1 = some 0 := by
    rw [Lineage.parent, hnodes]
    rfl
  have hroot : E.tree.parent 0 = none := by
    rw [Lineage.parent, hnodes]
    rfl
  rw [E.tree.path_child hchild, E.tree.path_root hroot]

theorem IsChildLineage.length_path (h : IsChildLineage E) : (E.tree.path 1).length ≤ 64 := by
  rw [h.path]
  exact Nat.le_of_ble_eq_true rfl

theorem IsChildLineage.readable (h : IsChildLineage E) :
    ∀ j ∈ E.tree.path 1, E.Readable j := by
  obtain ⟨name, hnodes⟩ := h.nodes
  rw [h.path, List.forall_mem_cons, List.forall_mem_singleton]
  exact ⟨⟨some 0, [99], _, by rw [hnodes]; rfl, fits_childVar⟩,
    ⟨none, name, _, by rw [hnodes]; rfl, fits_rootVar⟩⟩

/-- The child has the variable of the root, and its own. -/
theorem IsChildLineage.merged (h : IsChildLineage E) :
    E.merged 1 = ⟨[], [rootVar, childVar]⟩ := by
  obtain ⟨name, hnodes⟩ := h.nodes
  rw [Envs.merged, Lineage.inherited, h.path, hnodes]
  rfl

end Child

/-- The child of a snapshot inherits its variable and has another one. -/
theorem rtenv_session_merge_child : ∃ ws,
    Run (CallStep fun _ => False) Workspace.empty childCalls ws ∧
    tpbRtenvMergeChain 2 ws = .ok ⟨[], [rootVar, childVar]⟩ ws := by
  obtain ⟨ws, -, hrun, -⟩ := exists_run_child
  refine ⟨ws, hrun, ?_⟩
  obtain ⟨E, hmeans, hmerge⟩ := rtenv_session_merge refinesEnvs_workspaceEmpty hrun
  have hchild := run_child hmeans
  have htwo := hmerge 1 (by rw [hchild.count]; decide) hchild.length_path hchild.readable
  rw [hchild.merged] at htwo
  exact htwo

end TPBench
