import Mathlib.Data.List.Nodup
import TPBench.Cli.Argp

/-!
# Building an Argument Tree

`tpbcli_argtree_create` allocates a root, and `tpbcli_add_arg` appends a child to a node,
unless the node has a child of that name. The number of a node stands for its address, so a
new node has a number that no node of the tree has.

## Main definitions

* `tpbcliArgtreeCreate`, `tpbcliAddArg`: the two calls.
* `Built`: the trees the two calls can build.
* `ArgNode.nodes`: the nodes of a tree.

## Main results

* `Built.ids_nodup`, `Built.names_nodup`: numbers are unique in a tree, names among
  siblings.
* `ArgNode.parent_unique`: a node has one parent.
-/

open CFile

namespace TPBench

namespace ArgNode

variable {σ : Type}

/-! ### The nodes of a tree -/

mutual

/-- A node and everything below it. -/
def nodes : ArgNode σ → List (ArgNode σ)
  | node i c cs => node i c cs :: nodesOf cs

/-- A list of nodes and everything below them. -/
def nodesOf : List (ArgNode σ) → List (ArgNode σ)
  | [] => []
  | c :: cs => nodes c ++ nodesOf cs

end

theorem nodes_eq (t : ArgNode σ) : t.nodes = t :: nodesOf t.children := by
  cases t
  rw [nodes, children_node]

theorem ids_eq (t : ArgNode σ) : t.ids = t.id :: idsOf t.children := by
  cases t
  rw [ids, id_node, children_node]

theorem mem_nodesOf {n : ArgNode σ} {cs : List (ArgNode σ)} :
    n ∈ nodesOf cs ↔ ∃ c ∈ cs, n ∈ c.nodes := by
  induction cs with
  | nil => simp [nodesOf]
  | cons c cs ih => simp [nodesOf, ih]

theorem mem_idsOf {i : ℕ} {cs : List (ArgNode σ)} : i ∈ idsOf cs ↔ ∃ c ∈ cs, i ∈ c.ids := by
  induction cs with
  | nil => simp [idsOf]
  | cons c cs ih => simp [idsOf, ih]

theorem self_mem_nodes (t : ArgNode σ) : t ∈ t.nodes := by
  rw [nodes_eq]
  exact List.mem_cons_self

theorem id_mem_ids (t : ArgNode σ) : t.id ∈ t.ids := by
  rw [ids_eq]
  exact List.mem_cons_self

/-- A node of a child is a node of the tree. -/
theorem mem_nodes_of_child {t c n : ArgNode σ} (hc : c ∈ t.children) (hn : n ∈ c.nodes) :
    n ∈ t.nodes := by
  rw [nodes_eq]
  exact List.mem_cons_of_mem _ (mem_nodesOf.mpr ⟨c, hc, hn⟩)

/-- Induction over a tree: what holds of a node when it holds of its children holds of every
tree. -/
@[elab_as_elim]
theorem induction {motive : ArgNode σ → Prop}
    (node : ∀ i conf cs, (∀ c ∈ cs, motive c) → motive (.node i conf cs)) (t : ArgNode σ) :
    motive t :=
  match t with
  | .node i conf cs => node i conf cs fun c _ => induction node c

theorem ids_eq_map_nodes (t : ArgNode σ) : t.ids = t.nodes.map id := by
  induction t using ArgNode.induction with
  | node i conf cs ih =>
      have hlist : ∀ ds : List (ArgNode σ), (∀ d ∈ ds, d.ids = d.nodes.map id) →
          idsOf ds = (nodesOf ds).map id := by
        intro ds hds
        induction ds with
        | nil => rfl
        | cons d ds ihds =>
            rw [idsOf, nodesOf, List.map_append, hds d List.mem_cons_self,
              ihds fun e he => hds e (List.mem_cons_of_mem _ he)]
      rw [ids_eq, nodes_eq, List.map_cons, children_node, hlist cs ih]

theorem id_mem_ids_of_mem_nodes {t n : ArgNode σ} (hn : n ∈ t.nodes) : n.id ∈ t.ids := by
  rw [ids_eq_map_nodes]
  exact List.mem_map_of_mem hn

/-- The children of a node of the tree are nodes of the tree. -/
theorem child_mem_nodes {t p c : ArgNode σ} (hp : p ∈ t.nodes) (hc : c ∈ p.children) :
    c ∈ t.nodes := by
  induction t using ArgNode.induction with
  | node i conf cs ih =>
      rw [nodes_eq] at hp
      rcases List.mem_cons.mp hp with rfl | hp
      · exact mem_nodes_of_child hc (self_mem_nodes c)
      · obtain ⟨d, hd, hp⟩ := mem_nodesOf.mp hp
        exact mem_nodes_of_child hd (ih d hd hp)

/-- A child of a node of a tree lies properly below its root. -/
theorem child_mem_nodesOf {t p c : ArgNode σ} (hp : p ∈ t.nodes) (hc : c ∈ p.children) :
    c ∈ nodesOf t.children := by
  rw [nodes_eq] at hp
  rcases List.mem_cons.mp hp with rfl | hp
  · exact mem_nodesOf.mpr ⟨c, hc, self_mem_nodes c⟩
  · obtain ⟨d, hd, hp⟩ := mem_nodesOf.mp hp
    exact mem_nodesOf.mpr ⟨d, hd, child_mem_nodes hp hc⟩

/-! ### Unique numbers -/

section Unique

variable {t p q c d : ArgNode σ} {cs : List (ArgNode σ)} {i : ℕ}

/-- A number that occurs below two siblings occurs below one of them. -/
theorem sibling_unique (hids : (idsOf cs).Nodup) (hc : c ∈ cs) (hd : d ∈ cs) (hi : i ∈ c.ids)
    (hi' : i ∈ d.ids) : c = d := by
  induction cs with
  | nil => cases hc
  | cons e cs ih =>
      rw [idsOf, List.nodup_append'] at hids
      obtain ⟨-, hrest, hdisjoint⟩ := hids
      rcases List.mem_cons.mp hc with rfl | hc' <;> rcases List.mem_cons.mp hd with rfl | hd'
      · rfl
      · exact (hdisjoint hi (mem_idsOf.mpr ⟨d, hd', hi'⟩)).elim
      · exact (hdisjoint hi' (mem_idsOf.mpr ⟨c, hc', hi⟩)).elim
      · exact ih hrest hc' hd'

theorem ids_nodup_of_mem (hids : (idsOf cs).Nodup) (hc : c ∈ cs) : c.ids.Nodup := by
  induction cs with
  | nil => cases hc
  | cons e cs ih =>
      rw [idsOf, List.nodup_append'] at hids
      rcases List.mem_cons.mp hc with rfl | hc
      · exact hids.1
      · exact ih hids.2.1 hc

/-- A node is known by its number. -/
theorem node_unique (hids : t.ids.Nodup) (hp : p ∈ t.nodes) (hq : q ∈ t.nodes)
    (hid : p.id = q.id) : p = q := by
  rw [ids_eq_map_nodes] at hids
  exact List.inj_on_of_nodup_map hids hp hq hid

/-- **A node has one parent.** -/
theorem parent_unique (hids : t.ids.Nodup) (hp : p ∈ t.nodes) (hq : q ∈ t.nodes)
    (hcp : c ∈ p.children) (hcq : c ∈ q.children) : p = q := by
  induction t using ArgNode.induction with
  | node i conf cs ih =>
      rw [ids_eq, List.nodup_cons] at hids
      -- a child of the root is not a child of a node below the root
      have hroot : ∀ q, c ∈ cs → q ∈ nodesOf cs → c ∉ q.children := by
        intro q hc hq hcq
        obtain ⟨d, hd, hq⟩ := mem_nodesOf.mp hq
        have hbelow := child_mem_nodesOf hq hcq
        obtain rfl : c = d := sibling_unique hids.2 hc hd (id_mem_ids c)
          (id_mem_ids_of_mem_nodes (child_mem_nodes hq hcq))
        have hnodup := ids_nodup_of_mem hids.2 hc
        rw [ids_eq, List.nodup_cons] at hnodup
        obtain ⟨e, he, hce⟩ := mem_nodesOf.mp hbelow
        exact hnodup.1 (mem_idsOf.mpr ⟨e, he, id_mem_ids_of_mem_nodes hce⟩)
      rw [nodes_eq] at hp hq
      rcases List.mem_cons.mp hp with rfl | hp <;> rcases List.mem_cons.mp hq with rfl | hq
      · rfl
      · exact absurd hcq (hroot q hcp hq)
      · exact absurd hcp (hroot p hcq hp)
      · obtain ⟨d, hd, hp⟩ := mem_nodesOf.mp hp
        obtain ⟨e, he, hq⟩ := mem_nodesOf.mp hq
        obtain rfl : d = e := sibling_unique hids.2 hd he
          (id_mem_ids_of_mem_nodes (child_mem_nodes hp hcp))
          (id_mem_ids_of_mem_nodes (child_mem_nodes hq hcq))
        exact ih d hd (ids_nodup_of_mem hids.2 hd) hp hq

/-- A child has fewer nodes than its parent. -/
theorem length_ids_child (hc : c ∈ p.children) : c.ids.length < p.ids.length := by
  have hlist : ∀ cs : List (ArgNode σ), c ∈ cs → c.ids.length ≤ (idsOf cs).length := by
    intro cs hc
    induction cs with
    | nil => cases hc
    | cons d cs ih =>
        rw [idsOf, List.length_append]
        rcases List.mem_cons.mp hc with rfl | hc
        · omega
        · have := ih hc
          omega
  rw [ids_eq p, List.length_cons]
  exact Nat.lt_succ_of_le (hlist _ hc)

end Unique

/-! ### Adding a node -/

mutual

/-- `tpbcli_add_arg`, with the tree around the node `parent`: a child is appended to it,
unless it has a child of that name. -/
def addArg (parent newId : ℕ) (new : ArgConf σ) : ArgNode σ → ArgNode σ
  | node i conf cs =>
      if i = parent then
        if (sfFindChildByName (node i conf cs) new.name).isSome then node i conf cs
        else node i conf (cs ++ [node newId new []])
      else node i conf (addArgOf parent newId new cs)

/-- The same in a list of trees. -/
def addArgOf (parent newId : ℕ) (new : ArgConf σ) : List (ArgNode σ) → List (ArgNode σ)
  | [] => []
  | c :: cs => addArg parent newId new c :: addArgOf parent newId new cs

end

/-- The names of the children of every node are distinct. -/
def NamesNodup (t : ArgNode σ) : Prop := ∀ p ∈ t.nodes, (p.children.map (·.conf.name)).Nodup

section AddArg

variable {t c : ArgNode σ} {cs : List (ArgNode σ)} {parent newId i : ℕ} {new conf : ArgConf σ}

theorem addArgOf_eq_map (cs : List (ArgNode σ)) :
    addArgOf parent newId new cs = cs.map (addArg parent newId new) := by
  induction cs with
  | nil => rfl
  | cons c cs ih => rw [addArgOf, ih, List.map_cons]

theorem idsOf_eq_flatMap (cs : List (ArgNode σ)) : idsOf cs = cs.flatMap ids := by
  induction cs with
  | nil => rfl
  | cons c cs ih => rw [idsOf, ih, List.flatMap_cons]

@[simp] theorem conf_addArg (t : ArgNode σ) : (addArg parent newId new t).conf = t.conf := by
  cases t
  rw [addArg]
  split_ifs <;> rfl

/-- What a call does to a node: its children are what they were, or there is a new one of a
new name, or the call went on to the children. -/
theorem addArg_cases (parent newId : ℕ) (new : ArgConf σ) (t : ArgNode σ) :
    addArg parent newId new t = t ∨
    (t.id = parent ∧ new.name ∉ t.children.map (·.conf.name) ∧
      addArg parent newId new t = node t.id t.conf (t.children ++ [node newId new []])) ∨
    (t.id ≠ parent ∧ addArg parent newId new t =
      node t.id t.conf (t.children.map (addArg parent newId new))) := by
  obtain ⟨i, conf, cs⟩ := t
  rw [addArg]
  split_ifs with hi hname
  · exact .inl rfl
  · refine .inr (.inl ⟨hi, ?_, rfl⟩)
    intro hmem
    obtain ⟨c, hc, hcname⟩ := List.mem_map.mp hmem
    apply hname
    rw [sfFindChildByName, List.find?_isSome]
    exact ⟨c, hc, decide_eq_true hcname⟩
  · exact .inr (.inr ⟨hi, by rw [addArgOf_eq_map]; rfl⟩)

/-- The numbers after a call: those there were, and the new one if the parent is there. -/
theorem mem_ids_addArg (hi : i ∈ (addArg parent newId new t).ids) :
    i ∈ t.ids ∨ i = newId ∧ parent ∈ t.ids := by
  induction t using ArgNode.induction with
  | node j conf cs ih =>
      rcases addArg_cases parent newId new (node j conf cs) with heq | ⟨hj, -, heq⟩ | ⟨-, heq⟩
      · rw [heq] at hi
        exact .inl hi
      · rw [heq, ids, idsOf_eq_flatMap, List.flatMap_append] at hi
        rw [ids, idsOf_eq_flatMap]
        simp only [ids, idsOf, id_node, children_node, List.flatMap_cons, List.flatMap_nil,
          List.append_nil, List.mem_cons, List.mem_append, List.not_mem_nil, or_false] at hi hj ⊢
        rcases hi with rfl | hi | rfl
        · exact .inl (.inl rfl)
        · exact .inl (.inr hi)
        · exact .inr ⟨rfl, .inl hj.symm⟩
      · rw [heq, ids, List.mem_cons] at hi
        rw [ids, List.mem_cons, List.mem_cons]
        rcases hi with rfl | hi
        · exact .inl (.inl rfl)
        · obtain ⟨d, hd, hi⟩ := mem_idsOf.mp hi
          obtain ⟨c, hc, rfl⟩ := List.mem_map.mp hd
          rcases ih c hc hi with hi | ⟨rfl, hparent⟩
          · exact .inl (.inr (mem_idsOf.mpr ⟨c, hc, hi⟩))
          · exact .inr ⟨rfl, .inr (mem_idsOf.mpr ⟨c, hc, hparent⟩)⟩

/-- A call with a new number keeps the numbers unique: the parent is in one subtree only. -/
theorem ids_nodup_addArg (hids : t.ids.Nodup) (hnew : newId ∉ t.ids) :
    (addArg parent newId new t).ids.Nodup := by
  induction t using ArgNode.induction with
  | node j conf cs ih =>
      rw [ids, List.nodup_cons, idsOf_eq_flatMap, List.nodup_flatMap] at hids
      rw [ids, List.mem_cons, idsOf_eq_flatMap, List.mem_flatMap] at hnew
      push Not at hnew
      obtain ⟨hj, hnodup, hdisjoint⟩ := hids
      obtain ⟨hnewj, hnew⟩ := hnew
      rcases addArg_cases parent newId new (node j conf cs) with heq | ⟨-, -, heq⟩ | ⟨hne, heq⟩
      · rw [heq, ids, List.nodup_cons, idsOf_eq_flatMap, List.nodup_flatMap]
        exact ⟨hj, hnodup, hdisjoint⟩
      · rw [heq, ids, List.nodup_cons, idsOf_eq_flatMap, List.flatMap_append,
          List.nodup_append', List.mem_append, List.nodup_flatMap]
        simp only [ids, idsOf, id_node, children_node, List.flatMap_cons, List.flatMap_nil,
          List.append_nil, List.mem_singleton, List.nodup_singleton, List.disjoint_singleton,
          List.mem_flatMap]
        rw [List.mem_flatMap] at hj
        refine ⟨?_, ⟨hnodup, hdisjoint⟩, trivial, ?_⟩
        · rintro (hmem | rfl)
          · exact hj hmem
          · exact hnewj rfl
        · rintro ⟨c, hc, hi⟩
          exact hnew c hc hi
      · rw [heq, ids, List.nodup_cons, idsOf_eq_flatMap, List.nodup_flatMap]
        simp only [children_node, id_node, List.mem_flatMap, List.mem_map, List.pairwise_map,
          exists_exists_and_eq_and, forall_exists_index, and_imp, forall_apply_eq_imp_iff₂]
        rw [List.mem_flatMap] at hj
        refine ⟨?_, fun c hc => ih c hc (hnodup c hc) (hnew c hc), ?_⟩
        · rintro ⟨c, hc, hi⟩
          rcases mem_ids_addArg hi with hi | ⟨rfl, -⟩
          · exact hj ⟨c, hc, hi⟩
          · exact hnewj rfl
        · refine hdisjoint.imp_of_mem ?_
          intro c d hc hd hcd i hic hid
          rcases mem_ids_addArg hic with hold | ⟨rfl, hparent⟩
          · rcases mem_ids_addArg hid with hold' | ⟨rfl, -⟩
            · exact hcd hold hold'
            · exact hnew c hc hold
          · rcases mem_ids_addArg hid with hold' | ⟨-, hparent'⟩
            · exact hnew d hd hold'
            · exact hcd hparent hparent'

/-- A call keeps the names of siblings distinct. -/
theorem namesNodup_addArg (hnames : t.NamesNodup) :
    (addArg parent newId new t).NamesNodup := by
  induction t using ArgNode.induction with
  | node j conf cs ih =>
      have hself := hnames _ (self_mem_nodes _)
      have hbelow : ∀ c ∈ cs, c.NamesNodup := fun c hc p hp =>
        hnames p (mem_nodes_of_child hc hp)
      rcases addArg_cases parent newId new (node j conf cs) with heq | ⟨-, hname, heq⟩ | ⟨-, heq⟩
      · rw [heq]
        exact hnames
      · rw [heq]
        intro p hp
        rw [nodes_eq] at hp
        rcases List.mem_cons.mp hp with rfl | hp
        · rw [children_node, List.map_append]
          refine List.nodup_append'.mpr ⟨hself, List.nodup_singleton _, ?_⟩
          rw [List.map_singleton, List.disjoint_singleton]
          exact hname
        · obtain ⟨c, hc, hp⟩ := mem_nodesOf.mp hp
          rcases List.mem_append.mp hc with hc | hc
          · exact hbelow c hc p hp
          · rw [List.mem_singleton.mp hc, nodes_eq] at hp
            obtain rfl := List.mem_singleton.mp hp
            exact List.nodup_nil
      · rw [heq]
        intro p hp
        rw [nodes_eq] at hp
        rcases List.mem_cons.mp hp with rfl | hp
        · rw [children_node, List.map_map]
          have hconf : (fun c : ArgNode σ => c.conf.name) ∘ addArg parent newId new =
              fun c => c.conf.name := by
            funext c
            rw [Function.comp_apply, conf_addArg]
          rw [hconf]
          exact hself
        · obtain ⟨d, hd, hp⟩ := mem_nodesOf.mp hp
          obtain ⟨c, hc, rfl⟩ := List.mem_map.mp hd
          exact ih c hc (hbelow c hc) p hp

end AddArg

end ArgNode

/-! ### The trees that are built -/

section Built

variable {σ : Type}

/-- `tpbcli_argtree_create`. -/
def tpbcliArgtreeCreate (newId : ℕ) (progName : Bytes) : ArgNode σ :=
  .node newId (rootConf progName) []

/-- `tpbcli_add_arg` on the node `parent` of a tree. -/
def tpbcliAddArg (parent newId : ℕ) (conf : ArgConf σ) (t : ArgNode σ) : ArgNode σ :=
  t.addArg parent newId conf

/-- The trees that the two calls can build, the parent of a call being any number. -/
inductive Built : ArgNode σ → Prop
  | create (newId : ℕ) (progName : Bytes) : Built (tpbcliArgtreeCreate newId progName)
  | addArg {t : ArgNode σ} (parent newId : ℕ) (conf : ArgConf σ) :
      Built t → newId ∉ t.ids → Built (tpbcliAddArg parent newId conf t)

variable {t : ArgNode σ}

/-- The numbers of a tree are unique. -/
theorem Built.ids_nodup (h : Built t) : t.ids.Nodup := by
  induction h with
  | create newId progName => simp [tpbcliArgtreeCreate, ArgNode.ids, ArgNode.idsOf]
  | addArg parent newId conf _ hnew ih => exact ArgNode.ids_nodup_addArg ih hnew

/-- The names of siblings are distinct. -/
theorem Built.names_nodup (h : Built t) : t.NamesNodup := by
  induction h with
  | create newId progName =>
      intro p hp
      rw [ArgNode.nodes_eq] at hp
      obtain rfl := List.mem_singleton.mp hp
      exact List.nodup_nil
  | addArg parent newId conf _ _ ih => exact ArgNode.namesNodup_addArg ih

end Built

end TPBench
