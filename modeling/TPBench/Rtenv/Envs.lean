import TPBench.Lineage
import TPBench.Rtenv.Active
import TPBench.Rtenv.Chain
import TPBench.Rtenv.Unique
import TPBench.Rtenv.Updates

/-!
# The Lineage of the Environments

The table of runtime environments, with its records and the base ID, stands for a lineage:
environments that came one after another, each with a parent among the earlier ones or without
a parent, and one of them the base (`Envs`). The ID of an environment is its place in the
lineage, counted from one. `RefinesEnvs ws E` connects the two, and says what the workspace
stores for each environment.

What writes to the workspace changes the lineage in one of three ways, or not at all: a row is
one more environment (`RefinesEnvs.append`), a record is what the last environment declares
(`RefinesEnvs.write`), and the base ID is another base (`RefinesEnvs.setBase`). Registering a
child and counting leave the lineage as it is (`RefinesEnvs.rewrite`, `RefinesEnvs.patchRows`,
`RefinesEnvs.patchRecord`).
-/

open CFile Conc

namespace TPBench

/-! ### The lineage -/

/-- What the record of an environment declares. -/
structure Settings where
  apps : List MergedApp
  vars : List EnvVar

/-- The strings of the variables fit into the slots of a merge. -/
def Settings.Fits (s : Settings) : Prop := ∀ x ∈ s.vars, x.Fits

/-- An environment: its name, and what it declares, once its record is written. -/
structure EnvNode where
  name : Bytes
  settings : Option Settings

/-- The environments of a workspace, and which of them is the base. -/
structure Envs where
  tree : Lineage EnvNode
  base : Option ℕ
  base_lt : ∀ b ∈ base, b < tree.nodes.length

/-- The ID of the environment at a place. -/
def idAt (i : ℕ) : Int32 := Int32.ofNat (i + 1)

/-- The ID of a parent; zero is none. -/
def parentId (p : Option ℕ) : Int32 := p.elim 0 idAt

theorem toInt_idAt {i : ℕ} (h : i < intMax) : (idAt i).toInt = (i : ℤ) + 1 := by
  rw [intMax] at h
  rw [idAt, Int32.toInt_ofNat_of_lt]
  · omega
  · omega

theorem idAt_inj {i j : ℕ} (hi : i < intMax) (hj : j < intMax) : idAt i = idAt j ↔ i = j := by
  rw [← Int32.toInt_inj, toInt_idAt hi, toInt_idAt hj]
  omega

theorem idAt_pos {i : ℕ} (h : i < intMax) : 0 < idAt i := by
  have hzero : (0 : Int32).toInt = 0 := rfl
  rw [Int32.lt_iff_toInt_lt, toInt_idAt h, hzero]
  omega

namespace Envs

/-- No environments. -/
def empty : Envs where
  tree := Lineage.empty
  base := none
  base_lt := by
    intro b hb
    cases hb

variable (E : Envs)

/-- The number of environments. -/
def count : ℕ := E.tree.nodes.length

/-- The names of the environments. -/
def names : List Bytes := E.tree.nodes.map fun n => n.2.name

/-- What a row says of the environment at a place: the ID, the parent and the name. -/
def linkOf (n : (Option ℕ × EnvNode) × ℕ) : Int32 × Int32 × Bytes :=
  (idAt n.2, parentId n.1.1, n.1.2.name)

/-- What the rows say. -/
def links : List (Int32 × Int32 × Bytes) := E.tree.nodes.zipIdx.map linkOf

/-- One more environment. -/
def add (p : Option ℕ) (node : EnvNode) (h : ∀ q ∈ p, q < E.count) : Envs where
  tree := E.tree.add p node h
  base := E.base
  base_lt := by
    intro b hb
    have hlt : b < (E.tree.nodes ++ [(p, node)]).length := by
      rw [List.length_append]
      exact Nat.lt_add_right _ (E.base_lt b hb)
    exact hlt

/-- Another base. -/
def rebase (b : ℕ) (h : b < E.count) : Envs where
  tree := E.tree
  base := some b
  base_lt := by
    rintro _ ⟨⟩
    exact h

variable {E} {p : Option ℕ} {node : EnvNode} {h : ∀ q ∈ p, q < E.count}

theorem lt_count {i : ℕ} {n : Option ℕ × EnvNode} (hi : E.tree.nodes[i]? = some n) :
    i < E.count := (List.getElem?_eq_some_iff.mp hi).1

theorem exists_node {i : ℕ} (hi : i < E.count) :
    ∃ p node, E.tree.nodes[i]? = some (p, node) := ⟨_, _, List.getElem?_eq_getElem hi⟩

theorem nodes_add : (E.add p node h).tree.nodes = E.tree.nodes ++ [(p, node)] := rfl

theorem count_add : (E.add p node h).count = E.count + 1 := by
  rw [count, nodes_add, List.length_append, List.length_singleton, count]

theorem links_add : (E.add p node h).links =
    E.links ++ [(idAt E.count, parentId p, node.name)] := by
  rw [links, nodes_add, List.zipIdx_append, List.map_append]
  simp [links, linkOf, count]

theorem getElem?_links (i : ℕ) :
    E.links[i]? = E.tree.nodes[i]?.map fun n => linkOf (n, i) := by
  rw [links, List.getElem?_map, List.getElem?_zipIdx, Option.map_map]
  simp only [Nat.zero_add]
  rfl

theorem length_links : E.links.length = E.count := by
  rw [links, List.length_map, List.length_zipIdx, count]

/-- Where a new environment lies, and where those lie that were there. -/
theorem getElem?_nodes_add {i : ℕ} {q : Option ℕ} {n : EnvNode}
    (hi : (E.add p node h).tree.nodes[i]? = some (q, n)) :
    E.tree.nodes[i]? = some (q, n) ∨ i = E.count ∧ q = p ∧ n = node := by
  rw [nodes_add] at hi
  rcases Nat.lt_or_ge i E.count with hlt | hge
  · rw [List.getElem?_append_left hlt] at hi
    exact .inl hi
  · rw [List.getElem?_append_right hge] at hi
    obtain ⟨hlt, heq⟩ := List.getElem?_eq_some_iff.mp hi
    rw [List.getElem_singleton] at heq
    rw [List.length_singleton] at hlt
    cases heq
    have hlast : i = E.count := le_antisymm (by rw [count]; omega) hge
    exact .inr ⟨hlast, rfl, rfl⟩

end Envs

/-! ### Refinement -/

/-- What the lineage knows of a row. -/
def RtenvEntry.link (e : RtenvEntry) : Int32 × Int32 × Bytes :=
  (e.id, e.inheritFrom, cstr e.name.toList)

/-- A file of an environment is a record with its ID. -/
def Recorded (ws : Workspace) (id : Int32) : Prop :=
  ∀ bytes, ws.files (.rtenv id) = some bytes →
    ∃ r : Record rtenvFormat, bytes = r.bytes ∧ r.attr.id = id

/-- The workspace has the environments of a lineage: a row for each, with numbers that an `int`
can count, the base ID, and the records of what they declare, as far as a merge can read it. -/
structure RefinesEnvs (ws : Workspace) (E : Envs) : Prop where
  count_le : E.count ≤ intMax
  rows : ∃ rows, rtenvRow.Holds ws rows ∧ rows.map RtenvEntry.link = E.links
  base : ws.baseId = E.base.map idAt
  recorded : ∀ id, Recorded ws id
  stored : ∀ i p node s, E.tree.nodes[i]? = some (p, node) → node.settings = some s → s.Fits →
    Stored ws (idAt i) s.apps s.vars

section Rows

variable {ws : Workspace} {E : Envs} {rows : List RtenvEntry}

/-- A workspace without environments. -/
theorem refinesEnvs_empty (hrows : rtenvRow.Holds ws []) (hbase : ws.baseId = none)
    (hrecorded : ∀ id, Recorded ws id) : RefinesEnvs ws .empty where
  count_le := Nat.zero_le _
  rows := ⟨[], hrows, rfl⟩
  base := hbase
  recorded := hrecorded
  stored := by
    intro i p node s hi
    cases hi

theorem length_of_links (hlinks : rows.map RtenvEntry.link = E.links) : rows.length = E.count := by
  rw [← Envs.length_links, ← hlinks, List.length_map]

/-- The environment of a row. -/
theorem node_of_row (hlinks : rows.map RtenvEntry.link = E.links) {e : RtenvEntry}
    (he : e ∈ rows) : ∃ i p node, E.tree.nodes[i]? = some (p, node) ∧ e.id = idAt i ∧
      e.inheritFrom = parentId p ∧ cstr e.name.toList = node.name := by
  have hmem : e.link ∈ E.links := hlinks ▸ List.mem_map_of_mem he
  obtain ⟨i, hi⟩ := List.mem_iff_getElem?.mp hmem
  rw [Envs.getElem?_links, Option.map_eq_some_iff] at hi
  obtain ⟨⟨p, node⟩, hnode, hlink⟩ := hi
  simp only [RtenvEntry.link, Envs.linkOf, Prod.mk.injEq] at hlink
  exact ⟨i, p, node, hnode, hlink.1.symm, hlink.2.1.symm, hlink.2.2.symm⟩

/-- The row of an environment. -/
theorem row_of_node (hlinks : rows.map RtenvEntry.link = E.links) {i : ℕ} {p : Option ℕ}
    {node : EnvNode} (hi : E.tree.nodes[i]? = some (p, node)) :
    ∃ e, rows[i]? = some e ∧ e.id = idAt i ∧ e.inheritFrom = parentId p ∧
      cstr e.name.toList = node.name := by
  have hlink := Envs.getElem?_links (E := E) i
  rw [hi, ← hlinks, List.getElem?_map, Option.map_some, Option.map_eq_some_iff] at hlink
  obtain ⟨e, he, hlink⟩ := hlink
  simp only [RtenvEntry.link, Envs.linkOf, Prod.mk.injEq] at hlink
  exact ⟨e, he, hlink.1, hlink.2.1, hlink.2.2⟩

/-- The row that is found by the ID of an environment. -/
theorem find_idAt (hlinks : rows.map RtenvEntry.link = E.links) (hle : E.count ≤ intMax) {i : ℕ}
    {p : Option ℕ} {node : EnvNode} (hi : E.tree.nodes[i]? = some (p, node)) :
    ∃ e, rows.find? (·.id = idAt i) = some e ∧ e.inheritFrom = parentId p ∧
      cstr e.name.toList = node.name := by
  obtain ⟨e, he, hid, -⟩ := row_of_node hlinks hi
  have hlt := Envs.lt_count hi
  rcases hfind : rows.find? (·.id = idAt i) with - | f
  · have hnone := List.find?_eq_none.mp hfind e (List.mem_of_getElem? he)
    simp [hid] at hnone
  · obtain ⟨j, q, node', hj, hid', hparent, hname⟩ :=
      node_of_row hlinks (List.mem_of_find?_eq_some hfind)
    have hsame : f.id = idAt i := by simpa using List.find?_some hfind
    have hlt' := Envs.lt_count hj
    obtain rfl : j = i := by
      rwa [hid', idAt_inj (by omega) (by omega)] at hsame
    obtain ⟨rfl, rfl⟩ := Prod.mk.inj (Option.some.inj (hj.symm.trans hi))
    exact ⟨f, hfind, hparent, hname⟩

/-- The rows are listed. -/
theorem RefinesEnvs.list (href : RefinesEnvs ws E) : ∃ rows, rtenvRow.Holds ws rows ∧
    rows.map RtenvEntry.link = E.links ∧ tpbRafEntryListRtenv ws = .ok rows ws := by
  obtain ⟨rows, hrows, hlinks⟩ := href.rows
  exact ⟨rows, hrows, hlinks, entryListRows_ok hrows (length_of_links hlinks ▸ href.count_le)⟩

/-- An ID is listed when it is that of an environment. -/
theorem id_listed_iff (hlinks : rows.map RtenvEntry.link = E.links) {id : Int32} :
    (∃ e ∈ rows, e.id = id) ↔ ∃ i, i < E.count ∧ idAt i = id := by
  constructor
  · rintro ⟨e, he, rfl⟩
    obtain ⟨i, p, node, hi, hid, -⟩ := node_of_row hlinks he
    exact ⟨i, Envs.lt_count hi, hid.symm⟩
  · rintro ⟨i, hi, rfl⟩
    obtain ⟨p, node, hnode⟩ := Envs.exists_node hi
    obtain ⟨e, he, hid, -⟩ := row_of_node hlinks hnode
    exact ⟨e, List.mem_of_getElem? he, hid⟩

/-- A name is listed when an environment has it. -/
theorem name_listed_iff (hlinks : rows.map RtenvEntry.link = E.links) {name : Bytes} :
    (∃ e ∈ rows, cstr e.name.toList = name) ↔ name ∈ E.names := by
  rw [Envs.names, List.mem_map]
  constructor
  · rintro ⟨e, he, rfl⟩
    obtain ⟨i, p, node, hi, -, -, hname⟩ := node_of_row hlinks he
    exact ⟨(p, node), List.mem_of_getElem? hi, hname.symm⟩
  · rintro ⟨⟨p, node⟩, hnode, rfl⟩
    obtain ⟨i, hi⟩ := List.mem_iff_getElem?.mp hnode
    obtain ⟨e, he, -, -, hname⟩ := row_of_node hlinks hi
    exact ⟨e, List.mem_of_getElem? he, hname⟩

/-- The largest ID is that of a row, if there is one. -/
theorem maxId_mem (rows : List RtenvEntry) : maxId rows = 0 ∨ ∃ e ∈ rows, e.id = maxId rows := by
  have hloop : ∀ (rows : List RtenvEntry) (m : Int32),
      rows.foldl (fun maxId e => if maxId < e.id then e.id else maxId) m = m ∨ ∃ e ∈ rows,
        e.id = rows.foldl (fun maxId e => if maxId < e.id then e.id else maxId) m := by
    intro rows
    induction rows with
    | nil => exact fun m => .inl rfl
    | cons f rows ih =>
        intro m
        rw [List.foldl_cons]
        rcases ih (if m < f.id then f.id else m) with hm | ⟨e, he, hid⟩
        · rw [hm]
          split
          · exact .inr ⟨f, List.mem_cons_self, rfl⟩
          · exact .inl rfl
        · exact .inr ⟨e, List.mem_cons_of_mem f he, hid⟩
  exact hloop rows 0

/-- The largest ID is that of the last environment. -/
theorem toInt_maxId (hlinks : rows.map RtenvEntry.link = E.links) (hle : E.count ≤ intMax) :
    (maxId rows).toInt = E.count := by
  have hzero : (0 : Int32).toInt = 0 := rfl
  have hle_max : (E.count : ℤ) ≤ (maxId rows).toInt := by
    rcases Nat.eq_zero_or_pos E.count with hnone | hpos
    · rw [hnone, Int.natCast_zero, ← hzero]
      exact Int32.le_iff_toInt_le.mp (foldl_maxId_ge rows 0).1
    · obtain ⟨p, node, hnode⟩ := Envs.exists_node (Nat.sub_lt hpos Nat.one_pos)
      obtain ⟨e, he, hid, -⟩ := row_of_node hlinks hnode
      have hmax := Int32.le_iff_toInt_le.mp ((foldl_maxId_ge rows 0).2 e (List.mem_of_getElem? he))
      rw [hid, toInt_idAt (by omega)] at hmax
      rw [maxId]
      omega
  rcases maxId_mem rows with hmax | ⟨e, he, hid⟩
  · rw [hmax, hzero] at hle_max ⊢
    omega
  · obtain ⟨i, hi, heq⟩ := (id_listed_iff hlinks).mp ⟨e, he, hid⟩
    rw [← heq, toInt_idAt (by omega)] at hle_max ⊢
    omega

end Rows

/-! ### What changes the lineage -/

section Effects

variable {ws : Workspace} {E : Envs} {rows : List RtenvEntry} {p : Option ℕ} {name : Bytes}
  {hp : ∀ q ∈ p, q < E.count}

/-- A new row is an environment that has no record yet. -/
theorem RefinesEnvs.append (href : RefinesEnvs ws E) (hroom : E.count < intMax)
    (hlinks : rows.map RtenvEntry.link = E.links) {e : RtenvEntry} (hid : e.id = idAt E.count)
    (hparent : e.inheritFrom = parentId p) (hname : cstr e.name.toList = name) :
    RefinesEnvs (ws.set (.entry .rtenv) (rtenvRow.table (rows ++ [e])))
      (E.add p ⟨name, none⟩ hp) where
  count_le := by
    rw [Envs.count_add]
    exact hroom
  rows := by
    refine ⟨rows ++ [e], .inl (ws.set_files_same _ _), ?_⟩
    rw [List.map_append, hlinks, Envs.links_add, List.map_singleton, RtenvEntry.link, hid,
      hparent, hname]
  base := href.base
  recorded := by
    intro id bytes hbytes
    rw [ws.set_files_of_ne _ (by simp)] at hbytes
    exact href.recorded id bytes hbytes
  stored := by
    intro i q node s hi hs hfits
    rcases Envs.getElem?_nodes_add hi with hold | ⟨-, -, rfl⟩
    · exact (href.stored i q node s hold hs hfits).of_files (ws.set_files_of_ne _ (by simp))
    · cases hs

/-- A record is what the last environment declares. -/
theorem RefinesEnvs.write {o : Option Settings} (href : RefinesEnvs ws (E.add p ⟨name, o⟩ hp))
    {r : Record rtenvFormat} (hid : r.attr.id = idAt E.count) {s : Settings}
    (hs : s.Fits → Declares r.view s.apps s.vars [] []) :
    RefinesEnvs (ws.set (.rtenv r.attr.id) r.bytes) (E.add p ⟨name, some s⟩ hp) where
  count_le := by
    have hle := href.count_le
    rwa [Envs.count_add] at hle ⊢
  rows := by
    obtain ⟨rows, hrows, hlinks⟩ := href.rows
    rw [Envs.links_add] at hlinks
    refine ⟨rows, ?_, by rw [hlinks, Envs.links_add]⟩
    rw [RowFormat.Holds, ws.set_files_of_ne _ (by simp)]
    exact hrows
  base := href.base
  recorded := by
    intro id bytes hbytes
    by_cases hsame : id = r.attr.id
    · subst hsame
      rw [ws.set_files_same] at hbytes
      cases hbytes
      exact ⟨r, rfl, rfl⟩
    · rw [ws.set_files_of_ne _ (by simpa using hsame)] at hbytes
      exact href.recorded id bytes hbytes
  stored := by
    have hroom : E.count < intMax := by
      have hle := href.count_le
      rwa [Envs.count_add] at hle
    intro i q node s' hi hs' hfits
    rcases Envs.getElem?_nodes_add hi with hold | ⟨rfl, -, rfl⟩
    · -- the record of another environment stays
      have hlt := Envs.lt_count hold
      have hne : idAt i ≠ r.attr.id := by
        rw [hid, ne_eq, idAt_inj (by omega) hroom]
        omega
      have hnode : (E.add p ⟨name, o⟩ hp).tree.nodes[i]? = some (q, node) := by
        rw [Envs.nodes_add, List.getElem?_append_left hlt, hold]
      exact (href.stored i q node s' hnode hs' hfits).of_files
        (ws.set_files_of_ne _ (by simpa using hne))
    · cases hs'
      rw [hid, ← hid]
      exact stored_set (hs hfits)

/-- A record that is written again declares what it did. -/
theorem RefinesEnvs.rewrite (href : RefinesEnvs ws E) {r r' : Record rtenvFormat}
    (hfile : ws.files (.rtenv r.attr.id) = some r.bytes) (hid : r'.attr.id = r.attr.id)
    (hkeep : ∀ {apps vars tail ids}, Declares r.view apps vars tail ids →
      ∃ tail' ids', Declares r'.view apps vars tail' ids') :
    RefinesEnvs (ws.set (.rtenv r.attr.id) r'.bytes) E where
  count_le := href.count_le
  rows := by
    obtain ⟨rows, hrows, hlinks⟩ := href.rows
    refine ⟨rows, ?_, hlinks⟩
    rw [RowFormat.Holds, ws.set_files_of_ne _ (by simp)]
    exact hrows
  base := href.base
  recorded := by
    intro id bytes hbytes
    by_cases hsame : id = r.attr.id
    · subst hsame
      rw [ws.set_files_same] at hbytes
      cases hbytes
      exact ⟨r', rfl, hid⟩
    · rw [ws.set_files_of_ne _ (by simpa using hsame)] at hbytes
      exact href.recorded id bytes hbytes
  stored := by
    intro i q node s hi hs hfits
    have hstored := href.stored i q node s hi hs hfits
    by_cases hsame : idAt i = r.attr.id
    · rw [hsame] at hstored ⊢
      obtain ⟨r₀, hr₀, -, tail, ids, d⟩ := hstored
      have hbytes : r₀.bytes = r.bytes := Option.some.inj (hr₀.symm.trans hfile)
      rw [Record.view_eq_of_bytes hbytes] at d
      obtain ⟨tail', ids', d'⟩ := hkeep d
      exact ⟨r', ws.set_files_same _ _, hid, tail', ids', d'⟩
    · exact hstored.of_files (ws.set_files_of_ne _ (by simpa using hsame))

/-- The links of rows of which one has been patched. -/
theorem map_link_modifyFirst {q : RtenvEntry → Bool} {f : RtenvEntry → RtenvEntry}
    (hf : ∀ e, (f e).link = e.link) (rows : List RtenvEntry) :
    (modifyFirst q f rows).map RtenvEntry.link = rows.map RtenvEntry.link := by
  rw [modifyFirst]
  refine List.ext_getElem? fun j => ?_
  rw [List.getElem?_map, List.getElem?_map, List.getElem?_modify]
  rcases rows[j]? with - | e
  · rfl
  · by_cases hj : rows.findIdx q = j
    · simp [hj, hf]
    · simp [hj]

/-- A patch of the rows that keeps IDs, parents and names keeps the lineage. -/
theorem RefinesEnvs.patchRows (href : RefinesEnvs ws E) {rows' : List RtenvEntry}
    (hrows : rtenvRow.Holds ws rows)
    (hlinks : rows'.map RtenvEntry.link = rows.map RtenvEntry.link) :
    RefinesEnvs (ws.set (.entry .rtenv) (rtenvRow.table rows')) E where
  count_le := href.count_le
  rows := by
    obtain ⟨rows₀, hrows₀, hlinks₀⟩ := href.rows
    obtain rfl := hrows.unique hrows₀
    exact ⟨rows', .inl (ws.set_files_same _ _), hlinks.trans hlinks₀⟩
  base := href.base
  recorded := by
    intro id bytes hbytes
    rw [ws.set_files_of_ne _ (by simp)] at hbytes
    exact href.recorded id bytes hbytes
  stored := by
    intro i q node s hi hs hfits
    exact (href.stored i q node s hi hs hfits).of_files (ws.set_files_of_ne _ (by simp))

/-- The base ID is the base. -/
theorem RefinesEnvs.setBase (href : RefinesEnvs ws E) {b : ℕ} (hb : b < E.count) :
    RefinesEnvs { ws with baseId := some (idAt b) } (E.rebase b hb) where
  count_le := href.count_le
  rows := href.rows
  base := rfl
  recorded := href.recorded
  stored := href.stored

end Effects

end TPBench
