import TPBench.Rtenv.Steps

/-!
# Unique IDs and Names

Every process that creates a runtime environment first lists the table to take the next
free ID, then lists it again to make sure that its name is new, and then appends its row.
Only the append is done under the lock, so the rows another process appends in between are
not noticed, and two environments can get the same ID or the same name.

The creations are correct as long as they do not overlap in this way: `AppendsFresh` says
that an append finds as many rows as the listing of its ID allocation returned. Rows are
never removed, and their IDs and names never change (`Grows`), so these are the same rows,
and what was found out about them still holds (`StillFresh`). Under this condition IDs and
names stay distinct in every interleaving (`rtenv_creations_distinct`). Without it they do
not (`rtenv_creations_collide`).
-/

open CFile Conc

namespace TPBench

/-! ### Keys -/

/-- What must be unique about a row: its ID, and its name as a string. -/
def keys (rows : List RtenvEntry) : List (Int32 × Bytes) :=
  rows.map fun e => (e.id, cstr e.name.toList)

/-- IDs and names of the rows are pairwise distinct. -/
def DistinctKeys (rows : List RtenvEntry) : Prop :=
  (rows.map RtenvEntry.id).Nodup ∧ (rows.map fun e => cstr e.name.toList).Nodup

/-- The table consists of rows with distinct IDs and names. -/
def DistinctTable (ws : Workspace) : Prop :=
  ∃ rows, rtenvRow.Holds ws rows ∧ DistinctKeys rows

/-- Rows may have been added to the table, and those it had keep their IDs and names. -/
def Grows (ws ws' : Workspace) : Prop :=
  ∀ rows, rtenvRow.Holds ws rows → ∃ rows', rtenvRow.Holds ws' rows' ∧
    keys rows <+: keys rows'

/-- An append finds as many rows as the listing of its ID allocation returned. -/
def AppendsFresh : RtenvAct → Workspace → Prop
  | .append count, ws => ∃ rows, rtenvRow.Holds ws rows ∧ rows.length = count
  | _, _ => True

/-- As long as the table has `count` rows, all its keys satisfy `p`. -/
def StillFresh (count : ℕ) (p : Int32 × Bytes → Prop) (ws : Workspace) : Prop :=
  ∃ rows, rtenvRow.Holds ws rows ∧ count ≤ rows.length ∧
    (rows.length = count → ∀ k ∈ keys rows, p k)

/-- The action keeps the keys of the table. -/
def KeepsKeys {α : Type} (m : WsM α) : Prop :=
  ∀ ws rows, rtenvRow.Holds ws rows → ∃ rows', rtenvRow.Holds (after (m ws)) rows' ∧
    keys rows' = keys rows

section Keys

variable {ws ws' : Workspace} {rows rows' : List RtenvEntry}

theorem keys_fst : (keys rows).map Prod.fst = rows.map RtenvEntry.id := by
  rw [keys, List.map_map]
  rfl

theorem keys_snd : (keys rows).map Prod.snd = rows.map fun e => cstr e.name.toList := by
  rw [keys, List.map_map]
  rfl

theorem length_keys : (keys rows).length = rows.length := List.length_map _

/-- The keys say whether they are distinct. -/
theorem DistinctKeys.of_keys (h : DistinctKeys rows) (heq : keys rows' = keys rows) :
    DistinctKeys rows' := by
  rw [DistinctKeys, ← keys_fst, ← keys_snd] at h ⊢
  rwa [heq]

/-- A row more has its key at the end. -/
theorem keys_append (e : RtenvEntry) :
    keys (rows ++ [e]) = keys rows ++ [(e.id, cstr e.name.toList)] := List.map_append

/-- A row with a new ID and a new name keeps the keys distinct. -/
theorem DistinctKeys.append {e : RtenvEntry} (h : DistinctKeys rows)
    (hnew : ∀ k ∈ keys rows, k.1 ≠ e.id ∧ k.2 ≠ cstr e.name.toList) :
    DistinctKeys (rows ++ [e]) := by
  rw [DistinctKeys, ← keys_fst, ← keys_snd] at h ⊢
  rw [keys_append, List.map_append, List.map_append]
  refine ⟨h.1.append (List.nodup_singleton _) ?_, h.2.append (List.nodup_singleton _) ?_⟩
  · rw [List.map_singleton, List.disjoint_singleton]
    intro hmem
    obtain ⟨k, hk, heq⟩ := List.mem_map.mp hmem
    exact (hnew k hk).1 heq
  · rw [List.map_singleton, List.disjoint_singleton]
    intro hmem
    obtain ⟨k, hk, heq⟩ := List.mem_map.mp hmem
    exact (hnew k hk).2 heq

theorem Grows.refl (ws : Workspace) : Grows ws ws := fun rows h =>
  ⟨rows, h, List.prefix_refl _⟩

/-- What grows twice grows. -/
theorem Grows.trans {ws₁ ws₂ ws₃ : Workspace} (h : Grows ws₁ ws₂) (h' : Grows ws₂ ws₃) :
    Grows ws₁ ws₃ := by
  intro rows hrows
  obtain ⟨rows₂, hrows₂, hpre⟩ := h rows hrows
  obtain ⟨rows₃, hrows₃, hpre'⟩ := h' rows₂ hrows₂
  exact ⟨rows₃, hrows₃, hpre.trans hpre'⟩

/-- What holds of all keys of a table of `count` rows stays true while rows are added. -/
theorem StillFresh.grows {count : ℕ} {p : Int32 × Bytes → Prop} (h : StillFresh count p ws)
    (hgrows : Grows ws ws') : StillFresh count p ws' := by
  obtain ⟨rows, hrows, hle, hp⟩ := h
  obtain ⟨rows', hrows', hpre⟩ := hgrows rows hrows
  have hlen := hpre.length_le
  rw [length_keys, length_keys] at hlen
  refine ⟨rows', hrows', hle.trans hlen, ?_⟩
  intro hcount
  have hsame : keys rows = keys rows' := hpre.eq_of_length (by
    rw [length_keys, length_keys]
    omega)
  rw [← hsame]
  exact hp (by omega)

end Keys

/-! ### Actions that keep the keys -/

section KeepsKeys

variable {α : Type}

/-- An action that does not touch the table keeps its keys. -/
theorem KeepsKeys.of_files {m : WsM α}
    (h : ∀ ws, (after (m ws)).files (.entry .rtenv) = ws.files (.entry .rtenv)) :
    KeepsKeys m := by
  intro ws rows hrows
  refine ⟨rows, ?_, rfl⟩
  have hfile : (after (m ws)).files (.entry rtenvRow.domain) =
      ws.files (.entry rtenvRow.domain) := h ws
  rw [RowFormat.Holds, hfile]
  exact hrows

/-- An error is passed on. -/
theorem KeepsKeys.propagate {m : WsM α} (mod : Module) (h : KeepsKeys m) :
    KeepsKeys (propagate mod m) := by
  intro ws rows hrows
  rw [after_propagate]
  exact h ws rows hrows

theorem after_list (ws : Workspace) : after (tpbRafEntryListRtenv ws) = ws :=
  after_entryListRows rtenvRow ws

/-- The table is listed. -/
theorem keepsKeys_list : KeepsKeys tpbRafEntryListRtenv :=
  .of_files fun ws => by rw [after_list]

/-- A record is read. -/
theorem keepsKeys_read (id : Int32) : KeepsKeys (tpbRafRecordReadRtenv id) := by
  refine .of_files fun ws => ?_
  rcases hread : tpbRafRecordReadRtenv id ws with ⟨v, ws'⟩ | ⟨e, ws'⟩
  · rw [after, (fopenRead_eq_ok hread).1]
  · rw [after, fopenRead_eq_error hread]

/-- A record is written. -/
theorem keepsKeys_write (a : RtenvAttr) (hs : List MetaHeader) (data : Option Bytes)
    (datasize : UInt64) : KeepsKeys (tpbRafRecordWriteRtenv a hs data datasize) :=
  .of_files fun ws => Workspace.set_files_of_ne ws _ (by simp [rtenvFormat])

/-- The list of children is written. -/
theorem keepsKeys_deriveWrite (u : DeriveUpdate) : KeepsKeys (deriveWrite u) := by
  cases u with
  | undefined => exact .of_files fun _ => rfl
  | patchOnly => exact .of_files fun _ => rfl
  | rewrite a hs data => exact (keepsKeys_write a hs _ _).propagate .rafL3Rtenv

/-- An update of a record does not touch the table. -/
theorem keepsKeys_update (mod : Module) (id : Int32) (m : FileM α) :
    KeepsKeys (fopenUpdate mod (.rtenv id) m) := by
  exact .of_files fun ws => after_fopenUpdate mod m ws (by simp)

/-- The patch of the latest child changes neither an ID nor a name. -/
theorem keys_modifyFirst (id d : Int32) (rows : List RtenvEntry) :
    keys (modifyFirst (·.id = id) (RtenvEntry.withDeriveTo d) rows) = keys rows := by
  rw [keys, keys, modifyFirst]
  refine List.ext_getElem? fun j => ?_
  rw [List.getElem?_map, List.getElem?_map, List.getElem?_modify]
  rcases rows[j]? with - | e
  · rfl
  · by_cases hj : rows.findIdx (fun x => decide (x.id = id)) = j
    · simp [hj, RtenvEntry.withDeriveTo]
    · simp [hj]

/-- A row is patched, but not its key. -/
theorem keepsKeys_patchTpbe (id d : Int32) : KeepsKeys (sfPatchTpbeDeriveTo id d) := by
  intro ws rows hrows
  rcases hrows with hrows | ⟨hnone, rfl⟩
  · by_cases hex : ∃ e ∈ rows, e.id = id
    · rw [sfPatchTpbeDeriveTo_found hrows hex]
      exact ⟨_, .inl (Workspace.set_files_same _ _ _), keys_modifyFirst id d rows⟩
    · refine ⟨rows, ?_, rfl⟩
      rw [sfPatchTpbeDeriveTo_none hrows fun e he heq => hex ⟨e, he, heq⟩]
      exact .inl hrows
  · refine ⟨[], .inr ⟨?_, rfl⟩, rfl⟩
    have hmissing : ws.files (.entry .rtenv) = none := hnone
    simp only [sfPatchTpbeDeriveTo, fopenUpdate, hmissing]
    exact hnone

end KeepsKeys

/-! ### The programs are safe -/

/-- Safe with respect to distinct keys and a growing table. -/
abbrev SafeP {α : Type} (p : RtenvP α) (Q : Except Err α → Workspace → Prop)
    (o : List RtenvAct) (ws : Workspace) : Prop :=
  Safe (fun _ => DistinctTable) Grows AppendsFresh p (fun r _ ws => Q r ws) o ws

section Programs

variable {α β : Type} {o : List RtenvAct} {ws : Workspace}

/-- An action that keeps the keys is safe, and its result is one it has on a table that has
grown. -/
theorem safeP_call {l : RtenvAct} {m : WsM α} (hm : KeepsKeys m)
    {Q : Except Err α → Workspace → Prop} (hQ : ∀ ws₁ rows, Grows ws ws₁ →
      rtenvRow.Holds ws₁ rows → Q (outcome (m ws₁)) (after (m ws₁))) :
    SafeP (Prog.call l m) Q o ws := by
  refine Safe.call ?_
  rintro g ws₁ hgrows ⟨rows, hrows, hdistinct⟩ -
  obtain ⟨rows', hrows', hkeys⟩ := hm ws₁ rows hrows
  refine ⟨⟨rows', hrows', hdistinct.of_keys hkeys⟩, ?_, hQ ws₁ rows hgrows hrows⟩
  intro rows₁ hrows₁
  rw [hrows₁.unique hrows]
  exact ⟨rows', hrows', by rw [hkeys]⟩

/-- The same when nothing is asked of the result. -/
theorem safeP_call_true {l : RtenvAct} {m : WsM α} (hm : KeepsKeys m) :
    SafeP (Prog.call l m) (fun _ _ => True) o ws :=
  safeP_call hm fun _ _ _ _ => trivial

/-- What nothing is asked of the result of may go on with every safe program. -/
theorem SafeP.bind {p : RtenvP α} {f : α → RtenvP β} {Q : Except Err α → Workspace → Prop}
    (hp : SafeP p Q o ws)
    (hf : ∀ a o ws, Q (.ok a) ws → SafeP (f a) (fun _ _ => True) o ws) :
    SafeP (p >>= f) (fun _ _ => True) o ws :=
  Safe.bind hp hf fun _ _ _ _ => trivial

/-- An error is passed on. -/
theorem SafeP.propagate {p : RtenvP α} {Q : Except Err α → Workspace → Prop}
    (hp : SafeP p Q o ws) (mod : Module) :
    SafeP (propagateP mod p) (fun r ws => ∀ a, r = .ok a → Q (.ok a) ws) o ws := by
  refine Safe.handle hp ?_
  intro r o ws hr a ha
  cases r with
  | ok b =>
      cases ha
      exact hr
  | error e => cases ha

/-- The same, where nothing is asked of the result. -/
theorem SafeP.propagate_true {p : RtenvP α} (hp : SafeP p (fun _ _ => True) o ws)
    (mod : Module) : SafeP (propagateP mod p) (fun _ _ => True) o ws :=
  Safe.handle hp fun _ _ _ _ => trivial

/-- An error is dropped. -/
theorem SafeP.ignoring {p : RtenvP Unit} (hp : SafeP p (fun _ _ => True) o ws) :
    SafeP (ignoringP p) (fun _ _ => True) o ws := by
  refine Safe.handle hp ?_
  rintro ((⟨mod, cause⟩ | -) | u) o ws -
  · trivial
  · trivial
  · trivial

/-- The search for a row is safe. When it finds none, there is none, as long as an `int` can
count the rows. -/
theorem safeP_rowExists (p : RtenvEntry → Bool) :
    SafeP (rowExistsP p) (fun r ws₁ => Grows ws ws₁ ∧ ∃ rows, rtenvRow.Holds ws₁ rows ∧
      (r = .ok false → rows.length ≤ intMax → ∀ e ∈ rows, p e = false)) o ws := by
  have hlist : SafeP (Prog.call .list tpbRafEntryListRtenv)
      (fun r ws₁ => Grows ws ws₁ ∧ ∃ rows, rtenvRow.Holds ws₁ rows ∧
        (rows.length ≤ intMax → r = .ok rows)) o ws := by
    refine safeP_call keepsKeys_list ?_
    intro ws₁ rows hgrows hrows
    rw [after_list]
    refine ⟨hgrows, rows, hrows, ?_⟩
    intro hlen
    rw [tpbRafEntryListRtenv, entryListRows_ok hrows hlen]
    rfl
  refine Safe.handle hlist ?_
  rintro ((⟨mod, cause⟩ | -) | es) o ws₁ ⟨hgrows, rows, hrows, hr⟩
  · refine ⟨hgrows, rows, hrows, ?_⟩
    intro _ hlen
    cases hr hlen
  · refine ⟨hgrows, rows, hrows, ?_⟩
    intro hfalse
    cases hfalse
  · refine ⟨hgrows, rows, hrows, ?_⟩
    intro hfalse hlen e he
    obtain rfl : es = rows := Except.ok.inj (hr hlen)
    cases hp : p e with
    | false => rfl
    | true =>
        have htrue : es.any p = true := List.any_eq_true.mpr ⟨e, he, hp⟩
        rw [htrue] at hfalse
        cases hfalse

/-- An allocated ID is new while the table has the rows that the allocation listed. -/
theorem safeP_alloc : SafeP tpbRafRtenvAllocNextIdP (fun r ws₁ => ∀ id count,
    r = .ok (id, count) → count ≤ intMax ∧ StillFresh count (·.1 ≠ id) ws₁) o ws := by
  have hlist : SafeP (Prog.call .list (propagate .rafL2Rtenv tpbRafEntryListRtenv))
      (fun r ws₁ => ∀ es, r = .ok es → es.length ≤ intMax ∧
        StillFresh es.length (fun k => ∃ e ∈ es, e.id = k.1) ws₁) o ws := by
    refine safeP_call (keepsKeys_list.propagate _) ?_
    intro ws₁ rows _ hrows es hes
    rw [after_propagate, after_list]
    rcases hok : propagate .rafL2Rtenv tpbRafEntryListRtenv ws₁ with ⟨es', ws₂⟩ | ⟨e, ws₂⟩
    · rw [hok] at hes
      cases hes
      rw [propagate_eq_ok] at hok
      obtain ⟨-, hlen⟩ := entryListRows_bound hok
      obtain ⟨-, htake⟩ := entryListRows_take hrows hok
      refine ⟨hlen, rows, hrows, ?_, ?_⟩
      · rw [htake]
        exact List.length_take_le' _ rows
      · intro hall k hk
        have hsame : es = rows := by
          rw [htake, List.take_of_length_le]
          rw [htake, List.length_take] at hall
          omega
        obtain ⟨e, he, rfl⟩ := List.mem_map.mp hk
        exact ⟨e, hsame ▸ he, rfl⟩
    · rw [hok] at hes
      cases hes
  refine Safe.bind hlist ?_ ?_
  · intro es o ws₁ hes
    obtain ⟨hlen, rows, hrows, hle, hall⟩ := hes es rfl
    split
    · intro id count heq
      cases heq
    · rename_i hmax
      intro id count heq
      cases heq
      refine ⟨hlen, rows, hrows, hle, ?_⟩
      intro hcount k hk hid
      obtain ⟨e, he, heq⟩ := hall hcount k hk
      have hle' : e.id ≤ maxId es := (foldl_maxId_ge es 0).2 e he
      have hlt := Int32.lt_of_le_of_lt hle' (lt_add_one_of_ne_maxValue hmax)
      rw [heq, hid] at hlt
      exact Int32.lt_irrefl hlt
  · intro e o ws₁ _ id count heq
    cases heq

/-- The append of a row is safe when its ID is new in the rows the allocation listed. -/
theorem safeP_append {count : ℕ} {entry : RtenvEntry} (hcount : count ≤ intMax)
    (hid : StillFresh count (·.1 ≠ entry.id) ws) :
    SafeP (tpbRafEntryAppendRtenvP count entry) (fun _ _ => True) o ws := by
  refine SafeP.bind (safeP_rowExists _) ?_
  rintro found o ws₁ ⟨hgrows, rows, hrows, hfound⟩
  have hid₁ := hid.grows hgrows
  cases found with
  | true => trivial
  | false =>
      have hkey : StillFresh count (fun k => k.1 ≠ entry.id ∧
          k.2 ≠ cstr entry.name.toList) ws₁ := by
        obtain ⟨rows', hrows', hle, hfresh⟩ := hid₁
        obtain rfl := hrows'.unique hrows
        refine ⟨rows', hrows', hle, ?_⟩
        intro hlen k hk
        refine ⟨hfresh hlen k hk, ?_⟩
        obtain ⟨e, he, rfl⟩ := List.mem_map.mp hk
        have hne := hfound rfl (by omega) e he
        simpa using hne
      refine Safe.call ?_
      rintro g ws₂ hgrows₂ ⟨rows₂, hrows₂, hdistinct⟩ ⟨rows₃, hrows₃, hlen⟩
      obtain ⟨rows₄, hrows₄, -, hfresh⟩ := hkey.grows hgrows₂
      obtain rfl := hrows₃.unique hrows₂
      obtain rfl := hrows₄.unique hrows₂
      rw [entryAppendRow_ok hrows₂]
      have hholds : rtenvRow.Holds (ws₂.set (.entry .rtenv)
          (rtenvRow.table (rows₄ ++ [entry]))) (rows₄ ++ [entry]) :=
        .inl (Workspace.set_files_same _ _ _)
      refine ⟨⟨_, hholds, hdistinct.append (hfresh hlen)⟩, ?_, trivial⟩
      intro rows hrows
      obtain rfl := hrows.unique hrows₂
      exact ⟨_, hholds, by rw [keys_append]; exact List.prefix_append _ _⟩

/-- A registration with a parent touches no key. -/
theorem safeP_derive (parentId childId : Int32) :
    SafeP (tpbRafRecordAppendRtenvDeriveP parentId childId) (fun _ _ => True) o ws := by
  refine SafeP.bind (safeP_call_true ((keepsKeys_read parentId).propagate _)) ?_
  intro v o ws _
  refine SafeP.bind (Q := fun _ _ => True) ?_ ?_
  · rcases deriveUpdate v childId with - | - | ⟨a, hs, data⟩
    · trivial
    · trivial
    · exact safeP_call_true (keepsKeys_deriveWrite _)
  · intro _ o ws _
    refine SafeP.bind
      (safeP_call_true ((keepsKeys_patchTpbe parentId childId).propagate _)) ?_
    intro _ o ws _
    exact safeP_call_true (keepsKeys_update _ parentId _ |>.propagate _)

/-- A record and its row are written. -/
theorem safeP_writeRecord {hostname : CArr 256} {utcBits : UInt64} {name note : Bytes}
    {inheritFrom id : Int32} {spec : RtenvSpec} {count : ℕ} (hcount : count ≤ intMax)
    (hid : StillFresh count (·.1 ≠ id) ws) :
    SafeP (tpbcliRtenvWriteRecordP hostname utcBits name note inheritFrom spec count id)
      (fun _ _ => True) o ws := by
  refine SafeP.bind (safeP_append hcount hid) ?_
  intro _ o ws _
  dsimp only
  split
  · trivial
  · refine SafeP.bind (safeP_call_true (keepsKeys_write _ _ _ _)) ?_
    intro _ o ws _
    split
    · exact (safeP_derive inheritFrom id).ignoring
    · trivial

/-- The snapshot of the environment is written. -/
theorem safeP_writeSnapshot {sys : SysEnv} {name : Bytes} {id : Int32} {count : ℕ}
    (hcount : count ≤ intMax) (hid : StillFresh count (·.1 ≠ id) ws) :
    SafeP (sfWriteEnvSnapshotRecordP sys count id name) (fun _ _ => True) o ws := by
  refine SafeP.bind ((safeP_append hcount hid).propagate_true _) ?_
  intro _ o ws _
  split
  · trivial
  · dsimp only
    split
    · trivial
    · exact safeP_call_true ((keepsKeys_write _ _ _ _).propagate _)

/-- A free name is picked. -/
theorem safeP_pickName (k n : ℕ) : SafeP (pickNameP k n) (fun _ _ => True) o ws := by
  induction k generalizing n o ws with
  | zero => trivial
  | succ k ih =>
      refine SafeP.bind (safeP_rowExists _) ?_
      intro found o ws _
      split
      · exact ih (n + 1)
      · trivial

/-- An environment is created. -/
theorem safeP_commitNew (hostname : CArr 256) (utcBits : UInt64) (name note : Bytes)
    (inheritFrom : Int32) (spec : RtenvSpec) :
    SafeP (sfCommitNewP hostname utcBits name note inheritFrom spec) (fun _ _ => True)
      o ws := by
  rw [sfCommitNewP]
  split
  · trivial
  · refine SafeP.bind (safeP_alloc.propagate _) ?_
    rintro ⟨id, count⟩ o ws hr
    obtain ⟨hcount, hid⟩ := hr (id, count) rfl id count rfl
    exact (safeP_writeRecord hcount hid).propagate_true _

/-- A snapshot is taken. -/
theorem safeP_snapshot (sys : SysEnv) (alwaysNew : Bool) :
    SafeP (tpbRtenvSnapshotBuildEnvP sys alwaysNew) (fun _ _ => True) o ws := by
  refine SafeP.bind (safeP_call_true (keepsKeys_list.propagate _)) ?_
  intro entries o ws _
  split
  · refine SafeP.bind (safeP_call_true (KeepsKeys.of_files fun _ => rfl)) ?_
    intro baseId o ws _
    refine SafeP.bind (safeP_rowExists _) ?_
    intro found o ws _
    split
    · trivial
    · trivial
  · refine SafeP.bind (Q := fun _ _ => True) (SafeP.propagate_true ?_ _) ?_
    · refine SafeP.bind (safeP_rowExists _) ?_
      intro found o ws _
      split
      · exact safeP_pickName _ _
      · trivial
    · intro name o ws _
      refine SafeP.bind (safeP_alloc.propagate _) ?_
      rintro ⟨id, count⟩ o ws hr
      obtain ⟨hcount, hid⟩ := hr (id, count) rfl id count rfl
      refine SafeP.bind ((safeP_writeSnapshot hcount hid).propagate_true _) ?_
      intro _ o ws _
      refine SafeP.bind (safeP_call_true (KeepsKeys.of_files fun _ => rfl)) ?_
      intro _ o ws _
      trivial

end Programs

/-! ### Creations -/

/-- A call that creates a runtime environment. -/
inductive Creation
  | commitNew (hostname : CArr 256) (utcBits : UInt64) (name note : Bytes)
      (inheritFrom : Int32) (spec : RtenvSpec)
  | snapshot (sys : SysEnv) (alwaysNew : Bool)

/-- The program of a creation. -/
def Creation.prog : Creation → RtenvP Unit
  | commitNew hostname utcBits name note inheritFrom spec =>
      sfCommitNewP hostname utcBits name note inheritFrom spec
  | snapshot sys alwaysNew => do
      let _ ← tpbRtenvSnapshotBuildEnvP sys alwaysNew
      return ()

/-- A process creates one environment after the other, whether or not the calls succeed. -/
def createAll : List Creation → RtenvP Unit
  | [] => return ()
  | c :: cs => do
      ignoringP c.prog
      createAll cs

/-- One creation after the other. -/
theorem safeP_createAll (cs : List Creation) (o : List RtenvAct) (ws : Workspace) :
    SafeP (createAll cs) (fun _ _ => True) o ws := by
  induction cs generalizing o ws with
  | nil => trivial
  | cons c cs ih =>
      refine SafeP.bind (SafeP.ignoring ?_) fun _ o ws _ => ih o ws
      cases c with
      | commitNew hostname utcBits name note inheritFrom spec =>
          exact safeP_commitNew hostname utcBits name note inheritFrom spec
      | snapshot sys alwaysNew =>
          exact SafeP.bind (safeP_snapshot sys alwaysNew) fun _ _ _ _ => trivial

/-- **Creations that do not overlap keep IDs and names distinct**: any processes create any
environments from a table with distinct IDs and names, and their actions interleave in any
way. If every append finds as many rows as the listing that allocated its ID, the table has
distinct IDs and names at the end, and since every beginning of a run is a run, at all
times. -/
theorem rtenv_creations_distinct {ι : Type} [DecidableEq ι] (creations : ι → List Creation)
    (ws₀ : Workspace) (t : List (Performed ι RtenvAct Workspace))
    (s : Procs ι RtenvAct Workspace Err Unit) (hinit : DistinctTable ws₀)
    (hrun : Run ProgStep ⟨ws₀, fun i => createAll (creations i)⟩ t s)
    (hfresh : ∀ p ∈ t, AppendsFresh p.label p.state) : DistinctTable s.shared :=
  (progs_invariant (J := fun _ => DistinctTable) (R := Grows) (Q := fun _ _ _ _ => True)
    Grows.refl (fun _ _ _ => Grows.trans) (fun _ _ _ _ _ _ _ => trivial) hinit
    (fun i => safeP_createAll (creations i) [] ws₀) hrun hfresh).1

/-- A creation of the command line tool under a name, of an environment without content. -/
def bareCreation (name : Bytes) : Creation :=
  .commitNew (zeroArr 256) 0 name [] 0 ⟨[], [], napp_le_nil, nenv_le_nil⟩

/-- Its row. -/
def bareRow (id : Int32) (name : Bytes) : RtenvEntry :=
  writeRecordEntry (zeroArr 256) 0 id name [] 0 ⟨[], [], napp_le_nil, nenv_le_nil⟩

/-- Two processes that create an environment each, from an empty workspace. -/
def bareCreations (name : Bool → Bytes) : Procs Bool RtenvAct Workspace Err Unit :=
  ⟨Workspace.empty, fun i => createAll [bareCreation (name i)]⟩

section Samples

theorem holds_empty : rtenvRow.Holds Workspace.empty [] := .inr ⟨rfl, rfl⟩

/-- No table is distinct. -/
theorem distinctTable_empty : DistinctTable Workspace.empty :=
  ⟨[], holds_empty, List.nodup_nil, List.nodup_nil⟩

/-- The table that was written is there. -/
theorem holds_set (ws : Workspace) (rows : List RtenvEntry) :
    rtenvRow.Holds (ws.set (.entry .rtenv) (rtenvRow.table rows)) rows :=
  .inl (Workspace.set_files_same _ _ _)

/-- One process creates `a`, and then the other one `b`: the IDs are 1 and 2. -/
theorem exists_run_two_creations :
    ∃ t s, Run ProgStep (bareCreations fun i => ascii [bif i then 'b' else 'a']) t s ∧
      (∀ p ∈ t, AppendsFresh p.label p.state) ∧
      rtenvRow.Holds s.shared [bareRow 1 (ascii ['a']), bareRow 2 (ascii ['b'])] := by
  let a := bareRow 1 (ascii ['a'])
  let ws := Workspace.empty.set (.entry .rtenv) (rtenvRow.table [a])
  have hone : rtenvRow.Holds ws [a] := holds_set _ _
  have hlist : tpbRafEntryListRtenv Workspace.empty = .ok [] Workspace.empty :=
    entryListRows_ok holds_empty (by decide)
  have hlist' : tpbRafEntryListRtenv ws = .ok [a] ws := entryListRows_ok hone (by decide)
  have h₀ : Run ProgStep (bareCreations fun i => ascii [bif i then 'b' else 'a']) [] _ := .nil
  have h₁ := h₀.act_ok (i := false) rfl (propagate_eq_ok.mpr hlist)
  have h₂ := h₁.act_ok (i := false) rfl hlist
  have h₃ := h₂.act_ok (i := false) rfl (entryAppendRow_ok holds_empty a)
  have h₄ := h₃.act_ok (i := true) rfl (propagate_eq_ok.mpr hlist')
  have h₅ := h₄.act_ok (i := true) rfl hlist'
  have h₆ := h₅.act_ok (i := true) rfl (entryAppendRow_ok hone (bareRow 2 (ascii ['b'])))
  refine ⟨_, _, h₆, ?_, holds_set _ _⟩
  intro p hp
  simp only [List.nil_append, List.cons_append, List.mem_cons, List.not_mem_nil,
    or_false] at hp
  rcases hp with rfl | rfl | rfl | rfl | rfl | rfl
  · trivial
  · trivial
  · exact ⟨[], holds_empty, rfl⟩
  · trivial
  · trivial
  · exact ⟨[a], hone, rfl⟩

theorem rtenv_creations_distinct_two :
    ∃ t s, Run ProgStep (bareCreations fun i => ascii [bif i then 'b' else 'a']) t s ∧
      (∀ p ∈ t, AppendsFresh p.label p.state) ∧ DistinctTable s.shared ∧
      rtenvRow.Holds s.shared [bareRow 1 (ascii ['a']), bareRow 2 (ascii ['b'])] := by
  obtain ⟨t, s, hrun, hfresh, hholds⟩ := exists_run_two_creations
  exact ⟨t, s, hrun, hfresh,
    rtenv_creations_distinct _ _ t s distinctTable_empty hrun hfresh, hholds⟩

/-- Both processes create `a`: both allocate the ID 1 and find the name to be new before
one of them appends. -/
theorem rtenv_creations_collide :
    DistinctTable (bareCreations fun _ => ascii ['a']).shared ∧
      ∃ t s, Run ProgStep (bareCreations fun _ => ascii ['a']) t s ∧
        ¬ DistinctTable s.shared ∧
        rtenvRow.Holds s.shared [bareRow 1 (ascii ['a']), bareRow 1 (ascii ['a'])] := by
  let a := bareRow 1 (ascii ['a'])
  have hlist : tpbRafEntryListRtenv Workspace.empty = .ok [] Workspace.empty :=
    entryListRows_ok holds_empty (by decide)
  have h₀ : Run ProgStep (bareCreations fun _ => ascii ['a']) [] _ := .nil
  have h₁ := h₀.act_ok (i := false) rfl (propagate_eq_ok.mpr hlist)
  have h₂ := h₁.act_ok (i := true) rfl (propagate_eq_ok.mpr hlist)
  have h₃ := h₂.act_ok (i := false) rfl hlist
  have h₄ := h₃.act_ok (i := true) rfl hlist
  have h₅ := h₄.act_ok (i := false) rfl (entryAppendRow_ok holds_empty a)
  have h₆ := h₅.act_ok (i := true) rfl (entryAppendRow_ok (holds_set _ [a]) a)
  refine ⟨distinctTable_empty, _, _, h₆, ?_, holds_set _ _⟩
  rintro ⟨rows, hrows, hids, -⟩
  rw [hrows.unique (holds_set _ _)] at hids
  exact absurd hids (by simp)

end Samples

end TPBench
