import TPBench.Rtenv.Steps

/-!
# Counting on and Registering with One Environment

Kernel processes add to the counters of a runtime environment while other processes register
children with it. The counter patch is a locked read-modify-write of eight bytes. The
registration reads the record, computes a new one and writes it back, without a lock that
covers all three. What others changed between the reading and the writing is overwritten.

`RewritesUnchanged` says that this does not happen: a writing finds the counters, headers and
payload that its call had read. Then no update is lost in any interleaving
(`rtenv_updates_kept`): the counters grow by the sum of all increments, and the `DeriveTo`
header lists every child once. Without it increments are lost (`rtenv_update_lost`).

The invariant `Counted` relates the record to the actions performed so far, and
`KeepsChildren` is the relation every action respects: children that are listed stay listed.
-/

open CFile Conc

namespace TPBench

/-! ### Updates -/

/-- A call that updates a runtime environment. -/
inductive Update
  | counters (addNtask addNtbatch : UInt32)
  | derive (childId : Int32)

/-- The program of an update of the environment `id`. -/
def Update.prog (id : Int32) : Update → RtenvP Unit
  | counters addNtask addNtbatch => tpbRafRecordPatchRtenvCountersP id addNtask addNtbatch
  | derive childId => tpbRafRecordAppendRtenvDeriveP id childId

/-- A process performs one update after the other, up to an error. -/
def updateAll (id : Int32) : List Update → RtenvP Unit
  | [] => return ()
  | u :: us => do
      u.prog id
      updateAll id us

/-- What an update adds to `ntask` and `ntbatch`. -/
def Update.added : Update → ℕ × ℕ
  | counters addNtask addNtbatch => (addNtask.toNat, addNtbatch.toNat)
  | derive _ => 0

/-- The child an update registers. -/
def Update.child : Update → Option Int32
  | counters _ _ => none
  | derive childId => some childId

/-- What an action adds to `ntask` and `ntbatch` of the record. -/
def RtenvAct.added : RtenvAct → ℕ × ℕ
  | counters addNtask addNtbatch => (addNtask.toNat, addNtbatch.toNat)
  | _ => 0

/-- What a sequence of actions adds. -/
def total (h : List RtenvAct) : ℕ × ℕ := (h.map RtenvAct.added).sum

/-! ### What is kept -/

/-- The `DeriveTo` header of the record lists the child. -/
def Listed (id childId : Int32) (ws : Workspace) : Prop :=
  ∃ r : Record rtenvFormat, ws.files (.rtenv id) = some r.bytes ∧
    childId ∈ deriveIds r.view.headers r.view.data

/-- Children that are listed stay listed. -/
def KeepsChildren (id : Int32) (ws ws' : Workspace) : Prop :=
  ∀ childId, Listed id childId ws → Listed id childId ws'

/-- The record has the counters of the attributes `a₀`, increased by the actions `h`, and
lists its children once. -/
def Counted (id : Int32) (a₀ : RtenvAttr) (h : List RtenvAct) (ws : Workspace) : Prop :=
  ∃ (r : Record rtenvFormat) (ids : List Int32), ws.files (.rtenv id) = some r.bytes ∧
    r.attr.id = id ∧ r.attr.ntask.toNat = (a₀.ntask.toNat + (total h).1) % 2 ^ 32 ∧
    r.attr.ntbatch.toNat = (a₀.ntbatch.toNat + (total h).2) % 2 ^ 32 ∧
    DeriveHolds r.view.headers r.view.data ids ∧ ids.Nodup

/-- A writing finds the counters, headers and payload that its call had read. -/
def RewritesUnchanged : RtenvAct → Workspace → Prop
  | .rewrite v, ws => ∃ v', tpbRafRecordReadRtenv v.attr.id ws = .ok v' ws ∧
      v'.attr.ntask = v.attr.ntask ∧ v'.attr.ntbatch = v.attr.ntbatch ∧
      v'.headers = v.headers ∧ v'.data = v.data
  | _, _ => True

section Kept

variable {id childId : Int32} {a₀ : RtenvAttr} {h : List RtenvAct} {ws ws' : Workspace}

theorem KeepsChildren.refl (id : Int32) (ws : Workspace) : KeepsChildren id ws ws :=
  fun _ hlisted => hlisted

theorem KeepsChildren.trans {ws₁ ws₂ ws₃ : Workspace} (h₁ : KeepsChildren id ws₁ ws₂)
    (h₂ : KeepsChildren id ws₂ ws₃) : KeepsChildren id ws₁ ws₃ :=
  fun childId hlisted => h₂ childId (h₁ childId hlisted)

theorem total_append (h : List RtenvAct) (l : RtenvAct) : total (h ++ [l]) = total h + l.added := by
  simp [total]

/-- The bytes of a record determine what a reader finds. -/
theorem Record.view_eq_of_bytes {r r' : Record rtenvFormat} (hbytes : r.bytes = r'.bytes) :
    r.view = r'.view := by
  let ws := Workspace.empty.set (.rtenv 0) r.bytes
  have hfile : ws.files (.rtenv 0) = some r.bytes := Workspace.set_files_same _ _ _
  have hread := recordRead_of_bytes hfile
  rw [hbytes] at hfile
  rw [recordRead_of_bytes hfile] at hread
  injection hread with hview
  exact hview.symm

/-- A record with a list of children, and the children of its file. -/
theorem listed_iff {r : Record rtenvFormat} {ids : List Int32}
    (hr : ws.files (.rtenv id) = some r.bytes)
    (hholds : DeriveHolds r.view.headers r.view.data ids) :
    Listed id childId ws ↔ childId ∈ ids := by
  have hids : deriveIds r.view.headers r.view.data = ids := hholds.deriveIds_eq r.data_lt
  constructor
  · rintro ⟨r', hr', hmem⟩
    have hbytes : r'.bytes = r.bytes := Option.some.inj (hr'.symm.trans hr)
    rwa [Record.view_eq_of_bytes hbytes, hids] at hmem
  · intro hmem
    exact ⟨r, hr, by rwa [hids]⟩

/-- What leaves the file of the record alone keeps the children. -/
theorem KeepsChildren.of_file (hfile : ws'.files (.rtenv id) = ws.files (.rtenv id)) :
    KeepsChildren id ws ws' := by
  rintro childId ⟨r, hr, hmem⟩
  exact ⟨r, hfile.trans hr, hmem⟩

theorem Counted.of_file (hcounted : Counted id a₀ h ws)
    (hfile : ws'.files (.rtenv id) = ws.files (.rtenv id)) {l : RtenvAct}
    (hl : l.added = 0) : Counted id a₀ (h ++ [l]) ws' := by
  obtain ⟨r, ids, hr, hrest⟩ := hcounted
  refine ⟨r, ids, hfile.trans hr, ?_⟩
  rwa [total_append, hl, add_zero]

end Kept

/-! ### The programs are safe -/

/-- The postcondition of a program that adds `x` to the counters and registers `cs`. -/
def Does {α : Type} (id : Int32) (x : ℕ × ℕ) (cs : List Int32) (o : List RtenvAct)
    (ws : Workspace) (r : Except Err α) (o' : List RtenvAct) (ws' : Workspace) : Prop :=
  KeepsChildren id ws ws' ∧
    ∀ a, r = .ok a → total o' = total o + x ∧ ∀ c ∈ cs, Listed id c ws'

/-- Safe with respect to the counters and children of the environment `id`. -/
abbrev SafeU {α : Type} (id : Int32) (a₀ : RtenvAttr) (p : RtenvP α)
    (Q : Except Err α → List RtenvAct → Workspace → Prop) (o : List RtenvAct)
    (ws : Workspace) : Prop :=
  Safe (Counted id a₀) (KeepsChildren id) RewritesUnchanged p Q o ws

section Programs

variable {α β : Type} {id childId : Int32} {a₀ : RtenvAttr} {o : List RtenvAct}
  {ws : Workspace} {x y : ℕ × ℕ} {cs ds : List Int32}

/-- The postcondition stays true while the children are kept. -/
theorem Does.keeps {r : Except Err α} {o' : List RtenvAct} {ws₁ ws₂ : Workspace}
    (hkeeps : KeepsChildren id ws₁ ws₂) (hdoes : Does id x cs o ws r o' ws₁) :
    Does id x cs o ws r o' ws₂ := by
  refine ⟨hdoes.1.trans hkeeps, ?_⟩
  intro a ha
  obtain ⟨htotal, hcs⟩ := hdoes.2 a ha
  exact ⟨htotal, fun c hc => hkeeps c (hcs c hc)⟩

/-- Two programs in sequence, where the first one also hands over a fact about its
result. -/
theorem SafeU.bind {p : RtenvP α} {f : α → RtenvP β} {P : α → Workspace → Prop}
    (hp : SafeU id a₀ p (fun r o' ws' => Does id x cs o ws r o' ws' ∧
      ∀ a, r = .ok a → P a ws') o ws)
    (hf : ∀ a o' ws', P a ws' → SafeU id a₀ (f a) (Does id y ds o' ws') o' ws') :
    SafeU id a₀ (p >>= f) (Does id (x + y) (cs ++ ds) o ws) o ws := by
  refine Safe.bind hp ?_ ?_
  · rintro a o' ws' ⟨⟨hkeeps, hdoes⟩, hP⟩
    obtain ⟨htotal, hcs⟩ := hdoes a rfl
    refine (hf a o' ws' (hP a rfl)).imp ?_
    rintro r o'' ws'' ⟨hkeeps', hdoes'⟩
    refine ⟨hkeeps.trans hkeeps', ?_⟩
    intro b hb
    obtain ⟨htotal', hds⟩ := hdoes' b hb
    refine ⟨by rw [htotal', htotal, add_assoc], ?_⟩
    intro c hc
    rcases List.mem_append.mp hc with hc | hc
    · exact hkeeps' c (hcs c hc)
    · exact hds c hc
  · rintro e o' ws' ⟨⟨hkeeps, -⟩, -⟩
    refine ⟨hkeeps, ?_⟩
    intro a ha
    cases ha

/-- The same without such a fact. -/
theorem SafeU.seq {p : RtenvP α} {q : RtenvP β} (hp : SafeU id a₀ p (Does id x cs o ws) o ws)
    (hq : ∀ o' ws', SafeU id a₀ q (Does id y ds o' ws') o' ws') :
    SafeU id a₀ (p >>= fun _ => q) (Does id (x + y) (cs ++ ds) o ws) o ws :=
  SafeU.bind (P := fun _ _ => True) (hp.imp fun _ _ _ h => ⟨h, fun _ _ => trivial⟩)
    fun _ o' ws' _ => hq o' ws'

/-- An action that leaves the file of the record alone. -/
theorem safeU_frame {m : WsM α} (hm : ∀ ws, (after (m ws)).files (.rtenv id) =
    ws.files (.rtenv id)) : SafeU id a₀ (Prog.call .other m) (Does id 0 [] o ws) o ws := by
  refine Safe.call ?_
  intro h ws₁ hkeeps hcounted _
  refine ⟨hcounted.of_file (hm ws₁) rfl, .of_file (hm ws₁), hkeeps.trans (.of_file (hm ws₁)), ?_⟩
  intro a _
  refine ⟨by rw [total_append]; rfl, ?_⟩
  intro c hc
  cases hc

/-- The counter patch adds its increments. -/
theorem safeU_counters (m n : UInt32) :
    SafeU id a₀ (tpbRafRecordPatchRtenvCountersP id m n)
      (Does id (Update.counters m n).added [] o ws) o ws := by
  rw [tpbRafRecordPatchRtenvCountersP]
  split
  · rename_i hzero
    rw [hzero.1, hzero.2]
    exact ⟨.refl id ws, fun _ _ => ⟨rfl, fun c hc => by cases hc⟩⟩
  · have hpatch : SafeU id a₀ (Prog.call (.counters m n)
        (fopenUpdate .rafL3Rtenv (.rtenv id) (patchTpbrCounters m n)))
        (Does id (Update.counters m n).added [] o ws) o ws := by
      refine Safe.call ?_
      rintro h ws₁ hkeeps ⟨r, ids, hr, hid, htask, htbatch, hholds, hnodup⟩ -
      rw [fopenUpdate_ok hr (patchTpbrCounters_run r m n)]
      have hr' : (ws₁.set (.rtenv id) (r.withAttr (r.attr.addCounters m n) rfl).bytes).files
          (.rtenv id) = some (r.withAttr (r.attr.addCounters m n) rfl).bytes :=
        Workspace.set_files_same _ _ _
      have hkeeps₁ : KeepsChildren id ws₁
          (ws₁.set (.rtenv id) (r.withAttr (r.attr.addCounters m n) rfl).bytes) := by
        intro c hc
        exact (listed_iff hr' hholds).mpr ((listed_iff hr hholds).mp hc)
      refine ⟨⟨_, ids, hr', hid, ?_, ?_, hholds, hnodup⟩, hkeeps₁, hkeeps.trans hkeeps₁, ?_⟩
      · change (r.attr.ntask + m).toNat = _
        rw [UInt32.toNat_add, htask, total_append, Prod.fst_add, ← Nat.add_assoc]
        exact Nat.mod_add_mod _ _ _
      · change (r.attr.ntbatch + n).toNat = _
        rw [UInt32.toNat_add, htbatch, total_append, Prod.snd_add, ← Nat.add_assoc]
        exact Nat.mod_add_mod _ _ _
      · intro a _
        refine ⟨total_append o _, ?_⟩
        intro c hc
        cases hc
    have hrow : ∀ o' ws', SafeU id a₀ (Prog.call .other
        (orFail .rafL3Rtenv .fileIoFail (sfPatchTpbeCounters id m n)))
        (Does id 0 [] o' ws') o' ws' := by
      intro o' ws'
      refine safeU_frame fun ws₁ => ?_
      rw [after_orFail]
      exact after_fopenUpdate _ _ ws₁ (by simp)
    have hboth := SafeU.seq hpatch hrow
    rwa [add_zero] at hboth

/-- What a call knows of the record it has read. -/
def ReadFrom (id : Int32) (v : RecordView RtenvAttr) (ws : Workspace) : Prop :=
  ∃ (r : Record rtenvFormat) (ids : List Int32), v = r.view ∧ r.attr.id = id ∧
    DeriveHolds v.headers v.data ids ∧ ids.Nodup ∧ ∀ c ∈ ids, Listed id c ws

theorem safeU_read : SafeU id a₀
    (Prog.call .other (propagate .rafL3Rtenv (tpbRafRecordReadRtenv id)))
    (fun r o' ws' => Does id 0 [] o ws r o' ws' ∧ ∀ v, r = .ok v → ReadFrom id v ws')
    o ws := by
  refine Safe.call ?_
  intro h ws₁ hkeeps hcounted _
  have hcounted' := hcounted
  obtain ⟨r, ids, hr, hid, -, -, hholds, hnodup⟩ := hcounted'
  have hread : propagate .rafL3Rtenv (tpbRafRecordReadRtenv id) ws₁ = .ok r.view ws₁ :=
    propagate_eq_ok.mpr (recordRead_of_bytes hr)
  rw [hread]
  refine ⟨hcounted.of_file rfl rfl, .refl id ws₁, ⟨hkeeps, ?_⟩, ?_⟩
  · intro a _
    exact ⟨total_append o _, fun c hc => by cases hc⟩
  · intro v hv
    cases hv
    exact ⟨r, ids, rfl, hid, hholds, hnodup, fun c hc => (listed_iff hr hholds).mpr hc⟩

/-- The writing adds the child to the list, if it finds the record that was read. -/
theorem safeU_write {v : RecordView RtenvAttr} (hread : ReadFrom id v ws) :
    SafeU id a₀ (deriveWriteP v (deriveUpdate v childId)) (Does id 0 [childId] o ws) o ws := by
  obtain ⟨r, ids, rfl, hid, hholds, hnodup, hlisted⟩ := hread
  by_cases hchild : childId ∈ ids
  · rw [deriveUpdate_listed hholds r.data_lt hchild]
    refine ⟨.refl id ws, ?_⟩
    intro a _
    refine ⟨rfl, ?_⟩
    intro c hc
    rw [List.mem_singleton.mp hc]
    exact hlisted childId hchild
  · rcases deriveUpdate_fresh hholds r.data_lt hchild with hup | ⟨a, hs, data, hup, hfresh⟩
    · rw [hup]
      refine ⟨.refl id ws, ?_⟩
      intro a ha
      cases ha
    · rw [hup]
      refine Safe.call ?_
      rintro h ws₁ hkeeps ⟨r₁, ids₁, hr₁, -, htask, htbatch, hholds₁, -⟩
        ⟨v', hread, htask', htbatch', hheaders, hdata⟩
      have hidv : r.view.attr.id = id := hid
      rw [hidv, tpbRafRecordReadRtenv, recordRead_of_bytes hr₁] at hread
      obtain rfl : r₁.view = v' := by injection hread
      obtain rfl : ids₁ = ids := by
        rw [← hholds₁.deriveIds_eq r₁.data_lt, ← hholds.deriveIds_eq r.data_lt, hheaders,
          hdata]
      obtain ⟨r', rfl, rfl, hbuf, hattr⟩ := deriveUpdate_record hup
      have hid' : r'.attr.id = id := by
        rw [hattr]
        exact hid
      have hr' : (ws₁.set (.rtenv id) r'.bytes).files (.rtenv id) = some r'.bytes :=
        Workspace.set_files_same _ _ _
      have hholds' : DeriveHolds r'.view.headers r'.view.data (ids₁ ++ [childId]) := by
        have hview : r'.view.data = data := by
          rw [Record.view, Record.data, hbuf, Option.getD_some]
        rw [hview]
        exact hfresh.norm
      have hkeeps₁ : KeepsChildren id ws₁ (ws₁.set (.rtenv id) r'.bytes) := by
        intro c hc
        exact (listed_iff hr' hholds').mpr
          (List.mem_append_left _ ((listed_iff hr₁ hholds₁).mp hc))
      rw [deriveWrite_run hbuf, hid']
      refine ⟨⟨r', _, hr', hid', ?_, ?_, hholds', ?_⟩, hkeeps₁, hkeeps.trans hkeeps₁, ?_⟩
      · have hsame : r'.attr.ntask = r₁.attr.ntask := by
          rw [hattr]
          exact htask'.symm
        rw [hsame, htask, total_append]
        rfl
      · have hsame : r'.attr.ntbatch = r₁.attr.ntbatch := by
          rw [hattr]
          exact htbatch'.symm
        rw [hsame, htbatch, total_append]
        rfl
      · exact hnodup.append (List.nodup_singleton _) (List.disjoint_singleton.mpr hchild)
      · intro a _
        refine ⟨total_append o _, ?_⟩
        intro c hc
        refine (listed_iff hr' hholds').mpr ?_
        exact List.mem_append_right _ hc

theorem safeU_derive : SafeU id a₀ (tpbRafRecordAppendRtenvDeriveP id childId)
    (Does id 0 [childId] o ws) o ws := by
  have hrow : ∀ o' ws', SafeU id a₀ (Prog.call .other
      (propagate .rafL3Rtenv (sfPatchTpbeDeriveTo id childId))) (Does id 0 [] o' ws') o' ws' := by
    intro o' ws'
    refine safeU_frame fun ws₁ => ?_
    rw [after_propagate]
    exact after_fopenUpdate _ _ ws₁ (by simp)
  have hrecord : ∀ o' ws', SafeU id a₀ (Prog.call .other
      (propagate .rafL3Rtenv (sfPatchTpbrDeriveTo id childId))) (Does id 0 [] o' ws') o' ws' := by
    intro o' ws'
    refine Safe.call ?_
    rintro h ws₁ hkeeps ⟨r, ids, hr, hid, htask, htbatch, hholds, hnodup⟩ -
    have hrun := sfPatchTpbrDeriveTo_run (d := childId) hr
    rw [propagate_eq_ok.mpr hrun]
    have hr' := Workspace.set_files_same ws₁ (.rtenv id)
      (r.withAttr (r.attr.withDeriveTo childId) rfl).bytes
    have hkeeps₁ : KeepsChildren id ws₁ (ws₁.set (.rtenv id)
        (r.withAttr (r.attr.withDeriveTo childId) rfl).bytes) := by
      intro c hc
      exact (listed_iff hr' hholds).mpr ((listed_iff hr hholds).mp hc)
    refine ⟨⟨_, ids, hr', hid, ?_, ?_, hholds, hnodup⟩, hkeeps₁, hkeeps.trans hkeeps₁, ?_⟩
    · rw [total_append]
      exact htask
    · rw [total_append]
      exact htbatch
    · intro a _
      exact ⟨total_append o' _, fun c hc => by cases hc⟩
  have hall : SafeU id a₀ (tpbRafRecordAppendRtenvDeriveP id childId)
      (Does id (0 + (0 + (0 + 0))) ([] ++ ([childId] ++ ([] ++ []))) o ws) o ws :=
    SafeU.bind safeU_read fun v o' ws' hread =>
      SafeU.seq (safeU_write hread) fun o' ws' => SafeU.seq (hrow o' ws') hrecord
  exact hall

/-- A process that succeeds has added all its increments and registered all its
children. -/
theorem safeU_updateAll (us : List Update) :
    SafeU id a₀ (updateAll id us)
      (Does id (us.map Update.added).sum (us.filterMap Update.child) o ws) o ws := by
  induction us generalizing o ws with
  | nil =>
      refine ⟨.refl id ws, ?_⟩
      intro a _
      exact ⟨rfl, fun c hc => by cases hc⟩
  | cons u us ih =>
      cases u with
      | counters m n => exact SafeU.seq (safeU_counters m n) fun o' ws' => ih
      | derive childId => exact SafeU.seq safeU_derive fun o' ws' => ih

end Programs

/-! ### Whole runs -/

/-- **No update is lost** when no writing overwrites one: any processes update an
environment whose record lists its children once, their actions interleave in any way, and
every writing finds what its call had read. When all calls have succeeded, the counters have
grown by the sum of all increments modulo `2 ^ 32`, and every child that was registered
before or in the run is listed exactly once. -/
theorem rtenv_updates_kept {ι : Type} [Fintype ι] [DecidableEq ι] (id : Int32)
    (updates : ι → List Update) (ws₀ : Workspace) (r₀ : Record rtenvFormat)
    (ids₀ : List Int32) (t : List (Performed ι RtenvAct Workspace))
    (s : Procs ι RtenvAct Workspace Err Unit) (hr₀ : ws₀.files (.rtenv id) = some r₀.bytes)
    (hid : r₀.attr.id = id) (hholds : DeriveHolds r₀.view.headers r₀.view.data ids₀)
    (hnodup : ids₀.Nodup) (hrun : Run ProgStep ⟨ws₀, fun i => updateAll id (updates i)⟩ t s)
    (hunchanged : ∀ p ∈ t, RewritesUnchanged p.label p.state)
    (hdone : ∀ i, s.prog i = .ret (.ok ())) :
    ∃ v, tpbRafRecordReadRtenv id s.shared = .ok v s.shared ∧
      v.attr.ntask.toNat = (r₀.attr.ntask.toNat +
        (∑ i, ((updates i).map Update.added).sum).1) % 2 ^ 32 ∧
      v.attr.ntbatch.toNat = (r₀.attr.ntbatch.toNat +
        (∑ i, ((updates i).map Update.added).sum).2) % 2 ^ 32 ∧
      ∀ c, (c ∈ ids₀ ∨ ∃ i, Update.derive c ∈ updates i) →
        (deriveIds v.headers v.data).count c = 1 := by
  have hinit : Counted id r₀.attr [] ws₀ :=
    ⟨r₀, ids₀, hr₀, hid, (Nat.mod_eq_of_lt r₀.attr.ntask.toNat_lt).symm,
      (Nat.mod_eq_of_lt r₀.attr.ntbatch.toNat_lt).symm, hholds, hnodup⟩
  obtain ⟨⟨r, ids, hr, -, htask, htbatch, hids, hnodup'⟩, hkeeps, hall⟩ :=
    progs_invariant (J := Counted id r₀.attr) (R := KeepsChildren id) (Q := fun i =>
      Does id ((updates i).map Update.added).sum ((updates i).filterMap Update.child) [] ws₀)
      (KeepsChildren.refl id) (fun _ _ _ => KeepsChildren.trans)
      (fun _ _ _ _ _ => Does.keeps) hinit (fun i => safeU_updateAll (updates i)) hrun
      hunchanged
  have hfinished : ∀ i, Does id ((updates i).map Update.added).sum
      ((updates i).filterMap Update.child) [] ws₀ (.ok ()) (own i t) s.shared := by
    intro i
    have hi := hall i
    rwa [hdone i] at hi
  have htotal : total (t.map Performed.label) = ∑ i, ((updates i).map Update.added).sum := by
    rw [total, sum_labels_eq]
    refine Finset.sum_congr rfl fun i _ => ?_
    have hi := ((hfinished i).2 () rfl).1
    rwa [total, total, List.map_nil, List.sum_nil, zero_add] at hi
  rw [htotal] at htask htbatch
  refine ⟨r.view, recordRead_of_bytes hr, htask, htbatch, ?_⟩
  intro c hc
  rw [hids.deriveIds_eq r.data_lt]
  refine List.count_eq_one_of_mem hnodup' ((listed_iff hr hids).mp ?_)
  rcases hc with hc | ⟨i, hi⟩
  · exact hkeeps c ((listed_iff hr₀ hholds).mpr hc)
  · exact ((hfinished i).2 () rfl).2 c (List.mem_filterMap.mpr ⟨_, hi, rfl⟩)

/-- The record that registering the child 7 writes. -/
def bareRegistered : Record rtenvFormat where
  attr := { RtenvAttr.zero with id := 1, nheader := 1, deriveTo := 7 }
  headers := [deriveHeader]
  buf := some (i32 7)
  nheader_eq := nheader_deriveHeader
  ndim_le := ndim_le_deriveHeader
  data_lt := by decide

/-- One process counts a task, another one registers the child 7. -/
def bareUpdates : Procs Bool RtenvAct Workspace Err Unit :=
  ⟨bareWorkspace bareRecord bareEntry,
    fun i => updateAll 1 (bif i then [.derive 7] else [.counters 1 0])⟩

section Samples

variable (r : Record rtenvFormat) (e : RtenvEntry)

theorem bareWorkspace_set (r' : Record rtenvFormat) :
    (bareWorkspace r e).set (.rtenv 1) r'.bytes = bareWorkspace r' e := by
  rw [bareWorkspace, Workspace.set_comm _ (by simp), Workspace.set_set]
  rfl

theorem bareRecord_holds : DeriveHolds bareRecord.view.headers bareRecord.view.data [] :=
  .none (by simp [bareRecord, Record.view]) (by decide) rfl

/-- The actions of the two calls, on such a workspace. -/
theorem bare_read : propagate .rafL3Rtenv (tpbRafRecordReadRtenv 1) (bareWorkspace r e) =
    .ok r.view (bareWorkspace r e) :=
  propagate_eq_ok.mpr (recordRead_of_bytes (bareWorkspace_record r e))

theorem bare_write : deriveWrite (.rewrite bareRegistered.attr bareRegistered.headers (i32 7))
    (bareWorkspace r e) = .ok () (bareWorkspace bareRegistered e) := by
  rw [deriveWrite_run rfl, ← bareWorkspace_set r e bareRegistered]
  rfl

theorem bare_patchRow (he : e.id = 1) :
    propagate .rafL3Rtenv (sfPatchTpbeDeriveTo 1 7) (bareWorkspace r e) =
      .ok () (bareWorkspace r (e.withDeriveTo 7)) := by
  rw [propagate_eq_ok, sfPatchTpbeDeriveTo_found (bareWorkspace_table r e) ⟨e, by simp, he⟩,
    bareWorkspace, Workspace.set_set]
  simp [modifyFirst, he, bareWorkspace]

theorem bare_patchRecord :
    propagate .rafL3Rtenv (sfPatchTpbrDeriveTo 1 7) (bareWorkspace r e) =
      .ok () (bareWorkspace (r.withAttr (r.attr.withDeriveTo 7) rfl) e) := by
  rw [propagate_eq_ok, sfPatchTpbrDeriveTo_run (bareWorkspace_record r e), bareWorkspace_set]

theorem bare_countRecord :
    fopenUpdate .rafL3Rtenv (.rtenv 1) (patchTpbrCounters 1 0) (bareWorkspace r e) =
      .ok () (bareWorkspace (r.withAttr (r.attr.addCounters 1 0) rfl) e) := by
  rw [fopenUpdate_ok (bareWorkspace_record r e) (patchTpbrCounters_run r 1 0),
    bareWorkspace_set]

theorem bare_countRow (he : e.id = 1) :
    orFail .rafL3Rtenv .fileIoFail (sfPatchTpbeCounters 1 1 0) (bareWorkspace r e) =
      .ok () (bareWorkspace r (e.addCounters 1 0)) := by
  rw [orFail_eq_ok, sfPatchTpbeCounters_found (bareWorkspace_table r e) ⟨e, by simp, he⟩,
    bareWorkspace, Workspace.set_set]
  simp [modifyFirst, he, bareWorkspace]

/-- First the one, then the other. -/
theorem exists_run_two_updates :
    ∃ t s, Run ProgStep bareUpdates t s ∧
      (∀ p ∈ t, RewritesUnchanged p.label p.state) ∧ ∀ i, s.prog i = .ret (.ok ()) := by
  have h₀ : Run ProgStep bareUpdates [] _ := .nil
  have h₁ := h₀.act_ok (i := true) rfl (bare_read _ _)
  have h₂ := h₁.act_ok (i := true) rfl (bare_write _ _)
  have h₃ := h₂.act_ok (i := true) rfl (bare_patchRow _ _ rfl)
  have h₄ := h₃.act_ok (i := true) rfl (bare_patchRecord _ _)
  have h₅ := h₄.act_ok (i := false) rfl (bare_countRecord _ _)
  have h₆ := h₅.act_ok (i := false) rfl (bare_countRow _ _ rfl)
  refine ⟨_, _, h₆, ?_, ?_⟩
  · intro p hp
    simp only [List.nil_append, List.cons_append, List.mem_cons, List.not_mem_nil,
      or_false] at hp
    rcases hp with rfl | rfl | rfl | rfl | rfl | rfl
    · trivial
    · exact ⟨bareRecord.view, recordRead_of_bytes (bareWorkspace_record _ _), rfl, rfl, rfl, rfl⟩
    · trivial
    · trivial
    · trivial
    · trivial
  · intro i
    cases i <;> rfl

theorem rtenv_updates_kept_two : ∃ t s v, Run ProgStep bareUpdates t s ∧
    tpbRafRecordReadRtenv 1 s.shared = .ok v s.shared ∧ v.attr.ntask.toNat = 1 ∧
    (deriveIds v.headers v.data).count 7 = 1 := by
  obtain ⟨t, s, hrun, hunchanged, hdone⟩ := exists_run_two_updates
  obtain ⟨v, hread, htask, -, hchildren⟩ := rtenv_updates_kept 1 _ _ bareRecord [] t s
    (bareWorkspace_record _ _) rfl bareRecord_holds List.nodup_nil hrun hunchanged hdone
  refine ⟨t, s, v, hrun, hread, ?_, hchildren 7 (.inr ⟨true, by simp⟩)⟩
  rw [htask]
  decide

/-- The task is counted between the reading and the writing of the registration. Both calls
succeed, and the task is lost. -/
theorem rtenv_update_lost :
    DeriveHolds bareRecord.view.headers bareRecord.view.data [] ∧
      ∃ t s v, Run ProgStep bareUpdates t s ∧ (∀ i, s.prog i = .ret (.ok ())) ∧
        tpbRafRecordReadRtenv 1 s.shared = .ok v s.shared ∧
        v.attr.ntask.toNat ≠ (bareRecord.attr.ntask.toNat + 1) % 2 ^ 32 := by
  have h₀ : Run ProgStep bareUpdates [] _ := .nil
  have h₁ := h₀.act_ok (i := true) rfl (bare_read _ _)
  have h₂ := h₁.act_ok (i := false) rfl (bare_countRecord _ _)
  have h₃ := h₂.act_ok (i := true) rfl (bare_write _ _)
  have h₄ := h₃.act_ok (i := true) rfl (bare_patchRow _ _ rfl)
  have h₅ := h₄.act_ok (i := true) rfl (bare_patchRecord _ _)
  have h₆ := h₅.act_ok (i := false) rfl (bare_countRow _ _ rfl)
  refine ⟨bareRecord_holds, _, _, _, h₆, ?_, recordRead_of_bytes (bareWorkspace_record _ _), ?_⟩
  · intro i
    cases i <;> rfl
  · decide

end Samples

end TPBench
