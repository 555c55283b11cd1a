import TPBench.Task.Select

/-!
# The Program of `task export`

`tpbcli task export` writes two files for each selected record, counts the records that
succeeded and the records that failed, and returns an error when one failed. The records of a
capsule are its root and its members, and a member that is listed twice is exported once.

The model follows `_sf_export_work` call by call. Every read of a record, every write or removal
of a file and every choice of a directory is at a place of the export (`ExportCall`) and can fail
there (`ExportInput.fault`), and files may be there from before. What happened to the records is
kept in a log, which the code does not have.

## Main results

* `endState_tpbcliTaskExport`: the log is told by the input, place by place (`ExportInput.events`),
  and the counters and the files are those that belong to it.
* `tpbcliTaskExport_ok_iff`: the command succeeds if and only if all that happened is that pairs
  were written.
-/

open CFile

namespace TPBench

/-! ### Input -/

/-- A member filter, `tpbcli_task_export_filter_t`. -/
inductive ExportFilter
  | subrank (ranks : List ℤ)
  | subtid (prefixes : List Bytes)

/-- A work root, `tpbcli_task_export_work_t`; `single` is the kept member, when there is
one. -/
structure ExportWork where
  rootId : Id20
  single : Option Id20

/-- The pair of files of a record: in the directory of a work, with the name of a capsule or
not. -/
structure ExportTarget where
  dir : ℕ
  capsule : Bool
  id : Id20
  deriving DecidableEq

/-- The two files of a pair. -/
inductive ExportPart
  | metaFile
  | dataFile
  deriving DecidableEq

/-- A call that can fail: the reads in `_sf_export_work` of the root and of a member of a work, and
the calls of `_sf_export_one_id` for a member, or for the record of the work itself. -/
inductive ExportCall
  | rootRead (work : ℕ)
  | memberRead (work i : ℕ)
  | read (work : ℕ) (member : Option ℕ)
  | write (work : ℕ) (member : Option ℕ) (part : ExportPart)
  | unlink (work : ℕ) (member : Option ℕ)
  deriving DecidableEq

/-- What an export depends on: the workspace, in which reading a record has a meaning, the
calls that fail with the errors they return, the files that are there before, the filters, and the
works that were selected or the error of the selection. The directory of a work is empty, unless it
cannot be listed. -/
structure ExportInput where
  ws : Workspace
  fault : ExportCall → Option (Module × Cause)
  dirFault : ℕ → Option (Module × Cause)
  before : ExportTarget × ExportPart → Bool
  filters : List ExportFilter
  works : Except (Module × Cause) (List ExportWork)
  defined : ∀ id, ReadDefined ws id

/-- How a pair fails: at its meta file, or at its data file. Then the meta file is removed, unless
it is kept because this fails too. -/
inductive PairFault
  | metaFile
  | dataFile (kept : Bool)
  deriving DecidableEq

/-- What happened to a record. `stray` is a member that cannot be read and that the filters
exclude. -/
inductive ExportEvent
  | readFailed (id : Id20)
  | stray (id : Id20)
  | pairFailed (t : ExportTarget) (fault : PairFault)
  | written (t : ExportTarget)
  | otherFailed
  deriving DecidableEq

/-- The counters of the command and the files that are there. -/
structure ExportLedger where
  ok : ℕ
  fail : ℕ
  files : ExportTarget × ExportPart → Bool

/-- The state of an export: the ledger and the log. -/
structure ExportState where
  ledger : ExportLedger
  log : List ExportEvent

/-- Nothing has happened. -/
def ExportState.start (I : ExportInput) : ExportState := ⟨⟨0, 0, I.before⟩, []⟩

/-- Programs over an export. -/
abbrev ExportM := EStateM Err ExportState

/-! ### The program -/

/-- A change of the ledger, and the event it belongs to. -/
def ExportState.note (s : ExportState) (f : ExportLedger → ExportLedger) (e : ExportEvent) :
    ExportState :=
  ⟨f s.ledger, s.log ++ [e]⟩

/-- `(*fail_out)++`. -/
def ExportLedger.countFail (l : ExportLedger) : ExportLedger := { l with fail := l.fail + 1 }

/-- `tpb_raf_record_read_task`. -/
def exportRead (I : ExportInput) (call : ExportCall) (id : Id20) :
    Except Err (RecordView TaskAttr) :=
  match I.fault call with
  | some (m, c) => .error (.code m c)
  | none =>
      match tpbRafRecordReadTask id true I.ws with
      | .ok v _ => .ok v
      | .error e _ => .error e

/-- `_sf_atomic_file`: the file is there when the call succeeds, and as it was before when it
fails. -/
def sfAtomicFile (I : ExportInput) (call : ExportCall) (t : ExportTarget) (part : ExportPart) :
    ExportM Unit := fun s =>
  match I.fault call with
  | some (m, c) => .error (.code m c) s
  | none =>
      .ok () { s with
        ledger := { s.ledger with files := Function.update s.ledger.files (t, part) true } }

/-- The failure exits of `_sf_export_pair`: the counter is set, not incremented, and a meta
file without its data file is removed if this does not fail. -/
def ExportLedger.pairFailed (t : ExportTarget) (fault : PairFault) (l : ExportLedger) :
    ExportLedger where
  ok := l.ok
  fail := 1
  files :=
    match fault with
    | .metaFile => l.files
    | .dataFile kept => Function.update l.files (t, .metaFile) kept

/-- `_sf_export_pair`. -/
def sfExportPair (I : ExportInput) (work : ℕ) (member : Option ℕ) (t : ExportTarget) :
    ExportM Unit := fun s =>
  match sfAtomicFile I (.write work member .metaFile) t .metaFile s with
  | .error e s => .error e
      (s.note (ExportLedger.pairFailed t .metaFile) (.pairFailed t .metaFile))
  | .ok () s =>
      match sfAtomicFile I (.write work member .dataFile) t .dataFile s with
      | .error e s =>
          let fault := .dataFile (I.fault (.unlink work member)).isSome
          .error e (s.note (ExportLedger.pairFailed t fault) (.pairFailed t fault))
      | .ok () s => .ok () s

/-- `_sf_export_one_id`. -/
def sfExportOneId (I : ExportInput) (work : ℕ) (member : Option ℕ) (t : ExportTarget) :
    ExportM Unit := fun s =>
  match exportRead I (.read work member) t.id with
  | .error e => .error e (s.note ExportLedger.countFail (.readFailed t.id))
  | .ok _ =>
      match sfExportPair I work member t s with
      | .error e s => .error e s
      | .ok () s => .ok () (s.note (fun l => { l with ok := l.ok + 1 }) (.written t))

/-- A digit of `%x`, and `%08x`. -/
def hex08 (n : ℕ) : Bytes :=
  ((List.range 8).reverse.map fun i => n / 16 ^ i % 16).map fun d =>
    UInt8.ofNat (if d < 10 then 48 + d else 87 + d)

/-- `_sf_member_passes` on the members of a capsule, for one filter. -/
def ExportFilter.passes (subrank : ℕ) (tid : UInt32) : ExportFilter → Bool
  | .subrank ranks => ranks.any (· = subrank)
  | .subtid prefixes => prefixes.any fun p => p.isPrefixOf (hex08 tid.toNat)

/-- `_sf_member_passes` on the members of a capsule. -/
def sfMemberPasses (filters : List ExportFilter) (subrank : ℕ) (tid : UInt32) : Bool :=
  filters.all (·.passes subrank tid)

/-- The filters that can be evaluated without the record let the member pass. -/
def rankPasses (filters : List ExportFilter) (subrank : ℕ) : Bool :=
  filters.all fun
    | .subrank ranks => ranks.any (· = subrank)
    | .subtid _ => true

/-- The event of a member that cannot be read. -/
def unreadMember (I : ExportInput) (subrank : ℕ) (id : Id20) : ExportEvent :=
  if rankPasses I.filters subrank then .readFailed id else .stray id

/-- The table of the members that were met takes a member, as long as it has a place. -/
def seenStep (seen : List Id20) (id : Id20) : List Id20 :=
  if seen.length < 32 then seen ++ [id] else seen

/-- The loop of `_sf_export_work` over the members of a capsule; `seen` is the table of the
members that were met. -/
def memberLoop (I : ExportInput) (work : ℕ) :
    ℕ → List Id20 → List Id20 → ExportState → ExportState
  | _, [], _, s => s
  | i, id :: ids, seen, s =>
      match exportRead I (.memberRead work i) id with
      | .error _ =>
          memberLoop I work (i + 1) ids seen (s.note ExportLedger.countFail (unreadMember I i id))
      | .ok v =>
          if !sfMemberPasses I.filters i v.attr.tid || id ∈ seen then
            memberLoop I work (i + 1) ids seen s
          else
            match sfExportOneId I work (some i) ⟨work, false, id⟩ s with
            | .ok () s => memberLoop I work (i + 1) ids (seenStep seen id) s
            | .error _ s => memberLoop I work (i + 1) ids (seenStep seen id) s

/-- An error exit that concerns no record. -/
def otherError {α : Type} (e : Err) : ExportM α := fun s => .error e (s.note id .otherFailed)

/-- The part of `_sf_export_work` behind the export of the root. -/
def exportMembers (I : ExportInput) (work : ℕ) (root : Id20) (v : RecordView TaskAttr) :
    ExportM Unit := fun s =>
  match tpbcliTaskReadCapsuleMembers v with
  | .error e => .error e (s.note ExportLedger.countFail (.readFailed root))
  | .ok ids => .ok () (memberLoop I work 0 ids [] s)

/-- `_sf_export_work` on the work with the number `i`. -/
def sfExportWork (I : ExportInput) (i : ℕ) (work : ExportWork) : ExportM Unit := fun s =>
  if I.filters ≠ [] ∧ work.single.isSome then otherError (.code .cliMisc .cliFail) s
  else match I.dirFault i with
    | some (m, c) => otherError ((Err.code m c).propagated .cliMisc) s
    | none =>
        match work.single with
        | some id => sfExportOneId I i none ⟨i, false, id⟩ s
        | none =>
            match exportRead I (.rootRead i) work.rootId with
            | .error e =>
                .error (e.propagated .cliMisc)
                  (s.note ExportLedger.countFail (.readFailed work.rootId))
            | .ok v =>
                let isCapsule := tpbcliTaskConfirmCapsule v
                if I.filters ≠ [] ∧ !isCapsule then otherError (.code .cliMisc .cliFail) s
                else
                  match sfExportOneId I i none ⟨i, isCapsule, work.rootId⟩ s with
                  | .error e s => .error e s
                  | .ok () s =>
                      if isCapsule then exportMembers I i work.rootId v s else .ok () s

/-- The loop of `tpbcli_task_export` over the works; `finalErr` is the last error of a work. -/
def exportWorks (I : ExportInput) :
    ℕ → List ExportWork → Option Err → ExportState → Option Err × ExportState
  | _, [], finalErr, s => (finalErr, s)
  | i, work :: works, finalErr, s =>
      match sfExportWork I i work s with
      | .ok () s => exportWorks I (i + 1) works finalErr s
      | .error e s => exportWorks I (i + 1) works (some e) s

/-- `tpbcli_task_export`. -/
def tpbcliTaskExport (I : ExportInput) : EStateM.Result Err ExportState Unit :=
  match I.works with
  | .error (m, c) => otherError ((Err.code m c).propagated .cliMisc) (.start I)
  | .ok works =>
      match exportWorks I 0 works none (.start I) with
      | (some e, s) => .error e s
      | (none, s) => if s.ledger.fail > 0 then .error (.code .none .cliFail) s else .ok () s

/-- The state a command ends in. -/
def endState : EStateM.Result Err ExportState Unit → ExportState
  | .ok _ s => s
  | .error _ s => s

/-! ### What happens at the places of an export -/

/-- What an event does to the ledger. -/
def ExportLedger.apply (l : ExportLedger) : ExportEvent → ExportLedger
  | .readFailed _ => l.countFail
  | .stray _ => l.countFail
  | .pairFailed t fault => l.pairFailed t fault
  | .written t =>
      { l with
        ok := l.ok + 1
        files := Function.update (Function.update l.files (t, .metaFile) true) (t, .dataFile) true }
  | .otherFailed => l

/-- A state behind more events. -/
def ExportState.emits (s : ExportState) (evs : List ExportEvent) : ExportState :=
  ⟨evs.foldl ExportLedger.apply s.ledger, s.log ++ evs⟩

/-- What happens to the record of a work, or to a member of it, when it is exported. -/
def exportOutcome (I : ExportInput) (work : ℕ) (member : Option ℕ) (t : ExportTarget) :
    ExportEvent :=
  match exportRead I (.read work member) t.id with
  | .error _ => .readFailed t.id
  | .ok _ =>
      if (I.fault (.write work member .metaFile)).isSome then .pairFailed t .metaFile
      else if (I.fault (.write work member .dataFile)).isSome then
        .pairFailed t (.dataFile (I.fault (.unlink work member)).isSome)
      else .written t

/-- What happens to the members of a capsule. -/
def memberEvents (I : ExportInput) (work : ℕ) : ℕ → List Id20 → List Id20 → List ExportEvent
  | _, [], _ => []
  | i, id :: ids, seen =>
      match exportRead I (.memberRead work i) id with
      | .error _ => unreadMember I i id :: memberEvents I work (i + 1) ids seen
      | .ok v =>
          if !sfMemberPasses I.filters i v.attr.tid || id ∈ seen then
            memberEvents I work (i + 1) ids seen
          else
            exportOutcome I work (some i) ⟨work, false, id⟩ ::
              memberEvents I work (i + 1) ids (seenStep seen id)

/-- The event is the export of a pair. -/
def ExportEvent.IsWritten (e : ExportEvent) : Prop := ∃ t, e = .written t

/-- The members of a work that are exported, when the export comes to them: the root is a capsule
and its pair is written. -/
def exportedMembers (I : ExportInput) (i : ℕ) (work : ExportWork) (v : RecordView TaskAttr) :
    Option (Except Err (List Id20)) :=
  if tpbcliTaskConfirmCapsule v ∧
      exportOutcome I i none ⟨i, true, work.rootId⟩ = .written ⟨i, true, work.rootId⟩ then
    some (tpbcliTaskReadCapsuleMembers v)
  else none

/-- What happens to the records of a work. -/
def workEvents (I : ExportInput) (i : ℕ) (work : ExportWork) : List ExportEvent :=
  if I.filters ≠ [] ∧ work.single.isSome then [.otherFailed]
  else if (I.dirFault i).isSome then [.otherFailed]
  else
    match work.single with
    | some id => [exportOutcome I i none ⟨i, false, id⟩]
    | none =>
        match exportRead I (.rootRead i) work.rootId with
        | .error _ => [.readFailed work.rootId]
        | .ok v =>
            if I.filters ≠ [] ∧ !tpbcliTaskConfirmCapsule v then [.otherFailed]
            else
              exportOutcome I i none ⟨i, tpbcliTaskConfirmCapsule v, work.rootId⟩ ::
                match exportedMembers I i work v with
                | none => []
                | some (.error _) => [.readFailed work.rootId]
                | some (.ok ids) => memberEvents I i 0 ids []

/-- What happens in an export. -/
def ExportInput.events (I : ExportInput) : List ExportEvent :=
  match I.works with
  | .error _ => [.otherFailed]
  | .ok works => works.zipIdx.flatMap fun p => workEvents I p.2 p.1

/-! ### The program and the events -/

section Emits

variable {I : ExportInput} {s : ExportState}

theorem note_eq_emits {f : ExportLedger → ExportLedger} {e : ExportEvent}
    (h : f s.ledger = s.ledger.apply e) : s.note f e = s.emits [e] := by
  rw [ExportState.note, h]
  rfl

@[simp] theorem emits_nil : s.emits [] = s := by
  rw [ExportState.emits, List.append_nil]
  rfl

theorem emits_append (a b : List ExportEvent) : s.emits (a ++ b) = (s.emits a).emits b := by
  simp only [ExportState.emits, List.foldl_append, List.append_assoc]

theorem emits_cons (e : ExportEvent) (evs : List ExportEvent) :
    s.emits (e :: evs) = (s.emits [e]).emits evs :=
  emits_append [e] evs

/-- A record is exported, or the call fails; what happens is told by the place. -/
theorem sfExportOneId_eq (work : ℕ) (member : Option ℕ) (t : ExportTarget) :
    (exportOutcome I work member t = .written t ∧
        sfExportOneId I work member t s = .ok () (s.emits [.written t])) ∨
      (¬(exportOutcome I work member t).IsWritten ∧
        ∃ e, sfExportOneId I work member t s =
          .error e (s.emits [exportOutcome I work member t])) := by
  rw [sfExportOneId, exportOutcome]
  cases exportRead I (.read work member) t.id with
  | error e => exact .inr ⟨by simp [ExportEvent.IsWritten], e, rfl⟩
  | ok v =>
      dsimp only
      rcases hmeta : I.fault (.write work member .metaFile) with - | ⟨m, c⟩
      · rcases hdata : I.fault (.write work member .dataFile) with - | ⟨m, c⟩
        · refine .inl ⟨by simp, ?_⟩
          simp only [sfExportPair, sfAtomicFile, hmeta, hdata]
          rfl
        · refine .inr ⟨by simp [ExportEvent.IsWritten], .code m c, ?_⟩
          simp only [sfExportPair, sfAtomicFile, hmeta, hdata, Option.isSome_none,
            Option.isSome_some, Bool.false_eq_true, if_false, if_true]
          rw [ExportState.note, ExportLedger.pairFailed, ExportState.emits]
          simp only [Function.update_idem]
          rfl
      · refine .inr ⟨by simp [ExportEvent.IsWritten], .code m c, ?_⟩
        simp only [sfExportPair, sfAtomicFile, hmeta, Option.isSome_some, if_true]
        rfl

theorem note_unreadMember (i : ℕ) (id : Id20) :
    s.note ExportLedger.countFail (unreadMember I i id) = s.emits [unreadMember I i id] := by
  refine note_eq_emits ?_
  rw [unreadMember]
  split_ifs
  · rfl
  · rfl

/-- **The members of a capsule**: what happens is told by the places. -/
theorem memberLoop_eq (work i : ℕ) (ids seen : List Id20) (s : ExportState) :
    memberLoop I work i ids seen s = s.emits (memberEvents I work i ids seen) := by
  induction ids generalizing i seen s with
  | nil => exact emits_nil.symm
  | cons id ids ih =>
      rw [memberLoop, memberEvents]
      cases exportRead I (.memberRead work i) id with
      | error e =>
          dsimp only
          rw [ih, note_unreadMember, ← emits_cons]
      | ok v =>
          dsimp only
          split_ifs
          · exact ih (i + 1) seen s
          · rw [emits_cons]
            rcases @sfExportOneId_eq I s work (some i) ⟨work, false, id⟩ with
              ⟨hout, hone⟩ | ⟨-, e, hone⟩
            · rw [hone, hout]
              exact ih (i + 1) _ _
            · rw [hone]
              exact ih (i + 1) _ _

/-- No event of a member is an error that concerns no record. -/
theorem otherFailed_not_mem_memberEvents (work i : ℕ) (ids seen : List Id20) :
    ExportEvent.otherFailed ∉ memberEvents I work i ids seen := by
  induction ids generalizing i seen with
  | nil => exact List.not_mem_nil
  | cons id ids ih =>
      rw [memberEvents]
      cases exportRead I (.memberRead work i) id with
      | error e =>
          dsimp only
          rw [List.mem_cons, not_or, unreadMember]
          refine ⟨?_, ih (i + 1) seen⟩
          split_ifs
          · simp
          · simp
      | ok v =>
          dsimp only
          split_ifs
          · exact ih (i + 1) seen
          · rw [List.mem_cons, not_or]
            refine ⟨?_, ih (i + 1) _⟩
            rw [exportOutcome]
            split
            · simp
            · split_ifs
              · simp
              · simp
              · simp

/-- What a work comes to: an error comes with a failure, and a failure that concerns no record with
an error. -/
structure WorkDone (s : ExportState) (evs : List ExportEvent)
    (r : EStateM.Result Err ExportState Unit) : Prop where
  state : endState r = s.emits evs
  error : ∀ e s', r = .error e s' → ∃ ev ∈ evs, ¬ev.IsWritten
  ok : ∀ s', r = .ok () s' → .otherFailed ∉ evs

theorem workDone_error {e : Err} {ev : ExportEvent} (hev : ¬ev.IsWritten) :
    WorkDone s [ev] (.error e (s.emits [ev])) where
  state := rfl
  error _ _ _ := ⟨ev, List.mem_singleton_self ev, hev⟩
  ok _ h := by cases h

theorem workDone_otherError (e : Err) : WorkDone s [.otherFailed] (otherError e s) :=
  workDone_error (by simp [ExportEvent.IsWritten])

theorem workDone_oneId (work : ℕ) (member : Option ℕ) (t : ExportTarget) :
    WorkDone s [exportOutcome I work member t] (sfExportOneId I work member t s) := by
  rcases @sfExportOneId_eq I s work member t with ⟨hout, hone⟩ | ⟨hnot, e, hone⟩
  · rw [hone, hout]
    exact ⟨rfl, fun e s' h => (by cases h), fun s' _ => by simp⟩
  · rw [hone]
    exact workDone_error hnot

/-- **A work**: what happens is told by the places. -/
theorem workDone_sfExportWork (i : ℕ) (work : ExportWork) :
    WorkDone s (workEvents I i work) (sfExportWork I i work s) := by
  rw [sfExportWork, workEvents]
  split_ifs with hkept hdir
  · exact workDone_otherError _
  · obtain ⟨⟨m, c⟩, hdir⟩ := Option.isSome_iff_exists.mp hdir
    rw [hdir]
    exact workDone_otherError _
  rw [Bool.not_eq_true, Option.isSome_eq_false_iff, Option.isNone_iff_eq_none] at hdir
  rw [hdir]
  dsimp only
  cases work.single with
  | some id => exact workDone_oneId i none _
  | none =>
      dsimp only
      cases exportRead I (.rootRead i) work.rootId with
      | error e => exact workDone_error (by simp [ExportEvent.IsWritten])
      | ok v =>
          dsimp only
          by_cases hfilters : I.filters ≠ [] ∧ (!tpbcliTaskConfirmCapsule v) = true
          · rw [if_pos hfilters, if_pos hfilters]
            exact workDone_otherError _
          rw [if_neg hfilters, if_neg hfilters]
          have hdone := @workDone_oneId I s i none ⟨i, tpbcliTaskConfirmCapsule v, work.rootId⟩
          rcases @sfExportOneId_eq I s i none ⟨i, tpbcliTaskConfirmCapsule v, work.rootId⟩ with
            ⟨hout, hone⟩ | ⟨hnot, e, hone⟩
          · rw [hone, hout, exportedMembers]
            dsimp only
            by_cases hcap : tpbcliTaskConfirmCapsule v = true
            · rw [hcap] at hout ⊢
              rw [if_pos rfl, if_pos (⟨rfl, hout⟩ : _ ∧ _), exportMembers]
              cases tpbcliTaskReadCapsuleMembers v with
              | error e =>
                  refine ⟨?_, fun _ _ _ => ⟨.readFailed work.rootId, ?_, ?_⟩, fun _ h => ?_⟩
                  · exact (emits_cons (s := s) _ [.readFailed work.rootId]).symm
                  · simp
                  · simp [ExportEvent.IsWritten]
                  · cases h
              | ok ids =>
                  refine ⟨?_, fun e s' h => ?_, fun s' _ => ?_⟩
                  · exact (memberLoop_eq _ _ _ _ _).trans (emits_cons _ _).symm
                  · cases h
                  · simpa using otherFailed_not_mem_memberEvents i 0 ids []
            · rw [if_neg hcap, if_neg fun h => hcap h.1]
              rw [hone, hout] at hdone
              exact hdone
          · have hnone : exportedMembers I i work v = none := by
              rw [exportedMembers]
              refine if_neg fun ⟨hcap, hout⟩ => hnot ?_
              rw [hcap]
              exact ⟨_, hout⟩
            rw [hnone, hone]
            rw [hone] at hdone
            exact hdone

/-- **The works**: an error is kept, a new one comes from a failure, and a failure that concerns
no record leaves an error. -/
theorem exportWorks_spec (i : ℕ) (works : List ExportWork) (finalErr : Option Err)
    (s : ExportState) :
    (exportWorks I i works finalErr s).2 =
        s.emits ((works.zipIdx i).flatMap fun p => workEvents I p.2 p.1) ∧
      (finalErr.isSome ∨
          .otherFailed ∈ (works.zipIdx i).flatMap (fun p => workEvents I p.2 p.1) →
        (exportWorks I i works finalErr s).1.isSome) ∧
      ((exportWorks I i works finalErr s).1.isSome → finalErr.isSome ∨
        ∃ ev ∈ (works.zipIdx i).flatMap (fun p => workEvents I p.2 p.1), ¬ev.IsWritten) := by
  induction works generalizing i finalErr s with
  | nil =>
      refine ⟨emits_nil.symm, ?_, .inl⟩
      rintro (h | h)
      · exact h
      · cases h
  | cons work works ih =>
      have hdone := @workDone_sfExportWork I s i work
      rw [exportWorks, List.zipIdx_cons, List.flatMap_cons, emits_append, ← hdone.state]
      simp only [List.mem_append]
      rcases hrun : sfExportWork I i work s with ⟨u, s₁⟩ | ⟨e, s₁⟩
      · obtain ⟨hstate, hkeep, hnew⟩ := ih (i + 1) finalErr s₁
        refine ⟨hstate, ?_, fun hsome => ?_⟩
        · rintro (hsome | hother | hother)
          · exact hkeep (.inl hsome)
          · exact absurd hother (hdone.ok s₁ hrun)
          · exact hkeep (.inr hother)
        · rcases hnew hsome with hfinal | ⟨ev, hmem, hev⟩
          · exact .inl hfinal
          · exact .inr ⟨ev, .inr hmem, hev⟩
      · obtain ⟨hstate, hkeep, -⟩ := ih (i + 1) (some e) s₁
        obtain ⟨ev, hmem, hev⟩ := hdone.error e s₁ hrun
        exact ⟨hstate, fun _ => hkeep (.inl rfl), fun _ => .inr ⟨ev, .inl hmem, hev⟩⟩

end Emits

/-! ### The whole export -/

/-- The ledger behind a log. -/
def replay (before : ExportTarget × ExportPart → Bool) (log : List ExportEvent) : ExportLedger :=
  log.foldl ExportLedger.apply ⟨0, 0, before⟩

theorem replay_concat (before : ExportTarget × ExportPart → Bool) (log : List ExportEvent)
    (e : ExportEvent) : replay before (log ++ [e]) = (replay before log).apply e := by
  rw [replay, List.foldl_append]
  rfl

/-- **What an export leaves**: the events of its places, and the ledger that belongs to them. -/
theorem endState_tpbcliTaskExport (I : ExportInput) :
    endState (tpbcliTaskExport I) = ⟨replay I.before I.events, I.events⟩ := by
  have hstart (evs : List ExportEvent) :
      (ExportState.start I).emits evs = ⟨replay I.before evs, evs⟩ := rfl
  rw [← hstart, tpbcliTaskExport, ExportInput.events]
  rcases I.works with ⟨m, c⟩ | works
  · rfl
  · have hstate := (@exportWorks_spec I 0 works none (.start I)).1
    dsimp only
    rw [← hstate]
    rcases exportWorks I 0 works none (.start I) with ⟨- | e, s⟩
    · dsimp only
      split_ifs
      · rfl
      · rfl
    · rfl

/-- What an event adds to the failures. -/
theorem fail_apply_eq_zero {l : ExportLedger} {ev : ExportEvent} :
    (l.apply ev).fail = 0 ↔ l.fail = 0 ∧ (ev.IsWritten ∨ ev = .otherFailed) := by
  cases ev with
  | readFailed id => simp [ExportLedger.apply, ExportLedger.countFail, ExportEvent.IsWritten]
  | stray id => simp [ExportLedger.apply, ExportLedger.countFail, ExportEvent.IsWritten]
  | pairFailed t fault =>
      simp [ExportLedger.apply, ExportLedger.pairFailed, ExportEvent.IsWritten]
  | written t => simp [ExportLedger.apply, ExportEvent.IsWritten]
  | otherFailed => simp [ExportLedger.apply]

/-- The failure counter is zero only as long as no record has failed. -/
theorem fail_replay_eq_zero {before : ExportTarget × ExportPart → Bool} {log : List ExportEvent} :
    (replay before log).fail = 0 ↔ ∀ ev ∈ log, ev.IsWritten ∨ ev = .otherFailed := by
  induction log using List.reverseRecOn with
  | nil => simp [replay]
  | append_singleton log e ih =>
      rw [replay_concat, fail_apply_eq_zero, ih]
      simp only [List.mem_append, List.mem_singleton, or_imp, forall_and, forall_eq]

/-- **The command succeeds** if and only if all that happens is that pairs are written. -/
theorem tpbcliTaskExport_ok_iff (I : ExportInput) :
    (∃ s, tpbcliTaskExport I = .ok () s) ↔ ∀ ev ∈ I.events, ev.IsWritten := by
  have hend := endState_tpbcliTaskExport I
  rw [tpbcliTaskExport] at hend ⊢
  rcases hworks : I.works with ⟨m, c⟩ | works
  · simp [otherError, ExportInput.events, hworks, ExportEvent.IsWritten]
  · obtain ⟨-, hkeep, hnew⟩ := @exportWorks_spec I 0 works none (.start I)
    have hevents : I.events = works.zipIdx.flatMap fun p => workEvents I p.2 p.1 := by
      rw [ExportInput.events, hworks]
    rw [← hevents] at hkeep hnew
    simp only [hworks] at hend ⊢
    rcases hrun : exportWorks I 0 works none (.start I) with ⟨- | e, s⟩
    · rw [hrun] at hend hkeep hnew
      have hother : ExportEvent.otherFailed ∉ I.events := fun hmem =>
        absurd (hkeep (.inr hmem)) (by simp)
      have hledger : s.ledger = replay I.before I.events := by
        dsimp only at hend
        split_ifs at hend
        · exact congrArg ExportState.ledger hend
        · exact congrArg ExportState.ledger hend
      have hzero : s.ledger.fail = 0 ↔ ∀ ev ∈ I.events, ev.IsWritten := by
        rw [hledger, fail_replay_eq_zero]
        constructor
        · intro hall ev hev
          rcases hall ev hev with hw | rfl
          · exact hw
          · exact absurd hev hother
        · exact fun hall ev hev => .inl (hall ev hev)
      simp only
      rw [← hzero]
      split_ifs with hfail
      · refine iff_of_false (fun ⟨s', h⟩ => by cases h) (by omega)
      · exact iff_of_true ⟨s, rfl⟩ (by omega)
    · rw [hrun] at hnew
      refine iff_of_false (fun ⟨s', h⟩ => by cases h) fun hall => ?_
      rcases hnew rfl with hnone | ⟨ev, hmem, hev⟩
      · cases hnone
      · exact hev (hall ev hmem)

end TPBench
