import TPBench.Task.Selection

/-!
# The Bookkeeping of `task export`

The counters of an export and its files are told by what happens at its places (`Export.lean`).
They are right in every state of a run exactly when the input is in order (`InOrder`,
`export_bookkeeping`). There are six ways for it not to be:

* a member is listed again behind 32 others that are exported: the table of the members that were
  met has 32 places;
* a member is the root of its capsule, or is exported by another work: members are compared only
  with the members of their own capsule;
* a member that cannot be read is counted before it is compared with the filters, and each time it
  is listed;
* a failed pair sets the failure counter to one instead of adding one, so that the failures before
  it are forgotten;
* a meta file is not removed when its data file fails, because this fails too, or it is removed
  although there is a data file, from before or from another export of the record;
* a meta file fails where half of a pair is there from before.
-/

open CFile

namespace TPBench

/-! ### The books -/

/-- The records whose pair was written, in order. -/
def writtenIds (log : List ExportEvent) : List Id20 :=
  log.filterMap fun
    | .written t => some t.id
    | _ => none

/-- The selected records that could not be read or written, in order. -/
def failedIds (log : List ExportEvent) : List Id20 :=
  log.filterMap fun
    | .readFailed id => some id
    | .pairFailed t _ => some t.id
    | _ => none

/-- The export has dealt with the files of a pair. -/
def Touched (log : List ExportEvent) (t : ExportTarget) : Prop :=
  .written t ∈ log ∨ ∃ fault, .pairFailed t fault ∈ log

/-- The books are right behind a log: no record was exported twice, a record has both its
files or none, the data files are those from before and those of the pairs that were written, and
the counters are the numbers of distinct records. -/
structure BooksRight (before : ExportTarget × ExportPart → Bool) (log : List ExportEvent)
    (l : ExportLedger) : Prop where
  once : (writtenIds log).Nodup
  pairs : ∀ t, Touched log t → l.files (t, .metaFile) = l.files (t, .dataFile)
  present : ∀ t, l.files (t, .dataFile) = true ↔ before (t, .dataFile) = true ∨ .written t ∈ log
  succeeded : l.ok = (writtenIds log).eraseDups.length
  failed : l.fail = (failedIds log).eraseDups.length

/-! ### Steps -/

/-- A pair that fails leaves both files or none: when the meta file fails, there was no half of the
pair from before, and when the data file fails, the meta file is removed, or kept where there is a
data file. -/
def LeavesPair (before : ExportTarget × ExportPart → Bool) (pre : List ExportEvent)
    (t : ExportTarget) : PairFault → Prop
  | .metaFile => Touched pre t ∨ before (t, .metaFile) = before (t, .dataFile)
  | .dataFile kept => kept = true ↔ before (t, .dataFile) = true ∨ .written t ∈ pre

/-- A failure is in order behind others: a record that cannot be read has not failed before, and
when a pair fails, no other record has failed before, and both files are left or none. -/
def FailsInOrder (before : ExportTarget × ExportPart → Bool) (pre : List ExportEvent) :
    ExportEvent → Prop
  | .readFailed id => id ∉ failedIds pre
  | .pairFailed t fault => (∀ id ∈ failedIds pre, id = t.id) ∧ LeavesPair before pre t fault
  | _ => True

/-- A step keeps the books right: it is in order if it is a failure, concerns a selected record, and
is not the second export of a record. -/
def KeepsBooks (before : ExportTarget × ExportPart → Bool) (pre : List ExportEvent)
    (e : ExportEvent) : Prop :=
  FailsInOrder before pre e ∧ (∀ id, e ≠ .stray id) ∧ ∀ t, e = .written t → t.id ∉ writtenIds pre

section Steps

variable {before : ExportTarget × ExportPart → Bool} {log : List ExportEvent}

/-- The data files are those from before and those of the pairs that were written. -/
theorem files_replay {t : ExportTarget} :
    (replay before log).files (t, .dataFile) = true ↔
      before (t, .dataFile) = true ∨ .written t ∈ log := by
  induction log using List.reverseRecOn with
  | nil => simp [replay]
  | append_singleton log e ih =>
      rw [replay_concat, List.mem_append, List.mem_singleton, ← or_assoc, ← ih]
      cases e with
      | readFailed id => simp [ExportLedger.apply, ExportLedger.countFail]
      | stray id => simp [ExportLedger.apply, ExportLedger.countFail]
      | pairFailed t' fault =>
          cases fault with
          | metaFile => simp [ExportLedger.apply, ExportLedger.pairFailed]
          | dataFile kept =>
              simp [ExportLedger.apply, ExportLedger.pairFailed, Function.update_of_ne]
      | written t' =>
          by_cases ht : t = t'
          · subst ht
            simp [ExportLedger.apply]
          · simp [ExportLedger.apply, Function.update_of_ne, ht]
      | otherFailed => simp [ExportLedger.apply]

/-- The files of a pair that the export has not dealt with are those from before. -/
theorem files_replay_of_not_touched {t : ExportTarget} (h : ¬Touched log t) (part : ExportPart) :
    (replay before log).files (t, part) = before (t, part) := by
  induction log using List.reverseRecOn with
  | nil => rfl
  | append_singleton log e ih =>
      have hlog : ¬Touched log t := by
        rintro (hw | ⟨fault, hf⟩)
        · exact h (.inl (List.mem_append_left _ hw))
        · exact h (.inr ⟨fault, List.mem_append_left _ hf⟩)
      rw [replay_concat, ← ih hlog]
      cases e with
      | readFailed id => rfl
      | stray id => rfl
      | pairFailed t' fault =>
          have ht : t ≠ t' := by
            rintro rfl
            exact h (.inr ⟨fault, by simp⟩)
          cases fault with
          | metaFile => rfl
          | dataFile kept =>
              simp [ExportLedger.apply, ExportLedger.pairFailed, Function.update_of_ne, ht]
      | written t' =>
          have ht : t ≠ t' := by
            rintro rfl
            exact h (.inl (by simp))
          simp [ExportLedger.apply, Function.update_of_ne, ht]
      | otherFailed => rfl

/-- One element more is the only distinct one when all elements are equal to it. -/
theorem length_eraseDups_concat_eq_one {α : Type} [DecidableEq α] {as : List α} {a : α} :
    (as ++ [a]).eraseDups.length = 1 ↔ ∀ x ∈ as, x = a := by
  constructor
  · intro h x hx
    obtain ⟨b, hb⟩ := List.length_eq_one_iff.mp h
    have hmem : ∀ y ∈ as ++ [a], y = b := by
      intro y hy
      rw [← List.mem_eraseDups, hb, List.mem_singleton] at hy
      exact hy
    rw [hmem x (by simp [hx]), hmem a (by simp)]
  · intro h
    induction as with
    | nil => rfl
    | cons x as ih =>
        obtain rfl := h x (by simp)
        have hfilter : (as ++ [x]).filter (fun y => !y == x) = [] := by
          rw [List.filter_eq_nil_iff]
          intro y hy
          rcases List.mem_append.mp hy with hy | hy
          · simp [h y (by simp [hy])]
          · simp [List.mem_singleton.mp hy]
        rw [List.cons_append, List.eraseDups_cons, hfilter]
        rfl

/-- An event that touches no files leaves the pairs. -/
theorem touched_concat_of_not {e : ExportEvent} (hw : ∀ t, e ≠ .written t)
    (hf : ∀ t fault, e ≠ .pairFailed t fault) (t : ExportTarget) :
    Touched (log ++ [e]) t ↔ Touched log t := by
  simp only [Touched, List.mem_append, List.mem_singleton]
  constructor
  · rintro ((h | h) | ⟨fault, h | h⟩)
    · exact .inl h
    · exact absurd h.symm (hw t)
    · exact .inr ⟨fault, h⟩
    · exact absurd h.symm (hf t fault)
  · rintro (h | ⟨fault, h⟩)
    · exact .inl (.inl h)
    · exact .inr ⟨fault, .inl h⟩

theorem touched_concat_pairFailed {t u : ExportTarget} {fault : PairFault} :
    Touched (log ++ [.pairFailed t fault]) u ↔ Touched log u ∨ u = t := by
  simp only [Touched, List.mem_append, List.mem_singleton, reduceCtorEq, or_false,
    ExportEvent.pairFailed.injEq]
  constructor
  · rintro (h | ⟨fault', h | ⟨rfl, -⟩⟩)
    · exact .inl (.inl h)
    · exact .inl (.inr ⟨fault', h⟩)
    · exact .inr rfl
  · rintro ((h | ⟨fault', h⟩) | rfl)
    · exact .inl h
    · exact .inr ⟨fault', .inl h⟩
    · exact .inr ⟨fault, .inr ⟨rfl, rfl⟩⟩

/-- A failed pair leaves pairs behind exactly when it leaves its own. -/
theorem pairs_pairFailed {t : ExportTarget} {fault : PairFault}
    (h : ∀ u, Touched log u →
      (replay before log).files (u, .metaFile) = (replay before log).files (u, .dataFile)) :
    (∀ u, Touched (log ++ [.pairFailed t fault]) u →
        (replay before (log ++ [.pairFailed t fault])).files (u, .metaFile) =
          (replay before (log ++ [.pairFailed t fault])).files (u, .dataFile)) ↔
      LeavesPair before log t fault := by
  simp only [touched_concat_pairFailed, replay_concat, ExportLedger.apply]
  cases fault with
  | metaFile =>
      constructor
      · intro hall
        by_cases ht : Touched log t
        · exact .inl ht
        · refine .inr ?_
          have hpair := hall t (.inr rfl)
          simpa [ExportLedger.pairFailed, files_replay_of_not_touched ht] using hpair
      · rintro hleaves u (hu | rfl)
        · exact h u hu
        · rcases hleaves with ht | hbefore
          · exact h u ht
          · by_cases ht : Touched log u
            · exact h u ht
            · simpa [ExportLedger.pairFailed, files_replay_of_not_touched ht] using hbefore
  | dataFile kept =>
      have hdata : ∀ u, ((replay before log).pairFailed t (.dataFile kept)).files (u, .dataFile) =
          (replay before log).files (u, .dataFile) := fun u =>
        Function.update_of_ne (by simp) _ _
      have hmeta : ((replay before log).pairFailed t (.dataFile kept)).files (t, .metaFile) =
          kept := Function.update_self _ _ _
      have hother : ∀ u, u ≠ t →
          ((replay before log).pairFailed t (.dataFile kept)).files (u, .metaFile) =
            (replay before log).files (u, .metaFile) := fun u hu =>
        Function.update_of_ne (by simp [hu]) _ _
      rw [LeavesPair, ← files_replay, ← Bool.eq_iff_iff]
      constructor
      · intro hall
        rw [← hmeta, ← hdata]
        exact hall t (.inr rfl)
      · intro hkept u hu
        by_cases hut : u = t
        · subst hut
          rw [hmeta, hdata]
          exact hkept
        · rw [hother u hut, hdata]
          exact h u (hu.resolve_right hut)

/-- An ID that cannot be read is counted as failed; the books stay right if it had not failed
yet. -/
theorem booksRight_readFailed (h : BooksRight before log (replay before log)) (id : Id20) :
    BooksRight before (log ++ [.readFailed id]) (replay before (log ++ [.readFailed id])) ↔
      id ∉ failedIds log := by
  have hw : writtenIds (log ++ [.readFailed id]) = writtenIds log := by simp [writtenIds]
  have hf : failedIds (log ++ [.readFailed id]) = failedIds log ++ [id] := by
    simp [failedIds]
  have hcount : (replay before log).fail + 1 = (failedIds log ++ [id]).eraseDups.length ↔
      id ∉ failedIds log := by
    rw [Uniq.eraseDups_concat, h.failed]
    split_ifs with hmem
    · simp [hmem]
    · simp [hmem]
  rw [← hcount]
  constructor
  · intro h'
    have := h'.failed
    rwa [hf, replay_concat] at this
  · intro hfail
    refine ⟨by rw [hw]; exact h.once, fun t ht => ?_, fun t => files_replay, ?_, ?_⟩
    · rw [touched_concat_of_not (by simp) (by simp)] at ht
      rw [replay_concat]
      exact h.pairs t ht
    · rw [hw, replay_concat]
      exact h.succeeded
    · rw [hf, replay_concat]
      exact hfail

/-- A pair that fails keeps the books right if the IDs that failed are all its own, and both its
files are left or none. -/
theorem booksRight_pairFailed (h : BooksRight before log (replay before log)) (t : ExportTarget)
    (fault : PairFault) :
    BooksRight before (log ++ [.pairFailed t fault])
        (replay before (log ++ [.pairFailed t fault])) ↔
      FailsInOrder before log (.pairFailed t fault) := by
  have hw : writtenIds (log ++ [.pairFailed t fault]) = writtenIds log := by
    simp [writtenIds]
  have hf : failedIds (log ++ [.pairFailed t fault]) = failedIds log ++ [t.id] := by
    simp [failedIds]
  rw [FailsInOrder, ← length_eraseDups_concat_eq_one, ← hf, ← pairs_pairFailed h.pairs]
  constructor
  · intro h'
    refine ⟨?_, h'.pairs⟩
    have hfail := h'.failed
    rw [replay_concat] at hfail
    exact hfail.symm
  · rintro ⟨hfail, hfiles⟩
    refine ⟨by rw [hw]; exact h.once, hfiles, fun t => files_replay, ?_, ?_⟩
    · rw [hw, replay_concat]
      exact h.succeeded
    · rw [hfail, replay_concat]
      rfl

/-- A pair that is written keeps the books right if its ID is new. -/
theorem booksRight_written (h : BooksRight before log (replay before log)) (t : ExportTarget) :
    BooksRight before (log ++ [.written t]) (replay before (log ++ [.written t])) ↔
      t.id ∉ writtenIds log := by
  have hw : writtenIds (log ++ [.written t]) = writtenIds log ++ [t.id] := by
    simp [writtenIds]
  have hf : failedIds (log ++ [.written t]) = failedIds log := by simp [failedIds]
  constructor
  · intro h' hmem
    have honce := h'.once
    rw [hw, List.nodup_append] at honce
    exact honce.2.2 t.id hmem t.id (by simp) rfl
  · intro hnew
    refine ⟨?_, ?_, fun t => files_replay, ?_, ?_⟩
    · rw [hw, List.nodup_append]
      refine ⟨h.once, by simp, ?_⟩
      rintro a ha b hb rfl
      rw [List.mem_singleton.mp hb] at ha
      exact hnew ha
    · intro u hu
      rw [replay_concat]
      by_cases hut : u = t
      · subst hut
        simp [ExportLedger.apply]
      · have hlog : Touched log u := by
          simpa [Touched, List.mem_append, hut] using hu
        simpa [ExportLedger.apply, Function.update_of_ne, hut] using h.pairs u hlog
    · rw [hw, Uniq.eraseDups_concat, if_neg hnew, List.length_append, List.length_singleton,
        ← h.succeeded, replay_concat]
      rfl
    · rw [hf, replay_concat]
      exact h.failed

/-- **The step lemma**: from right books, a step leads to right books exactly when it keeps them. -/
theorem booksRight_concat (h : BooksRight before log (replay before log)) (e : ExportEvent) :
    BooksRight before (log ++ [e]) (replay before (log ++ [e])) ↔ KeepsBooks before log e := by
  cases e with
  | readFailed id =>
      rw [booksRight_readFailed h id]
      exact ⟨fun hid => ⟨hid, by simp, by simp⟩, fun hkeeps => hkeeps.1⟩
  | stray id =>
      have hf : failedIds (log ++ [.stray id]) = failedIds log := by simp [failedIds]
      refine ⟨fun h' => ?_, fun hkeeps => absurd rfl (hkeeps.2.1 id)⟩
      have hfail := h'.failed
      rw [hf, ← h.failed, replay_concat] at hfail
      exact absurd hfail (Nat.succ_ne_self _)
  | pairFailed t fault =>
      rw [booksRight_pairFailed h t fault]
      exact ⟨fun hf => ⟨hf, by simp, by simp⟩, fun hkeeps => hkeeps.1⟩
  | written t =>
      rw [booksRight_written h t]
      refine ⟨fun hnew => ⟨trivial, by simp, ?_⟩, fun hkeeps => hkeeps.2.2 t rfl⟩
      rintro u hu
      obtain rfl := ExportEvent.written.inj hu
      exact hnew
  | otherFailed =>
      have hw : writtenIds (log ++ [.otherFailed]) = writtenIds log := by simp [writtenIds]
      have hf : failedIds (log ++ [.otherFailed]) = failedIds log := by simp [failedIds]
      refine ⟨fun _ => ⟨trivial, by simp, by simp⟩, fun _ => ?_⟩
      refine ⟨by rw [hw]; exact h.once, fun t ht => ?_, fun t => files_replay, ?_, ?_⟩
      · rw [touched_concat_of_not (by simp) (by simp)] at ht
        rw [replay_concat]
        exact h.pairs t ht
      · rw [hw, replay_concat]
        exact h.succeeded
      · rw [hf, replay_concat]
        exact h.failed

theorem booksRight_nil : BooksRight before [] (replay before []) where
  once := List.nodup_nil
  pairs := by
    rintro t (h | ⟨fault, h⟩)
    · cases h
    · cases h
  present := fun t => by simp [replay]
  succeeded := rfl
  failed := rfl

/-- **The run lemma**: the books are right behind every step of a log exactly when all its steps
keep them. -/
theorem booksRight_iff_keeps :
    (∀ pre, pre <+: log → BooksRight before pre (replay before pre)) ↔
      ∀ pre e, pre ++ [e] <+: log → KeepsBooks before pre e := by
  constructor
  · intro h pre e hpre
    have hbefore : pre <+: log := (List.prefix_append pre [e]).trans hpre
    exact (booksRight_concat (h pre hbefore) e).mp (h _ hpre)
  · intro h pre
    induction pre using List.reverseRecOn with
    | nil => exact fun _ => booksRight_nil
    | append_singleton pre e ih =>
        intro hpre
        have hbefore : pre <+: log := (List.prefix_append pre [e]).trans hpre
        exact (booksRight_concat (ih hbefore) e).mpr (h pre e hpre)

/-- The exported records are distinct when none is exported again. -/
theorem nodup_writtenIds_iff : (writtenIds log).Nodup ↔
    ∀ pre e, pre ++ [e] <+: log → ∀ t, e = .written t → t.id ∉ writtenIds pre := by
  constructor
  · rintro hnodup pre e ⟨post, rfl⟩ t rfl
    have hids : writtenIds (pre ++ [.written t] ++ post) =
        writtenIds pre ++ t.id :: writtenIds post := by
      simp [writtenIds]
    rw [hids, List.nodup_append] at hnodup
    exact fun hmem => hnodup.2.2 t.id hmem t.id List.mem_cons_self rfl
  · intro hnew
    induction log using List.reverseRecOn with
    | nil => exact List.nodup_nil
    | append_singleton log e ih =>
        have hlog := ih fun pre e' hpre => hnew pre e' (hpre.trans (List.prefix_append _ _))
        have hlast := hnew log e (List.prefix_refl _)
        cases e with
        | written t =>
            have hids : writtenIds (log ++ [.written t]) = writtenIds log ++ [t.id] := by
              simp [writtenIds]
            rw [hids, List.nodup_append]
            refine ⟨hlog, List.nodup_singleton _, ?_⟩
            rintro a ha b hb rfl
            rw [List.mem_singleton.mp hb] at ha
            exact hlast t rfl ha
        | readFailed id => simpa [writtenIds] using hlog
        | stray id => simpa [writtenIds] using hlog
        | pairFailed t fault => simpa [writtenIds] using hlog
        | otherFailed => simpa [writtenIds] using hlog

/-- All steps keep the books right when no record is exported twice, every event concerns a selected
record, and the failures are in order. -/
theorem keeps_iff : (∀ pre e, pre ++ [e] <+: log → KeepsBooks before pre e) ↔
    (writtenIds log).Nodup ∧ (∀ id, .stray id ∉ log) ∧
      ∀ pre e, pre ++ [e] <+: log → FailsInOrder before pre e := by
  rw [nodup_writtenIds_iff]
  constructor
  · intro h
    refine ⟨fun pre e hpre => (h pre e hpre).2.2, fun id hid => ?_,
      fun pre e hpre => (h pre e hpre).1⟩
    obtain ⟨pre, post, rfl⟩ := List.append_of_mem hid
    exact (h pre (.stray id) ⟨post, by simp⟩).2.1 id rfl
  · rintro ⟨honce, hstray, hfails⟩ pre e hpre
    refine ⟨hfails pre e hpre, ?_, honce pre e hpre⟩
    rintro id rfl
    exact hstray id (hpre.subset (List.mem_append_right _ (List.mem_singleton_self _)))

/-- Where every event concerns a selected record or none, all that happened is that pairs were
written when no selected record failed and nothing else did. -/
theorem isWritten_iff (hstray : ∀ id, .stray id ∉ log) :
    (∀ ev ∈ log, ev.IsWritten) ↔ failedIds log = [] ∧ .otherFailed ∉ log := by
  rw [failedIds, List.filterMap_eq_nil_iff]
  constructor
  · intro hall
    refine ⟨fun ev hev => ?_, fun hmem => ?_⟩
    · obtain ⟨t, rfl⟩ := hall ev hev
      rfl
    · obtain ⟨t, ht⟩ := hall _ hmem
      cases ht
  · rintro ⟨hfailed, hother⟩ ev hev
    have hev' := hfailed ev hev
    cases ev with
    | readFailed id => cases hev'
    | stray id => exact absurd hev (hstray id)
    | pairFailed t fault => cases hev'
    | written t => exact ⟨t, rfl⟩
    | otherFailed => exact absurd hev hother

end Steps

/-! ### The members of a capsule -/

/-- A member can be read and passes the filters. -/
def met (I : ExportInput) (work i : ℕ) (id : Id20) : Bool :=
  match exportRead I (.memberRead work i) id with
  | .error _ => false
  | .ok v => sfMemberPasses I.filters i v.attr.tid

/-- The members that are met, in order. -/
def metIds (I : ExportInput) (work : ℕ) (ids : List Id20) : List Id20 :=
  (ids.zipIdx.filter fun p => met I work p.2 p.1).map Prod.fst

/-- The first 32 distinct ones of them. -/
def firstMet (I : ExportInput) (work : ℕ) (ids : List Id20) : List Id20 :=
  (metIds I work ids).eraseDups.take 32

/-- A member can be exported: it is met, its second read does not fail, and neither does a write. -/
def canExport (I : ExportInput) (work i : ℕ) (id : Id20) : Bool :=
  met I work i id && exportOutcome I work (some i) ⟨work, false, id⟩ = .written ⟨work, false, id⟩

/-- What happens to a member, at its place in the list. -/
def memberEvent (I : ExportInput) (work : ℕ) (ids : List Id20) (i : ℕ) (id : Id20) :
    Option ExportEvent :=
  match exportRead I (.memberRead work i) id with
  | .error _ => some (unreadMember I i id)
  | .ok v =>
      if !sfMemberPasses I.filters i v.attr.tid || id ∈ firstMet I work (ids.take i) then none
      else some (exportOutcome I work (some i) ⟨work, false, id⟩)

section Members

variable {I : ExportInput} {work : ℕ}

theorem metIds_concat (ids : List Id20) (id : Id20) :
    metIds I work (ids ++ [id]) =
      metIds I work ids ++ if met I work ids.length id then [id] else [] := by
  rw [metIds, List.zipIdx_append, List.filter_append, List.map_append, metIds]
  congr 1
  simp only [List.zipIdx_cons, List.zipIdx_nil, Nat.zero_add, List.filter_singleton]
  cases met I work ids.length id with
  | true => rfl
  | false => rfl

/-- The table behind one more member that is met. -/
theorem firstMet_concat {ids : List Id20} {id : Id20} (hmet : met I work ids.length id = true) :
    firstMet I work (ids ++ [id]) =
      if id ∈ firstMet I work ids then firstMet I work ids
      else seenStep (firstMet I work ids) id := by
  rw [firstMet, metIds_concat, hmet, if_pos rfl, Uniq.eraseDups_concat]
  have hmem : id ∈ metIds I work ids ↔ id ∈ (metIds I work ids).eraseDups := List.mem_eraseDups.symm
  rw [firstMet, seenStep]
  simp only [hmem]
  generalize (metIds I work ids).eraseDups = seen
  rw [List.length_take]
  by_cases hin : id ∈ seen
  · rw [if_pos hin]
    split_ifs with htable hroom
    · rfl
    · -- a table with room has all members that were met
      have hall : seen.take 32 = seen := List.take_of_length_le (by omega)
      exact absurd (hall.symm ▸ hin) htable
    · rfl
  · have hout : id ∉ seen.take 32 := fun h => hin (List.mem_of_mem_take h)
    rw [if_neg hin, if_neg hout]
    split_ifs with hroom
    · rw [List.take_of_length_le (by simp; omega), List.take_of_length_le (by omega)]
    · exact List.take_append_of_le_length (by omega)

/-- A member that is not met is not in the table. -/
theorem firstMet_concat_of_not_met {ids : List Id20} {id : Id20}
    (hmet : met I work ids.length id = false) :
    firstMet I work (ids ++ [id]) = firstMet I work ids := by
  rw [firstMet, metIds_concat, hmet, if_neg Bool.false_ne_true, List.append_nil, firstMet]

/-- **The loop over the members**, place by place. -/
theorem memberEvents_eq (ids : List Id20) :
    memberEvents I work 0 ids [] =
      ids.zipIdx.filterMap fun p => memberEvent I work ids p.2 p.1 := by
  suffices h : ∀ done rest, memberEvents I work done.length rest (firstMet I work done) =
      (rest.zipIdx done.length).filterMap fun p => memberEvent I work (done ++ rest) p.2 p.1 from
    h [] ids
  intro done rest
  induction rest generalizing done with
  | nil => rfl
  | cons id rest ih =>
      have hnext := ih (done ++ [id])
      rw [List.length_append, List.length_singleton, List.append_assoc,
        List.singleton_append] at hnext
      have htake : (done ++ id :: rest).take done.length = done := List.take_left' rfl
      rw [List.zipIdx_cons, List.filterMap_cons, memberEvents, memberEvent, htake]
      cases hread : exportRead I (.memberRead work done.length) id with
      | error e =>
          have hmet : met I work done.length id = false := by rw [met, hread]
          rw [firstMet_concat_of_not_met hmet] at hnext
          dsimp only
          rw [hnext]
      | ok v =>
          have hmet : met I work done.length id =
              sfMemberPasses I.filters done.length v.attr.tid := by
            rw [met, hread]
          dsimp only
          cases hpasses : sfMemberPasses I.filters done.length v.attr.tid with
          | false =>
              rw [firstMet_concat_of_not_met (hmet.trans hpasses)] at hnext
              exact hnext
          | true =>
              rw [firstMet_concat (hmet.trans hpasses)] at hnext
              by_cases hseen : id ∈ firstMet I work done
              · rw [if_pos hseen] at hnext
                simp only [hseen, decide_true, Bool.not_true, Bool.false_or, if_true]
                exact hnext
              · rw [if_neg hseen] at hnext
                simp only [hseen, decide_false, Bool.not_true, Bool.false_or, Bool.false_eq_true,
                  if_false]
                rw [hnext]

theorem metIds_append (a b : List Id20) :
    ∃ c, metIds I work (a ++ b) = metIds I work a ++ c := by
  rw [metIds, List.zipIdx_append, List.filter_append, List.map_append]
  exact ⟨_, rfl⟩

/-- The table behind a part of the list is a part of the table. -/
theorem mem_firstMet_of_take {ids : List Id20} {k : ℕ} {x : Id20}
    (h : x ∈ firstMet I work (ids.take k)) : x ∈ firstMet I work ids := by
  obtain ⟨c, hc⟩ := @metIds_append I work (ids.take k) (ids.drop k)
  rw [List.take_append_drop] at hc
  rw [firstMet, hc, List.eraseDups_append, List.take_append]
  exact List.mem_append_left _ h

/-- Who is in the table, and was met by then, was in the table by then. -/
theorem mem_firstMet_take {ids : List Id20} {k : ℕ} {x : Id20} (h : x ∈ firstMet I work ids)
    (hmet : x ∈ metIds I work (ids.take k)) : x ∈ firstMet I work (ids.take k) := by
  obtain ⟨c, hc⟩ := @metIds_append I work (ids.take k) (ids.drop k)
  rw [List.take_append_drop] at hc
  rw [firstMet, hc, List.eraseDups_append, List.take_append, List.mem_append] at h
  rcases h with h | h
  · exact h
  · have hnew := List.mem_eraseDups.mp (List.mem_of_mem_take h)
    simp [List.removeAll, hmet] at hnew

theorem mem_metIds_take {ids : List Id20} {j k : ℕ} {x : Id20} (hjk : j < k)
    (hx : ids[j]? = some x) (hmet : met I work j x = true) : x ∈ metIds I work (ids.take k) := by
  refine List.mem_map.mpr ⟨(x, j), List.mem_filter.mpr ⟨?_, hmet⟩, rfl⟩
  rw [List.mk_mem_zipIdx_iff_getElem?, List.getElem?_take_of_lt hjk]
  exact hx

/-- The loop exports a member: it can be exported, and is not in the table. -/
def exports (I : ExportInput) (work : ℕ) (ids : List Id20) (i : ℕ) (id : Id20) : Bool :=
  canExport I work i id && id ∉ firstMet I work (ids.take i)

/-- What happens to a record is that it is written, or something else. -/
theorem exportOutcome_cases (member : Option ℕ) (t : ExportTarget) :
    exportOutcome I work member t = .written t ∨ exportOutcome I work member t = .readFailed t.id ∨
      ∃ fault, exportOutcome I work member t = .pairFailed t fault := by
  rw [exportOutcome]
  cases exportRead I (.read work member) t.id with
  | error e => exact .inr (.inl rfl)
  | ok v =>
      dsimp only
      split_ifs
      · exact .inr (.inr ⟨_, rfl⟩)
      · exact .inr (.inr ⟨_, rfl⟩)
      · exact .inl rfl

/-- The members that are written. -/
theorem writtenIds_memberEvents (ids : List Id20) :
    writtenIds (memberEvents I work 0 ids []) =
      ids.zipIdx.filterMap fun p => if exports I work ids p.2 p.1 then some p.1 else none := by
  rw [memberEvents_eq, writtenIds, List.filterMap_filterMap]
  refine List.filterMap_congr fun p _ => ?_
  obtain ⟨id, i⟩ := p
  rw [memberEvent, exports, canExport, met]
  cases exportRead I (.memberRead work i) id with
  | error e =>
      by_cases hrank : rankPasses I.filters i = true
      · simp [unreadMember, hrank]
      · simp [unreadMember, hrank]
  | ok v =>
      dsimp only
      by_cases hpasses : sfMemberPasses I.filters i v.attr.tid = true
      · by_cases hseen : id ∈ firstMet I work (ids.take i)
        · simp [hseen]
        · rcases @exportOutcome_cases I work (some i) ⟨work, false, id⟩ with h | h | ⟨fault, h⟩
          · simp [hpasses, hseen, h]
          · simp [hpasses, hseen, h]
          · simp [hpasses, hseen, h]
      · simp [hpasses]

theorem mem_writtenIds_memberEvents {ids : List Id20} {x : Id20} :
    x ∈ writtenIds (memberEvents I work 0 ids []) ↔
      ∃ i, ids[i]? = some x ∧ exports I work ids i x = true := by
  rw [writtenIds_memberEvents, List.mem_filterMap]
  constructor
  · rintro ⟨⟨id, i⟩, hmem, h⟩
    split_ifs at h with hexports
    obtain rfl := Option.some.inj h
    exact ⟨i, List.mk_mem_zipIdx_iff_getElem?.mp hmem, hexports⟩
  · rintro ⟨i, hi, hexports⟩
    exact ⟨(x, i), List.mk_mem_zipIdx_iff_getElem?.mpr hi, if_pos hexports⟩

/-- **The members are written once** if and only if each one that can be exported at two places is
one of the first 32 members that are met. -/
theorem nodup_writtenIds_memberEvents (ids : List Id20) :
    (writtenIds (memberEvents I work 0 ids [])).Nodup ↔
      ∀ x j k, j < k → ids[j]? = some x → ids[k]? = some x → canExport I work j x = true →
        canExport I work k x = true → x ∈ firstMet I work ids := by
  have hmet : ∀ {i x}, canExport I work i x = true → met I work i x = true := fun h =>
    (Bool.and_eq_true_iff.mp h).1
  have hpairs : (writtenIds (memberEvents I work 0 ids [])).Nodup ↔
      ∀ x j k, j < k → ids[j]? = some x → ids[k]? = some x →
        ¬(exports I work ids j x = true ∧ exports I work ids k x = true) := by
    rw [writtenIds_memberEvents, List.Nodup, List.pairwise_filterMap, List.pairwise_iff_getElem]
    simp only [List.getElem_zipIdx, List.length_zipIdx, Nat.zero_add]
    constructor
    · rintro h x j k hjk hj hk ⟨hej, hek⟩
      obtain ⟨hjl, hj⟩ := List.getElem?_eq_some_iff.mp hj
      obtain ⟨hkl, hk⟩ := List.getElem?_eq_some_iff.mp hk
      refine h j k hjl hkl hjk x ?_ x ?_ rfl
      · rw [hj]
        exact if_pos hej
      · rw [hk]
        exact if_pos hek
    · rintro h j k hjl hkl hjk b hb b' hb' rfl
      split_ifs at hb hb' with hej hek
      refine h b j k hjk ?_ ?_ ?_
      · rw [List.getElem?_eq_getElem hjl, hb]
      · rw [List.getElem?_eq_getElem hkl, hb']
      · rw [← Option.some.inj hb]
        refine ⟨hej, ?_⟩
        rw [Option.some.inj hb, ← Option.some.inj hb']
        exact hek
  rw [hpairs]
  constructor
  · intro h x j k hjk hj hk hcj hck
    by_contra hout
    refine h x j k hjk hj hk ⟨?_, ?_⟩
    · simp [exports, hcj, mt mem_firstMet_of_take hout]
    · simp [exports, hck, mt mem_firstMet_of_take hout]
  · rintro h x j k hjk hj hk ⟨hej, hek⟩
    simp only [exports, Bool.and_eq_true, decide_eq_true_eq] at hej hek
    have htable := h x j k hjk hj hk hej.1 hek.1
    exact hek.2 (mem_firstMet_take htable (mem_metIds_take hjk hj (hmet hej.1)))

end Members

/-! ### The works -/

/-- The works that were selected, with their numbers. -/
def ExportInput.selected (I : ExportInput) : List (ExportWork × ℕ) :=
  match I.works with
  | .error _ => []
  | .ok works => works.zipIdx

/-- The members of a work, when the export comes to them. -/
def membersOf (I : ExportInput) (p : ExportWork × ℕ) : Option (List Id20) :=
  if (I.dirFault p.2).isSome ∨ p.1.single.isSome then none
  else
    match exportRead I (.rootRead p.2) p.1.rootId with
    | .error _ => none
    | .ok v =>
        match exportedMembers I p.2 p.1 v with
        | some (.ok ids) => some ids
        | _ => none

/-- The records that a work writes. -/
def writtenBy (I : ExportInput) (p : ExportWork × ℕ) : List Id20 :=
  writtenIds (workEvents I p.2 p.1)

/-- An export is in order. -/
structure InOrder (I : ExportInput) : Prop where
  /-- A member that can be exported at two places of the list is one of the first 32 members that
  are met. -/
  repeats : ∀ p ∈ I.selected, ∀ ids, membersOf I p = some ids → ∀ x j k, j < k →
    ids[j]? = some x → ids[k]? = some x → canExport I p.2 j x = true →
      canExport I p.2 k x = true → x ∈ firstMet I p.2 ids
  /-- The root of a capsule is not one of the members that are exported. -/
  roots : ∀ p ∈ I.selected, ∀ ids, membersOf I p = some ids → ∀ k, ids[k]? = some p.1.rootId →
    exports I p.2 ids k p.1.rootId = false
  /-- No record is exported by two works. -/
  works : I.selected.Pairwise fun p q => (writtenBy I p).Disjoint (writtenBy I q)
  /-- A member that cannot be read is one that the subrank filters select. -/
  filtered : ∀ p ∈ I.selected, ∀ ids, membersOf I p = some ids → ∀ k x e, ids[k]? = some x →
    exportRead I (.memberRead p.2 k) x = .error e → rankPasses I.filters k = true
  /-- A record that cannot be read has not failed before; when a pair fails, no other record has
  failed before, and both its files are left or none. -/
  failures : ∀ pre e, pre ++ [e] <+: I.events → FailsInOrder I.before pre e

section Works

variable {I : ExportInput}

/-- A work writes its root and its members, or has no members. -/
theorem workEvents_cases (p : ExportWork × ℕ) :
    (∃ ids, membersOf I p = some ids ∧ workEvents I p.2 p.1 =
        .written ⟨p.2, true, p.1.rootId⟩ :: memberEvents I p.2 0 ids []) ∨
      membersOf I p = none ∧ (writtenBy I p).length ≤ 1 ∧
        ∀ id, .stray id ∉ workEvents I p.2 p.1 := by
  obtain ⟨work, i⟩ := p
  have hone : ∀ t, (writtenIds [exportOutcome I i none t]).length ≤ 1 ∧
      ∀ id, .stray id ∉ [exportOutcome I i none t] := by
    intro t
    rcases @exportOutcome_cases I i none t with h | h | ⟨fault, h⟩
    · simp [h, writtenIds]
    · simp [h, writtenIds]
    · simp [h, writtenIds]
  rw [membersOf, writtenBy, workEvents]
  dsimp only
  by_cases hkept : I.filters ≠ [] ∧ work.single.isSome = true
  · rw [if_pos hkept, if_pos (.inr hkept.2)]
    exact .inr ⟨rfl, by simp [writtenIds], by simp⟩
  rw [if_neg hkept]
  by_cases hdir : (I.dirFault i).isSome = true
  · rw [if_pos hdir, if_pos (.inl hdir)]
    exact .inr ⟨rfl, by simp [writtenIds], by simp⟩
  rw [if_neg hdir]
  cases hsingle : work.single with
  | some id =>
      rw [if_pos (.inr rfl)]
      exact .inr ⟨rfl, hone _⟩
  | none =>
      rw [if_neg (not_or.mpr ⟨hdir, by simp⟩)]
      cases exportRead I (.rootRead i) work.rootId with
      | error e => exact .inr ⟨rfl, by simp [writtenIds], by simp⟩
      | ok v =>
          dsimp only
          by_cases hfilters : I.filters ≠ [] ∧ (!tpbcliTaskConfirmCapsule v) = true
          · have hcap : ¬tpbcliTaskConfirmCapsule v = true := by simpa using hfilters.2
            rw [if_pos hfilters, exportedMembers, if_neg fun h => hcap h.1]
            exact .inr ⟨rfl, by simp [writtenIds], by simp⟩
          rw [if_neg hfilters, exportedMembers]
          split_ifs with hcap
          · rw [hcap.1, hcap.2]
            cases tpbcliTaskReadCapsuleMembers v with
            | error e => exact .inr ⟨rfl, by simp [writtenIds], by simp⟩
            | ok ids => exact .inl ⟨ids, rfl, rfl⟩
          · exact .inr ⟨rfl, hone _⟩

/-- **A work writes its records once** if and only if its members are written once, and its root is
none of them. -/
theorem nodup_writtenBy_iff (p : ExportWork × ℕ) : (writtenBy I p).Nodup ↔
    ∀ ids, membersOf I p = some ids →
      (∀ k, ids[k]? = some p.1.rootId → exports I p.2 ids k p.1.rootId = false) ∧
        (writtenIds (memberEvents I p.2 0 ids [])).Nodup := by
  rcases workEvents_cases (I := I) p with ⟨ids, hids, hevents⟩ | ⟨hnone, hle, -⟩
  · have hwritten : writtenBy I p = p.1.rootId :: writtenIds (memberEvents I p.2 0 ids []) := by
      rw [writtenBy, hevents]
      rfl
    rw [hwritten, List.nodup_cons, mem_writtenIds_memberEvents, hids]
    simp only [Option.some.injEq, forall_eq', not_exists, not_and, Bool.not_eq_true]
  · rw [hnone]
    refine iff_of_true ?_ (by simp)
    rcases h : writtenBy I p with - | ⟨x, xs⟩
    · exact List.nodup_nil
    · rw [h, List.length_cons] at hle
      obtain rfl := List.length_eq_zero_iff.mp (by omega : xs.length = 0)
      exact List.nodup_singleton x

/-- A work has no failure of a record that is not selected if and only if its members that cannot be
read pass the subrank filters. -/
theorem stray_not_mem_iff (p : ExportWork × ℕ) : (∀ id, .stray id ∉ workEvents I p.2 p.1) ↔
    ∀ ids, membersOf I p = some ids → ∀ k x e, ids[k]? = some x →
      exportRead I (.memberRead p.2 k) x = .error e → rankPasses I.filters k = true := by
  rcases workEvents_cases (I := I) p with ⟨ids, hids, hevents⟩ | ⟨hnone, -, hstray⟩
  · rw [hevents, hids]
    simp only [Option.some.injEq, forall_eq', List.mem_cons, reduceCtorEq, false_or,
      memberEvents_eq, List.mem_filterMap, Prod.exists, List.mk_mem_zipIdx_iff_getElem?, not_exists,
      not_and]
    constructor
    · intro h k x e hk hread
      by_contra hrank
      refine h x x k hk ?_
      rw [memberEvent, hread]
      simp [unreadMember, hrank]
    · intro h id x k hk hevent
      rw [memberEvent] at hevent
      cases hread : exportRead I (.memberRead p.2 k) x with
      | error e =>
          rw [hread] at hevent
          simp [unreadMember, h k x e hk hread] at hevent
      | ok v =>
          rw [hread] at hevent
          dsimp only at hevent
          split_ifs at hevent
          rcases @exportOutcome_cases I p.2 (some k) ⟨p.2, false, x⟩ with h' | h' | ⟨fault, h'⟩
          · simp [h'] at hevent
          · simp [h'] at hevent
          · simp [h'] at hevent
  · rw [hnone]
    exact iff_of_true hstray (by simp)

theorem writtenIds_events :
    writtenIds I.events = I.selected.flatMap (writtenBy I) := by
  rw [ExportInput.events, ExportInput.selected]
  cases I.works with
  | error e => rfl
  | ok works =>
      dsimp only
      rw [writtenIds, List.filterMap_flatMap]
      rfl

theorem stray_mem_events {id : Id20} :
    .stray id ∈ I.events ↔ ∃ p ∈ I.selected, .stray id ∈ workEvents I p.2 p.1 := by
  rw [ExportInput.events, ExportInput.selected]
  cases I.works with
  | error e => simp
  | ok works => exact List.mem_flatMap

/-- **An export is in order** if and only if every step keeps the books right. -/
theorem inOrder_iff : InOrder I ↔ ∀ pre e, pre ++ [e] <+: I.events → KeepsBooks I.before pre e := by
  have hstray : (∀ id, .stray id ∉ I.events) ↔ ∀ p ∈ I.selected, ∀ ids, membersOf I p = some ids →
      ∀ k x e, ids[k]? = some x → exportRead I (.memberRead p.2 k) x = .error e →
        rankPasses I.filters k = true := by
    simp only [← stray_not_mem_iff, stray_mem_events, not_exists, not_and]
    exact ⟨fun h p hp id => h id p hp, fun h id p hp => h p hp id⟩
  rw [keeps_iff, writtenIds_events, List.nodup_flatMap, hstray]
  simp only [nodup_writtenBy_iff, nodup_writtenIds_memberEvents]
  constructor
  · intro h
    exact ⟨⟨fun p hp ids hids => ⟨h.roots p hp ids hids, h.repeats p hp ids hids⟩, h.works⟩,
      h.filtered, h.failures⟩
  · rintro ⟨⟨hmembers, hworks⟩, hfiltered, hfailures⟩
    exact ⟨fun p hp ids hids => (hmembers p hp ids hids).2,
      fun p hp ids hids => (hmembers p hp ids hids).1, hworks, hfiltered, hfailures⟩

end Works

/-- **The bookkeeping of an export.** For every selection, every workspace and every pattern
of failures: the counters and the files of the command are those of its log, the books are
right in every state of the run and the command succeeds exactly when no selected record
failed and nothing else did, if and only if the export is in order. -/
theorem export_bookkeeping (I : ExportInput) :
    (endState (tpbcliTaskExport I)).ledger =
        replay I.before (endState (tpbcliTaskExport I)).log ∧
    (((∀ pre, pre <+: (endState (tpbcliTaskExport I)).log →
          BooksRight I.before pre (replay I.before pre)) ∧
        ((∃ s, tpbcliTaskExport I = .ok () s) ↔
          failedIds (endState (tpbcliTaskExport I)).log = [] ∧
            .otherFailed ∉ (endState (tpbcliTaskExport I)).log)) ↔
      InOrder I) := by
  rw [endState_tpbcliTaskExport, tpbcliTaskExport_ok_iff, inOrder_iff]
  refine ⟨rfl, ?_⟩
  constructor
  · rintro ⟨hbooks, -⟩
    exact booksRight_iff_keeps.mp hbooks
  · intro hkeeps
    exact ⟨booksRight_iff_keeps.mpr hkeeps, isWritten_iff (keeps_iff.mp hkeeps).2.1⟩

/-- The file of a plain task record. -/
def plainBytes : Bytes := (Record.bare (F := taskFormat) TaskAttr.zero nheader_taskZero).bytes

/-- A workspace with two plain task records. -/
def twoRecords : Workspace :=
  (Workspace.empty.set (.record .task (zeroArr 20)) plainBytes).set (.record .task secondId)
    plainBytes

theorem read_twoRecords (id : Id20) :
    tpbRafRecordReadTask id true twoRecords =
      if id = zeroArr 20 ∨ id = secondId then
        .ok (Record.bare (F := taskFormat) TaskAttr.zero rfl).view twoRecords
      else .error (.code .rafL2Task .fileIoFail) twoRecords := by
  have hne : (Path.record .task id = .record .task secondId) ↔ id = secondId := by simp
  split_ifs with h
  · refine recordRead_of_bytes ?_
    by_cases hsecond : id = secondId
    · rw [hsecond]
      exact Workspace.set_files_same _ _ _
    · obtain rfl := h.resolve_right hsecond
      rw [twoRecords, Workspace.set_files_of_ne _ _ (mt hne.mp hsecond)]
      exact Workspace.set_files_same _ _ _
  · obtain ⟨hfirst, hsecond⟩ := not_or.mp h
    have hnone : twoRecords.files (.record .task id) = none := by
      rw [twoRecords, Workspace.set_files_of_ne _ _ (mt hne.mp hsecond),
        Workspace.set_files_of_ne _ _ (by simpa using hfirst)]
      rfl
    rw [tpbRafRecordReadTask, recordRead, fopenRead, hnone]
    rfl

/-- Two kept records whose files cannot be written. -/
def twoUnwritable : ExportInput where
  ws := twoRecords
  fault
    | .write _ _ _ => some (.cliMisc, .fileIoFail)
    | _ => none
  dirFault _ := none
  before _ := false
  filters := []
  works := .ok [⟨zeroArr 20, some (zeroArr 20)⟩, ⟨secondId, some secondId⟩]
  defined := by
    intro id ws'
    rw [read_twoRecords]
    split_ifs
    · simp
    · simp

/-- Two records fail, and the command reports one failure. -/
theorem export_two_failures :
    (endState (tpbcliTaskExport twoUnwritable)).ledger.fail = 1 ∧
      failedIds (endState (tpbcliTaskExport twoUnwritable)).log = [zeroArr 20, secondId] ∧
      ¬ BooksRight twoUnwritable.before (endState (tpbcliTaskExport twoUnwritable)).log
        (endState (tpbcliTaskExport twoUnwritable)).ledger := by
  have hfirst := read_twoRecords (zeroArr 20)
  have hsecond := read_twoRecords secondId
  rw [if_pos (.inl rfl)] at hfirst
  rw [if_pos (.inr rfl)] at hsecond
  have hevents : twoUnwritable.events = [.pairFailed ⟨0, false, zeroArr 20⟩ .metaFile,
      .pairFailed ⟨1, false, secondId⟩ .metaFile] := by
    simp [ExportInput.events, workEvents, exportOutcome, exportRead, hfirst, hsecond, twoUnwritable]
  rw [endState_tpbcliTaskExport, hevents]
  have hids : failedIds [.pairFailed ⟨0, false, zeroArr 20⟩ .metaFile,
      .pairFailed ⟨1, false, secondId⟩ .metaFile] = [zeroArr 20, secondId] := rfl
  refine ⟨rfl, hids, fun hbooks => ?_⟩
  have hfail := hbooks.failed
  rw [hids] at hfail
  exact absurd hfail (by decide +kernel)

end TPBench
