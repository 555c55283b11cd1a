import TPBench.Mpi.WriteTask
import TPBench.Raf.Frames

/-!
# Derived Records and Capsules in the Store

The ranks of the MPI kernel work on one store. This module says what the calls behind the
barrier do to the two things the kernel is for: a record that is derived to the capsule
(`Derived`), and the file of the capsule with its list of tasks (`CapsuleFile`).

A derivation changes 20 bytes of a record and of its row, an append changes the file of the
capsule. Neither undoes the other, also when one of the tasks is the capsule itself: a
derivation keeps the list of the capsule (`CapsuleFile.setDeriveTo`) and what is derived to
the same capsule (`Derived.setDeriveTo`), and an append keeps all derivations
(`CapsuleFile.append`).
-/

open CFile Conc

namespace TPBench

/-! ### What the calls leave alone -/

theorem Frames.faulty {α : Type} {P : Path → Prop} {m : WsM α} (fault : Option Err)
    (hm : Frames P m) : Frames P (faulty fault m) := by
  cases fault with
  | none => exact hm
  | some e => exact fun ws p _ => rfl

/-! ### Successful reads -/

theorem fread_cases (k : ℕ) (c : Bytes) (p : ℕ) :
    fread k ⟨c, p⟩ = .ok (pread c p k) ⟨c, p + k⟩ ∨
      ∃ e s', fread k ⟨c, p⟩ = .error e s' ∧ s'.content = c := by
  simp only [fread, freadTry]
  by_cases h : (pread c p k).length = k
  · exact .inl (by simp [h])
  · exact .inr ⟨.fail, ⟨c, max p c.length⟩, by simp [h], rfl⟩

theorem fread_eq_ok {k : ℕ} {c : Bytes} {p : ℕ} {bs : Bytes} {s : Stream}
    (h : fread k ⟨c, p⟩ = .ok bs s) : bs = pread c p k ∧ s = ⟨c, p + k⟩ := by
  rcases fread_cases k c p with hok | ⟨e, s', herr, -⟩
  · rw [h] at hok
    cases hok
    exact ⟨rfl, rfl⟩
  · rw [h] at herr
    cases herr

theorem check_eq_ok {σ : Type} {q : Prop} [Decidable q] {s s' : σ} {u : Unit}
    (h : check q s = .ok u s') : s' = s := by
  rw [check] at h
  split at h
  · cases h
    rfl
  · cases h

theorem readU64_eq_ok {c : Bytes} {p : ℕ} {v : UInt64} {s : Stream}
    (h : readU64 ⟨c, p⟩ = .ok v s) : s = ⟨c, p + 8⟩ := by
  obtain ⟨bs, s', hread, hret⟩ := bind_eq_ok.mp h
  cases hret
  exact (fread_eq_ok hread).2

theorem readArr_eq_ok {n : ℕ} {c : Bytes} {p : ℕ} {v : CArr n} {s : Stream}
    (h : readArr n ⟨c, p⟩ = .ok v s) : v = toArr n (pread c p n) ∧ s = ⟨c, p + n⟩ := by
  obtain ⟨bs, s', hread, hret⟩ := bind_eq_ok.mp h
  cases hret
  obtain ⟨rfl, rfl⟩ := fread_eq_ok hread
  exact ⟨rfl, rfl⟩

/-! ### Derivations -/

/-- The record of a task is derived to `d`: the field at offset 44 holds its ID. -/
def Derived (ws : Workspace) (x d : Id20) : Prop :=
  ∃ f, ws.files (.record .task x) = some f ∧ pread f 44 20 = d.toList

/-- A block is read back from where it was written. -/
theorem pread_pwrite_self (f bs : Bytes) (off : ℕ) :
    pread (pwrite f off bs) off bs.length = bs := by
  have hlen : (f.take off ++ List.replicate (off - f.length) 0).length = off := by
    rw [List.length_append, List.length_take, List.length_replicate]
    omega
  rw [pwrite, List.append_assoc, pread_append_right hlen.le, hlen, Nat.sub_self]
  exact pread_append_self rfl

theorem pread_pwrite_id (f : Bytes) (d : Id20) :
    pread (pwrite f 44 d.toList) 44 20 = d.toList := by
  have h := pread_pwrite_self f d.toList 44
  rwa [d.toList_length] at h

/-- A record that is derived to `d` is read so. -/
theorem Derived.deriveTo {ws : Workspace} {x d : Id20} (h : Derived ws x d) {want : Bool}
    {v : RecordView TaskAttr} (hread : tpbRafRecordReadTask x want ws = .ok v ws) :
    v.attr.deriveTo = d := by
  obtain ⟨f, hf, hd⟩ := h
  obtain ⟨-, f', s, hf', hrun⟩ := fopenRead_eq_ok hread
  rw [hf] at hf'
  cases hf'
  simp only [readRecord, bind_eq_ok] at hrun
  obtain ⟨_, s₁, hmagic, _, s₂, hcheck, _, s₃, hmeta, _, s₄, hsize, a, s₅, hattr, _, _, -, _, _,
    -, _, _, -, _, _, -, _, _, -, _, _, -, hret⟩ := hrun
  cases hret
  obtain ⟨-, rfl⟩ := fread_eq_ok hmagic
  obtain rfl := check_eq_ok hcheck
  obtain rfl := readU64_eq_ok hmeta
  obtain rfl := readU64_eq_ok hsize
  simp only [taskFormat, TaskAttr.decode, bind_eq_ok] at hattr
  obtain ⟨_, s₆, hid, d', s₇, hto, rest⟩ := hattr
  obtain ⟨-, rfl⟩ := readArr_eq_ok hid
  obtain ⟨rfl, -⟩ := readArr_eq_ok hto
  have hfield : a.deriveTo = toArr 20 (pread f 44 20) := by
    obtain ⟨_, _, -, _, _, -, _, _, -, _, _, -, _, _, -, _, _, -, _, _, -, _, _, -, _, _, -, _, _,
      -, _, _, -, _, _, -, _, _, -, _, _, -, _, _, -, hret⟩ := rest
    cases hret
    rfl
  rw [hfield, hd, toArr_toList]

/-- The first half of a derivation writes its field, or fails and leaves the record alone. -/
theorem patchTaskDeriveTo_cases (x d : Id20) (f : Bytes) :
    (∃ s, patchTaskDeriveTo x d ⟨f, 0⟩ = .ok () s ∧ s.content = pwrite f 44 d.toList) ∨
      ∃ e s, patchTaskDeriveTo x d ⟨f, 0⟩ = .error e s ∧ s.content = f := by
  rcases fread_cases 8 f 0 with hmagic | ⟨e, s', hmagic, hs'⟩
  · by_cases hvalid : tpbRafValidateMagic (pread f 0 8) .record .task .posStart = true
    · rcases fread_cases 20 f 24 with hid | ⟨e, s', hid, hs'⟩
      · by_cases hsame : pread f 24 20 = x.toList
        · refine .inl ⟨_, bind_then hmagic (bind_then (check_run hvalid _) (bind_then
            (fseek_run rfl) (bind_then hid (bind_then (check_run hsame _) (bind_then
            (fseek_run rfl) (fwrite_run _ _ _)))))), rfl⟩
        · exact .inr ⟨.fail, _, bind_then hmagic (bind_then (check_run hvalid _) (bind_then
            (fseek_run rfl) (bind_then hid (bind_error (if_neg hsame))))), rfl⟩
      · exact .inr ⟨e, s', bind_then hmagic (bind_then (check_run hvalid _) (bind_then
          (fseek_run rfl) (bind_error hid))), hs'⟩
    · exact .inr ⟨.fail, _, bind_then hmagic (bind_error (if_neg hvalid)), rfl⟩
  · exact .inr ⟨e, s', bind_error hmagic, hs'⟩

/-- What a derivation does to the record of its task: it writes its field, or fails and leaves
the record alone. -/
theorem setDeriveTo_record (x d : Id20) (ws : Workspace) :
    (∃ f, ws.files (.record .task x) = some f ∧
      (after (tpbKTaskSetDeriveTo x d ws)).files (.record .task x) =
        some (pwrite f 44 d.toList)) ∨
    (∃ e ws', tpbKTaskSetDeriveTo x d ws = .error e ws' ∧
      ws'.files (.record .task x) = ws.files (.record .task x)) := by
  cases hfile : ws.files (.record .task x) with
  | none =>
      refine .inr ⟨.code .rafMisc .fileIoFail, ws, bind_error ?_, hfile⟩
      simp [fopenUpdate, hfile]
  | some f =>
      rcases patchTaskDeriveTo_cases x d f with ⟨s, hpatch, hs⟩ | ⟨e, s, hpatch, hs⟩
      · refine .inl ⟨f, rfl, ?_⟩
        have hopen := @fopenUpdate_ok _ .rafMisc _ _ _ _ _ _ hfile hpatch
        rw [tpbKTaskSetDeriveTo, bind_ok hopen, ← hs]
        refine Eq.trans ?_ (Workspace.set_files_same ws (.record .task x) s.content)
        -- behind the patch of the record there is only the patch of the table
        refine Frames.bind (P := (· = .record .task x)) ((frames_entryListRows taskRow).propagate _)
          (fun entries => ?_) _ _ rfl
        split
        · exact frames_tpbFail _ _
        · exact frames_fopenUpdate (by simp)
      · refine .inr ⟨Stop.toErr .rafMisc e, ws.set (.record .task x) s.content,
          bind_error ?_, ?_⟩
        · simp [fopenUpdate, hfile, hpatch]
        · rw [Workspace.set_files_same, hs]

/-- A derivation writes the record of its task and the table of tasks only. -/
theorem frames_derivation {P : Path → Prop} {x : Id20} (hrecord : ¬P (.record .task x))
    (hentry : ¬P (.entry .task)) (d : Id20) : Frames P (tpbKTaskSetDeriveTo x d) := by
  refine (frames_fopenUpdate hrecord).bind fun _ => ?_
  refine ((frames_entryListRows taskRow).propagate _).bind fun entries => ?_
  split
  · exact frames_tpbFail _ _
  · exact frames_fopenUpdate hentry

/-- A derivation leaves the other records alone. -/
theorem frames_setDeriveTo {x d y : Id20} (hne : y ≠ x) :
    Frames (· = .record .task y) (tpbKTaskSetDeriveTo x d) :=
  frames_derivation (by simpa using hne.symm) (by simp) d

/-- A derivation that succeeds derives the record of its task. -/
theorem derived_setDeriveTo {x d : Id20} {ws ws' : Workspace}
    (h : tpbKTaskSetDeriveTo x d ws = .ok () ws') : Derived ws' x d := by
  rcases setDeriveTo_record x d ws with ⟨f, -, hfile⟩ | ⟨e, ws₁, herr, -⟩
  · rw [h] at hfile
    exact ⟨_, hfile, pread_pwrite_id f d⟩
  · rw [h] at herr
    cases herr

/-- A derivation to the same capsule keeps the records that are derived to it. -/
theorem Derived.setDeriveTo {y d : Id20} {ws : Workspace} (h : Derived ws y d) (x : Id20) :
    Derived (after (tpbKTaskSetDeriveTo x d ws)) y d := by
  by_cases hne : y = x
  · subst hne
    rcases setDeriveTo_record y d ws with ⟨f, -, hfile⟩ | ⟨e, ws₁, herr, hfile⟩
    · exact ⟨_, hfile, pread_pwrite_id f d⟩
    · obtain ⟨f, hf, hd⟩ := h
      rw [herr]
      exact ⟨f, hfile.trans hf, hd⟩
  · obtain ⟨f, hf, hd⟩ := h
    exact ⟨f, (frames_setDeriveTo hne ws _ rfl).trans hf, hd⟩

/-! ### The file of the capsule -/

theorem TaskAttr.pread_deriveTo (a : TaskAttr) :
    pread a.encode 20 20 = a.deriveTo.toList := by
  simp (disch := simp) only [TaskAttr.encode, List.flatten_cons, pread_append_right,
    pread_append_self, List.Vector.toList_length, Nat.reduceSub]

/-- The record `c` is a capsule with the IDs `ids`. -/
def CapsuleFile (ws : Workspace) (c : Id20) (ids : List Id20) : Prop :=
  ∃ cap : Capsule, ws.files (.record .task c) = some cap.record.bytes ∧
    cap.attr.taskRecordId = c ∧ cap.ids = ids

/-- The capsule with another derivation target. -/
def Capsule.derived (c : Capsule) (d : Id20) : Capsule :=
  { c with attr := { c.attr with deriveTo := d } }

/-- Writing the field of the derivation in the file of a capsule. -/
theorem Capsule.pwrite_derived (c : Capsule) (d : Id20) :
    pwrite c.record.bytes 44 d.toList = (c.derived d).record.bytes := by
  have hrun := patchTaskDeriveTo_run c.record d
  rcases patchTaskDeriveTo_cases c.attr.taskRecordId d c.record.bytes with
    ⟨s, hpatch, hs⟩ | ⟨e, s, hpatch, -⟩
  · have := hpatch.symm.trans hrun
    injection this with _ hstate
    rw [← hs, hstate]
    rfl
  · have := hpatch.symm.trans hrun
    cases this

/-- A derivation keeps the IDs of a capsule, also when the task is the capsule itself. -/
theorem CapsuleFile.setDeriveTo {ws : Workspace} {c : Id20} {ids : List Id20}
    (h : CapsuleFile ws c ids) (x d : Id20) :
    CapsuleFile (after (tpbKTaskSetDeriveTo x d ws)) c ids := by
  obtain ⟨cap, hfile, hid, hids⟩ := h
  by_cases hne : c = x
  · subst hne
    rcases setDeriveTo_record c d ws with ⟨f, hf, hfile'⟩ | ⟨e, ws₁, herr, hfile'⟩
    · rw [hfile] at hf
      cases hf
      rw [cap.pwrite_derived] at hfile'
      exact ⟨cap.derived d, hfile', hid, hids⟩
    · rw [herr]
      exact ⟨cap, hfile'.trans hfile, hid, hids⟩
  · exact ⟨cap, (frames_setDeriveTo hne ws _ rfl).trans hfile, hid, hids⟩

theorem Capsule.pread_deriveTo (c : Capsule) :
    pread c.record.bytes (24 + 20) 20 = c.attr.deriveTo.toList := by
  have hlen : (taskFormat.encode c.attr).length = 284 := c.attr.length_encode
  rw [c.bytes_eq, pread_layout_attr (by rw [hlen]; decide)]
  exact c.attr.pread_deriveTo

/-- An append to a capsule succeeds, and adds its ID. -/
theorem CapsuleFile.append {ws : Workspace} {c : Id20} {ids : List Id20}
    (h : CapsuleFile ws c ids) (x : Id20) (hlen : 20 * (ids.length + 1) < 2 ^ 63) :
    ∃ ws', tpbRafRecordAppendTaskCapsule c x ws = .ok () ws' ∧ CapsuleFile ws' c (ids ++ [x]) ∧
      ∀ y d, Derived ws y d → Derived ws' y d := by
  obtain ⟨cap, hfile, rfl, rfl⟩ := h
  refine ⟨_, fopenUpdate_ok hfile (appendTaskCapsule_run cap x hlen),
    ⟨cap.append x hlen, Workspace.set_files_same _ _ _, rfl, rfl⟩, ?_⟩
  rintro y d ⟨f, hf, hd⟩
  by_cases hne : y = cap.attr.taskRecordId
  · subst hne
    rw [hfile] at hf
    cases hf
    refine ⟨_, Workspace.set_files_same _ _ _, ?_⟩
    rw [Capsule.pread_deriveTo] at hd ⊢
    exact hd
  · exact ⟨f, by rw [Workspace.set_files_of_ne _ _ (by simpa using hne), hf], hd⟩

end TPBench
