import TPBench.Raf.Link
import TPBench.Raf.Patch

/-!
# Runtime Environments in the Store

A runtime environment is created by taking the next free ID, appending a row whose name
must be new, and writing a record. A child is registered with its parent by
`tpb_raf_record_append_rtenv_derive`: the ID of the child goes into the `DeriveTo` header of
the record of the parent, and into the `derive_to` field of its record and its row.

Registering rewrites the whole record. The new headers and payload are computed in memory
from the record that was read (`deriveUpdate`), with the offsets and counts found in its
headers. Where these lead outside a buffer, or leave bytes of the new payload unset, the
result is `undefined`. What is written back is a record again.
-/

open CFile

namespace TPBench

/-! ### Names and IDs -/

/-- The common body of `_sf_name_exists` and `_sf_rtenv_id_exists`: a listing that fails
counts as no match. -/
def rowExists (p : RtenvEntry → Bool) : WsM Bool := fun ws =>
  match tpbRafEntryListRtenv ws with
  | .ok entries ws' => .ok (entries.any p) ws'
  | .error (.code _ _) ws' => .ok false ws'
  | .error .undefined ws' => .error .undefined ws'

/-- `_sf_name_exists`. -/
def sfNameExists (name : Bytes) : WsM Bool := rowExists fun e => cstr e.name.toList == name

/-- `_sf_rtenv_id_exists`. -/
def sfRtenvIdExists (id : Int32) : WsM Bool := rowExists fun e => e.id == id

/-- The loop of `tpb_raf_rtenv_alloc_next_id`. -/
def maxId (entries : List RtenvEntry) : Int32 :=
  entries.foldl (fun maxId e => if maxId < e.id then e.id else maxId) 0

/-- `tpb_raf_rtenv_alloc_next_id`: the increment of the largest `int32_t` is undefined. -/
def tpbRafRtenvAllocNextId : WsM Int32 := do
  let entries ← propagate .rafL2Rtenv tpbRafEntryListRtenv
  if maxId entries = Int32.maxValue then undefinedCall else return maxId entries + 1

/-- `tpb_raf_entry_append_rtenv`. -/
def tpbRafEntryAppendRtenv (entry : RtenvEntry) : WsM Unit := do
  if ← sfNameExists (cstr entry.name.toList) then tpbFail .rafL2Rtenv .listDup
  else entryAppendRow rtenvRow entry

section Ids

variable {ws ws' : Workspace} {rows : List RtenvEntry}

/-- The loop starts from a bound and never gets below it or a row. -/
theorem foldl_maxId_ge (entries : List RtenvEntry) (m : Int32) :
    m ≤ entries.foldl (fun maxId e => if maxId < e.id then e.id else maxId) m ∧
      ∀ e ∈ entries,
        e.id ≤ entries.foldl (fun maxId e => if maxId < e.id then e.id else maxId) m := by
  induction entries generalizing m with
  | nil => exact ⟨Int32.le_refl m, by simp⟩
  | cons f entries ih =>
      obtain ⟨hm, hall⟩ := ih (if m < f.id then f.id else m)
      rw [List.foldl_cons]
      have hstep : m ≤ (if m < f.id then f.id else m) ∧
          f.id ≤ (if m < f.id then f.id else m) := by
        split
        · rename_i hlt
          exact ⟨Int32.le_of_lt hlt, Int32.le_refl _⟩
        · rename_i hlt
          exact ⟨Int32.le_refl _, Int32.not_lt.mp hlt⟩
      refine ⟨Int32.le_trans hstep.1 hm, ?_⟩
      intro e he
      rcases List.mem_cons.mp he with rfl | he
      · exact Int32.le_trans hstep.2 hm
      · exact hall e he

/-- The increment of an ID that is not the largest is larger. -/
theorem lt_add_one_of_ne_maxValue {i : Int32} (h : i ≠ Int32.maxValue) : i < i + 1 := by
  have hne : i.toInt ≠ Int32.maxValue.toInt := fun heq => h (Int32.toInt_inj.mp heq)
  have hmax : Int32.maxValue.toInt = 2147483647 := rfl
  have hle := i.toInt_le
  have hge := i.le_toInt
  have hone : (1 : Int32).toInt = 1 := rfl
  rw [Int32.lt_iff_toInt_lt, Int32.toInt_add, hone, Int.bmod_def]
  omega

/-- An allocated ID is positive and above the ID of every row that was listed. -/
theorem tpbRafRtenvAllocNextId_ok {id : Int32} (h : tpbRafRtenvAllocNextId ws = .ok id ws') :
    ws' = ws ∧ 0 < id ∧ ∃ entries, tpbRafEntryListRtenv ws = .ok entries ws ∧
      ∀ e ∈ entries, e.id < id := by
  obtain ⟨entries, ws₁, hlist, hrest⟩ := bind_eq_ok.mp h
  rw [propagate_eq_ok] at hlist
  obtain ⟨rfl, -⟩ := entryListRows_bound hlist
  obtain ⟨hzero, hall⟩ := foldl_maxId_ge entries 0
  split at hrest
  · cases hrest
  · rename_i hmax
    have hlt := lt_add_one_of_ne_maxValue hmax
    cases hrest
    exact ⟨rfl, Int32.lt_of_le_of_lt hzero hlt, entries, hlist,
      fun e he => Int32.lt_of_le_of_lt (hall e he) hlt⟩

/-- The search for a row leaves the workspace as it was, and is right whenever an `int` can
count the rows. -/
theorem rowExists_ok {p : RtenvEntry → Bool} {found : Bool}
    (h : rowExists p ws = .ok found ws') :
    ws' = ws ∧ ∀ rows, rtenvRow.Holds ws rows → rows.length ≤ intMax →
      (found = true ↔ ∃ f ∈ rows, p f = true) := by
  rw [rowExists] at h
  rcases hlist : tpbRafEntryListRtenv ws with ⟨entries, ws₁⟩ | ⟨⟨c, m⟩ | -, ws₁⟩
  · obtain ⟨rfl, -⟩ := entryListRows_bound hlist
    simp only [hlist] at h
    cases h
    refine ⟨rfl, ?_⟩
    intro rows hrows hlen
    rw [tpbRafEntryListRtenv, entryListRows_ok hrows hlen] at hlist
    cases hlist
    exact List.any_eq_true
  · have hws := entryListRows_error hlist
    simp only [hlist] at h
    cases h
    refine ⟨hws, ?_⟩
    intro rows hrows hlen
    rw [tpbRafEntryListRtenv, entryListRows_ok hrows hlen] at hlist
    cases hlist
  · simp only [hlist] at h
    cases h

/-- A row that was appended went to the end of the table, and no row has its name when an
`int` can count the rows. -/
theorem tpbRafEntryAppendRtenv_ok {e : RtenvEntry} (hrows : rtenvRow.Holds ws rows)
    (h : tpbRafEntryAppendRtenv e ws = .ok () ws') :
    ws' = ws.set (.entry .rtenv) (rtenvRow.table (rows ++ [e])) ∧
      (rows.length ≤ intMax → ∀ f ∈ rows, cstr f.name.toList ≠ cstr e.name.toList) := by
  obtain ⟨found, ws₁, hexists, hrest⟩ := bind_eq_ok.mp h
  obtain ⟨rfl, hfound⟩ := rowExists_ok hexists
  cases found with
  | true => cases hrest
  | false =>
      rw [if_neg (by simp), entryAppendRow_ok hrows] at hrest
      cases hrest
      refine ⟨rfl, ?_⟩
      intro hlen f hf heq
      have htrue := (hfound rows hrows hlen).mpr ⟨f, hf, beq_iff_eq.mpr heq⟩
      cases htrue

end Ids

end TPBench
