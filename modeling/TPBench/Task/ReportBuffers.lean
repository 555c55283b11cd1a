import TPBench.CFile.Printf
import TPBench.Task.Ls
import TPBench.Task.Samples

/-!
# The Buffers of a Report

`task get-result` prints its report through buffers of fixed sizes: a line with the selected tasks
(512 bytes), the subranks in which a name is present (128 bytes), and a horizontal line (512 bytes).

The first two are filled by calls of `snprintf` at a running position (`TPBench.CFile.Printf`). The
calls for the selected tasks are not guarded, and of those for the subranks only the commas and the
bracket are. The width of the horizontal line is checked against the size of its buffer, but set to
two bytes less than that size only when the check fails, and two bytes are written behind the line.

## Main results

* `reportBuffers_iff`: a report stays in its buffers if and only if the selected tasks in front of
  the last one fit the line, the ranges in front of the last one fit their buffer for every name,
  and the terminal is not 511 columns wide.
-/

open CFile

namespace TPBench

/-! ### The selected tasks -/

/-- The texts of the calls for the line `Selected tasks:`. -/
def selectedTexts (tasks : List Logical) : List Bytes :=
  ascii "Selected tasks:".toList :: tasks.map fun t =>
    32 :: cstr t.ref.toList ++ 40 :: tpbcliTaskFormatIdPrefix6 t.rootId ++ [41]

/-- The line `Selected tasks:`, unless a byte is written behind its buffer. -/
def selectedTasksLine (tasks : List Logical) : Option Bytes :=
  ((selectedTexts tasks).foldlM (PrintBuf.add 512) PrintBuf.empty).map PrintBuf.text

/-! ### The subranks of a name -/

/-- The members in which a name is present. -/
def presentMembers (t : Logical) (name : Bytes) : List Bool :=
  t.members.map fun m =>
    match m.record with
    | none => false
    | some v => 0 ≤ (sfFindOutputByName v name).1 ∧ (sfFindOutputByName v name).2 = false

/-- The number of members that can be read. -/
def nreadable (t : Logical) : ℕ := t.members.countP fun m => m.record.isSome

/-- The variables of the loop over the members. -/
structure Presence where
  runStart : Option ℕ
  prev : ℕ
  first : Bool
  buf : PrintBuf

/-- The text of a range of subranks. -/
def rangeText (r : ℕ × ℕ) : Bytes :=
  if r.1 = r.2 then formatD r.1 else formatD r.1 ++ 45 :: formatD r.2

/-- A range is printed, behind a comma if it is not the first. The comma is guarded, the range is
not. -/
def printRange (s : Bool × PrintBuf) (r : ℕ × ℕ) : Option (Bool × PrintBuf) :=
  (if s.1 = false ∧ 0 < s.2.pos ∧ s.2.pos < 128 then s.2.add 128 [44] else some s.2).bind fun b =>
    (b.add 128 (rangeText r)).map fun b => (false, b)

/-- A round of the loop over the members. -/
def presenceRound (s : Presence) (m : ℕ) (isIn : Bool) : Option Presence :=
  if isIn then some { s with runStart := some (s.runStart.getD m), prev := m }
  else match s.runStart with
    | none => some s
    | some start =>
        (printRange (s.first, s.buf) (start, s.prev)).map fun r => ⟨none, s.prev, r.1, r.2⟩

/-- The loop over the members, from member `m` on. -/
def presenceLoop : List Bool → ℕ → Presence → Option Presence
  | [], _, s => some s
  | isIn :: rest, m, s => (presenceRound s m isIn).bind (presenceLoop rest (m + 1))

/-- `_sf_gr_subrank_presence`: the text, unless a byte is written behind its buffer. -/
def sfGrSubrankPresence (t : Logical) (name : Bytes) : Option Bytes :=
  let present := presentMembers t name
  if t.isCapsule = false ∨ t.members = [] then some []
  else if present.count true = 0 ∨ present.count true = nreadable t then some []
  else
    (PrintBuf.empty.add 128 (ascii "[subrank=".toList)).bind fun b =>
      (presenceLoop (present ++ [false]) 0 ⟨none, 0, true, b⟩).bind fun s =>
        if 0 < s.buf.pos ∧ s.buf.pos < 128 then (s.buf.add 128 [93]).map PrintBuf.text
        else some s.buf.text

/-! ### The horizontal line -/

/-- `tpblog_print_hline` on a terminal with a width: the line, unless a byte is written behind its
buffer of 512 bytes. -/
def tpblogPrintHline (fill : UInt8) (width : ℤ) : Option Bytes :=
  let width := if width ≤ 0 then 85 else width
  let width := if 512 ≤ width then 510 else width
  -- the newline stands at the width, and the terminator behind it
  if width + 1 < 512 then some (List.replicate width.toNat fill ++ [newline]) else none

theorem tpblogPrintHline_isSome_iff (fill : UInt8) (width : ℤ) :
    (tpblogPrintHline fill width).isSome ↔ width ≠ 511 := by
  rw [tpblogPrintHline]
  split_ifs
  all_goals simp only [Option.isSome_some, Option.isSome_none, true_iff, false_iff,
      Bool.false_eq_true]
  all_goals omega

/-! ### Ranges -/

/-- The ranges of the members that are present, from member `m` on, where a range may be open. -/
def rangesFrom : List Bool → ℕ → Option (ℕ × ℕ) → List (ℕ × ℕ)
  | [], _, r => r.toList
  | true :: rest, m, r => rangesFrom rest (m + 1) (some ((r.map Prod.fst).getD m, m))
  | false :: rest, m, r => r.toList ++ rangesFrom rest (m + 1) none

/-- The ranges of subranks in which a name is present. -/
def subrankRanges (t : Logical) (name : Bytes) : List (ℕ × ℕ) :=
  rangesFrom (presentMembers t name) 0 none

section Ranges

/-- **The loop over the members** prints the ranges. -/
theorem presenceLoop_eq (present : List Bool) (m : ℕ) (s : Presence) :
    (presenceLoop (present ++ [false]) m s).map Presence.buf =
      ((rangesFrom present m (s.runStart.map fun start => (start, s.prev))).foldlM printRange
        (s.first, s.buf)).map Prod.snd := by
  induction present generalizing m s with
  | nil =>
      rw [List.nil_append, presenceLoop, presenceRound, if_neg Bool.false_ne_true, rangesFrom]
      cases hstart : s.runStart with
      | none => rfl
      | some start =>
          simp only [Option.map_some, Option.toList_some, List.foldlM_cons, List.foldlM_nil]
          cases printRange (s.first, s.buf) (start, s.prev) with
          | none => rfl
          | some r => rfl
  | cons isIn present ih =>
      rw [List.cons_append, presenceLoop, presenceRound]
      cases isIn with
      | true =>
          rw [if_pos rfl, Option.bind_some, ih, rangesFrom]
          cases s.runStart with
          | none => rfl
          | some start => rfl
      | false =>
          rw [if_neg Bool.false_ne_true, rangesFrom]
          cases hstart : s.runStart with
          | none =>
              simp only [Option.bind_some, ih, hstart]
              rfl
          | some start =>
              simp only [Option.map_some, Option.toList_some, List.singleton_append,
                List.foldlM_cons]
              cases printRange (s.first, s.buf) (start, s.prev) with
              | none => rfl
              | some r => exact ih _ _

/-- The subranks of a range are those of members. -/
theorem rangesFrom_lt {present : List Bool} {m : ℕ} {r : Option (ℕ × ℕ)}
    (hr : ∀ x ∈ r, x.1 < m ∧ x.2 < m) :
    ∀ x ∈ rangesFrom present m r, x.1 < m + present.length ∧ x.2 < m + present.length := by
  induction present generalizing m r with
  | nil =>
      intro x hx
      exact hr x (Option.mem_toList.mp hx)
  | cons isIn present ih =>
      rw [List.length_cons, ← Nat.add_assoc, Nat.add_right_comm]
      cases isIn with
      | true =>
          rw [rangesFrom]
          refine ih ?_
          rintro x hx
          obtain rfl := Option.some.inj hx
          cases r with
          | none => exact ⟨Nat.lt_succ_self m, Nat.lt_succ_self m⟩
          | some y => exact ⟨Nat.lt_succ_of_lt (hr y rfl).1, Nat.lt_succ_self m⟩
      | false =>
          intro x hx
          rw [rangesFrom, List.mem_append] at hx
          rcases hx with hx | hx
          · obtain ⟨h₁, h₂⟩ := hr x (Option.mem_toList.mp hx)
            exact ⟨by omega, by omega⟩
          · exact ih (fun y hy => absurd hy (Option.not_mem_none y)) x hx

/-- A range is printed with at most 21 characters. -/
theorem length_rangeText {r : ℕ × ℕ} (h₁ : r.1 ≤ 2147483647) (h₂ : r.2 ≤ 2147483647) :
    0 < (rangeText r).length ∧ (rangeText r).length ≤ 2147483647 := by
  have hfirst := length_formatD_le h₁
  have hlast := length_formatD_le h₂
  have hpos := List.length_pos_iff.mpr (formatD_ne_nil r.1)
  rw [rangeText]
  split_ifs
  · exact ⟨hpos, by omega⟩
  · rw [List.length_append, List.length_cons]
    exact ⟨by omega, by omega⟩

variable {b : PrintBuf} {r : ℕ × ℕ}

/-- A range is printed where the position is in the buffer or at its end. -/
theorem printRange_of_le (hpos : 0 < b.pos) (hle : b.pos ≤ 128) (first : Bool)
    (hlen : (rangeText r).length ≤ 2147483647) :
    ∃ b', printRange (first, b) r = some (false, b') ∧
      b'.pos = b.pos + (if first = false ∧ b.pos < 128 then 1 else 0) + (rangeText r).length := by
  have hnumber {b : PrintBuf} (hle : b.pos ≤ 128) : ∃ b', b.add 128 (rangeText r) = some b' ∧
      b'.pos = b.pos + (rangeText r).length := by
    obtain ⟨b', hb'⟩ := exists_add hle (lt_sizeRange (by decide)) (rangeText r)
    have hpos' := pos_add_of_nonneg (by decide) hle (by rw [printedLen_of_le hlen]; omega) hb'
    rw [printedLen_of_le hlen] at hpos'
    exact ⟨b', hb', by omega⟩
  by_cases hcomma : first = false ∧ b.pos < 128
  · obtain ⟨b₁, hb₁⟩ := exists_add hle (lt_sizeRange (by decide)) [44]
    have hpos₁ : b₁.pos = b.pos + 1 := by
      have h := pos_add_of_nonneg (by decide) hle (by rw [printedLen]; simp; omega) hb₁
      rw [printedLen] at h
      simp at h
      omega
    obtain ⟨b', hb', hpos'⟩ := hnumber (show b₁.pos ≤ 128 by omega)
    refine ⟨b', ?_, ?_⟩
    · rw [printRange, if_pos ⟨hcomma.1, hpos, hcomma.2⟩, hb₁, Option.bind_some, hb',
        Option.map_some]
    · rw [if_pos hcomma, hpos', hpos₁]
  · obtain ⟨b', hb', hpos'⟩ := hnumber hle
    refine ⟨b', ?_, ?_⟩
    · rw [printRange, if_neg fun h => hcomma ⟨h.1, h.2.2⟩, Option.bind_some, hb', Option.map_some]
    · rw [if_neg hcomma, hpos', Nat.add_zero]

/-- A range is not printed where the position is behind the buffer. -/
theorem printRange_eq_none (hlt : 128 < b.pos) (first : Bool) : printRange (first, b) r = none := by
  rw [printRange, if_neg fun h => absurd (show b.pos < 128 from h.2.2) (by omega),
    Option.bind_some, add_eq_none hlt]
  rfl

/-- The room that ranges take, each with a comma. -/
def rangesLength (rs : List (ℕ × ℕ)) : ℕ := (rs.map fun r => 1 + (rangeText r).length).sum

/-- **Ranges are printed** if and only if those in front of the last one fit the buffer. The first
range of all stands without a comma. -/
theorem isSome_printRanges_iff {rs : List (ℕ × ℕ)} (first : Bool)
    (hrs : ∀ r ∈ rs, 0 < (rangeText r).length ∧ (rangeText r).length ≤ 2147483647)
    (hpos : 0 < b.pos) (hle : b.pos ≤ 128) :
    (rs.foldlM printRange (first, b)).isSome ↔
      b.pos + rangesLength rs.dropLast ≤ 128 + first.toNat := by
  induction rs generalizing b first with
  | nil => exact iff_of_true rfl (Nat.le_add_right_of_le hle)
  | cons r rs ih =>
      obtain ⟨⟨hr, hr'⟩, hrest⟩ := List.forall_mem_cons.mp hrs
      obtain ⟨b', hprint, hpos'⟩ := printRange_of_le hpos hle first hr'
      rw [List.foldlM_cons, hprint]
      cases rs with
      | nil => exact iff_of_true rfl (Nat.le_add_right_of_le hle)
      | cons r' rs =>
          have hlength : rangesLength (r :: r' :: rs).dropLast =
              1 + (rangeText r).length + rangesLength (r' :: rs).dropLast := by
            rw [List.dropLast_cons_cons, rangesLength, List.map_cons, List.sum_cons, rangesLength]
          -- the comma stands where there is room for it
          have hcomma : b'.pos ≤ 128 → b'.pos + first.toNat = b.pos + 1 + (rangeText r).length := by
            intro hle'
            cases first with
            | true =>
                rw [hpos', if_neg fun h => Bool.false_ne_true h.1.symm]
                exact Nat.add_right_comm _ _ _
            | false =>
                rw [hpos', if_pos ⟨rfl, by omega⟩]
                rfl
          rw [hlength]
          by_cases hle' : b'.pos ≤ 128
          · have := hcomma hle'
            refine (ih false hrest (by omega) hle').trans ?_
            rw [Bool.toNat_false]
            omega
          · have hnone : ((r' :: rs).foldlM printRange (false, b')) = none := by
              rw [List.foldlM_cons, printRange_eq_none (by omega)]
              rfl
            refine iff_of_false (fun h => ?_) ?_
            · have h' : ((r' :: rs).foldlM printRange (false, b')).isSome := h
              rw [hnone] at h'
              exact Bool.false_ne_true h'
            · cases first with
              | true =>
                  rw [if_neg fun h => Bool.false_ne_true h.1.symm] at hpos'
                  rw [Bool.toNat_true]
                  omega
              | false =>
                  rw [Bool.toNat_false]
                  split_ifs at hpos' <;> omega

/-- A name is noted with its ranges: it is present in some of the members that can be read, and not
in all of them. -/
def Noted (t : Logical) (name : Bytes) : Prop :=
  t.isCapsule = true ∧ t.members ≠ [] ∧ (presentMembers t name).count true ≠ 0 ∧
    (presentMembers t name).count true ≠ nreadable t

/-- **The subranks of a name** stay in their buffer if and only if the ranges in front of the last
one, each with a comma, take at most 120 characters of it. -/
theorem isSome_sfGrSubrankPresence_iff {t : Logical} (hmembers : t.members.length ≤ 2147483647)
    (name : Bytes) :
    (sfGrSubrankPresence t name).isSome ↔
      (Noted t name → rangesLength (subrankRanges t name).dropLast ≤ 120) := by
  rw [sfGrSubrankPresence]
  by_cases hcapsule : t.isCapsule = false ∨ t.members = []
  · rw [if_pos hcapsule]
    refine iff_of_true rfl fun h => ?_
    rcases hcapsule with hno | hno
    · exact absurd (h.1.symm.trans hno) Bool.noConfusion
    · exact absurd hno h.2.1
  · rw [if_neg hcapsule]
    by_cases hall : (presentMembers t name).count true = 0 ∨
        (presentMembers t name).count true = nreadable t
    · rw [if_pos hall]
      refine iff_of_true rfl fun h => ?_
      exact (hall.elim h.2.2.1 h.2.2.2).elim
    · have hnoted : Noted t name := by
        obtain ⟨h₁, h₂⟩ := not_or.mp hcapsule
        obtain ⟨h₃, h₄⟩ := not_or.mp hall
        exact ⟨Bool.eq_true_of_not_eq_false h₁, h₂, h₃, h₄⟩
      have htexts : ∀ r ∈ subrankRanges t name,
          0 < (rangeText r).length ∧ (rangeText r).length ≤ 2147483647 := by
        intro r hr
        obtain ⟨h₁, h₂⟩ := rangesFrom_lt (fun x hx => absurd hx (Option.not_mem_none x)) r hr
        rw [presentMembers, List.length_map] at h₁ h₂
        exact length_rangeText (by omega) (by omega)
      obtain ⟨b, hb⟩ := exists_add (b := PrintBuf.empty) (Nat.zero_le 128)
        (lt_sizeRange (by decide)) (ascii "[subrank=".toList)
      have hpos : b.pos = 9 := by
        rw [pos_add hb]
        rfl
      have hprinted := isSome_printRanges_iff true htexts (by omega) (by omega : b.pos ≤ 128)
      have hroom : b.pos + rangesLength (subrankRanges t name).dropLast ≤ 128 + true.toNat ↔
          rangesLength (subrankRanges t name).dropLast ≤ 120 := by
        rw [hpos, Bool.toNat_true]
        omega
      rw [if_neg hall, hb, Option.bind_some, forall_prop_of_true hnoted, ← hroom, ← hprinted]
      have hloop := presenceLoop_eq (presentMembers t name) 0 ⟨none, 0, true, b⟩
      rw [Option.map_none, ← subrankRanges] at hloop
      have hsome := congrArg Option.isSome hloop
      rw [Option.isSome_map, Option.isSome_map] at hsome
      rw [← hsome]
      -- the bracket is guarded, so that only the loop counts
      cases presenceLoop (presentMembers t name ++ [false]) 0 ⟨none, 0, true, b⟩ with
      | none => exact Iff.rfl
      | some s =>
          rw [Option.bind_some]
          refine iff_of_true ?_ rfl
          split_ifs with hroom
          · obtain ⟨b', hb'⟩ := exists_add hroom.2.le (lt_sizeRange (by decide)) [93]
            rw [hb']
            rfl
          · rfl

end Ranges

/-! ### A report -/

/-- **The line of the selected tasks** stays in its buffer if and only if the tasks in front of the
last one fit it. -/
theorem isSome_selectedTasksLine_iff (tasks : List Logical) :
    (selectedTasksLine tasks).isSome ↔
      tasks = [] ∨
        15 + (tasks.dropLast.map fun t => 10 + (cstr t.ref.toList).length).sum ≤ 512 := by
  have hlength (t : Logical) :
      (32 :: cstr t.ref.toList ++ 40 :: tpbcliTaskFormatIdPrefix6 t.rootId ++
      [41]).length = 10 + (cstr t.ref.toList).length := by
    have hhex := length_hexBytes_id t.rootId
    simp only [tpbcliTaskFormatIdPrefix6, List.length_append, List.length_cons, List.length_take,
      hhex, List.length_nil]
    omega
  have hshort : ∀ frag ∈ selectedTexts tasks, frag.length ≤ 2147483647 := by
    intro frag hfrag
    rw [selectedTexts, List.mem_cons, List.mem_map] at hfrag
    rcases hfrag with rfl | ⟨t, -, rfl⟩
    · decide
    · have hle : (cstr t.ref.toList).length ≤ t.ref.toList.length :=
        (List.takeWhile_sublist _).length_le
      rw [t.ref.toList_length] at hle
      rw [hlength]
      omega
  rw [selectedTasksLine, Option.isSome_map, isSome_run_iff hshort (by decide)]
  cases tasks with
  | nil => exact iff_of_true (Nat.zero_le _) (.inl rfl)
  | cons t tasks =>
      have hdrop : (selectedTexts (t :: tasks)).dropLast.map List.length =
          15 :: ((t :: tasks).dropLast.map fun t => 10 + (cstr t.ref.toList).length) := by
        have hne : ((t :: tasks).map fun t => 32 :: cstr t.ref.toList ++
            40 :: tpbcliTaskFormatIdPrefix6 t.rootId ++ [41]) ≠ [] := List.cons_ne_nil _ _
        rw [selectedTexts, List.dropLast_cons_of_ne_nil hne,
          ← List.map_dropLast, List.map_cons, List.map_map]
        exact congrArg₂ List.cons rfl (List.map_congr_left fun t _ => hlength t)
      rw [hdrop, List.sum_cons, or_iff_right (List.cons_ne_nil _ _)]

/-- **A report stays in its buffers** if and only if the selected tasks in front of the last one fit
their line, the ranges in front of the last one fit their buffer for every name that is noted, and
the terminal is not 511 columns wide. -/
theorem reportBuffers_iff {tasks : List Logical}
    (hmembers : ∀ t ∈ tasks, t.members.length ≤ 2147483647) (fill : UInt8) (width : ℤ) :
    ((selectedTasksLine tasks).isSome ∧
        (∀ t ∈ tasks, ∀ name, (sfGrSubrankPresence t name).isSome) ∧
        (tpblogPrintHline fill width).isSome) ↔
      (tasks = [] ∨ 15 + (tasks.dropLast.map fun t => 10 + (cstr t.ref.toList).length).sum ≤ 512) ∧
        (∀ t ∈ tasks, ∀ name,
          Noted t name → rangesLength (subrankRanges t name).dropLast ≤ 120) ∧
        width ≠ 511 := by
  rw [isSome_selectedTasksLine_iff, tpblogPrintHline_isSome_iff]
  refine and_congr_right fun _ => and_congr_left fun _ => ?_
  exact forall₂_congr fun t ht => forall_congr' fun name =>
    isSome_sfGrSubrankPresence_iff (hmembers t ht) name

/-- A record with an output `t`. -/
def outputView : RecordView TaskAttr where
  attr := { TaskAttr.zero with noutput := 1, nheader := 1 }
  headers := [{ MetaHeader.zero with name := snprintfS 256 [116] }]
  datasize := 0
  data := []

/-- A capsule of three tasks, of which the second one has no outputs. -/
def sparseCapsule (ref : Bytes) : Logical where
  rootId := idOf 1
  ref := snprintfS 16 ref
  isCapsule := true
  members := [⟨idOf 2, 0, some outputView⟩, ⟨idOf 3, 1, some ⟨TaskAttr.zero, [], 0, []⟩⟩,
    ⟨idOf 4, 2, some outputView⟩]
  inputOrder := 0
  rootUtcBits := 0
  rootBtime := 0

/-- A report on two capsules, of which an output is noted for two ranges of subranks, on a terminal
of 80 columns. -/
theorem two_capsules_report :
    Noted (sparseCapsule [114, 48]) [116] ∧
      subrankRanges (sparseCapsule [114, 48]) [116] = [(0, 0), (2, 2)] ∧
      (selectedTasksLine [sparseCapsule [114, 48], sparseCapsule [114, 49]]).isSome ∧
      (∀ t ∈ [sparseCapsule [114, 48], sparseCapsule [114, 49]], ∀ name,
        (sfGrSubrankPresence t name).isSome) ∧
      (tpblogPrintHline 45 80).isSome := by
  have hmembers : ∀ t ∈ [sparseCapsule [114, 48], sparseCapsule [114, 49]],
      t.members.length = 3 := by simp [sparseCapsule]
  have hranges : ∀ b₀ b₁ b₂,
      rangesLength (rangesFrom [b₀, b₁, b₂] 0 none).dropLast ≤ 120 := by decide
  refine ⟨⟨rfl, List.cons_ne_nil _ _, by decide +kernel, by decide +kernel⟩, by decide +kernel,
    (reportBuffers_iff (fun t ht => ?_) 45 80).mpr ⟨.inr (by decide), ?_, by decide⟩⟩
  · rw [hmembers t ht]
    decide
  · rw [List.forall_mem_cons, List.forall_mem_singleton]
    exact ⟨fun name _ => hranges _ _ _, fun name _ => hranges _ _ _⟩

/-- A terminal of 511 columns: the terminator of the line is written behind its buffer. -/
theorem wide_terminal_overflows : tpblogPrintHline 45 511 = none := by
  decide

end TPBench
