import TPBench.Task.Export
import TPBench.Task.RidList

/-!
# Filters of Capsule Members

`task export` takes filters of the form `subrank=…` and `subtid=…`, which choose members of a
capsule (`tpbcliTaskExportParseFilter`, `tpbcli-task-select.c`). The value of `subrank` is a
list of numbers and ranges, which are read as those of `-r` are, but without a RIDMAP: the
numbers of a range are added one after the other with an `int` that counts up to its end.

Two things can go wrong there. The counter is incremented once more behind the last number of a
range, and the array is doubled as an `int` (`RanksFit`). And an item is cut behind 63
characters (`SameRanks`).

## Main results

* `subrankFilter_iff`: the filter is parsed with `int` arithmetic, and lets the members pass
  that its items name, if and only if neither goes wrong.
* `namesRank_take_iff`: which items name other numbers when they are cut.
-/

open CFile

namespace TPBench

/-! ### The parser -/

/-- The equals sign of a filter. -/
def equalsSign : UInt8 := 61

/-- `subrank`. -/
def subrankKey : Bytes := ascii "subrank".toList

/-- `subtid`. -/
def subtidKey : Bytes := ascii "subtid".toList

/-- `TPBCLI_TASK_FILTER_MAX`. -/
def taskFilterMax : ℕ := 64

/-- `_sf_export_append_subrank`. -/
def sfExportAppendSubrank (v : ℕ) (vals : Uniq.Growing ℕ) : Except Err (Uniq.Growing ℕ) :=
  appendUnique v vals

/-- The body of the loop over the items of `subrank`. -/
def subrankItem (item : Bytes) (vals : Uniq.Growing ℕ) : Except Err (Uniq.Growing ℕ) :=
  match ridItemOf (item.take 63) with
  | .error e => .error e
  | .ok r => r.each sfExportAppendSubrank vals

/-- The body of the loop over the items of `subtid`. -/
def subtidItem (item : Bytes) (tids : List Bytes) : Except Err (List Bytes) :=
  let p := (item.dropWhile isBlank).rdropWhile isBlank
  if p.length < 4 ∨ 8 < p.length then .error (.code .none .cliFail)
  else if p.any (!isxdigit ·) then .error (.code .none .cliFail)
  else if taskFilterMax ≤ tids.length then .error (.code .none .cliFail)
  else .ok (tids ++ [p.map tolower])

/-- `tpbcli_task_export_parse_filter`. -/
def tpbcliTaskExportParseFilter (text : Bytes) : Except Err ExportFilter :=
  match strchr equalsSign text with
  | none => .error (.code .cliMisc .cliFail)
  | some (key, value) =>
      if 62 ∈ text ∨ 60 ∈ text then .error (.code .cliMisc .cliFail)
      else if key.length = 0 ∨ 32 ≤ key.length then .error (.code .cliMisc .cliFail)
      else if value = [] then .error (.code .cliMisc .cliFail)
      else if key = subrankKey then
        match itemLoop subrankItem value .empty with
        | .error e => .error e
        | .ok vals => .ok (.subrank (vals.elems.map (↑)))
      else if key = subtidKey then
        match itemLoop subtidItem value [] with
        | .error e => .error e
        | .ok tids => .ok (.subtid tids)
      else .error (.code .none .cliFail)

/-! ### What a filter names -/

/-- An item names a number: it is that number, or a range that has it. -/
def NamesRank (item : Bytes) (s : ℕ) : Prop := ∃ r, ItemMeans (plainItem item) r ∧ s ∈ r.values

/-- The filter is parsed with `int` arithmetic, and when it is accepted a member of a capsule
passes exactly when an item names its number. -/
def SubrankFiltered (value : Bytes) (result : Except Err ExportFilter) : Prop :=
  result ≠ .error .undefined ∧ ∀ f, result = .ok f → ∀ (s : ℕ) (tid : UInt32),
    sfMemberPasses [f] s tid = true ↔ ∃ item ∈ value.splitOn comma, NamesRank item s

/-! ### What is read -/

/-- An item is read, in its buffer. -/
def RankReads (item : Bytes) (r : RidItem) : Prop := ItemMeans (plainItem (item.take 63)) r ∧ r.Fits

/-- A range does not end in the largest `int`. -/
def RidItem.EndsBelow : RidItem → Prop
  | one _ => True
  | range _ hi => hi < intMax

instance : DecidablePred RidItem.EndsBelow
  | .one _ => .isTrue trivial
  | .range _ hi => inferInstanceAs (Decidable (hi < intMax))

/-- As far as the items are read behind these numbers, no range ends in the largest `int`, and the
array has room for the distinct numbers. -/
def RanksFit : List ℕ → List Bytes → Prop
  | _, [] => True
  | seen, item :: items => ∀ r, RankReads item r →
      r.EndsBelow ∧ (seen ++ r.values).eraseDups.length ≤ largestArray ∧
        RanksFit (seen ++ r.values) items

/-- When all items are read, they name the same numbers in their buffers. -/
def SameRanks (value : Bytes) : Prop :=
  (∀ item ∈ listItems value, ∃ r, RankReads item r) → ∀ s,
    (∃ item ∈ value.splitOn comma, NamesRank item s) ↔
      ∃ item ∈ value.splitOn comma, NamesRank (item.take 63) s

/-! ### The loops -/

/-- A range is not added when it ends in the largest `int` or has too many distinct numbers. -/
theorem rangeLoop_appendUnique_eq_undefined {seen : List ℕ} {xs : Uniq.Growing ℕ} (h : Took seen xs)
    (hseen : seen.eraseDups.length ≤ largestArray) {k j : ℕ}
    (hbad : intMax ∈ List.range' j k ∨
      ¬(seen ++ List.range' j k).eraseDups.length ≤ largestArray) :
    rangeLoop appendUnique k j xs = .error .undefined := by
  induction k generalizing seen xs j with
  | zero =>
      rw [List.range'_zero, List.append_nil] at hbad
      rcases hbad with hmem | hover
      · cases hmem
      · exact absurd hseen hover
  | succ k ih =>
      rw [List.range'_succ, List.append_cons] at hbad
      rw [rangeLoop]
      by_cases hfit : (seen ++ [j]).eraseDups.length ≤ largestArray
      · obtain ⟨xs₁, hadd, h₁⟩ := appendUnique_eq_ok h hfit
        rw [hadd]
        dsimp only
        by_cases hj : j = intMax
        · exact if_pos hj
        · rw [if_neg hj]
          refine ih h₁ hfit (hbad.imp_left fun hmem => ?_)
          exact (List.mem_cons.mp hmem).resolve_left (Ne.symm hj)
      · rw [appendUnique_eq_undefined h hseen hfit]

/-- **The numbers of an item** are added, or the behaviour is undefined. -/
theorem each_append {seen : List ℕ} {vals : Uniq.Growing ℕ} (h : Took seen vals)
    (hseen : seen.eraseDups.length ≤ largestArray) {item : Bytes} {r : RidItem}
    (hr : RankReads item r) :
    if r.EndsBelow ∧ (seen ++ r.values).eraseDups.length ≤ largestArray then
      ∃ vals', r.each sfExportAppendSubrank vals = .ok vals' ∧ Took (seen ++ r.values) vals'
    else r.each sfExportAppendSubrank vals = .error .undefined := by
  obtain ⟨hmeans, hfits⟩ := hr
  cases r with
  | one v =>
      split_ifs with hgood
      · exact appendUnique_eq_ok h hgood.2
      · exact appendUnique_eq_undefined h hseen fun hfit => hgood ⟨trivial, hfit⟩
  | range lo hi =>
      have hle : lo ≤ hi := by
        generalize plainItem (item.take 63) = plain at hmeans
        cases hmeans with
        | range _ _ hle => exact hle
      have hmem : ∀ v, v ∈ List.range' lo (hi + 1 - lo) ↔ lo ≤ v ∧ v ≤ hi := by
        intro v
        rw [List.mem_range'_1]
        omega
      have hmax : hi ≤ intMax := hfits hi ((hmem hi).mpr ⟨hle, le_rfl⟩)
      split_ifs with hgood
      · refine rangeLoop_appendUnique h hgood.2 fun v hv => ?_
        exact ((hmem v).mp hv).2.trans_lt hgood.1
      · refine rangeLoop_appendUnique_eq_undefined h hseen ?_
        rw [not_and_or] at hgood
        refine hgood.imp_left fun hend => (hmem _).mpr ?_
        have hlast : hi = intMax := le_antisymm hmax (Nat.not_lt.mp hend)
        exact ⟨hlast ▸ hle, hlast.ge⟩

/-- An item has one reading. -/
theorem RankReads.unique {item : Bytes} {r r' : RidItem} (h : RankReads item r)
    (h' : RankReads item r') : r = r' :=
  h.1.unique h'.1

/-- **A step of the loop**: an item is read and its numbers are added, or it is refused. -/
theorem subrankItem_cases (item : Bytes) (vals : Uniq.Growing ℕ) :
    (∃ r, RankReads item r ∧ subrankItem item vals = r.each sfExportAppendSubrank vals) ∨
      (¬∃ r, RankReads item r) ∧ ∃ mod, subrankItem item vals = .error (.code mod .cliFail) := by
  cases hitem : ridItemOf (item.take 63) with
  | error e =>
      obtain ⟨mod, rfl⟩ := ridItemOf_eq_error hitem
      refine .inr ⟨?_, mod, by rw [subrankItem, hitem]⟩
      rintro ⟨r, hr⟩
      rw [ridItemOf_eq_ok_iff.mpr hr] at hitem
      cases hitem
  | ok r => exact .inl ⟨r, ridItemOf_eq_ok_iff.mp hitem, by rw [subrankItem, hitem]⟩

/-- **The loop** is defined exactly when the numbers fit. Then all items are read and their
numbers are added, or one of them is refused. -/
theorem subrankItems_run {seen : List ℕ} {vals : Uniq.Growing ℕ} (h : Took seen vals)
    (hseen : seen.eraseDups.length ≤ largestArray) (items : List Bytes) :
    (RanksFit seen items ∧ ∃ rs vals', List.Forall₂ RankReads items rs ∧
      items.foldlM (fun s item => subrankItem item s) vals = .ok vals' ∧
        Took (seen ++ rs.flatMap RidItem.values) vals') ∨
    (RanksFit seen items ∧ (¬∀ item ∈ items, ∃ r, RankReads item r) ∧
      ∃ mod, items.foldlM (fun s item => subrankItem item s) vals = .error (.code mod .cliFail)) ∨
    (¬RanksFit seen items ∧
      items.foldlM (fun s item => subrankItem item s) vals = .error .undefined) := by
  induction items generalizing seen vals with
  | nil => exact .inl ⟨trivial, [], vals, .nil, rfl, by simpa using h⟩
  | cons item items ih =>
      rw [List.foldlM_cons]
      rcases subrankItem_cases item vals with ⟨r, hr, hstep⟩ | ⟨hnone, mod, hstep⟩
      · have honly : RanksFit seen (item :: items) ↔ r.EndsBelow ∧
            (seen ++ r.values).eraseDups.length ≤ largestArray ∧
              RanksFit (seen ++ r.values) items := by
          constructor
          · intro hfit
            exact hfit r hr
          · intro hfit r' hr'
            obtain rfl := hr.unique hr'
            exact hfit
        have hadd := each_append h hseen hr
        rw [honly, hstep]
        split_ifs at hadd with hgood
        · obtain ⟨vals₁, hadd, h₁⟩ := hadd
          rw [hadd]
          rcases ih h₁ hgood.2 with ⟨hfit, rs, vals', hrs, hrun, h'⟩ | ⟨hfit, hnone, mod, hrun⟩ |
            ⟨hfit, hrun⟩
          · refine .inl ⟨⟨hgood.1, hgood.2, hfit⟩, r :: rs, vals', .cons hr hrs, hrun, ?_⟩
            rwa [List.flatMap_cons, ← List.append_assoc]
          · refine .inr (.inl ⟨⟨hgood.1, hgood.2, hfit⟩, fun hall => hnone ?_, mod, hrun⟩)
            exact fun item hitem => hall item (List.mem_cons_of_mem _ hitem)
          · exact .inr (.inr ⟨fun hall => hfit hall.2.2, hrun⟩)
        · rw [hadd]
          exact .inr (.inr ⟨fun hall => hgood ⟨hall.1, hall.2.1⟩, rfl⟩)
      · rw [hstep]
        refine .inr (.inl ⟨fun r hr => absurd ⟨r, hr⟩ hnone, fun hall => hnone ?_, mod, rfl⟩)
        exact hall item List.mem_cons_self

/-! ### The filter -/

/-- An empty item names nothing. -/
theorem not_namesRank_nil (s : ℕ) : ¬NamesRank [] s := by
  rintro ⟨r, hmeans, -⟩
  exact ((itemMeans_of_not_mem List.not_mem_nil).mp hmeans).1.1 rfl

/-- The loop comes to all items that name something. -/
theorem exists_listItems_iff (value : Bytes) (s : ℕ) :
    (∃ item ∈ listItems value, NamesRank (item.take 63) s) ↔
      ∃ item ∈ value.splitOn comma, NamesRank (item.take 63) s := by
  by_cases hlast : (value.splitOn comma).getLast? = some []
  · obtain ⟨items, hitems⟩ := List.getLast?_eq_some_iff.mp hlast
    rw [listItems, if_pos hlast, hitems, List.dropLast_concat]
    constructor
    · rintro ⟨item, hitem, hs⟩
      exact ⟨item, List.mem_append_left _ hitem, hs⟩
    · rintro ⟨item, hitem, hs⟩
      rcases List.mem_append.mp hitem with hitem | hitem
      · exact ⟨item, hitem, hs⟩
      · obtain rfl := List.mem_singleton.mp hitem
        exact absurd hs (not_namesRank_nil s)
  · rw [listItems, if_neg hlast]

/-- The numbers that are added are those that the items name in their buffers. -/
theorem mem_values_iff {items : List Bytes} {rs : List RidItem}
    (hrs : List.Forall₂ RankReads items rs) (s : ℕ) :
    s ∈ rs.flatMap RidItem.values ↔ ∃ item ∈ items, NamesRank (item.take 63) s := by
  induction hrs with
  | nil => simp
  | @cons item r items rs hr _ ih =>
      have hfirst : s ∈ r.values ↔ NamesRank (item.take 63) s := by
        constructor
        · intro hs
          exact ⟨r, hr.1, hs⟩
        · rintro ⟨r', hr', hs⟩
          rwa [hr.1.unique hr']
      rw [List.flatMap_cons, List.mem_append, hfirst, ih, List.exists_mem_cons_iff]

/-- Readings of items are readings of each of them. -/
theorem exists_rankReads {items : List Bytes} {rs : List RidItem}
    (hrs : List.Forall₂ RankReads items rs) : ∀ item ∈ items, ∃ r, RankReads item r := by
  induction hrs with
  | nil =>
      intro item hitem
      cases hitem
  | cons hr _ ih =>
      rw [List.forall_mem_cons]
      exact ⟨⟨_, hr⟩, ih⟩

/-- The parser on a filter with the key `subrank`. -/
theorem exportParseFilter_subrank {value : Bytes} (hless : 60 ∉ value) (hgreater : 62 ∉ value)
    (hne : value ≠ []) :
    tpbcliTaskExportParseFilter (subrankKey ++ equalsSign :: value) =
      match itemLoop subrankItem value .empty with
      | .error e => .error e
      | .ok vals => .ok (.subrank (vals.elems.map (↑))) := by
  have hcut : strchr equalsSign (subrankKey ++ equalsSign :: value) = some (subrankKey, value) :=
    strchr_append (by decide) value
  have hsigns : ¬(62 ∈ subrankKey ++ equalsSign :: value ∨
      60 ∈ subrankKey ++ equalsSign :: value) := by
    simp [subrankKey, ascii, equalsSign, hless, hgreater]
  rw [tpbcliTaskExportParseFilter, hcut]
  dsimp only
  rw [if_neg hsigns, if_neg (by decide), if_neg hne, if_pos rfl]

/-- A filter with another comparison, or without a value, is refused. -/
theorem exportParseFilter_refused {value : Bytes} (h : (60 ∈ value ∨ 62 ∈ value) ∨ value = []) :
    tpbcliTaskExportParseFilter (subrankKey ++ equalsSign :: value) =
      .error (.code .cliMisc .cliFail) := by
  have hcut : strchr equalsSign (subrankKey ++ equalsSign :: value) = some (subrankKey, value) :=
    strchr_append (by decide) value
  rw [tpbcliTaskExportParseFilter, hcut]
  dsimp only
  rcases h with h | rfl
  · refine if_pos ?_
    rcases h with h | h
    · exact .inr (List.mem_append_right _ (List.mem_cons_of_mem _ h))
    · exact .inl (List.mem_append_right _ (List.mem_cons_of_mem _ h))
  · rfl

/-- A filter that is not accepted is parsed as it should be, unless it is not defined. -/
theorem SubrankFiltered.of_error {value : Bytes} {mod : Module} {cause : Cause} :
    SubrankFiltered value (.error (.code mod cause)) := by
  refine ⟨fun h => ?_, fun f h => ?_⟩
  · cases h
  · cases h

/-- **A filter on the numbers of members** stays within `int` arithmetic and lets the members
pass that its items name exactly when it is refused for its signs, or its numbers fit and are
the same in the buffers. -/
theorem subrankFilter_iff (value : Bytes) :
    SubrankFiltered value (tpbcliTaskExportParseFilter (subrankKey ++ equalsSign :: value)) ↔
      (60 ∈ value ∨ 62 ∈ value) ∨ RanksFit [] (listItems value) ∧ SameRanks value := by
  by_cases hsigns : 60 ∈ value ∨ 62 ∈ value
  · rw [exportParseFilter_refused (.inl hsigns)]
    exact iff_of_true .of_error (.inl hsigns)
  by_cases hne : value = []
  · rw [exportParseFilter_refused (.inr hne)]
    subst hne
    exact iff_of_true .of_error (.inr ⟨trivial, fun _ s => by simp⟩)
  rw [or_iff_right hsigns, exportParseFilter_subrank (not_or.mp hsigns).1 (not_or.mp hsigns).2 hne,
    itemLoop_eq]
  rcases subrankItems_run (Uniq.Holds.empty : Took [] _) (by simp) (listItems value) with
    ⟨hfit, rs, vals, hrs, hrun, hvals⟩ | ⟨hfit, hnone, mod, hrun⟩ | ⟨hfit, hrun⟩
  · -- the filter is accepted
    have helems := hvals.elems
    rw [List.nil_append] at helems
    have hpasses : ∀ (s : ℕ) (tid : UInt32),
        sfMemberPasses [.subrank (vals.elems.map (↑))] s tid = true ↔
          ∃ item ∈ value.splitOn comma, NamesRank (item.take 63) s := by
      intro s tid
      rw [← exists_listItems_iff, ← mem_values_iff hrs, ← List.mem_eraseDups, ← helems]
      simp [sfMemberPasses, ExportFilter.passes]
    rw [hrun, SameRanks]
    dsimp only
    constructor
    · rintro ⟨-, hnames⟩
      refine ⟨hfit, fun _ s => ?_⟩
      rw [← hnames _ rfl s 0, hpasses]
    · rintro ⟨-, hsame⟩
      refine ⟨fun h => (by cases h), fun f hf s tid => ?_⟩
      obtain rfl := Except.ok.inj hf
      rw [hpasses, hsame (exists_rankReads hrs)]
  · rw [hrun]
    exact iff_of_true .of_error ⟨hfit, fun hall => absurd hall hnone⟩
  · rw [hrun]
    exact iff_of_false (fun h => h.1 rfl) (fun h => hfit h.1)

/-- The numbers of an item are told by which they are. -/
theorem values_eq_iff {item item' : Bytes} {r r' : RidItem} (h : ItemMeans item r)
    (h' : ItemMeans item' r') : r'.values = r.values ↔ ∀ s, s ∈ r.values ↔ s ∈ r'.values := by
  have hrange : ∀ {item r}, ItemMeans item r → ∃ lo k, r.values = List.range' lo (k + 1) := by
    intro item r hmeans
    cases hmeans with
    | one _ => exact ⟨_, 0, rfl⟩
    | @range lo hi _ _ hle =>
        refine ⟨digitsNat lo, digitsNat hi - digitsNat lo, ?_⟩
        rw [RidItem.values, Nat.sub_add_comm hle]
  obtain ⟨lo, k, hr⟩ := hrange h
  obtain ⟨lo', k', hr'⟩ := hrange h'
  simp only [hr, hr', List.mem_range'_1]
  constructor
  · intro heq s
    have hmem : ∀ s, s ∈ List.range' lo' (k' + 1) ↔ s ∈ List.range' lo (k + 1) := by
      intro s
      rw [heq]
    simp only [List.mem_range'_1] at hmem
    exact (hmem s).symm
  · intro hsame
    have hfirst := hsame lo
    have hfirst' := hsame lo'
    have hlast := hsame (lo + k)
    have hlast' := hsame (lo' + k')
    obtain rfl : lo = lo' := by omega
    obtain rfl : k = k' := by omega
    rfl

/-- **Which items name other numbers in their buffer**: of those that are longer than it and are
read there, all whose numbers are not zero, but for ranges of one number whose dash is the first
character that is cut. -/
theorem namesRank_take_iff {item : Bytes} (hlong : 63 < item.length) {r' : RidItem}
    (hr : RankReads item r') :
    (∀ s, NamesRank item s ↔ NamesRank (item.take 63) s) ↔ ∃ r, ItemMeans (plainItem item) r ∧
      ((∀ v ∈ r.values, v = 0) ∨ item[63]? = some dash ∧ ∃ v, r = .range v v) := by
  have hcut : ∀ s, NamesRank (item.take 63) s ↔ s ∈ r'.values := by
    intro s
    constructor
    · rintro ⟨r'', hr'', hs⟩
      rwa [hr.1.unique hr'']
    · exact fun hs => ⟨r', hr.1, hs⟩
  by_cases hmeans : ∃ r, ItemMeans (plainItem item) r
  · obtain ⟨r, hmeans⟩ := hmeans
    have hfull : ∀ s, NamesRank item s ↔ s ∈ r.values := by
      intro s
      constructor
      · rintro ⟨r'', hr'', hs⟩
        rwa [hmeans.unique hr'']
      · exact fun hs => ⟨r, hmeans, hs⟩
    simp only [hcut, hfull]
    rw [← values_eq_iff hmeans hr.1, values_take_iff hlong hmeans hr.1]
    constructor
    · exact fun hkeeps => ⟨r, hmeans, hkeeps⟩
    · rintro ⟨r'', hr'', hkeeps⟩
      rwa [hmeans.unique hr'']
  · refine iff_of_false (fun hsame => ?_) fun ⟨r, h, _⟩ => hmeans ⟨r, h⟩
    -- the item names nothing, and its front a number
    obtain ⟨v, hv⟩ := List.exists_mem_of_ne_nil _ hr.1.values_ne_nil
    obtain ⟨r, h, -⟩ := (hsame v).mpr ((hcut v).mpr hv)
    exact hmeans ⟨r, h⟩

/-- The items name the same numbers in their buffers when none is longer, or only such as keep their
numbers. -/
theorem sameRanks_of_items {value : Bytes}
    (h : ∀ item ∈ listItems value, 63 < item.length → ∃ r, ItemMeans (plainItem item) r ∧
      ((∀ v ∈ r.values, v = 0) ∨ item[63]? = some dash ∧ ∃ v, r = .range v v)) :
    SameRanks value := by
  intro hread s
  have hitem : ∀ item ∈ listItems value, NamesRank item s ↔ NamesRank (item.take 63) s := by
    intro item hmem
    by_cases hlong : 63 < item.length
    · obtain ⟨r', hr'⟩ := hread item hmem
      exact (namesRank_take_iff hlong hr').mpr (h item hmem hlong) s
    · rw [List.take_of_length_le (Nat.not_lt.mp hlong)]
  have hsplit : ∀ item ∈ value.splitOn comma, NamesRank item s ↔ NamesRank (item.take 63) s := by
    intro item hmem
    by_cases hlast : (value.splitOn comma).getLast? = some []
    · obtain ⟨items, hitems⟩ := List.getLast?_eq_some_iff.mp hlast
      rw [hitems] at hmem
      rw [listItems, if_pos hlast, hitems, List.dropLast_concat] at hitem
      rcases List.mem_append.mp hmem with hmem | hmem
      · exact hitem item hmem
      · obtain rfl := List.mem_singleton.mp hmem
        rfl
    · rw [listItems, if_neg hlast] at hitem
      exact hitem item hmem
  exact exists_congr fun item => and_congr_right (hsplit item)

/-- A printed range in its buffer is read as it is. -/
theorem rankReads_range {lo hi : ℕ} (hle : lo ≤ hi) (hmax : hi ≤ intMax) :
    RankReads (formatD lo ++ dash :: formatD hi) (.range lo hi) := by
  have hnumber : ∀ n, IsNumber (formatD n) := fun n =>
    ⟨formatD_ne_nil n, fun b hb => isdigit_of_mem_formatD hb⟩
  have hlen : (formatD lo ++ dash :: formatD hi).length ≤ 63 := by
    have hlo := length_formatD_le (hle.trans hmax)
    have hhi := length_formatD_le hmax
    rw [List.length_append, List.length_cons]
    omega
  rw [RankReads, List.take_of_length_le hlen, plainItem, strchr_append (hnumber lo).dash_not_mem]
  dsimp only
  rw [plainNumber_of_isNumber (hnumber lo), plainNumber_of_isNumber (hnumber hi)]
  refine ⟨?_, fun v hv => ?_⟩
  · refine (itemMeans_append (hnumber lo).dash_not_mem).mpr ⟨hnumber lo, hnumber hi, ?_⟩
    rw [digitsNat_formatD, digitsNat_formatD]
    exact ⟨hle, rfl⟩
  · rw [RidItem.values, List.mem_range'_1] at hv
    omega

/-- The range of the largest `int` alone is not parsed with `int` arithmetic. -/
theorem range_to_intMax :
    ¬SubrankFiltered (formatD intMax ++ dash :: formatD intMax)
      (tpbcliTaskExportParseFilter
        (subrankKey ++ equalsSign :: (formatD intMax ++ dash :: formatD intMax))) := by
  have hmem : ∀ b, b ≠ dash → isdigit b = false → b ∉ formatD intMax ++ dash :: formatD intMax := by
    intro b hdash hdigit hb
    rw [List.mem_append, List.mem_cons] at hb
    rcases hb with hb | hb | hb
    · simp [isdigit_of_mem_formatD hb] at hdigit
    · exact hdash hb
    · simp [isdigit_of_mem_formatD hb] at hdigit
  have hitems : listItems (formatD intMax ++ dash :: formatD intMax) =
      [formatD intMax ++ dash :: formatD intMax] := by
    rw [listItems, List.splitOn_eq_singleton (hmem comma (by decide) rfl), if_neg (by simp)]
  have hfit : ¬RanksFit [] (listItems (formatD intMax ++ dash :: formatD intMax)) := by
    rw [hitems]
    intro h
    exact absurd (h _ (rankReads_range le_rfl le_rfl)).1 (Nat.lt_irrefl _)
  have hne : formatD intMax ++ dash :: formatD intMax ≠ [] :=
    List.append_ne_nil_of_right_ne_nil _ (List.cons_ne_nil _ _)
  rintro ⟨hdefined, -⟩
  refine hdefined ?_
  rw [exportParseFilter_subrank (hmem 60 (by decide) rfl) (hmem 62 (by decide) rfl) hne,
    itemLoop_eq]
  rcases subrankItems_run (Uniq.Holds.empty : Took [] _) (by simp) (listItems _) with
    ⟨h, -⟩ | ⟨h, -⟩ | ⟨-, hrun⟩
  · exact absurd h hfit
  · exact absurd h hfit
  · rw [hrun]

end TPBench
