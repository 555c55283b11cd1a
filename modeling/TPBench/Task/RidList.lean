import TPBench.CFile.Scan
import TPBench.Cli.Dim
import TPBench.Task.NameList
import TPBench.Task.Ridmap

/-!
# Lists of Short Numbers

`-r` takes a list of short numbers and ranges (`tpbcliTaskParseRidList`,
`tpbcli-task-select.c`), and the rows of the RIDMAP have these numbers. An item is copied to a
buffer of 64 bytes, cut at its first dash, and its numbers are read by `strtol`.

What the list means is stated over the items between its commas, without the blanks around them
(`ItemsMean`). The parser reads other items (`plainItems`, `ridList_eq_ok_iff`): an empty one at
the end of the text is not looked at, one that is too long is cut behind 63 characters, and
blanks and a sign in front of a number are left out.

## Main results

* `ridParsed_iff`: a list is parsed as it is meant if and only if it is written as it is read
  (`AsRead`): without a comma at the end and without blanks and signs in front of numbers, where it
  is good otherwise, and such that the cut keeps the numbers.
* `values_take_iff`, `cutKeeps_of_items`: which items keep their numbers when they are cut.
-/

open CFile

namespace TPBench

/-! ### Items -/

/-- The dash of a range. -/
def dash : UInt8 := 45

/-- `_sf_parse_nonneg_rid_token`. -/
def sfParseNonnegRidToken (tok : Bytes) : Except Err ℕ :=
  if tok = [] then .error (.code .cliMisc .cliFail)
  else
    let (v, rest) := strtol tok
    if rest = tok ∨ rest ≠ [] ∨ v < 0 ∨ intMax < v then .error (.code .cliMisc .cliFail)
    else .ok v.toNat

/-- An item of a list. -/
inductive RidItem
  | one (v : ℕ)
  | range (lo hi : ℕ)
  deriving DecidableEq

/-- The numbers of an item. -/
def RidItem.values : RidItem → List ℕ
  | one v => [v]
  | range lo hi => List.range' lo (hi + 1 - lo)

/-- An item in its buffer is read: as a range when there is a dash. -/
def ridItemOf (seg : Bytes) : Except Err RidItem :=
  match strchr dash seg with
  | some (lo, hi) =>
      match sfParseNonnegRidToken lo with
      | .error e => .error e
      | .ok lo =>
          match sfParseNonnegRidToken hi with
          | .error e => .error e
          | .ok hi => if lo > hi then .error (.code .none .cliFail) else .ok (.range lo hi)
  | none =>
      match sfParseNonnegRidToken seg with
      | .error e => .error e
      | .ok v => .ok (.one v)

/-- The loop over the numbers of a range, whose counter is an `int`. -/
def rangeLoop {σ : Type} (step : ℕ → σ → Except Err σ) : ℕ → ℕ → σ → Except Err σ
  | 0, _, s => .ok s
  | n + 1, j, s =>
      match step j s with
      | .error e => .error e
      | .ok s => if j = intMax then .error .undefined else rangeLoop step n (j + 1) s

/-- A step for every number of an item. -/
def RidItem.each {σ : Type} (step : ℕ → σ → Except Err σ) : RidItem → σ → Except Err σ
  | one v => step v
  | range lo hi => rangeLoop step (hi + 1 - lo) lo

/-- The loop over the items of a list, up to their commas. -/
def itemLoop {σ : Type} (step : Bytes → σ → Except Err σ) (p : Bytes) (s : σ) : Except Err σ :=
  if p = [] then .ok s
  else
    match step (p.takeWhile (· ≠ comma)) s with
    | .error e => .error e
    | .ok s =>
        match _h : p.dropWhile (· ≠ comma) with
        | [] => .ok s
        | _ :: rest => itemLoop step rest s
termination_by p.length
decreasing_by
  have := List.length_dropWhile_le (· ≠ comma) p
  rw [_h, List.length_cons] at this
  omega

/-! ### The parser -/

/-- `_sf_append_rid_unique`. -/
def sfAppendRidUnique (rid : ℕ) (rids : Uniq.Growing ℕ) : Except Err (Uniq.Growing ℕ) :=
  appendUnique rid rids

/-- A number of the list that is not in the RIDMAP is refused. -/
def appendMapped (nmap rid : ℕ) (rids : Uniq.Growing ℕ) : Except Err (Uniq.Growing ℕ) :=
  if nmap ≤ rid then .error (.code .none .cliFail) else sfAppendRidUnique rid rids

/-- A text without the blanks around it. -/
def trimmed (item : Bytes) : Bytes := (item.rdropWhile isBlank).dropWhile isBlank

/-- The body of the loop of `tpbcli_task_parse_rid_list`. -/
def ridItem (nmap : ℕ) (item : Bytes) (rids : Uniq.Growing ℕ) :
    Except Err (Uniq.Growing ℕ) :=
  match ridItemOf ((trimmed item).take 63) with
  | .error e => .error e
  | .ok r => r.each (appendMapped nmap) rids

/-- `tpbcli_task_parse_rid_list`. -/
def tpbcliTaskParseRidList (workspace : Bytes) (files : RidmapFiles) (spec : Bytes) :
    Except Err (List ℕ) :=
  match tpbcliTaskRidmapRead workspace files with
  | .error e => .error (e.propagated .cliMisc)
  | .ok ids =>
      if ids = [] then .error (.code .cliMisc .cliFail)
      else
        match itemLoop (ridItem ids.length) spec .empty with
        | .error e => .error e
        | .ok rids =>
            if rids.elems = [] then .error (.code .cliMisc .cliFail) else .ok rids.elems

/-! ### What a list means -/

/-- Digits, at least one. -/
def IsNumber (ds : Bytes) : Prop := ds ≠ [] ∧ ∀ b ∈ ds, isdigit b = true

/-- An item is a number, or a range from a number to one that is not less. -/
inductive ItemMeans : Bytes → RidItem → Prop
  | one {ds : Bytes} (hds : IsNumber ds) : ItemMeans ds (.one (digitsNat ds))
  | range {lo hi : Bytes} (hlo : IsNumber lo) (hhi : IsNumber hi)
      (hle : digitsNat lo ≤ digitsNat hi) :
      ItemMeans (lo ++ dash :: hi) (.range (digitsNat lo) (digitsNat hi))

/-- An item means numbers below `n`. -/
def MeansBelow (n : ℕ) (item : Bytes) (r : RidItem) : Prop :=
  ItemMeans item r ∧ ∀ v ∈ r.values, v < n

/-- Items mean their numbers in order, each where it comes first, when all of them are below
`n`. -/
def ItemsMean (n : ℕ) (items : List Bytes) (rids : List ℕ) : Prop :=
  items ≠ [] ∧ ∃ rs, List.Forall₂ (MeansBelow n) items rs ∧
    rids = (rs.flatMap RidItem.values).eraseDups

/-- The items of a text, without the blanks around them. -/
def ridItems (text : Bytes) : List Bytes := (text.splitOn comma).map trimmed

/-! ### What is read -/

/-- A number without what `strtol` takes in front of it: blanks and a sign, which is a minus
only in front of zeros. -/
def plainNumber (tok : Bytes) : Bytes :=
  match tok.dropWhile isspace with
  | [] => []
  | b :: ds => if b = 43 ∨ b = 45 ∧ ds.all (· = 48) then ds else b :: ds

/-- An item with such numbers. -/
def plainItem (item : Bytes) : Bytes :=
  match strchr dash item with
  | some (lo, hi) => plainNumber lo ++ dash :: plainNumber hi
  | none => plainNumber item

/-- The items of a text that the loop comes to: all but an empty one at the end. -/
def listItems (text : Bytes) : List Bytes :=
  if (text.splitOn comma).getLast? = some [] then (text.splitOn comma).dropLast
  else text.splitOn comma

/-- The items that the parser reads. -/
def plainItems (text : Bytes) : List Bytes :=
  (listItems text).map fun item => plainItem ((trimmed item).take 63)

/-! ### Numbers -/

instance (ds : Bytes) : Decidable (IsNumber ds) :=
  decidable_of_iff (ds ≠ [] ∧ ds.all isdigit = true) (by rw [IsNumber, List.all_eq_true])

/-- The digits behind a sign. -/
theorem splitSign_cons {b : UInt8} (hminus : b ≠ 45) (hplus : b ≠ 43) (ds : Bytes) :
    splitSign (b :: ds) = (1, b :: ds) := by
  unfold splitSign
  split
  · rename_i h
    exact absurd (List.cons.inj h).1 hminus
  · rename_i h
    exact absurd (List.cons.inj h).1 hplus
  · rfl

/-- A token is a number when digits follow its blanks and its sign, and nothing else. -/
theorem ridToken_of_split {tok ds : Bytes} {sign : ℤ}
    (hsplit : splitSign (tok.dropWhile isspace) = (sign, ds)) :
    sfParseNonnegRidToken tok =
      if IsNumber ds ∧ 0 ≤ sign * digitsNat ds ∧ sign * digitsNat ds ≤ intMax then
        .ok (sign * digitsNat ds).toNat
      else .error (.code .cliMisc .cliFail) := by
  by_cases hnil : tok = []
  · subst hnil
    obtain ⟨-, rfl⟩ := Prod.mk.inj hsplit
    rfl
  rw [sfParseNonnegRidToken, if_neg hnil, strtol, hsplit]
  by_cases hnone : ds.takeWhile isdigit = []
  · have hds : ¬(IsNumber ds ∧ 0 ≤ sign * digitsNat ds ∧ sign * digitsNat ds ≤ intMax) := by
      rintro ⟨⟨hne, hall⟩, -⟩
      exact hne ((List.takeWhile_eq_self_iff.mpr hall).symm.trans hnone)
    rw [if_neg hds]
    dsimp only
    rw [if_pos hnone]
    exact if_pos (.inl rfl)
  dsimp only
  rw [if_neg hnone]
  dsimp only
  by_cases hall : ∀ b ∈ ds, isdigit b = true
  · have hwhole : ds.takeWhile isdigit = ds := List.takeWhile_eq_self_iff.mpr hall
    have hds : IsNumber ds := ⟨by rwa [hwhole] at hnone, hall⟩
    rw [hwhole, List.drop_length]
    by_cases hrange : 0 ≤ sign * digitsNat ds ∧ sign * digitsNat ds ≤ intMax
    · have hpos : 0 ≤ sign * (digitsNat ds : ℤ) := hrange.1
      have hmax : sign * (digitsNat ds : ℤ) ≤ 2147483647 := hrange.2
      have hkept : max (-9223372036854775808)
          (min 9223372036854775807 (sign * (digitsNat ds : ℤ))) = sign * digitsNat ds := by
        omega
      rw [hkept, if_pos (⟨hds, hrange⟩ : _ ∧ _), if_neg]
      rintro (h | h | h | h)
      · exact hnil h.symm
      · exact h rfl
      · exact absurd h (not_lt.mpr hpos)
      · exact absurd h (not_lt.mpr hmax)
    · have hright : ¬(IsNumber ds ∧ 0 ≤ sign * digitsNat ds ∧ sign * digitsNat ds ≤ intMax) :=
        fun h => hrange h.2
      rw [if_neg hright, if_pos]
      rw [not_and_or, not_le, not_le] at hrange
      rcases hrange with h | h
      · exact .inr (.inr (.inl (by omega)))
      · have hmax : (2147483647 : ℤ) < sign * digitsNat ds := h
        refine .inr (.inr (.inr ?_))
        rw [intMax, lt_max_iff, lt_min_iff]
        exact .inr ⟨by norm_num, hmax⟩
  · have hrest : ds.drop (ds.takeWhile isdigit).length ≠ [] := by
      rw [ne_eq, List.drop_eq_nil_iff]
      intro hle
      have hwhole := (List.takeWhile_prefix isdigit (l := ds)).eq_of_length_le hle
      exact hall (List.takeWhile_eq_self_iff.mp hwhole)
    have hright : ¬(IsNumber ds ∧ 0 ≤ sign * digitsNat ds ∧ sign * digitsNat ds ≤ intMax) :=
      fun h => hall h.1.2
    rw [if_neg hright]
    exact if_pos (.inr (.inl hrest))

/-- The digits behind others count with the power of their length. -/
theorem digitsNat_append (a b : Bytes) :
    digitsNat (a ++ b) = digitsNat a * 10 ^ b.length + digitsNat b := by
  induction b using List.reverseRecOn with
  | nil => simp [digitsNat]
  | append_singleton b d ih =>
      have hlast : ∀ ds : Bytes, digitsNat (ds ++ [d]) = 10 * digitsNat ds + (d.toNat - 48) := by
        intro ds
        rw [digitsNat, List.foldl_append]
        rfl
      rw [← List.append_assoc, hlast, hlast, ih, List.length_append, List.length_singleton,
        pow_succ]
      ring

/-- More digits behind a number leave it the same only when it is zero. -/
theorem digitsNat_append_eq_left {a b : Bytes} (hb : b ≠ []) :
    digitsNat (a ++ b) = digitsNat a ↔ digitsNat (a ++ b) = 0 := by
  rw [digitsNat_append]
  have hpow : 10 ≤ 10 ^ b.length :=
    Nat.le_self_pow (List.length_pos_iff.mpr hb).ne' 10
  have hten : digitsNat a * 10 ≤ digitsNat a * 10 ^ b.length := Nat.mul_le_mul_left _ hpow
  constructor
  · intro h
    omega
  · intro h
    omega

/-- Digits stand for zero only when they are zeros. -/
theorem digitsNat_eq_zero {ds : Bytes} (hds : ∀ b ∈ ds, isdigit b = true) :
    digitsNat ds = 0 ↔ ds.all (· = 48) = true := by
  simp only [List.all_eq_true, decide_eq_true_eq]
  induction ds using List.reverseRecOn with
  | nil => simp [digitsNat]
  | append_singleton ds d ih =>
      have hd := hds d (List.mem_append_right _ (List.mem_singleton_self d))
      simp only [isdigit, Bool.decide_and, Bool.and_eq_true, decide_eq_true_eq,
        UInt8.le_iff_toNat_le, UInt8.reduceToNat] at hd
      have hsplit : digitsNat (ds ++ [d]) = 10 * digitsNat ds + (d.toNat - 48) := by
        rw [digitsNat_append, List.length_singleton, pow_one, mul_comm]
        simp [digitsNat]
      have hzero : d = 48 ↔ d.toNat - 48 = 0 := by
        rw [← UInt8.toNat_inj]
        simp only [UInt8.reduceToNat]
        omega
      rw [hsplit, List.forall_mem_append, ← ih fun b hb => hds b (List.mem_append_left _ hb),
        List.forall_mem_singleton, hzero]
      omega

/-- A token without a minus. -/
theorem ridToken_of_split_one {tok ds : Bytes}
    (hsplit : splitSign (tok.dropWhile isspace) = (1, ds)) :
    sfParseNonnegRidToken tok =
      if IsNumber ds ∧ digitsNat ds ≤ intMax then .ok (digitsNat ds)
      else .error (.code .cliMisc .cliFail) := by
  rw [ridToken_of_split hsplit]
  simp only [one_mul, Int.natCast_nonneg, true_and, Nat.cast_le, Int.toNat_natCast]

/-- A token with a minus: the number is zero. -/
theorem ridToken_of_split_minus {tok ds : Bytes}
    (hsplit : splitSign (tok.dropWhile isspace) = (-1, ds)) :
    sfParseNonnegRidToken tok =
      if IsNumber ds ∧ digitsNat ds = 0 then .ok 0 else .error (.code .cliMisc .cliFail) := by
  rw [ridToken_of_split hsplit]
  by_cases hzero : digitsNat ds = 0
  · simp [hzero]
  · have hleft : ¬(IsNumber ds ∧ 0 ≤ (-1 : ℤ) * digitsNat ds ∧
        (-1 : ℤ) * digitsNat ds ≤ intMax) := by
      rintro ⟨-, hpos, -⟩
      omega
    have hright : ¬(IsNumber ds ∧ digitsNat ds = 0) := fun h => hzero h.2
    rw [if_neg hleft, if_neg hright]

/-- **What `strtol` makes of a token**: the number that is left of it, when it is an `int`. -/
theorem sfParseNonnegRidToken_eq (tok : Bytes) :
    sfParseNonnegRidToken tok =
      if IsNumber (plainNumber tok) ∧ digitsNat (plainNumber tok) ≤ intMax then
        .ok (digitsNat (plainNumber tok))
      else .error (.code .cliMisc .cliFail) := by
  cases hdrop : tok.dropWhile isspace with
  | nil =>
      have hplain : plainNumber tok = [] := by rw [plainNumber, hdrop]
      rw [hplain]
      exact ridToken_of_split_one (by rw [hdrop]; rfl)
  | cons b ds =>
      by_cases hplus : b = 43
      · subst hplus
        have hplain : plainNumber tok = ds := by
          rw [plainNumber, hdrop]
          exact if_pos (.inl rfl)
        rw [hplain]
        exact ridToken_of_split_one (by rw [hdrop, splitSign])
      by_cases hminus : b = 45
      · subst hminus
        have hsplit : splitSign (tok.dropWhile isspace) = (-1, ds) := by rw [hdrop, splitSign]
        rw [ridToken_of_split_minus hsplit]
        by_cases hzero : ds.all (· = 48) = true
        · -- in front of zeros the minus makes no difference
          have hds : ∀ b ∈ ds, isdigit b = true := by
            intro b hb
            rw [of_decide_eq_true (List.all_eq_true.mp hzero b hb)]
            rfl
          have hplain : plainNumber tok = ds := by
            rw [plainNumber, hdrop]
            exact if_pos (.inr ⟨rfl, hzero⟩)
          rw [hplain, (digitsNat_eq_zero hds).mpr hzero]
          simp
        · have hplain : plainNumber tok = 45 :: ds := by
            rw [plainNumber, hdrop]
            refine if_neg ?_
            rintro (h | ⟨-, h⟩)
            · exact hplus h
            · exact hzero h
          have hleft : ¬(IsNumber ds ∧ digitsNat ds = 0) := by
            rintro ⟨⟨-, hds⟩, h⟩
            exact hzero ((digitsNat_eq_zero hds).mp h)
          have hright : ¬(IsNumber (45 :: ds) ∧ digitsNat (45 :: ds) ≤ intMax) := by
            rintro ⟨⟨-, h⟩, -⟩
            cases h 45 List.mem_cons_self
          rw [hplain, if_neg hleft, if_neg hright]
      · have hplain : plainNumber tok = b :: ds := by
          rw [plainNumber, hdrop]
          refine if_neg ?_
          rintro (h | ⟨h, -⟩)
          · exact hplus h
          · exact hminus h
        rw [hplain]
        exact ridToken_of_split_one (by rw [hdrop, splitSign_cons hminus hplus])

/-! ### Items that are read -/

/-- The first dash. -/
theorem strchr_append {c : UInt8} {a : Bytes} (ha : c ∉ a) (b : Bytes) :
    strchr c (a ++ c :: b) = some (a, b) := by
  have hne : ∀ x ∈ a, decide (x ≠ c) = true := by
    intro x hx
    rw [decide_eq_true_eq]
    rintro rfl
    exact ha hx
  rw [strchr, if_pos (by simp), List.takeWhile_append_of_pos hne, List.dropWhile_append_of_pos hne,
    List.takeWhile_cons_of_neg (by simp), List.dropWhile_cons_of_neg (by simp), List.append_nil]
  rfl

/-- A text is cut at the character that is found. -/
theorem strchr_cases (c : UInt8) (s : Bytes) :
    (c ∉ s ∧ strchr c s = none) ∨
      ∃ a b, s = a ++ c :: b ∧ c ∉ a ∧ strchr c s = some (a, b) := by
  by_cases hc : c ∈ s
  · obtain ⟨a, b, rfl, ha⟩ := List.eq_append_cons_of_mem hc
    exact .inr ⟨a, b, rfl, ha, strchr_append ha b⟩
  · exact .inl ⟨hc, if_neg hc⟩

/-- A number has no dash. -/
theorem IsNumber.dash_not_mem {ds : Bytes} (h : IsNumber ds) : dash ∉ ds := by
  intro hmem
  cases h.2 dash hmem

/-- Nothing is added to a number. -/
theorem mem_of_mem_plainNumber {tok : Bytes} {b : UInt8} (h : b ∈ plainNumber tok) : b ∈ tok := by
  have hsubset : tok.dropWhile isspace ⊆ tok := (List.dropWhile_suffix isspace).subset
  refine hsubset ?_
  rw [plainNumber] at h
  split at h
  · cases h
  · rename_i heq
    rw [heq]
    split_ifs at h with hsign
    · exact List.mem_cons_of_mem _ h
    · exact h

/-- From a number nothing is left out. -/
theorem plainNumber_of_isNumber {ds : Bytes} (h : IsNumber ds) : plainNumber ds = ds := by
  obtain ⟨b, ds, rfl⟩ := List.exists_cons_of_ne_nil h.1
  have hb := h.2 b List.mem_cons_self
  rw [plainNumber, List.dropWhile_cons_of_neg (by simp [not_isspace_of_isdigit hb])]
  refine if_neg ?_
  rintro (rfl | ⟨rfl, -⟩)
  · cases hb
  · cases hb

/-- What a single number means. -/
theorem itemMeans_of_not_mem {ds : Bytes} (hds : dash ∉ ds) {r : RidItem} :
    ItemMeans ds r ↔ IsNumber ds ∧ r = .one (digitsNat ds) := by
  constructor
  · intro h
    cases h with
    | one h => exact ⟨h, rfl⟩
    | range => simp at hds
  · rintro ⟨h, rfl⟩
    exact .one h

/-- What a range means. -/
theorem itemMeans_append {lo hi : Bytes} (hlo : dash ∉ lo) {r : RidItem} :
    ItemMeans (lo ++ dash :: hi) r ↔ IsNumber lo ∧ IsNumber hi ∧ digitsNat lo ≤ digitsNat hi ∧
      r = .range (digitsNat lo) (digitsNat hi) := by
  constructor
  · intro h
    generalize hitem : lo ++ dash :: hi = item at h
    cases h with
    | one h => exact absurd (by simp [← hitem]) h.dash_not_mem
    | range hlo' hhi hle =>
        have hcut := strchr_append hlo hi
        rw [hitem, strchr_append hlo'.dash_not_mem] at hcut
        obtain ⟨rfl, rfl⟩ := Prod.mk.inj (Option.some.inj hcut)
        exact ⟨hlo', hhi, hle, rfl⟩
  · rintro ⟨h, hhi, hle, rfl⟩
    exact .range h hhi hle

/-! ### The cut behind 63 characters -/

/-- A number goes on behind what is read of it. -/
theorem plainNumber_append {a b : Bytes} (ha : IsNumber (plainNumber a))
    (hab : IsNumber (plainNumber (a ++ b))) : plainNumber (a ++ b) = plainNumber a ++ b := by
  cases hdrop : a.dropWhile isspace with
  | nil =>
      rw [plainNumber, hdrop] at ha
      exact absurd rfl ha.1
  | cons c ds =>
      have hboth : (a ++ b).dropWhile isspace = c :: (ds ++ b) := by
        rw [List.dropWhile_append, hdrop]
        rfl
      rw [plainNumber, hboth] at hab ⊢
      rw [plainNumber, hdrop]
      dsimp only at hab ⊢
      by_cases hplus : c = 43
      · rw [if_pos (.inl hplus), if_pos (.inl hplus)]
      by_cases hminus : c = 45
      · -- behind a minus there are zeros only
        subst hminus
        by_cases hzero : (ds ++ b).all (· = 48) = true
        · have hds : ds.all (· = 48) = true := by
            rw [List.all_append, Bool.and_eq_true] at hzero
            exact hzero.1
          rw [if_pos (.inr ⟨rfl, hzero⟩), if_pos (.inr ⟨rfl, hds⟩)]
        · rw [if_neg (not_or.mpr ⟨hplus, fun h => hzero h.2⟩)] at hab
          cases hab.2 45 List.mem_cons_self
      · rw [if_neg (not_or.mpr ⟨hplus, fun h => hminus h.1⟩),
          if_neg (not_or.mpr ⟨hplus, fun h => hminus h.1⟩)]
        rfl

/-- A number keeps its value in front of other digits only when it is zero. -/
theorem digitsNat_plainNumber_take {tok : Bytes} {k : ℕ} (hk : k < tok.length)
    (hcut : IsNumber (plainNumber (tok.take k))) (htok : IsNumber (plainNumber tok)) :
    digitsNat (plainNumber (tok.take k)) = digitsNat (plainNumber tok) ↔
      digitsNat (plainNumber tok) = 0 := by
  have hsplit := plainNumber_append (b := tok.drop k) hcut (by rwa [List.take_append_drop])
  rw [List.take_append_drop] at hsplit
  have hne : tok.drop k ≠ [] := by
    rw [ne_eq, List.drop_eq_nil_iff]
    omega
  rw [hsplit, eq_comm]
  exact digitsNat_append_eq_left hne

theorem values_range_eq_singleton {lo hi v : ℕ} (hle : lo ≤ hi) :
    (RidItem.range lo hi).values = [v] ↔ lo = v ∧ hi = v := by
  rw [RidItem.values, List.range'_eq_singleton_iff]
  omega

theorem values_range_inj {lo hi hi' : ℕ} (hle : lo ≤ hi) (hle' : lo ≤ hi') :
    (RidItem.range lo hi).values = (RidItem.range lo hi').values ↔ hi = hi' := by
  constructor
  · intro h
    have hlength := congrArg List.length h
    simp only [RidItem.values, List.length_range'] at hlength
    omega
  · rintro rfl
    rfl

/-- All numbers of a range are zero when it ends in zero. -/
theorem forall_values_range {lo hi : ℕ} (hle : lo ≤ hi) :
    (∀ v ∈ (RidItem.range lo hi).values, v = 0) ↔ hi = 0 := by
  simp only [RidItem.values, List.mem_range'_1]
  constructor
  · intro h
    exact h hi ⟨hle, by omega⟩
  · rintro rfl v hv
    omega

/-- **What the cut changes**: an item that is longer than its buffer, and is read there, has the
same numbers in it only when these are zero, or when the dash of a range of one number is the first
character that is cut. -/
theorem values_take_iff {item : Bytes} (hlong : 63 < item.length) {r r' : RidItem}
    (h : ItemMeans (plainItem item) r) (h' : ItemMeans (plainItem (item.take 63)) r') :
    r'.values = r.values ↔
      (∀ v ∈ r.values, v = 0) ∨ item[63]? = some dash ∧ ∃ v, r = .range v v := by
  rcases strchr_cases dash item with ⟨hdash, hcut⟩ | ⟨lo, hi, rfl, hdash, hcut⟩
  · -- a number and its front
    have hdash' : dash ∉ item.take 63 := fun hmem => hdash (List.mem_of_mem_take hmem)
    have hcut' : strchr dash (item.take 63) = none := if_neg hdash'
    rw [plainItem, hcut] at h
    rw [plainItem, hcut'] at h'
    obtain ⟨hds, rfl⟩ :=
      (itemMeans_of_not_mem fun hmem => hdash (mem_of_mem_plainNumber hmem)).mp h
    obtain ⟨hds', rfl⟩ :=
      (itemMeans_of_not_mem fun hmem => hdash' (mem_of_mem_plainNumber hmem)).mp h'
    simp only [RidItem.values, List.cons.injEq, and_true, List.mem_singleton, forall_eq]
    rw [digitsNat_plainNumber_take hlong hds' hds]
    simp
  · have hplain : dash ∉ plainNumber lo := fun hmem => hdash (mem_of_mem_plainNumber hmem)
    rw [plainItem, hcut] at h
    obtain ⟨hlo, hhi, hle, rfl⟩ := (itemMeans_append hplain).mp h
    rw [forall_values_range hle]
    by_cases hshort : lo.length < 63
    · -- the dash is in the buffer
      obtain ⟨k, hk⟩ : ∃ k, 63 - lo.length = k + 1 := ⟨62 - lo.length, by omega⟩
      have htake : (lo ++ dash :: hi).take 63 = lo ++ dash :: hi.take k := by
        rw [List.take_append, hk, List.take_of_length_le hshort.le, List.take_succ_cons]
      rw [htake, plainItem, strchr_append hdash] at h'
      obtain ⟨-, hhi', hle', rfl⟩ := (itemMeans_append hplain).mp h'
      have hrest : k < hi.length := by
        rw [List.length_append, List.length_cons] at hlong
        omega
      rw [values_range_inj hle' hle, digitsNat_plainNumber_take hrest hhi' hhi, iff_self_or]
      rintro ⟨hget, -⟩
      -- what is cut of the second number are digits
      have hsplit := plainNumber_append (b := hi.drop k) hhi' (by rwa [List.take_append_drop])
      rw [List.take_append_drop] at hsplit
      have hmem : dash ∈ hi.drop k := by
        have hindex : (lo ++ dash :: hi)[63]? = (hi.drop k)[0]? := by
          rw [List.getElem?_append_right hshort.le, hk, List.getElem?_cons_succ,
            List.getElem?_drop, Nat.add_zero]
        rw [hindex] at hget
        exact List.mem_of_getElem? hget
      cases hhi.2 dash (hsplit ▸ List.mem_append_right _ hmem)
    · -- the dash is cut
      rw [Nat.not_lt] at hshort
      have htake : (lo ++ dash :: hi).take 63 = lo.take 63 := List.take_append_of_le_length hshort
      have hdash' : dash ∉ lo.take 63 := fun hmem => hdash (List.mem_of_mem_take hmem)
      have hcut' : strchr dash (lo.take 63) = none := if_neg hdash'
      rw [htake, plainItem, hcut'] at h'
      obtain ⟨hlo', rfl⟩ :=
        (itemMeans_of_not_mem fun hmem => hdash' (mem_of_mem_plainNumber hmem)).mp h'
      rw [eq_comm, show (RidItem.one (digitsNat (plainNumber (lo.take 63)))).values =
        [digitsNat (plainNumber (lo.take 63))] from rfl, values_range_eq_singleton hle]
      rcases hshort.eq_or_lt with hexact | hlonger
      · have hwhole : lo.take 63 = lo := by rw [hexact, List.take_length]
        have hget : (lo ++ dash :: hi)[63]? = some dash := by
          rw [List.getElem?_append_right hexact.ge, ← hexact, Nat.sub_self]
          rfl
        simp only [hwhole, hget, true_and, RidItem.range.injEq]
        constructor
        · intro heq
          exact .inr ⟨_, rfl, heq⟩
        · rintro (hzero | ⟨v, hv, hv'⟩)
          · omega
          · omega
      · have hget : (lo ++ dash :: hi)[63]? ≠ some dash := by
          rw [List.getElem?_append_left hlonger]
          exact fun hmem => hdash (List.mem_of_getElem? hmem)
        have hnumber := digitsNat_plainNumber_take hlonger hlo' hlo
        simp only [hget, false_and, or_false]
        omega

/-- The numbers of an item are `int`s. -/
def RidItem.Fits (r : RidItem) : Prop := ∀ v ∈ r.values, v ≤ intMax

/-- An item is read as what is left of it means. -/
theorem ridItemOf_eq_ok_iff {seg : Bytes} {r : RidItem} :
    ridItemOf seg = .ok r ↔ ItemMeans (plainItem seg) r ∧ r.Fits := by
  rcases strchr_cases dash seg with ⟨hdash, hcut⟩ | ⟨lo, hi, rfl, hdash, hcut⟩
  · have hplain : dash ∉ plainNumber seg := fun h => hdash (mem_of_mem_plainNumber h)
    rw [ridItemOf, plainItem, hcut]
    dsimp only
    rw [itemMeans_of_not_mem hplain, sfParseNonnegRidToken_eq]
    by_cases h : IsNumber (plainNumber seg) ∧ digitsNat (plainNumber seg) ≤ intMax
    · rw [if_pos h]
      constructor
      · rintro ⟨⟩
        exact ⟨⟨h.1, rfl⟩, by simpa [RidItem.Fits, RidItem.values] using h.2⟩
      · rintro ⟨⟨-, rfl⟩, -⟩
        rfl
    · rw [if_neg h]
      constructor
      · rintro ⟨⟩
      · rintro ⟨⟨hn, rfl⟩, hfits⟩
        exact absurd ⟨hn, hfits _ (List.mem_singleton_self _)⟩ h
  · have hplain : dash ∉ plainNumber lo := fun h => hdash (mem_of_mem_plainNumber h)
    rw [ridItemOf, plainItem, hcut]
    dsimp only
    rw [itemMeans_append hplain, sfParseNonnegRidToken_eq, sfParseNonnegRidToken_eq]
    have hfits : ∀ {a b : ℕ}, a ≤ b → ((RidItem.range a b).Fits ↔ b ≤ intMax) := by
      intro a b hab
      constructor
      · intro h
        refine h b ?_
        rw [RidItem.values, List.mem_range'_1]
        omega
      · intro h v hv
        rw [RidItem.values, List.mem_range'_1] at hv
        omega
    constructor
    · intro h
      split_ifs at h with hlo hhi
      · dsimp only at h
        split_ifs at h with hle
        obtain rfl := Except.ok.inj h
        rw [hfits (not_lt.mp hle)]
        exact ⟨⟨hlo.1, hhi.1, not_lt.mp hle, rfl⟩, hhi.2⟩
    · rintro ⟨⟨hlo, hhi, hle, rfl⟩, hmax⟩
      rw [hfits hle] at hmax
      rw [if_pos ⟨hlo, hle.trans hmax⟩, if_pos ⟨hhi, hmax⟩]
      exact if_neg (not_lt.mpr hle)

/-- Any other token is refused. -/
theorem ridToken_eq_error {tok : Bytes} {e : Err} (h : sfParseNonnegRidToken tok = .error e) :
    e = .code .cliMisc .cliFail := by
  rw [sfParseNonnegRidToken_eq] at h
  split_ifs at h
  exact (Except.error.inj h).symm

/-- Any other item is refused. -/
theorem ridItemOf_eq_error {seg : Bytes} {e : Err} (h : ridItemOf seg = .error e) :
    ∃ mod, e = .code mod .cliFail := by
  rw [ridItemOf] at h
  split at h
  · split at h
    · rename_i htok
      obtain rfl := Except.error.inj h
      exact ⟨_, ridToken_eq_error htok⟩
    · split at h
      · rename_i htok
        obtain rfl := Except.error.inj h
        exact ⟨_, ridToken_eq_error htok⟩
      · split_ifs at h
        exact ⟨_, (Except.error.inj h).symm⟩
  · split at h
    · rename_i htok
      obtain rfl := Except.error.inj h
      exact ⟨_, ridToken_eq_error htok⟩
    · cases h

/-! ### Loops -/

/-- The first item, and those behind its comma. -/
theorem listItems_eq {p : Bytes} (hp : p ≠ []) :
    listItems p = p.takeWhile (· ≠ comma) :: match p.dropWhile (· ≠ comma) with
      | [] => []
      | _ :: rest => listItems rest := by
  rcases strchr_cases comma p with ⟨hc, -⟩ | ⟨a, rest, rfl, ha, -⟩
  · have hall : ∀ b ∈ p, decide (b ≠ comma) = true := by
      intro b hb
      rw [decide_eq_true_eq]
      rintro rfl
      exact hc hb
    rw [List.takeWhile_eq_self_iff.mpr hall, List.dropWhile_eq_nil_iff.mpr hall, listItems,
      List.splitOn_eq_singleton hc, if_neg (by simpa using hp)]
  · have hall : ∀ b ∈ a, decide (b ≠ comma) = true := by
      intro b hb
      rw [decide_eq_true_eq]
      rintro rfl
      exact ha hb
    have hsplit : (a ++ comma :: rest).splitOn comma = a :: rest.splitOn comma :=
      List.splitOn_append_cons_self_of_not_mem ha rest
    obtain ⟨b, bs, hrest⟩ := List.exists_cons_of_ne_nil (List.splitOn_ne_nil comma rest)
    rw [List.takeWhile_append_of_pos hall, List.dropWhile_append_of_pos hall,
      List.takeWhile_cons_of_neg (by simp), List.dropWhile_cons_of_neg (by simp), List.append_nil,
      listItems, hsplit, hrest, List.getLast?_cons_cons]
    dsimp only
    rw [listItems, hrest]
    split_ifs
    · rfl
    · rfl

/-- The loop takes a step for each item. -/
theorem itemLoop_eq {σ : Type} (step : Bytes → σ → Except Err σ) (p : Bytes) (s : σ) :
    itemLoop step p s = (listItems p).foldlM (fun s item => step item s) s := by
  fun_induction itemLoop step p s with
  | case1 => rfl
  | case2 p s hne e hstep =>
      rw [listItems_eq hne, List.foldlM_cons, hstep]
      rfl
  | case3 p s hne s' hstep hdrop =>
      rw [listItems_eq hne, List.foldlM_cons, hstep, hdrop]
      rfl
  | case4 p s hne s' hstep b rest hdrop ih =>
      rw [listItems_eq hne, List.foldlM_cons, hstep, hdrop]
      exact ih

/-- A range is added as long as there are not too many distinct numbers. -/
theorem rangeLoop_appendUnique {seen : List ℕ} {xs : Uniq.Growing ℕ} (h : Took seen xs) {k j : ℕ}
    (hfit : (seen ++ List.range' j k).eraseDups.length ≤ largestArray)
    (hmax : ∀ v ∈ List.range' j k, v < intMax) :
    ∃ xs', rangeLoop appendUnique k j xs = .ok xs' ∧ Took (seen ++ List.range' j k) xs' := by
  induction k generalizing seen xs j with
  | zero => exact ⟨xs, rfl, by rwa [List.range'_zero, List.append_nil]⟩
  | succ k ih =>
      rw [List.range'_succ, List.append_cons] at hfit ⊢
      rw [List.range'_succ, List.forall_mem_cons] at hmax
      obtain ⟨xs₁, hadd, h₁⟩ := appendUnique_eq_ok h
        ((Uniq.length_eraseDups_le_append _ _).trans hfit)
      obtain ⟨xs', hloop, h'⟩ := ih h₁ hfit hmax.2
      refine ⟨xs', ?_, h'⟩
      rw [rangeLoop, hadd]
      dsimp only
      rw [if_neg hmax.1.ne, hloop]

/-! ### The items of a list -/

/-- An item that is read has these numbers, which are in the RIDMAP. -/
def ItemReads (n : ℕ) (item : Bytes) (r : RidItem) : Prop :=
  MeansBelow n (plainItem ((trimmed item).take 63)) r

/-- The items that are read are those of the loop. -/
theorem forall₂_plainItems {n : ℕ} {text : Bytes} {rs : List RidItem} :
    List.Forall₂ (MeansBelow n) (plainItems text) rs ↔
      List.Forall₂ (ItemReads n) (listItems text) rs :=
  List.forall₂_map_left_iff

/-- The numbers of a RIDMAP are distinct from each other only as far as it goes. -/
theorem length_eraseDups_le_of_lt {n : ℕ} {rids : List ℕ} (h : ∀ rid ∈ rids, rid < n) :
    rids.eraseDups.length ≤ n := by
  have hrange : ∀ rid ∈ rids, rid ∈ List.range n := fun rid hrid => List.mem_range.mpr (h rid hrid)
  have hle := Uniq.length_eraseDups_le hrange
  rwa [List.length_range] at hle

/-- A number of the RIDMAP is added. -/
theorem appendMapped_eq_ok {n : ℕ} {seen : List ℕ} {rids : Uniq.Growing ℕ} (h : Took seen rids)
    (hn : n ≤ largestArray) (hseen : ∀ v ∈ seen, v < n) {v : ℕ} (hv : v < n) :
    ∃ rids', appendMapped n v rids = .ok rids' ∧ Took (seen ++ [v]) rids' := by
  rw [appendMapped, if_neg (Nat.not_le.mpr hv)]
  refine appendUnique_eq_ok h ((length_eraseDups_le_of_lt ?_).trans hn)
  rw [List.forall_mem_append, List.forall_mem_singleton]
  exact ⟨hseen, hv⟩

/-- A range is added when its numbers are in the RIDMAP, and is refused otherwise. -/
theorem rangeLoop_appendMapped {n : ℕ} {seen : List ℕ} {rids : Uniq.Growing ℕ} (h : Took seen rids)
    (hn : n ≤ largestArray) (hseen : ∀ v ∈ seen, v < n) (k j : ℕ) :
    if ∀ v ∈ List.range' j k, v < n then
      ∃ rids', rangeLoop (appendMapped n) k j rids = .ok rids' ∧
        Took (seen ++ List.range' j k) rids'
    else rangeLoop (appendMapped n) k j rids = .error (.code .none .cliFail) := by
  induction k generalizing seen rids j with
  | zero =>
      rw [List.range'_zero, if_pos (by simp), List.append_nil]
      exact ⟨rids, rfl, h⟩
  | succ k ih =>
      rw [rangeLoop, List.range'_succ]
      by_cases hj : j < n
      · obtain ⟨rids₁, hadd, h₁⟩ := appendMapped_eq_ok h hn hseen hj
        have hmax : j ≠ intMax := by
          rw [largestArray] at hn
          rw [intMax]
          omega
        have hrest := ih h₁ (by
          rw [List.forall_mem_append, List.forall_mem_singleton]
          exact ⟨hseen, hj⟩) (j + 1)
        simp only [hadd, if_neg hmax, List.forall_mem_cons, hj, true_and]
        rw [List.append_cons]
        exact hrest
      · rw [if_neg (fun h => hj (h j List.mem_cons_self)), appendMapped,
          if_pos (Nat.not_lt.mp hj)]

/-- **A step of the loop**: an item that is read adds its numbers, and any other is refused. -/
theorem ridItem_step {n : ℕ} {seen : List ℕ} {rids : Uniq.Growing ℕ} (h : Took seen rids)
    (hn : n ≤ largestArray) (hseen : ∀ v ∈ seen, v < n) (item : Bytes) :
    (∃ r rids', ItemReads n item r ∧ ridItem n item rids = .ok rids' ∧
      Took (seen ++ r.values) rids') ∨
    (¬∃ r, ItemReads n item r) ∧ ∃ mod, ridItem n item rids = .error (.code mod .cliFail) := by
  have hfits : ∀ {r : RidItem}, (∀ v ∈ r.values, v < n) → r.Fits := by
    intro r hr v hv
    have := hr v hv
    rw [largestArray] at hn
    rw [intMax]
    omega
  cases hitem : ridItemOf ((trimmed item).take 63) with
  | error e =>
      obtain ⟨mod, rfl⟩ := ridItemOf_eq_error hitem
      refine .inr ⟨?_, mod, by rw [ridItem, hitem]⟩
      rintro ⟨r, hmeans, hr⟩
      rw [ridItemOf_eq_ok_iff.mpr ⟨hmeans, hfits hr⟩] at hitem
      cases hitem
  | ok r =>
      have hmeans := (ridItemOf_eq_ok_iff.mp hitem).1
      have honly : ∀ {r'}, ItemReads n item r' → r' = r := by
        rintro r' ⟨hmeans', hr'⟩
        rw [ridItemOf_eq_ok_iff.mpr ⟨hmeans', hfits hr'⟩] at hitem
        exact Except.ok.inj hitem
      have hloop : (∀ v ∈ r.values, v < n) ∧ (∃ rids', r.each (appendMapped n) rids = .ok rids' ∧
            Took (seen ++ r.values) rids') ∨
          (¬∀ v ∈ r.values, v < n) ∧
            r.each (appendMapped n) rids = .error (.code .none .cliFail) := by
        cases r with
        | one v =>
            by_cases hv : v < n
            · exact .inl ⟨by simpa [RidItem.values] using hv, appendMapped_eq_ok h hn hseen hv⟩
            · refine .inr ⟨by simpa [RidItem.values] using hv, ?_⟩
              rw [RidItem.each, appendMapped, if_pos (Nat.not_lt.mp hv)]
        | range lo hi =>
            have hrange := rangeLoop_appendMapped h hn hseen (hi + 1 - lo) lo
            split_ifs at hrange with hr
            · exact .inl ⟨hr, hrange⟩
            · exact .inr ⟨hr, hrange⟩
      rcases hloop with ⟨hr, rids', hadd, h'⟩ | ⟨hr, hadd⟩
      · exact .inl ⟨r, rids', ⟨hmeans, hr⟩, by rw [ridItem, hitem]; exact hadd, h'⟩
      · refine .inr ⟨?_, .none, by rw [ridItem, hitem]; exact hadd⟩
        rintro ⟨r', hreads⟩
        obtain rfl := honly hreads
        exact hr hreads.2

/-- **The loop**: the numbers of all items are added, or one of them is refused. -/
theorem ridItems_run {n : ℕ} {seen : List ℕ} {rids : Uniq.Growing ℕ} (h : Took seen rids)
    (hn : n ≤ largestArray) (hseen : ∀ v ∈ seen, v < n) (items : List Bytes) :
    (∃ rs rids', List.Forall₂ (ItemReads n) items rs ∧
      items.foldlM (fun s item => ridItem n item s) rids = .ok rids' ∧
      Took (seen ++ rs.flatMap RidItem.values) rids') ∨
    (¬∃ rs, List.Forall₂ (ItemReads n) items rs) ∧
      ∃ mod, items.foldlM (fun s item => ridItem n item s) rids = .error (.code mod .cliFail) := by
  induction items generalizing seen rids with
  | nil => exact .inl ⟨[], rids, .nil, rfl, by simpa using h⟩
  | cons item items ih =>
      rcases ridItem_step h hn hseen item with ⟨r, rids₁, hreads, hstep, h₁⟩ | ⟨hnone, mod, hstep⟩
      · have hseen₁ : ∀ v ∈ seen ++ r.values, v < n := by
          rw [List.forall_mem_append]
          exact ⟨hseen, hreads.2⟩
        rcases ih h₁ hseen₁ with ⟨rs, rids', hrs, hrun, h'⟩ | ⟨hnone, mod, hrun⟩
        · refine .inl ⟨r :: rs, rids', .cons hreads hrs, ?_, ?_⟩
          · rw [List.foldlM_cons, hstep]
            exact hrun
          · rwa [List.flatMap_cons, ← List.append_assoc]
        · refine .inr ⟨?_, mod, ?_⟩
          · rintro ⟨rs, hrs⟩
            obtain ⟨-, rs, -, hrs, -⟩ := List.forall₂_cons_left_iff.mp hrs
            exact hnone ⟨rs, hrs⟩
          · rw [List.foldlM_cons, hstep]
            exact hrun
      · refine .inr ⟨?_, mod, ?_⟩
        · rintro ⟨rs, hrs⟩
          obtain ⟨r, -, hr, -, -⟩ := List.forall₂_cons_left_iff.mp hrs
          exact hnone ⟨r, hr⟩
        · rw [List.foldlM_cons, hstep]
          rfl

/-- An item has a number. -/
theorem ItemMeans.values_ne_nil {item : Bytes} {r : RidItem} (h : ItemMeans item r) :
    r.values ≠ [] := by
  cases h with
  | one => exact List.cons_ne_nil _ _
  | range _ _ hle =>
      rw [RidItem.values, ne_eq, List.range'_eq_nil_iff]
      omega

/-- An item means one thing. -/
theorem ItemMeans.unique {item : Bytes} {r r' : RidItem} (h : ItemMeans item r)
    (h' : ItemMeans item r') : r = r' := by
  cases h with
  | one hds => exact ((itemMeans_of_not_mem hds.dash_not_mem).mp h').2.symm
  | range hlo _ _ => exact ((itemMeans_append hlo.dash_not_mem).mp h').2.2.2.symm

/-- What the items of a list mean, when there are such items. -/
theorem itemsMean_iff {n : ℕ} {items : List Bytes} (hne : items ≠ []) {rs : List RidItem}
    (hrs : List.Forall₂ (MeansBelow n) items rs)
    (rids : List ℕ) :
    ItemsMean n items rids ↔ rids = (rs.flatMap RidItem.values).eraseDups := by
  constructor
  · rintro ⟨-, rs', hrs', rfl⟩
    have hunique : Relator.RightUnique (MeansBelow n) := fun _ _ _ h h' => h.1.unique h'.1
    rw [List.right_unique_forall₂' hunique hrs' hrs]
  · rintro rfl
    exact ⟨hne, rs, hrs, rfl⟩

/-- Items that mean something have a number. -/
theorem values_ne_nil_of_forall₂ {n : ℕ} {items : List Bytes} (hne : items ≠ []) {rs : List RidItem}
    (hrs : List.Forall₂ (MeansBelow n) items rs) :
    (rs.flatMap RidItem.values).eraseDups ≠ [] := by
  obtain ⟨item, items, rfl⟩ := List.exists_cons_of_ne_nil hne
  obtain ⟨r, rs, ⟨hmeans, -⟩, -, rfl⟩ := List.forall₂_cons_left_iff.mp hrs
  refine Uniq.eraseDups_ne_nil ?_
  rw [List.flatMap_cons]
  exact List.append_ne_nil_of_left_ne_nil hmeans.values_ne_nil _

/-- **What the parser returns**: what the items mean that it reads. -/
theorem ridList_eq_ok_iff {workspace : Bytes} {files : RidmapFiles} {ids : List Id20}
    (hmap : tpbcliTaskRidmapRead workspace files = .ok ids) (hne : ids ≠ []) (text : Bytes)
    (rids : List ℕ) :
    tpbcliTaskParseRidList workspace files text = .ok rids ↔
      ItemsMean ids.length (plainItems text) rids := by
  have hlen : ids.length ≤ largestArray := length_le_of_ridmapRead hmap
  rw [tpbcliTaskParseRidList, hmap]
  dsimp only
  rw [if_neg hne, itemLoop_eq]
  rcases ridItems_run (Uniq.Holds.empty : Took [] _) hlen (by simp) (listItems text) with
    ⟨rs, grown, hrs, hrun, hgrown⟩ | ⟨hnone, mod, hrun⟩
  · have helems := hgrown.elems
    rw [List.nil_append] at helems
    rw [hrun]
    dsimp only
    rw [helems]
    by_cases hitems : plainItems text = []
    · rw [plainItems, List.map_eq_nil_iff] at hitems
      rw [hitems] at hrs
      obtain rfl := List.forall₂_nil_left_iff.mp hrs
      constructor
      · rintro ⟨⟩
      · rintro ⟨h, -⟩
        simp [plainItems, hitems] at h
    · have hrs' := forall₂_plainItems.mpr hrs
      rw [if_neg (values_ne_nil_of_forall₂ hitems hrs'), itemsMean_iff hitems hrs', Except.ok.injEq]
      exact eq_comm
  · rw [hrun]
    constructor
    · rintro ⟨⟩
    · rintro ⟨-, rs, hrs, -⟩
      exact absurd ⟨rs, forall₂_plainItems.mp hrs⟩ hnone

/-- Every number that is meant is one of the RIDMAP. -/
theorem ItemsMean.lt {n : ℕ} {items : List Bytes} {rids : List ℕ} (h : ItemsMean n items rids) :
    ∀ rid ∈ rids, rid < n := by
  obtain ⟨-, rs, hrs, rfl⟩ := h
  intro rid hrid
  obtain ⟨r, hr, hv⟩ := List.mem_flatMap.mp (List.mem_eraseDups.mp hrid)
  clear hrid
  induction hrs with
  | nil => cases hr
  | cons hr' _ ih =>
      rcases List.mem_cons.mp hr with rfl | hr
      · exact hr'.2 rid hv
      · exact ih hr

/-! ### The parser and what is meant -/

/-- A list is parsed as it is meant: the parser succeeds when the items of the text are numbers
and ranges of the RIDMAP and returns their numbers, all of which are numbers of the RIDMAP. -/
def RidParsed (n : ℕ) (text : Bytes) (result : Except Err (List ℕ)) : Prop :=
  (∀ rids, result = .ok rids ↔ ItemsMean n (ridItems text) rids) ∧
    ∀ rids, result = .ok rids → ∀ rid ∈ rids, rid < n

/-- Every item that the loop comes to is a number or a range of the RIDMAP, cut behind 63 characters
and without the blanks and signs in front of its numbers. -/
def OtherwiseGood (n : ℕ) (text : Bytes) : Prop :=
  listItems text ≠ [] ∧
    ∀ item ∈ listItems text, ∃ r, MeansBelow n (plainItem ((trimmed item).take 63)) r

/-- The items mean the same when each of them is cut behind 63 characters. -/
def CutKeeps (n : ℕ) (text : Bytes) : Prop :=
  ∀ rids, ItemsMean n (ridItems text) rids ↔ ItemsMean n ((ridItems text).map (·.take 63)) rids

/-- A list is written as it is read. -/
structure AsRead (n : ℕ) (text : Bytes) : Prop where
  /-- No comma stands at the end of a list that is good otherwise. -/
  last : OtherwiseGood n text → (text.splitOn comma).getLast? ≠ some []
  /-- No blank or sign stands in front of a number of a list that is good otherwise. -/
  numbers : OtherwiseGood n text → ∀ item ∈ ridItems text, plainItem (item.take 63) = item.take 63
  /-- The cut keeps the numbers. -/
  cut : CutKeeps n text

/-- Items have readings when each of them has one. -/
theorem exists_forall₂_meansBelow {n : ℕ} {items : List Bytes} :
    (∃ rs, List.Forall₂ (MeansBelow n) items rs) ↔ ∀ item ∈ items, ∃ r, MeansBelow n item r := by
  induction items with
  | nil => exact iff_of_true ⟨[], .nil⟩ (by simp)
  | cons item items ih =>
      rw [List.forall_mem_cons, ← ih]
      constructor
      · rintro ⟨rs, hrs⟩
        obtain ⟨r, rs, hr, hrs, -⟩ := List.forall₂_cons_left_iff.mp hrs
        exact ⟨⟨r, hr⟩, rs, hrs⟩
      · rintro ⟨⟨r, hr⟩, rs, hrs⟩
        exact ⟨r :: rs, .cons hr hrs⟩

/-- Items that mean something are numbers and ranges. -/
theorem ItemsMean.forall_exists {n : ℕ} {items : List Bytes} {rids : List ℕ}
    (h : ItemsMean n items rids) : ∀ item ∈ items, ∃ r, MeansBelow n item r := by
  obtain ⟨-, rs, hrs, -⟩ := h
  exact exists_forall₂_meansBelow.mp ⟨rs, hrs⟩

/-- Of an item that means something nothing is left out. -/
theorem ItemMeans.plainItem_eq {item : Bytes} {r : RidItem} (h : ItemMeans item r) :
    plainItem item = item := by
  cases h with
  | one hds =>
      rw [plainItem, show strchr dash item = none from if_neg hds.dash_not_mem]
      exact plainNumber_of_isNumber hds
  | range hlo hhi _ =>
      rw [plainItem, strchr_append hlo.dash_not_mem]
      dsimp only
      rw [plainNumber_of_isNumber hlo, plainNumber_of_isNumber hhi]

/-- An empty item means nothing. -/
theorem not_meansBelow_nil (n : ℕ) : ¬∃ r, MeansBelow n [] r := by
  rintro ⟨r, hmeans, -⟩
  exact ((itemMeans_of_not_mem List.not_mem_nil).mp hmeans).1.1 rfl

/-- The items in their buffers. -/
theorem plainItems_eq_cut {text : Bytes} (hlast : (text.splitOn comma).getLast? ≠ some [])
    (hnumbers : ∀ item ∈ ridItems text, plainItem (item.take 63) = item.take 63) :
    plainItems text = (ridItems text).map (·.take 63) := by
  rw [plainItems, listItems, if_neg hlast, ridItems, List.map_map]
  exact List.map_congr_left fun item hitem => hnumbers _ (List.mem_map_of_mem hitem)

/-- Items that mean something leave no comma at the end. -/
theorem getLast?_ne_of_means {n : ℕ} {text : Bytes} {f : Bytes → Bytes} (hf : f [] = [])
    (h : ∀ item ∈ (ridItems text).map f, ∃ r, MeansBelow n item r) :
    (text.splitOn comma).getLast? ≠ some [] := by
  intro hlast
  refine not_meansBelow_nil n (h [] (List.mem_map.mpr ⟨[], ?_, hf⟩))
  exact List.mem_map.mpr ⟨[], List.mem_of_getLast? hlast, rfl⟩

/-- Where the items mean something in their buffers, these are read. -/
theorem plainItems_of_cut {n : ℕ} {text : Bytes} {rids : List ℕ}
    (h : ItemsMean n ((ridItems text).map (·.take 63)) rids) :
    plainItems text = (ridItems text).map (·.take 63) := by
  refine plainItems_eq_cut (getLast?_ne_of_means List.take_nil h.forall_exists) fun item hitem => ?_
  obtain ⟨r, hmeans, -⟩ := h.forall_exists _ (List.mem_map_of_mem hitem)
  exact hmeans.plainItem_eq

/-- What is cut of a number leaves digits. -/
theorem IsNumber.take {ds : Bytes} (h : IsNumber ds) {k : ℕ} (hk : k ≠ 0) : IsNumber (ds.take k) :=
  ⟨by simpa [hk] using h.1, fun b hb => h.2 b (List.mem_of_mem_take hb)⟩

/-- In the buffer of an item that means something there is nothing to be left out. -/
theorem ItemMeans.plainItem_take {item : Bytes} {r : RidItem} (h : ItemMeans item r) {k : ℕ}
    (hk : k ≠ 0) : plainItem (item.take k) = item.take k := by
  cases h with
  | one hds => exact (ItemMeans.one (hds.take hk)).plainItem_eq
  | @range lo hi hlo hhi hle =>
      by_cases hdash : k ≤ lo.length
      · rw [List.take_append_of_le_length hdash]
        exact (ItemMeans.one (hlo.take hk)).plainItem_eq
      · obtain ⟨j, hj⟩ : ∃ j, k - lo.length = j + 1 := ⟨k - lo.length - 1, by omega⟩
        rw [List.take_append, List.take_of_length_le (by omega), hj, List.take_succ_cons, plainItem,
          strchr_append hlo.dash_not_mem]
        dsimp only
        rw [plainNumber_of_isNumber hlo]
        cases j with
        | zero => rw [List.take_zero]; rfl
        | succ j => rw [plainNumber_of_isNumber (hhi.take j.succ_ne_zero)]

/-- A list that is good otherwise is read as something. -/
theorem otherwiseGood_iff {n : ℕ} {text : Bytes} :
    OtherwiseGood n text ↔ ∃ rids, ItemsMean n (plainItems text) rids := by
  have hall : (∀ item ∈ listItems text, ∃ r, MeansBelow n (plainItem ((trimmed item).take 63)) r) ↔
      ∀ item ∈ plainItems text, ∃ r, MeansBelow n item r := by
    rw [plainItems, List.forall_mem_map]
  rw [OtherwiseGood, hall, ← exists_forall₂_meansBelow]
  constructor
  · rintro ⟨hne, rs, hrs⟩
    exact ⟨_, by rwa [plainItems, ne_eq, List.map_eq_nil_iff], rs, hrs, rfl⟩
  · rintro ⟨rids, hne, rs, hrs, -⟩
    rw [plainItems, ne_eq, List.map_eq_nil_iff] at hne
    exact ⟨hne, rs, hrs⟩

/-- **A list is parsed as it is meant** if and only if it is written as it is read: with no comma at
its end, no blank or sign in front of a number, and no item whose cut changes the numbers. -/
theorem ridParsed_iff {workspace : Bytes} {files : RidmapFiles} {ids : List Id20}
    (hmap : tpbcliTaskRidmapRead workspace files = .ok ids) (hne : ids ≠ []) (text : Bytes) :
    RidParsed ids.length text (tpbcliTaskParseRidList workspace files text) ↔
      AsRead ids.length text := by
  have hread := ridList_eq_ok_iff hmap hne text
  constructor
  · rintro ⟨hmeans, -⟩
    have hsame : ∀ rids, ItemsMean ids.length (ridItems text) rids ↔
        ItemsMean ids.length (plainItems text) rids := fun rids => by rw [← hmeans, hread]
    have hlast : OtherwiseGood ids.length text → (text.splitOn comma).getLast? ≠ some [] := by
      intro hgood
      obtain ⟨rids, hrids⟩ := otherwiseGood_iff.mp hgood
      refine getLast?_ne_of_means (n := ids.length) (f := id) rfl fun item hitem => ?_
      rw [List.map_id] at hitem
      exact ((hsame rids).mpr hrids).forall_exists item hitem
    have hnumbers : OtherwiseGood ids.length text →
        ∀ item ∈ ridItems text, plainItem (item.take 63) = item.take 63 := by
      intro hgood item hitem
      obtain ⟨rids, hrids⟩ := otherwiseGood_iff.mp hgood
      obtain ⟨r, hr, -⟩ := ((hsame rids).mpr hrids).forall_exists item hitem
      exact hr.plainItem_take (by decide)
    refine ⟨hlast, hnumbers, fun rids => ?_⟩
    constructor
    · intro h
      have hplain := (hsame rids).mp h
      have hgood := otherwiseGood_iff.mpr ⟨rids, hplain⟩
      rwa [plainItems_eq_cut (hlast hgood) (hnumbers hgood)] at hplain
    · intro h
      rwa [hsame, plainItems_of_cut h]
  · intro has
    have hsame : ∀ rids, ItemsMean ids.length (plainItems text) rids ↔
        ItemsMean ids.length (ridItems text) rids := by
      intro rids
      rw [has.cut]
      constructor
      · intro h
        have hgood := otherwiseGood_iff.mpr ⟨rids, h⟩
        rwa [plainItems_eq_cut (has.last hgood) (has.numbers hgood)] at h
      · intro h
        rwa [plainItems_of_cut h]
    refine ⟨fun rids => ?_, fun rids h => ?_⟩
    · rw [hread, hsame]
    · exact ((hread rids).mp h).lt

/-- Items mean the same when each of them has the same numbers. -/
theorem itemsMean_map_iff {n : ℕ} {items : List Bytes} {f : Bytes → Bytes}
    (h : ∀ item ∈ items, ∀ vs, (∃ r, MeansBelow n item r ∧ r.values = vs) ↔
      ∃ r, MeansBelow n (f item) r ∧ r.values = vs) (rids : List ℕ) :
    ItemsMean n items rids ↔ ItemsMean n (items.map f) rids := by
  have hvalues : ∀ vss, (∃ rs, List.Forall₂ (MeansBelow n) items rs ∧
        rs.map RidItem.values = vss) ↔
      ∃ rs, List.Forall₂ (MeansBelow n) (items.map f) rs ∧ rs.map RidItem.values = vss := by
    clear rids
    induction items with
    | nil => simp
    | cons item items ih =>
        rw [List.forall_mem_cons] at h
        have hrest := ih h.2
        intro vss
        cases vss with
        | nil => simp
        | cons vs vss =>
            simp only [List.map_cons, List.forall₂_cons_left_iff]
            constructor
            · rintro ⟨_, ⟨r, rs, hr, hrs, rfl⟩, heq⟩
              obtain ⟨hvs, hvss⟩ := List.cons.inj heq
              obtain ⟨r', hr', hvs'⟩ := (h.1 vs).mp ⟨r, hr, hvs⟩
              obtain ⟨rs', hrs', hvss'⟩ := (hrest vss).mp ⟨rs, hrs, hvss⟩
              exact ⟨_, ⟨r', rs', hr', hrs', rfl⟩, by rw [List.map_cons, hvs', hvss']⟩
            · rintro ⟨_, ⟨r, rs, hr, hrs, rfl⟩, heq⟩
              obtain ⟨hvs, hvss⟩ := List.cons.inj heq
              obtain ⟨r', hr', hvs'⟩ := (h.1 vs).mpr ⟨r, hr, hvs⟩
              obtain ⟨rs', hrs', hvss'⟩ := (hrest vss).mpr ⟨rs, hrs, hvss⟩
              exact ⟨_, ⟨r', rs', hr', hrs', rfl⟩, by rw [List.map_cons, hvs', hvss']⟩
  have hnumbers : ∀ items' : List Bytes, ItemsMean n items' rids ↔ items' ≠ [] ∧
      ∃ vss, (∃ rs, List.Forall₂ (MeansBelow n) items' rs ∧ rs.map RidItem.values = vss) ∧
        rids = vss.flatten.eraseDups := by
    intro items'
    simp only [ItemsMean, List.flatMap_def, exists_exists_and_eq_and]
  rw [hnumbers, hnumbers]
  simp only [hvalues, ne_eq, List.map_eq_nil_iff]

/-- An item that keeps its numbers is read in its buffer. -/
theorem exists_itemMeans_take {item : Bytes} {r : RidItem} (h : ItemMeans item r)
    (hdash : item[62]? ≠ some dash)
    (hkeeps : (∀ v ∈ r.values, v = 0) ∨ item[63]? = some dash ∧ ∃ v, r = .range v v) :
    ∃ r', ItemMeans (item.take 63) r' := by
  cases h with
  | one hds => exact ⟨_, .one (hds.take (by decide))⟩
  | @range lo hi hlo hhi hle =>
      rcases lt_trichotomy lo.length 62 with hshort | hexact | hlonger
      · obtain ⟨j, hj⟩ : ∃ j, 63 - lo.length = j + 1 + 1 := ⟨61 - lo.length, by omega⟩
        have hlength : lo.length ≤ 63 := by omega
        rw [List.take_append, List.take_of_length_le hlength, hj, List.take_succ_cons]
        have hhi' : IsNumber (hi.take (j + 1)) := hhi.take j.succ_ne_zero
        refine ⟨_, .range hlo hhi' ?_⟩
        rcases hkeeps with hzero | ⟨hget, -⟩
        · rw [forall_values_range hle] at hzero
          omega
        · -- the second number has no dash
          rw [List.getElem?_append_right hlength, hj, List.getElem?_cons_succ] at hget
          exact absurd (List.mem_of_getElem? hget) hhi.dash_not_mem
      · refine absurd ?_ hdash
        rw [List.getElem?_append_right hexact.le, hexact]
        rfl
      · rw [List.take_append_of_le_length hlonger]
        exact ⟨_, .one (hlo.take (by decide))⟩

/-- The cut keeps the numbers when no item is longer than its buffer, or only such whose numbers
are zero, and ranges of one number whose dash is the first character that is cut. -/
theorem cutKeeps_of_items {n : ℕ} {text : Bytes}
    (h : ∀ item ∈ ridItems text, 63 < item.length → ∃ r, ItemMeans item r ∧
      item[62]? ≠ some dash ∧
      ((∀ v ∈ r.values, v = 0) ∨ item[63]? = some dash ∧ ∃ v, r = .range v v)) :
    CutKeeps n text := by
  refine itemsMean_map_iff fun item hitem vs => ?_
  by_cases hlong : 63 < item.length
  · obtain ⟨r, hmeans, hdash, hkeeps⟩ := h item hitem hlong
    obtain ⟨r', hmeans'⟩ := exists_itemMeans_take hmeans hdash hkeeps
    have hvalues : r'.values = r.values :=
      (values_take_iff hlong (by rwa [hmeans.plainItem_eq]) (by rwa [hmeans'.plainItem_eq])).mpr
        hkeeps
    constructor
    · rintro ⟨s, ⟨hs, hbelow⟩, rfl⟩
      obtain rfl := hmeans.unique hs
      exact ⟨r', ⟨hmeans', hvalues ▸ hbelow⟩, hvalues⟩
    · rintro ⟨s, ⟨hs, hbelow⟩, rfl⟩
      obtain rfl := hmeans'.unique hs
      exact ⟨r, ⟨hmeans, hvalues ▸ hbelow⟩, hvalues.symm⟩
  · rw [List.take_of_length_le (Nat.not_lt.mp hlong)]

/-- A text without a comma at its end, whose items are short and have numbers without blanks and
signs, is written as it is read. -/
theorem asRead_of_plain {text : Bytes} (hlast : (text.splitOn comma).getLast? ≠ some [])
    (hitems : ∀ item ∈ ridItems text, item.length ≤ 63 ∧ plainItem item = item) (n : ℕ) :
    AsRead n text where
  last _ := hlast
  numbers _ item hitem := by
    rw [List.take_of_length_le (hitems item hitem).1, (hitems item hitem).2]
  cut := cutKeeps_of_items fun item hitem hlong => absurd (hitems item hitem).1 (not_le.mpr hlong)

/-- A RIDMAP of one ID. -/
def oneRidmap : RidmapFiles := ⟨some (ridmapText [toArr 20 []]), none⟩

/-- It is read. -/
theorem ridmapRead_oneRidmap :
    tpbcliTaskRidmapRead [] oneRidmap = .ok [toArr 20 []] := by
  have hpath : tpbcliTaskRidmapPath [] = .ok (tmpDir ++ ridmapName) := rfl
  exact (ridmapRead_ridmapText hpath rfl).mpr (by simp)

/-- The list `0-0, 0` is parsed. -/
theorem ridParsed_range :
    RidParsed 1 [48, 45, 48, comma, 32, 48]
      (tpbcliTaskParseRidList [] oneRidmap [48, 45, 48, comma, 32, 48]) :=
  (ridParsed_iff ridmapRead_oneRidmap (List.cons_ne_nil _ _) _).mpr
    (asRead_of_plain (by decide) (by decide) 1)

/-- A single number that is read as zero. -/
theorem oneRidmap_zero {text item : Bytes} (hitem : plainItems text = [item]) (hds : IsNumber item)
    (hzero : digitsNat item = 0) : tpbcliTaskParseRidList [] oneRidmap text = .ok [0] := by
  rw [ridList_eq_ok_iff ridmapRead_oneRidmap (List.cons_ne_nil _ _), hitem]
  refine ⟨List.cons_ne_nil _ _, [.one (digitsNat item)], .cons ⟨.one hds, ?_⟩ .nil, ?_⟩
  · simp [RidItem.values, hzero]
  · rw [hzero]
    rfl

/-- The list `0,` is read as `0`, and so is a five behind sixty-three zeros. -/
theorem looser_lists_accepted :
    ¬RidParsed 1 [48, comma] (tpbcliTaskParseRidList [] oneRidmap [48, comma]) ∧
      ¬RidParsed 1 (List.replicate 63 48 ++ [53])
        (tpbcliTaskParseRidList [] oneRidmap (List.replicate 63 48 ++ [53])) := by
  constructor
  · rintro ⟨h, -⟩
    have hread : tpbcliTaskParseRidList [] oneRidmap [48, comma] = .ok [0] :=
      oneRidmap_zero (rfl : plainItems _ = [[48]]) (by decide) rfl
    obtain ⟨-, rs, hrs, -⟩ := (h _).mp hread
    have hitems : ridItems [48, comma] = [[48], []] := rfl
    rw [hitems] at hrs
    obtain ⟨_, rs', -, hrs', -⟩ := List.forall₂_cons_left_iff.mp hrs
    obtain ⟨r, _, ⟨hmeans, -⟩, -, -⟩ := List.forall₂_cons_left_iff.mp hrs'
    exact ((itemMeans_of_not_mem List.not_mem_nil).mp hmeans).1.1 rfl
  · rintro ⟨h, -⟩
    have hread : tpbcliTaskParseRidList [] oneRidmap (List.replicate 63 48 ++ [53]) = .ok [0] :=
      oneRidmap_zero (rfl : plainItems _ = [List.replicate 63 48]) (by decide) rfl
    obtain ⟨-, rs, hrs, -⟩ := (h _).mp hread
    have hitems : ridItems (List.replicate 63 48 ++ [53]) = [List.replicate 63 48 ++ [53]] := rfl
    rw [hitems] at hrs
    obtain ⟨r, -, ⟨hmeans, hlt⟩, -, -⟩ := List.forall₂_cons_left_iff.mp hrs
    obtain ⟨-, rfl⟩ := (itemMeans_of_not_mem (by decide)).mp hmeans
    exact absurd (hlt 5 (List.mem_singleton.mpr rfl)) (by omega)

end TPBench
