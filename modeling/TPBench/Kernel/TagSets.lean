import Mathlib.Data.Finset.Card
import TPBench.Kernel.Tags

/-!
# Role Tags as Sets of Tokens

The tags of an argument or output stand for a set of tokens (`tagTokens`), and
`_sf_normalize_tags` writes a set in one way only: the tokens in increasing order, with one comma
between two of them. So two texts with the same tokens get the same normal form, and a normal
form is its own normal form.

`_sf_finalize_role_tags` copies what it is given into buffers of a fixed size. The limits for the
text of the caller and for the roles see to it that nothing is cut, and that the normal form fits
the destination (`finalize_role_tags`).
-/

open CFile

namespace TPBench

/-! ### Tokens -/

/-- A token as it is kept: trimmed, and in upper case. -/
def keptToken (seg : Bytes) : Bytes := (trimBlanks seg).map toupper

/-- The tokens of some segments: the kept ones that are not empty. -/
def keptTokens (segs : List Bytes) : List Bytes := (segs.map keptToken).filter (· ≠ [])

/-- The trimmed, upper case, nonempty tokens between the commas of a text. -/
def tagTokens (raw : Bytes) : List Bytes := keptTokens (segments comma raw)

/-- The distinct tokens of the caller and of the driver. -/
def roleTokens (userTag sysTag : Bytes) : Finset Bytes :=
  (tagTokens userTag ++ tagTokens sysTag).toFinset

/-- Neither the first nor the last byte is a blank. -/
structure Trimmed (t : Bytes) : Prop where
  head : ∀ b ∈ t.head?, isBlank b = false
  last : ∀ b ∈ t.getLast?, isBlank b = false

section Trim

variable {s t : Bytes} {b : UInt8}

theorem trimBlanks_of_trimmed (h : Trimmed t) : trimBlanks t = t := by
  have hfront : t.dropWhile isBlank = t := by
    cases t with
    | nil => rfl
    | cons a t => rw [List.dropWhile_cons_of_neg (by simp [h.head a rfl])]
  rw [trimBlanks, hfront, List.rdropWhile_eq_self_iff]
  intro hne
  simp [h.last _ (List.getLast?_eq_some_getLast hne)]

/-- The first byte behind the blanks is none. -/
theorem isBlank_of_head_dropWhile (h : (s.dropWhile isBlank).head? = some b) :
    isBlank b = false := by
  have hnot := List.head?_dropWhile_not isBlank s
  rwa [h] at hnot

theorem trimmed_trimBlanks (s : Bytes) : Trimmed (trimBlanks s) := by
  constructor
  · intro b hb
    obtain ⟨rest, hrest⟩ := List.rdropWhile_prefix isBlank (s.dropWhile isBlank)
    refine isBlank_of_head_dropWhile (s := s) ?_
    rw [← hrest, List.head?_append, ← trimBlanks, Option.mem_def.mp hb]
    rfl
  · intro b hb
    rw [trimBlanks, List.rdropWhile, List.getLast?_reverse] at hb
    exact isBlank_of_head_dropWhile hb

/-- Only bytes of the token are kept. -/
theorem mem_of_mem_trimBlanks (h : b ∈ trimBlanks s) : b ∈ s :=
  (List.dropWhile_sublist _).subset ((List.rdropWhile_prefix _ _).subset h)

theorem length_trimBlanks_le (s : Bytes) : (trimBlanks s).length ≤ s.length :=
  (List.rdropWhile_prefix _ _).length_le.trans (List.dropWhile_sublist _).length_le

/-- No byte is lost but blanks. -/
theorem mem_trimBlanks (hb : isBlank b = false) (h : b ∈ s) : b ∈ trimBlanks s := by
  have hdrop : ∀ l : Bytes, b ∈ l → b ∈ l.dropWhile isBlank := by
    intro l hl
    rw [← List.takeWhile_append_dropWhile (p := isBlank) (l := l), List.mem_append] at hl
    rcases hl with hl | hl
    · rw [List.mem_takeWhile_imp hl] at hb
      cases hb
    · exact hl
  rw [trimBlanks, List.rdropWhile, List.mem_reverse]
  exact hdrop _ (List.mem_reverse.mpr (hdrop s h))

/-! ### Upper case -/

theorem toNat_toupper (b : UInt8) :
    (toupper b).toNat = if 97 ≤ b.toNat ∧ b.toNat ≤ 122 then b.toNat - 32 else b.toNat := by
  have hcase : (97 ≤ b ∧ b ≤ 122) ↔ 97 ≤ b.toNat ∧ b.toNat ≤ 122 := by
    rw [UInt8.le_iff_toNat_le, UInt8.le_iff_toNat_le]
    rfl
  rw [toupper]
  simp only [hcase]
  split_ifs with h
  · have hle : (32 : UInt8) ≤ b := by
      rw [UInt8.le_iff_toNat_le]
      exact le_trans (by decide) h.1
    exact UInt8.toNat_sub_of_le _ _ hle
  · rfl

theorem toupper_toupper (b : UInt8) : toupper (toupper b) = toupper b := by
  apply UInt8.toNat.inj
  rw [toNat_toupper, toNat_toupper]
  split_ifs <;> omega

/-- No separator and no blank comes from a letter. -/
theorem toupper_eq_iff {c : UInt8} (hc : c.toNat < 65) : toupper b = c ↔ b = c := by
  have hupper := toNat_toupper b
  rw [← UInt8.toNat_inj, ← UInt8.toNat_inj]
  split_ifs at hupper <;> omega

theorem isBlank_toupper (b : UInt8) : isBlank (toupper b) = isBlank b := by
  have hspace : toupper b = 32 ↔ b = 32 := toupper_eq_iff (by decide)
  have htab : toupper b = 9 ↔ b = 9 := toupper_eq_iff (by decide)
  simp only [isBlank, hspace, htab]

/-- A separator in upper case text was there before. -/
theorem mem_map_toupper {c : UInt8} (hc : c.toNat < 65) : c ∈ t.map toupper ↔ c ∈ t := by
  have hcase (b : UInt8) : toupper b = c ↔ b = c := toupper_eq_iff hc
  simp [hcase]

theorem Trimmed.map_toupper (h : Trimmed t) : Trimmed (t.map toupper) := by
  constructor
  · intro b hb
    rw [List.head?_map, Option.mem_def, Option.map_eq_some_iff] at hb
    obtain ⟨a, ha, rfl⟩ := hb
    rw [isBlank_toupper]
    exact h.head a ha
  · intro b hb
    rw [List.getLast?_map, Option.mem_def, Option.map_eq_some_iff] at hb
    obtain ⟨a, ha, rfl⟩ := hb
    rw [isBlank_toupper]
    exact h.last a ha

/-- A kept token is kept as it is. -/
theorem keptToken_keptToken (s : Bytes) : keptToken (keptToken s) = keptToken s := by
  have htrim := (trimmed_trimBlanks s).map_toupper
  have hupper : toupper ∘ toupper = toupper := funext toupper_toupper
  rw [keptToken, keptToken, trimBlanks_of_trimmed htrim, List.map_map, hupper]

theorem length_keptToken_le (s : Bytes) : (keptToken s).length ≤ s.length := by
  rw [keptToken, List.length_map]
  exact length_trimBlanks_le s

theorem comma_not_mem_keptToken (h : comma ∉ s) : comma ∉ keptToken s := by
  rw [keptToken, mem_map_toupper (by decide)]
  exact fun hmem => h (mem_of_mem_trimBlanks hmem)

theorem keptToken_eq_nil : keptToken s = [] ↔ trimBlanks s = [] := by
  rw [keptToken, List.map_eq_nil_iff]

/-- The check for a colon looks at the trimmed token. -/
theorem colon_mem_trimBlanks : colon ∈ trimBlanks s ↔ colon ∈ s :=
  ⟨mem_of_mem_trimBlanks, mem_trimBlanks rfl⟩

end Trim

/-! ### The loop over the tokens -/

/-- A token is kept once, at the place where it is first met. -/
def addToken (toks : List Bytes) (t : Bytes) : List Bytes := if t ∈ toks then toks else toks ++ [t]

section Loop

variable {toks ts segs : List Bytes} {t : Bytes}

theorem mem_foldl_addToken : t ∈ ts.foldl addToken toks ↔ t ∈ toks ∨ t ∈ ts := by
  induction ts generalizing toks with
  | nil => simp
  | cons x ts ih =>
      rw [List.foldl_cons, ih, addToken, List.mem_cons]
      split_ifs with hx
      · constructor
        · rintro (h | h)
          · exact Or.inl h
          · exact Or.inr (Or.inr h)
        · rintro (h | rfl | h)
          · exact Or.inl h
          · exact Or.inl hx
          · exact Or.inr h
      · rw [List.mem_append, List.mem_singleton, or_assoc]

theorem nodup_foldl_addToken (h : toks.Nodup) : (ts.foldl addToken toks).Nodup := by
  induction ts generalizing toks with
  | nil => exact h
  | cons x ts ih =>
      rw [List.foldl_cons]
      refine ih ?_
      rw [addToken]
      split_ifs with hx
      · exact h
      · exact List.nodup_append.mpr ⟨h, List.nodup_singleton x, by
          rintro a ha b hb rfl
          exact hx (List.mem_singleton.mp hb ▸ ha)⟩

theorem length_le_foldl_addToken (toks ts : List Bytes) :
    toks.length ≤ (ts.foldl addToken toks).length := by
  induction ts generalizing toks with
  | nil => exact le_rfl
  | cons x ts ih =>
      rw [List.foldl_cons]
      refine le_trans ?_ (ih _)
      rw [addToken]
      split_ifs
      · exact le_rfl
      · rw [List.length_append]
        exact Nat.le_add_right _ _

/-- The tokens that are kept are not longer than those that were met. -/
theorem sum_foldl_addToken_le (toks ts : List Bytes) :
    ((ts.foldl addToken toks).map fun t => t.length + 1).sum ≤
      (toks.map fun t => t.length + 1).sum + (ts.map fun t => t.length + 1).sum := by
  induction ts generalizing toks with
  | nil => simp
  | cons x ts ih =>
      have hstep : ((addToken toks x).map fun t => t.length + 1).sum ≤
          (toks.map fun t => t.length + 1).sum + (x.length + 1) := by
        rw [addToken]
        split_ifs
        · exact Nat.le_add_right _ _
        · simp
      rw [List.foldl_cons, List.map_cons, List.sum_cons]
      have hrest := ih (addToken toks x)
      omega

theorem keptTokens_cons (s : Bytes) (segs : List Bytes) :
    keptTokens (s :: segs) =
      if trimBlanks s = [] then keptTokens segs else keptToken s :: keptTokens segs := by
  rw [keptTokens, List.map_cons]
  split_ifs with h
  · rw [List.filter_cons_of_neg (by simpa using keptToken_eq_nil.mpr h)]
    rfl
  · rw [List.filter_cons_of_pos (by simpa using mt keptToken_eq_nil.mp h)]
    rfl

/-- One round of the loop. -/
theorem acceptToken_eq (h : toks.length ≤ tagMaxTokens) (s : Bytes) :
    acceptToken toks s =
      if trimBlanks s = [] then some toks
      else if colon ∈ s ∨ tagMaxTokens < (addToken toks (keptToken s)).length then none
      else some (addToken toks (keptToken s)) := by
  have hkept : (trimBlanks s).map toupper = keptToken s := rfl
  simp only [acceptToken, colon_mem_trimBlanks, hkept, addToken]
  by_cases hempty : trimBlanks s = []
  · rw [if_pos hempty, if_pos hempty]
  · rw [if_neg hempty, if_neg hempty]
    by_cases hcolon : colon ∈ s
    · simp only [hcolon, true_or, if_true]
    · rw [if_neg hcolon]
      by_cases hmem : keptToken s ∈ toks
      · simp only [if_pos hmem, hcolon, false_or, if_neg (Nat.not_lt.mpr h)]
      · have hfull : tagMaxTokens < (toks ++ [keptToken s]).length ↔
            tagMaxTokens ≤ toks.length := by
          rw [List.length_append, List.length_singleton, Nat.lt_succ_iff]
        simp only [if_neg hmem, hcolon, false_or, hfull]

/-- **The loop** keeps every token once, unless one holds a colon or there are too many. -/
theorem acceptTokens_eq (h : toks.length ≤ tagMaxTokens) :
    acceptTokens toks segs =
      if (∀ s ∈ segs, colon ∉ s) ∧
          ((keptTokens segs).foldl addToken toks).length ≤ tagMaxTokens then
        some ((keptTokens segs).foldl addToken toks)
      else none := by
  induction segs generalizing toks with
  | nil => simp [acceptTokens, keptTokens, h]
  | cons s segs ih =>
      simp only [acceptTokens, acceptToken_eq h, List.forall_mem_cons, keptTokens_cons]
      by_cases hempty : trimBlanks s = []
      · have hcolon : colon ∉ s := by
          rw [← colon_mem_trimBlanks, hempty]
          exact List.not_mem_nil
        simp only [if_pos hempty, ih h, hcolon, not_false_iff, true_and]
      · by_cases hcolon : colon ∈ s
        · simp only [if_neg hempty, hcolon, true_or, if_true, not_true_eq_false, false_and,
            if_false]
        · simp only [if_neg hempty, hcolon, false_or, not_false_iff, true_and, List.foldl_cons]
          by_cases hfull : tagMaxTokens < (addToken toks (keptToken s)).length
          · have hmono := length_le_foldl_addToken (addToken toks (keptToken s))
              (keptTokens segs)
            have hlim : ¬ ((∀ s ∈ segs, colon ∉ s) ∧
                ((keptTokens segs).foldl addToken (addToken toks (keptToken s))).length ≤
                  tagMaxTokens) := fun hlim => absurd hlim.2 (by omega)
            simp only [if_pos hfull, if_neg hlim]
          · simp only [if_neg hfull, ih (Nat.le_of_not_lt hfull)]

end Loop

/-! ### Writing the tokens -/

section Write

variable {dstSz : ℕ} {out t : Bytes} {ts : List Bytes}

/-- The tokens behind the first one are written if everything fits. -/
theorem joinTokens_eq (h : out.length < dstSz) : joinTokens dstSz out ts =
    if (out ++ ts.flatMap (comma :: ·)).length < dstSz then
        some (out ++ ts.flatMap (comma :: ·))
      else none := by
  induction ts generalizing out with
  | nil => simp [joinTokens, h]
  | cons t ts ih =>
      have hall : out ++ (t :: ts).flatMap (comma :: ·) =
          out ++ comma :: t ++ ts.flatMap (comma :: ·) := by
        rw [List.flatMap_cons, ← List.append_assoc]
      have hlen : (out ++ comma :: t).length = out.length + 1 + t.length := by
        rw [List.length_append, List.length_cons]
        omega
      rw [joinTokens, hall]
      by_cases hfit : out.length + 1 + t.length < dstSz
      · rw [if_neg (by omega), if_neg (by omega), ih (by omega)]
      · have htoo : ¬ (out ++ comma :: t ++ ts.flatMap (comma :: ·)).length < dstSz := by
          rw [List.length_append, hlen]
          omega
        rw [if_neg htoo, if_pos (Nat.le_of_not_lt hfit), ite_self]

/-- Tokens joined by commas. -/
theorem joinSep_comma_cons (t : Bytes) (ts : List Bytes) :
    joinSep comma (t :: ts) = t ++ ts.flatMap (comma :: ·) := by
  induction ts generalizing t with
  | nil => simp
  | cons u ts ih =>
      rw [joinSep_cons (List.cons_ne_nil _ _), ih, List.flatMap_cons]
      rfl

/-- **The tokens are written** joined by commas, if that fits the destination. -/
theorem writeTokens_eq (hpos : 0 < dstSz) (ts : List Bytes) :
    writeTokens dstSz ts =
      if (joinSep comma ts).length < dstSz then some (joinSep comma ts) else none := by
  cases ts with
  | nil => simp [writeTokens, hpos]
  | cons t ts =>
      rw [writeTokens, joinSep_comma_cons]
      by_cases hfit : t.length < dstSz
      · rw [if_neg (by omega), joinTokens_eq hfit]
      · rw [if_pos (by omega), if_neg (by rw [List.length_append]; omega)]

end Write

/-! ### The normal form of a set of tokens -/

section Sorted

instance totalBytes : Std.Total (α := List UInt8) (· ≤ ·) := ⟨List.le_total⟩

instance isTransBytes : IsTrans (List UInt8) (· ≤ ·) := ⟨fun _ _ _ => Std.le_trans⟩

/-- The distinct tokens of a text in increasing order. -/
def sortedTokens (raw : Bytes) : List Bytes :=
  ((tagTokens raw).foldl addToken []).insertionSort (· ≤ ·)

variable {raw : Bytes} {ts us : List Bytes}

theorem mem_sortedTokens {t : Bytes} : t ∈ sortedTokens raw ↔ t ∈ tagTokens raw := by
  rw [sortedTokens, (List.perm_insertionSort _ _).mem_iff, mem_foldl_addToken]
  simp

theorem nodup_sortedTokens (raw : Bytes) : (sortedTokens raw).Nodup :=
  (List.perm_insertionSort _ _).nodup_iff.mpr (nodup_foldl_addToken List.nodup_nil)

theorem pairwise_le_sortedTokens (raw : Bytes) : (sortedTokens raw).Pairwise (· ≤ ·) :=
  List.pairwise_insertionSort _ _

/-- The order is strict, since no token stands twice. -/
theorem pairwise_lt_sortedTokens (raw : Bytes) : (sortedTokens raw).Pairwise (· < ·) := by
  refine (pairwise_le_sortedTokens raw).imp₂ ?_ (nodup_sortedTokens raw)
  intro t u hle hne
  exact Std.lt_of_le_of_ne hle hne

/-- Two increasing lists of the same tokens are one list. -/
theorem eq_of_pairwise_le (hts : ts.Nodup) (hus : us.Nodup) (hsts : ts.Pairwise (· ≤ ·))
    (hsus : us.Pairwise (· ≤ ·)) (h : ∀ t, t ∈ ts ↔ t ∈ us) : ts = us :=
  List.Perm.eq_of_pairwise (fun _ _ _ _ => Std.le_antisymm) hsts hsus
    ((List.perm_ext_iff_of_nodup hts hus).mpr h)

/-- The number of tokens that are kept. -/
theorem length_foldl_addToken (ts : List Bytes) :
    (ts.foldl addToken []).length = ts.toFinset.card := by
  rw [← List.toFinset_card_of_nodup (nodup_foldl_addToken List.nodup_nil)]
  congr 1
  ext t
  rw [List.mem_toFinset, List.mem_toFinset, mem_foldl_addToken]
  simp

/-- A token is a segment that can be joined. -/
theorem segs_sortedTokens (raw : Bytes) : Segs comma (sortedTokens raw) := by
  intro t ht
  obtain ⟨hmem, hne⟩ := List.mem_filter.mp (mem_sortedTokens.mp ht)
  obtain ⟨seg, hseg, rfl⟩ := List.mem_map.mp hmem
  exact ⟨by simpa using hne, comma_not_mem_keptToken (segs_segments raw seg hseg).2⟩

theorem sum_length_keptTokens_le (segs : List Bytes) :
    ((keptTokens segs).map fun t => t.length + 1).sum ≤
      (segs.map fun s => s.length + 1).sum := by
  induction segs with
  | nil => exact le_rfl
  | cons s segs ih =>
      have hlen := length_keptToken_le s
      rw [keptTokens_cons, List.map_cons, List.sum_cons]
      split_ifs
      · omega
      · rw [List.map_cons, List.sum_cons]
        omega

/-- **The normal form is not longer** than the text. -/
theorem length_joinSep_sortedTokens_le (raw : Bytes) :
    (joinSep comma (sortedTokens raw)).length ≤ raw.length := by
  by_cases hnil : sortedTokens raw = []
  · rw [hnil]
    exact Nat.zero_le _
  · refine Nat.le_of_succ_le_succ ?_
    calc (joinSep comma (sortedTokens raw)).length + 1
        = ((sortedTokens raw).map fun t => t.length + 1).sum := length_joinSep comma hnil
      _ = (((tagTokens raw).foldl addToken []).map fun t => t.length + 1).sum :=
          ((List.perm_insertionSort _ _).map _).sum_eq
      _ ≤ ((tagTokens raw).map fun t => t.length + 1).sum := by
          simpa using sum_foldl_addToken_le [] (tagTokens raw)
      _ ≤ ((segments comma raw).map fun s => s.length + 1).sum := sum_length_keptTokens_le _
      _ ≤ raw.length + 1 := sum_length_segments_le raw

/-- A colon in the text is one in a segment. -/
theorem colon_not_mem_segments_iff : (∀ s ∈ segments comma raw, colon ∉ s) ↔ colon ∉ raw := by
  constructor
  · intro h hmem
    have hjoin : colon ∈ joinSep comma (raw.splitOn comma) := by
      rwa [joinSep, List.intercalate_splitOn]
    rcases mem_joinSep hjoin with hc | ⟨e, he, hce⟩
    · cases hc
    · exact h e (List.mem_filter.mpr ⟨he, by simpa using List.ne_nil_of_mem hce⟩) hce
  · exact fun h s hs hmem => h (mem_of_mem_segments hs hmem)

/-- **`_sf_normalize_tags`** on a text that fits its field. -/
theorem sfNormalizeTags_eq (hlen : raw.length < nameStrMaxLen) :
    sfNormalizeTags nameStrMaxLen raw =
      if colon ∉ raw ∧ (tagTokens raw).toFinset.card ≤ tagMaxTokens then
        some (joinSep comma (sortedTokens raw))
      else none := by
  have hfit := (length_joinSep_sortedTokens_le raw).trans_lt hlen
  have haccept : acceptTokens [] (segments comma raw) =
      if colon ∉ raw ∧ (tagTokens raw).toFinset.card ≤ tagMaxTokens then
        some ((tagTokens raw).foldl addToken [])
      else none := by
    rw [acceptTokens_eq (Nat.zero_le _)]
    simp only [colon_not_mem_segments_iff, ← length_foldl_addToken, tagTokens]
  rw [sfNormalizeTags, printedIn_of_lt hlen, haccept]
  split_ifs with h
  · change writeTokens nameStrMaxLen (sortedTokens raw) = _
    rw [writeTokens_eq (by decide), if_pos hfit]
  · rfl

/-- The tokens of a normal form are those it was made of. -/
theorem tagTokens_joinSep (raw : Bytes) :
    tagTokens (joinSep comma (sortedTokens raw)) = sortedTokens raw := by
  have hkept : ∀ t ∈ sortedTokens raw, keptToken t = t := by
    intro t ht
    obtain ⟨seg, -, rfl⟩ := List.mem_map.mp (List.mem_filter.mp (mem_sortedTokens.mp ht)).1
    exact keptToken_keptToken seg
  have hne : ∀ t ∈ sortedTokens raw, t ≠ [] := fun t ht => (segs_sortedTokens raw t ht).1
  rw [tagTokens, segments_joinSep (segs_sortedTokens raw), keptTokens, List.map_congr_left hkept,
    List.map_id', List.filter_eq_self]
  simpa using hne

/-- **A normal form is its own normal form.** -/
theorem sortedTokens_joinSep (raw : Bytes) :
    sortedTokens (joinSep comma (sortedTokens raw)) = sortedTokens raw := by
  refine eq_of_pairwise_le (nodup_sortedTokens _) (nodup_sortedTokens _)
    (pairwise_le_sortedTokens _) (pairwise_le_sortedTokens _) fun t => ?_
  rw [mem_sortedTokens, tagTokens_joinSep]

/-- A normal form is normalized to itself. -/
theorem sfNormalizeTags_joinSep (hlen : raw.length < nameStrMaxLen) (hcolon : colon ∉ raw)
    (hcard : (tagTokens raw).toFinset.card ≤ tagMaxTokens) :
    sfNormalizeTags nameStrMaxLen (joinSep comma (sortedTokens raw)) =
      some (joinSep comma (sortedTokens raw)) := by
  have hcolon' : colon ∉ joinSep comma (sortedTokens raw) := by
    intro hmem
    rcases mem_joinSep hmem with hc | ⟨t, ht, hct⟩
    · cases hc
    · obtain ⟨seg, hseg, rfl⟩ :=
        List.mem_map.mp (List.mem_filter.mp (mem_sortedTokens.mp ht)).1
      rw [keptToken, mem_map_toupper (by decide)] at hct
      exact hcolon (mem_of_mem_segments hseg (mem_of_mem_trimBlanks hct))
  have hcard' : (tagTokens (joinSep comma (sortedTokens raw))).toFinset.card ≤ tagMaxTokens := by
    have hset : (sortedTokens raw).toFinset = (tagTokens raw).toFinset := by
      ext t
      rw [List.mem_toFinset, List.mem_toFinset, mem_sortedTokens]
    rwa [tagTokens_joinSep, hset]
  rw [sfNormalizeTags_eq ((length_joinSep_sortedTokens_le raw).trans_lt hlen),
    if_pos ⟨hcolon', hcard'⟩, sortedTokens_joinSep]

end Sorted

/-! ### Caller and driver -/

section Roles

theorem tagTokens_append (user sys : Bytes) :
    tagTokens (user ++ comma :: sys) = tagTokens user ++ tagTokens sys := by
  rw [tagTokens, segments_append_sep, keptTokens, List.map_append, List.filter_append]
  rfl

/-- The text that is normalized: the roles, behind the tags of the caller if there are any. -/
def combinedTags (user sys : Bytes) : Bytes := if user = [] then sys else user ++ comma :: sys

variable {user sys : Bytes}

theorem tagTokens_combinedTags (user sys : Bytes) :
    tagTokens (combinedTags user sys) = tagTokens user ++ tagTokens sys := by
  rw [combinedTags]
  split_ifs with h
  · rw [h]
    rfl
  · exact tagTokens_append user sys

theorem colon_not_mem_combinedTags :
    colon ∉ combinedTags user sys ↔ colon ∉ user ∧ colon ∉ sys := by
  have hcomma : colon ≠ comma := by decide
  rw [combinedTags]
  split_ifs with h
  · simp [h]
  · simp [hcomma]

/-- The check of the caller's tags. -/
theorem sfValidateUserTags_iff :
    sfValidateUserTags user = true ↔ user.length ≤ tagUserMaxLen ∧ colon ∉ user := by
  rw [sfValidateUserTags, decide_eq_true_eq]
  constructor
  · rintro (rfl | h)
    · exact ⟨Nat.zero_le _, List.not_mem_nil⟩
    · exact h
  · exact Or.inr

/-- What the caller and the roles have to be. -/
structure TagsFit (user sys : Bytes) : Prop where
  length : user.length ≤ tagUserMaxLen
  colon_user : colon ∉ user
  colon_sys : colon ∉ sys
  card : (roleTokens user sys).card ≤ tagMaxTokens

/-- The limits see to it that nothing is cut. -/
theorem length_combinedTags_lt (hlen : sys.length ≤ 63) (huser : user.length ≤ tagUserMaxLen) :
    (combinedTags user sys).length < nameStrMaxLen := by
  have hmax : nameStrMaxLen = 256 := rfl
  rw [tagUserMaxLen] at huser
  rw [combinedTags]
  split_ifs
  · omega
  · rw [List.length_append, List.length_cons]
    omega

/-- **`_sf_finalize_role_tags`** writes the normal form of the tokens, or fails. -/
theorem sfFinalizeRoleTags_eq (user : Bytes) (hne : sys ≠ []) (hlen : sys.length ≤ 63) :
    (TagsFit user sys → sfFinalizeRoleTags nameStrMaxLen user sys =
      some (joinSep comma (sortedTokens (combinedTags user sys)))) ∧
    (¬ TagsFit user sys → sfFinalizeRoleTags nameStrMaxLen user sys = none) := by
  have hcard : (tagTokens (combinedTags user sys)).toFinset.card =
      (roleTokens user sys).card := by
    rw [tagTokens_combinedTags, roleTokens]
  by_cases hvalid : sfValidateUserTags user = true
  · obtain ⟨huser, hcolon⟩ := sfValidateUserTags_iff.mp hvalid
    have hcombined := length_combinedTags_lt hlen huser
    have hrun : sfFinalizeRoleTags nameStrMaxLen user sys =
        sfNormalizeTags nameStrMaxLen (combinedTags user sys) := by
      rw [sfFinalizeRoleTags, if_neg hne, if_neg (by simp [hvalid]), ← combinedTags,
        printedIn_of_lt (hcombined.trans (by decide))]
    rw [hrun, sfNormalizeTags_eq hcombined, hcard]
    constructor
    · intro h
      exact if_pos ⟨colon_not_mem_combinedTags.mpr ⟨h.colon_user, h.colon_sys⟩, h.card⟩
    · intro h
      refine if_neg ?_
      rintro ⟨hboth, hfew⟩
      exact h ⟨huser, hcolon, (colon_not_mem_combinedTags.mp hboth).2, hfew⟩
  · have hrun : sfFinalizeRoleTags nameStrMaxLen user sys = none := by
      rw [sfFinalizeRoleTags, if_neg hne, if_pos (by simpa using hvalid)]
    constructor
    · intro h
      exact absurd (sfValidateUserTags_iff.mpr ⟨h.length, h.colon_user⟩) hvalid
    · exact fun _ => hrun

/-- **The normal form of the role tags**: when it exists, what it is, that the roles are in it,
that it depends on the set of tokens only, and that it is its own normal form. -/
theorem finalize_role_tags (hne : sys ≠ []) (hlen : sys.length ≤ 63) :
    ((∃ out, sfFinalizeRoleTags nameStrMaxLen user sys = some out) ↔ TagsFit user sys) ∧
    ∀ out, sfFinalizeRoleTags nameStrMaxLen user sys = some out →
      (∃ toks : List Bytes, toks.Pairwise (· < ·) ∧
        (∀ t, t ∈ toks ↔ t ∈ roleTokens user sys) ∧ out = joinSep comma toks) ∧
      (∀ t ∈ tagTokens sys, t ∈ segments comma out) ∧
      (∀ user' sys' out', sys' ≠ [] → sys'.length ≤ 63 →
        roleTokens user' sys' = roleTokens user sys →
        sfFinalizeRoleTags nameStrMaxLen user' sys' = some out' → out' = out) ∧
      sfNormalizeTags nameStrMaxLen out = some out := by
  have hout {u s o : Bytes} (hs : s ≠ []) (hl : s.length ≤ 63)
      (h : sfFinalizeRoleTags nameStrMaxLen u s = some o) :
      TagsFit u s ∧ o = joinSep comma (sortedTokens (combinedTags u s)) := by
    obtain ⟨hfit, hnot⟩ := sfFinalizeRoleTags_eq u hs hl
    by_cases hf : TagsFit u s
    · rw [hfit hf] at h
      exact ⟨hf, (Option.some.inj h).symm⟩
    · rw [hnot hf] at h
      cases h
  have hmem (u s : Bytes) (t : Bytes) :
      t ∈ sortedTokens (combinedTags u s) ↔ t ∈ roleTokens u s := by
    rw [mem_sortedTokens, tagTokens_combinedTags, roleTokens, List.mem_toFinset]
  have hsome : (∃ out, sfFinalizeRoleTags nameStrMaxLen user sys = some out) ↔
      TagsFit user sys := by
    constructor
    · rintro ⟨out, h⟩
      exact (hout hne hlen h).1
    · intro h
      exact ⟨_, (sfFinalizeRoleTags_eq user hne hlen).1 h⟩
  refine ⟨hsome, ?_⟩
  intro out h
  obtain ⟨hfit, rfl⟩ := hout hne hlen h
  refine ⟨⟨_, pairwise_lt_sortedTokens _, hmem user sys, rfl⟩, ?_, ?_, ?_⟩
  · intro t ht
    rw [segments_joinSep (segs_sortedTokens _), hmem, roleTokens, List.mem_toFinset]
    exact List.mem_append_right _ ht
  · intro user' sys' out' hne' hlen' heq h'
    obtain ⟨-, rfl⟩ := hout hne' hlen' h'
    congr 1
    refine eq_of_pairwise_le (nodup_sortedTokens _) (nodup_sortedTokens _)
      (pairwise_le_sortedTokens _) (pairwise_le_sortedTokens _) fun t => ?_
    rw [hmem, hmem, heq]
  · exact sfNormalizeTags_joinSep (length_combinedTags_lt hlen hfit.length)
      (colon_not_mem_combinedTags.mpr ⟨hfit.colon_user, hfit.colon_sys⟩) (by
        rw [tagTokens_combinedTags]
        exact hfit.card)

/-- Tags with blanks, an empty token and a repeated one. -/
theorem finalize_role_tags_output :
    sfFinalizeRoleTags nameStrMaxLen (ascii " t,,B ,T".toList) tpbTagOutput =
        some (ascii "B,T,".toList ++ tpbTagOutput) ∧
      sfNormalizeTags nameStrMaxLen (ascii "B,T,".toList ++ tpbTagOutput) =
        some (ascii "B,T,".toList ++ tpbTagOutput) := by
  have hrun : sfFinalizeRoleTags nameStrMaxLen (ascii " t,,B ,T".toList) tpbTagOutput =
      some (ascii "B,T,".toList ++ tpbTagOutput) := by
    decide +kernel
  obtain ⟨-, hsame⟩ := (finalize_role_tags (List.cons_ne_nil _ _) (by decide)).2 _ hrun
  exact ⟨hrun, hsame.2.2⟩

end Roles

end TPBench
