import TPBench.Rtenv.Template

/-!
# Fields between Colons

What the splitter of templates makes of a text in which fields stand one behind the other. A
field that has no colon and no quote is read as it was written, in quotes when there is a blank
in it (`splitColonQuoted_valueFields`). The text of a value is such a list of fields, and a
value is read back when nothing of this text is lost, when it has no empty fields and when there
is room for all of them (`join_split_eq_iff`).
-/

open CFile

namespace TPBench

/-! ### Splitting -/

/-- A field without quotes and colons, which is not empty. -/
structure Field (p : Bytes) : Prop where
  ne_nil : p ≠ []
  sep : fieldSep ∉ p
  single : 39 ∉ p
  double : 34 ∉ p

/-- The end of a text, or the colon in front of the next field. -/
def AtSep (s : Bytes) : Prop := s = [] ∨ ∃ t, s = fieldSep :: t

section Split

variable {n : ℕ} {p rest s : Bytes} {ps : List Bytes}

@[simp] theorem splitColonQuoted_nil (n : ℕ) : splitColonQuoted n [] = [] := by
  cases n with
  | zero => rfl
  | succ n => rfl

/-- Colons in front of a field are skipped. -/
@[simp] theorem splitColonQuoted_sep (n : ℕ) (s : Bytes) :
    splitColonQuoted n (fieldSep :: s) = splitColonQuoted n s := by
  cases n with
  | zero => rfl
  | succ n => rw [splitColonQuoted, splitColonQuoted, List.dropWhile_cons_of_pos (by simp)]

/-- A field without quotes reaches up to the next colon. -/
theorem splitColonQuoted_plain (h : Field p) (hrest : AtSep rest) (n : ℕ) :
    splitColonQuoted (n + 1) (p ++ rest) = p :: splitColonQuoted n rest := by
  obtain ⟨c, q, rfl⟩ := List.exists_cons_of_ne_nil h.ne_nil
  have hsep := h.sep
  have hc : c ≠ fieldSep := fun hc => hsep (by simp [hc])
  have hquote : isQuote c = false := by
    have hsingle : c ≠ 39 := fun hc => h.single (by simp [hc])
    have hdouble : c ≠ 34 := fun hc => h.double (by simp [hc])
    simp [isQuote, hsingle, hdouble]
  have hall : ∀ a ∈ q, decide (a ≠ fieldSep) = true := by
    intro a ha
    rw [decide_eq_true_eq]
    rintro rfl
    exact hsep (by simp [ha])
  have htake : (q ++ rest).takeWhile (· ≠ fieldSep) = q := by
    rw [List.takeWhile_append_of_pos hall]
    rcases hrest with rfl | ⟨t, rfl⟩
    · simp
    · simp
  have hdrop : (q ++ rest).dropWhile (· ≠ fieldSep) = rest := by
    rw [List.dropWhile_append_of_pos hall]
    rcases hrest with rfl | ⟨t, rfl⟩
    · rfl
    · simp
  rw [List.cons_append, splitColonQuoted, List.dropWhile_cons_of_neg (by simpa using hc)]
  simp only [hquote, Bool.false_eq_true, if_false, htake, hdrop]

/-- A quoted field reaches up to its second quote. -/
theorem splitColonQuoted_quoted (h : 39 ∉ p) (n : ℕ) (rest : Bytes) :
    splitColonQuoted (n + 1) (39 :: p ++ 39 :: rest) = p :: splitColonQuoted n rest := by
  have hall : ∀ a ∈ p, decide (a ≠ 39) = true := by
    intro a ha
    rw [decide_eq_true_eq]
    rintro rfl
    exact h ha
  have htake : (p ++ 39 :: rest).takeWhile (· ≠ 39) = p := by
    rw [List.takeWhile_append_of_pos hall]
    simp
  have hdrop : (p ++ 39 :: rest).dropWhile (· ≠ 39) = 39 :: rest := by
    rw [List.dropWhile_append_of_pos hall]
    simp
  rw [List.cons_append, splitColonQuoted, List.dropWhile_cons_of_neg (by decide)]
  simp only [show isQuote 39 = true from rfl, if_true, htake, hdrop]

/-- Without a second quote the quote stays. -/
theorem splitColonQuoted_open (h : 39 ∉ p) (n : ℕ) :
    splitColonQuoted (n + 1) (39 :: p) = [39 :: p] := by
  have hdrop : p.dropWhile (· ≠ 39) = [] := by
    rw [List.dropWhile_eq_nil_iff]
    intro a ha
    rw [decide_eq_true_eq]
    rintro rfl
    exact h ha
  rw [splitColonQuoted, List.dropWhile_cons_of_neg (by decide)]
  simp only [show isQuote 39 = true from rfl, if_true, hdrop]

/-- The fields are parts of the text, one behind the other. -/
theorem flatten_splitColonQuoted_sublist (n : ℕ) (s : Bytes) :
    (splitColonQuoted n s).flatten.Sublist s := by
  induction n generalizing s with
  | zero => exact List.nil_sublist s
  | succ n ih =>
      rw [splitColonQuoted]
      have hdrop := List.dropWhile_sublist (l := s) (· = fieldSep)
      split
      · exact List.nil_sublist s
      · rename_i c rest heq
        rw [heq] at hdrop
        refine List.Sublist.trans ?_ hdrop
        split_ifs
        · split
          · simp
          · rename_i hd behind hbehind
            have hsplit := List.takeWhile_append_dropWhile (p := (· ≠ c)) (l := rest)
            rw [hbehind] at hsplit
            rw [List.flatten_cons]
            conv_rhs => rw [← hsplit]
            exact ((List.Sublist.refl _).append
                ((ih behind).trans (List.sublist_cons_self _ _))).trans
              (List.sublist_cons_self _ _)
        · rw [List.flatten_cons, List.cons_append]
          conv_rhs => rw [← List.takeWhile_append_dropWhile (p := (· ≠ fieldSep)) (l := rest)]
          exact ((List.Sublist.refl _).append (ih _)).cons_cons c

theorem atSep_valueFields (ps : List Bytes) (hrest : AtSep rest) :
    AtSep (ps.flatMap valueField ++ rest) := by
  rcases ps with - | ⟨p, ps⟩
  · exact hrest
  · rw [List.flatMap_cons, valueField]
    split_ifs
    · exact .inr ⟨_, rfl⟩
    · exact .inr ⟨_, rfl⟩

/-- **Fields are read as they were written**, as many as there is room for. -/
theorem splitColonQuoted_valueFields (hps : ∀ p ∈ ps, Field p) (hrest : AtSep rest) (n : ℕ) :
    splitColonQuoted n (ps.flatMap valueField ++ rest) =
      ps.take n ++ splitColonQuoted (n - ps.length) rest := by
  induction ps generalizing n with
  | nil => simp
  | cons p ps ih =>
      have hp := hps p (by simp)
      have htail := ih fun q hq => hps q (by simp [hq])
      rcases n with - | n
      · rw [List.take_zero, Nat.zero_sub]
        rfl
      · rw [List.flatMap_cons, List.append_assoc, valueField, List.take_succ_cons,
          List.length_cons, Nat.add_sub_add_right]
        change _ = p :: (ps.take n ++ splitColonQuoted (n - ps.length) rest)
        rw [← htail]
        split_ifs
        · simp only [List.cons_append, List.append_assoc, splitColonQuoted_sep]
          exact splitColonQuoted_quoted hp.single n _
        · simp only [List.cons_append, splitColonQuoted_sep]
          exact splitColonQuoted_plain hp (atSep_valueFields ps hrest) n

theorem splitColonQuoted_dropWhile (n : ℕ) (s : Bytes) :
    splitColonQuoted n (s.dropWhile (· = fieldSep)) = splitColonQuoted n s := by
  cases n with
  | zero => rfl
  | succ n => rw [splitColonQuoted, splitColonQuoted, List.dropWhile_idempotent]

/-- Behind colons a text without quotes starts with a field. -/
theorem exists_field (hsingle : 39 ∉ s) (hdouble : 34 ∉ s) :
    s.dropWhile (· = fieldSep) = [] ∨
      ∃ p rest, s.dropWhile (· = fieldSep) = p ++ rest ∧ Field p ∧ AtSep rest := by
  have hsub := List.dropWhile_sublist (l := s) (· = fieldSep)
  rcases hs : s.dropWhile (· = fieldSep) with - | ⟨b, t⟩
  · exact .inl rfl
  · right
    rw [hs] at hsub
    have hb : b ≠ fieldSep := by
      rintro rfl
      have hhead := List.dropWhile_get_zero_not (fun a => decide (a = fieldSep)) s
        (by rw [hs]; simp)
      simp [hs] at hhead
    have hsplit := List.takeWhile_append_dropWhile (p := (· ≠ fieldSep)) (l := t)
    have htake : (t.takeWhile (· ≠ fieldSep)).Sublist t := List.takeWhile_sublist _
    have hmem : ∀ a, a ∈ b :: t.takeWhile (· ≠ fieldSep) → a ∈ s := fun a ha =>
      hsub.subset ((htake.cons_cons b).subset ha)
    refine ⟨b :: t.takeWhile (· ≠ fieldSep), t.dropWhile (· ≠ fieldSep), ?_, ?_, ?_⟩
    · rw [List.cons_append, hsplit]
    · refine ⟨List.cons_ne_nil _ _, ?_, fun h => hsingle (hmem _ h), fun h => hdouble (hmem _ h)⟩
      rintro h
      rcases List.mem_cons.mp h with h | h
      · exact hb h.symm
      · have := List.mem_takeWhile_imp h
        simp at this
    · rcases hd : t.dropWhile (· ≠ fieldSep) with - | ⟨d, u⟩
      · exact .inl rfl
      · have hhead := List.dropWhile_get_zero_not (fun a => decide (a ≠ fieldSep)) t
          (by rw [hd]; simp)
        simp only [hd, List.get_eq_getElem, List.getElem_cons_zero, decide_eq_true_eq,
          not_not] at hhead
        exact .inr ⟨u, by rw [hhead]⟩

/-- Without quotes the fields are the segments. -/
theorem splitColonQuoted_of_no_quotes (hsingle : 39 ∉ s) (hdouble : 34 ∉ s) (n : ℕ) :
    splitColonQuoted n s = (segments fieldSep s).take n := by
  induction n generalizing s with
  | zero => rfl
  | succ n ih =>
      have hsub := List.dropWhile_sublist (l := s) (· = fieldSep)
      rw [← splitColonQuoted_dropWhile, ← segments_dropWhile]
      rcases exists_field hsingle hdouble with hnil | ⟨p, rest, hs, hp, hrest⟩
      · rw [hnil]
        rfl
      · rw [hs] at hsub ⊢
        have htail := ih (s := rest) (fun h => hsingle (hsub.subset (by simp [h])))
          (fun h => hdouble (hsub.subset (by simp [h])))
        rw [splitColonQuoted_plain hp hrest, htail]
        rcases hrest with rfl | ⟨t, rfl⟩
        · rw [List.append_nil, segments_of_not_mem hp.sep, if_neg hp.ne_nil]
          rfl
        · rw [segments_append hp.sep, if_neg hp.ne_nil, segments_cons_sep]
          rfl

end Split

/-! ### Joining -/

section Join

variable {p : Bytes} {ps : List Bytes}

theorem joinSep_eq (p : Bytes) (ps : List Bytes) :
    joinSep fieldSep (p :: ps) = p ++ ps.flatMap (fieldSep :: ·) := by
  induction ps generalizing p with
  | nil => simp
  | cons q ps ih => rw [joinSep_cons (by simp), ih, List.flatMap_cons, List.cons_append]

theorem joinRest_eq {outlen : ℕ} {out : Bytes} (hout : out.length < outlen) (ps : List Bytes) :
    joinRest outlen out ps =
      if (out ++ ps.flatMap (fieldSep :: ·)).length < outlen then
        some (out ++ ps.flatMap (fieldSep :: ·)) else none := by
  induction ps generalizing out with
  | nil => simp [joinRest, hout]
  | cons p ps ih =>
      have hsplit : out ++ (p :: ps).flatMap (fieldSep :: ·) =
          out ++ fieldSep :: p ++ ps.flatMap (fieldSep :: ·) := by simp
      rw [joinRest, hsplit]
      by_cases hfit : (out ++ fieldSep :: p).length < outlen
      · rw [← ih hfit]
        rw [List.length_append, List.length_cons] at hfit
        rw [if_neg (by omega), if_neg (by omega)]
      · rw [List.length_append, List.length_cons] at hfit
        rw [if_neg (c := _ < outlen)]
        · by_cases hone : outlen ≤ out.length + 1
          · rw [if_pos hone]
          · rw [if_neg hone, if_pos (by omega)]
        · rw [List.length_append, List.length_append, List.length_cons]
          omega

/-- Fields are joined when the buffer is large enough. -/
theorem sfJoinColonParts_eq {outlen : ℕ} (hout : 0 < outlen) (ps : List Bytes) :
    sfJoinColonParts outlen ps =
      if (joinSep fieldSep ps).length < outlen then some (joinSep fieldSep ps) else none := by
  cases ps with
  | nil => rw [sfJoinColonParts, joinSep_nil, if_pos (by simpa using hout)]
  | cons p ps =>
      rw [sfJoinColonParts, joinSep_eq]
      by_cases hfit : outlen ≤ p.length
      · rw [if_pos hfit, if_neg]
        rw [List.length_append]
        omega
      · rw [if_neg hfit, joinRest_eq (by omega)]

end Join

/-! ### Values -/

/-- The number of characters that are neither colons nor quotes. -/
def weight (s : Bytes) : ℕ := s.countP fun b => b ≠ fieldSep ∧ b ≠ 39

/-- The fields of a value, in the room that the writer has for them. -/
def valueParts (value : Bytes) : List Bytes := (segments fieldSep value).take maxParts

/-- The text of a value behind the key. -/
def valueText (value : Bytes) : Bytes := (valueParts value).flatMap valueField

section Value

variable {value text p : Bytes} {ps : List Bytes}

theorem weight_append (s t : Bytes) : weight (s ++ t) = weight s + weight t :=
  List.countP_append

theorem weight_le_of_sublist {s t : Bytes} (h : s.Sublist t) : weight s ≤ weight t := h.countP_le

theorem weight_joinSep (ps : List Bytes) : weight (joinSep fieldSep ps) = weight ps.flatten := by
  have hrest : ∀ ps : List Bytes, weight (ps.flatMap (fieldSep :: ·)) = weight ps.flatten := by
    intro ps
    induction ps with
    | nil => rfl
    | cons p ps ih =>
        rw [List.flatMap_cons, List.flatten_cons, weight_append, weight_append, ih]
        rfl
  cases ps with
  | nil => rfl
  | cons p ps => rw [joinSep_eq, weight_append, List.flatten_cons, weight_append, hrest]

/-- Only colons are lost of a value when it is split. -/
theorem weight_segments (value : Bytes) :
    weight (segments fieldSep value).flatten = weight value := by
  have hjoin : joinSep fieldSep (value.splitOn fieldSep) = value := List.intercalate_splitOn _
  have hfilter : (segments fieldSep value).flatten = (value.splitOn fieldSep).flatten := by
    rw [segments]
    induction value.splitOn fieldSep with
    | nil => rfl
    | cons p ps ih =>
        by_cases hp : p = []
        · simpa [hp] using ih
        · rw [List.filter_cons_of_pos (by simpa using hp), List.flatten_cons, List.flatten_cons,
            ih]
  rw [hfilter, ← weight_joinSep, hjoin]

theorem weight_valueField (p : Bytes) : weight (valueField p) = weight p := by
  rw [valueField]
  split_ifs
  · rw [show fieldSep :: 39 :: p ++ [39] = [fieldSep, 39] ++ (p ++ [39]) from rfl, weight_append,
      weight_append]
    change 0 + (weight p + 0) = _
    omega
  · rw [show fieldSep :: p = [fieldSep] ++ p from rfl, weight_append]
    exact Nat.zero_add _

theorem weight_valueFields (ps : List Bytes) :
    weight (ps.flatMap valueField) = weight ps.flatten := by
  induction ps with
  | nil => rfl
  | cons p ps ih =>
      rw [List.flatMap_cons, weight_append, weight_valueField, ih, List.flatten_cons,
        weight_append]

/-- The segments of a value without quotes are fields. -/
theorem field_of_mem_segments (hsingle : 39 ∉ value) (hdouble : 34 ∉ value) :
    ∀ p ∈ segments fieldSep value, Field p := by
  intro p hp
  obtain ⟨hne, hsep⟩ := segs_segments value p hp
  exact ⟨hne, hsep, fun h => hsingle (mem_of_mem_segments hp h),
    fun h => hdouble (mem_of_mem_segments hp h)⟩

theorem field_of_mem_valueParts (hsingle : 39 ∉ value) (hdouble : 34 ∉ value) :
    ∀ p ∈ valueParts value, Field p := fun p hp =>
  field_of_mem_segments hsingle hdouble p (List.mem_of_mem_take hp)

/-- A value that is joined from some of its segments has no others. -/
theorem join_take_eq_iff {n : ℕ} :
    joinSep fieldSep ((segments fieldSep value).take n) = value ↔
      joinSep fieldSep (segments fieldSep value) = value ∧
        (segments fieldSep value).length ≤ n := by
  constructor
  · intro h
    have hsegs : Segs fieldSep ((segments fieldSep value).take n) := fun p hp =>
      segs_segments value p (List.mem_of_mem_take hp)
    have htake : (segments fieldSep value).take n = segments fieldSep value := by
      rw [← segments_joinSep hsegs, h]
    rw [htake] at h
    refine ⟨h, ?_⟩
    rw [← htake, List.length_take]
    omega
  · rintro ⟨h, hlen⟩
    rw [List.take_of_length_le hlen, h]

/-- The end of a field counts. -/
theorem weight_pos_of_append_eq {front lost : Bytes} (hp : Field p) (hlost : lost ≠ [])
    (heq : text ++ lost = front ++ p) : 0 < weight lost := by
  obtain ⟨l, b, rfl⟩ := (List.eq_nil_or_concat' lost).resolve_left hlost
  obtain ⟨q, d, rfl⟩ := (List.eq_nil_or_concat' p).resolve_left hp.ne_nil
  rw [← List.append_assoc, ← List.append_assoc] at heq
  obtain ⟨-, hlast⟩ := List.append_inj' heq rfl
  obtain rfl : b = d := List.singleton_inj.mp hlast
  have hsep : b ≠ fieldSep := fun h => hp.sep (by simp [h])
  have hsingle : b ≠ 39 := fun h => hp.single (by simp [h])
  have hone : weight [b] = 1 := by simp [weight, hsep, hsingle]
  rw [weight_append, hone]
  exact Nat.succ_pos _

/-- A text of fields that has lost its end, and no more than colons and quotes of it, has lost the
quote in the end. -/
theorem eq_of_lost_weightless (hps : ∀ p ∈ ps, Field p) {lost : Bytes}
    (htext : text ++ lost = ps.flatMap valueField) (hlost : lost ≠ []) (hweight : weight lost = 0) :
    ∃ init p, ps = init ++ [p] ∧ text = init.flatMap valueField ++ fieldSep :: 39 :: p := by
  rcases List.eq_nil_or_concat' ps with rfl | ⟨init, p, rfl⟩
  · exact absurd (List.append_eq_nil_iff.mp htext).2 hlost
  · have hp := hps p (by simp)
    refine ⟨init, p, rfl, ?_⟩
    rw [List.flatMap_append, List.flatMap_singleton, valueField] at htext
    split_ifs at htext
    · obtain ⟨l, b, rfl⟩ := (List.eq_nil_or_concat' lost).resolve_left hlost
      rw [← List.append_assoc, ← List.append_assoc] at htext
      obtain ⟨hfront, -⟩ := List.append_inj' htext rfl
      by_cases hl : l = []
      · rw [← hfront, hl, List.append_nil]
      · have hback : text ++ l = (init.flatMap valueField ++ [fieldSep, 39]) ++ p := by
          simpa using hfront
        have hpos := weight_pos_of_append_eq hp hl hback
        rw [weight_append] at hweight
        omega
    · have hback : text ++ lost = (init.flatMap valueField ++ [fieldSep]) ++ p := by
        simpa using htext
      have hpos := weight_pos_of_append_eq hp hlost hback
      omega

/-- **A value is read back** from the text that was left of it exactly when nothing was lost of
the text, and the value has no empty fields and at most 61. -/
theorem join_split_eq_iff (hsingle : 39 ∉ value) (hdouble : 34 ∉ value)
    (htext : text <+: valueText value) :
    joinSep fieldSep (splitColonQuoted 61 text) = value ↔
      text = valueText value ∧ joinSep fieldSep (segments fieldSep value) = value ∧
        (segments fieldSep value).length ≤ 61 := by
  have hfields := field_of_mem_valueParts hsingle hdouble
  have hall : splitColonQuoted 61 (valueText value) = (segments fieldSep value).take 61 := by
    have hsplit := splitColonQuoted_valueFields hfields (.inl rfl) 61
    rw [List.append_nil, splitColonQuoted_nil, List.append_nil, valueParts, List.take_take]
      at hsplit
    exact hsplit
  constructor
  · intro hvalue
    obtain ⟨lost, hlost⟩ := htext
    have hweight : weight lost = 0 := by
      have hread : weight value ≤ weight text := by
        rw [← hvalue, weight_joinSep]
        exact weight_le_of_sublist (flatten_splitColonQuoted_sublist 61 text)
      have hwritten : weight text + weight lost ≤ weight value := by
        rw [← weight_append, hlost, valueText, weight_valueFields, ← weight_segments value]
        conv_rhs => rw [← List.take_append_drop maxParts (segments fieldSep value)]
        rw [List.flatten_append]
        exact weight_le_of_sublist (List.sublist_append_left _ _)
      omega
    by_cases hnil : lost = []
    · rw [hnil, List.append_nil] at hlost
      rw [hlost, hall] at hvalue
      exact ⟨hlost, join_take_eq_iff.mp hvalue⟩
    · exfalso
      obtain ⟨init, p, hparts, rfl⟩ := eq_of_lost_weightless hfields hlost hnil hweight
      have hinit : ∀ q ∈ init, Field q := fun q hq => hfields q (by rw [hparts]; simp [hq])
      have hp : Field p := hfields p (by rw [hparts]; simp)
      rw [splitColonQuoted_valueFields hinit (.inr ⟨_, rfl⟩), splitColonQuoted_sep] at hvalue
      by_cases hroom : init.length < 61
      · -- the open quote stays in the value
        obtain ⟨k, hk⟩ : ∃ k, 61 - init.length = k + 1 := ⟨60 - init.length, by omega⟩
        rw [hk, splitColonQuoted_open hp.single] at hvalue
        refine hsingle ?_
        rw [← hvalue]
        exact mem_joinSep_of_mem (e := 39 :: p) (by simp) (by simp)
      · -- there was no room for the last field
        have htake : init.take 61 = (segments fieldSep value).take 61 := by
          have hcut := congrArg (List.take 61) hparts
          rw [valueParts, List.take_take, List.take_append_of_le_length (by omega)] at hcut
          exact hcut.symm
        have hzero : 61 - init.length = 0 := by omega
        rw [hzero, splitColonQuoted, List.append_nil, htake] at hvalue
        have hfew := (join_take_eq_iff.mp hvalue).2
        have hmany := congrArg List.length hparts
        rw [valueParts, List.length_take, List.length_append, List.length_singleton] at hmany
        omega
  · rintro ⟨rfl, hjoin, hlen⟩
    rw [hall]
    exact join_take_eq_iff.mpr ⟨hjoin, hlen⟩

end Value

end TPBench
