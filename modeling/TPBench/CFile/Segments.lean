import Mathlib.Algebra.Order.BigOperators.Group.List
import Mathlib.Data.List.TakeWhile
import TPBench.CFile.Bytes

/-!
# Segments Between Single Separators

Texts that are joined by one separator element, such as the directories of a search path.
Writers of such texts drop empty segments (`segments`), and readers pass from one separator
to the next. A reader at the front of a joined text sees the first segment
(`takeWhile_joinSep`), and behind the separator the joined rest (`dropWhile_joinSep`).

The lemmas are about joined lists of segments that are not empty and do not contain the
separator (`Segs`), which is what `segments` produces.
-/

namespace CFile

variable {α : Type} (c : α)

/-- What stands between the separators of a text, without the empty segments. -/
def segments [DecidableEq α] (l : List α) : List (List α) := (l.splitOn c).filter (· ≠ [])

/-- The segments joined by the separator. -/
def joinSep (es : List (List α)) : List α := [c].intercalate es

/-- A list of segments that can be told apart when they are joined. -/
def Segs (es : List (List α)) : Prop := ∀ e ∈ es, e ≠ [] ∧ c ∉ e

variable {c}

theorem Segs.cons {e : List α} {es : List (List α)} (h : Segs c (e :: es)) :
    e ≠ [] ∧ c ∉ e ∧ Segs c es :=
  ⟨(h e (by simp)).1, (h e (by simp)).2, fun x hx => h x (by simp [hx])⟩

@[simp] theorem joinSep_nil : joinSep c [] = [] := rfl

@[simp] theorem joinSep_singleton (e : List α) : joinSep c [e] = e := by
  simp [joinSep]

theorem joinSep_cons {es : List (List α)} (hes : es ≠ []) (e : List α) :
    joinSep c (e :: es) = e ++ c :: joinSep c es := by
  rw [joinSep, List.intercalate_cons_of_ne_nil hes, List.append_assoc]
  rfl

/-- What is joined behind the first entry. -/
theorem joinSep_cons_eq_flatMap (e : List α) (es : List (List α)) :
    joinSep c (e :: es) = e ++ es.flatMap (c :: ·) := by
  induction es generalizing e with
  | nil => rw [joinSep, List.intercalate_singleton, List.flatMap_nil, List.append_nil]
  | cons e' es ih =>
      rw [joinSep_cons (List.cons_ne_nil e' es) e, ih e', List.flatMap_cons, List.cons_append]

/-- Only the empty list of segments makes an empty text. -/
theorem joinSep_eq_nil {es : List (List α)} (h : Segs c es) : joinSep c es = [] ↔ es = [] := by
  cases es with
  | nil => simp
  | cons e es =>
      obtain ⟨hne, -, -⟩ := h.cons
      by_cases hes : es = []
      · subst hes
        simpa using hne
      · simp [joinSep_cons hes]

/-- One more segment at the end. -/
theorem joinSep_concat {es : List (List α)} (h : Segs c es) (e : List α) :
    joinSep c (es ++ [e]) =
      if (joinSep c es).length > 0 then joinSep c es ++ [c] ++ e else joinSep c es ++ e := by
  induction es with
  | nil => simp
  | cons a es ih =>
      obtain ⟨hne, -, hes⟩ := h.cons
      have hpos : (joinSep c (a :: es)).length > 0 := by
        rw [gt_iff_lt, List.length_pos_iff, ne_eq, joinSep_eq_nil h]
        simp
      rw [if_pos hpos]
      by_cases hnil : es = []
      · subst hnil
        simp [joinSep_cons]
      · have hpos' : (joinSep c es).length > 0 := by
          rw [gt_iff_lt, List.length_pos_iff, ne_eq, joinSep_eq_nil hes]
          exact hnil
        rw [List.cons_append, joinSep_cons (by simp), ih hes, if_pos hpos', joinSep_cons hnil]
        simp

/-- One more element at the end, empty or not. -/
theorem joinSep_append_singleton {es : List (List α)} (hes : es ≠ []) (e : List α) :
    joinSep c (es ++ [e]) = joinSep c es ++ c :: e := by
  induction es with
  | nil => exact (hes rfl).elim
  | cons a es ih =>
      by_cases hnil : es = []
      · subst hnil
        rw [List.singleton_append, joinSep_cons (by simp), joinSep_singleton, joinSep_singleton]
      · rw [List.cons_append, joinSep_cons (by simp), ih hnil, joinSep_cons hnil,
          List.append_assoc, List.cons_append]

/-- What a joined text consists of. -/
theorem mem_joinSep {es : List (List α)} {a : α} (h : a ∈ joinSep c es) :
    a = c ∨ ∃ e ∈ es, a ∈ e := by
  induction es with
  | nil => simp at h
  | cons e es ih =>
      by_cases hes : es = []
      · subst hes
        exact .inr ⟨e, by simp, by simpa using h⟩
      · rw [joinSep_cons hes, List.mem_append, List.mem_cons] at h
        rcases h with h | h | h
        · exact .inr ⟨e, by simp, h⟩
        · exact .inl h
        · rcases ih h with h | ⟨e', he', h⟩
          · exact .inl h
          · exact .inr ⟨e', by simp [he'], h⟩

theorem mem_joinSep_of_mem {es : List (List α)} {e : List α} {a : α} (he : e ∈ es)
    (ha : a ∈ e) : a ∈ joinSep c es := by
  induction es with
  | nil => simp at he
  | cons e' es ih =>
      by_cases hes : es = []
      · subst hes
        obtain rfl := List.mem_singleton.mp he
        simpa using ha
      · rw [joinSep_cons hes, List.mem_append, List.mem_cons]
        rcases List.mem_cons.mp he with rfl | he
        · exact .inl ha
        · exact .inr (.inr (ih he))

/-- More segments make a longer text. -/
theorem length_joinSep_le (es es' : List (List α)) :
    (joinSep c es).length ≤ (joinSep c (es ++ es')).length := by
  induction es with
  | nil => simp
  | cons e es ih =>
      by_cases hes : es = []
      · subst hes
        by_cases hes' : es' = []
        · simp [hes']
        · rw [List.singleton_append, joinSep_cons hes', joinSep_singleton, List.length_append]
          omega
      · rw [List.cons_append, joinSep_cons hes, joinSep_cons (by simp [hes])]
        simpa using ih

/-- A bound for the length of a joined text. -/
theorem length_joinSep_le_sum (es : List (List α)) :
    (joinSep c es).length ≤ (es.map fun e => e.length + 1).sum := by
  induction es with
  | nil => simp
  | cons e es ih =>
      rw [List.map_cons, List.sum_cons]
      by_cases hes : es = []
      · simp [hes]
      · rw [joinSep_cons hes, List.length_append, List.length_cons]
        omega

/-- The length of a joined text. -/
theorem length_joinSep (c : α) {es : List (List α)} (h : es ≠ []) :
    (joinSep c es).length + 1 = (es.map fun e => e.length + 1).sum := by
  induction es with
  | nil => exact absurd rfl h
  | cons e es ih =>
      rw [List.map_cons, List.sum_cons]
      by_cases hes : es = []
      · simp [hes]
      · rw [joinSep_cons hes, List.length_append, List.length_cons, ← ih hes]
        omega

/-! ### Splitting -/

variable [DecidableEq α]

/-- The pieces of a text do not contain the separator. -/
theorem not_mem_of_mem_splitOn {l e : List α} (h : e ∈ l.splitOn c) : c ∉ e := by
  induction l generalizing e with
  | nil =>
      rw [List.splitOn_nil, List.mem_singleton] at h
      simp [h]
  | cons a l ih =>
      rw [List.splitOn_cons_eq_if_modifyHead] at h
      by_cases ha : a = c
      · rw [if_pos (by simpa using ha)] at h
        rcases List.mem_cons.mp h with rfl | h
        · simp
        · exact ih h
      · rw [if_neg (by simpa using ha)] at h
        obtain ⟨p, ps, hps⟩ := List.exists_cons_of_ne_nil (List.splitOn_ne_nil c l)
        rw [hps, List.modifyHead_cons, List.mem_cons] at h
        rcases h with rfl | h
        · have hp : c ∉ p := ih (by simp [hps])
          simp [hp, Ne.symm ha]
        · exact ih (by simp [hps, h])

/-- A segment of a text is a part of it. -/
theorem mem_of_mem_segments {l e : List α} {a : α} (he : e ∈ segments c l) (ha : a ∈ e) :
    a ∈ l := by
  have hmem := mem_joinSep_of_mem (c := c) (List.mem_filter.mp he).1 ha
  rwa [joinSep, List.intercalate_splitOn] at hmem

theorem segs_segments (l : List α) : Segs c (segments c l) := by
  intro e he
  obtain ⟨hmem, hne⟩ := List.mem_filter.mp he
  exact ⟨by simpa using hne, not_mem_of_mem_splitOn hmem⟩

/-- The pieces of a text, each with a separator, are one longer than the text. -/
theorem sum_length_splitOn (l : List α) :
    ((l.splitOn c).map fun e => e.length + 1).sum = l.length + 1 := by
  induction l with
  | nil => simp
  | cons a l ih =>
      rw [List.splitOn_cons_eq_if_modifyHead]
      split
      · rw [List.map_cons, List.sum_cons, ih, List.length_nil, List.length_cons]
        omega
      · obtain ⟨p, ps, hps⟩ := List.exists_cons_of_ne_nil (List.splitOn_ne_nil c l)
        rw [hps, List.map_cons, List.sum_cons] at ih
        rw [hps, List.modifyHead_cons, List.map_cons, List.sum_cons, List.length_cons,
          List.length_cons]
        omega

/-- The segments of a text are not longer than the text. -/
theorem sum_length_segments_le (l : List α) :
    ((segments c l).map fun e => e.length + 1).sum ≤ l.length + 1 := by
  rw [← @sum_length_splitOn α c _ l]
  exact (List.filter_sublist.map _).sum_le_sum fun _ _ => Nat.zero_le _

/-- A text without a separator. -/
theorem segments_of_not_mem {e : List α} (he : c ∉ e) :
    segments c e = if e = [] then [] else [e] := by
  rw [segments, List.splitOn_eq_singleton he]
  by_cases hnil : e = []
  · simp [hnil]
  · simp [hnil]

/-- A text up to its first separator. -/
theorem segments_append {e : List α} (he : c ∉ e) (l : List α) :
    segments c (e ++ c :: l) = (if e = [] then [] else [e]) ++ segments c l := by
  rw [segments, List.splitOn_append_cons_self_of_not_mem he]
  by_cases hnil : e = []
  · simp [hnil, segments]
  · simp [hnil, segments]

/-- Separators in front of a text. -/
theorem segments_cons_sep (c : α) (l : List α) : segments c (c :: l) = segments c l := by
  have happend := segments_append (c := c) (e := []) List.not_mem_nil l
  simpa using happend

theorem segments_dropWhile (l : List α) : segments c (l.dropWhile (· = c)) = segments c l := by
  induction l with
  | nil => rfl
  | cons a l ih =>
      by_cases ha : a = c
      · subst ha
        rw [List.dropWhile_cons_of_pos (by simp), ih, segments_cons_sep]
      · rw [List.dropWhile_cons_of_neg (by simpa using ha)]

/-- Two texts with a separator between them. -/
theorem segments_append_sep (c : α) (l m : List α) :
    segments c (l ++ c :: m) = segments c l ++ segments c m := by
  have hsplit : (l ++ c :: m).splitOn c = l.splitOn c ++ m.splitOn c := by
    induction l with
    | nil => rw [List.nil_append, List.splitOn_cons_eq_if_modifyHead]; simp
    | cons a l ih =>
        rw [List.cons_append, List.splitOn_cons_eq_if_modifyHead,
          List.splitOn_cons_eq_if_modifyHead, ih]
        obtain ⟨p, ps, hps⟩ := List.exists_cons_of_ne_nil (List.splitOn_ne_nil c l)
        split
        · rfl
        · rw [hps]
          rfl
  rw [segments, hsplit, List.filter_append, segments, segments]

/-- Joined segments are split again. -/
theorem segments_joinSep {es : List (List α)} (h : Segs c es) : segments c (joinSep c es) = es := by
  induction es with
  | nil => rfl
  | cons e es ih =>
      obtain ⟨hne, hmem, hes⟩ := h.cons
      by_cases hnil : es = []
      · subst hnil
        rw [joinSep_singleton, segments_of_not_mem hmem, if_neg hne]
      · rw [joinSep_cons hnil, segments_append hmem, if_neg hne, ih hes]
        rfl

/-! ### Reading a joined text -/

/-- Up to the first separator stands the first segment. -/
theorem takeWhile_joinSep {e : List α} (he : c ∉ e) (es : List (List α)) :
    (joinSep c (e :: es)).takeWhile (· ≠ c) = e := by
  have hall : ∀ a ∈ e, decide (a ≠ c) = true := by
    intro a ha
    rw [decide_eq_true_eq]
    rintro rfl
    exact he ha
  by_cases hes : es = []
  · subst hes
    rw [joinSep_singleton, List.takeWhile_eq_self_iff]
    exact hall
  · rw [joinSep_cons hes, List.takeWhile_append_of_pos hall,
      List.takeWhile_cons_of_neg (by simp), List.append_nil]

/-- From the first separator on stand the other segments. -/
theorem dropWhile_joinSep {e : List α} (he : c ∉ e) (es : List (List α)) :
    (joinSep c (e :: es)).dropWhile (· ≠ c) = if es = [] then [] else c :: joinSep c es := by
  have hall : ∀ a ∈ e, decide (a ≠ c) = true := by
    intro a ha
    rw [decide_eq_true_eq]
    rintro rfl
    exact he ha
  by_cases hes : es = []
  · subst hes
    rw [joinSep_singleton, if_pos rfl, List.dropWhile_eq_nil_iff]
    exact hall
  · rw [joinSep_cons hes, if_neg hes, List.dropWhile_append_of_pos hall,
      List.dropWhile_cons_of_neg (by simp)]

/-- Behind the first separator stand the other segments. -/
theorem drop_dropWhile_joinSep {e : List α} (he : c ∉ e) (es : List (List α)) :
    ((joinSep c (e :: es)).dropWhile (· ≠ c)).drop 1 = joinSep c es := by
  rw [dropWhile_joinSep he]
  by_cases hes : es = []
  · simp [hes]
  · simp [hes]

/-- The number of separators is one less than the number of segments. -/
theorem count_joinSep {es : List (List α)} (h : Segs c es) (hne : es ≠ []) :
    (joinSep c es).count c + 1 = es.length := by
  induction es with
  | nil => exact absurd rfl hne
  | cons e es ih =>
      obtain ⟨-, hmem, hes⟩ := h.cons
      have hzero : e.count c = 0 := List.count_eq_zero.mpr hmem
      by_cases hnil : es = []
      · subst hnil
        simp [hzero]
      · rw [joinSep_cons hnil, List.count_append, List.count_cons_self, hzero,
          List.length_cons, ← ih hes hnil]
        omega

end CFile
