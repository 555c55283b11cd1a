import TPBench.Keyed
import TPBench.Raf.KernelMeta

/-!
# Texts of Keys and Values

`tpb_raf_kernel_meta_kv_set` and `tpb_raf_kernel_meta_kv_get` work on a text by scanning its
lines and comparing the front of each with `key=`. A text may hold several lines of a key, lines
without a key, empty lines, and a last line without a newline.

`kvLines` are the lines of a text without their newlines. On these the two functions are simple:
getting is a search for the first line of the key (`tpbRafKernelMetaKvGet_eq`), setting puts one
line in the place of the first line of the key and drops its other lines (`kvLines_kvSetText`).
What holds of these two operations on lists holds of the texts (`kv_set_get`).
-/

open CFile

namespace TPBench

/-! ### Getting -/

/-- The value in a line of the key: the rest of the line, cut to the buffer of the caller. When
the key holds a newline, the difference of the two pointers is negative, and as many bytes are
copied as the buffer takes. -/
def kvValue (search l rest : Bytes) (valueLen : ℕ) : Except Err Bytes :=
  if l.getLast? = some newline ∧ l.length - 1 < search.length then
    if (rest.drop search.length).length + 1 < valueLen - 1 then .error .undefined
    else .ok (cstr ((rest.drop search.length).take (valueLen - 1)))
  else if l.getLast? = some newline then
    .ok ((l.dropLast.drop search.length).take (valueLen - 1))
  else .ok ((l.drop search.length).take (valueLen - 1))

/-- The loop of `tpb_raf_kernel_meta_kv_get` over the lines. The key is compared with the whole
rest. -/
def kvGetLoop (search : Bytes) (valueLen : ℕ) : List Bytes → Except Err Bytes
  | [] => .error (.code .rafL3Kernel .listNotFound)
  | l :: ls =>
      if search.isPrefixOf (l :: ls).flatten then kvValue search l (l :: ls).flatten valueLen
      else kvGetLoop search valueLen ls

/-- `tpb_raf_kernel_meta_kv_get` with a buffer of `valueLen` bytes. -/
def tpbRafKernelMetaKvGet (payload key : Bytes) (valueLen : ℕ) : Except Err Bytes :=
  if valueLen = 0 then .error (.code .rafL3Kernel .nullptrArg)
  else if 256 ≤ key.length + 2 then .error (.code .rafL3Kernel .kernArgFail)
  else kvGetLoop (kvSearch key) valueLen (textLines payload)

/-! ### Lines -/

/-- A line without its newline. -/
def lineBody (l : Bytes) : Bytes := if l.getLast? = some newline then l.dropLast else l

/-- The lines of a text, without their newlines. -/
def kvLines (text : Bytes) : List Bytes := (textLines text).map lineBody

/-- The text of some lines. -/
def kvText (ls : List Bytes) : Bytes := ls.flatMap (· ++ [newline])

/-- Whether a line is one of the key. -/
def isKeyLine (key l : Bytes) : Bool := (key ++ [61]).isPrefixOf l

/-- A text is empty, one line without a newline, or a line and a text. -/
theorem text_induction {P : Bytes → Prop} (nil : P [])
    (last : ∀ l, newline ∉ l → l ≠ [] → P l)
    (line : ∀ l text, newline ∉ l → P text → P (l ++ newline :: text)) (text : Bytes) :
    P text := by
  induction hn : text.length using Nat.strong_induction_on generalizing text with
  | _ n ih =>
      by_cases hmem : newline ∈ text
      · obtain ⟨l, rest, rfl, hl⟩ := List.eq_append_cons_of_mem hmem
        refine line l rest hl (ih rest.length ?_ rest rfl)
        rw [← hn, List.length_append, List.length_cons]
        omega
      · cases text with
        | nil => exact nil
        | cons b bs => exact last _ hmem (List.cons_ne_nil _ _)

/-- A line with its newline is cut off as a whole. -/
theorem textLines_line {l : Bytes} (h : newline ∉ l) (text : Bytes) :
    textLines (l ++ newline :: text) = (l ++ [newline]) :: textLines text := by
  induction l with
  | nil =>
      rw [List.nil_append, textLines, if_pos rfl]
      rfl
  | cons b bs ih =>
      rw [List.mem_cons, not_or] at h
      rw [List.cons_append, textLines, if_neg (Ne.symm h.1), ih h.2]
      rfl

/-- A text without a newline is one line. -/
theorem textLines_last {l : Bytes} (h : newline ∉ l) (hne : l ≠ []) : textLines l = [l] := by
  induction l with
  | nil => exact absurd rfl hne
  | cons b bs ih =>
      rw [List.mem_cons, not_or] at h
      rw [textLines, if_neg (Ne.symm h.1)]
      cases bs with
      | nil => rfl
      | cons b' bs => rw [ih h.2 (List.cons_ne_nil _ _)]

/-- The last byte of a line is its newline, if it has one. -/
theorem getLast_ne_newline {l : Bytes} (h : newline ∉ l) : l.getLast? ≠ some newline :=
  fun hlast => h (List.mem_of_getLast? hlast)

theorem lineBody_line (l : Bytes) : lineBody (l ++ [newline]) = l := by
  rw [lineBody, if_pos List.getLast?_concat, List.dropLast_concat]

theorem lineBody_last {l : Bytes} (h : newline ∉ l) : lineBody l = l := by
  rw [lineBody, if_neg (getLast_ne_newline h)]

@[simp] theorem kvLines_nil : kvLines [] = [] := rfl

theorem kvLines_line {l : Bytes} (h : newline ∉ l) (text : Bytes) :
    kvLines (l ++ newline :: text) = l :: kvLines text := by
  rw [kvLines, textLines_line h, List.map_cons, lineBody_line]
  rfl

theorem kvLines_last {l : Bytes} (h : newline ∉ l) (hne : l ≠ []) : kvLines l = [l] := by
  rw [kvLines, textLines_last h hne, List.map_singleton, lineBody_last h]

/-- Lines have no newline. -/
theorem newline_not_mem_kvLines (text : Bytes) : ∀ l ∈ kvLines text, newline ∉ l := by
  induction text using text_induction with
  | nil => simp
  | last l hl hne =>
      rw [kvLines_last hl hne]
      simpa using hl
  | line l text hl ih =>
      rw [kvLines_line hl, List.forall_mem_cons]
      exact ⟨hl, ih⟩

/-- The lines of a text that was put together from lines. -/
theorem kvLines_kvText {ls : List Bytes} (h : ∀ l ∈ ls, newline ∉ l) :
    kvLines (kvText ls) = ls := by
  induction ls with
  | nil => rfl
  | cons l ls ih =>
      rw [List.forall_mem_cons] at h
      rw [kvText, List.flatMap_cons, List.append_assoc, List.singleton_append, kvLines_line h.1]
      congr 1
      exact ih h.2

/-! ### The two functions on lines -/

section Lines

variable {key value : Bytes}

/-- What does not hold a newline is compared with the line only. -/
theorem isPrefixOf_line {s : Bytes} (h : newline ∉ s) (l text : Bytes) :
    s.isPrefixOf (l ++ newline :: text) = s.isPrefixOf l := by
  induction s generalizing l with
  | nil => rfl
  | cons b bs ih =>
      rw [List.mem_cons, not_or] at h
      cases l with
      | nil => simp [List.isPrefixOf, Ne.symm h.1]
      | cons c cs =>
          rw [List.cons_append, List.isPrefixOf, List.isPrefixOf, ih h.2]

/-- The text that is searched for, when it fits the buffer. -/
theorem kvSearch_eq (hlen : key.length ≤ 253) : kvSearch key = key ++ [61] := by
  rw [kvSearch, List.take_of_length_le]
  rw [List.length_append, List.length_singleton]
  omega

theorem newline_not_mem_search (hkey : newline ∉ key) : newline ∉ key ++ [61] := by
  rw [List.mem_append, List.mem_singleton]
  rintro (h | h)
  · exact hkey h
  · cases h

theorem isPrefixOf_search (l : Bytes) : (key ++ [61]).isPrefixOf l = isKeyLine key l := rfl

/-- The key is compared with the line only. -/
theorem isPrefixOf_search_line (hkey : newline ∉ key) (l text : Bytes) :
    (key ++ [61]).isPrefixOf (l ++ newline :: text) = isKeyLine key l :=
  isPrefixOf_line (newline_not_mem_search hkey) l text

/-- The value of a line of the key. -/
def lineValue (key l : Bytes) (valueLen : ℕ) : Bytes :=
  (l.drop (key.length + 1)).take (valueLen - 1)

/-- The first line of the key that is found holds its value. -/
theorem kvGetLoop_eq (hkey : newline ∉ key) (valueLen : ℕ) (text : Bytes) :
    kvGetLoop (key ++ [61]) valueLen (textLines text) =
      match (kvLines text).find? (isKeyLine key) with
      | some l => .ok (lineValue key l valueLen)
      | none => .error (.code .rafL3Kernel .listNotFound) := by
  have hlen : (key ++ [61]).length = key.length + 1 := List.length_append
  induction text using text_induction with
  | nil => rfl
  | last l hl hne =>
      rw [textLines_last hl hne, kvLines_last hl hne, kvGetLoop, List.flatten_singleton,
        isPrefixOf_search]
      by_cases hmatch : isKeyLine key l = true
      · rw [List.find?_cons_of_pos hmatch, if_pos hmatch, kvValue,
          if_neg fun h => getLast_ne_newline hl h.1, if_neg (getLast_ne_newline hl), hlen]
        rfl
      · rw [List.find?_cons_of_neg hmatch, if_neg hmatch]
        rfl
  | line l text hl ih =>
      rw [textLines_line hl, kvLines_line hl, kvGetLoop, List.flatten_cons, flatten_textLines,
        List.append_assoc, List.singleton_append, isPrefixOf_search_line hkey]
      by_cases hmatch : isKeyLine key l = true
      · have hle : key.length + 1 ≤ l.length := by
          rw [← hlen]
          exact (List.isPrefixOf_iff_prefix.mp hmatch).length_le
        have hroom : ¬ ((l ++ [newline]).getLast? = some newline ∧
            (l ++ [newline]).length - 1 < (key ++ [61]).length) := by
          rintro ⟨-, h⟩
          rw [List.length_append, List.length_singleton, hlen] at h
          omega
        rw [List.find?_cons_of_pos hmatch, if_pos hmatch, kvValue, if_neg hroom,
          if_pos List.getLast?_concat, List.dropLast_concat, hlen]
        rfl
      · rw [List.find?_cons_of_neg hmatch, if_neg hmatch, ih]

/-- **Getting** is a search for the first line of the key. -/
theorem tpbRafKernelMetaKvGet_eq (hkey : newline ∉ key) (hlen : key.length ≤ 253)
    {valueLen : ℕ} (hpos : 0 < valueLen) (text : Bytes) :
    tpbRafKernelMetaKvGet text key valueLen =
      match (kvLines text).find? (isKeyLine key) with
      | some l => .ok (lineValue key l valueLen)
      | none => .error (.code .rafL3Kernel .listNotFound) := by
  rw [tpbRafKernelMetaKvGet, if_neg (by omega), if_neg (by omega), kvSearch_eq hlen,
    kvGetLoop_eq hkey]

/-- Once the line of the key was written, its other lines are dropped. -/
theorem kvSetLoop_true (hkey : newline ∉ key) (text out : Bytes) :
    kvSetLoop (key ++ [61]) value (textLines text) out true =
      (out ++ kvText ((kvLines text).filter (!isKeyLine key ·)), true) := by
  induction text using text_induction generalizing out with
  | nil => simp [textLines, kvSetLoop, kvText]
  | last l hl hne =>
      rw [textLines_last hl hne, kvLines_last hl hne, kvSetLoop, List.flatten_singleton,
        isPrefixOf_search,
        if_neg (getLast_ne_newline hl)]
      by_cases hmatch : isKeyLine key l = true
      · rw [if_pos hmatch, if_pos rfl, List.filter_cons_of_neg (by simp [hmatch])]
        simp [kvSetLoop, kvText]
      · rw [if_neg hmatch, List.filter_cons_of_pos (by simp [hmatch])]
        simp [kvSetLoop, kvText]
  | line l text hl ih =>
      rw [textLines_line hl, kvLines_line hl, kvSetLoop, List.flatten_cons, flatten_textLines,
        List.append_assoc, List.singleton_append, isPrefixOf_search_line hkey,
        if_pos List.getLast?_concat]
      by_cases hmatch : isKeyLine key l = true
      · rw [if_pos hmatch, if_pos rfl, List.filter_cons_of_neg (by simp [hmatch]), ih]
      · rw [if_neg hmatch, List.filter_cons_of_pos (by simp [hmatch]), ih]
        simp [kvText]

/-- Before, the lines of other keys are copied up to the first line of the key. -/
theorem kvSetLoop_false (hkey : newline ∉ key) (text out : Bytes) :
    kvSetLoop (key ++ [61]) value (textLines text) out false =
      if (kvLines text).any (isKeyLine key) then
        (out ++ kvText (Keyed.setFirst (isKeyLine key) (key ++ [61] ++ value) (kvLines text)), true)
      else (out ++ kvText (kvLines text), false) := by
  induction text using text_induction generalizing out with
  | nil => simp [textLines, kvSetLoop, kvText]
  | last l hl hne =>
      rw [textLines_last hl hne, kvLines_last hl hne, kvSetLoop, List.flatten_singleton,
        isPrefixOf_search,
        if_neg (getLast_ne_newline hl)]
      by_cases hmatch : isKeyLine key l = true
      · rw [if_pos hmatch, if_neg (by simp), List.any_cons, hmatch, Bool.true_or, if_pos rfl,
          Keyed.setFirst, if_pos hmatch]
        simp [kvSetLoop, kvText]
      · have hno : isKeyLine key l = false := by simpa using hmatch
        rw [if_neg hmatch, List.any_cons, hno]
        simp [kvSetLoop, kvText]
  | line l text hl ih =>
      rw [textLines_line hl, kvLines_line hl, kvSetLoop, List.flatten_cons, flatten_textLines,
        List.append_assoc, List.singleton_append, isPrefixOf_search_line hkey,
        if_pos List.getLast?_concat]
      by_cases hmatch : isKeyLine key l = true
      · rw [if_pos hmatch, if_neg (by simp), kvSetLoop_true hkey, List.any_cons, hmatch,
          Bool.true_or, if_pos rfl, Keyed.setFirst, if_pos hmatch]
        simp [kvText]
      · have hno : isKeyLine key l = false := by simpa using hmatch
        rw [if_neg hmatch, ih, List.any_cons, hno, Bool.false_or, Keyed.setFirst, if_neg hmatch]
        split_ifs
        · simp [kvText]
        · simp [kvText]

/-- **Setting** puts one line in the place of the first line of the key. -/
theorem kvSetText_eq (hkey : newline ∉ key) (hlen : key.length ≤ 253) (text : Bytes) :
    kvSetText text key value =
      kvText (Keyed.setFirst (isKeyLine key) (key ++ [61] ++ value) (kvLines text)) := by
  rw [kvSetText, kvSearch_eq hlen, kvSetLoop_false hkey]
  rcases hany : (kvLines text).any (isKeyLine key) with - | -
  · rw [Keyed.setFirst_of_not_any hany]
    simp [kvText]
  · simp

/-- The lines of the text that was made. -/
theorem kvLines_kvSetText (hkey : newline ∉ key) (hlen : key.length ≤ 253)
    (hvalue : newline ∉ value) (text : Bytes) :
    kvLines (kvSetText text key value) =
      Keyed.setFirst (isKeyLine key) (key ++ [61] ++ value) (kvLines text) := by
  rw [kvSetText_eq hkey hlen, kvLines_kvText]
  intro l hl
  rcases Keyed.mem_of_mem_setFirst hl with rfl | hl
  · rw [List.mem_append, not_or]
    exact ⟨newline_not_mem_search hkey, hvalue⟩
  · exact newline_not_mem_kvLines text l hl

/-- A line is one of at most one key. -/
theorem takeWhile_of_isKeyLine {l : Bytes} (heq : (61 : UInt8) ∉ key)
    (h : isKeyLine key l = true) : l.takeWhile (· ≠ 61) = key := by
  obtain ⟨rest, rfl⟩ := List.isPrefixOf_iff_prefix.mp h
  rw [List.append_assoc, List.takeWhile_append_of_pos]
  · simp
  · intro b hb
    rw [decide_eq_true_eq]
    rintro rfl
    exact heq hb

/-- The line that is written is one of the key. -/
theorem isKeyLine_line (key value : Bytes) : isKeyLine key (key ++ [61] ++ value) = true :=
  List.isPrefixOf_iff_prefix.mpr (List.prefix_append _ _)

/-! ### Sizes -/

theorem length_kvText_cons (l : Bytes) (ls : List Bytes) :
    (kvText (l :: ls)).length = l.length + 1 + (kvText ls).length := by
  rw [kvText, List.flatMap_cons, List.length_append, List.length_append, List.length_singleton,
    kvText]

theorem length_kvText_filter_le (p : Bytes → Bool) (ls : List Bytes) :
    (kvText (ls.filter p)).length ≤ (kvText ls).length := by
  induction ls with
  | nil => rfl
  | cons l ls ih =>
      rw [List.filter_cons, length_kvText_cons]
      split_ifs
      · rw [length_kvText_cons]
        omega
      · omega

theorem length_kvText_setFirst_le (p : Bytes → Bool) (x : Bytes) (ls : List Bytes) :
    (kvText (Keyed.setFirst p x ls)).length ≤ (kvText ls).length + x.length + 1 := by
  induction ls with
  | nil => simp [Keyed.setFirst, kvText]
  | cons l ls ih =>
      have hfilter := length_kvText_filter_le (!p ·) ls
      rw [Keyed.setFirst, length_kvText_cons]
      split_ifs
      · rw [length_kvText_cons]
        omega
      · rw [length_kvText_cons]
        omega

/-- Only the last line may be without its newline. -/
theorem length_kvText_kvLines_le (text : Bytes) :
    (kvText (kvLines text)).length ≤ text.length + 1 := by
  induction text using text_induction with
  | nil => simp [kvText]
  | last l hl hne => simp [kvLines_last hl hne, kvText]
  | line l text hl ih =>
      rw [kvLines_line hl, length_kvText_cons, List.length_append, List.length_cons]
      omega

/-- The buffer that the function allocates takes the text, so that nothing is cut. -/
theorem length_kvSetText_lt (hkey : newline ∉ key) (hlen : key.length ≤ 253) (text : Bytes) :
    (kvSetText text key value).length < text.length + key.length + value.length + 32 := by
  have hset := length_kvText_setFirst_le (isKeyLine key) (key ++ [61] ++ value) (kvLines text)
  have hlines := length_kvText_kvLines_le text
  rw [kvSetText_eq hkey hlen]
  simp only [List.length_append, List.length_singleton] at hset
  omega

/-! ### Setting and getting -/

/-- A key that can be set and got: it holds no `=` and no newline, and it fits the buffer. -/
structure IsKvKey (key : Bytes) : Prop where
  no_eq : (61 : UInt8) ∉ key
  no_newline : newline ∉ key
  length_le : key.length ≤ 253

/-- **Setting and getting**: after a value was set, it is what is got, cut to the buffer; every
other key gets what it got before; there is one line of the key, and the other lines are those
from before in their order; and setting the same value again changes nothing. The text fits the
buffer that is allocated for it (`length_kvSetText_lt`). -/
theorem kv_set_get {text out : Bytes} {ws ws' : Workspace} (hkey : IsKvKey key)
    (hvalue : newline ∉ value) (hset : tpbRafKernelMetaKvSet text key value ws = .ok out ws') :
    (∀ n, 0 < n → tpbRafKernelMetaKvGet out key n = .ok (value.take (n - 1))) ∧
      (∀ k n, IsKvKey k → k ≠ key →
        tpbRafKernelMetaKvGet out k n = tpbRafKernelMetaKvGet text k n) ∧
      ((kvLines out).filter (isKeyLine key)).length = 1 ∧
      (kvLines out).filter (!isKeyLine key ·) = (kvLines text).filter (!isKeyLine key ·) ∧
      ∀ out' ws'', tpbRafKernelMetaKvSet out key value ws' = .ok out' ws'' → out' = out := by
  have hrun {t o : Bytes} {s s' : Workspace}
      (h : tpbRafKernelMetaKvSet t key value s = .ok o s') : o = kvSetText t key value := by
    rw [tpbRafKernelMetaKvSet] at h
    split_ifs at h
    · cases h
    · cases h
      rfl
  obtain rfl := hrun hset
  have hline := isKeyLine_line key value
  have hlines := kvLines_kvSetText hkey.no_newline hkey.length_le hvalue text
  refine ⟨?_, ?_, ?_, ?_, ?_⟩
  · intro n hn
    rw [tpbRafKernelMetaKvGet_eq hkey.no_newline hkey.length_le hn, hlines,
      Keyed.find_setFirst hline]
    have hdrop : (key ++ [61] ++ value).drop (key.length + 1) = value :=
      List.drop_left' (List.length_append)
    simp only [lineValue, hdrop]
  · intro k n hk hne
    rcases Nat.eq_zero_or_pos n with rfl | hn
    · rfl
    · have hdisjoint (l : Bytes) (hl : isKeyLine key l = true) : isKeyLine k l = false := by
        by_contra hkl
        rw [Bool.not_eq_false] at hkl
        exact hne ((takeWhile_of_isKeyLine hk.no_eq hkl).symm.trans
          (takeWhile_of_isKeyLine hkey.no_eq hl))
      rw [tpbRafKernelMetaKvGet_eq hk.no_newline hk.length_le hn,
        tpbRafKernelMetaKvGet_eq hk.no_newline hk.length_le hn, hlines,
        Keyed.find_setFirst_of_disjoint hline hdisjoint]
  · rw [hlines, Keyed.filter_setFirst hline]
    rfl
  · rw [hlines, Keyed.filter_not_setFirst hline]
  · intro out' ws'' hagain
    rw [hrun hagain, kvSetText_eq hkey.no_newline hkey.length_le, hlines,
      Keyed.setFirst_setFirst hline, kvSetText_eq hkey.no_newline hkey.length_le]

/-- Two lines of one key, and a last line without a newline. -/
theorem kv_set_get_twice :
    tpbRafKernelMetaKvSet (ascii "a=1\nab=2\na=3".toList) (ascii "a".toList)
        (ascii "4".toList) Workspace.empty =
      .ok (ascii "a=4\nab=2\n".toList) Workspace.empty ∧
    tpbRafKernelMetaKvGet (ascii "a=4\nab=2\n".toList) (ascii "a".toList) 8 =
      .ok (ascii "4".toList) := by
  have hset : tpbRafKernelMetaKvSet (ascii "a=1\nab=2\na=3".toList) (ascii "a".toList)
      (ascii "4".toList) Workspace.empty =
        .ok (ascii "a=4\nab=2\n".toList) Workspace.empty := rfl
  have hkey : IsKvKey (ascii "a".toList) := ⟨by decide, by decide, by decide⟩
  exact ⟨hset, (kv_set_get hkey (by decide) hset).1 8 (by decide)⟩

end Lines

end TPBench
